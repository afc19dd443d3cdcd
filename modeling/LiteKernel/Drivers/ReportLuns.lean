import LiteKernel.Lib.Bytes
import LiteKernel.Mm.SlabPartition

/-!
# The LUNs that a target reports

`scsi_report_lun_scan` asks the device for its list of LUNs, with a larger buffer if the list does
not fit. The length of the list comes from the device, and three sums are made with it in 32 bits:
by the test whether it fits, by `kmalloc`, which adds a header, and by `size_to_order`, which
doubles a size until it is large enough and does not end above two gigabytes.

Main results:

- Lemma `reportLoop_iff`: the rounds of the loop, by induction on what is left below the limit.
- Theorem `reportLunScan_bounded_iff`: when the scan ends and stays inside its buffer.
- Theorem `hugeAnswer_out_of_bounds`: a length that overflows the test.
-/

namespace LiteKernel.Drivers.Scsi

open Lib Mm Mm.Slab

/-- An answer of `scsi_execute_cmd`: the data, or a status and sense data. -/
inductive Answer where
  | data (buf : Buffer)
  | failed (status : UInt8) (sense : List UInt8)

/-- The host and its devices: the answers to the commands, by round and attempt. -/
structure ScsiHost where
  maxLun : UInt64
  /-- There are free pages for the buffer of a round. -/
  pages : Nat → Bool
  executeCmd : Nat → Nat → Answer
  probeAndAddLun : UInt64 → Bool

/-- How the scan ended: the length and the bytes of the last buffer, and the entries read from it. -/
structure LunScan where
  found : Bool
  noReportLuns : Bool
  allocLen : UInt32
  room : Nat
  luns : List UInt64

/-- Bytes of a `struct scsi_lun`. -/
abbrev lunSize : UInt32 := 8

/-- `scsi_sense_is_illegal_request`: the code of an ILLEGAL REQUEST. -/
def illegalRequest (sense : List UInt8) : Option UInt8 :=
  if sense.length < 14 then none
  else if sense.getD 0 0 &&& 0x7F ≠ 0x70 ∧ sense.getD 0 0 &&& 0x7F ≠ 0x71 then none
  else if sense.getD 2 0 &&& 0x0F ≠ 0x05 then none
  else sense[12]?

/-- The length that the first four bytes give. -/
def listLength (buf : Buffer) : UInt32 :=
  (buf 0).toUInt32 <<< 24 ||| (buf 1).toUInt32 <<< 16 ||| (buf 2).toUInt32 <<< 8 |||
    (buf 3).toUInt32

/-- `scsilun_to_int` of an entry. -/
def scsilunToInt (buf : Buffer) (i : Nat) : UInt64 :=
  let byte k := (buf (8 * (i + 1) + k)).toUInt64
  byte 0 <<< 8 ||| byte 1 ||| byte 2 <<< 24 ||| byte 3 <<< 16 ||| byte 4 <<< 40 |||
    byte 5 <<< 32 ||| byte 6 <<< 56 ||| byte 7 <<< 48

/-- The attempts at a command, of which the last is the answer if all fail. -/
def reportLuns (h : ScsiHost) (round : Nat) : Answer :=
  match h.executeCmd round 0 with
  | .data buf => .data buf
  | .failed .. =>
    match h.executeCmd round 1 with
    | .data buf => .data buf
    | .failed .. => h.executeCmd round 2

/--
The bytes that `kmalloc` gives for a size above those of the caches, by way of `kmalloc_large`;
`none` when it does not return.
-/
def kmallocRoom (size : UInt32) (pages : Bool) : Option (Option Nat) :=
  (sizeToOrder (wrap (size.toNat + largeHdrSize))).map fun order =>
    if pages then some (pageSize * 2 ^ order - largeHdrSize) else none

/-- The loop of `scsi_report_lun_scan`, or `none` if it is still running. -/
def reportLoop (h : ScsiHost) : Nat → Nat → UInt32 → Nat → Option LunScan
  | 0, _, _, _ => none
  | fuel + 1, round, allocLen, room =>
    match reportLuns h round with
    | .failed status sense =>
      let cached := status = 0x02 ∧ illegalRequest sense ∈ [some 0x20, some 0x24]
      some ⟨false, cached, allocLen, room, []⟩
    | .data buf =>
      let length := listLength buf
      if allocLen < length + lunSize then
        if 0xFFFFFFFF < length.toUInt64 + 8 then some ⟨false, false, allocLen, room, []⟩
        else
          match kmallocRoom (length + lunSize) (h.pages (round + 1)) with
          | none => none
          | some none => some ⟨false, false, allocLen, room, []⟩
          | some (some room') => reportLoop h fuel (round + 1) (length + lunSize) room'
      else
        let luns := (List.range (length / lunSize).toNat).map (scsilunToInt buf)
        let found := luns.any fun lun => lun < h.maxLun ∧ h.probeAndAddLun lun
        some ⟨found, false, allocLen, room, luns⟩

/-- The first buffer holds 511 LUNs. -/
def reportLunScan (h : ScsiHost) (fuel : Nat) : Option LunScan :=
  if h.maxLun = 0 then some ⟨false, false, 0, 0, []⟩
  else
    match kmallocRoom 4096 (h.pages 0) with
    | none => none
    | some none => some ⟨false, false, 0, 0, []⟩
    | some (some room) => reportLoop h fuel 0 4096 room

/-! ## The answers -/

/-- The length of the list in the answer of a round. -/
def ScsiHost.listed (h : ScsiHost) (round : Nat) : Option UInt32 :=
  match reportLuns h round with
  | .data buf => some (listLength buf)
  | .failed .. => none

/-- The longest list that fits the buffer of a round: that of the round before. -/
def ScsiHost.fitting (h : ScsiHost) : Nat → Nat
  | 0 => 4088
  | round + 1 => ((h.listed round).getD 0).toNat

/-- The answer of a round is a list that does not fit, and there are pages for a larger buffer. -/
def ScsiHost.Asks (h : ScsiHost) (round : Nat) : Prop :=
  (∃ length ∈ h.listed round, h.fitting round < length.toNat) ∧ h.pages (round + 1) = true

/--
The list is short enough for a buffer, with its two headers, of two gigabytes; or its length
overflows in `kmalloc` only, and there are no pages.
-/
def ScsiHost.Short (h : ScsiHost) (round : Nat) : Prop :=
  ∀ length ∈ h.listed round, length.toNat + 24 ≤ 2 ^ 31 ∨
    2 ^ 32 ≤ length.toNat + 24 ∧ length.toNat + 8 < 2 ^ 32 ∧ h.pages (round + 1) = false

/-- The buffer has its length, and the entries that were read are in it. -/
def LunScan.Bounded (scan : LunScan) : Prop :=
  scan.allocLen.toNat ≤ scan.room ∧ scan.luns.length ≤ (scan.allocLen.toNat - 8) / 8

/-- The loop ends, inside its buffer. -/
def Ends (h : ScsiHost) (round : Nat) (allocLen : UInt32) (room : Nat) : Prop :=
  ∃ fuel scan, reportLoop h fuel round allocLen room = some scan ∧ scan.Bounded

/-! ## The memory -/

section

variable {size : UInt32} (pages : Bool)

lemma kmallocRoom_of_le (hsize : size.toNat + 16 ≤ 2 ^ 31) :
    ∃ room, size.toNat ≤ room ∧
      kmallocRoom size pages = some (if pages then some room else none) := by
  obtain ⟨order, horder, hle⟩ := sizeToOrder_of_le hsize
  have hwrap : wrap (size.toNat + largeHdrSize) = size.toNat + 16 :=
    wrap_of_lt (lt_of_le_of_lt hsize (by decide))
  refine ⟨pageSize * 2 ^ order - largeHdrSize, Nat.le_sub_of_add_le hle, ?_⟩
  rw [kmallocRoom, hwrap, horder]
  rfl

lemma kmallocRoom_of_lt (hbig : 2 ^ 31 < size.toNat + 16) (hlt : size.toNat + 16 < 2 ^ 32) :
    kmallocRoom size pages = none := by
  have hwrap : wrap (size.toNat + largeHdrSize) = size.toNat + 16 := wrap_of_lt hlt
  have hnone : sizeToOrder (size.toNat + 16) = none := sizeToOrderFrom_of_lt (k := 0) hbig 21
  rw [kmallocRoom, hwrap, hnone]
  rfl

/-- The header makes the size overflow, and one page is taken. -/
lemma kmallocRoom_of_overflow (hbig : 2 ^ 32 ≤ size.toNat + 16) :
    kmallocRoom size pages = some (if pages then some 4080 else none) := by
  have hlt := size.toNat_lt
  have hsmall : ¬ pageSize < wrap (size.toNat + largeHdrSize) := by
    unfold wrap pageSize largeHdrSize
    omega
  rw [kmallocRoom, sizeToOrder, sizeToOrderFrom, if_neg hsmall]
  rfl

end

/-! ## The loop -/

variable {h : ScsiHost} {allocLen length : UInt32} {fuel round room : Nat} {scan : LunScan}

lemma toNat_add_lunSize (hlt : length.toNat + 8 < 2 ^ 32) :
    (length + lunSize).toNat = length.toNat + 8 := by
  rw [UInt32.toNat_add]
  exact Nat.mod_eq_of_lt hlt

/-- A buffer that is shorter than its length stays so. -/
lemma not_bounded_of_overflow (hrun : reportLoop h fuel round allocLen room = some scan)
    (hbig : 2 ^ 32 ≤ allocLen.toNat + 16) (hroom : room < allocLen.toNat) : ¬ scan.Bounded := by
  induction fuel generalizing round allocLen room with
  | zero => cases hrun
  | succ fuel ih =>
    have hstop : ∀ {found cached luns}, some (⟨found, cached, allocLen, room, luns⟩ : LunScan) =
        some scan → ¬ scan.Bounded := by
      intro found cached luns heq hb
      cases heq
      exact absurd hb.1 (not_le.mpr hroom)
    rw [reportLoop] at hrun
    cases hrep : reportLuns h round with
    | failed status sense =>
      rw [hrep] at hrun
      exact hstop hrun
    | data buf =>
      rw [hrep] at hrun
      dsimp only at hrun
      split_ifs at hrun with hlong hover
      · exact hstop hrun
      · have hnext : 2 ^ 32 ≤ (listLength buf + lunSize).toNat + 16 :=
          hbig.trans (Nat.add_le_add_right (UInt32.le_iff_toNat_le.mp (UInt32.le_of_lt hlong)) 16)
        rw [kmallocRoom_of_overflow _ hnext] at hrun
        cases hpages : h.pages (round + 1) with
        | false =>
          rw [hpages] at hrun
          exact hstop hrun
        | true =>
          rw [hpages] at hrun
          exact ih hrun hnext (by omega)
      · exact hstop hrun

/-- A scan that has read the list. -/
lemma bounded_read_iff {found : Bool} (f : Nat → UInt64) :
    (⟨found, false, allocLen, room, (List.range (length / lunSize).toNat).map f⟩ :
      LunScan).Bounded ↔
      allocLen.toNat ≤ room ∧ length.toNat / 8 ≤ (allocLen.toNat - 8) / 8 := by
  rw [LunScan.Bounded, List.length_map, List.length_range, UInt32.toNat_div]
  rfl

lemma ends_iff_succ : Ends h round allocLen room ↔
    ∃ fuel scan, reportLoop h (fuel + 1) round allocLen room = some scan ∧ scan.Bounded := by
  constructor
  · rintro ⟨fuel, scan, hrun, hb⟩
    cases fuel with
    | zero => cases hrun
    | succ fuel => exact ⟨fuel, scan, hrun, hb⟩
  · rintro ⟨fuel, scan, hrun, hb⟩
    exact ⟨fuel + 1, scan, hrun, hb⟩

/-- The rounds from one on: that round, and the later ones if it asks for more. -/
lemma forall_rounds_iff {A S : Nat → Prop} :
    (∀ k ≥ round, (∀ j, round ≤ j → j < k → A j) → S k) ↔
      S round ∧ (A round → ∀ k ≥ round + 1, (∀ j, round + 1 ≤ j → j < k → A j) → S k) := by
  constructor
  · intro hall
    refine ⟨hall round le_rfl fun j hj hlt => absurd hlt (not_lt.mpr hj), fun ha k hk hasks => ?_⟩
    refine hall k (by omega) fun j hj hlt => ?_
    rcases hj.eq_or_lt with rfl | hj
    · exact ha
    · exact hasks j hj hlt
  · rintro ⟨hs, hrest⟩ k hk hasks
    rcases hk.eq_or_lt with rfl | hk
    · exact hs
    · exact hrest (hasks round le_rfl hk) k hk fun j hj hlt => hasks j (by omega) hlt

/-- The loop from a round whose buffer is below two gigabytes. -/
lemma reportLoop_iff (n : Nat) (hn : 2 ^ 31 ≤ allocLen.toNat + n)
    (hfit : allocLen.toNat = h.fitting round + 8) (hsmall : allocLen.toNat + 16 ≤ 2 ^ 31)
    (hroom : allocLen.toNat ≤ room) :
    Ends h round allocLen room ↔
      ∀ k ≥ round, (∀ j, round ≤ j → j < k → h.Asks j) → h.Short k := by
  induction n generalizing round allocLen room with
  | zero => omega
  | succ n ih =>
    rw [ends_iff_succ, forall_rounds_iff]
    cases hrep : reportLuns h round with
    | failed status sense =>
      have hlisted : h.listed round = none := by rw [ScsiHost.listed, hrep]
      have hasks : ¬ h.Asks round := by
        rintro ⟨⟨length, hlen, -⟩, -⟩
        rw [hlisted] at hlen
        cases hlen
      have hshort : h.Short round := by
        intro length hlen
        rw [hlisted] at hlen
        cases hlen
      refine iff_of_true ?_ ⟨hshort, fun ha => absurd ha hasks⟩
      simp only [reportLoop, hrep, Option.some.injEq, exists_eq_left']
      exact ⟨0, hroom, Nat.zero_le _⟩
    | data buf =>
      have hlisted : h.listed round = some (listLength buf) := by rw [ScsiHost.listed, hrep]
      have hfits : h.fitting (round + 1) = (listLength buf).toNat := by
        rw [ScsiHost.fitting, hlisted]
        rfl
      have hshort : h.Short round ↔ (listLength buf).toNat + 24 ≤ 2 ^ 31 ∨
          2 ^ 32 ≤ (listLength buf).toNat + 24 ∧ (listLength buf).toNat + 8 < 2 ^ 32 ∧
            h.pages (round + 1) = false := by
        simp [ScsiHost.Short, hlisted]
      have hasks : h.Asks round ↔
          h.fitting round < (listLength buf).toNat ∧ h.pages (round + 1) = true := by
        simp [ScsiHost.Asks, hlisted]
      have hlen := (listLength buf).toNat_lt
      simp only [reportLoop, hrep]
      generalize listLength buf = length at *
      by_cases hover : 2 ^ 32 ≤ length.toNat + 8
      · -- the sum of the test overflows, and the list is read
        have hlong : ¬ allocLen < length + lunSize := by
          rw [UInt32.lt_iff_toNat_lt, UInt32.toNat_add, show lunSize.toNat = 8 from rfl]
          omega
        refine iff_of_false ?_ fun hs => ?_
        · rintro ⟨fuel, scan, hrun, hb⟩
          rw [if_neg hlong] at hrun
          cases hrun
          have := ((bounded_read_iff _).mp hb).2
          omega
        · have := hshort.mp hs.1
          omega
      have hadd := toNat_add_lunSize (not_le.mp hover)
      by_cases hlong : allocLen < length + lunSize
      swap
      · rw [UInt32.lt_iff_toNat_lt, hadd] at hlong
        refine iff_of_true ⟨0, _, if_neg ?_, (bounded_read_iff _).mpr ⟨hroom, by omega⟩⟩
          ⟨hshort.mpr (.inl (by omega)), fun ha => ?_⟩
        · rwa [UInt32.lt_iff_toNat_lt, hadd]
        · have := (hasks.mp ha).1
          omega
      have hfree : ¬ 0xFFFFFFFF < length.toUInt64 + 8 := by
        rw [UInt64.lt_iff_toNat_lt, UInt64.toNat_add, UInt32.toNat_toUInt64]
        have hmod : (length.toNat + (8 : UInt64).toNat) % 2 ^ 64 = length.toNat + 8 :=
          Nat.mod_eq_of_lt (by rw [show (8 : UInt64).toNat = 8 from rfl]; omega)
        rw [hmod]
        exact not_lt.mpr (Nat.le_of_lt_succ (not_le.mp hover))
      simp only [if_pos hlong, if_neg hfree]
      rw [UInt32.lt_iff_toNat_lt, hadd] at hlong
      rcases Nat.lt_or_ge (length.toNat + 24) (2 ^ 32) with hsum | hsum
      · by_cases hbig : 2 ^ 31 < length.toNat + 24
        · rw [kmallocRoom_of_lt _ (by omega) (by omega)]
          refine iff_of_false ?_ fun hs => ?_
          · rintro ⟨fuel, scan, hrun, -⟩
            cases hrun
          · have := hshort.mp hs.1
            omega
        · obtain ⟨room', hroom', hmem⟩ :=
            @kmallocRoom_of_le (length + lunSize) (h.pages (round + 1)) (by omega)
          rw [hmem]
          cases hpages : h.pages (round + 1) with
          | false =>
            refine iff_of_true ⟨0, _, rfl, hroom, Nat.zero_le _⟩
              ⟨hshort.mpr (.inl (by omega)), fun ha => ?_⟩
            have := (hasks.mp ha).2
            rw [hpages] at this
            cases this
          | true =>
            have hnext := @ih (length + lunSize) (round + 1) room' (by omega) (by omega) (by omega)
              hroom'
            exact hnext.trans ⟨fun hall => ⟨hshort.mpr (.inl (by omega)), fun _ => hall⟩,
              fun hall => hall.2 (hasks.mpr ⟨by omega, hpages⟩)⟩
      · rw [kmallocRoom_of_overflow _ (by omega)]
        cases hpages : h.pages (round + 1) with
        | false =>
          refine iff_of_true ⟨0, _, rfl, hroom, Nat.zero_le _⟩
            ⟨hshort.mpr (.inr ⟨hsum, not_le.mp hover, hpages⟩), fun ha => ?_⟩
          have := (hasks.mp ha).2
          rw [hpages] at this
          cases this
        | true =>
          refine iff_of_false ?_ fun hs => ?_
          · rintro ⟨fuel, scan, hrun, hb⟩
            exact not_bounded_of_overflow hrun (by omega) (by omega) hb
          · rcases hshort.mp hs.1 with hle | ⟨-, -, hfalse⟩
            · omega
            · rw [hpages] at hfalse
              cases hfalse

/--
The scan ends, with the entries it read inside a buffer of the length it asked for, exactly if
the list is short in each round that it comes to: after the first buffer could be allocated, and
after lists that did not fit, each longer than the one before.
-/
theorem reportLunScan_bounded_iff (h : ScsiHost) :
    (∃ fuel scan, reportLunScan h fuel = some scan ∧ scan.Bounded) ↔
      (h.maxLun ≠ 0 → h.pages 0 = true → ∀ k, (∀ j < k, h.Asks j) → h.Short k) := by
  unfold reportLunScan
  by_cases hmax : h.maxLun = 0
  · simp only [if_pos hmax]
    exact iff_of_true ⟨0, _, rfl, le_rfl, le_rfl⟩ fun hne => absurd hmax hne
  obtain ⟨room, hroom, hmem⟩ := @kmallocRoom_of_le 4096 (h.pages 0) (by decide)
  simp only [if_neg hmax, hmem]
  cases hpages : h.pages 0 with
  | false => exact iff_of_true ⟨0, _, rfl, le_rfl, le_rfl⟩ fun _ hfalse => by cases hfalse
  | true =>
    refine (reportLoop_iff (2 ^ 31) (Nat.le_add_left _ _) rfl (by decide) hroom).trans ?_
    exact ⟨fun hall _ _ k hk => hall k (Nat.zero_le k) fun j _ => hk j,
      fun hall k _ hk => hall hmax rfl k fun j => hk j (Nat.zero_le j)⟩

/-- A device that always answers with these bytes. -/
def answering (buf : Buffer) : ScsiHost :=
  ⟨1, fun _ => true, fun _ _ => .data buf, fun _ => false⟩

/--
For a length of 2³² - 8 the scan reads 2²⁹ - 1 entries from a buffer of 511; for a length of 2³¹
it does not end.
-/
theorem hugeAnswer_out_of_bounds :
    (∃ scan, reportLunScan (answering fun i => if i = 3 then 0xF8 else 0xFF) 1 = some scan ∧
        scan.allocLen = 4096 ∧ scan.luns.length = 2 ^ 29 - 1) ∧
      ∀ fuel, reportLunScan (answering fun i => if i = 0 then 0x80 else 0) fuel = none := by
  constructor
  · refine ⟨_, rfl, rfl, ?_⟩
    rw [List.length_map, List.length_range]
    decide
  · intro fuel
    cases fuel with
    | zero => rfl
    | succ fuel => rfl

end LiteKernel.Drivers.Scsi
