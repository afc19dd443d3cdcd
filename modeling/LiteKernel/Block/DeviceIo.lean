import LiteKernel.Lib.Bytes
import LiteKernel.Lib.Word

/-!
# The bytes that block I/O moves

`block_device_read` and `block_device_write` of `fs/block_dev.c` cut a request to the size of
the device, split its offset into a sector and a byte offset and submit one bio. The three
drivers put the offset together again, check it, and let the device move bytes: `brd.c` copies
memory, `sd.c` sends a command of ten bytes with a block number and a 16-bit block count, and
`nvme/host/pci.c` sends a command with a count of at most 65536 blocks, by way of a bounce
buffer where the buffer crosses a page.

The device is an array of bytes. A command that it accepts and answers with a good status has
moved the blocks it names; whether and when it answers is part of the hardware, like the
physical address of the buffer and the success of an allocation. `nvme_cq_poll_cid` waits for
the completion of its own command. `virtio_scsi_submit` takes the first one that shows up, and
reads the status from a response that it has set to zero before. Pointers are never `NULL`
here, and the block device of a disk is found.

Main results:

- Theorem `blockDeviceIo_exact_iff`: when a call has moved exactly the bytes it reports.
- Theorem `sd_moves_nothing`: a request for 65536 sectors, and a request that takes a late
  completion for its own, are reported as read, and nothing is.
-/

namespace LiteKernel.Block

open Lib

/-! ## Moving bytes -/

/-- The device content and the buffer. -/
structure Medium where
  dev : Buffer
  buf : Buffer

/-- The bytes `[start, start + n)` of the device are written from, or read into, the buffer. -/
def Medium.move (m : Medium) (write : Bool) (start n : Nat) : Medium :=
  if write then { m with dev := memcpyAt m.dev start (bytesAt m.buf 0 n) }
  else { m with buf := memcpyAt m.buf 0 (bytesAt m.dev start n) }

/-! ## Drivers -/

/-- `struct bio`, as the two functions of `fs/block_dev.c` fill it in. -/
structure BioRequest where
  sector : Nat
  byteOffset : Nat
  size : Nat
  write : Bool

/-- The offset as the drivers compute it. -/
def BioRequest.offset (bio : BioRequest) : Nat :=
  wrap (wrap (bio.sector * 512) + bio.byteOffset)

/-- The answer of a device: it has accepted the command, and its status is good. -/
structure Answer where
  accepted : Bool
  good : Bool

/-- What a request finds in the machine. -/
structure Hardware where
  /-- There is memory for the command, and room for it in the queue of the device. -/
  sent : Bool
  /-- The answer to the command, if it comes before the driver stops waiting. -/
  answer : Option Answer
  /-- The completion of an earlier command, which the driver gave up, shows up meanwhile. -/
  late : Bool
  /-- The physical address of the buffer, modulo the page size; none if it is not mapped. -/
  pageOffset : Option Nat
  /-- The bounce buffer is allocated and mapped. -/
  bounce : Option Buffer

/-- `ramdisk_request_fn` for one bio: whether it succeeds, and what it moves. -/
def ramdiskRequest (devSize : Nat) (bio : BioRequest) (m : Medium) : Bool × Medium :=
  if bio.size = 0 then (false, m)
  else if bio.offset ≥ devSize ∨ wrap (bio.offset + bio.size) > devSize then (false, m)
  else (true, m.move bio.write bio.offset bio.size)

/-- The ten bytes that `scsi_read10` and `scsi_write10` build. -/
def cdb10 (write : Bool) (lba blocks : Nat) : List UInt8 :=
  [if write then 0x2A else 0x28, 0, UInt8.ofNat (lba / 16777216), UInt8.ofNat (lba / 65536),
    UInt8.ofNat (lba / 256), UInt8.ofNat lba, 0, UInt8.ofNat (blocks / 256), UInt8.ofNat blocks, 0]

/-- The block number and the block count that the device reads from a command. -/
def decode10 (cdb : List UInt8) : Nat × Nat :=
  ((cdb.getD 2 0).toNat * 16777216 + (cdb.getD 3 0).toNat * 65536 + (cdb.getD 4 0).toNat * 256 +
      (cdb.getD 5 0).toNat,
    (cdb.getD 7 0).toNat * 256 + (cdb.getD 8 0).toNat)

/-- The device carries the command out. -/
def Hardware.CarriesOut (hw : Hardware) : Prop :=
  hw.answer = some ⟨true, true⟩

instance (hw : Hardware) : Decidable hw.CarriesOut :=
  match h : hw.answer with
  | some ⟨true, true⟩ => isTrue h
  | none | some ⟨false, _⟩ | some ⟨_, false⟩ => isFalse fun hc => by cases h.symm.trans hc

/--
`scsi_execute_cmd` by way of `virtio_scsi_submit` returns 0: some completion shows up, whichever
it is, and the status in the response is good, as it is before the device writes it. The field
that says whether the command was accepted is not looked at.
-/
def Hardware.scsiExecuteCmd (hw : Hardware) : Bool :=
  hw.sent && (hw.late || hw.answer.isSome) && hw.answer.elim true Answer.good

/-- `nvme_submit_sync_io_cmd` returns 0: the status of the command's own completion is good. -/
def Hardware.nvmeSubmitSyncIoCmd (hw : Hardware) : Bool :=
  hw.sent && hw.answer.elim false Answer.good

/-- `scsi_disk_request_fn` for one bio, on a device with blocks of `sectorSize` bytes. -/
def scsiDiskRequest (sectorSize : Nat) (hw : Hardware) (devSize : Nat) (bio : BioRequest)
    (m : Medium) : Bool × Medium :=
  if wrap (bio.offset + bio.size) > devSize ∨ sectorSize = 0 then (false, m)
  else if bio.offset % sectorSize ≠ 0 ∨ bio.size % sectorSize ≠ 0 then (false, m)
  else
    let lba := bio.offset / sectorSize
    let blocks := bio.size / sectorSize % 65536
    if hw.scsiExecuteCmd then
      let cmd := decode10 (cdb10 bio.write lba blocks)
      (true, if hw.CarriesOut then m.move bio.write (cmd.1 * sectorSize) (cmd.2 * sectorSize)
        else m)
    else (false, m)

/-- The fields of an I/O command that name the blocks. -/
structure NvmeCommand where
  cdw10 : Nat
  cdw11 : Nat
  cdw12 : Nat

/-- The controller moves the blocks of a command; `lbaShift` is its own block size. -/
def NvmeCommand.exec (cmd : NvmeCommand) (write : Bool) (lbaShift : Nat) (m : Medium) : Medium :=
  m.move write ((cmd.cdw10 + 4294967296 * cmd.cdw11) * 2 ^ lbaShift)
    ((cmd.cdw12 % 65536 + 1) * 2 ^ lbaShift)

/-- `nvme_io_rw`. -/
def nvmeIoRw (lbaShift : Nat) (hw : Hardware) (write : Bool) (lba nlb len : Nat) (m : Medium) :
    Bool × Medium :=
  if nlb = 0 then (false, m)
  else
    match hw.pageOffset with
    | none => (false, m)
    | some off =>
        if len > 4096 then (false, m)
        else
          let cmd : NvmeCommand := ⟨lba % 4294967296, lba / 4294967296, (nlb - 1) % 65536⟩
          if (off + len + 4095) / 4096 > 1 then
            match hw.bounce with
            | none => (false, m)
            | some bounce =>
                let dma := if write then memcpyAt bounce 0 (bytesAt m.buf 0 len) else bounce
                if hw.nvmeSubmitSyncIoCmd then
                  let r := cmd.exec write lbaShift ⟨m.dev, dma⟩
                  (true, ⟨r.dev, if write then m.buf else memcpyAt m.buf 0 (bytesAt r.buf 0 len)⟩)
                else (false, m)
          else if hw.nvmeSubmitSyncIoCmd then (true, cmd.exec write lbaShift m)
          else (false, m)

/-- `nvme_request_fn` for one bio; a shift is defined below 32 only. -/
def nvmeRequest (lbaShift : Fin 32) (hw : Hardware) (devSize : Nat) (bio : BioRequest) (m : Medium) :
    Bool × Medium :=
  let lbaSize := 2 ^ lbaShift.val
  if bio.size = 0 then (false, m)
  else if wrap (bio.offset + bio.size) > devSize then (false, m)
  else if bio.offset % lbaSize ≠ 0 ∨ bio.size % lbaSize ≠ 0 then (false, m)
  else
    nvmeIoRw lbaShift.val hw bio.write (bio.offset / lbaSize) (bio.size / lbaSize) bio.size m

/-- The three drivers, with the block size of the device. -/
inductive Driver where
  | brd
  | sd (sectorSize : Nat)
  | nvme (lbaShift : Fin 32)

/-- The `request_fn` of a driver, for one bio. -/
def Driver.request (drv : Driver) (hw : Hardware) (devSize : Nat) (bio : BioRequest) (m : Medium) :
    Bool × Medium :=
  match drv with
  | .brd => ramdiskRequest devSize bio m
  | .sd sectorSize => scsiDiskRequest sectorSize hw devSize bio m
  | .nvme lbaShift => nvmeRequest lbaShift hw devSize bio m

/-! ## Submission -/

/--
What a submission finds: whether a `request_fn` of the queue is running, which then serves the
request later; whether the queue is full; and whether there is memory for a request.
-/
structure Queue where
  running : Bool
  full : Bool
  mem : Bool

/-- `submit_bio`, up to its return: whether no error shows in the bio, and what was moved. -/
def submit (drv : Driver) (hw : Hardware) (q : Queue) (devSize : Nat) (bio : BioRequest)
    (m : Medium) : Bool × Medium :=
  if q.full then (false, m)
  else if ¬ q.mem then (false, m)
  else if q.running then (true, m)
  else drv.request hw devSize bio m

/-- The size of a request after it is cut to the device. -/
def cutSize (devSize offset size : Nat) : Nat :=
  if size > devSize - offset then wrap (devSize - offset) else size

/-- The callers return the size unless an error shows. -/
def report (size : Nat) : Bool × Medium → Nat × Medium
  | (true, m) => (size, m)
  | (false, m) => (0, m)

/-- `block_device_read` and `block_device_write`: the result, and what was moved before it. -/
def blockDeviceIo (drv : Driver) (hw : Hardware) (q : Queue) (devSize : Nat) (write : Bool)
    (offset size : Nat) (m : Medium) : Nat × Medium :=
  if size = 0 then (0, m)
  else if offset ≥ devSize then (0, m)
  else
    let size := cutSize devSize offset size
    report size (submit drv hw q devSize ⟨offset / 512, offset % 512, size, write⟩ m)

/-! ## Bytes that are moved -/

section

/-- A transfer of fewer bytes is told apart from the whole one by some content. -/
lemma exists_move_ne (write : Bool) (start : Nat) {k n : Nat} (h : k < n) :
    ∃ m : Medium, m.move write start k ≠ m.move write start n := by
  have hne : ∀ off src, memcpyAt (fun _ => 0) off (bytesAt (fun _ => 1) src k) ≠
      memcpyAt (fun _ => 0) off (bytesAt (fun _ => 1) src n) := by
    intro off src heq
    have hbyte := congrFun heq (off + k)
    rw [memcpyAt_of_not_mem (by simp), memcpyAt_of_mem (by simpa using h)] at hbyte
    simp [bytesAt] at hbyte
  cases write with
  | true => exact ⟨⟨fun _ => 0, fun _ => 1⟩, fun heq => hne _ _ (congrArg Medium.dev heq)⟩
  | false => exact ⟨⟨fun _ => 1, fun _ => 0⟩, fun heq => hne _ _ (congrArg Medium.buf heq)⟩

lemma move_zero (m : Medium) (write : Bool) (start : Nat) : m.move write start 0 = m := by
  have hcopy : ∀ (b : Buffer) (off : Nat), memcpyAt b off [] = b := by
    intro b off
    funext i
    exact memcpyAt_of_not_mem (by simp only [List.length_nil]; omega)
  cases write with
  | true => simp [Medium.move, bytesAt, hcopy]
  | false => simp [Medium.move, bytesAt, hcopy]

lemma move_bounce (m : Medium) (bounce : Buffer) (write : Bool) (start n : Nat) :
    (let dma := if write then memcpyAt bounce 0 (bytesAt m.buf 0 n) else bounce
     let r := Medium.move ⟨m.dev, dma⟩ write start n
     (⟨r.dev, if write then m.buf else memcpyAt m.buf 0 (bytesAt r.buf 0 n)⟩ : Medium)) =
      m.move write start n := by
  have hback : ∀ (b : Buffer) (l : List UInt8), l.length = n →
      bytesAt (memcpyAt b 0 l) 0 n = l := by
    rintro b l rfl
    exact bytesAt_memcpyAt b 0 l
  cases write with
  | true => simp [Medium.move, hback]
  | false => simp [Medium.move, hback]

end

/-! ## Requests -/

section

variable {devSize offset n : Nat} {write : Bool} {hw : Hardware}

/-- The bio that stands for a range of the device. -/
def bioFor (offset n : Nat) (write : Bool) : BioRequest :=
  ⟨offset / 512, offset % 512, n, write⟩

lemma bioOffset_eq (h : offset < 4294967296) : (bioFor offset n write).offset = offset := by
  unfold BioRequest.offset bioFor wrap
  simp only
  omega

/-- A range inside the device passes the check of the drivers, also where its end overflows. -/
lemma wrap_le_devSize (h : offset + n ≤ devSize) : ¬ wrap (offset + n) > devSize := by
  have hle : wrap (offset + n) ≤ offset + n := Nat.mod_le _ _
  omega

/-- The device decodes the block number and the count that the driver put into the command. -/
lemma decode10_cdb10 {lba blocks : Nat} (hlba : lba < 4294967296) (hblocks : blocks < 65536) :
    decode10 (cdb10 write lba blocks) = (lba, blocks) := by
  simp [decode10, cdb10]
  omega

lemma ramdiskRequest_eq (hoff : offset < 4294967296) (hn : n ≠ 0) (h : offset + n ≤ devSize)
    (m : Medium) :
    ramdiskRequest devSize (bioFor offset n write) m = (true, m.move write offset n) := by
  have hcheck : ¬ (offset ≥ devSize ∨ wrap (offset + n) > devSize) :=
    not_or.mpr ⟨by omega, wrap_le_devSize h⟩
  unfold ramdiskRequest
  rw [bioOffset_eq hoff]
  exact (if_neg hn).trans (if_neg hcheck)

/-- The requests that `scsi_disk_request_fn` sends to the device and reports as done. -/
structure SdServes (sectorSize offset n : Nat) (hw : Hardware) : Prop where
  size : sectorSize ≠ 0
  offset : offset % sectorSize = 0
  count : n % sectorSize = 0
  done : hw.scsiExecuteCmd = true

lemma scsiDiskRequest_of_serves {sectorSize : Nat} (hoff : offset < 4294967296)
    (h : offset + n ≤ devSize) (hs : SdServes sectorSize offset n hw) (m : Medium) :
    scsiDiskRequest sectorSize hw devSize (bioFor offset n write) m =
      (true, if hw.CarriesOut then m.move write offset (n / sectorSize % 65536 * sectorSize)
        else m) := by
  have hcheck : ¬ (wrap (offset + n) > devSize ∨ sectorSize = 0) :=
    not_or.mpr ⟨wrap_le_devSize h, hs.size⟩
  have haligned : ¬ (offset % sectorSize ≠ 0 ∨ n % sectorSize ≠ 0) :=
    not_or.mpr ⟨not_not.mpr hs.offset, not_not.mpr hs.count⟩
  have hlba : offset / sectorSize < 4294967296 := lt_of_le_of_lt (Nat.div_le_self _ _) hoff
  have hblocks : n / sectorSize % 65536 < 65536 := Nat.mod_lt _ (by decide)
  unfold scsiDiskRequest
  rw [bioOffset_eq hoff]
  simp only [bioFor, if_neg hcheck, if_neg haligned, hs.done, if_true,
    decode10_cdb10 hlba hblocks, Nat.div_mul_cancel (Nat.dvd_of_mod_eq_zero hs.offset)]

lemma scsiDiskRequest_of_not_serves {sectorSize : Nat} (hoff : offset < 4294967296)
    (hs : ¬ SdServes sectorSize offset n hw) (m : Medium) :
    scsiDiskRequest sectorSize hw devSize (bioFor offset n write) m = (false, m) := by
  unfold scsiDiskRequest
  rw [bioOffset_eq hoff]
  by_cases hcheck : wrap (offset + n) > devSize ∨ sectorSize = 0
  · exact if_pos hcheck
  refine (if_neg hcheck).trans ?_
  by_cases haligned : offset % sectorSize ≠ 0 ∨ n % sectorSize ≠ 0
  · exact if_pos haligned
  refine (if_neg haligned).trans (if_neg fun hdone => hs ?_)
  rw [not_or] at hcheck haligned
  exact ⟨hcheck.2, not_not.mp haligned.1, not_not.mp haligned.2, hdone⟩

lemma nvmeIoRw_cases {lbaShift lba nlb : Nat} (m : Medium) :
    nvmeIoRw lbaShift hw write lba nlb (nlb * 2 ^ lbaShift) m = (false, m) ∨
      nvmeIoRw lbaShift hw write lba nlb (nlb * 2 ^ lbaShift) m =
        (true, m.move write (lba * 2 ^ lbaShift) (nlb * 2 ^ lbaShift)) := by
  by_cases hnlb : nlb = 0
  · exact .inl (by rw [nvmeIoRw, if_pos hnlb])
  rcases hoff : hw.pageOffset with _ | off
  · exact .inl (by rw [nvmeIoRw, if_neg hnlb, hoff])
  by_cases hlen : nlb * 2 ^ lbaShift > 4096
  · exact .inl (by simp only [nvmeIoRw, if_neg hnlb, hoff, if_pos hlen])
  have hle : nlb ≤ nlb * 2 ^ lbaShift := Nat.le_mul_of_pos_right _ (Nat.two_pow_pos _)
  have hexec : ∀ m : Medium,
      NvmeCommand.exec ⟨lba % 4294967296, lba / 4294967296, (nlb - 1) % 65536⟩ write lbaShift m =
        m.move write (lba * 2 ^ lbaShift) (nlb * 2 ^ lbaShift) := by
    intro m
    have hlba : lba % 4294967296 + 4294967296 * (lba / 4294967296) = lba := Nat.mod_add_div _ _
    have hcount : (nlb - 1) % 65536 % 65536 + 1 = nlb := by omega
    rw [NvmeCommand.exec, hlba, hcount]
  by_cases hpages : (off + nlb * 2 ^ lbaShift + 4095) / 4096 > 1
  · rcases hbounce : hw.bounce with _ | bounce
    · exact .inl (by simp only [nvmeIoRw, if_neg hnlb, hoff, if_neg hlen, if_pos hpages, hbounce])
    rcases hdone : hw.nvmeSubmitSyncIoCmd with _ | _
    · exact .inl (by simp [nvmeIoRw, hnlb, hoff, hlen, hpages, hbounce, hdone])
    · right
      simp only [nvmeIoRw, if_neg hnlb, hoff, if_neg hlen, if_pos hpages, hbounce, hdone,
        if_true, hexec]
      rw [← move_bounce m bounce write (lba * 2 ^ lbaShift) (nlb * 2 ^ lbaShift)]
  · rcases hdone : hw.nvmeSubmitSyncIoCmd with _ | _
    · exact .inl (by simp [nvmeIoRw, hnlb, hoff, hlen, hpages, hdone])
    · right
      simp only [nvmeIoRw, if_neg hnlb, hoff, if_neg hlen, if_neg hpages, hdone, if_true, hexec]

lemma nvmeRequest_cases {lbaShift : Fin 32} (hoff : offset < 4294967296) (m : Medium) :
    nvmeRequest lbaShift hw devSize (bioFor offset n write) m = (false, m) ∨
      nvmeRequest lbaShift hw devSize (bioFor offset n write) m =
        (true, m.move write offset n) := by
  unfold nvmeRequest
  rw [bioOffset_eq hoff]
  by_cases hsize : n = 0
  · exact .inl (if_pos hsize)
  by_cases hcheck : wrap (offset + n) > devSize
  · exact .inl ((if_neg hsize).trans (if_pos hcheck))
  by_cases haligned : offset % 2 ^ lbaShift.val ≠ 0 ∨ n % 2 ^ lbaShift.val ≠ 0
  · exact .inl ((if_neg hsize).trans ((if_neg hcheck).trans (if_pos haligned)))
  have hpass : ∀ r, (if n = 0 then (false, m) else if wrap (offset + n) > devSize then (false, m)
      else if offset % 2 ^ lbaShift.val ≠ 0 ∨ n % 2 ^ lbaShift.val ≠ 0 then (false, m) else r) =
        r := fun r => (if_neg hsize).trans ((if_neg hcheck).trans (if_neg haligned))
  rw [not_or, not_not, not_not] at haligned
  have hn := Nat.div_mul_cancel (Nat.dvd_of_mod_eq_zero haligned.2)
  have hlba := Nat.div_mul_cancel (Nat.dvd_of_mod_eq_zero haligned.1)
  have hcases := @nvmeIoRw_cases write hw lbaShift.val (offset / 2 ^ lbaShift.val)
    (n / 2 ^ lbaShift.val) m
  rw [hn, hlba] at hcases
  rcases hcases with hr | hr
  · exact .inl ((hpass _).trans hr)
  · exact .inr ((hpass _).trans hr)

end

/-! ## The calls -/

/-- The request is put into the queue. -/
structure Submitted (q : Queue) (devSize offset size : Nat) : Prop where
  size : size ≠ 0
  offset : offset < devSize
  room : q.full = false
  mem : q.mem = true

section Calls

variable {devSize offset size : Nat}

lemma cutSize_spec (hsize : size ≠ 0) (hlt : size < 4294967296) (h : offset < devSize) :
    cutSize devSize offset size ≠ 0 ∧ offset + cutSize devSize offset size ≤ devSize := by
  unfold cutSize
  split_ifs with hcut
  · rw [wrap_of_lt (by omega)]
    omega
  · omega

section

variable (drv : Driver) (hw : Hardware) {q : Queue} (write : Bool) (m : Medium)
include drv hw write m

lemma blockDeviceIo_of_not_submitted (h : ¬ Submitted q devSize offset size) :
    (blockDeviceIo drv hw q devSize write offset size m).1 = 0 := by
  unfold blockDeviceIo submit
  by_cases hsize : size = 0
  · rw [if_pos hsize]
  by_cases hoff : offset ≥ devSize
  · rw [if_neg hsize, if_pos hoff]
  rw [if_neg hsize, if_neg hoff]
  rcases hfull : q.full with _ | _
  · rcases hmem : q.mem with _ | _
    · rfl
    · exact absurd ⟨hsize, not_le.mp hoff, hfull, hmem⟩ h
  · rfl

lemma blockDeviceIo_of_idle (h : Submitted q devSize offset size) (hidle : q.running = false) :
    blockDeviceIo drv hw q devSize write offset size m =
      report (cutSize devSize offset size)
        (drv.request hw devSize (bioFor offset (cutSize devSize offset size) write) m) := by
  unfold blockDeviceIo submit
  rw [if_neg h.size, if_neg (not_le.mpr h.offset), h.room, h.mem, hidle]
  rfl

lemma blockDeviceIo_of_running (h : Submitted q devSize offset size) (hrun : q.running = true) :
    blockDeviceIo drv hw q devSize write offset size m = (cutSize devSize offset size, m) := by
  unfold blockDeviceIo submit
  rw [if_neg h.size, if_neg (not_le.mpr h.offset), h.room, h.mem, hrun]
  rfl

end

/--
A call that reports bytes has moved these bytes of the device, and no others, exactly when a
call that is put into the queue finds the queue idle and, in `sd`, a request that is reported as
done has been carried out, with a block count below 65536.
-/
theorem blockDeviceIo_exact_iff (drv : Driver) (hw : Hardware) (q : Queue) (write : Bool)
    (hoff : offset < 4294967296) (hsize : size < 4294967296) :
    (∀ m : Medium, 0 < (blockDeviceIo drv hw q devSize write offset size m).1 →
        (blockDeviceIo drv hw q devSize write offset size m).2 =
          m.move write offset (blockDeviceIo drv hw q devSize write offset size m).1) ↔
      (Submitted q devSize offset size → q.running = false ∧
        ∀ sectorSize, drv = .sd sectorSize →
          SdServes sectorSize offset (cutSize devSize offset size) hw →
            hw.CarriesOut ∧ cutSize devSize offset size / sectorSize < 65536) := by
  by_cases hsub : Submitted q devSize offset size
  swap
  · refine iff_of_true (fun m hpos => ?_) fun h => absurd h hsub
    rw [blockDeviceIo_of_not_submitted drv hw write m hsub] at hpos
    exact absurd hpos (lt_irrefl 0)
  obtain ⟨hn, hend⟩ := cutSize_spec hsub.size hsize hsub.offset
  simp only [hsub, true_implies]
  rcases hrun : q.running with _ | _
  swap
  · -- the request is still in the queue when the call returns
    refine iff_of_false (fun h => ?_) fun h => Bool.false_ne_true h.1.symm
    obtain ⟨m, hne⟩ := exists_move_ne write offset (pos_of_ne_zero hn)
    have hmove := h m
    rw [blockDeviceIo_of_running drv hw write m hsub hrun] at hmove
    rw [move_zero] at hne
    exact hne (hmove (pos_of_ne_zero hn))
  simp only [blockDeviceIo_of_idle drv hw write _ hsub hrun, true_and]
  generalize cutSize devSize offset size = n at hn hend
  cases drv with
  | brd =>
    refine iff_of_true (fun m _ => ?_) fun ss h => by cases h
    rw [Driver.request, ramdiskRequest_eq hoff hn hend, report]
  | nvme lbaShift =>
    refine iff_of_true (fun m hpos => ?_) fun ss h => by cases h
    rcases @nvmeRequest_cases devSize offset n write hw lbaShift hoff m with hr | hr
    · rw [Driver.request, hr, report] at hpos
      exact absurd hpos (lt_irrefl 0)
    · rw [Driver.request, hr, report]
  | sd ss =>
    simp only [Driver.request, Driver.sd.injEq, forall_eq']
    by_cases hserves : SdServes ss offset n hw
    · simp only [scsiDiskRequest_of_serves hoff hend hserves, report, hserves, true_implies]
      have hpos := pos_of_ne_zero hserves.size
      have hwhole : n / ss * ss = n := Nat.div_mul_cancel (Nat.dvd_of_mod_eq_zero hserves.count)
      by_cases hdone : hw.CarriesOut
      swap
      · -- the completion is that of another command, or the command was not accepted
        refine iff_of_false (fun h => ?_) fun h => hdone h.1
        obtain ⟨m, hne⟩ := exists_move_ne write offset (pos_of_ne_zero hn)
        have hmove := h m (pos_of_ne_zero hn)
        rw [if_neg hdone] at hmove
        rw [move_zero] at hne
        exact hne hmove
      simp only [if_pos hdone]
      by_cases hcount : n / ss < 65536
      · refine iff_of_true (fun m _ => ?_) ⟨hdone, hcount⟩
        rw [Nat.mod_eq_of_lt hcount, hwhole]
      · -- the count in the command is too small
        refine iff_of_false (fun h => ?_) fun h => hcount h.2
        have hfew : n / ss % 65536 * ss < n := by
          calc
            n / ss % 65536 * ss < n / ss * ss :=
              mul_lt_mul_of_pos_right (by omega) hpos
            _ = n := hwhole
        obtain ⟨m, hne⟩ := exists_move_ne write offset hfew
        exact hne (h m (pos_of_ne_zero hn))
    · refine iff_of_true (fun m hpos => ?_) fun h => absurd h hserves
      rw [scsiDiskRequest_of_not_serves hoff hserves, report] at hpos
      exact absurd hpos (lt_irrefl 0)

end Calls

/-- A device that carries out its commands, and a buffer that starts a page. -/
def readyHardware : Hardware :=
  ⟨true, some ⟨true, true⟩, false, some 0, none⟩

/-- The completion of an earlier command shows up, and the device has not answered yet. -/
def lateHardware : Hardware :=
  { readyHardware with answer := none, late := true }

/-- A queue in which nothing is going on. -/
def idleQueue : Queue :=
  ⟨false, false, true⟩

theorem sd_moves_two_pages :
    (∀ m, (blockDeviceIo (.sd 512) readyHardware idleQueue 0x4000000 true 0x1000 0x2000 m).1 =
        0x2000) ∧
      ∀ m : Medium,
        0 < (blockDeviceIo (.sd 512) readyHardware idleQueue 0x4000000 true 0x1000 0x2000 m).1 →
        (blockDeviceIo (.sd 512) readyHardware idleQueue 0x4000000 true 0x1000 0x2000 m).2 =
          m.move true 0x1000
            (blockDeviceIo (.sd 512) readyHardware idleQueue 0x4000000 true 0x1000 0x2000 m).1 := by
  refine ⟨fun m => rfl, ?_⟩
  refine (blockDeviceIo_exact_iff (.sd 512) readyHardware idleQueue true (by decide)
    (by decide)).mpr fun _ => ⟨rfl, fun sectorSize h _ => ⟨rfl, ?_⟩⟩
  obtain rfl : 512 = sectorSize := Driver.sd.inj h
  decide

/--
A request for 65536 sectors, and a request for eight sectors that takes a late completion for
its own, are reported as read, and nothing is.
-/
theorem sd_moves_nothing :
    ¬ (∀ m : Medium,
        0 < (blockDeviceIo (.sd 512) readyHardware idleQueue 0x4000000 false 0 0x2000000 m).1 →
        (blockDeviceIo (.sd 512) readyHardware idleQueue 0x4000000 false 0 0x2000000 m).2 =
          m.move false 0
            (blockDeviceIo (.sd 512) readyHardware idleQueue 0x4000000 false 0 0x2000000 m).1) ∧
      ¬ ∀ m : Medium,
        0 < (blockDeviceIo (.sd 512) lateHardware idleQueue 0x4000000 false 0 0x1000 m).1 →
        (blockDeviceIo (.sd 512) lateHardware idleQueue 0x4000000 false 0 0x1000 m).2 =
          m.move false 0
            (blockDeviceIo (.sd 512) lateHardware idleQueue 0x4000000 false 0 0x1000 m).1 := by
  have hserves : SdServes 512 0 0x2000000 readyHardware := ⟨by decide, rfl, rfl, rfl⟩
  have hserves' : SdServes 512 0 0x1000 lateHardware := ⟨by decide, rfl, rfl, rfl⟩
  have hzero : (0x2000000 / 512 % 65536 * 512 : Nat) = 0 := by decide
  have hmany : ∀ m, blockDeviceIo (.sd 512) readyHardware idleQueue 0x4000000 false 0 0x2000000 m =
      (0x2000000, m) := by
    intro m
    rw [blockDeviceIo_of_idle _ _ _ _ ⟨by decide, by decide, rfl, rfl⟩ rfl,
      show cutSize 0x4000000 0 0x2000000 = 0x2000000 by decide, Driver.request,
      scsiDiskRequest_of_serves (by decide) (by decide) hserves, hzero, move_zero, ite_self, report]
  have hlate : ∀ m, blockDeviceIo (.sd 512) lateHardware idleQueue 0x4000000 false 0 0x1000 m =
      (0x1000, m) := by
    intro m
    rw [blockDeviceIo_of_idle _ _ _ _ ⟨by decide, by decide, rfl, rfl⟩ rfl,
      show cutSize 0x4000000 0 0x1000 = 0x1000 by decide, Driver.request,
      scsiDiskRequest_of_serves (by decide) (by decide) hserves', if_neg (by decide), report]
  simp only [hmany, hlate]
  constructor
  · intro h
    obtain ⟨m, hne⟩ := exists_move_ne false 0 (show 0 < 0x2000000 by decide)
    rw [move_zero] at hne
    exact hne (h m (by decide))
  · intro h
    obtain ⟨m, hne⟩ := exists_move_ne false 0 (show 0 < 0x1000 by decide)
    rw [move_zero] at hne
    exact hne (h m (by decide))

end LiteKernel.Block
