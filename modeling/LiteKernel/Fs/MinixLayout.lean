import LiteKernel.Fs.Minix
import Mathlib.Order.CompletePartialOrder

/-!
# Blocks of a minix disk

The file follows the arithmetic on block numbers: which blocks hold the superblock, the
maps and the inode table, which blocks the positions of a zone lie in, and what one access
to them changes.

`minix_zone_to_block` takes the number of a zone for the number of its first block whatever the
zone size is, and `minix_read_super` does not look at the layout. Zones of more than one block
therefore overlap, and a superblock may put them over the tables.

Main results:

- Theorem `zonesApart_iff`: for which accepted superblocks no block belongs to two zones or to a
  zone and a table.
- Lemmas `fileRead_fileWrite`, `readdir_fileWrite`, `dirLookupEntry_fileWrite`: where zones are
  apart, writing a file leaves the other files and the directories alone.
- Lemma `allocBit_cases`: an allocation from a map takes the first clear bit, or there is none.
-/

namespace LiteKernel.Fs.Minix

open Lib Function

/-! ## Blocks -/

/-- The blocks below `n` are the same on both disks. -/
structure KeepsBelow (n : Nat) (d d' : Disk) : Prop where
  nblocks : d'.nblocks = d.nblocks
  block : ∀ b, b < n → d'.block b = d.block b

namespace KeepsBelow

lemma refl (n : Nat) (d : Disk) : KeepsBelow n d d :=
  ⟨rfl, fun _ _ => rfl⟩

lemma trans {n : Nat} {d d' d'' : Disk} (h : KeepsBelow n d d') (h' : KeepsBelow n d' d'') :
    KeepsBelow n d d'' :=
  ⟨h'.nblocks.trans h.nblocks, fun b hb => (h'.block b hb).trans (h.block b hb)⟩

end KeepsBelow

section Access

variable {d d' : Disk} {b : Nat} {buf : Buffer}

lemma bread_of_lt (h : b < d.nblocks) : d.bread b = some (d.block b) := by
  rw [Disk.bread, if_pos h]

lemma bwrite_of_lt (h : b < d.nblocks) (buf : Buffer) :
    d.bwrite b buf = some { d with block := Function.update d.block b buf } := by
  rw [Disk.bwrite, if_pos h]

lemma bwrite_eq_some (h : d.bwrite b buf = some d') :
    d'.nblocks = d.nblocks ∧ d'.block = Function.update d.block b buf := by
  unfold Disk.bwrite at h
  split_ifs at h
  cases h
  exact ⟨rfl, rfl⟩

lemma keepsBelow_bwrite {n : Nat} (h : d.bwrite b buf = some d') (hn : n ≤ b) :
    KeepsBelow n d d' := by
  obtain ⟨hnblocks, hblock⟩ := bwrite_eq_some h
  refine ⟨hnblocks, fun b' hb' => ?_⟩
  rw [hblock, update_of_ne (by omega)]

end Access

/-! ## Zones -/

/-- The zone numbers that `minix_alloc_zone` hands out. -/
def InData (sb : SuperBlock) (zone : UInt16) : Prop :=
  sb.firstdatazone ≤ zone.toNat ∧ zone.toNat < sb.nzones

/--
The blocks of a zone: the one that `minix_create_child` fills, whatever the zone size is, and
those that the positions of the zone lie in.
-/
def zoneBlocks (sb : SuperBlock) (zone : UInt16) : Set Nat :=
  {b | b = zoneToBlock zone ∨ ∃ pos < zoneSize sb, b = blockFor sb zone pos}

/-- The blocks of the superblock, of the two maps and of the inode table. -/
def tableBlocks (sb : SuperBlock) : Set Nat :=
  {b | b = 1 ∨ (∃ map < sb.imapBlocks, b = 2 + map) ∨
    (∃ map < sb.zmapBlocks, b = 2 + sb.imapBlocks + map) ∨
    ∃ ino, ino ≠ 0 ∧ ino ≤ sb.ninodes ∧ b = inodeBlock sb ino}

/-- The first block behind the inode table. -/
def tableEnd (sb : SuperBlock) : Nat :=
  inodeTableBlock sb + (sb.ninodes + 31) / 32

/-- No block belongs to two zones, or to a zone and a table. -/
structure ZonesApart (sb : SuperBlock) : Prop where
  zones : ∀ z z', InData sb z → InData sb z' → z ≠ z' →
    Disjoint (zoneBlocks sb z) (zoneBlocks sb z')
  tables : ∀ z, InData sb z → Disjoint (zoneBlocks sb z) (tableBlocks sb)

section Zones

variable {sb : SuperBlock}
variable {zone : UInt16}

/-- A zone has a power of two of blocks, or its size overflows to zero. -/
lemma zoneSize_cases (sb : SuperBlock) :
    (sb.sLogZoneSize.toNat % 32 < 22 ∧
        zoneSize sb = blockSize * 2 ^ (sb.sLogZoneSize.toNat % 32)) ∨
      (22 ≤ sb.sLogZoneSize.toNat % 32 ∧ zoneSize sb = 0) := by
  unfold zoneSize
  generalize sb.sLogZoneSize.toNat % 32 = e
  by_cases he : e < 22
  · refine .inl ⟨he, wrap_of_lt ?_⟩
    calc
      blockSize * 2 ^ e ≤ blockSize * 2 ^ 21 :=
        Nat.mul_le_mul_left _ (Nat.pow_le_pow_right (by decide) (by omega))
      _ < 4294967296 := by decide
  · refine .inr ⟨by omega, ?_⟩
    obtain ⟨k, rfl⟩ := Nat.exists_eq_add_of_le (not_lt.mp he)
    rw [pow_add, ← mul_assoc, wrap]
    exact Nat.mul_mod_right _ _

lemma blockFor_of_lt {pos : Nat} (h : pos < zoneSize sb) :
    blockFor sb zone pos = zone.toNat + pos / blockSize := by
  rw [blockFor, zoneToBlock, Nat.mod_eq_of_lt h]

lemma le_blockFor (sb : SuperBlock) (zone : UInt16) (pos : Nat) :
    zone.toNat ≤ blockFor sb zone pos :=
  Nat.le_add_right _ _

lemma mem_zoneBlocks_self (sb : SuperBlock) (zone : UInt16) : zone.toNat ∈ zoneBlocks sb zone :=
  .inl rfl

lemma le_of_mem_zoneBlocks {b : Nat} (h : b ∈ zoneBlocks sb zone) : zone.toNat ≤ b := by
  rcases h with rfl | ⟨pos, -, rfl⟩
  · exact le_rfl
  · exact le_blockFor sb zone pos

/-- A zone that has one block, or is empty, has no other block than the first. -/
lemma eq_of_mem_zoneBlocks {b : Nat} (hsize : zoneSize sb ≤ blockSize)
    (h : b ∈ zoneBlocks sb zone) : b = zone.toNat := by
  rcases h with rfl | ⟨pos, hpos, rfl⟩
  · rfl
  · rw [blockFor_of_lt hpos, Nat.div_eq_of_lt (hpos.trans_le hsize), add_zero]

lemma inodeBlock_eq (sb : SuperBlock) (ino : Nat) :
    inodeBlock sb ino = 2 + sb.imapBlocks + sb.zmapBlocks + (ino - 1) / 32 :=
  rfl

lemma tableEnd_eq (sb : SuperBlock) :
    tableEnd sb = 2 + sb.imapBlocks + sb.zmapBlocks + (sb.ninodes + 31) / 32 :=
  rfl

lemma mem_tableBlocks_iff {b : Nat} :
    b ∈ tableBlocks sb ↔ 1 ≤ b ∧ b < tableEnd sb := by
  rw [tableEnd_eq]
  constructor
  · rintro (rfl | ⟨map, hmap, rfl⟩ | ⟨map, hmap, rfl⟩ | ⟨ino, hino, hle, rfl⟩)
    · omega
    · omega
    · omega
    · rw [inodeBlock_eq]
      omega
  · rintro ⟨hlow, hhigh⟩
    by_cases hsuper : b = 1
    · exact .inl hsuper
    · by_cases himap : b < 2 + sb.imapBlocks
      · exact .inr (.inl ⟨b - 2, by omega, by omega⟩)
      · by_cases hzmap : b < 2 + sb.imapBlocks + sb.zmapBlocks
        · exact .inr (.inr (.inl ⟨b - 2 - sb.imapBlocks, by omega, by omega⟩))
        · refine .inr (.inr (.inr ?_))
          refine ⟨(b - (2 + sb.imapBlocks + sb.zmapBlocks)) * 32 + 1, by omega, by omega, ?_⟩
          rw [inodeBlock_eq]
          omega

lemma readSuper_checks {d : Disk} (h : readSuper d = some sb) :
    sb.ninodes ≠ 0 ∧ sb.firstdatazone ≠ 0 := by
  unfold readSuper at h
  rcases hb : d.bread 1 with _ | blk
  · rw [hb] at h
    cases h
  · rw [hb] at h
    simp only at h
    split_ifs at h with hmagic hzero
    obtain rfl := Option.some.inj h
    rw [not_or] at hzero
    exact ⟨fun h => hzero.1 (UInt16.toNat_inj.mp h), fun h => hzero.2 (UInt16.toNat_inj.mp h)⟩

/--
The zones of an accepted superblock share no block with each other or with the superblock, the
maps and the inode table exactly when there is no data zone, or the data zones start behind the
inode table and have one block at most each or are not more than one.
-/
theorem zonesApart_iff {d : Disk} (h : readSuper d = some sb) :
    ZonesApart sb ↔ sb.nzones ≤ sb.firstdatazone ∨
      (tableEnd sb ≤ sb.firstdatazone ∧
        (sb.sLogZoneSize.toNat % 32 = 0 ∨ 22 ≤ sb.sLogZoneSize.toNat % 32 ∨
          sb.nzones = sb.firstdatazone + 1)) := by
  have hfirst := (readSuper_checks h).2
  have hnz : sb.nzones < 65536 := sb.sNzones.toNat_lt
  constructor
  · intro hapart
    by_cases hnone : sb.nzones ≤ sb.firstdatazone
    · exact .inl hnone
    have hdata : InData sb sb.sFirstdatazone := ⟨le_rfl, not_le.mp hnone⟩
    refine .inr ⟨?_, ?_⟩
    · by_contra hlow
      have hmem : sb.firstdatazone ∈ tableBlocks sb :=
        mem_tableBlocks_iff.mpr ⟨pos_of_ne_zero hfirst, not_le.mp hlow⟩
      exact Set.disjoint_left.mp (hapart.tables _ hdata) (mem_zoneBlocks_self sb _) hmem
    · by_contra hmore
      rw [not_or, not_or] at hmore
      -- the first zone has a second block, which is the first block of the next zone
      have hnext : (sb.sFirstdatazone + 1).toNat = sb.firstdatazone + 1 := by
        rw [UInt16.toNat_add]
        exact Nat.mod_eq_of_lt (by show sb.firstdatazone + 1 < 65536; omega)
      have hdata' : InData sb (sb.sFirstdatazone + 1) := by
        unfold InData
        omega
      have hne : sb.sFirstdatazone ≠ sb.sFirstdatazone + 1 := by
        intro heq
        have hval := congrArg UInt16.toNat heq
        rw [hnext] at hval
        exact absurd hval (by show sb.firstdatazone ≠ _; omega)
      have hin : sb.firstdatazone + 1 ∈ zoneBlocks sb sb.sFirstdatazone := by
        have hsize := ((zoneSize_cases sb).resolve_right fun hc => hmore.2.1 hc.1).2
        have htwo := Nat.mul_le_mul_left blockSize (Nat.le_self_pow hmore.1 2)
        have hlt : blockSize < zoneSize sb := by
          rw [hsize]
          exact lt_of_lt_of_le (by decide) htwo
        refine .inr ⟨blockSize, hlt, ?_⟩
        rw [blockFor_of_lt hlt]
        rfl
      have hin' := mem_zoneBlocks_self sb (sb.sFirstdatazone + 1)
      rw [hnext] at hin'
      exact Set.disjoint_left.mp (hapart.zones _ _ hdata hdata' hne) hin hin'
  · intro hok
    refine ⟨fun z z' hz hz' hne => ?_, fun z hz => ?_⟩
    · obtain ⟨hlow, hhigh⟩ := hz
      obtain ⟨hlow', hhigh'⟩ := hz'
      have hval : z.toNat ≠ z'.toNat := fun heq => hne (UInt16.toNat_inj.mp heq)
      have hsize : zoneSize sb ≤ blockSize := by
        rcases zoneSize_cases sb with ⟨hlog, hsize⟩ | ⟨-, hsize⟩
        · rw [hsize, show sb.sLogZoneSize.toNat % 32 = 0 by omega]
          exact le_rfl
        · omega
      rw [Set.disjoint_left]
      intro b hb hb'
      exact hval ((eq_of_mem_zoneBlocks hsize hb).symm.trans (eq_of_mem_zoneBlocks hsize hb'))
    · obtain ⟨hlow, hhigh⟩ := hz
      rw [Set.disjoint_left]
      intro b hb hmem
      have hle := le_of_mem_zoneBlocks hb
      have hlast := (mem_tableBlocks_iff.mp hmem).2
      omega

end Zones

/-- A disk of 64 blocks with the example image. -/
def exampleDisk : Disk :=
  (seedExampleImage ⟨64, fun _ _ => 0⟩).2

theorem exampleDisk_zonesApart :
    readSuper exampleDisk = some exampleSuper ∧ ZonesApart exampleSuper := by
  have hsuper : readSuper exampleDisk = some exampleSuper := by decide +kernel
  exact ⟨hsuper, (zonesApart_iff hsuper).mpr (.inr ⟨by decide, .inl (by decide)⟩)⟩

/-- The example superblock with zones of two blocks. -/
def twoBlockSuper : SuperBlock :=
  { exampleSuper with sLogZoneSize := 1 }

/-- Zones 5 and 6 both have block 6. -/
theorem twoBlockSuper_not_zonesApart :
    readSuper ⟨64, fun _ => memcpyAt (fun _ => 0) 0 twoBlockSuper.toBytes⟩ = some twoBlockSuper ∧
      ¬ ZonesApart twoBlockSuper := by
  refine ⟨by decide +kernel, fun h => ?_⟩
  have hzones := h.zones 5 6 (by unfold InData; decide) (by unfold InData; decide) (by decide)
  have hfirst : 6 ∈ zoneBlocks twoBlockSuper 5 := .inr ⟨1024, by decide, by decide⟩
  have hsecond : 6 ∈ zoneBlocks twoBlockSuper 6 := mem_zoneBlocks_self twoBlockSuper 6
  exact Set.disjoint_left.mp hzones hfirst hsecond

/-! ## Maps -/

/-- The bit `k` of the map that starts at the block `first`. -/
def Marked (d : Disk) (first k : Nat) : Prop :=
  bitmapTest (d.block (first + k / 8192)) (k % 8192) = true

/-- The disk with one more bit of a map set. -/
def Disk.mark (d : Disk) (first k : Nat) : Disk :=
  { d with
    block := Function.update d.block (first + k / 8192)
      (bitmapSet (d.block (first + k / 8192)) (k % 8192)) }

section Maps

variable {d : Disk} {first base limit : Nat}

lemma marked_mark {k j : Nat} : Marked (d.mark first k) first j ↔ j = k ∨ Marked d first j := by
  unfold Marked Disk.mark
  by_cases hblock : j / 8192 = k / 8192
  · have hiff : j % 8192 = k % 8192 ↔ j = k := by
      constructor
      · intro hmod
        omega
      · exact fun h => by rw [h]
    rw [hblock]
    simp only [update_self, bitmapTest_bitmapSet, Bool.or_eq_true, decide_eq_true_eq, hiff]
  · have hne : j ≠ k := fun h => hblock (by rw [h])
    simp only [update_of_ne (show first + j / 8192 ≠ first + k / 8192 by
      omega), hne, false_or]

lemma mark_block_of_ne {k b : Nat} (h : b ≠ first + k / 8192) :
    (d.mark first k).block b = d.block b :=
  update_of_ne h _ _

/-- What the loop over the bits of a block knows when it ends. -/
def ScanEnds (blk : Buffer) (base limit bit n : Nat) : Scan → Prop
  | .outside => ∃ m, bit ≤ m ∧ m < bit + n ∧ limit ≤ base + m ∧
      ∀ j, bit ≤ j → j < m → bitmapTest blk j = true
  | .full => ∀ j, bit ≤ j → j < bit + n → bitmapTest blk j = true
  | .clear m => bit ≤ m ∧ m < bit + n ∧ base + m < limit ∧ bitmapTest blk m = false ∧
      ∀ j, bit ≤ j → j < m → bitmapTest blk j = true

lemma scanBits_ends (blk : Buffer) (base limit n bit : Nat) :
    ScanEnds blk base limit bit n (scanBits blk base limit n bit) := by
  induction n generalizing bit with
  | zero =>
    intro j hlow hhigh
    omega
  | succ n ih =>
    unfold scanBits
    by_cases hlim : base + bit < limit
    · rw [if_neg (not_not.mpr hlim)]
      rcases htest : bitmapTest blk bit with _ | _
      · rw [if_neg Bool.false_ne_true]
        exact ⟨le_rfl, by omega, hlim, htest, fun j hlow hhigh => absurd hhigh (by omega)⟩
      · rw [if_pos rfl]
        have hbit : ∀ m, (∀ j, bit + 1 ≤ j → j < m → bitmapTest blk j = true) →
            ∀ j, bit ≤ j → j < m → bitmapTest blk j = true := by
          intro m hall j hlow hhigh
          rcases eq_or_lt_of_le hlow with rfl | hlt
          · exact htest
          · exact hall j hlt hhigh
        have hrest := ih (bit + 1)
        revert hrest
        rcases scanBits blk base limit n (bit + 1) with _ | _ | m
        · rintro ⟨m, hlow, hhigh, hout, hall⟩
          exact ⟨m, by omega, by omega, hout, hbit m hall⟩
        · intro hall j hlow hhigh
          exact hbit (bit + 1 + n) hall j hlow (by omega)
        · rintro ⟨hlow, hhigh, hin, hclear, hall⟩
          exact ⟨by omega, by omega, hin, hclear, hbit m hall⟩
    · rw [if_pos hlim]
      exact ⟨bit, le_rfl, by omega, by omega, fun j hlow hhigh => absurd hhigh (by omega)⟩

/--
An allocation from a map on the disk fails if all bits below the limit are set, and changes
nothing; or it sets the first clear bit and returns its number.
-/
lemma allocBit_cases {n map : Nat} (hdev : first + map + n ≤ d.nblocks) :
    (allocBit first base limit n map d = (none, d) ∧
      ∀ k, map * 8192 ≤ k → k < (map + n) * 8192 → base + k < limit →
        Marked d first k) ∨
    ∃ k, map * 8192 ≤ k ∧ k < (map + n) * 8192 ∧ base + k < limit ∧
      ¬ Marked d first k ∧ allocBit first base limit n map d = (some (base + k), d.mark first k) := by
  induction n generalizing map with
  | zero =>
    refine .inl ⟨rfl, fun k hlow hhigh => ?_⟩
    omega
  | succ n ih =>
    have hread : d.bread (first + map) = some (d.block (first + map)) := bread_of_lt (by omega)
    have hmarked : ∀ j, j < 8192 →
        (Marked d first (map * 8192 + j) ↔ bitmapTest (d.block (first + map)) j = true) := by
      intro j hj
      have hdiv : (map * 8192 + j) / 8192 = map := by omega
      have hmod : (map * 8192 + j) % 8192 = j := by omega
      rw [Marked, hdiv, hmod]
    have hends := scanBits_ends (d.block (first + map)) (base + map * 8192) limit 8192 0
    simp only [allocBit, hread, show bitsPerBlock = 8192 from rfl]
    rcases hscan : scanBits (d.block (first + map)) (base + map * 8192) limit 8192 0 with _ | _ | m
    · -- the numbers end inside this block
      rw [hscan] at hends
      obtain ⟨m, -, hm, hout, hall⟩ := hends
      refine .inl ⟨rfl, fun k hlow hhigh hlim => ?_⟩
      have hk : k = map * 8192 + (k - map * 8192) := by omega
      rw [hk]
      exact (hmarked _ (by omega)).mpr (hall _ (Nat.zero_le _) (by omega))
    · rw [hscan] at hends
      simp only
      have hdev' : first + (map + 1) + n ≤ d.nblocks := by omega
      have hlast : map + 1 + n = map + (n + 1) := by omega
      rcases ih hdev' with ⟨heq, hall⟩ | ⟨k, hlow, hhigh, hlim, hclear, heq⟩
      · rw [hlast] at hall
        refine .inl ⟨heq, fun k hlow hhigh hlim => ?_⟩
        by_cases hin : k < (map + 1) * 8192
        · have hk : k = map * 8192 + (k - map * 8192) := by omega
          rw [hk]
          exact (hmarked _ (by omega)).mpr (hends _ (Nat.zero_le _) (by omega))
        · exact hall k (not_lt.mp hin) hhigh hlim
      · rw [hlast] at hhigh
        have hlow' : map * 8192 ≤ k := le_trans (Nat.mul_le_mul_right _ (Nat.le_succ map)) hlow
        exact .inr ⟨k, hlow', hhigh, hlim, hclear, heq⟩
    · rw [hscan] at hends
      obtain ⟨-, hm, hlim, hclear, -⟩ := hends
      have hdiv : (map * 8192 + m) / 8192 = map := by omega
      have hmod : (map * 8192 + m) % 8192 = m := by omega
      refine .inr ⟨map * 8192 + m, by omega, by omega, by omega, ?_, ?_⟩
      · rw [hmarked m (by omega), hclear]
        exact Bool.false_ne_true
      · simp only [bwrite_of_lt (show first + map < d.nblocks by omega)]
        rw [Disk.mark, hdiv, hmod, add_assoc]

lemma allocBit_zero_cases {n : Nat} (hdev : first + n ≤ d.nblocks) :
    (allocBit first base limit n 0 d = (none, d) ∧
      ∀ k, k < n * 8192 → base + k < limit → Marked d first k) ∨
    ∃ k < n * 8192, base + k < limit ∧ ¬ Marked d first k ∧
      allocBit first base limit n 0 d = (some (base + k), d.mark first k) := by
  have hcases := @allocBit_cases d first base limit n 0 hdev
  simpa only [zero_mul, zero_add, zero_le, forall_const, true_and] using hcases

end Maps

/-! ## The inode table -/

section

variable {d d' : Disk} {sb : SuperBlock} {ino : Nat} {inode : InodeDisk}

@[simp] lemma length_toBytes (inode : InodeDisk) : inode.toBytes.length = InodeDisk.size := by
  simp [InodeDisk.toBytes, List.finRange_succ]

lemma ofBytes_toBytes (inode : InodeDisk) : InodeDisk.ofBytes inode.toBytes = inode := by
  have hzone : ∀ k : Fin 9, get16 inode.toBytes (14 + 2 * k) = inode.iZone k := by
    intro k
    have hcons : inode.toBytes = (put16 inode.iMode ++ put16 inode.iUid ++ put32 inode.iSize ++
        put32 inode.iMtime ++ [inode.iGid, inode.iNlinks]) ++
          (List.finRange 9).flatMap fun k => put16 (inode.iZone k) := by
      simp [InodeDisk.toBytes]
    rw [hcons, get16_append_right (by simp)]
    simpa using get16_flatMap_put16 inode.iZone k
  have hmode : get16 inode.toBytes 0 = inode.iMode := get16_put16_append _ _
  have huid : get16 inode.toBytes 2 = inode.iUid := by
    rw [InodeDisk.toBytes, get16_append_right (by simp)]
    exact get16_put16_append _ _
  have hsize : get32 inode.toBytes 4 = inode.iSize := by
    rw [InodeDisk.toBytes, get32_append_right (by simp), get32_append_right (by simp)]
    exact get32_put32_append _ _
  have hmtime : get32 inode.toBytes 8 = inode.iMtime := by
    rw [InodeDisk.toBytes, get32_append_right (by simp), get32_append_right (by simp),
      get32_append_right (by simp)]
    exact get32_put32_append _ _
  unfold InodeDisk.ofBytes
  simp only [hmode, huid, hsize, hmtime, hzone]
  rfl

lemma inodeBlock_bounds (hino : ino ≠ 0) (hle : ino ≤ sb.ninodes) :
    inodeTableBlock sb ≤ inodeBlock sb ino ∧ inodeBlock sb ino < tableEnd sb := by
  rw [inodeBlock_eq, tableEnd_eq, inodeTableBlock]
  omega

lemma writeInode_eq (hino : ino ≠ 0) (hle : ino ≤ sb.ninodes) (hdev : tableEnd sb ≤ d.nblocks)
    (inode : InodeDisk) :
    writeInode d sb ino inode = some { d with
      block := Function.update d.block (inodeBlock sb ino)
        (memcpyAt (d.block (inodeBlock sb ino)) (inodeOffset ino) inode.toBytes) } := by
  have hlt : inodeBlock sb ino < d.nblocks :=
    lt_of_lt_of_le (inodeBlock_bounds hino hle).2 hdev
  rw [writeInode, if_neg (by omega), bread_of_lt hlt]
  exact bwrite_of_lt hlt _

section

variable (h : writeInode d sb ino inode = some d')
include h

lemma writeInode_eq_some :
    (ino ≠ 0 ∧ ino ≤ sb.ninodes) ∧ d'.nblocks = d.nblocks ∧ inodeBlock sb ino < d.nblocks ∧
      d'.block = Function.update d.block (inodeBlock sb ino)
        (memcpyAt (d.block (inodeBlock sb ino)) (inodeOffset ino) inode.toBytes) := by
  unfold writeInode at h
  split_ifs at h with hno
  rw [not_or] at hno
  unfold Disk.bread at h
  split_ifs at h with hlt
  obtain ⟨hnblocks, hblock⟩ := bwrite_eq_some h
  exact ⟨⟨hno.1, not_lt.mp hno.2⟩, hnblocks, hlt, hblock⟩

lemma writeInode_block {b : Nat} (hb : b ≠ inodeBlock sb ino) : d'.block b = d.block b:= by
  rw [(writeInode_eq_some h).2.2.2, update_of_ne hb]

lemma readInode_writeInode : readInode d' sb ino = some inode := by
  obtain ⟨⟨hino, hle⟩, hnblocks, hlt, hblock⟩ := writeInode_eq_some h
  have hbytes := bytesAt_memcpyAt (d.block (inodeBlock sb ino)) (inodeOffset ino) inode.toBytes
  rw [length_toBytes] at hbytes
  rw [readInode, if_neg (by omega), bread_of_lt (hnblocks ▸ hlt), hblock, update_self]
  simp only [hbytes, ofBytes_toBytes]

end

end

/-! ## What the file and directory functions access -/

/-- The blocks of the zones of an inode. -/
def inodeBlocks (sb : SuperBlock) (inode : InodeDisk) : Set Nat :=
  {b | ∃ pos, zoneForPos inode sb pos ≠ 0 ∧ b ∈ zoneBlocks sb (zoneForPos inode sb pos)}

/-- The disks have the same size and the same content in the blocks of a set. -/
structure AgreeOn (blocks : Set Nat) (d d' : Disk) : Prop where
  nblocks : d'.nblocks = d.nblocks
  block : ∀ b ∈ blocks, d'.block b = d.block b

section Functions

variable {d d' : Disk} {sb : SuperBlock} {node : Inode} {inode : InodeDisk}

lemma blockFor_mem_inodeBlocks {pos : Nat} (hzone : zoneForPos inode sb pos ≠ 0) :
    blockFor sb (zoneForPos inode sb pos) pos ∈ inodeBlocks sb inode := by
  have hsize : zoneSize sb ≠ 0 := fun hc => hzone (by rw [zoneForPos, if_pos hc])
  have hmod := Nat.mod_lt pos (pos_of_ne_zero hsize)
  refine ⟨pos, hzone, .inr ⟨pos % zoneSize sb, hmod, ?_⟩⟩
  rw [blockFor, blockFor, Nat.mod_mod]

lemma AgreeOn.bread {blocks : Set Nat} {b : Nat} (h : AgreeOn blocks d d') (hb : b ∈ blocks) :
    d'.bread b = d.bread b := by
  rw [Disk.bread, Disk.bread, h.nblocks, h.block b hb]

section Reads

variable (h : AgreeOn (inodeBlocks sb inode) d d')
include h

lemma readLoop_congr (offset size n : Nat) (acc : List UInt8) :
    readLoop d' sb inode offset size n acc = readLoop d sb inode offset size n acc := by
  induction n generalizing acc with
  | zero => rfl
  | succ n ih =>
    by_cases hzone : zoneForPos inode sb (wrap (offset + acc.length)) = 0
    · simp only [readLoop, hzone, if_true]
    · simp only [readLoop, hzone, if_false, h.bread (blockFor_mem_inodeBlocks hzone), ih]

lemma lookupFrom_congr (name : List UInt8) (n pos : Nat) :
    lookupFrom d' sb inode name n pos = lookupFrom d sb inode name n pos := by
  induction n generalizing pos with
  | zero => rfl
  | succ n ih =>
    by_cases hzone : zoneForPos inode sb pos = 0
    · simp only [lookupFrom, hzone, if_true]
    · simp only [lookupFrom, hzone, if_false, h.bread (blockFor_mem_inodeBlocks hzone), ih]

lemma readdirFrom_congr (n pos skip : Nat) :
    readdirFrom d' sb inode n pos skip = readdirFrom d sb inode n pos skip := by
  induction n generalizing pos skip with
  | zero => rfl
  | succ n ih =>
    by_cases hzone : zoneForPos inode sb pos = 0
    · simp only [readdirFrom, hzone, if_true]
    · simp only [readdirFrom, hzone, if_false, h.bread (blockFor_mem_inodeBlocks hzone), ih]

end Reads

lemma fileRead_congr (h : AgreeOn (inodeBlocks sb node.info.dinode) d d') (offset size : Nat) :
    fileRead d' sb node offset size = fileRead d sb node offset size := by
  unfold fileRead
  simp only [readLoop_congr h]

lemma readdir_congr (h : AgreeOn (inodeBlocks sb node.info.dinode) d d') (parent index : Nat) :
    readdir d' sb node parent index = readdir d sb node parent index := by
  unfold readdir
  rw [readdirFrom_congr h]

lemma dirLookupEntry_congr (h : AgreeOn (inodeBlocks sb inode) d d') (name : List UInt8) :
    dirLookupEntry d' sb inode name = dirLookupEntry d sb inode name := by
  unfold dirLookupEntry
  rw [lookupFrom_congr h]

lemma AgreeOn.refl (B : Set Nat) (d : Disk) : AgreeOn B d d :=
  ⟨rfl, fun _ _ => rfl⟩

lemma AgreeOn.bwrite {B : Set Nat} {b : Nat} {buf : Buffer} {d1 : Disk} (h : AgreeOn B d d1)
    (hw : d1.bwrite b buf = some d') (hb : b ∉ B) : AgreeOn B d d' := by
  obtain ⟨hnblocks, hblock⟩ := bwrite_eq_some hw
  refine ⟨hnblocks.trans h.nblocks, fun b' hb' => ?_⟩
  have hne : b' ≠ b := fun hc => hb (hc ▸ hb')
  rw [hblock, update_of_ne hne, h.block b' hb']

lemma writeLoop_agreeOn {B : Set Nat} (offset : Nat) (buffer : List UInt8) (n done : Nat)
    {d1 : Disk} (h : AgreeOn B d d1) (hB : ∀ b ∈ B, b ∉ inodeBlocks sb inode) :
    AgreeOn B d (writeLoop sb inode offset buffer n done d1).2 := by
  induction n generalizing done d1 with
  | zero => exact h
  | succ n ih =>
    unfold writeLoop
    dsimp only
    split
    · exact h
    · split
      · exact h
      · next hzone =>
        split
        · exact h
        · split
          · exact h
          · next hw =>
            exact ih _ (h.bwrite hw fun hc => hB _ hc (blockFor_mem_inodeBlocks hzone))

/-- `minix_file_write` changes blocks of the zones of its file and of the inode table only. -/
lemma fileWrite_agreeOn (offset : Nat) (buffer : List UInt8) :
    AgreeOn (inodeBlocks sb node.info.dinode ∪ tableBlocks sb)ᶜ d
      (fileWrite d sb node offset buffer).2.2 := by
  have hloop := writeLoop_agreeOn offset buffer buffer.length 0
    (AgreeOn.refl (inodeBlocks sb node.info.dinode ∪ tableBlocks sb)ᶜ d)
    fun b hb hc => hb (.inl hc)
  unfold fileWrite
  dsimp only
  split_ifs
  · exact AgreeOn.refl _ d
  · exact AgreeOn.refl _ d
  · exact AgreeOn.refl _ d
  · split
    · exact hloop
    · next hw =>
      obtain ⟨⟨hino, hle⟩, hnblocks, -, -⟩ := writeInode_eq_some hw
      refine ⟨hnblocks.trans hloop.nblocks, fun b hb => ?_⟩
      have hne : b ≠ inodeBlock sb node.info.ino := by
        rintro rfl
        exact hb (.inr (.inr (.inr (.inr ⟨_, hino, hle, rfl⟩))))
      rw [writeInode_block hw hne, hloop.block b hb]
  · exact hloop

/-- The zones of an inode are data zones. -/
def DataZones (sb : SuperBlock) (inode : InodeDisk) : Prop :=
  ∀ pos, zoneForPos inode sb pos ≠ 0 → InData sb (zoneForPos inode sb pos)

section Write

variable {node' : Inode} (hapart : ZonesApart sb) (hdata : DataZones sb node.info.dinode)
  (hdata' : DataZones sb node'.info.dinode)
  (hne : ∀ pos pos', zoneForPos node.info.dinode sb pos ≠ 0 →
    zoneForPos node.info.dinode sb pos ≠ zoneForPos node'.info.dinode sb pos')
include hapart hdata hdata' hne

/-- Where zones are apart, a write to a file leaves the zones of an inode that shares none alone. -/
lemma agreeOn_fileWrite (offset : Nat) (buffer : List UInt8) :
    AgreeOn (inodeBlocks sb node'.info.dinode) d (fileWrite d sb node offset buffer).2.2 := by
  have hagree : AgreeOn _ d (fileWrite d sb node offset buffer).2.2 :=
    fileWrite_agreeOn offset buffer
  refine ⟨hagree.nblocks, fun b hb => hagree.block b ?_⟩
  obtain ⟨pos', hzone', hmem'⟩ := hb
  rintro (⟨pos, hzone, hmem⟩ | htable)
  · exact Set.disjoint_left.mp (hapart.zones _ _ (hdata pos hzone) (hdata' pos' hzone')
      (hne pos pos' hzone)) hmem hmem'
  · exact Set.disjoint_left.mp (hapart.tables _ (hdata' pos' hzone')) hmem' htable

/-- The other files read the same. -/
lemma fileRead_fileWrite (offset : Nat) (buffer : List UInt8) (offset' size : Nat) :
    fileRead (fileWrite d sb node offset buffer).2.2 sb node' offset' size =
      fileRead d sb node' offset' size :=
  fileRead_congr (agreeOn_fileWrite hapart hdata hdata' hne offset buffer) offset' size

/-- The directories list the same names. -/
lemma readdir_fileWrite (offset : Nat) (buffer : List UInt8) (parent index : Nat) :
    readdir (fileWrite d sb node offset buffer).2.2 sb node' parent index =
      readdir d sb node' parent index :=
  readdir_congr (agreeOn_fileWrite hapart hdata hdata' hne offset buffer) parent index

/-- The names in the directories lead to the same inodes. -/
lemma dirLookupEntry_fileWrite (offset : Nat) (buffer name : List UInt8) :
    dirLookupEntry (fileWrite d sb node offset buffer).2.2 sb node'.info.dinode name =
      dirLookupEntry d sb node'.info.dinode name :=
  dirLookupEntry_congr (agreeOn_fileWrite hapart hdata hdata' hne offset buffer) name

end Write

end Functions

end LiteKernel.Fs.Minix
