import LiteKernel.Fs.MinixLayout

/-!
# Failed creation on a minix disk

`minix_create_child` takes an inode and a zone from the maps, writes the first block and the
inode of the child, and adds the entry to the directory last. It takes nothing back.

Main results:

- Theorem `createChild_failure_iff`: after which failures the disk is as it was before.
- Theorem `fullRootDisk_changed`: bits of the maps that stay set.
-/

namespace LiteKernel.Fs.Minix

open Lib Option UInt16

/-! ## Images -/

/-- The data zones lie behind the tables, and all of it is on the disk. -/
structure Image (d : Disk) (sb : SuperBlock) : Prop where
  behind : ∀ z, InData sb z → tableEnd sb ≤ z.toNat
  tables : tableEnd sb ≤ d.nblocks
  zones : ∀ z, InData sb z → ∀ pos, blockFor sb z pos < d.nblocks

/-- The inode is in the table, and its zones are data zones. -/
structure OnImage (sb : SuperBlock) (info : InodeInfo) : Prop where
  ino_ne : info.ino ≠ 0
  ino_le : info.ino ≤ sb.ninodes
  zones : ∀ k, info.dinode.iZone k = 0 ∨ InData sb (info.dinode.iZone k)

/-- The two disks have the same maps, the same inode table and the same directory content. -/
structure SameTables (sb : SuperBlock) (dir : InodeDisk) (d d' : Disk) : Prop where
  imap : ∀ map < sb.imapBlocks, d'.block (2 + map) = d.block (2 + map)
  zmap : ∀ map < sb.zmapBlocks,
    d'.block (2 + sb.imapBlocks + map) = d.block (2 + sb.imapBlocks + map)
  inodes : ∀ ino, ino ≠ 0 → ino ≤ sb.ninodes →
    d'.block (inodeBlock sb ino) = d.block (inodeBlock sb ino)
  content : ∀ pos, zoneForPos dir sb pos ≠ 0 →
    d'.block (blockFor sb (zoneForPos dir sb pos) pos) =
      d.block (blockFor sb (zoneForPos dir sb pos) pos)

/-! ## What a creation needs -/

/-- The checks of `minix_create_child` that come before its first update pass. -/
structure Admits (d : Disk) (sb : SuperBlock) (dir : Inode) (name : List UInt8) : Prop where
  nonempty : name ≠ []
  directory : dir.flags = .directory
  notDots : name ≠ [46] ∧ name ≠ [46, 46]
  short : name.length ≤ 14
  absent : dirLookupEntry d sb dir.info.dinode name = some none

/-- The inode map has a clear bit. -/
def FreeInode (d : Disk) (sb : SuperBlock) : Prop :=
  ∃ k < sb.imapBlocks * 8192, k < sb.ninodes ∧ ¬ Marked d 2 k

/-- The zone map has a clear bit. -/
def FreeZone (d : Disk) (sb : SuperBlock) : Prop :=
  ∃ k < sb.zmapBlocks * 8192, sb.firstdatazone + k < sb.nzones ∧
    ¬ Marked d (2 + sb.imapBlocks) k

/-- The directory has a zone for the position behind its last entry. -/
def Room (sb : SuperBlock) (dir : InodeDisk) : Prop :=
  zoneSize sb ≠ 0 ∧ zoneForPos dir sb dir.iSize.toNat ≠ 0 ∧
    offsetFor sb dir.iSize.toNat + DirEntry.size ≤ blockSize

section Steps

variable {d : Disk} {sb : SuperBlock}
variable {info : InodeInfo} {zone : UInt16} {name : List UInt8}

lemma zoneForPos_cases (inode : InodeDisk) (sb : SuperBlock) (pos : Nat) :
    zoneForPos inode sb pos = 0 ∨ ∃ k, zoneForPos inode sb pos = inode.iZone k := by
  unfold zoneForPos
  split_ifs with hsize hlt
  · exact .inl rfl
  · exact .inr ⟨_, rfl⟩
  · exact .inl rfl

lemma OnImage.inData (h : OnImage sb info) {pos : Nat} (hne : zoneForPos info.dinode sb pos ≠ 0) :
    InData sb (zoneForPos info.dinode sb pos) := by
  rcases zoneForPos_cases info.dinode sb pos with hzero | ⟨k, hk⟩
  · exact absurd hzero hne
  · rw [hk] at hne ⊢
    exact (h.zones k).resolve_left hne

lemma Image.of_nblocks (h : Image d sb) {d' : Disk} (hn : d'.nblocks = d.nblocks) :
    Image d' sb :=
  ⟨h.behind, hn ▸ h.tables, fun z hz pos => hn ▸ h.zones z hz pos⟩

lemma inodeTableBlock_le (sb : SuperBlock) : inodeTableBlock sb ≤ tableEnd sb :=
  Nat.le_add_right _ _

lemma Image.le_blockFor (h : Image d sb) (hz : InData sb zone) (pos : Nat) :
    inodeTableBlock sb ≤ blockFor sb zone pos :=
  le_trans (inodeTableBlock_le sb) (le_trans (h.behind zone hz) (Minix.le_blockFor sb zone pos))

lemma Image.writeInode (h : Image d sb) {ino : Nat} (hino : ino ≠ 0) (hle : ino ≤ sb.ninodes)
    (inode : InodeDisk) :
    ∃ d', Minix.writeInode d sb ino inode = some d' ∧ KeepsBelow (inodeTableBlock sb) d d' := by
  have heq := writeInode_eq hino hle h.tables inode
  refine ⟨_, heq, rfl, fun b hb => ?_⟩
  have hbounds := inodeBlock_bounds hino hle
  exact writeInode_block heq (by omega)

lemma Image.bwrite (h : Image d sb) (hz : InData sb zone) (pos : Nat) (buf : Buffer) :
    ∃ d', d.bwrite (blockFor sb zone pos) buf = some d' ∧
      KeepsBelow (inodeTableBlock sb) d d' := by
  have heq := bwrite_of_lt (h.zones zone hz pos) buf
  exact ⟨_, heq, keepsBelow_bwrite heq (h.le_blockFor hz pos)⟩

/-- An entry is added exactly when the directory has room; the maps stay as they are. -/
lemma dirAddEntry_iff (h : Image d sb) (hinfo : OnImage sb info) (child : UInt16)
    (hname : name ≠ []) (hshort : name.length ≤ 14) :
    ((dirAddEntry d sb info child name).1 = true ↔ Room sb info.dinode) ∧
      (dirAddEntry d sb info child name).2.1.ino = info.ino ∧
      KeepsBelow (inodeTableBlock sb) d (dirAddEntry d sb info child name).2.2 := by
  unfold dirAddEntry Room
  rw [if_neg hname, if_neg (not_lt.mpr hshort)]
  by_cases hsize : zoneSize sb = 0
  · rw [if_pos hsize]
    exact ⟨iff_of_false Bool.false_ne_true fun hroom => hroom.1 hsize, rfl, KeepsBelow.refl _ _⟩
  rw [if_neg hsize]
  by_cases hzone : zoneForPos info.dinode sb info.dinode.iSize.toNat = 0
  · simp only [if_pos hzone]
    exact ⟨iff_of_false Bool.false_ne_true fun hroom => hroom.2.1 hzone, trivial,
      KeepsBelow.refl _ _⟩
  simp only [if_neg hzone]
  by_cases hoff : offsetFor sb info.dinode.iSize.toNat + DirEntry.size > blockSize
  · rw [if_pos hoff]
    exact ⟨iff_of_false Bool.false_ne_true fun hroom => not_lt.mpr hroom.2.2 hoff, rfl,
      KeepsBelow.refl _ _⟩
  rw [if_neg hoff]
  have hdata := hinfo.inData hzone
  rw [bread_of_lt (h.zones _ hdata _)]
  obtain ⟨d1, hwrite, hkeeps⟩ := h.bwrite hdata info.dinode.iSize.toNat
    (memcpyAt (d.block (blockFor sb (zoneForPos info.dinode sb info.dinode.iSize.toNat)
      info.dinode.iSize.toNat)) (offsetFor sb info.dinode.iSize.toNat)
      (DirEntry.make child name).toBytes)
  obtain ⟨d2, hinode, hkeeps'⟩ := (h.of_nblocks hkeeps.nblocks).writeInode hinfo.ino_ne
    hinfo.ino_le { info.dinode with iSize := info.dinode.iSize + 16 }
  simp only [hwrite, hinode]
  exact ⟨iff_of_true trivial ⟨hsize, hzone, not_lt.mp hoff⟩, trivial, hkeeps.trans hkeeps'⟩

/-- The inode of a child fails to be made only for want of memory. -/
lemma inodeFromDisk_newDinode (mem : Nat → Bool) (ino zone : Nat) (type : NodeType) :
    inodeFromDisk mem ino (newDinode type zone) = none ↔ ¬ (mem 0 = true ∧ mem 1 = true) := by
  have hfile : (newDinode .file zone).iMode &&& 0xF000 = 0x8000 := by
    show (0x81A4 : UInt16) &&& 0xF000 = 0x8000
    decide
  have hdir : (newDinode .directory zone).iMode &&& 0xF000 = 0x4000 := by
    show (0x41ED : UInt16) &&& 0xF000 = 0x4000
    decide
  rcases hinfo : mem 0 with _ | _
  · simp [inodeFromDisk, hinfo]
  · rcases hnode : mem 1 with _ | _
    · cases type with
      | file => simp [inodeFromDisk, hfile, hinfo, hnode]
      | directory => simp [inodeFromDisk, hdir, hinfo, hnode]
    · cases type with
      | file => simp [inodeFromDisk, hfile, hinfo, hnode]
      | directory => simp [inodeFromDisk, hdir, hinfo, hnode]

/--
After the two allocations the creation fails exactly when the directory has no room or memory
is short, and in no case are the maps changed again.
-/
lemma fillChild_eq_none_iff (h : Image d sb) {dir : Inode} (hdir : OnImage sb dir.info)
    (mem : Nat → Bool) (hname : name ≠ []) (hshort : name.length ≤ 14) (type : NodeType)
    {ino zone : Nat} (hino : ino ≠ 0) (hle : ino ≤ sb.ninodes)
    (hzone : InData sb (UInt16.ofNat zone)) :
    ((fillChild mem d sb dir name type ino zone).1 = none ↔
        ¬ (Room sb dir.info.dinode ∧ mem 0 = true ∧ mem 1 = true)) ∧
      KeepsBelow (inodeTableBlock sb) d (fillChild mem d sb dir name type ino zone).2.2 := by
  have hblock : blockFor sb (ofNat zone) 0 = zoneToBlock (ofNat zone) := by
    simp [blockFor]
  obtain ⟨d1, hwrite, hkeeps1⟩ := h.bwrite hzone 0 (newBlock type ino dir.info.ino)
  rw [hblock] at hwrite
  have himage1 := h.of_nblocks hkeeps1.nblocks
  obtain ⟨d2, hinode, hkeeps2⟩ := himage1.writeInode hino hle (newDinode type zone)
  have himage2 := himage1.of_nblocks hkeeps2.nblocks
  obtain ⟨hadds, hsame, hkeeps3⟩ :=
    dirAddEntry_iff himage2 hdir (ofNat ino) hname hshort
  unfold fillChild
  simp only [hwrite, hinode]
  rcases hadd : dirAddEntry d2 sb dir.info (ofNat ino) name with ⟨_ | _, info, d3⟩
  · rw [hadd] at hadds hkeeps3
    refine ⟨iff_of_true rfl fun hneeds => ?_, (hkeeps1.trans hkeeps2).trans hkeeps3⟩
    exact absurd (hadds.mpr hneeds.1) Bool.false_ne_true
  · rw [hadd] at hadds hsame hkeeps3
    have hroom := hadds.mp rfl
    have hresult : inodeFromDisk mem ino (newDinode type zone) = none ↔
        ¬ (Room sb dir.info.dinode ∧ mem 0 = true ∧ mem 1 = true) := by
      rw [inodeFromDisk_newDinode, and_iff_right hroom]
    have hkeeps := (hkeeps1.trans hkeeps2).trans hkeeps3
    by_cases htype : type = .directory
    · obtain ⟨d4, hparent, hkeeps4⟩ := (himage2.of_nblocks hkeeps3.nblocks).writeInode
        hdir.ino_ne hdir.ino_le { info.dinode with iNlinks := info.dinode.iNlinks + 1 }
      simp only at hsame
      simp only [if_pos htype, hsame, hparent]
      exact ⟨hresult, hkeeps.trans hkeeps4⟩
    · simp only [if_neg htype]
      exact ⟨hresult, hkeeps⟩

end Steps

/-! ## The call -/

section

variable {d : Disk} {sb : SuperBlock} {dir : Inode} {name : List UInt8}

lemma createChild_of_not_admits (mem : Nat → Bool) (type : NodeType)
    (h : ¬ Admits d sb dir name) {r : Option Inode × Inode × Disk}
    (hr : createChild mem d sb dir name type = some r) : r = (none, dir, d) := by
  unfold createChild at hr
  split_ifs at hr with hname hflags hdots
  · exact (some.inj hr).symm
  · exact (some.inj hr).symm
  · exact (some.inj hr).symm
  · rcases hlook : dirLookupEntry d sb dir.info.dinode name with _ | _ | e
    · rw [hlook] at hr
      cases hr
    · simp only [not_or, not_lt] at hdots
      exact absurd ⟨hname, not_not.mp hflags, ⟨hdots.1, hdots.2.1⟩, hdots.2.2, hlook⟩ h
    · rw [hlook] at hr
      exact (some.inj hr).symm

lemma createChild_of_admits (mem : Nat → Bool) (type : NodeType) (h : Admits d sb dir name) :
    createChild mem d sb dir name type = some (takeChild mem d sb dir name type) := by
  have hdots : ¬ (name = [46] ∨ name = [46, 46] ∨ name.length > 14) := by
    simp only [not_or, not_lt]
    exact ⟨h.notDots.1, h.notDots.2, h.short⟩
  unfold createChild
  rw [if_neg h.nonempty, if_neg (not_not.mpr h.directory), if_neg hdots]
  simp only [h.absent]

lemma allocInode_cases (h : Image d sb) :
    (allocInode d sb = (none, d) ∧ ¬ FreeInode d sb) ∨
      ∃ k < sb.imapBlocks * 8192, k < sb.ninodes ∧ ¬ Marked d 2 k ∧
        allocInode d sb = (some (1 + k), d.mark 2 k) := by
  have htables := h.tables
  rw [tableEnd_eq] at htables
  have hdev : 2 + sb.imapBlocks ≤ d.nblocks := by omega
  rcases allocBit_zero_cases hdev with ⟨heq, hall⟩ | ⟨k, hk, hlim, hclear, heq⟩
  · refine .inl ⟨heq, ?_⟩
    rintro ⟨k, hk, hlim, hclear⟩
    exact hclear (hall k hk (by omega))
  · exact .inr ⟨k, hk, by omega, hclear, heq⟩

lemma allocZone_cases (h : Image d sb) :
    (allocZone d sb = (none, d) ∧ ¬ FreeZone d sb) ∨
      ∃ k < sb.zmapBlocks * 8192, sb.firstdatazone + k < sb.nzones ∧
        ¬ Marked d (2 + sb.imapBlocks) k ∧
        allocZone d sb = (some (sb.firstdatazone + k), d.mark (2 + sb.imapBlocks) k) := by
  have htables := h.tables
  rw [tableEnd_eq] at htables
  have hdev : 2 + sb.imapBlocks + sb.zmapBlocks ≤ d.nblocks := by omega
  rcases allocBit_zero_cases hdev with ⟨heq, hall⟩ | ⟨k, hk, hlim, hclear, heq⟩
  · refine .inl ⟨heq, ?_⟩
    rintro ⟨k, hk, hlim, hclear⟩
    exact hclear (hall k hk hlim)
  · exact .inr ⟨k, hk, hlim, hclear, heq⟩

lemma marked_of_keepsBelow {d' : Disk} (h : KeepsBelow (2 + sb.imapBlocks) d d') {k : Nat}
    (hk : k < sb.imapBlocks * 8192) : Marked d' 2 k ↔ Marked d 2 k := by
  rw [Marked, Marked, h.block _ (by omega)]

lemma freeZone_mark {k : Nat} (hk : k < sb.imapBlocks * 8192) :
    FreeZone (d.mark 2 k) sb ↔ FreeZone d sb := by
  have hsame : ∀ j, Marked (d.mark 2 k) (2 + sb.imapBlocks) j ↔ Marked d (2 + sb.imapBlocks) j := by
    intro j
    rw [Marked, Marked, mark_block_of_ne (by omega)]
  simp only [FreeZone, hsame]

/--
A creation that returns nothing leaves the maps, the inode table and the directory as they were
exactly when, if it comes to take an inode, there is also a free zone, the directory has room and
there is memory for the new inode.
-/
theorem createChild_failure_iff (himage : Image d sb) (hdir : OnImage sb dir.info)
    (mem : Nat → Bool) (type : NodeType) :
    (∀ dir' d', createChild mem d sb dir name type = some (none, dir', d') →
        SameTables sb dir.info.dinode d d') ↔
      (Admits d sb dir name → FreeInode d sb →
        FreeZone d sb ∧ Room sb dir.info.dinode ∧ mem 0 = true ∧ mem 1 = true) := by
  by_cases hadmits : Admits d sb dir name
  swap
  · refine iff_of_true (fun dir' d' hr => ?_) fun h => absurd h hadmits
    have heq := createChild_of_not_admits mem type hadmits hr
    simp only [Prod.mk.injEq, true_and] at heq
    rw [heq.2]
    exact ⟨fun _ _ => rfl, fun _ _ => rfl, fun _ _ _ => rfl, fun _ _ => rfl⟩
  rw [createChild_of_admits mem type hadmits]
  simp only [some.injEq]
  unfold takeChild
  rcases allocInode_cases himage with ⟨hino, hfull⟩ | ⟨k, hk, hlim, hclear, hino⟩
  · refine iff_of_true (fun dir' d' hr => ?_) fun _ h => absurd h hfull
    simp only [hino, Prod.mk.injEq, true_and] at hr
    rw [← hr.2]
    exact ⟨fun _ _ => rfl, fun _ _ => rfl, fun _ _ _ => rfl, fun _ _ => rfl⟩
  have hfree : FreeInode d sb := ⟨k, hk, hlim, hclear⟩
  have himage1 : Image (d.mark 2 k) sb := himage.of_nblocks rfl
  -- once the bit is set, no disk that keeps the inode map is like the first one
  have hchanged : ∀ d', KeepsBelow (2 + sb.imapBlocks) (d.mark 2 k) d' →
      ¬ SameTables sb dir.info.dinode d d' := by
    intro d' hkeeps hsame
    have hlt : k / 8192 < sb.imapBlocks := Nat.div_lt_of_lt_mul (by omega)
    have hset := (marked_of_keepsBelow hkeeps hk).mpr (marked_mark.mpr (.inl rfl))
    rw [Marked, hsame.imap _ hlt] at hset
    exact hclear hset
  simp only [hino, hadmits, hfree, true_implies]
  rcases allocZone_cases himage1 with ⟨hzone, hnone⟩ | ⟨j, hj, hjlim, hjclear, hzone⟩
  · rw [freeZone_mark hk] at hnone
    refine iff_of_false (fun h => ?_) fun h => hnone h.1
    exact hchanged _ (KeepsBelow.refl _ _) (h dir _ (by simp only [hzone]))
  have hfreeZone : FreeZone d sb := (freeZone_mark hk).mp ⟨j, hj, hjlim, hjclear⟩
  have hnz : sb.nzones < 65536 := sb.sNzones.toNat_lt
  have hval : (ofNat (sb.firstdatazone + j)).toNat = sb.firstdatazone + j := by
    rw [toNat_ofNat']
    exact Nat.mod_eq_of_lt (by omega)
  have hdata : InData sb (ofNat (sb.firstdatazone + j)) := by
    rw [InData, hval]
    exact ⟨Nat.le_add_right _ _, hjlim⟩
  have himage2 : Image ((d.mark 2 k).mark (2 + sb.imapBlocks) j) sb := himage1.of_nblocks rfl
  have hmaps : KeepsBelow (2 + sb.imapBlocks) (d.mark 2 k)
      ((d.mark 2 k).mark (2 + sb.imapBlocks) j) :=
    ⟨rfl, fun b hb => mark_block_of_ne (by omega)⟩
  obtain ⟨hnone, hkeeps⟩ := fillChild_eq_none_iff himage2 hdir mem hadmits.nonempty
    hadmits.short type (show 1 + k ≠ 0 by omega) (show 1 + k ≤ sb.ninodes by omega) hdata
  simp only [hzone, hfreeZone, true_and]
  rcases hfill : fillChild mem ((d.mark 2 k).mark (2 + sb.imapBlocks) j) sb dir name type
    (1 + k) (sb.firstdatazone + j) with ⟨_ | node, dir', d'⟩
  · rw [hfill] at hnone hkeeps
    refine iff_of_false (fun h => ?_) (hnone.mp rfl)
    refine hchanged d' (hmaps.trans ⟨hkeeps.nblocks, fun b hb => hkeeps.block b ?_⟩) (h dir' d' rfl)
    rw [inodeTableBlock]
    omega
  · rw [hfill] at hnone
    refine iff_of_true (fun dir'' d'' h => ?_) (not_not.mp fun h => ?_)
    · simp at h
    · exact absurd (hnone.mpr h) (by simp)

end

lemma image_exampleSuper {d : Disk} (h : d.nblocks = 64) : Image d exampleSuper := by
  refine ⟨?_, ?_, ?_⟩
  · rintro z ⟨hlow, -⟩
    exact hlow
  · rw [h]
    decide
  · rintro z ⟨-, hhigh⟩ pos
    have hmod : pos % 1024 / 1024 = 0 := Nat.div_eq_of_lt (Nat.mod_lt _ (by decide))
    have hblock : blockFor exampleSuper z pos = z.toNat := by
      show z.toNat + pos % 1024 / 1024 = z.toNat
      rw [hmod, add_zero]
    rw [hblock, h]
    exact hhigh

/-- The root directory of the example image with a size in bytes. -/
def exampleRoot (size : UInt32) : Inode :=
  ⟨.directory, 1, size, ⟨1, exampleInode 0x41ED 2 size 5⟩⟩

lemma exampleRoot_onImage (size : UInt32) : OnImage exampleSuper (exampleRoot size).info := by
  refine ⟨one_ne_zero, show 1 ≤ exampleSuper.ninodes by decide, fun k => ?_⟩
  by_cases hk : k = 0
  · refine .inr ?_
    rw [hk]
    show exampleSuper.firstdatazone ≤ (5 : UInt16).toNat ∧ (5 : UInt16).toNat < exampleSuper.nzones
    decide
  · refine .inl ?_
    show (if k = 0 then 5 else 0) = (0 : UInt16)
    rw [if_neg hk]

/-- A second file of the same name is refused, and nothing changes. -/
theorem exampleDisk_refuses :
    (createChild (fun _ => true) exampleDisk exampleSuper (exampleRoot 48) (chars "hello.txt")
        .file).map Prod.fst = some none ∧
      ∀ dir' d', createChild (fun _ => true) exampleDisk exampleSuper (exampleRoot 48)
          (chars "hello.txt") .file = some (none, dir', d') →
        SameTables exampleSuper (exampleRoot 48).info.dinode exampleDisk d' := by
  refine ⟨by decide +kernel, ?_⟩
  refine (createChild_failure_iff (image_exampleSuper (by decide +kernel))
    (exampleRoot_onImage 48) (fun _ => true) .file).mpr fun hadmits => ?_
  have hfound : dirLookupEntry exampleDisk exampleSuper (exampleRoot 48).info.dinode
      (chars "hello.txt") ≠ some none := by
    decide +kernel
  exact absurd hadmits.absent hfound

/-- The example image with a root directory that fills its zone. -/
def fullRootDisk : Disk :=
  (writeInode exampleDisk exampleSuper 1 (exampleRoot 1024).info.dinode).getD exampleDisk

lemma fullRootDisk_written :
    writeInode exampleDisk exampleSuper 1 (exampleRoot 1024).info.dinode = some fullRootDisk := by
  have hdisk : tableEnd exampleSuper ≤ exampleDisk.nblocks := by decide +kernel
  have hle : 1 ≤ exampleSuper.ninodes := by decide
  have hwrite := writeInode_eq one_ne_zero hle hdisk (exampleRoot 1024).info.dinode
  rw [fullRootDisk, hwrite, getD_some]

/-- The directory has no room, and the creation leaves the bit of the new inode set. -/
theorem fullRootDisk_changed :
    readInode fullRootDisk exampleSuper 1 = some (exampleRoot 1024).info.dinode ∧
      Image fullRootDisk exampleSuper ∧ OnImage exampleSuper (exampleRoot 1024).info ∧
      ¬ ∀ dir' d', createChild (fun _ => true) fullRootDisk exampleSuper (exampleRoot 1024)
          (chars "a") .file = some (none, dir', d') →
        SameTables exampleSuper (exampleRoot 1024).info.dinode fullRootDisk d' := by
  refine ⟨readInode_writeInode fullRootDisk_written, image_exampleSuper (by decide +kernel),
    exampleRoot_onImage 1024, ?_⟩
  intro h
  have hrun : (createChild (fun _ => true) fullRootDisk exampleSuper (exampleRoot 1024)
      (chars "a") .file).map (fun r => (r.1, r.2.2.block 2 0)) = some (none, 7) := by
    decide +kernel
  have hbefore : fullRootDisk.block 2 0 = 3 := by decide +kernel
  obtain ⟨⟨node, dir', d'⟩, hr, hval⟩ := map_eq_some_iff.mp hrun
  simp only [Prod.mk.injEq] at hval
  rw [hval.1] at hr
  have hsame := (h dir' d' hr).imap 0 (by decide)
  have hbyte := congrFun hsame 0
  rw [hbefore, hval.2] at hbyte
  exact absurd hbyte (by decide)

end LiteKernel.Fs.Minix
