import LiteKernel.Lib.Bytes
import LiteKernel.Lib.Word

/-!
# The minix file system of `fs/minix`

A disk is read and written in blocks of 1024 bytes through `bread` and
`sync_dirty_buffer`; an access beyond its last block fails and changes nothing. The
superblock, the inodes and the directory entries are packed records, and the two maps are
arrays of bits. All functions work on these bytes as the source does: `inode.c`, `bitmap.c`,
`dir.c`, `namei.c` and `file.c`.

The block numbers that occur stay far below `2 ^ 22`, so the byte offset `block * size` of
`bread` does not overflow. A zone size is shifted as the processor does it, with the low five
bits of the exponent.

Main results:

- Definitions `createChild`, `readdir`, `fileRead`, `fileWrite`: the calls.
-/

namespace LiteKernel.Fs.Minix

open Lib

/-- `MINIX_BLOCK_SIZE`. -/
abbrev blockSize : Nat := 1024

/-- `MINIX_SUPER_MAGIC`. -/
abbrev superMagic : UInt16 := 0x137F

/-! ## Records -/

/-- `struct minix_super_block`. -/
structure SuperBlock where
  sNinodes : UInt16
  sNzones : UInt16
  sImapBlocks : UInt16
  sZmapBlocks : UInt16
  sFirstdatazone : UInt16
  sLogZoneSize : UInt16
  sMaxSize : UInt32
  sMagic : UInt16
  sState : UInt16
  deriving DecidableEq, Repr

def SuperBlock.ofBytes (l : List UInt8) : SuperBlock where
  sNinodes := get16 l 0
  sNzones := get16 l 2
  sImapBlocks := get16 l 4
  sZmapBlocks := get16 l 6
  sFirstdatazone := get16 l 8
  sLogZoneSize := get16 l 10
  sMaxSize := get32 l 12
  sMagic := get16 l 16
  sState := get16 l 18

def SuperBlock.toBytes (sb : SuperBlock) : List UInt8 :=
  put16 sb.sNinodes ++ (put16 sb.sNzones ++ (put16 sb.sImapBlocks ++ (put16 sb.sZmapBlocks ++
    (put16 sb.sFirstdatazone ++ (put16 sb.sLogZoneSize ++ (put32 sb.sMaxSize ++
      (put16 sb.sMagic ++ put16 sb.sState)))))))

namespace SuperBlock

def ninodes (sb : SuperBlock) : Nat := sb.sNinodes.toNat
def nzones (sb : SuperBlock) : Nat := sb.sNzones.toNat
def imapBlocks (sb : SuperBlock) : Nat := sb.sImapBlocks.toNat
def zmapBlocks (sb : SuperBlock) : Nat := sb.sZmapBlocks.toNat
def firstdatazone (sb : SuperBlock) : Nat := sb.sFirstdatazone.toNat

end SuperBlock

/-- `struct minix_inode_disk`. -/
structure InodeDisk where
  iMode : UInt16
  iUid : UInt16
  iSize : UInt32
  iMtime : UInt32
  iGid : UInt8
  iNlinks : UInt8
  iZone : Fin 9 → UInt16
  deriving DecidableEq

namespace InodeDisk

/-- `sizeof(struct minix_inode_disk)`. -/
abbrev size : Nat := 32

def ofBytes (l : List UInt8) : InodeDisk where
  iMode := get16 l 0
  iUid := get16 l 2
  iSize := get32 l 4
  iMtime := get32 l 8
  iGid := l.getD 12 0
  iNlinks := l.getD 13 0
  iZone k := get16 l (14 + 2 * k)

def toBytes (i : InodeDisk) : List UInt8 :=
  put16 i.iMode ++ (put16 i.iUid ++ (put32 i.iSize ++ (put32 i.iMtime ++ (i.iGid :: i.iNlinks ::
    ((List.finRange 9).flatMap fun k => put16 (i.iZone k))))))

end InodeDisk

/-- `struct minix_dir_entry`, with the fourteen characters of its name. -/
structure DirEntry where
  inode : UInt16
  name : List UInt8
  deriving DecidableEq, Repr

namespace DirEntry

/-- `sizeof(struct minix_dir_entry)`. -/
abbrev size : Nat := 16

def ofBytes (l : List UInt8) : DirEntry where
  inode := get16 l 0
  name := l.drop 2

def toBytes (de : DirEntry) : List UInt8 :=
  put16 de.inode ++ de.name

/-- An entry that was cleared before the name was copied into it. -/
def make (inode : UInt16) (name : List UInt8) : DirEntry where
  inode := inode
  name := name ++ List.replicate (14 - name.length) 0

/-- `entry_name`, up to its terminator. -/
def entryName (de : DirEntry) : List UInt8 :=
  de.name.takeWhile (· ≠ 0)

end DirEntry

/-! ## Blocks -/

/-- A block device behind the buffer cache. -/
structure Disk where
  nblocks : Nat
  block : Nat → Buffer

namespace Disk

/-- `minix_bread`. -/
def bread (d : Disk) (block : Nat) : Option Buffer :=
  if block < d.nblocks then some (d.block block) else none

/-- `minix_bwrite`. -/
def bwrite (d : Disk) (block : Nat) (buf : Buffer) : Option Disk :=
  if block < d.nblocks then some { d with block := Function.update d.block block buf } else none

end Disk

/-- `minix_read_super`. -/
def readSuper (d : Disk) : Option SuperBlock :=
  match d.bread 1 with
  | none => none
  | some blk =>
      let sb := SuperBlock.ofBytes (bytesAt blk 0 20)
      if sb.sMagic ≠ superMagic then none
      else if sb.sNinodes = 0 ∨ sb.sFirstdatazone = 0 then none
      else some sb

/-- `minix_inode_table_block`. -/
def inodeTableBlock (sb : SuperBlock) : Nat :=
  2 + sb.imapBlocks + sb.zmapBlocks

/-- `inodes_per_block`. -/
abbrev inodesPerBlock : Nat := blockSize / InodeDisk.size

/-- The block of the inode table that holds an inode. -/
def inodeBlock (sb : SuperBlock) (ino : Nat) : Nat :=
  inodeTableBlock sb + (ino - 1) / inodesPerBlock

/-- The offset of an inode in its block. -/
def inodeOffset (ino : Nat) : Nat :=
  (ino - 1) % inodesPerBlock * InodeDisk.size

/-- `minix_read_inode`. -/
def readInode (d : Disk) (sb : SuperBlock) (ino : Nat) : Option InodeDisk :=
  if ino = 0 ∨ ino > sb.ninodes then none
  else
    match d.bread (inodeBlock sb ino) with
    | none => none
    | some blk => some (InodeDisk.ofBytes (bytesAt blk (inodeOffset ino) InodeDisk.size))

/-- `minix_write_inode`; nothing is written if it fails. -/
def writeInode (d : Disk) (sb : SuperBlock) (ino : Nat) (inode : InodeDisk) : Option Disk :=
  if ino = 0 ∨ ino > sb.ninodes then none
  else
    match d.bread (inodeBlock sb ino) with
    | none => none
    | some blk => d.bwrite (inodeBlock sb ino) (memcpyAt blk (inodeOffset ino) inode.toBytes)

/-! ## Zones -/

/-- `minix_zone_size`. -/
def zoneSize (sb : SuperBlock) : Nat :=
  wrap (blockSize * 2 ^ (sb.sLogZoneSize.toNat % 32))

/-- `minix_zone_to_block`. -/
def zoneToBlock (zone : UInt16) : Nat :=
  zone.toNat

/-- `minix_zone_for_pos`. -/
def zoneForPos (inode : InodeDisk) (sb : SuperBlock) (pos : Nat) : UInt16 :=
  if zoneSize sb = 0 then 0
  else if h : pos / zoneSize sb < 7 then inode.iZone ⟨pos / zoneSize sb, by omega⟩
  else 0

/-- The block of a position in its zone. -/
def blockFor (sb : SuperBlock) (zone : UInt16) (pos : Nat) : Nat :=
  zoneToBlock zone + pos % zoneSize sb / blockSize

/-- The offset of a position in its block. -/
def offsetFor (sb : SuperBlock) (pos : Nat) : Nat :=
  pos % zoneSize sb % blockSize

/-! ## Maps -/

/-- How the loop over the bits of one block of a map ends. -/
inductive Scan where
  | outside
  | full
  | clear (bit : Nat)
  deriving DecidableEq, Repr

/--
The loop over the bits of a block: the bit `bit` stands for the number
`base + bit`, which must stay below `limit`.
-/
def scanBits (blk : Buffer) (base limit : Nat) : Nat → Nat → Scan
  | 0, _ => .full
  | n + 1, bit =>
      if ¬ base + bit < limit then .outside
      else if bitmapTest blk bit then scanBits blk base limit n (bit + 1)
      else .clear bit

/-- Bits of a block of a map, `MINIX_BLOCK_SIZE * 8`. -/
abbrev bitsPerBlock : Nat := blockSize * 8

/--
The common loop of `minix_alloc_inode` and `minix_alloc_zone` over the blocks of a map, from
the block `map` on.
-/
def allocBit (first base limit : Nat) : Nat → Nat → Disk → Option Nat × Disk
  | 0, _, d => (none, d)
  | n + 1, map, d =>
      match d.bread (first + map) with
      | none => (none, d)
      | some blk =>
          match scanBits blk (base + map * bitsPerBlock) limit bitsPerBlock 0 with
          | .outside => (none, d)
          | .full => allocBit first base limit n (map + 1) d
          | .clear bit =>
              match d.bwrite (first + map) (bitmapSet blk bit) with
              | none => (none, d)
              | some d => (some (base + map * bitsPerBlock + bit), d)

/-- `minix_alloc_inode`. -/
def allocInode (d : Disk) (sb : SuperBlock) : Option Nat × Disk :=
  allocBit 2 1 (sb.ninodes + 1) sb.imapBlocks 0 d

/-- `minix_alloc_zone`. -/
def allocZone (d : Disk) (sb : SuperBlock) : Option Nat × Disk :=
  allocBit (2 + sb.imapBlocks) sb.firstdatazone sb.nzones sb.zmapBlocks 0 d

/-! ## Inodes in memory -/

/-- The type bits of `inode->flags`. -/
inductive NodeType where
  | file
  | directory
  deriving DecidableEq, Repr

/-- `struct minix_inode_info` without the device and the superblock, which all of them share. -/
structure InodeInfo where
  ino : Nat
  dinode : InodeDisk
  deriving DecidableEq

/-- `struct inode` as the file system fills it in. -/
structure Inode where
  flags : NodeType
  iIno : Nat
  iSize : UInt32
  info : InodeInfo
  deriving DecidableEq

/-- `minix_inode_from_disk`; `mem` says which of its allocations succeed. -/
def inodeFromDisk (mem : Nat → Bool) (ino : Nat) (dinode : InodeDisk) : Option Inode :=
  if ¬ mem 0 then none
  else if dinode.iMode &&& 0xF000 = 0x4000 then
    if mem 1 then some ⟨.directory, ino, dinode.iSize, ⟨ino, dinode⟩⟩ else none
  else if dinode.iMode &&& 0xF000 = 0x8000 then
    if mem 1 then some ⟨.file, ino, dinode.iSize, ⟨ino, dinode⟩⟩ else none
  else none

/-! ## Directories -/

/--
The loop of `minix_dir_lookup_entry`. Without a result it never ends: the positions have come
round to where they started.
-/
def lookupFrom (d : Disk) (sb : SuperBlock) (dir : InodeDisk) (name : List UInt8) :
    Nat → Nat → Option (Option (DirEntry × Nat))
  | 0, _ => none
  | n + 1, pos =>
      if ¬ wrap (pos + DirEntry.size) ≤ dir.iSize.toNat then some none
      else
        let zone := zoneForPos dir sb pos
        if zone = 0 then some none
        else
          match d.bread (blockFor sb zone pos) with
          | none => some none
          | some blk =>
              let de := DirEntry.ofBytes (bytesAt blk (offsetFor sb pos) DirEntry.size)
              if de.inode ≠ 0 ∧ de.entryName = name then some (some (de, pos))
              else lookupFrom d sb dir name n (wrap (pos + DirEntry.size))

/-- `minix_dir_lookup_entry`: the entry and its position. -/
def dirLookupEntry (d : Disk) (sb : SuperBlock) (dir : InodeDisk) (name : List UInt8) :
    Option (Option (DirEntry × Nat)) :=
  if zoneSize sb = 0 then some none
  else lookupFrom d sb dir name 0x10000000 0

/--
The loop of `minix_readdir` for an index above one; `skip` entries are still to be passed
over. As in the search, a loop without a result never ends.
-/
def readdirFrom (d : Disk) (sb : SuperBlock) (dir : InodeDisk) :
    Nat → Nat → Nat → Option (Option (List UInt8 × UInt16))
  | 0, _, _ => none
  | n + 1, pos, skip =>
      if ¬ wrap (pos + DirEntry.size) ≤ dir.iSize.toNat then some none
      else
        let zone := zoneForPos dir sb pos
        if zone = 0 then some none
        else
          match d.bread (blockFor sb zone pos) with
          | none => some none
          | some blk =>
              let de := DirEntry.ofBytes (bytesAt blk (offsetFor sb pos) DirEntry.size)
              let pos := wrap (pos + DirEntry.size)
              if de.inode = 0 ∨ de.entryName = [46] ∨ de.entryName = [46, 46] then
                readdirFrom d sb dir n pos skip
              else if skip ≠ 0 then readdirFrom d sb dir n pos (skip - 1)
              else if de.entryName = [] then some none
              else some (some (de.entryName, de.inode))

/-- `minix_readdir`; `parent` is the inode number behind `..`. -/
def readdir (d : Disk) (sb : SuperBlock) (node : Inode) (parent index : Nat) :
    Option (Option (List UInt8 × Nat)) :=
  if node.flags ≠ .directory then some none
  else if index = 0 then some (some ([46], node.iIno))
  else if index = 1 then some (some ([46, 46], parent))
  else if zoneSize sb = 0 then some none
  else
    (readdirFrom d sb node.info.dinode 0x10000000 0 (index - 2)).map fun r =>
      r.map fun e => (e.1, e.2.toNat)

/-- `minix_dir_add_entry`: whether it succeeds, and what it leaves. -/
def dirAddEntry (d : Disk) (sb : SuperBlock) (info : InodeInfo) (child : UInt16)
    (name : List UInt8) : Bool × InodeInfo × Disk :=
  if name = [] then (false, info, d)
  else if name.length > 14 then (false, info, d)
  else if zoneSize sb = 0 then (false, info, d)
  else
    let pos := info.dinode.iSize.toNat
    let zone := zoneForPos info.dinode sb pos
    if zone = 0 then (false, info, d)
    else if offsetFor sb pos + DirEntry.size > blockSize then (false, info, d)
    else
      match d.bread (blockFor sb zone pos) with
      | none => (false, info, d)
      | some blk =>
          let buf := memcpyAt blk (offsetFor sb pos) (DirEntry.make child name).toBytes
          match d.bwrite (blockFor sb zone pos) buf with
          | none => (false, info, d)
          | some d =>
              let dinode := { info.dinode with iSize := info.dinode.iSize + 16 }
              let info := { info with dinode := dinode }
              match writeInode d sb info.ino info.dinode with
              | none => (false, info, d)
              | some d => (true, info, d)

/-- The inode that `minix_create_child` writes. -/
def newDinode (type : NodeType) (zone : Nat) : InodeDisk where
  iMode := if type = .directory then 0x41ED else 0x81A4
  iUid := 0
  iSize := if type = .directory then 32 else 0
  iMtime := 0
  iGid := 0
  iNlinks := if type = .directory then 2 else 1
  iZone k := if k = 0 then UInt16.ofNat zone else 0

/-- The first block of a new file or directory. -/
def newBlock (type : NodeType) (ino parent : Nat) : Buffer :=
  if type = .directory then
    let blk := memcpyAt (fun _ => 0) 0 (DirEntry.make (UInt16.ofNat ino) [46]).toBytes
    memcpyAt blk DirEntry.size (DirEntry.make (UInt16.ofNat parent) [46, 46]).toBytes
  else fun _ => 0

/-- The part of `minix_create_child` that follows the two allocations. -/
def fillChild (mem : Nat → Bool) (d : Disk) (sb : SuperBlock) (dir : Inode) (name : List UInt8)
    (type : NodeType) (ino zone : Nat) : Option Inode × Inode × Disk :=
  let dinode := newDinode type zone
  match d.bwrite (zoneToBlock (UInt16.ofNat zone)) (newBlock type ino dir.info.ino) with
  | none => (none, dir, d)
  | some d =>
      match writeInode d sb ino dinode with
      | none => (none, dir, d)
      | some d =>
          match dirAddEntry d sb dir.info (UInt16.ofNat ino) name with
          | (false, info, d) => (none, { dir with info := info }, d)
          | (true, info, d) =>
              if type = .directory then
                let parent := { info.dinode with iNlinks := info.dinode.iNlinks + 1 }
                let info := { info with dinode := parent }
                match writeInode d sb info.ino info.dinode with
                | none => (none, { dir with info := info }, d)
                | some d => (inodeFromDisk mem ino dinode, { dir with info := info }, d)
              else (inodeFromDisk mem ino dinode, { dir with info := info }, d)

/-- The part of `minix_create_child` that follows the search for the name. -/
def takeChild (mem : Nat → Bool) (d : Disk) (sb : SuperBlock) (dir : Inode) (name : List UInt8)
    (type : NodeType) : Option Inode × Inode × Disk :=
  match allocInode d sb with
  | (none, d) => (none, dir, d)
  | (some ino, d) =>
      match allocZone d sb with
      | (none, d) => (none, dir, d)
      | (some zone, d) => fillChild mem d sb dir name type ino zone

/--
`minix_create_child`: the new inode, the directory as it is left in memory, and the disk.
Without a result the search for the name never ends.
-/
def createChild (mem : Nat → Bool) (d : Disk) (sb : SuperBlock) (dir : Inode) (name : List UInt8)
    (type : NodeType) : Option (Option Inode × Inode × Disk) :=
  if name = [] then some (none, dir, d)
  else if dir.flags ≠ .directory then some (none, dir, d)
  else if name = [46] ∨ name = [46, 46] ∨ name.length > 14 then some (none, dir, d)
  else
    match dirLookupEntry d sb dir.info.dinode name with
    | none => none
    | some (some _) => some (none, dir, d)
    | some none => some (takeChild mem d sb dir name type)

/-! ## Files -/

/-- The bytes of one block that a round of the loops of `file.c` covers. -/
def partLength (sb : SuperBlock) (left pos : Nat) : Nat :=
  min (min left (zoneSize sb - pos % zoneSize sb)) (blockSize - offsetFor sb pos)

/-- The loop of `minix_file_read`, with the bytes that were read. -/
def readLoop (d : Disk) (sb : SuperBlock) (inode : InodeDisk) (offset size : Nat) :
    Nat → List UInt8 → List UInt8
  | 0, acc => acc
  | n + 1, acc =>
      if ¬ acc.length < size then acc
      else
        let pos := wrap (offset + acc.length)
        let zone := zoneForPos inode sb pos
        if zone = 0 then acc
        else
          match d.bread (blockFor sb zone pos) with
          | none => acc
          | some blk =>
              let sub := partLength sb (size - acc.length) pos
              readLoop d sb inode offset size n (acc ++ bytesAt blk (offsetFor sb pos) sub)

/-- `minix_file_read`: the bytes that are copied to the buffer. -/
def fileRead (d : Disk) (sb : SuperBlock) (node : Inode) (offset size : Nat) : List UInt8 :=
  if size = 0 then []
  else if node.flags ≠ .file then []
  else if offset ≥ node.info.dinode.iSize.toNat then []
  else
    let size := min size (node.info.dinode.iSize.toNat - offset)
    if zoneSize sb = 0 then []
    else readLoop d sb node.info.dinode offset size size []

/-- The loop of `minix_file_write`: the number of bytes written, and the disk. -/
def writeLoop (sb : SuperBlock) (inode : InodeDisk) (offset : Nat) (buffer : List UInt8) :
    Nat → Nat → Disk → Nat × Disk
  | 0, done, d => (done, d)
  | n + 1, done, d =>
      if ¬ done < buffer.length then (done, d)
      else
        let pos := wrap (offset + done)
        let zone := zoneForPos inode sb pos
        if zone = 0 then (done, d)
        else
          match d.bread (blockFor sb zone pos) with
          | none => (done, d)
          | some blk =>
              let sub := partLength sb (buffer.length - done) pos
              let buf := memcpyAt blk (offsetFor sb pos) ((buffer.drop done).take sub)
              match d.bwrite (blockFor sb zone pos) buf with
              | none => (done, d)
              | some d => writeLoop sb inode offset buffer n (done + sub) d

/-- `minix_file_write`: the number of bytes written, the inode in memory, and the disk. -/
def fileWrite (d : Disk) (sb : SuperBlock) (node : Inode) (offset : Nat) (buffer : List UInt8) :
    Nat × Inode × Disk :=
  if buffer = [] then (0, node, d)
  else if node.flags ≠ .file then (0, node, d)
  else if zoneSize sb = 0 then (0, node, d)
  else
    let r := writeLoop sb node.info.dinode offset buffer buffer.length 0 d
    if wrap (offset + r.1) > node.info.dinode.iSize.toNat then
      let size := UInt32.ofNat (wrap (offset + r.1))
      let dinode := { node.info.dinode with iSize := size }
      let node := { node with iSize := size, info := { node.info with dinode := dinode } }
      match writeInode r.2 sb node.info.ino node.info.dinode with
      | none => (r.1, node, r.2)
      | some d => (r.1, node, d)
    else (r.1, node, r.2)

/-! ## The example image -/

/-- The superblock that `minix_seed_example_image` writes. -/
def exampleSuper : SuperBlock where
  sNinodes := 16
  sNzones := 64
  sImapBlocks := 1
  sZmapBlocks := 1
  sFirstdatazone := 5
  sLogZoneSize := 0
  sMaxSize := 1048576
  sMagic := superMagic
  sState := 1

/-- An inode of the example image: a mode, a link count, a size and one zone. -/
def exampleInode (mode : UInt16) (nlinks : UInt8) (size : UInt32) (zone : UInt16) :
    InodeDisk where
  iMode := mode
  iUid := 0
  iSize := size
  iMtime := 0
  iGid := 0
  iNlinks := nlinks
  iZone k := if k = 0 then zone else 0

/-- The characters of a string. -/
def chars (s : String) : List UInt8 :=
  s.toList.map fun c => UInt8.ofNat c.toNat

/-- The message in the file of the example image. -/
def exampleMessage : List UInt8 :=
  chars "Hello from MinixFS!\n"

/-- The blocks from the superblock on that `minix_seed_example_image` writes. -/
def exampleBlocks : List Buffer :=
  let zero : Buffer := fun _ => 0
  let root := (exampleInode 0x41ED 2 48 5).toBytes
  let file := (exampleInode 0x8124 1 (UInt32.ofNat exampleMessage.length) 6).toBytes
  let dot := (DirEntry.make 1 [46]).toBytes
  let dotdot := (DirEntry.make 1 [46, 46]).toBytes
  let hello := (DirEntry.make 2 (chars "hello.txt")).toBytes
  [memcpyAt zero 0 exampleSuper.toBytes,
    memcpyAt zero 0 [0x03],
    memcpyAt zero 0 [0x07],
    memcpyAt (memcpyAt zero 0 root) InodeDisk.size file,
    memcpyAt (memcpyAt (memcpyAt zero 0 dot) DirEntry.size dotdot) (2 * DirEntry.size) hello,
    memcpyAt zero 0 exampleMessage]

/-- The loop of block writes of `minix_seed_example_image`, up to the first that fails. -/
def writeBlocks : List Buffer → Nat → Disk → Bool × Disk
  | [], _, d => (true, d)
  | buf :: bufs, b, d =>
      match d.bwrite b buf with
      | none => (false, d)
      | some d => writeBlocks bufs (b + 1) d

/-- `minix_seed_example_image`. -/
def seedExampleImage (d : Disk) : Bool × Disk :=
  writeBlocks exampleBlocks 1 d

end LiteKernel.Fs.Minix
