import LiteKernel.Lib.KeyedTable
import LiteKernel.Lib.Run

/-!
# The registries of disks and block devices

The model of the two registries of `block/genhd.c`, of the block devices of
`fs/block_dev.c`, of what `device_add` and `device_unregister` do to them through
`drivers/base/devtmpfs.c`, and of `brd_free` of `drivers/block/brd.c`.

A disk is named by a number and keeps its `dev_t`; two disks may have the same one. A
block device is named by its address. The answers of `kmalloc` and what devtmpfs finds in
its tree are arguments of the operations. Device objects, sizes and statistics are left out.

Main results:

- Definitions `addDisk`, `delGendisk`, `brdFree`: the calls.
-/

namespace LiteKernel.Block

open Function Lib

/-- The fields of `struct block_device` that the registries depend on. -/
structure BlockDev where
  devt : Nat
  disk : Nat
  refcnt : Nat
  openers : Nat
  /-- The device has an inode. -/
  inode : Bool
  deriving DecidableEq

/-- The two registries, and the block devices in memory. -/
structure Registry where
  /-- The number `MKDEV(disk->major, disk->first_minor)`. -/
  devt : Nat → Nat
  diskMap : List (Nat × Nat)
  bdevMap : List (Nat × Nat)
  bdev : Nat → BlockDev
  allocated : Nat → Bool

/-- The size of either registry. -/
def mapSize : Nat := 32

namespace Registry

/-! ## The registries -/

def getGendisk (s : Registry) (devt : Nat) : Option Nat :=
  lookup s.diskMap devt

def bdevLookup (s : Registry) (devt : Nat) : Option Nat :=
  lookup s.bdevMap devt

def setBdev (s : Registry) (b : Nat) (f : BlockDev → BlockDev) : Registry :=
  { s with bdev := update s.bdev b (f (s.bdev b)) }

/-! ## Block devices -/

def bdgrab (s : Registry) (b : Nat) : Registry :=
  s.setBdev b fun x => { x with refcnt := (x.refcnt + 1) % 2 ^ 32 }

def bdput (s : Registry) (b : Nat) : Registry :=
  if (s.bdev b).refcnt = 0 then s
  else
    let s := s.setBdev b fun x => { x with refcnt := x.refcnt - 1 }
    if (s.bdev b).refcnt ≠ 0 then s
    else if (s.bdev b).openers ≠ 0 ∨ (s.bdev b).inode = true then s
    else { s with allocated := update s.allocated b false }

/-- A new block device for a disk; without an address `kmalloc` fails. -/
def bdevAllocForDisk (s : Registry) (d : Nat) (mem : Option Nat) : Option Nat × Registry :=
  match mem with
  | none => (none, s)
  | some a =>
    let s := { s with
      bdev := update s.bdev a
        { devt := s.devt d, disk := d, refcnt := 1, openers := 0, inode := false }
      allocated := update s.allocated a true }
    match register mapSize s.bdevMap (s.devt d) a with
    | none => (none, { s with allocated := update s.allocated a false })
    | some m => (some a, { s with bdevMap := m })

/-- A device that is there, or a new one for a disk, with a reference for the caller. -/
def grabOrAlloc (s : Registry) (found : Option Nat) (d : Option Nat) (mem : Option Nat) :
    Option Nat × Registry :=
  match found, d with
  | some b, _ => (some b, s.bdgrab b)
  | none, none => (none, s)
  | none, some d =>
    match s.bdevAllocForDisk d mem with
    | (some b, s) => (some b, s.bdgrab b)
    | (none, s) => (none, s)

def bdget (s : Registry) (devt : Nat) (mem : Option Nat) : Option Nat × Registry :=
  s.grabOrAlloc (s.bdevLookup devt) (s.getGendisk devt) mem

def bdgetDisk (s : Registry) (d : Nat) (index : Int) (mem : Option Nat) : Option Nat × Registry :=
  if index ≠ 0 then (none, s)
  else s.grabOrAlloc (s.bdevLookup (s.devt d)) (some d) mem

/-- The caller drops its reference, if it has got one. -/
def bdputOpt (s : Registry) (b : Option Nat) : Registry :=
  b.elim s s.bdput

def blkdevGet (s : Registry) (b : Nat) : Registry :=
  s.setBdev b fun x => { x with openers := (x.openers + 1) % 2 ^ 32 }

def blkdevPut (s : Registry) (b : Nat) : Registry :=
  if (s.bdev b).openers = 0 then s
  else s.setBdev b fun x => { x with openers := x.openers - 1 }

/-- The inode takes a reference; the last argument is whether it can be allocated. -/
def blockdevInodeCreate (s : Registry) (b : Nat) (mem : Bool) : Registry :=
  if (s.bdev b).inode = true then s
  else
    let s := s.bdgrab b
    if mem then s.setBdev b fun x => { x with inode := true } else s.bdput b

def blockdevInodeDestroy (s : Registry) (b : Nat) : Registry :=
  if (s.bdev b).inode = true then
    (s.setBdev b fun x => { x with inode := false }).bdput b
  else s

def bdRemove (s : Registry) (devt : Nat) : Int × Registry :=
  match s.bdevLookup devt with
  | none => (0, s)
  | some b =>
    if (s.bdev b).openers ≠ 0 then (-1, s)
    else
      let s := s.blockdevInodeDestroy b
      let s := { s with bdevMap := unregister s.bdevMap devt }
      (0, s.bdput b)

/-! ## Disks -/

/--
`vfs_mknod_at` for a block device: whether its inode can be allocated, and whether the inode
can be attached to the tree.
-/
def vfsMknodAt (s : Registry) (b : Nat) (mem attached : Bool) : Bool × Registry :=
  let s := s.blockdevInodeCreate b mem
  if (s.bdev b).inode = false then (false, s)
  else if attached then (true, s)
  else (false, s.blockdevInodeDestroy b)

/--
What devtmpfs does for a new disk: nothing, if it does not run or the disk has no node; or it
finds a node of this name, of the same device or not; or it makes the node, a second time
when the path to it could be made.
-/
inductive DevNode where
  | idle
  | found (mem : Option Nat) (same : Bool)
  | make (mem : Option Nat) (inode attached path inode' attached' : Bool)

/-- The answer of `kmalloc` in `bdget_disk`. -/
def DevNode.mem : DevNode → Option Nat
  | .idle => none
  | .found mem _ | .make mem .. => mem

/-- `handle_create`, for the block device `b`. -/
def handleCreate (s : Registry) (b : Nat) : DevNode → Bool × Registry
  | .idle => (true, s)
  | .found _ same => (same, s)
  | .make _ inode attached path inode' attached' =>
    match s.vfsMknodAt b inode attached with
    | (true, s) => (true, s)
    | (false, s) => if path then s.vfsMknodAt b inode' attached' else (false, s)

/-- The request of `devtmpfs_create_node`: the disk's block device is got for the node. -/
def devtmpfsCreateNode (s : Registry) (d : Nat) (node : DevNode) : Bool × Registry :=
  match node with
  | .idle => (true, s)
  | node =>
    match s.bdgetDisk d 0 node.mem with
    | (none, s) => (false, s)
    | (some b, s) => ((s.handleCreate b node).1, (s.handleCreate b node).2.bdput b)

/--
The arguments are whether the device can be allocated and what devtmpfs does in `device_add`,
which fails if the node cannot be made.
-/
def addDisk (s : Registry) (d : Nat) (mem : Bool) (node : DevNode) : Int × Registry :=
  if mem = false then (-1, s)
  else
    match register mapSize s.diskMap (s.devt d) d with
    | none => (-1, s)
    | some m =>
      match { s with diskMap := m }.devtmpfsCreateNode d node with
      | (false, s) => (-1, { s with diskMap := unregister s.diskMap (s.devt d) })
      | (true, s) => (0, s)

/-- The block device is open. -/
def Busy (s : Registry) (b : Option Nat) : Prop :=
  ∃ a ∈ b, (s.bdev a).openers ≠ 0

instance (s : Registry) (b : Option Nat) : Decidable (s.Busy b) :=
  match b with
  | none => isFalse fun ⟨_, h, _⟩ => Option.some_ne_none _ h.symm
  | some a =>
    decidable_of_iff ((s.bdev a).openers ≠ 0)
      ⟨fun h => ⟨a, rfl, h⟩, fun ⟨_, h, ho⟩ => Option.some.inj h ▸ ho⟩

/-- The block device whose node devtmpfs removes loses its inode. -/
def devtmpfsDeleteNode (s : Registry) (node : Option Nat) : Registry :=
  node.elim s s.blockdevInodeDestroy

/-- The last argument is what devtmpfs removes in `device_unregister`. -/
def delGendisk (s : Registry) (d : Nat) (mem node : Option Nat) : Int × Registry :=
  let (b, s) := s.bdget (s.devt d) mem
  if s.Busy b then (-1, s.bdputOpt b)
  else
    let s := (s.bdputOpt b).devtmpfsDeleteNode node
    let s := { s with diskMap := unregister s.diskMap (s.devt d) }
    (0, (s.bdRemove (s.devt d)).2)

/-- The two calls of `kmalloc` are in `del_gendisk` and in `bdget_disk`. -/
def brdFree (s : Registry) (d : Nat) (mem node mem' : Option Nat) : Registry :=
  let s := (s.delGendisk d mem node).2
  let (b, s) := s.bdgetDisk d 0 mem'
  s.bdputOpt b

end Registry

/-! ## Histories -/

/-- The registries, with the disks that have been added and those that have been deleted since. -/
structure Disks where
  reg : Registry
  added : Nat → Bool
  deleted : Nat → Bool

/-- What can happen next. -/
inductive DiskOp where
  | addDisk (d : Nat) (mem : Bool) (node : Registry.DevNode)
  | bdget (devt : Nat) (mem : Option Nat)
  | bdgetDisk (d : Nat) (index : Int) (mem : Option Nat)
  | bdput (b : Nat)
  | blkdevGet (b : Nat)
  | blkdevPut (b : Nat)
  | inodeCreate (b : Nat) (mem : Bool)
  | delGendisk (d : Nat) (mem node : Option Nat)
  | brdFree (d : Nat) (mem node mem' : Option Nat)

namespace Disks

def markAdded (s : Disks) (d : Nat) : Disks :=
  { s with added := update s.added d true, deleted := update s.deleted d false }

def markDeleted (s : Disks) (d : Nat) : Disks :=
  { s with added := update s.added d false, deleted := update s.deleted d true }

/-- One call; a disk is added or deleted when the call says so. -/
def step (s : Disks) : DiskOp → Disks
  | .addDisk d mem node =>
    let (r, reg) := s.reg.addDisk d mem node
    let s := { s with reg := reg }
    if r = 0 then s.markAdded d else s
  | .bdget devt mem => { s with reg := (s.reg.bdget devt mem).2 }
  | .bdgetDisk d index mem => { s with reg := (s.reg.bdgetDisk d index mem).2 }
  | .bdput b => { s with reg := s.reg.bdput b }
  | .blkdevGet b => { s with reg := s.reg.blkdevGet b }
  | .blkdevPut b => { s with reg := s.reg.blkdevPut b }
  | .inodeCreate b mem => { s with reg := s.reg.blockdevInodeCreate b mem }
  | .delGendisk d mem node =>
    let (r, reg) := s.reg.delGendisk d mem node
    let s := { s with reg := reg }
    if r = 0 then s.markDeleted d else s
  | .brdFree d mem node mem' => { s with reg := s.reg.brdFree d mem node mem' }.markDeleted d

/-- The disks of the system before any of them is added. -/
def boot (devt : Nat → Nat) : Disks where
  reg :=
    { devt := devt
      diskMap := []
      bdevMap := []
      bdev := fun _ => { devt := 0, disk := 0, refcnt := 0, openers := 0, inode := false }
      allocated := fun _ => false }
  added _ := false
  deleted _ := false

end Disks
end LiteKernel.Block
