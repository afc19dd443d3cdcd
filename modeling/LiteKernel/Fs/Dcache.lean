import LiteKernel.Fs.Path
import Mathlib.Logic.Function.Basic

/-!
# The directory entry cache

The model of `fs/dcache.c` and of the objects it links: directory entries, inodes,
mounts, open files and the references a task holds. An object is named by the
number of its allocation. The list through `sibling` and the hash chains through
`hash_next` are lists with the newest entry first, as the source builds them.

The allocator is a stream of answers: `kmalloc` takes the next one. A freed
object keeps its record, and a flag says that it was freed.

Main results:

- Definitions `dAlloc`, `dLookup`, `vfsDentryPut`: entries are made, found and dropped.
-/

namespace LiteKernel.Fs

open Function

/-- The types of inodes. The nodes of devtmpfs are devices, whose `open` always succeeds here. -/
inductive FileType where
  | file
  | directory
  | chardevice
  | blockdevice
  | symlink
  deriving DecidableEq, Repr

structure Inode where
  type : FileType
  ino : Nat
  mode : Nat
  uid : Nat
  gid : Nat
  size : Nat
  /-- The target of a symbolic link, in `private_data`. -/
  target : Option CString

structure Dentry where
  /-- There is none if `kstrdup` failed. -/
  name : Option CString
  parent : Option Nat
  children : List Nat
  /-- The buckets of the hash table, once it is allocated. -/
  cache : Option (Nat → List Nat)
  inode : Option Nat
  mount : Option Nat
  refcount : Nat
  /-- The flag `DENTRY_NEGATIVE`. -/
  negative : Bool

structure Mount where
  root : Nat
  mountpoint : Option Nat

/-- An open file; it is freed when its count drops to zero. -/
structure File where
  dentry : Nat
  refcount : Nat

structure Cred where
  uid : Nat
  gid : Nat
  umask : Nat

/-- What the file system reads of a task. -/
structure Task where
  pwd : Option Nat
  root : Option Nat
  cred : Cred
  /-- The table of descriptors. -/
  fd : List (Option Nat)

structure Vfs where
  dentry : Nat → Dentry
  dentryCount : Nat
  dentryFreed : Nat → Bool
  inode : Nat → Inode
  inodeCount : Nat
  inodeFreed : Nat → Bool
  lastIno : Nat
  mount : Nat → Mount
  mountCount : Nat
  file : Nat → File
  fileCount : Nat
  task : Nat → Task
  current : Option Nat
  /-- The variable `vfs_root_dentry`. -/
  root : Nat
  /-- The answers `kmalloc` will give. -/
  answers : Nat → Bool

namespace Vfs

/-- Whether the next allocation succeeds, and the state after it. -/
def kmalloc (s : Vfs) : Bool × Vfs :=
  (s.answers 0, { s with answers := fun n => s.answers (n + 1) })

def setDentry (s : Vfs) (d : Nat) (f : Dentry → Dentry) : Vfs :=
  { s with dentry := update s.dentry d (f (s.dentry d)) }

def dHashSize : Nat := 32

def dHashName (name : CString) : Nat :=
  name.foldl (fun h c => (h * 32 + h + c.toNat % 256) % 2 ^ 32) 5381

/-- The bucket of a name. -/
def bucket (name : CString) : Nat :=
  dHashName name % dHashSize

/-- The table of a parent, allocated if there is none. -/
def dHashGetOrAlloc (s : Vfs) (p : Nat) : Option (Nat → List Nat) × Vfs :=
  match (s.dentry p).cache with
  | some h => (some h, s)
  | none =>
    let (ok, s) := s.kmalloc
    if ok then
      (some fun _ => [], s.setDentry p fun e => { e with cache := some fun _ => [] })
    else (none, s)

def dHashInsert (s : Vfs) (d : Nat) : Vfs :=
  match (s.dentry d).parent, (s.dentry d).name with
  | some p, some name =>
    match s.dHashGetOrAlloc p with
    | (some h, s) =>
      s.setDentry p fun e =>
        { e with cache := some (update h (bucket name) (d :: h (bucket name))) }
    | (none, s) => s
  | _, _ => s

def dHashRemove (s : Vfs) (d p : Nat) : Vfs :=
  match (s.dentry p).cache, (s.dentry d).name with
  | some h, some name =>
    s.setDentry p fun e =>
      { e with cache := some (update h (bucket name) ((h (bucket name)).erase d)) }
  | _, _ => s

def dAlloc (s : Vfs) (parent : Option Nat) (name : CString) : Option Nat × Vfs :=
  let (ok, s) := s.kmalloc
  if ok then
    let (named, s) := s.kmalloc
    let d := s.dentryCount
    let s :=
      { s with
        dentryCount := d + 1
        dentry := update s.dentry d
          { name := if named then some name else none
            parent := parent
            children := []
            cache := none
            inode := none
            mount := none
            refcount := 1
            negative := false } }
    match parent with
    | some p =>
      (some d, (s.setDentry p fun e => { e with children := d :: e.children }).dHashInsert d)
    | none => (some d, s)
  else (none, s)

def Named (s : Vfs) (name : CString) (c : Nat) : Prop :=
  (s.dentry c).name = some name

instance (s : Vfs) (name : CString) (c : Nat) : Decidable (s.Named name c) :=
  inferInstanceAs (Decidable ((s.dentry c).name = some name))

def dLookup (s : Vfs) (p : Nat) (name : CString) : Option Nat :=
  match (s.dentry p).cache with
  | some h => (h (bucket name)).find? fun c => s.Named name c
  | none => (s.dentry p).children.find? fun c => s.Named name c

def vfsDentryDetach (s : Vfs) (d : Nat) : Vfs :=
  match (s.dentry d).parent with
  | none => s
  | some p =>
    let s := s.dHashRemove d p
    let s := s.setDentry p fun e => { e with children := e.children.erase d }
    s.setDentry d fun e => { e with parent := none }

/-- Give the memory of an entry back. -/
def freeDentry (s : Vfs) (d : Nat) : Vfs :=
  { s with dentryFreed := update s.dentryFreed d true }

def vfsDentryPut (s : Vfs) (d : Nat) : Vfs :=
  let s := s.setDentry d fun e => { e with refcount := e.refcount - 1 }
  if (s.dentry d).refcount ≠ 0 then s
  else if (s.dentry d).parent.isSome ∨ (s.dentry d).children ≠ [] then s
  else if (s.dentry d).mount.isSome then s
  else if d = s.root then s
  else s.freeDentry d

/-- Take a reference to an entry. -/
def dget (s : Vfs) (d : Nat) : Vfs :=
  s.setDentry d fun e => { e with refcount := (e.refcount + 1) % 2 ^ 32 }

/-! ## Finding an inode -/

/-- The depth of the tree is at most the number of its entries. -/
def findDentryByInode (s : Vfs) (node : Nat) : Nat → Nat → Option Nat
  | 0, _ => none
  | fuel + 1, d =>
    if (s.dentry d).inode = some node then some d
    else (s.dentry d).children.findSome? (findDentryByInode s node fuel)

def genericFinddir (s : Vfs) (node : Nat) (name : CString) : Option Nat :=
  if name = [] then none
  else
    (s.findDentryByInode node (s.dentryCount + 1) s.root).bind fun host =>
      (s.dLookup host name).bind fun child => (s.dentry child).inode

def finddirFs (s : Vfs) (node : Nat) (name : CString) : Option Nat :=
  if (s.inode node).type ≠ .directory then none else s.genericFinddir node name

/-- The names and inode numbers `generic_readdir` gives after `.` and `..`. -/
def genericReaddir (s : Vfs) (d : Nat) : List (Option CString × Nat) :=
  (s.dentry d).children.filterMap fun c =>
    (s.dentry c).inode.map fun i => ((s.dentry c).name, (s.inode i).ino)

end Vfs

end LiteKernel.Fs
