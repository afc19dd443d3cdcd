import LiteKernel.Fs.Dcache

/-!
# Path lookup and the operations of ramfs

The model of `fs/namei.c`, `fs/file.c` and `fs/ramfs/inode.c`: the walk along a path
with mounts and symbolic links, and the calls that create and remove names. A call
that returns 0 or -1 is modelled by a truth value, a pointer by an option.

The walk leaves a negative entry behind at every name it does not find, and goes on
from it.

Main results:

- Definitions `linkPathWalk`, `vfsMkdir`, `vfsSymlink`, `vfsRmdir`: the walk and the calls.
-/

namespace LiteKernel.Fs

open Function

namespace Vfs

/-! ## The task that runs -/

/-- What `current_uid`, `current_gid` and `current_umask` return. -/
def currentCred (s : Vfs) : Cred :=
  (s.current.map fun t => (s.task t).cred).getD ⟨0, 0, 0o22⟩

/-- The root directory `path_init` uses. -/
def fsRoot (s : Vfs) : Nat :=
  (s.current.bind fun t => (s.task t).root).getD s.root

/-- The working directory `path_init` uses. -/
def fsPwd (s : Vfs) : Nat :=
  (s.current.bind fun t => (s.task t).pwd).getD s.fsRoot

end Vfs

/-- The test of the permission bits in `vfs_check_access`. -/
def Inode.checkAccess (node : Inode) (cred : Cred) (read write exec : Bool) : Bool :=
  if cred.uid = 0 then true
  else
    let mode := node.mode % 2 ^ 9
    let bits :=
      if cred.uid = node.uid then mode / 64 % 8
      else if cred.gid = node.gid then mode / 8 % 8
      else mode % 8
    !(read && bits / 4 % 2 == 0) && !(write && bits / 2 % 2 == 0) && !(exec && bits % 2 == 0)

/-- The test of `vfs_open` before it opens an inode. -/
def Inode.mayOpen (node : Inode) (cred : Cred) (trunc : Bool) : Bool :=
  if node.type = .directory then node.checkAccess cred true false true
  else node.checkAccess cred true trunc false

def Inode.truncate (node : Inode) : Inode :=
  { node with size := 0 }

/-- The function `ramfs_apply_umask`. -/
def Cred.applyUmask (cred : Cred) (mode : Nat) : Nat :=
  mode &&& (cred.umask % 2 ^ 9 ^^^ 0o777)

/-- The inode `ramfs_get_inode` sets up. -/
def Inode.fresh (type : FileType) (ino mode : Nat) (cred : Cred) : Inode where
  type := type
  ino := ino
  mode := if type = .symlink then 0o777 else cred.applyUmask mode
  uid := cred.uid
  gid := cred.gid
  size := 0
  target := none

/-- The inode of a symbolic link to a target. -/
def Inode.linkTo (node : Inode) (target : CString) : Inode :=
  { node with target := some target, size := target.length }

namespace Vfs

def vfsCheckAccess (s : Vfs) (i : Nat) (read write exec : Bool) : Bool :=
  (s.inode i).checkAccess s.currentCred read write exec

/-- The entry has an inode, and it is a directory. -/
def IsDir (s : Vfs) (d : Nat) : Prop :=
  ((s.dentry d).inode.map fun i => (s.inode i).type) = some .directory

instance (s : Vfs) (d : Nat) : Decidable (s.IsDir d) :=
  inferInstanceAs (Decidable (_ = _))

/-! ## The walk -/

/-- The mountpoint of the file system whose root is the entry. -/
def mountedOn (s : Vfs) (d : Nat) : Option Nat :=
  (s.dentry d).mount.bind fun m => if (s.mount m).root = d then (s.mount m).mountpoint else none

/-- The step to `..`. -/
def followDotDot (s : Vfs) (curr : Nat) : Nat :=
  match s.mountedOn curr with
  | some mp => (s.dentry mp).parent.getD mp
  | none => (s.dentry curr).parent.getD curr

/-- The step across a mountpoint. -/
def crossMount (s : Vfs) (d : Nat) : Nat :=
  match (s.dentry d).mount with
  | some m => (s.mount m).root
  | none => d

/-- Every turn moves towards the front of the buffer or leaves a mounted file system. -/
def buildDentryPath (s : Vfs) (cap : Nat) : Nat → Nat → CString → Option CString
  | 0, _, _ => none
  | fuel + 1, d, out =>
    match s.mountedOn d with
    | some mp => buildDentryPath s cap fuel mp out
    | none =>
      match (s.dentry d).parent, (s.dentry d).name with
      | none, _ => some (if out = [] then ['/'] else out)
      | some _, none => none
      | some p, some name =>
        if p = d then some (if out = [] then ['/'] else out)
        else if name = [] ∨ cap - 1 - out.length < name.length + 1 then none
        else buildDentryPath s cap fuel p ('/' :: name ++ out)

def vfsBuildDentryPath (s : Vfs) (d cap : Nat) : Option CString :=
  s.buildDentryPath cap (2 * cap + 2) d []

/-- One component of the walk, before mounts and links. -/
def walkComponent (s : Vfs) (curr : Nat) (part : CString) : Option Nat × Vfs :=
  if part = dot then (some curr, s)
  else if part = dotDot then (some (s.followDotDot curr), s)
  else
    match s.dLookup curr part with
    | some next =>
      if (s.dentry next).negative = true ∧ (s.dentry next).mount = none then (none, s)
      else (some next, s)
    | none =>
      match (s.dentry curr).inode with
      | none => (none, s)
      | some node =>
        let child := s.finddirFs node part
        match s.dAlloc (some curr) part with
        | (none, s) => (none, s)
        | (some next, s) =>
          (some next, s.setDentry next fun e => { e with inode := child, negative := child.isNone })

/-- What reading a symbolic link gives; nothing if the entry is not one. -/
def readLink (s : Vfs) (d : Nat) : Option CString :=
  (s.dentry d).inode.bind fun i =>
    if (s.inode i).type = .symlink then some (((s.inode i).target.getD []).take 255) else none

/-- How a pass over the components of a path ends. -/
inductive Walked where
  | arrived (d : Nat)
  | failed
  /-- A symbolic link: start again with another path. -/
  | restart (path : CString) (start : Nat)

/-- The walk at a symbolic link that is the component at the start of `p`. -/
def followLink (s : Vfs) (root : Nat) (cur p : CString) (curr : Nat) (target : CString) : Walked :=
  if target = [] then .failed
  else
    let parent := (s.dentry curr).parent.getD curr
    let base :=
      if cur.head? = some '/' then basePath cur p else s.vfsBuildDentryPath parent 256
    match linkPath base target (skipSlashes (afterPart p)) with
    | none => .failed
    | some path => .restart path (if path.head? = some '/' then root else parent)

/-- The loop of `link_path_walk` over the components that are left. -/
def walkParts (root : Nat) (cur : CString) : Nat → Vfs → Nat → CString → Walked × Vfs
  | 0, s, curr, _ => (.arrived curr, s)
  | fuel + 1, s, curr, p =>
    if p = [] then (.arrived curr, s)
    else if 128 ≤ (part p).length then (.failed, s)
    else
      match s.walkComponent curr (part p) with
      | (none, s) => (.failed, s)
      | (some next, s) =>
        match s.readLink (s.crossMount next) with
        | none => walkParts root cur fuel s (s.crossMount next) (skipSlashes (afterPart p))
        | some target => (s.followLink root cur p (s.crossMount next) target, s)

/-- The loop of `link_path_walk` over the links that are followed. -/
def walkFrom (root : Nat) : Nat → Vfs → Nat → CString → Option Nat × Vfs
  | 0, s, _, _ => (none, s)
  | depth + 1, s, start, cur =>
    match walkParts root cur cur.length s start (skipSlashes cur) with
    | (.arrived d, s) => (some d, s)
    | (.failed, s) => (none, s)
    | (.restart path start, s) => walkFrom root depth s start path

def linkPathWalk (s : Vfs) (root start : Nat) (name : CString) : Option Nat × Vfs :=
  if 512 ≤ name.length then (none, s) else walkFrom root 8 s start name

/-- Where `path_init` starts, and what is left of the path. -/
def pathInit (s : Vfs) (name : CString) : Nat × CString :=
  if name.head? = some '/' then (s.fsRoot, skipSlashes name) else (s.fsPwd, name)

/-- The flag `dir` is `LOOKUP_DIRECTORY`. -/
def pathLookupat (s : Vfs) (name : CString) (dir : Bool) : Option Nat × Vfs :=
  let (start, walk) := s.pathInit name
  let (found, s) := if walk = [] then (some start, s) else s.linkPathWalk s.fsRoot start walk
  (found.bind fun d => if dir = true ∧ ¬ s.IsDir d then none else some d, s)

def kernPath (s : Vfs) (name : CString) (dir : Bool) : Option Nat × Vfs :=
  if name = [] then (none, s) else s.pathLookupat name dir

/-- The directory, the last name and its type. -/
def filenameParentat (s : Vfs) (name : CString) : Option (Nat × CString × LastType) × Vfs :=
  match splitParent name with
  | none => (none, s)
  | some split =>
    let (found, s) := s.pathLookupat split.parent true
    (found.map fun d => (d, split.last, split.type), s)

def vfsResolve (s : Vfs) (path : CString) : Option Nat × Vfs :=
  let (found, s) := s.kernPath path false
  (found.bind fun d => (s.dentry d).inode, s)

/-! ## Inodes of ramfs -/

def getNextIno (s : Vfs) : Nat × Vfs :=
  ((s.lastIno + 1) % 2 ^ 32, { s with lastIno := (s.lastIno + 1) % 2 ^ 32 })

/-- Initialise the next inode. -/
def newInode (s : Vfs) (node : Inode) : Option Nat × Vfs :=
  (some s.inodeCount,
    { s with inode := update s.inode s.inodeCount node, inodeCount := s.inodeCount + 1 })

def ramfsGetInode (s : Vfs) (type : FileType) (mode : Nat) : Option Nat × Vfs :=
  let (ok, s) := s.kmalloc
  if ok then
    let (ino, s) := s.getNextIno
    if type = .symlink then s.newInode (.fresh type ino mode s.currentCred)
    else
      -- The address space of a file or a directory.
      let (mapped, s) := s.kmalloc
      if mapped then s.newInode (.fresh type ino mode s.currentCred) else (none, s)
  else (none, s)

def ramfsEvictInode (s : Vfs) (i : Nat) : Vfs :=
  { s with inodeFreed := update s.inodeFreed i true }

def ramfsValidName (name : CString) : Bool :=
  decide (name ≠ []) && name.all (· ≠ '/')

def ramfsCreateFile (s : Vfs) (dir : Nat) (name : CString) : Option Nat × Vfs :=
  if (s.inode dir).type = .directory ∧ ramfsValidName name = true then s.ramfsGetInode .file 0o666
  else (none, s)

def ramfsMkdirInode (s : Vfs) (dir : Nat) (name : CString) : Option Nat × Vfs :=
  if (s.inode dir).type = .directory ∧ ramfsValidName name = true then
    s.ramfsGetInode .directory 0o777
  else (none, s)

def ramfsSymlinkInode (s : Vfs) (dir : Nat) (name target : CString) : Option Nat × Vfs :=
  if (s.inode dir).type = .directory ∧ ramfsValidName name = true then
    match s.ramfsGetInode .symlink 0o777 with
    | (none, s) => (none, s)
    | (some i, s) =>
      let (ok, s) := s.kmalloc
      if ok then
        (some i, { s with inode := update s.inode i ((s.inode i).linkTo target) })
      else (none, s.ramfsEvictInode i)
  else (none, s)

/-- Remove the entry from its directory and free it with its inode. -/
def removeEntry (s : Vfs) (d i : Nat) : Vfs :=
  ((s.vfsDentryDetach d).freeDentry d).ramfsEvictInode i

/-- The entry that `ramfs_unlink` and `ramfs_rmdir` look for. -/
def findChild (s : Vfs) (dir : Nat) (name : CString) : Option Nat :=
  (s.dentry dir).children.find? fun c => s.Named name c

/-- What `ramfs_unlink` and `ramfs_rmdir` do, but for the test of the entry and its inode. -/
def ramfsRemove (s : Vfs) (dir : Nat) (name : CString) (allowed : Nat → Nat → Bool) : Bool × Vfs :=
  if name = dot ∨ name = dotDot ∨ ¬ s.IsDir dir then (false, s)
  else
    match s.findChild dir name with
    | none => (false, s)
    | some found =>
      match (s.dentry found).inode with
      | none => (false, s)
      | some target =>
        if allowed found target then (true, s.removeEntry found target) else (false, s)

def ramfsUnlink (s : Vfs) (dir : Nat) (name : CString) : Bool × Vfs :=
  s.ramfsRemove dir name fun _ target => decide ((s.inode target).type ≠ .directory)

def ramfsRmdir (s : Vfs) (dir : Nat) (name : CString) : Bool × Vfs :=
  s.ramfsRemove dir name fun found target =>
    decide ((s.inode target).type = .directory ∧ (s.dentry found).children = [])

/-! ## The calls -/

/-- Give a created inode to the entry of a name, which is allocated if there is none. -/
def instantiate (s : Vfs) (dir : Nat) (name : CString) (created : Nat) : Option Nat × Vfs :=
  match s.dLookup dir name with
  | some d => (some d, s.setDentry d fun e => { e with inode := some created, negative := false })
  | none =>
    match s.dAlloc (some dir) name with
    | (none, s) => (none, s)
    | (some d, s) => (some d, s.setDentry d fun e => { e with inode := some created })

/-- The directory in which a name is to be created or removed, and its inode. -/
def parentDir (s : Vfs) (path : CString) : Option (Nat × Nat × CString) × Vfs :=
  match s.filenameParentat path with
  | (some (dir, name, .norm), s) =>
    ((s.dentry dir).inode.bind fun i =>
      if (s.inode i).type = .directory then some (dir, i, name) else none, s)
  | (_, s) => (none, s)

def vfsMkdir (s : Vfs) (path : CString) : Bool × Vfs :=
  match s.parentDir path with
  | (none, s) => (false, s)
  | (some (dir, pnode, name), s) =>
    if s.vfsCheckAccess pnode false true true = false then (false, s)
    else if (s.finddirFs pnode name).isSome then (false, s)
    else
      match s.ramfsMkdirInode pnode name with
      | (none, s) => (false, s)
      | (some created, s) =>
        let (d, s) := s.instantiate dir name created
        (d.isSome, s)

def vfsSymlink (s : Vfs) (target path : CString) : Bool × Vfs :=
  match s.parentDir path with
  | (none, s) => (false, s)
  | (some (dir, pnode, name), s) =>
    match s.ramfsSymlinkInode pnode name target with
    | (none, s) => (false, s)
    | (some created, s) =>
      let (d, s) := s.instantiate dir name created
      (d.isSome, s)

def vfsUnlink (s : Vfs) (path : CString) : Bool × Vfs :=
  match s.parentDir path with
  | (none, s) => (false, s)
  | (some (dir, pnode, name), s) =>
    if s.vfsCheckAccess pnode false true true = false then (false, s)
    else
      match s.ramfsUnlink dir name with
      | (false, s) => (false, s)
      | (true, s) =>
        match s.dLookup dir name with
        | none => (true, s)
        | some child =>
          (true, s.setDentry child fun e => { e with inode := none, negative := true })

/-- Detach the children of an entry one by one. -/
def dropChildren : Nat → Vfs → Nat → Vfs
  | 0, s, _ => s
  | fuel + 1, s, child =>
    match (s.dentry child).children with
    | [] => s
    | c :: _ => dropChildren fuel ((s.vfsDentryDetach c).vfsDentryPut c) child

def vfsRmdir (s : Vfs) (path : CString) : Bool × Vfs :=
  match s.parentDir path with
  | (none, s) => (false, s)
  | (some (dir, pnode, name), s) =>
    if s.vfsCheckAccess pnode false true true = false then (false, s)
    else
      match s.ramfsRmdir dir name with
      | (false, s) => (false, s)
      | (true, s) =>
        match s.dLookup dir name with
        | none => (true, s)
        | some child =>
          let s := dropChildren (s.dentry child).children.length s child
          (true, s.setDentry child fun e => { e with inode := none, negative := true })

def vfsOpenDentry (s : Vfs) (d : Nat) : Option Nat × Vfs :=
  if (s.dentry d).inode = none then (none, s)
  else
    let (ok, s) := s.kmalloc
    if ok then
      let s := s.dget d
      (some s.fileCount,
        { s with file := update s.file s.fileCount ⟨d, 1⟩, fileCount := s.fileCount + 1 })
    else (none, s)

/-- The entry `vfs_open` opens: the one found, or one created for the path. -/
def openEntry (s : Vfs) (path : CString) (creat : Bool) : Option (Nat × Nat) × Vfs :=
  let (found, s) := s.kernPath path false
  match found.bind fun d => (s.dentry d).inode.map fun i => (d, i) with
  | some e => (some e, s)
  | none =>
    if creat = false then (none, s)
    else
      match s.parentDir path with
      | (none, s) => (none, s)
      | (some (dir, pnode, name), s) =>
        match s.ramfsCreateFile pnode name with
        | (none, s) => (none, s)
        | (some created, s) =>
          let (d, s) := s.instantiate dir name created
          (d.map fun d => (d, created), s)

def truncate (s : Vfs) (i : Nat) : Vfs :=
  { s with inode := update s.inode i (s.inode i).truncate }

/-- The flags `creat` and `trunc` are `VFS_O_CREAT` and `VFS_O_TRUNC`. -/
def vfsOpen (s : Vfs) (path : CString) (creat trunc : Bool) : Option Nat × Vfs :=
  match s.openEntry path creat with
  | (none, s) => (none, s)
  | (some (d, node), s) =>
    if (s.inode node).mayOpen s.currentCred trunc = false then (none, s)
    else
      match s.vfsOpenDentry d with
      | (none, s) => (none, s)
      | (some f, s) =>
        if trunc = true ∧ (s.inode node).type = .file then (some f, s.truncate node)
        else (some f, s)

/-! ## Lookup below a given entry -/

def vfsLookupChild (s : Vfs) (parent : Nat) (name : CString) : Option Nat × Vfs :=
  if name = [] then (none, s)
  else
    match s.dLookup parent name with
    | some child => (some child, s)
    | none =>
      match (s.dentry parent).inode.bind fun i => s.finddirFs i name with
      | none => (none, s)
      | some inode =>
        match s.dAlloc (some parent) name with
        | (none, s) => (none, s)
        | (some child, s) => (some child, s.setDentry child fun e => { e with inode := some inode })

/-- The directory that `vfs_walk_parent_at` creates under a name it does not find. -/
def createDir (s : Vfs) (curr : Nat) (name : CString) : Option Nat × Vfs :=
  match (s.dentry curr).inode with
  | none => (none, s)
  | some node =>
    match s.ramfsMkdirInode node name with
    | (none, s) => (none, s)
    | (some inode, s) =>
      match s.dAlloc (some curr) name with
      | (none, s) => (none, s)
      | (some child, s) => (some child, s.setDentry child fun e => { e with inode := some inode })

/-- The loop of `vfs_walk_parent_at` over the path that is left. -/
def walkParentAt (createDirs : Bool) : Nat → Vfs → Nat → CString → Option (Nat × CString) × Vfs
  | 0, s, _, _ => (none, s)
  | fuel + 1, s, curr, p =>
    if ¬ p.contains '/' then
      (if p = [] ∨ 128 ≤ p.length then none else some (curr, p), s)
    else if part p = [] then (none, s)
    else
      let (child, s) := s.vfsLookupChild curr (part p)
      let (child, s) :=
        if child = none ∧ createDirs = true then s.createDir curr (part p) else (child, s)
      match child with
      | none => (none, s)
      | some child =>
        if s.IsDir child then walkParentAt createDirs fuel s child (afterPart p).tail
        else (none, s)

def vfsWalkParentAt (s : Vfs) (root : Nat) (path : CString) (createDirs : Bool) :
    Option (Nat × CString) × Vfs :=
  if path = [] ∨ 256 ≤ path.length then (none, s)
  else walkParentAt createDirs (path.length + 1) s root path

def vfsResolveAt (s : Vfs) (root : Nat) (path : CString) : Option Nat × Vfs :=
  match s.vfsWalkParentAt root path false with
  | (none, s) => (none, s)
  | (some (parent, leaf), s) =>
    let (child, s) := s.vfsLookupChild parent leaf
    (child.bind fun c => (s.dentry c).inode, s)

end Vfs
end LiteKernel.Fs
