import LiteKernel.Fs.Namei

/-!
# Who refers to a directory entry

The model of the calls that take and drop references to directory entries: the
descriptor table of `fs/file.c`, the part of fork and exit that concerns files, and
`vfs_mount_fs` for ramfs. A process refers to entries through its working
directory, its root and its open files, and a mount through its mountpoint.

`vfs_mount` takes no reference to the mountpoint. Where the source panics the model
returns false.

Main results:

- Definitions `filesClone`, `taskReleaseResources`, `vfsMount`: the calls.
-/

namespace LiteKernel.Fs

open Function

namespace Vfs

def setTask (s : Vfs) (t : Nat) (f : Task → Task) : Vfs :=
  { s with task := update s.task t (f (s.task t)) }

def setFile (s : Vfs) (f : Nat) (g : File → File) : Vfs :=
  { s with file := update s.file f (g (s.file f)) }

lemma setTask_self (s : Vfs) (t : Nat) (f : Task → Task) :
    (s.setTask t f).task t = f (s.task t) :=
  update_self ..

lemma setTask_of_ne (s : Vfs) {t u : Nat} (h : u ≠ t) (f : Task → Task) :
    (s.setTask t f).task u = s.task u :=
  update_of_ne h ..

lemma setFile_self (s : Vfs) (f : Nat) (g : File → File) :
    (s.setFile f g).file f = g (s.file f) :=
  update_self ..

lemma setFile_of_ne (s : Vfs) {f e : Nat} (h : e ≠ f) (g : File → File) :
    (s.setFile f g).file e = s.file e :=
  update_of_ne h ..

/-! ## Files and descriptors -/

/-- A file whose last reference goes is freed, which a count of zero records. -/
def vfsClose (s : Vfs) (f : Nat) : Vfs :=
  if 1 < (s.file f).refcount then s.setFile f fun e => { e with refcount := e.refcount - 1 }
  else (s.vfsDentryPut (s.file f).dentry).setFile f fun e => { e with refcount := 0 }

def fileDup (s : Vfs) (f : Nat) : Vfs :=
  s.setFile f fun e => { e with refcount := e.refcount + 1 }

def taskFdMax : Nat := 32

/-- The file at a descriptor of a task. -/
def slot (task : Nat → Task) (p : Nat × Nat) : Option Nat :=
  ((task p.1).fd[p.2]?).join

def setSlot (s : Vfs) (p : Nat × Nat) (f : Option Nat) : Vfs :=
  s.setTask p.1 fun k => { k with fd := k.fd.set p.2 f }

lemma slot_setSlot_of_ne (s : Vfs) {p q : Nat × Nat} (h : q ≠ p) (x : Option Nat) :
    slot (s.setSlot p x).task q = slot s.task q := by
  unfold slot setSlot
  by_cases hfst : q.1 = p.1
  · have hsnd : p.2 ≠ q.2 := fun heq => h (Prod.ext hfst heq.symm)
    rw [hfst, setTask_self, List.getElem?_set_ne hsnd]
  · rw [setTask_of_ne s hfst]

/-- The loop of `get_unused_fd`; the descriptors below 3 are the standard ones. -/
def unusedFd (k : Task) : Option Nat :=
  (List.range' 3 (taskFdMax - 3)).find? fun i => k.fd[i]? = some none

def getUnusedFd (s : Vfs) (f : Nat) : Option Nat × Vfs :=
  match s.current with
  | none => (none, s)
  | some t =>
    match unusedFd (s.task t) with
    | none => (none, s)
    | some i => (some i, s.setSlot (t, i) (some f))

/-- Close the file at a descriptor, if there is one. -/
def closeSlot (s : Vfs) (p : Nat × Nat) : Vfs :=
  match slot s.task p with
  | none => s
  | some f => (s.vfsClose f).setSlot p none

def fget (s : Vfs) (fd : Nat) : Option Nat :=
  s.current.bind fun t => slot s.task (t, fd)

def closeFd (s : Vfs) (fd : Nat) : Bool × Vfs :=
  if fd < 3 then (false, s)
  else
    match s.current, s.fget fd with
    | some t, some _ => (true, s.closeSlot (t, fd))
    | _, _ => (false, s)

def sysOpen (s : Vfs) (path : CString) (creat trunc : Bool) : Option Nat × Vfs :=
  match s.vfsOpen path creat trunc with
  | (none, s) => (none, s)
  | (some f, s) => s.getUnusedFd f

/-- `vfs_dentry_get`: an entry outside the tree. -/
def vfsDentryGet (s : Vfs) (node : Nat) (name : CString) : Option Nat × Vfs :=
  match s.dAlloc none name with
  | (none, s) => (none, s)
  | (some d, s) => (some d, s.setDentry d fun e => { e with inode := some node })

/-- `file_open_node`, with `none` for the write to a null pointer. -/
def fileOpenNode (s : Vfs) (node : Nat) : Option (Option Nat × Vfs) :=
  match s.vfsDentryGet node [] with
  | (none, _) => none
  | (some d, s) =>
    let (f, s) := s.vfsOpenDentry d
    some (f, s.vfsDentryPut d)

/-- One standard descriptor of the task `t`. -/
def installSlot (console t : Nat) (s : Vfs) (i : Nat) : Option Vfs :=
  (s.fileOpenNode console).map fun r => r.2.setSlot (t, i) r.1

/-- `install_stdio`; it ends in a fault if there is no memory for an entry. -/
def installStdio (s : Vfs) (console : Nat) : Option Vfs :=
  match s.current with
  | none => some s
  | some t => [0, 1, 2].foldlM (installSlot console t) s

/-! ## Fork and exit -/

/-- Take a reference to an entry, if there is one. -/
def dgetOpt (s : Vfs) (d : Option Nat) : Vfs :=
  (d.map s.dget).getD s

/-- The descriptor table after `files_init`. -/
def filesInit : List (Option Nat) :=
  List.replicate taskFdMax none

/-- One turn of `files_clone`. -/
def cloneSlot (dst src : Nat) (s : Vfs) (i : Nat) : Vfs :=
  match slot s.task (src, i) with
  | none => s
  | some f => (s.fileDup f).setSlot (dst, i) (some f)

def filesClone (s : Vfs) (dst src : Nat) : Vfs :=
  (List.range taskFdMax).foldl (cloneSlot dst src) s

/-- What `sys_fork` does for the child once the address space is copied. -/
def sysFork (s : Vfs) (child : Nat) : Bool × Vfs :=
  match s.current with
  | none => (false, s)
  | some parent =>
    let (allocated, s) := s.kmalloc
    let (stacked, s) := s.kmalloc
    if allocated = false ∨ stacked = false then (false, s)
    else
      let k := s.task parent
      let s := (s.dgetOpt k.pwd).dgetOpt k.root
      let s := s.setTask child fun _ => { k with fd := filesInit }
      (true, s.filesClone child parent)

def filesCloseAll (s : Vfs) (t : Nat) : Vfs :=
  (List.range taskFdMax).foldl (fun s i => s.closeSlot (t, i)) s

/-- What `task_release_resources` does for the files of a task. -/
def taskReleaseResources (s : Vfs) (t : Nat) : Vfs :=
  let s := s.filesCloseAll t
  let s := (((s.task t).pwd.map s.vfsDentryPut).getD s).setTask t fun k => { k with pwd := none }
  (((s.task t).root.map s.vfsDentryPut).getD s).setTask t fun k => { k with root := none }

/-! ## Mounting -/

/-- The root directory that `ramfs_fill_super` makes. -/
def ramfsFillSuper (s : Vfs) : Option Nat × Vfs :=
  match s.ramfsGetInode .directory 0o755 with
  | (none, s) => (none, s)
  | (some i, s) =>
    let s := { s with inode := update s.inode i { s.inode i with ino := 1, uid := 0, gid := 0 } }
    match s.dAlloc none ['/'] with
    | (none, s) => (none, s.ramfsEvictInode i)
    | (some d, s) => (some d, s.setDentry d fun e => { e with inode := some i })

/-- The directory to mount on; it is created if it is missing. -/
def mountpointOf (s : Vfs) (path : CString) : Option Nat × Vfs :=
  match s.kernPath path true with
  | (some d, s) => (some d, s)
  | (none, s) =>
    match s.vfsMkdir path with
    | (false, s) => (none, s)
    | (true, s) => s.kernPath path true

/-- The root is marked as well, for the step to `..` out of the mounted file system. -/
def addMount (s : Vfs) (root mountpoint : Nat) : Vfs :=
  let m := s.mountCount
  let s := { s with mount := update s.mount m ⟨root, some mountpoint⟩, mountCount := m + 1 }
  let s := s.setDentry mountpoint fun e => { e with mount := some m }
  s.setDentry root fun e => { e with mount := some m }

def vfsMount (s : Vfs) (path : CString) (mountRoot : Nat) : Bool × Vfs :=
  match s.mountpointOf path with
  | (none, s) => (false, s)
  | (some d, s) =>
    let (ok, s) := s.kmalloc
    if ok then
      -- The copy of the path that `kstrdup` makes.
      let (_, s) := s.kmalloc
      (true, s.addMount mountRoot d)
    else (false, s)

/-- The flag says that nothing panicked. -/
def vfsMountFs (s : Vfs) (path : CString) : Bool × Vfs :=
  -- The super block.
  let (ok, s) := s.kmalloc
  if ok then
    match s.ramfsFillSuper with
    | (none, s) => (false, s)
    | (some root, s) => s.vfsMount path root
  else (false, s)

end Vfs
end LiteKernel.Fs
