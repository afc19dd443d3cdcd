import LiteKernel.Fs.Namei

/-!
# A file tree without a cache

What the calls of `fs/namei.c` are for: a tree that maps a list of names to an
inode, and in which a lookup changes nothing. A name is there or it is not. A path that goes on
with `..` after a name that is not there has no meaning here, and the lookup says so.

Main results:

- Definitions `FileTree.lookup`, `FileTree.create`, `FileTree.remove`: the calls.
-/

namespace LiteKernel.Fs

open Function

/-- A position in the tree: the names on the way from the root, the last one first. -/
abbrev Pos := List CString

@[ext]
structure FileTree where
  node : Pos → Option Nat
  inode : Nat → Inode
  inodeCount : Nat
  lastIno : Nat
  pwd : Nat → Option Pos
  root : Nat → Option Pos
  cred : Nat → Cred
  current : Option Nat

/-- The result of a lookup. -/
inductive Found where
  | here (x : Pos)
  | nowhere
  /-- The path takes `..` from a name that is not there. -/
  | astray
  deriving DecidableEq

/-- The end of a pass over the components of a path. -/
inductive Pass where
  | ended (found : Found)
  | restart (path : CString) (start : Pos)

/-- After components `.` the path goes on with `..`. -/
def turnsBack : Nat → CString → Bool
  | 0, _ => false
  | fuel + 1, p =>
    if p = [] then false
    else if part p = dot then turnsBack fuel (skipSlashes (afterPart p))
    else decide (part p = dotDot)

namespace FileTree

variable {t : FileTree} {path : CString}

def currentCred (t : FileTree) : Cred :=
  (t.current.map t.cred).getD ⟨0, 0, 0o22⟩

def fsRoot (t : FileTree) : Pos :=
  (t.current.bind t.root).getD []

def fsPwd (t : FileTree) : Pos :=
  (t.current.bind t.pwd).getD t.fsRoot

/-- The position a component leads to. -/
def component (t : FileTree) (x : Pos) (name : CString) : Option Pos :=
  if name = dot then some x
  else if name = dotDot then some x.tail
  else if (t.node (name :: x)).isSome then some (name :: x)
  else none

def readLink (t : FileTree) (x : Pos) : Option CString :=
  (t.node x).bind fun i =>
    if (t.inode i).type = .symlink then some (((t.inode i).target.getD []).take 255) else none

/-- The path of a position as a string, if it fits. -/
def buildPath (cap : Nat) : Pos → CString → Option CString
  | [], out => some (if out = [] then ['/'] else out)
  | name :: x, out =>
    if name = [] ∨ cap - 1 - out.length < name.length + 1 then none
    else buildPath cap x ('/' :: name ++ out)

def followLink (root : Pos) (cur p : CString) (x : Pos) (target : CString) : Pass :=
  if target = [] then .ended .nowhere
  else
    let base := if cur.head? = some '/' then basePath cur p else buildPath 256 x.tail []
    match linkPath base target (skipSlashes (afterPart p)) with
    | none => .ended .nowhere
    | some path => .restart path (if path.head? = some '/' then root else x.tail)

def walkParts (t : FileTree) (root : Pos) (cur : CString) : Nat → Pos → CString → Pass
  | 0, x, _ => .ended (.here x)
  | fuel + 1, x, p =>
    if p = [] then .ended (.here x)
    else if 128 ≤ (part p).length then .ended .nowhere
    else
      match t.component x (part p) with
      | none =>
        .ended (if turnsBack fuel (skipSlashes (afterPart p)) then .astray else .nowhere)
      | some y =>
        match t.readLink y with
        | none => walkParts t root cur fuel y (skipSlashes (afterPart p))
        | some target => followLink root cur p y target

def walkFrom (t : FileTree) (root : Pos) : Nat → Pos → CString → Found
  | 0, _, _ => .nowhere
  | depth + 1, start, cur =>
    match t.walkParts root cur cur.length start (skipSlashes cur) with
    | .ended found => found
    | .restart path start => walkFrom t root depth start path

/-- The lookup of a path. -/
def lookup (t : FileTree) (name : CString) : Found :=
  let (start, walk) :=
    if name.head? = some '/' then (t.fsRoot, skipSlashes name) else (t.fsPwd, name)
  if walk = [] then .here start
  else if 512 ≤ walk.length then .nowhere
  else t.walkFrom t.fsRoot 8 start walk

/-- The inode at a position that was looked up. -/
def Found.inode (t : FileTree) : Found → Option Nat
  | .here x => t.node x
  | .nowhere | .astray => none

def resolve (t : FileTree) (path : CString) : Option Nat :=
  if path = [] then none else (Found.inode t (t.lookup path))

/-- The directory in which a name is created or removed, its inode and the name. -/
def parentDir (t : FileTree) (path : CString) : Option (Pos × Nat × CString) :=
  (splitParent path).bind fun split =>
    match t.lookup split.parent, split.type with
    | .here x, .norm =>
      (t.node x).bind fun i =>
        if (t.inode i).type = .directory then some (x, i, split.last) else none
    | _, _ => none

/-- The path has a meaning, and so has the path of its directory. -/
def Clear (t : FileTree) (path : CString) : Prop :=
  t.lookup path ≠ .astray ∧ ∀ split, splitParent path = some split → t.lookup split.parent ≠ .astray

/-! ## Changes -/

/-- Put a new inode at a position. -/
def create (t : FileTree) (x : Pos) (node : Inode) : FileTree :=
  { t with
    node := update t.node x (some t.inodeCount)
    inode := update t.inode t.inodeCount node
    inodeCount := t.inodeCount + 1
    lastIno := (t.lastIno + 1) % 2 ^ 32 }

/-- The attributes of the next inode. -/
def fresh (t : FileTree) (type : FileType) (mode : Nat) : Inode :=
  .fresh type ((t.lastIno + 1) % 2 ^ 32) mode t.currentCred

open Classical in
/-- Remove a position and everything below it. -/
noncomputable def erase (t : FileTree) (x : Pos) : FileTree :=
  { t with node := fun y => if x <:+ y then none else t.node y }

/-- Nothing is below a position. -/
def Empty (t : FileTree) (x : Pos) : Prop :=
  ∀ name, t.node (name :: x) = none

def mkdir (t : FileTree) (path : CString) : Bool × FileTree :=
  match t.parentDir path with
  | none => (false, t)
  | some (x, i, name) =>
    if (t.inode i).checkAccess t.currentCred false true true = false then (false, t)
    else if (t.node (name :: x)).isSome then (false, t)
    else if Vfs.ramfsValidName name = false then (false, t)
    else (true, t.create (name :: x) (t.fresh .directory 0o777))

def symlink (t : FileTree) (target path : CString) : Bool × FileTree :=
  match t.parentDir path with
  | none => (false, t)
  | some (x, _, name) =>
    if Vfs.ramfsValidName name = false then (false, t)
    else (true, t.create (name :: x) ((t.fresh .symlink 0o777).linkTo target))

/-- The inode at the position is no directory or, with `dir`, an empty directory. -/
def IsTarget (t : FileTree) (dir : Bool) (x : Pos) (j : Nat) : Prop :=
  dir = decide ((t.inode j).type = .directory) ∧ (dir = true → t.Empty x)

open Classical in
/--
The position that `vfs_unlink` or, with `dir`, `vfs_rmdir` removes: a file, or a
directory with nothing below it.
-/
noncomputable def removable (t : FileTree) (path : CString) (dir : Bool) : Option Pos :=
  (t.parentDir path).bind fun (x, i, name) =>
    if (t.inode i).checkAccess t.currentCred false true true = false then none
    else
      (t.node (name :: x)).bind fun j =>
        if t.IsTarget dir (name :: x) j then some (name :: x) else none

open Classical in
lemma removable_of_parentDir {x : Pos} {i : Nat} {name : CString}
    (h : t.parentDir path = some (x, i, name)) (dir : Bool) :
    t.removable path dir =
      if (t.inode i).checkAccess t.currentCred false true true = false then none
      else
        (t.node (name :: x)).bind fun j =>
          if t.IsTarget dir (name :: x) j then some (name :: x) else none := by
  rw [removable, h, Option.bind_some]

lemma removable_eq_some {dir : Bool} {y : Pos} (h : t.removable path dir = some y) :
    ∃ x i name, t.parentDir path = some (x, i, name) ∧ y = name :: x := by
  obtain ⟨⟨x, i, name⟩, hparent, hy⟩ := Option.bind_eq_some_iff.mp h
  refine ⟨x, i, name, hparent, ?_⟩
  simp only at hy
  split at hy
  · exact nomatch hy
  · obtain ⟨j, -, hj⟩ := Option.bind_eq_some_iff.mp hy
    split at hj
    · exact (Option.some_inj.mp hj).symm
    · exact nomatch hj

/-- A task works at or below the position, or has its root there. -/
def InUse (t : FileTree) (x : Pos) : Prop :=
  ∃ k y, (t.pwd k = some y ∨ t.root k = some y) ∧ x <:+ y

/-- The calls `vfs_unlink` and `vfs_rmdir`. -/
noncomputable def remove (t : FileTree) (path : CString) (dir : Bool) : Bool × FileTree :=
  match t.removable path dir with
  | some x => (true, t.erase x)
  | none => (false, t)

/-- The inode to open: the one found, or one that is created. -/
def openEntry (t : FileTree) (path : CString) (creat : Bool) : Option Nat × FileTree :=
  match t.resolve path with
  | some i => (some i, t)
  | none =>
    if creat = false then (none, t)
    else
      match t.parentDir path with
      | none => (none, t)
      | some (x, _, name) =>
        if Vfs.ramfsValidName name = false then (none, t)
        else (some t.inodeCount, t.create (name :: x) (t.fresh .file 0o666))

/-- The inode that is opened. -/
def openFile (t : FileTree) (path : CString) (creat trunc : Bool) : Option Nat × FileTree :=
  match t.openEntry path creat with
  | (none, t) => (none, t)
  | (some i, t) =>
    if (t.inode i).mayOpen t.currentCred trunc = false then (none, t)
    else if trunc = true ∧ (t.inode i).type = .file then
      (some i, { t with inode := update t.inode i (t.inode i).truncate })
    else (some i, t)

/-- The lookup of `vfs_resolve_at` over the path that is left; every component is a name. -/
def resolveParts (t : FileTree) : Nat → Pos → CString → Option Nat
  | 0, _, _ => none
  | fuel + 1, x, p =>
    if ¬ p.contains '/' then
      if p = [] ∨ 128 ≤ p.length then none else t.node (p :: x)
    else if part p = [] then none
    else
      (t.node (part p :: x)).bind fun i =>
        if (t.inode i).type = .directory then resolveParts t fuel (part p :: x) (afterPart p).tail
        else none

def resolveAt (t : FileTree) (path : CString) : Option Nat :=
  if path = [] ∨ 256 ≤ path.length then none else t.resolveParts (path.length + 1) [] path

end FileTree
end LiteKernel.Fs
