import LiteKernel.Fs.LookupPurity
import LiteKernel.Fs.FileRefs
import LiteKernel.Lib.Word

/-!
# Paths from user memory

The calls that take a path copy it into a buffer of 128 bytes.

Main results:

- Theorem `strncpyFromUser_exact_iff`: the copy is the string exactly if the string fits, and the
  calls act on its first 127 characters.
- Theorem `longPath_truncated`: a call on another path than the one it was given.
-/

namespace LiteKernel.Fs

open Lib

/-- What `__copy_from_user` gives for the byte at an address; `none` is a failure. -/
abbrev UserMemory := Nat → Option Char

variable {u : UserMemory} {src i k n : Nat} {dst str : CString}

/-- The loop of `strncpy_from_user`, with room for `k` more characters. -/
def strncpyLoop (u : UserMemory) (src : Nat) : Nat → Nat → Option CString
  | 0, _ => some []
  | k + 1, i =>
    match u (wrap (src + i)) with
    | none => none
    | some c => if c = '\x00' then some [] else (strncpyLoop u src k (i + 1)).map (c :: ·)

/-- The string in the buffer, or `none` for the error. -/
def strncpyFromUser (u : UserMemory) (n src : Nat) : Option CString :=
  if n = 0 then none else if src = 0 then none else strncpyLoop u src (n - 1) 0

/-- The string at `src + i` is `str`, and all of it can be read. -/
def Holds (u : UserMemory) (src : Nat) : Nat → CString → Prop
  | i, [] => u (wrap (src + i)) = some '\x00'
  | i, c :: str => u (wrap (src + i)) = some c ∧ c ≠ '\x00' ∧ Holds u src (i + 1) str

lemma strncpyLoop_of_holds (h : Holds u src i str) :
    strncpyLoop u src k i = some (str.take k) := by
  induction k generalizing i str with
  | zero => rfl
  | succ k ih =>
    cases str with
    | nil =>
      rw [strncpyLoop, h]
      rfl
    | cons c str =>
      obtain ⟨hc, hne, hstr⟩ := h
      rw [strncpyLoop, hc]
      simp [hne, ih hstr]

lemma length_strncpyLoop (h : strncpyLoop u src k i = some dst) : dst.length ≤ k := by
  induction k generalizing i dst with
  | zero =>
    cases h
    rfl
  | succ k ih =>
    rw [strncpyLoop] at h
    split at h
    · cases h
    · split_ifs at h
      · cases h
        exact Nat.zero_le _
      · obtain ⟨rest, hrest, rfl⟩ := Option.map_eq_some_iff.mp h
        exact Nat.succ_le_succ (ih hrest)

namespace Vfs

/-- A call that takes a path copies it into a buffer of 128 bytes. -/
def userPath {α : Type} (u : UserMemory) (pathname : Nat) (failed : α) (call : CString → α) : α :=
  match strncpyFromUser u 128 pathname with
  | none => failed
  | some tmp => call tmp

def sysMkdir (s : Vfs) (u : UserMemory) (pathname : Nat) : Bool × Vfs :=
  userPath u pathname (false, s) s.vfsMkdir

def sysUnlink (s : Vfs) (u : UserMemory) (pathname : Nat) : Bool × Vfs :=
  userPath u pathname (false, s) s.vfsUnlink

def sysRmdir (s : Vfs) (u : UserMemory) (pathname : Nat) : Bool × Vfs :=
  userPath u pathname (false, s) s.vfsRmdir

def sysOpenUser (s : Vfs) (u : UserMemory) (pathname : Nat) (creat trunc : Bool) :
    Option Nat × Vfs :=
  userPath u pathname (none, s) fun path => s.sysOpen path creat trunc

end Vfs

/--
If `strncpy_from_user` succeeds, the buffer holds the string of the user exactly if that string
fits. The calls act on the first 127 characters of a string.
-/
theorem strncpyFromUser_exact_iff (h : strncpyFromUser u n src = some dst) :
    (Holds u src 0 dst ↔ ∃ str, Holds u src 0 str ∧ str.length < n) ∧
    ∀ (s : Vfs) (str : CString), Holds u src 0 str →
      s.sysMkdir u src = s.vfsMkdir (str.take 127) ∧
      s.sysUnlink u src = s.vfsUnlink (str.take 127) ∧
      s.sysRmdir u src = s.vfsRmdir (str.take 127) ∧
      ∀ creat trunc, s.sysOpenUser u src creat trunc = s.sysOpen (str.take 127) creat trunc := by
  unfold strncpyFromUser at h
  split_ifs at h with hn hsrc
  refine ⟨⟨fun hdst => ⟨dst, hdst, ?_⟩, ?_⟩, fun s str hstr => ?_⟩
  · have := length_strncpyLoop h
    omega
  · rintro ⟨str, hstr, hlen⟩
    rw [strncpyLoop_of_holds hstr, List.take_of_length_le (by omega)] at h
    exact Option.some_inj.mp h ▸ hstr
  · have hcopy : strncpyFromUser u 128 src = some (str.take 127) := by
      rw [strncpyFromUser, if_neg (by decide), if_neg hsrc, strncpyLoop_of_holds hstr]
    simp [Vfs.sysMkdir, Vfs.sysUnlink, Vfs.sysRmdir, Vfs.sysOpenUser, Vfs.userPath, hcopy]

/-- User memory with the string `str` at `0x1000`. -/
def userString (str : CString) : UserMemory := fun addr =>
  if addr < 0x1000 then none else some (str.getD (addr - 0x1000) '\x00')

/-- The path `/etc/passwd` is copied whole, and `mkdir` gets it. -/
theorem shortPath_exact :
    let path := ['/', 'e', 't', 'c', '/', 'p', 'a', 's', 's', 'w', 'd']
    Holds (userString path) 0x1000 0 path ∧
      Vfs.bootTree.sysMkdir (userString path) 0x1000 = Vfs.bootTree.vfsMkdir path := by
  intro path
  have hpath : Holds (userString path) 0x1000 0 path := by simp [path, Holds, userString, wrap]
  have hcopy : strncpyFromUser (userString path) 128 0x1000 = some path := by decide
  have hexact := strncpyFromUser_exact_iff hcopy
  exact ⟨hexact.1.mpr ⟨path, hpath, by decide⟩, (hexact.2 _ path hpath).1⟩

/-- `rmdir` of a path that does not exist removes the directory its first characters name. -/
theorem longPath_truncated :
    let path := '/' :: List.replicate 199 'a'
    let s := (Vfs.bootTree.vfsMkdir (path.take 127)).2
    strncpyFromUser (userString path) 128 0x1000 = some (path.take 127) ∧
    (s.vfsRmdir path).1 = false ∧ (s.vfsResolve (path.take 127)).1 = some 1 ∧
      (s.sysRmdir (userString path) 0x1000).1 = true ∧
      ((s.sysRmdir (userString path) 0x1000).2.vfsResolve (path.take 127)).1 = none := by
  decide +kernel

end LiteKernel.Fs
