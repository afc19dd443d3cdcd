import Mathlib.Data.List.Basic
import Mathlib.Data.List.TakeWhile
import Mathlib.Tactic

/-!
# Path strings

The string functions of `fs/namei.c`. They read no directory.

Main results:

- Definitions `part`, `afterPart`: how a path is cut into components.
- Definition `splitParent`: how it is split into the directory and the last name.
-/

namespace LiteKernel.Fs

/-- A C string without its final zero. -/
abbrev CString := List Char

/-- The name `.`. -/
def dot : CString := ['.']

/-- The name `..`. -/
def dotDot : CString := ['.', '.']

/-- The component at the start of a string. -/
def part (p : CString) : CString :=
  p.takeWhile (· ≠ '/')

/-- What follows the component at the start of a string. -/
def afterPart (p : CString) : CString :=
  p.dropWhile (· ≠ '/')

def skipSlashes (p : CString) : CString :=
  p.dropWhile (· = '/')

/-! ## Joining -/

def vfsAppendComponent (cap : Nat) (out start : CString) : Option CString :=
  if out = [] ∧ cap < 2 then none
  else
    let out := if out = [] then ['/'] else out
    if start = [] then some out
    else if cap ≤ out.length + 1 then none
    else
      let out := if out.getLast? = some '/' then out else out ++ ['/']
      if cap ≤ out.length + start.length then none else some (out ++ start)

def vfsPopComponent (out : CString) : CString :=
  if out.length ≤ 1 then ['/']
  else
    -- The index of the last slash, or zero if there is none.
    let i := (out.reverse.dropWhile (· ≠ '/')).length - 1
    if i = 0 then out.take 1 else out.take i

/-- The loop of `vfs_normalize_path` over the components that are left. -/
def normalizeParts (cap : Nat) : Nat → CString → CString → Option CString
  | 0, out, _ => some out
  | fuel + 1, out, p =>
    if p = [] then some out
    else
      let rest := skipSlashes (afterPart p)
      if part p = dot then normalizeParts cap fuel out rest
      else if part p = dotDot then normalizeParts cap fuel (vfsPopComponent out) rest
      else (vfsAppendComponent cap out (part p)).bind fun out => normalizeParts cap fuel out rest

/-- Every turn of the loop takes a character, so the length of the path bounds the turns. -/
def vfsNormalizePath (cap : Nat) (path : CString) : Option CString :=
  if cap < 2 then none
  else
    (vfsAppendComponent cap [] []).bind fun out =>
      normalizeParts cap path.length out (skipSlashes path)

/-- A slash is put between two strings unless the first is empty or ends with one. -/
def joinPath (a b : CString) : CString :=
  if a ≠ [] ∧ a.getLast? ≠ some '/' then a ++ '/' :: b else a ++ b

/-- The directory of the component `p` of an absolute path `cur`, as a string. -/
def basePath (cur p : CString) : Option CString :=
  let base := cur.take (cur.length - p.length)
  if base = [] then some ['/']
  else
    let stripped := (base.reverse.dropWhile (· = '/')).reverse
    let base := if stripped = [] then base.take 1 else stripped
    if 256 ≤ base.length then none else some base

/--
The path with which the walk starts again at a link: the target, behind its
directory if it is relative, and then the rest. The source copies the rest into
a buffer of 512 bytes without a check; the model has no buffer.
-/
def linkPath (base : Option CString) (target rest : CString) : Option CString :=
  let head :=
    if target.head? = some '/' then
      if 512 < target.length + 1 then none else some target
    else
      base.bind fun base =>
        if 512 < base.length + 1 + target.length + 1 then none else some (joinPath base target)
  head.bind fun path =>
    vfsNormalizePath 512 (if rest = [] then path else joinPath path rest)

/-! ## Splitting off the last name -/

inductive LastType where
  | norm
  | dot
  | dotDot
  deriving DecidableEq, Repr

/-- What `filename_parentat` reads off a path. -/
structure Split where
  parent : CString
  last : CString
  type : LastType
  deriving DecidableEq, Repr

variable {path : CString} {split : Split}

def stripSlashes (name : CString) : CString :=
  let stripped := (name.reverse.dropWhile (· = '/')).reverse
  if stripped = [] then name.take 1 else stripped

def lastType (last : CString) : LastType :=
  if last = dot then .dot else if last = dotDot then .dotDot else .norm

/-- The part of `filename_parentat` before the walk, with buffers of 256 and 128 bytes. -/
def splitParent (name : CString) : Option Split :=
  if name = [] then none
  else
    let name := stripSlashes name
    let last := (name.reverse.takeWhile (· ≠ '/')).reverse
    let slash := name.length - last.length
    if slash = 0 then
      if 128 ≤ last.length then none else some ⟨dot, last, lastType last⟩
    else if slash = 1 then
      if last = [] ∨ 128 ≤ last.length then none else some ⟨['/'], last, lastType last⟩
    else if 256 ≤ slash then none
    else if last = [] ∨ 128 ≤ last.length then none
    else some ⟨name.take (slash - 1), last, lastType last⟩

lemma stripSlashes_ne_nil {name : CString} (h : name ≠ []) : stripSlashes name ≠ [] := by
  unfold stripSlashes
  by_cases hs : (name.reverse.dropWhile (· = '/')).reverse = []
  · rw [if_pos hs]
    cases name with
    | nil => exact absurd rfl h
    | cons c name => exact List.cons_ne_nil c _
  · rw [if_neg hs]
    exact hs

lemma splitParent_last (h : splitParent path = some split) :
    split.last ≠ [] ∧ split.type = lastType split.last := by
  unfold splitParent at h
  by_cases hpath : path = []
  · rw [if_pos hpath] at h
    exact nomatch h
  · rw [if_neg hpath] at h
    have hne := stripSlashes_ne_nil hpath
    generalize stripSlashes path = name at h hne
    simp only at h
    split at h
    · rename_i hslash
      split at h
      · exact nomatch h
      · refine Option.some_inj.mp h ▸ ⟨?_, rfl⟩
        intro hlast
        simp only at hlast
        rw [hlast, List.length_nil, Nat.sub_zero, List.length_eq_zero_iff] at hslash
        exact hne hslash
    · split at h
      · split at h
        · exact nomatch h
        · rename_i hlast
          exact Option.some_inj.mp h ▸ ⟨fun hnil => hlast (.inl hnil), rfl⟩
      · split at h
        · exact nomatch h
        · split at h
          · exact nomatch h
          · rename_i hlast
            exact Option.some_inj.mp h ▸ ⟨fun hnil => hlast (.inl hnil), rfl⟩

lemma splitParent_last_ne_slash (h : splitParent path = some split) :
    ∀ c ∈ split.last, c ≠ '/' := by
  have hlast : ∀ name : CString, ∀ c ∈ (name.reverse.takeWhile (· ≠ '/')).reverse, c ≠ '/' := by
    intro name c hc
    have htake := List.mem_takeWhile_imp (List.mem_reverse.mp hc)
    exact of_decide_eq_true htake
  unfold splitParent at h
  simp only at h
  split_ifs at h <;> exact Option.some_inj.mp h ▸ hlast _

/-! ## Paths with something behind them -/

section

open List Option

variable {p w : CString} {c : Char}

lemma part_cons (hc : c ≠ '/') : part (c :: p) = c :: part p := by
  simp [part, hc]

lemma afterPart_cons (hc : c ≠ '/') : afterPart (c :: p) = afterPart p := by
  simp [afterPart, hc]

lemma skipSlashes_cons (hc : c ≠ '/') : skipSlashes (c :: p) = c :: p := by
  simp [skipSlashes, hc]

/-- The strings that may follow a path: nothing, or a slash and more. -/
def Behind (w : CString) : Prop :=
  w = [] ∨ ∃ x, w = '/' :: x

lemma part_append (hw : Behind w) : part (p ++ w) = part p := by
  induction p with
  | nil =>
    rcases hw with rfl | ⟨x, rfl⟩
    · rfl
    · rfl
  | cons c p ih =>
    by_cases hc : c = '/'
    · subst hc
      rfl
    · rw [cons_append, part_cons hc, part_cons hc, ih]

lemma afterPart_append (hw : Behind w) : afterPart (p ++ w) = afterPart p ++ w := by
  induction p with
  | nil =>
    rcases hw with rfl | ⟨x, rfl⟩
    · rfl
    · rfl
  | cons c p ih =>
    by_cases hc : c = '/'
    · subst hc
      rfl
    · rw [cons_append, afterPart_cons hc, afterPart_cons hc, ih]

lemma behind_afterPart (p : CString) : Behind (afterPart p) := by
  induction p with
  | nil => exact .inl rfl
  | cons c p ih =>
    by_cases hc : c = '/'
    · subst hc
      exact .inr ⟨p, rfl⟩
    · rw [afterPart_cons hc]
      exact ih

lemma part_append_afterPart (p : CString) : part p ++ afterPart p = p :=
  takeWhile_append_dropWhile

lemma skipSlashes_append :
    skipSlashes (p ++ w) = if skipSlashes p = [] then skipSlashes w else skipSlashes p ++ w := by
  induction p with
  | nil => rfl
  | cons c p ih =>
    by_cases hc : c = '/'
    · subst hc
      exact ih
    · rw [cons_append, skipSlashes_cons hc, skipSlashes_cons hc,
        if_neg (cons_ne_nil c p), cons_append]

lemma skipSlashes_head (p : CString) : (skipSlashes p).head? ≠ some '/' := by
  induction p with
  | nil => exact nofun
  | cons c p ih =>
    by_cases hc : c = '/'
    · subst hc
      exact ih
    · rw [skipSlashes_cons hc]
      exact fun h => hc (some_inj.mp h)

lemma skipSlashes_eq_self (h : p.head? ≠ some '/') : skipSlashes p = p := by
  cases p with
  | nil => rfl
  | cons c p => exact skipSlashes_cons fun hc => h (congrArg some hc)

lemma length_skipSlashes_le (p : CString) : (skipSlashes p).length ≤ p.length :=
  (dropWhile_sublist _).length_le

lemma length_rest_lt (hp : p ≠ []) : (skipSlashes (afterPart p)).length < p.length := by
  cases p with
  | nil => exact absurd rfl hp
  | cons c p =>
    by_cases hc : c = '/'
    · subst hc
      exact Nat.lt_succ_of_le (length_skipSlashes_le p)
    · have hafter : (afterPart p).length ≤ p.length := (dropWhile_sublist _).length_le
      rw [afterPart_cons hc]
      exact Nat.lt_succ_of_le (Nat.le_trans (length_skipSlashes_le _) hafter)

end

end LiteKernel.Fs
