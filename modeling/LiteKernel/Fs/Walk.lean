import LiteKernel.Fs.DcacheTree
import Mathlib.Logic.Relation

/-!
# What a walk keeps

A walk along a path only reads entries and adds negative ones.

Main results:

- Lemma `WalkSteps.walkPath`: a property of states that such an addition keeps, with one of
  entries that every step keeps, holds after the walk.
-/

namespace LiteKernel.Fs

open Function Option Relation.ReflTransGen

namespace Vfs

variable {s : Vfs}
variable {d e fuel node : Nat} {name : CString}

/-! ## Trees of entries -/

/-- The second entry hangs in the first. -/
def Child (s : Vfs) (d c : Nat) : Prop :=
  c ∈ (s.dentry d).children

/-- The second entry is the first or below it. -/
def Below (s : Vfs) (d e : Nat) : Prop :=
  Relation.ReflTransGen s.Child d e

/-- An entry comes before its children, and the inode of a directory has one entry. -/
structure Forest (s : Vfs) : Prop where
  root_lt : s.root < s.dentryCount
  child : ∀ d c, c ∈ (s.dentry d).children → d < c ∧ c < s.dentryCount
  unique : ∀ d e i, (s.inode i).type = .directory → (s.dentry d).inode = some i →
    (s.dentry e).inode = some i → d = e
  bound : ∀ d i, (s.dentry d).inode = some i → d < s.dentryCount ∧ i < s.inodeCount

lemma Wf.forest (hs : Wf s) : Forest s where
  root_lt := hs.root_lt
  child d c hc := ⟨(hs.child d c hc).1, (hs.child d c hc).2.1⟩
  unique d e i _ := hs.unique d e i
  bound := hs.bound

lemma Forest.le_of_below (hs : Forest s) (h : s.Below d e) : d ≤ e := by
  induction h with
  | refl => exact le_refl d
  | @tail b c _ hc ih => exact ih.trans (le_of_lt (hs.child b c hc).1)

/-! ## The search for the entry of an inode -/

lemma findDentryByInode_inode (h : s.findDentryByInode node fuel d = some e) :
    (s.dentry e).inode = some node := by
  induction fuel generalizing d with
  | zero => exact nomatch h
  | succ fuel ih =>
    rw [findDentryByInode] at h
    split_ifs at h with hd
    · rw [some_inj] at h
      exact h ▸ hd
    · obtain ⟨c, -, hc⟩ := List.exists_of_findSome?_eq_some h
      exact ih hc

lemma findDentryByInode_below (h : s.findDentryByInode node fuel d = some e) : s.Below d e := by
  induction fuel generalizing d with
  | zero => cases h
  | succ fuel ih =>
    rw [findDentryByInode] at h
    split_ifs at h
    · rw [some_inj] at h
      rw [h]
      exact refl
    · obtain ⟨c, hc, hfound⟩ := List.exists_of_findSome?_eq_some h
      exact head hc (ih hfound)

lemma Forest.findDentryByInode_isSome (hs : Forest s) (h : s.Below d e)
    (he : (s.dentry e).inode = some node) (hf : e < d + fuel) :
    (s.findDentryByInode node fuel d).isSome := by
  -- a child has a larger number than its parent, so the fuel lasts down to the entry
  induction h using head_induction_on generalizing fuel with
  | refl =>
    obtain ⟨fuel, rfl⟩ : ∃ n, fuel = n + 1 := Nat.exists_eq_succ_of_ne_zero (by omega)
    rw [findDentryByInode, if_pos he]
    rfl
  | @head d c hc hbelow ih =>
    have hle : d < c := (hs.child d c hc).1
    cases fuel with
    | zero =>
      have hce := hs.le_of_below hbelow
      omega
    | succ fuel =>
      rw [findDentryByInode]
      split_ifs
      · rfl
      · exact List.findSome?_isSome_iff.mpr ⟨c, hc, ih (by omega)⟩

lemma Forest.findDentryByInode_eq (hs : Forest s) (hdir : (s.inode node).type = .directory)
    (hd : (s.dentry d).inode = some node) :
    s.findDentryByInode node (s.dentryCount + 1) s.root = some d ↔ s.Below s.root d := by
  constructor
  · exact findDentryByInode_below
  · intro hbelow
    have hlt := (hs.bound d node hd).1
    have hfound := hs.findDentryByInode_isSome hbelow hd
      (lt_of_lt_of_le (Nat.lt_succ_of_lt hlt) (Nat.le_add_left _ s.root))
    obtain ⟨e, he⟩ := isSome_iff_exists.mp hfound
    rw [he, hs.unique e d node hdir (findDentryByInode_inode he) hd]

/-- What the cache does not have, the file system does not have either. -/
lemma Forest.finddirFs_eq_none (hs : Forest s) (hd : (s.dentry d).inode = some node)
    (hl : s.dLookup d name = none) : s.finddirFs node name = none := by
  unfold finddirFs genericFinddir
  split_ifs with hdir
  · rfl
  · rfl
  · cases hf : s.findDentryByInode node (s.dentryCount + 1) s.root with
    | none => rfl
    | some host =>
      have hhost : host = d :=
        hs.unique host d node (not_not.mp hdir) (findDentryByInode_inode hf) hd
      rw [bind_some, hhost, hl, bind_none]

/-! ## Walks -/

/-- At a name that is not there the walk makes a negative entry. -/
lemma walkComponent_of_not_findChild (hs : Wf s) {curr : Nat} (hlt : curr < s.dentryCount)
    (hdot : name ≠ dot) (hdotDot : name ≠ dotDot) (hc : s.findChild curr name = none) :
    s.walkComponent curr name =
      if (s.dentry curr).inode = none then (none, s)
      else (some s.dentryCount, s.newChild curr name none true) := by
  have hl : s.dLookup curr name = none := by rw [hs.dLookup_eq, hc]
  unfold walkComponent
  rw [if_neg hdot, if_neg hdotDot, hl]
  cases hnode : (s.dentry curr).inode with
  | none => rfl
  | some node =>
    simp only [hs.forest.finddirFs_eq_none hnode hl, dAlloc_eq hs.memory hlt]
    simp [setDentry, newChild]

/-- The walk of `path_lookupat`, before the test for a directory. -/
def walkPath (s : Vfs) (name : CString) : Option Nat × Vfs :=
  if (s.pathInit name).2 = [] then (some (s.pathInit name).1, s)
  else s.linkPathWalk s.fsRoot (s.pathInit name).1 (s.pathInit name).2

lemma pathLookupat_eq (s : Vfs) (name : CString) (dir : Bool) :
    s.pathLookupat name dir =
      ((s.walkPath name).1.bind fun d =>
        if dir = true ∧ ¬ (s.walkPath name).2.IsDir d then none else some d, (s.walkPath name).2) :=
  rfl

/-- What a property of states and a property of entries need for every walk to keep them. -/
structure WalkInv (I : Vfs → Prop) (G : Vfs → Nat → Prop) : Prop where
  wf : ∀ {s}, I s → Wf s
  lt : ∀ {s d}, I s → G s d → d < s.dentryCount
  child : ∀ {s d c}, I s → G s d → c ∈ (s.dentry d).children → G s c
  parent : ∀ {s d}, I s → G s d → G s ((s.dentry d).parent.getD d)
  up : ∀ {s d}, I s → G s d → G s (s.followDotDot d)
  cross : ∀ {s d}, I s → G s d → G s (s.crossMount d)
  start : ∀ {s}, I s → G s s.fsRoot ∧ G s s.fsPwd
  probe : ∀ {s p name}, name ≠ dot → name ≠ dotDot → I s → G s p → (s.dentry p).inode ≠ none →
    s.findChild p name = none →
    I (s.newChild p name none true) ∧ ∀ d, G s d → G (s.newChild p name none true) d

namespace WalkInv

variable {I : Vfs → Prop} {G : Vfs → Nat → Prop}

lemma walkComponent (h : WalkInv I G) (hs : I s) {curr : Nat} (hcurr : G s curr)
    (name : CString) :
    I (s.walkComponent curr name).2 ∧ (∀ d, G s d → G (s.walkComponent curr name).2 d) ∧
      ∀ next, (s.walkComponent curr name).1 = some next → G (s.walkComponent curr name).2 next := by
  by_cases hdot : name = dot
  · have heq : s.walkComponent curr name = (some curr, s) := by rw [Vfs.walkComponent, if_pos hdot]
    rw [heq]
    exact ⟨hs, fun _ hd => hd, fun next hn => some_inj.mp hn ▸ hcurr⟩
  · by_cases hdotDot : name = dotDot
    · have heq : s.walkComponent curr name = (some (s.followDotDot curr), s) := by
        rw [Vfs.walkComponent, if_neg hdot, if_pos hdotDot]
      rw [heq]
      exact ⟨hs, fun _ hd => hd, fun next hn => some_inj.mp hn ▸ h.up hs hcurr⟩
    · cases hc : s.findChild curr name with
      | some c =>
        have hmem := ((h.wf hs).findChild_eq_some.mp hc).1
        have heq : s.walkComponent curr name = (none, s) ∨
            s.walkComponent curr name = (some c, s) := by
          rw [Vfs.walkComponent, if_neg hdot, if_neg hdotDot, (h.wf hs).dLookup_eq, hc]
          exact ite_eq_or_eq ..
        rcases heq with heq | heq
        · rw [heq]
          exact ⟨hs, fun _ hd => hd, nofun⟩
        · rw [heq]
          exact ⟨hs, fun _ hd => hd, fun next hn => some_inj.mp hn ▸ h.child hs hcurr hmem⟩
      | none =>
        have hlt := h.lt hs hcurr
        rw [walkComponent_of_not_findChild (h.wf hs) hlt hdot hdotDot hc]
        split_ifs with hnone
        · exact ⟨hs, fun _ hd => hd, nofun⟩
        · obtain ⟨hs', hkeep⟩ := h.probe hdot hdotDot hs hcurr hnone hc
          refine ⟨hs', hkeep, fun next hn => ?_⟩
          rw [← some_inj.mp hn]
          refine h.child hs' (hkeep curr hcurr) ?_
          exact (mem_newChild_children (h.wf hs) hlt).mpr (.inr ⟨rfl, rfl⟩)

end WalkInv

/-- The same, for properties that every step of a walk is known to keep. -/
structure WalkSteps (I : Vfs → Prop) (G : Vfs → Nat → Prop) : Prop where
  component : ∀ {s curr} name, I s → G s curr → I (s.walkComponent curr name).2 ∧
    (∀ d, G s d → G (s.walkComponent curr name).2 d) ∧
    ∀ next, (s.walkComponent curr name).1 = some next → G (s.walkComponent curr name).2 next
  parent : ∀ {s d}, I s → G s d → G s ((s.dentry d).parent.getD d)
  cross : ∀ {s d}, I s → G s d → G s (s.crossMount d)
  start : ∀ {s}, I s → G s s.fsRoot ∧ G s s.fsPwd

lemma WalkInv.steps {I : Vfs → Prop} {G : Vfs → Nat → Prop} (h : WalkInv I G) : WalkSteps I G :=
  ⟨fun name hs hcurr => h.walkComponent hs hcurr name, h.parent, h.cross, h.start⟩

/-- The end of a pass has the property. -/
def Walked.Good (G : Nat → Prop) : Walked → Prop
  | .arrived d => G d
  | .failed => True
  | .restart _ start => G start

namespace WalkSteps

variable {I : Vfs → Prop} {G : Vfs → Nat → Prop} {curr root : Nat}
variable (h : WalkSteps I G)
include h

lemma followLink (hs : I s) (hroot : G s root) (hcurr : G s curr)
    (cur p target : CString) : (s.followLink root cur p curr target).Good (G s) := by
  unfold Vfs.followLink
  split
  · trivial
  · simp only
    split
    · trivial
    · rename_i path _
      split
      · exact hroot
      · exact h.parent hs hcurr

lemma walkParts (cur : CString) (fuel : Nat) (hs : I s) (hroot : G s root)
    (hcurr : G s curr) (p : CString) :
    I (walkParts root cur fuel s curr p).2 ∧
      (∀ d, G s d → G (walkParts root cur fuel s curr p).2 d) ∧
      (walkParts root cur fuel s curr p).1.Good (G (walkParts root cur fuel s curr p).2) := by
  induction fuel generalizing s curr p with
  | zero => exact ⟨hs, fun _ hd => hd, hcurr⟩
  | succ fuel ih =>
    unfold walkParts
    split
    · exact ⟨hs, fun _ hd => hd, hcurr⟩
    · split
      · exact ⟨hs, fun _ hd => hd, trivial⟩
      · have hstep := h.component (part p) hs hcurr
        rcases hw : s.walkComponent curr (part p) with ⟨found, s'⟩
        rw [hw] at hstep
        obtain ⟨hs', hkeep, hnext⟩ := hstep
        cases found with
        | none => exact ⟨hs', hkeep, trivial⟩
        | some next =>
          have hcross : G s' (s'.crossMount next) := h.cross hs' (hnext next rfl)
          simp only
          cases s'.readLink (s'.crossMount next) with
          | some target => exact ⟨hs', hkeep, h.followLink hs' (hkeep root hroot) hcross ..⟩
          | none =>
            obtain ⟨hs'', hkeep', hlast⟩ := ih hs' (hkeep root hroot) hcross
              (skipSlashes (afterPart p))
            exact ⟨hs'', fun d hd => hkeep' d (hkeep d hd), hlast⟩

lemma walkFrom (depth : Nat) (hs : I s) (hroot : G s root) {start : Nat}
    (hstart : G s start) (cur : CString) :
    I (walkFrom root depth s start cur).2 ∧
      (∀ d, G s d → G (walkFrom root depth s start cur).2 d) ∧
      ∀ d, (walkFrom root depth s start cur).1 = some d →
        G (walkFrom root depth s start cur).2 d := by
  induction depth generalizing s start cur with
  | zero => exact ⟨hs, fun _ hd => hd, nofun⟩
  | succ depth ih =>
    have hparts := h.walkParts cur cur.length hs hroot hstart (skipSlashes cur)
    unfold walkFrom
    rcases hw : Vfs.walkParts root cur cur.length s start (skipSlashes cur) with ⟨walked, s'⟩
    rw [hw] at hparts
    obtain ⟨hs', hkeep, hlast⟩ := hparts
    cases walked with
    | arrived d => exact ⟨hs', hkeep, fun e he => some_inj.mp he ▸ hlast⟩
    | failed => exact ⟨hs', hkeep, nofun⟩
    | restart path start' =>
      obtain ⟨hs'', hkeep', hfound⟩ := ih hs' (hkeep root hroot) hlast path
      exact ⟨hs'', fun d hd => hkeep' d (hkeep d hd), hfound⟩

lemma walkPath (hs : I s) (name : CString) :
    I (s.walkPath name).2 ∧ (∀ d, G s d → G (s.walkPath name).2 d) ∧
      ∀ d, (s.walkPath name).1 = some d → G (s.walkPath name).2 d := by
  obtain ⟨hroot, hpwd⟩ := h.start hs
  have hstart : G s (s.pathInit name).1 := by
    unfold pathInit
    split
    · exact hroot
    · exact hpwd
  unfold Vfs.walkPath
  split
  · exact ⟨hs, fun _ hd => hd, fun d hd => some_inj.mp hd ▸ hstart⟩
  · unfold linkPathWalk
    split
    · exact ⟨hs, fun _ hd => hd, nofun⟩
    · exact h.walkFrom 8 hs hroot hstart _

end WalkSteps

end Vfs
end LiteKernel.Fs
