import LiteKernel.Fs.FileRefs
import LiteKernel.Fs.LookupFrame
import LiteKernel.Fs.LookupPurity

/-!
# Creating a name that is taken

`vfs_symlink` does not look whether the last name of its path is taken. `vfs_mkdir` does, but
the search for the entry of the directory starts at the root of the first file system and does
not cross mounts, so it finds nothing in a file system that is mounted below it.

Main results:

- Theorem `creation_refused_iff`: when a creation at a taken name is refused, in every tree of
  entries and whichever allocations fail.
- Theorem `taken_names_replaced`: entries that are replaced.
-/

namespace LiteKernel.Fs

open Function Option

namespace Vfs

variable {s s' s'' : Vfs}
variable {d dir e fuel node : Nat} {name : CString}

/-- Entries without an inode have been added, and nothing else that a reader of names can see. -/
structure Grown (s s' : Vfs) : Prop where
  root : s'.root = s.root
  inode : s'.inode = s.inode
  inodeCount : s'.inodeCount = s.inodeCount
  inodeFreed : s'.inodeFreed = s.inodeFreed
  task : s'.task = s.task
  current : s'.current = s.current
  count : s.dentryCount ≤ s'.dentryCount
  old : ∀ d < s.dentryCount, (s'.dentry d).name = (s.dentry d).name ∧
    (s'.dentry d).inode = (s.dentry d).inode ∧ (s'.dentry d).negative = (s.dentry d).negative
  children : ∀ d c, c < s.dentryCount → (c ∈ (s'.dentry d).children ↔ c ∈ (s.dentry d).children)
  new : ∀ d, s.dentryCount ≤ d → (s'.dentry d).inode = none

lemma Grown.refl (hs : Forest s) : Grown s s where
  root := rfl
  inode := rfl
  inodeCount := rfl
  inodeFreed := rfl
  task := rfl
  current := rfl
  count := le_refl _
  old _ _ := ⟨rfl, rfl, rfl⟩
  children _ _ _ := Iff.rfl
  new d hd := by
    cases hi : (s.dentry d).inode with
    | none => rfl
    | some i =>
      have := hs.bound d i hi
      omega

lemma Grown.trans (h : Grown s s') (h' : Grown s' s'') : Grown s s'' where
  root := h'.root.trans h.root
  inode := h'.inode.trans h.inode
  inodeCount := h'.inodeCount.trans h.inodeCount
  inodeFreed := h'.inodeFreed.trans h.inodeFreed
  task := h'.task.trans h.task
  current := h'.current.trans h.current
  count := h.count.trans h'.count
  old d hd := by
    obtain ⟨hname, hinode, hneg⟩ := h.old d hd
    obtain ⟨hname', hinode', hneg'⟩ := h'.old d (lt_of_lt_of_le hd h.count)
    exact ⟨hname'.trans hname, hinode'.trans hinode, hneg'.trans hneg⟩
  children d c hc :=
    (h'.children d c (lt_of_lt_of_le hc h.count)).trans (h.children d c hc)
  new d hd := by
    by_cases hlt : d < s'.dentryCount
    · rw [(h'.old d hlt).2.1]
      exact h.new d hd
    · exact h'.new d (Nat.le_of_not_lt hlt)

/-! ## Walks -/

/-- The entries are the same but for their hash tables, mounts and counts. -/
structure SameForest (s s' : Vfs) : Prop where
  root : s'.root = s.root
  inode : s'.inode = s.inode
  inodeCount : s'.inodeCount = s.inodeCount
  inodeFreed : s'.inodeFreed = s.inodeFreed
  task : s'.task = s.task
  current : s'.current = s.current
  count : s'.dentryCount = s.dentryCount
  entry : ∀ d, (s'.dentry d).name = (s.dentry d).name ∧
    (s'.dentry d).inode = (s.dentry d).inode ∧ (s'.dentry d).negative = (s.dentry d).negative ∧
    (s'.dentry d).children = (s.dentry d).children

lemma SameForest.refl (s : Vfs) : SameForest s s :=
  ⟨rfl, rfl, rfl, rfl, rfl, rfl, rfl, fun _ => ⟨rfl, rfl, rfl, rfl⟩⟩

lemma SameForest.trans (h : SameForest s s') (h' : SameForest s' s'') : SameForest s s'' where
  root := h'.root.trans h.root
  inode := h'.inode.trans h.inode
  inodeCount := h'.inodeCount.trans h.inodeCount
  inodeFreed := h'.inodeFreed.trans h.inodeFreed
  task := h'.task.trans h.task
  current := h'.current.trans h.current
  count := h'.count.trans h.count
  entry d := by
    obtain ⟨hname, hinode, hneg, hch⟩ := h.entry d
    obtain ⟨hname', hinode', hneg', hch'⟩ := h'.entry d
    exact ⟨hname'.trans hname, hinode'.trans hinode, hneg'.trans hneg, hch'.trans hch⟩

lemma SameForest.forest (h : SameForest s s') (hs : Forest s) : Forest s' where
  root_lt := by
    rw [h.root, h.count]
    exact hs.root_lt
  child d c hc := by
    rw [(h.entry d).2.2.2] at hc
    rw [h.count]
    exact hs.child d c hc
  unique d e i hdir hd he := by
    rw [h.inode] at hdir
    rw [(h.entry d).2.1] at hd
    rw [(h.entry e).2.1] at he
    exact hs.unique d e i hdir hd he
  bound d i hd := by
    rw [(h.entry d).2.1] at hd
    rw [h.count, h.inodeCount]
    exact hs.bound d i hd

lemma SameForest.grown (h : SameForest s s') (hs : Forest s) : Grown s s' where
  root := h.root
  inode := h.inode
  inodeCount := h.inodeCount
  inodeFreed := h.inodeFreed
  task := h.task
  current := h.current
  count := h.count.ge
  old d _ := ⟨(h.entry d).1, (h.entry d).2.1, (h.entry d).2.2.1⟩
  children d c _ := by rw [(h.entry d).2.2.2]
  new d hd := by
    rw [(h.entry d).2.1]
    exact (Grown.refl hs).new d hd

lemma sameForest_kmalloc (s : Vfs) : SameForest s s.kmalloc.2 :=
  ⟨rfl, rfl, rfl, rfl, rfl, rfl, rfl, fun _ => ⟨rfl, rfl, rfl, rfl⟩⟩

lemma sameForest_setCache (s : Vfs) (p : Nat) (cache : Option (Nat → List Nat)) :
    SameForest s (s.setDentry p fun e => { e with cache := cache }) := by
  refine ⟨rfl, rfl, rfl, rfl, rfl, rfl, rfl, fun d => ?_⟩
  by_cases hd : d = p
  · subst hd
    simp [setDentry]
  · simp [setDentry, hd]

lemma sameForest_dHashGetOrAlloc (s : Vfs) (p : Nat) : SameForest s (s.dHashGetOrAlloc p).2 := by
  unfold dHashGetOrAlloc
  split
  · exact SameForest.refl s
  · simp only
    split
    · exact (sameForest_kmalloc s).trans (sameForest_setCache _ p _)
    · exact sameForest_kmalloc s

lemma sameForest_dHashInsert (s : Vfs) (d : Nat) : SameForest s (s.dHashInsert d) := by
  unfold dHashInsert
  split
  case h_1 p name _ _ =>
    have halloc := sameForest_dHashGetOrAlloc s p
    rcases hg : s.dHashGetOrAlloc p with ⟨found, s'⟩
    rw [hg] at halloc
    cases found with
    | none => exact halloc
    | some table => exact halloc.trans (sameForest_setCache s' p _)
  case h_2 => exact SameForest.refl s

/-- The state with a new entry among the children of another one. -/
def addChild (s : Vfs) (p : Nat) (e : Dentry) : Vfs :=
  { s with
    dentryCount := s.dentryCount + 1
    dentry := update s.dentry s.dentryCount e }.setDentry p
      fun x => { x with children := s.dentryCount :: x.children }

lemma dAlloc_cases (s : Vfs) (p : Nat) (name : CString) :
    (∃ s', s.dAlloc (some p) name = (none, s') ∧ SameForest s s') ∨
    ∃ e s', s.dAlloc (some p) name = (some s.dentryCount, s') ∧ e.inode = none ∧
      e.children = [] ∧ SameForest (s.addChild p e) s' := by
  unfold dAlloc
  simp only
  split
  · refine .inr ⟨
      { name := if s.kmalloc.2.kmalloc.1 then some name else none
        parent := some p
        children := []
        cache := none
        inode := none
        mount := none
        refcount := 1
        negative := false }, _, rfl, rfl, rfl, ?_⟩
    -- the two answers asked for are all that the state before the hash lost
    refine SameForest.trans ?_ (sameForest_dHashInsert _ _)
    exact ⟨rfl, rfl, rfl, rfl, rfl, rfl, rfl, fun _ => ⟨rfl, rfl, rfl, rfl⟩⟩
  · exact .inl ⟨_, rfl, sameForest_kmalloc s⟩

section AddChild

variable {p : Nat} {e : Dentry}

lemma addChild_of_ne {d : Nat} (hd : d ≠ s.dentryCount) :
    ((s.addChild p e).dentry d).name = (s.dentry d).name ∧
      ((s.addChild p e).dentry d).inode = (s.dentry d).inode ∧
      ((s.addChild p e).dentry d).negative = (s.dentry d).negative ∧
      ((s.addChild p e).dentry d).children =
        if d = p then s.dentryCount :: (s.dentry d).children else (s.dentry d).children := by
  by_cases hp : d = p
  · subst hp
    simp [addChild, setDentry, hd]
  · simp [addChild, setDentry, hd, hp]

lemma addChild_self (hp : p < s.dentryCount) : (s.addChild p e).dentry s.dentryCount = e := by
  have hne : s.dentryCount ≠ p := ne_of_gt hp
  simp [addChild, setDentry, hne]

lemma mem_addChild_children (hp : p < s.dentryCount) (he : e.children = []) {d c : Nat}
    (hc : c ∈ ((s.addChild p e).dentry d).children) :
    c ∈ (s.dentry d).children ∨ d = p ∧ c = s.dentryCount := by
  by_cases hd : d = s.dentryCount
  · rw [hd, addChild_self hp, he] at hc
    exact absurd hc List.not_mem_nil
  · rw [(addChild_of_ne hd).2.2.2] at hc
    split_ifs at hc with hdp
    · rcases List.mem_cons.mp hc with h | h
      · exact .inr ⟨hdp, h⟩
      · exact .inl h
    · exact .inl hc

section

variable (hs : Forest s) (hp : p < s.dentryCount) (he : e.children = []) (hi : e.inode = none)
include hs hp he hi

lemma Forest.addChild : Forest (s.addChild p e) := by
  have hinode : ∀ d i, ((s.addChild p e).dentry d).inode = some i →
      (s.dentry d).inode = some i := by
    intro d i hd
    by_cases hdc : d = s.dentryCount
    · rw [hdc, addChild_self hp, hi] at hd
      cases hd
    · rwa [(addChild_of_ne hdc).2.1] at hd
  refine ⟨Nat.lt_succ_of_lt hs.root_lt, fun d c hc => ?_, fun d d' i hdir hd hd' => ?_,
    fun d i hd => ?_⟩
  · rcases mem_addChild_children hp he hc with h | ⟨rfl, rfl⟩
    · exact ⟨(hs.child d c h).1, Nat.lt_succ_of_lt (hs.child d c h).2⟩
    · exact ⟨hp, Nat.lt_succ_self _⟩
  · exact hs.unique d d' i hdir (hinode d i hd) (hinode d' i hd')
  · have hb := hs.bound d i (hinode d i hd)
    exact ⟨Nat.lt_succ_of_lt hb.1, hb.2⟩

lemma Forest.grown_addChild : Grown s (s.addChild p e) where
  root := rfl
  inode := rfl
  inodeCount := rfl
  inodeFreed := rfl
  task := rfl
  current := rfl
  count := Nat.le_succ _
  old d hd := by
    have hne := addChild_of_ne (s := s) (p := p) (e := e) (ne_of_lt hd)
    exact ⟨hne.1, hne.2.1, hne.2.2.1⟩
  children d c hc := by
    constructor
    · intro h
      refine (mem_addChild_children hp he h).resolve_right ?_
      rintro ⟨-, rfl⟩
      exact lt_irrefl _ hc
    · intro h
      have hd : d ≠ s.dentryCount := by
        have := hs.child d c h
        omega
      rw [(addChild_of_ne hd).2.2.2]
      split_ifs
      · exact List.mem_cons_of_mem _ h
      · exact h
  new d hd := by
    by_cases hdc : d = s.dentryCount
    · rw [hdc, addChild_self hp, hi]
    · rw [(addChild_of_ne hdc).2.1]
      exact (Grown.refl hs).new d hd

end

end AddChild

/-- A new entry at the end of an addition gets no inode. -/
lemma sameForest_negative (hi : (s.dentry d).inode = none) (negative : Bool) (hs : Forest s)
    (hnew : Grown s' s) (hd : s'.dentryCount ≤ d) :
    Forest (s.setDentry d fun e => { e with inode := none, negative := negative }) ∧
      Grown s' (s.setDentry d fun e => { e with inode := none, negative := negative }) := by
  set t := s.setDentry d fun e => { e with inode := none, negative := negative } with ht
  have hother : ∀ x, x ≠ d → t.dentry x = s.dentry x := fun x hx => update_of_ne hx _ _
  have hinode : ∀ x, (t.dentry x).inode = (s.dentry x).inode := by
    intro x
    by_cases hx : x = d
    · subst hx
      simp [ht, setDentry, hi]
    · rw [hother x hx]
  have hchildren : ∀ x, (t.dentry x).children = (s.dentry x).children := by
    intro x
    by_cases hx : x = d
    · subst hx
      simp [ht, setDentry]
    · rw [hother x hx]
  constructor
  · refine ⟨hs.root_lt, fun x c hc => ?_, fun x y i hdir hx hy => ?_, fun x i hx => ?_⟩
    · rw [hchildren] at hc
      exact hs.child x c hc
    · rw [hinode] at hx hy
      exact hs.unique x y i hdir hx hy
    · rw [hinode] at hx
      exact hs.bound x i hx
  · refine ⟨hnew.root, hnew.inode, hnew.inodeCount, hnew.inodeFreed, hnew.task, hnew.current,
      hnew.count, fun x hx => ?_, fun x c hc => ?_, fun x hx => ?_⟩
    · rw [hother x (by omega)]
      exact hnew.old x hx
    · rw [hchildren]
      exact hnew.children x c hc
    · rw [hinode]
      exact hnew.new x hx

lemma Forest.walkComponent (hs : Forest s) (curr : Nat) (part : CString) :
    Forest (s.walkComponent curr part).2 ∧ Grown s (s.walkComponent curr part).2 := by
  have hsame : Forest s ∧ Grown s s := ⟨hs, Grown.refl hs⟩
  unfold Vfs.walkComponent
  split
  · exact hsame
  · split
    · exact hsame
    · split
      · split
        · exact hsame
        · exact hsame
      · rename_i hl
        split
        · exact hsame
        · rename_i node hnode
          rw [hs.finddirFs_eq_none hnode hl]
          have hlt := (hs.bound curr node hnode).1
          simp only
          rcases dAlloc_cases s curr part with ⟨s1, heq, htree⟩ | ⟨e, s1, heq, hi, he, htree⟩
          · rw [heq]
            exact ⟨htree.forest hs, htree.grown hs⟩
          · rw [heq]
            have hforest := hs.addChild hlt he hi
            have hgrown := (hs.grown_addChild hlt he hi).trans (htree.grown hforest)
            refine sameForest_negative ?_ _ (htree.forest hforest) hgrown (le_refl _)
            exact hgrown.new _ (le_refl _)

lemma walk_grows : WalkFrame fun s s' => Forest s → Forest s' ∧ Grown s s' where
  refl _ hs := ⟨hs, Grown.refl hs⟩
  trans h h' hs := by
    obtain ⟨hs', hgrown⟩ := h hs
    obtain ⟨hs'', hgrown'⟩ := h' hs'
    exact ⟨hs'', hgrown.trans hgrown'⟩
  walkComponent _ curr part hs := hs.walkComponent curr part

/-! ## The test for a name that is taken -/

lemma Forest.finddirFs_isSome_iff (hs : Forest s) {c i : Nat}
    (hdir : (s.inode node).type = .directory) (hd : (s.dentry d).inode = some node)
    (hname : name ≠ []) (hc : s.dLookup d name = some c) (hi : (s.dentry c).inode = some i) :
    (s.finddirFs node name).isSome ↔ s.Below s.root d := by
  rw [← hs.findDentryByInode_eq hdir hd, finddirFs, if_neg (not_not_intro hdir), genericFinddir,
    if_neg hname]
  cases hf : s.findDentryByInode node (s.dentryCount + 1) s.root with
  | none => simp
  | some e =>
    have he : e = d := hs.unique e d node hdir (findDentryByInode_inode hf) hd
    rw [he, bind_some, hc, bind_some, hi]
    simp

/-- What is below an entry that was there before is what was below it. -/
lemma Grown.below_iff (h : Grown s s') (hs : Forest s) (hs' : Forest s')
    (he : e < s.dentryCount) :
    s'.Below d e ↔ s.Below d e := by
  constructor
  · intro hbelow
    induction hbelow with
    | refl => exact Relation.ReflTransGen.refl
    | @tail b c _ hc ih =>
      have hlt := (hs'.child b c hc).1
      exact (ih (hlt.trans he)).tail ((h.children b c he).mp hc)
  · intro hbelow
    induction hbelow with
    | refl => exact Relation.ReflTransGen.refl
    | @tail b c _ hc ih =>
      have hlt := (hs.child b c hc).1
      exact (ih (hlt.trans he)).tail ((h.children b c he).mpr hc)

/-! ## The directory of a path -/

/-- What a call has when it has found the directory of its path. -/
structure TargetDir (s : Vfs) (dir pnode : Nat) (name : CString) : Prop where
  inode : (s.dentry dir).inode = some pnode
  directory : (s.inode pnode).type = .directory
  ne_nil : name ≠ []
  valid : ramfsValidName name = true

lemma targetDir_parentDir {path : CString} {pnode : Nat}
    (h : s.parentDir path = (some (dir, pnode, name), s')) : TargetDir s' dir pnode name := by
  unfold parentDir filenameParentat at h
  cases hsplit : splitParent path with
  | none =>
    rw [hsplit] at h
    cases h
  | some split =>
    rw [hsplit] at h
    dsimp only at h
    rcases hl : s.pathLookupat split.parent true with ⟨found, s1⟩
    rw [hl] at h
    cases found with
    | none => cases h
    | some d =>
      have hlast := (splitParent_last hsplit).1
      have hslash := splitParent_last_ne_slash hsplit
      simp only [map_some] at h
      split at h
      case h_2 => cases h
      case h_1 dir' name' s2 heq =>
        simp only [Prod.mk.injEq, some.injEq] at heq
        obtain ⟨⟨rfl, rfl, -⟩, rfl⟩ := heq
        rw [Prod.mk.injEq] at h
        obtain ⟨h, rfl⟩ := h
        obtain ⟨i, hi, h⟩ := bind_eq_some_iff.mp h
        split_ifs at h with hdir
        obtain ⟨rfl, rfl, rfl⟩ := h
        refine ⟨hi, hdir, hlast, ?_⟩
        simp only [ramfsValidName, Bool.and_eq_true, decide_eq_true_eq, List.all_eq_true]
        exact ⟨hlast, hslash⟩

/-! ## New inodes -/

/-- The entries and the inodes that were there are the same. -/
structure InodesKept (s s' : Vfs) : Prop where
  dentry : s'.dentry = s.dentry
  inode : ∀ i < s.inodeCount, s'.inode i = s.inode i ∧ s'.inodeFreed i = s.inodeFreed i

/-- Whether the two allocations of a new inode succeed. -/
def MayAllocate (s : Vfs) : Prop :=
  s.answers 0 = true ∧ s.answers 1 = true

instance (s : Vfs) : Decidable s.MayAllocate :=
  inferInstanceAs (Decidable (_ ∧ _))

lemma ramfsMkdirInode_cases (hdir : (s.inode dir).type = .directory)
    (hvalid : ramfsValidName name = true) :
    ∃ s', s.ramfsMkdirInode dir name =
        (if s.MayAllocate then some s.inodeCount else none, s') ∧ InodesKept s s' := by
  unfold ramfsMkdirInode ramfsGetInode
  rw [if_pos ⟨hdir, hvalid⟩]
  by_cases h0 : s.answers 0 = true
  · by_cases h1 : s.answers 1 = true
    · rw [if_pos (show s.MayAllocate from ⟨h0, h1⟩)]
      refine ⟨(s.kmalloc.2.getNextIno.2.kmalloc.2.newInode (.fresh .directory
        ((s.lastIno + 1) % 2 ^ 32) 0o777 s.currentCred)).2, ?_, rfl, fun i hi => ⟨?_, rfl⟩⟩
      · simp [kmalloc, getNextIno, newInode, currentCred, h0, h1]
      · exact update_of_ne (ne_of_lt hi) _ _
    · rw [if_neg fun h : s.MayAllocate => h1 h.2]
      refine ⟨s.kmalloc.2.getNextIno.2.kmalloc.2, ?_, rfl, fun _ _ => ⟨rfl, rfl⟩⟩
      simp [kmalloc, getNextIno, h0, h1]
  · rw [if_neg fun h : s.MayAllocate => h0 h.1]
    refine ⟨s.kmalloc.2, ?_, rfl, fun _ _ => ⟨rfl, rfl⟩⟩
    simp [kmalloc, h0]

lemma ramfsSymlinkInode_cases (target : CString) (hdir : (s.inode dir).type = .directory)
    (hvalid : ramfsValidName name = true) :
    ∃ s', s.ramfsSymlinkInode dir name target =
        (if s.MayAllocate then some s.inodeCount else none, s') ∧ InodesKept s s' := by
  let link := Inode.fresh .symlink ((s.lastIno + 1) % 2 ^ 32) 0o777 s.currentCred
  let s1 := (s.kmalloc.2.getNextIno.2.newInode link).2.kmalloc.2
  have hold : ∀ i < s.inodeCount, s1.inode i = s.inode i :=
    fun i hi => update_of_ne (ne_of_lt hi) _ _
  unfold ramfsSymlinkInode ramfsGetInode
  rw [if_pos ⟨hdir, hvalid⟩]
  by_cases h0 : s.answers 0 = true
  · by_cases h1 : s.answers 1 = true
    · rw [if_pos (show s.MayAllocate from ⟨h0, h1⟩)]
      let node := (s1.inode s.inodeCount).linkTo target
      refine ⟨{ s1 with inode := update s1.inode s.inodeCount node }, ?_, rfl,
        fun i hi => ⟨?_, rfl⟩⟩
      · simp [s1, node, link, kmalloc, getNextIno, newInode, currentCred, h0, h1]
      · exact (update_of_ne (ne_of_lt hi) _ _).trans (hold i hi)
    · rw [if_neg fun h : s.MayAllocate => h1 h.2]
      -- the inode that has been set up is given back
      refine ⟨s1.ramfsEvictInode s.inodeCount, ?_, rfl, fun i hi => ⟨hold i hi, ?_⟩⟩
      · simp [s1, link, kmalloc, getNextIno, newInode, currentCred, ramfsEvictInode, h0, h1]
      · exact update_of_ne (ne_of_lt hi) _ _
  · rw [if_neg fun h : s.MayAllocate => h0 h.1]
    refine ⟨s.kmalloc.2, ?_, rfl, fun _ _ => ⟨rfl, rfl⟩⟩
    simp [kmalloc, h0]

/-! ## Names that are taken -/

/-- The name still has its entry, and the entry its inode, with all that is in it. -/
structure Untouched (s s' : Vfs) (dir : Nat) (name : CString) (c i : Nat) : Prop where
  found : s'.dLookup dir name = some c
  name : (s'.dentry c).name = (s.dentry c).name
  inode : (s'.dentry c).inode = (s.dentry c).inode
  negative : (s'.dentry c).negative = (s.dentry c).negative
  node : s'.inode i = s.inode i
  freed : s'.inodeFreed i = s.inodeFreed i

lemma InodesKept.refl (s : Vfs) : InodesKept s s :=
  ⟨rfl, fun _ _ => ⟨rfl, rfl⟩⟩

lemma InodesKept.dLookup (h : InodesKept s s') (p : Nat) (name : CString) :
    s'.dLookup p name = s.dLookup p name := by
  have hnamed : ∀ c, s'.Named name c ↔ s.Named name c := by
    intro c
    unfold Named
    rw [h.dentry]
  unfold Vfs.dLookup
  rw [h.dentry]
  simp only [hnamed]

section Taken

variable {dir pnode c i : Nat} {name : CString}

lemma Grown.untouched (h : Grown s s') (hs' : Forest s') (hc : s'.dLookup dir name = some c)
    (hi : (s'.dentry c).inode = some i) (hkept : InodesKept s' s'') :
    Untouched s s'' dir name c i := by
  have hlt : c < s.dentryCount := by
    by_contra hge
    rw [h.new c (Nat.le_of_not_lt hge)] at hi
    cases hi
  have hold := h.old c hlt
  have hnode := hkept.inode i (hs'.bound c i hi).2
  refine ⟨(hkept.dLookup dir name).trans hc, ?_, ?_, ?_, ?_, ?_⟩
  · rw [hkept.dentry, hold.1]
  · rw [hkept.dentry, hold.2.1]
  · rw [hkept.dentry, hold.2.2]
  · rw [hnode.1, h.inode]
  · rw [hnode.2, h.inodeFreed]

/-- The entry of a name that is taken gets the inode that was created for it. -/
lemma instantiate_of_dLookup (hc : s.dLookup dir name = some c) (created : Nat) :
    s.instantiate dir name created =
      (some c, s.setDentry c fun e => { e with inode := some created, negative := false }) := by
  unfold instantiate
  rw [hc]

variable {path : CString} (hparent : s.parentDir path = (some (dir, pnode, name), s'))

include hparent

/-- The ways in which `vfs_mkdir` refuses a name. -/
lemma vfsMkdir_refused (h : s'.vfsCheckAccess pnode false true true = false ∨
    (s'.finddirFs pnode name).isSome ∨ ¬ s'.MayAllocate) :
    ∃ t, s.vfsMkdir path = (false, t) ∧ InodesKept s' t := by
  have hat := targetDir_parentDir hparent
  obtain ⟨t, hmkdir, hkept⟩ := ramfsMkdirInode_cases hat.directory hat.valid
  unfold vfsMkdir
  rw [hparent]
  dsimp only
  by_cases haccess : s'.vfsCheckAccess pnode false true true = false
  · exact ⟨s', if_pos haccess, InodesKept.refl s'⟩
  · rw [if_neg haccess]
    by_cases hthere : (s'.finddirFs pnode name).isSome
    · exact ⟨s', if_pos hthere, InodesKept.refl s'⟩
    · have hmemory := (h.resolve_left haccess).resolve_left hthere
      rw [if_neg hthere, hmkdir, if_neg hmemory]
      exact ⟨t, rfl, hkept⟩

/-- Otherwise it gives a new inode to the entry of the name. -/
lemma vfsMkdir_replaces (hc : s'.dLookup dir name = some c)
    (haccess : s'.vfsCheckAccess pnode false true true ≠ false)
    (hthere : ¬ (s'.finddirFs pnode name).isSome) (hmemory : s'.MayAllocate) :
    (s.vfsMkdir path).1 = true := by
  have hat := targetDir_parentDir hparent
  obtain ⟨t, hmkdir, hkept⟩ := ramfsMkdirInode_cases hat.directory hat.valid
  unfold vfsMkdir
  rw [hparent]
  dsimp only
  rw [if_neg haccess, if_neg hthere, hmkdir, if_pos hmemory]
  dsimp only
  rw [instantiate_of_dLookup ((hkept.dLookup dir name).trans hc)]
  rfl

lemma vfsSymlink_refused (target : CString) (hmemory : ¬ s'.MayAllocate) :
    ∃ t, s.vfsSymlink target path = (false, t) ∧ InodesKept s' t := by
  have hat := targetDir_parentDir hparent
  obtain ⟨t, hlink, hkept⟩ := ramfsSymlinkInode_cases target hat.directory hat.valid
  unfold vfsSymlink
  rw [hparent]
  dsimp only
  rw [hlink, if_neg hmemory]
  exact ⟨t, rfl, hkept⟩

lemma vfsSymlink_replaces (target : CString) (hc : s'.dLookup dir name = some c)
    (hmemory : s'.MayAllocate) : (s.vfsSymlink target path).1 = true := by
  have hat := targetDir_parentDir hparent
  obtain ⟨t, hlink, hkept⟩ := ramfsSymlinkInode_cases target hat.directory hat.valid
  unfold vfsSymlink
  rw [hparent]
  dsimp only
  rw [hlink, if_pos hmemory]
  dsimp only
  rw [instantiate_of_dLookup ((hkept.dLookup dir name).trans hc)]
  rfl

omit hparent

/--
`vfs_mkdir` refuses a name that is taken if the caller may not write to the directory, if
the directory is below the root without a mount in between, or if there is no memory;
`vfs_symlink` does only if there is no memory.
-/
theorem creation_refused_iff (hs : Forest s)
    (hparent : s.parentDir path = (some (dir, pnode, name), s'))
    (hc : s'.dLookup dir name = some c) (hi : (s'.dentry c).inode = some i) (target : CString) :
    ((s.vfsMkdir path).1 = false ∧ Untouched s (s.vfsMkdir path).2 dir name c i ↔
      s.vfsCheckAccess pnode false true true = false ∨ s.Below s.root dir ∨ ¬ s'.MayAllocate) ∧
    ((s.vfsSymlink target path).1 = false ∧ Untouched s (s.vfsSymlink target path).2 dir name c i ↔
      ¬ s'.MayAllocate) := by
  have hwalk := walk_grows.parentDir s path hs
  rw [hparent] at hwalk
  obtain ⟨hs', hgrown⟩ := hwalk
  have hat := targetDir_parentDir hparent
  have hlt : dir < s.dentryCount := by
    by_contra hge
    have hnone := hgrown.new dir (Nat.le_of_not_lt hge)
    rw [hat.inode] at hnone
    cases hnone
  have haccess :
      s'.vfsCheckAccess pnode false true true = s.vfsCheckAccess pnode false true true := by
    unfold vfsCheckAccess currentCred
    rw [hgrown.inode, hgrown.current, hgrown.task]
  have hthere : (s'.finddirFs pnode name).isSome ↔ s.Below s.root dir := by
    rw [hs'.finddirFs_isSome_iff hat.directory hat.inode hat.ne_nil hc hi, hgrown.root]
    exact hgrown.below_iff hs hs' hlt
  constructor
  · rw [← haccess, ← hthere]
    constructor
    · rintro ⟨hfalse, -⟩
      by_contra hnot
      push Not at hnot
      obtain ⟨hmay, hfree, hmemory⟩ := hnot
      rw [vfsMkdir_replaces hparent hc hmay hfree hmemory] at hfalse
      cases hfalse
    · intro h
      obtain ⟨t, ht, hkept⟩ := vfsMkdir_refused hparent h
      rw [ht]
      exact ⟨rfl, hgrown.untouched hs' hc hi hkept⟩
  · constructor
    · rintro ⟨hfalse, -⟩ hmemory
      rw [vfsSymlink_replaces hparent target hc hmemory] at hfalse
      cases hfalse
    · intro hmemory
      obtain ⟨t, ht, hkept⟩ := vfsSymlink_refused hparent target hmemory
      rw [ht]
      exact ⟨rfl, hgrown.untouched hs' hc hi hkept⟩

end Taken

theorem mkdir_oneDir_refused :
    (oneDir.vfsMkdir ['/', 'd']).1 = false ∧
      Untouched oneDir (oneDir.vfsMkdir ['/', 'd']).2 0 ['d'] 1 1 := by
  have hparent : oneDir.parentDir ['/', 'd'] = (some (0, 0, ['d']), oneDir) := rfl
  have hbelow : oneDir.Below oneDir.root 0 := Relation.ReflTransGen.refl
  exact (creation_refused_iff oneDir_ramfsTree.forest hparent (by decide +kernel) rfl []).1.mpr
    (.inr (.inl hbelow))

/-- The tree with a file system on `/m` and the directory `/m/d` in it. -/
def mountedDir : Vfs :=
  (((bootTree.step (.mkdir ['/', 'm'])).vfsMountFs ['/', 'm']).2.step (.mkdir ['/', 'm', '/', 'd']))

/-- A link takes the place of `/d`, and a second `/m/d` that of the first. -/
theorem taken_names_replaced :
    ((oneDir.dentry 1).name = some ['d'] ∧ (oneDir.dentry 1).inode = some 1 ∧
      (oneDir.vfsSymlink ['t'] ['/', 'd']).1 = true ∧
      ((oneDir.vfsSymlink ['t'] ['/', 'd']).2.dentry 1).inode = some 2) ∧
    (mountedDir.vfsResolve ['/', 'm', '/', 'd']).1 = some 3 ∧
      (mountedDir.vfsMkdir ['/', 'm', '/', 'd']).1 = true ∧
      ((mountedDir.vfsMkdir ['/', 'm', '/', 'd']).2.vfsResolve ['/', 'm', '/', 'd']).1 =
        some 4 := by
  decide +kernel

end Vfs
end LiteKernel.Fs
