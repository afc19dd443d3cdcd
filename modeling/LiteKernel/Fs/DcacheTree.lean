import LiteKernel.Fs.FileTree
import Mathlib.Data.List.Nodup

/-!
# The directory entries form a tree

Sibling names are distinct and the hash chains hold the children. An entry that is reached
from a root by a list of names is reached by no other list.

Main results:

- Lemma `dLookup_eq`: `d_lookup` is the search in the list of children.
- Lemmas `locate_newChild`, `locate_removeEntry`: what is reached after an entry comes or goes.
-/

namespace LiteKernel.Fs

open Function List Option

namespace Vfs

/-- The hash chains of an entry; they are empty if there is no table. -/
def chain (s : Vfs) (d : Nat) : Nat → List Nat :=
  (s.dentry d).cache.getD fun _ => []

/-- The entry hangs in a bucket. -/
def InBucket (s : Vfs) (i c : Nat) : Prop :=
  (s.dentry c).name.map bucket = some i

instance (s : Vfs) (i c : Nat) : Decidable (s.InBucket i c) :=
  inferInstanceAs (Decidable (_ = _))

/-- The entries form trees, and no allocation fails. -/
structure Wf (s : Vfs) : Prop where
  memory : s.answers = fun _ => true
  root_lt : s.root < s.dentryCount
  child : ∀ d c, c ∈ (s.dentry d).children →
    d < c ∧ c < s.dentryCount ∧ (s.dentry c).parent = some d ∧ (s.dentry c).name ≠ none
  distinct : ∀ d, ((s.dentry d).children.map fun c => (s.dentry c).name).Nodup
  chain : ∀ d i, s.chain d i = (s.dentry d).children.filter fun c => s.InBucket i c
  leaf : ∀ d, (s.dentry d).inode = none → (s.dentry d).children = []
  negative : ∀ d < s.dentryCount, (s.dentry d).negative = (s.dentry d).inode.isNone
  unique : ∀ d e i, (s.dentry d).inode = some i → (s.dentry e).inode = some i → d = e
  bound : ∀ d i, (s.dentry d).inode = some i → d < s.dentryCount ∧ i < s.inodeCount

lemma kmalloc_eq {s : Vfs} (hm : s.answers = fun _ => true) : s.kmalloc = (true, s) := by
  cases s
  cases hm
  rfl

/-- A table that holds the named children gives what the list gives. -/
lemma dLookup_eq_of_table {s : Vfs} {d : Nat} {name : CString}
    (h : ∀ t, (s.dentry d).cache = some t →
      t (bucket name) = (s.dentry d).children.filter fun c => s.InBucket (bucket name) c) :
    s.dLookup d name = s.findChild d name := by
  unfold dLookup
  cases hh : (s.dentry d).cache with
  | none => rfl
  | some t =>
    simp only
    rw [h t hh, List.find?_filter]
    congr 1
    funext c
    by_cases hn : s.Named name c
    · have hb : s.InBucket (bucket name) c := by
        unfold InBucket
        rw [show (s.dentry c).name = some name from hn, map_some]
      simp [hn, hb]
    · simp [hn]

namespace Wf

variable {s : Vfs}
variable {c d : Nat} {name : CString}

/-- An entry that has not been allocated has no children. -/
lemma children_eq_nil (hs : Wf s) (hd : s.dentryCount ≤ d) : (s.dentry d).children = [] := by
  apply eq_nil_iff_forall_not_mem.mpr
  intro c hc
  have hlt := hs.child d c hc
  omega

/-- Siblings have distinct names. -/
lemma eq_of_name (hs : Wf s) {a b : Nat} (ha : a ∈ (s.dentry d).children)
    (hb : b ∈ (s.dentry d).children) (hn : (s.dentry a).name = (s.dentry b).name) : a = b :=
   inj_on_of_nodup_map (hs.distinct d) ha hb hn

/-- The search through the list of children finds the child of that name. -/
lemma findChild_eq_some (hs : Wf s) :
    s.findChild d name = some c ↔ c ∈ (s.dentry d).children ∧ (s.dentry c).name = some name := by
  constructor
  · intro h
    exact ⟨mem_of_find?_eq_some h, of_decide_eq_true (List.find?_some h :)⟩
  · rintro ⟨hc, hn⟩
    cases hf : s.findChild d name with
    | none =>
      have hnot := List.find?_eq_none.mp hf c hc
      exact absurd (decide_eq_true (show s.Named name c from hn)) hnot
    | some c' =>
      have hc' : c' ∈ (s.dentry d).children := mem_of_find?_eq_some hf
      have hn' : (s.dentry c').name = some name := of_decide_eq_true (List.find?_some hf :)
      rw [hs.eq_of_name hc' hc (hn'.trans hn.symm)]

/-- The hash table is only a faster way to search the list of children. -/
lemma dLookup_eq (hs : Wf s) (d : Nat) (name : CString) : s.dLookup d name = s.findChild d name :=
  dLookup_eq_of_table fun t ht => by simpa [Vfs.chain, ht] using hs.chain d (bucket name)

/-- So does the search through the hash chain. -/
lemma dLookup_eq_some (hs : Wf s) :
    s.dLookup d name = some c ↔ c ∈ (s.dentry d).children ∧ (s.dentry c).name = some name := by
  rw [hs.dLookup_eq]
  exact hs.findChild_eq_some

end Wf

/-! ## A new entry -/

/-- The state with a new child of an entry. -/
def newChild (s : Vfs) (p : Nat) (name : CString) (inode : Option Nat) (negative : Bool) : Vfs :=
  { s with
    dentryCount := s.dentryCount + 1
    dentry := update
      (update s.dentry p
        { s.dentry p with
          children := s.dentryCount :: (s.dentry p).children
          cache := some (update (s.chain p) (bucket name)
            (s.dentryCount :: s.chain p (bucket name))) })
      s.dentryCount
      ⟨some name, some p, [], none, inode, none, 1, negative⟩ }

section NewChild

variable {s : Vfs} {p : Nat} {name : CString} {inode : Option Nat} {negative : Bool}
variable {c d i : Nat}

@[simp]
lemma newChild_dentry_self :
    (s.newChild p name inode negative).dentry s.dentryCount =
      ⟨some name, some p, [], none, inode, none, 1, negative⟩ := by
  simp [newChild]

lemma newChild_dentry_parent (hp : p < s.dentryCount) :
    (s.newChild p name inode negative).dentry p =
      { s.dentry p with
        children := s.dentryCount :: (s.dentry p).children
        cache := some (update (s.chain p) (bucket name)
          (s.dentryCount :: s.chain p (bucket name))) } := by
  have hne : p ≠ s.dentryCount := ne_of_lt hp
  simp [newChild, hne]

lemma newChild_dentry_of_ne (hd : d ≠ s.dentryCount) (hp : d ≠ p) :
    (s.newChild p name inode negative).dentry d = s.dentry d := by
  simp [newChild, hd, hp]

/-- The entries that exist keep all fields but the list of children and the hash table. -/
lemma newChild_fields (hd : d ≠ s.dentryCount) :
    ∃ children cache, (s.newChild p name inode negative).dentry d =
      { s.dentry d with children := children, cache := cache } := by
  by_cases hp : d = p
  · subst hp
    refine ⟨s.dentryCount :: (s.dentry d).children,
      some (update (s.chain d) (bucket name) (s.dentryCount :: s.chain d (bucket name))), ?_⟩
    simp only [newChild, update_of_ne hd, update_self]
  · exact ⟨(s.dentry d).children, (s.dentry d).cache, newChild_dentry_of_ne hd hp⟩

/-- With memory for the table, `d_hash_insert` puts the entry at the head of its chain. -/
lemma dHashInsert_eq (p : Nat) (name : CString) (hm : s.answers = fun _ => true)
    (hp : (s.dentry d).parent = some p) (hn : (s.dentry d).name = some name) :
    s.dHashInsert d = s.setDentry p fun e =>
      { e with cache := some (update (s.chain p) (bucket name) (d :: s.chain p (bucket name))) } := by
  unfold dHashInsert dHashGetOrAlloc chain
  rw [hp, hn]
  cases hc : (s.dentry p).cache with
  | some h => simp only [hc, getD_some]
  | none =>
    simp only [hc, kmalloc_eq hm, if_true, setDentry, update_self, update_idem, getD_none]

/-- With memory, `d_alloc` adds a child without an inode. -/
lemma dAlloc_eq (hm : s.answers = fun _ => true) (hp : p < s.dentryCount) :
    s.dAlloc (some p) name = (some s.dentryCount, s.newChild p name none false) := by
  have hne : p ≠ s.dentryCount := ne_of_lt hp
  unfold dAlloc
  simp only [kmalloc_eq hm, if_true]
  refine congrArg (Prod.mk _) (Eq.trans (dHashInsert_eq p name hm ?_ ?_) ?_)
  · simp [setDentry, hne.symm]
  · simp [setDentry, hne.symm]
  · simp only [newChild, setDentry, chain, update_self, update_of_ne hne]
    congr 1
    funext e
    by_cases he : e = s.dentryCount
    · subst he
      simp [hne.symm]
    · by_cases hep : e = p
      · subst hep
        simp [he]
      · simp [he, hep]

@[simp]
lemma newChild_children_self :
    ((s.newChild p name inode negative).dentry s.dentryCount).children = [] := by
  rw [newChild_dentry_self]

lemma newChild_children_parent (hp : p < s.dentryCount) :
    ((s.newChild p name inode negative).dentry p).children =
      s.dentryCount :: (s.dentry p).children := by
  rw [newChild_dentry_parent hp]

section

variable (hd : d ≠ s.dentryCount)
include hd

lemma newChild_name : ((s.newChild p name inode negative).dentry d).name = (s.dentry d).name := by
  obtain ⟨children, cache, h⟩ := newChild_fields hd
  rw [h]

lemma newChild_parent :
    ((s.newChild p name inode negative).dentry d).parent = (s.dentry d).parent := by
  obtain ⟨children, cache, h⟩ := newChild_fields hd
  rw [h]

lemma newChild_inode :
    ((s.newChild p name inode negative).dentry d).inode = (s.dentry d).inode := by
  obtain ⟨children, cache, h⟩ := newChild_fields hd
  rw [h]

lemma newChild_negative :
    ((s.newChild p name inode negative).dentry d).negative = (s.dentry d).negative := by
  obtain ⟨children, cache, h⟩ := newChild_fields hd
  rw [h]

end

/-- The new entry is a child of its parent, and no other list changes. -/
lemma mem_newChild_children (hs : Wf s) (hp : p < s.dentryCount) :
    c ∈ ((s.newChild p name inode negative).dentry d).children ↔
      c ∈ (s.dentry d).children ∨ (d = p ∧ c = s.dentryCount) := by
  by_cases hd : d = s.dentryCount
  · subst hd
    rw [newChild_children_self, hs.children_eq_nil (le_refl _)]
    have hne : s.dentryCount ≠ p := ne_of_gt hp
    simp [hne]
  · by_cases hdp : d = p
    · subst hdp
      rw [newChild_children_parent hp, mem_cons]
      simp [or_comm]
    · rw [newChild_dentry_of_ne hd hdp]
      simp [hdp]

lemma newChild_inBucket (hc : c ≠ s.dentryCount) :
    (s.newChild p name inode negative).InBucket i c ↔ s.InBucket i c := by
  unfold InBucket
  rw [newChild_name hc]

lemma newChild_inBucket_self :
    (s.newChild p name inode negative).InBucket i s.dentryCount ↔ bucket name = i := by
  unfold InBucket
  rw [newChild_dentry_self, map_some, some_inj]

/-- Each chain still has the children of its bucket, in the order of the list. -/
lemma newChild_chain (hs : Wf s) (hp : p < s.dentryCount) (d i : Nat) :
    (s.newChild p name inode negative).chain d i =
      ((s.newChild p name inode negative).dentry d).children.filter
        fun c => (s.newChild p name inode negative).InBucket i c := by
  have hold : ∀ e, (s.dentry e).children.filter
      (fun c => decide ((s.newChild p name inode negative).InBucket i c)) = s.chain e i := by
    intro e
    rw [hs.chain e i]
    apply filter_congr
    intro c hc
    exact decide_eq_decide.mpr (newChild_inBucket (ne_of_lt (hs.child e c hc).2.1))
  by_cases hd : d = s.dentryCount
  · subst hd
    rw [newChild_children_self, chain, newChild_dentry_self]
    rfl
  · by_cases hdp : d = p
    · subst hdp
      rw [newChild_children_parent hp, chain, newChild_dentry_parent hp, filter_cons, hold]
      simp only [getD_some, decide_eq_true_eq, newChild_inBucket_self]
      by_cases hi : bucket name = i
      · subst hi
        rw [update_self, if_pos rfl]
      · rw [update_of_ne (Ne.symm hi), if_neg hi]
    · rw [newChild_dentry_of_ne hd hdp, hold, chain, newChild_dentry_of_ne hd hdp, chain]

/-- A child with a name that is not taken keeps the tree. -/
lemma Wf.newChild (hs : Wf s) (hp : p < s.dentryCount) (hnode : (s.dentry p).inode ≠ none)
    (hfree : s.findChild p name = none)
    (hinode : ∀ i, inode = some i → i < s.inodeCount ∧ ∀ d, (s.dentry d).inode ≠ some i) :
    Wf (s.newChild p name inode inode.isNone) where
  memory := hs.memory
  root_lt := Nat.lt_succ_of_lt hs.root_lt
  child d c hc := by
    rw [mem_newChild_children hs hp] at hc
    rcases hc with hc | ⟨rfl, rfl⟩
    · have h := hs.child d c hc
      have hne : c ≠ s.dentryCount := ne_of_lt h.2.1
      rw [newChild_parent hne, newChild_name hne]
      exact ⟨h.1, Nat.lt_succ_of_lt h.2.1, h.2.2⟩
    · rw [newChild_dentry_self]
      exact ⟨hp, Nat.lt_succ_self _, rfl, nofun⟩
  distinct d := by
    have hold : ∀ e, (s.dentry e).children.map
        (fun c => ((s.newChild p name inode inode.isNone).dentry c).name) =
        (s.dentry e).children.map fun c => (s.dentry c).name := by
      intro e
      apply map_congr_left
      intro c hc
      exact newChild_name (ne_of_lt (hs.child e c hc).2.1)
    by_cases hd : d = s.dentryCount
    · subst hd
      rw [newChild_children_self]
      exact nodup_nil
    · by_cases hdp : d = p
      · subst hdp
        rw [newChild_children_parent hp, map_cons, hold, newChild_dentry_self]
        refine nodup_cons.mpr ⟨?_, hs.distinct d⟩
        intro hmem
        obtain ⟨c, hc, hn⟩ := mem_map.mp hmem
        rw [hs.findChild_eq_some.mpr ⟨hc, hn⟩] at hfree
        exact some_ne_none c hfree
      · rw [newChild_dentry_of_ne hd hdp, hold]
        exact hs.distinct d
  chain := newChild_chain hs hp
  leaf d hd := by
    by_cases hc : d = s.dentryCount
    · subst hc
      exact newChild_children_self
    · rw [newChild_inode hc] at hd
      by_cases hdp : d = p
      · subst hdp
        exact absurd hd hnode
      · rw [newChild_dentry_of_ne hc hdp]
        exact hs.leaf d hd
  negative d hd := by
    by_cases hc : d = s.dentryCount
    · subst hc
      rw [newChild_dentry_self]
    · have hlt : d < s.dentryCount := Nat.lt_of_le_of_ne (Nat.le_of_lt_succ hd) hc
      rw [newChild_inode hc, newChild_negative hc]
      exact hs.negative d hlt
  unique d e i hd he := by
    by_cases hdc : d = s.dentryCount
    · subst hdc
      rw [newChild_dentry_self] at hd
      by_contra hne
      rw [newChild_inode (Ne.symm hne)] at he
      exact (hinode i hd).2 e he
    · rw [newChild_inode hdc] at hd
      by_cases hec : e = s.dentryCount
      · subst hec
        rw [newChild_dentry_self] at he
        exact absurd hd ((hinode i he).2 d)
      · rw [newChild_inode hec] at he
        exact hs.unique d e i hd he
  bound d i hd := by
    by_cases hdc : d = s.dentryCount
    · subst hdc
      rw [newChild_dentry_self] at hd
      exact ⟨Nat.lt_succ_self _, (hinode i hd).1⟩
    · rw [newChild_inode hdc] at hd
      exact ⟨Nat.lt_succ_of_lt (hs.bound d i hd).1, (hs.bound d i hd).2⟩

end NewChild

/-! ## Positions -/

/-- The entry at a position below an entry `r`. -/
def locate (s : Vfs) (r : Nat) : Pos → Option Nat
  | [] => some r
  | name :: x => (s.locate r x).bind fun d => s.findChild d name

section Locate

variable {s : Vfs} {r : Nat}
variable {x : Pos} {d : Nat} {name : CString}

/-- A position below another is that of a child. -/
lemma locate_cons_eq_some (hs : Wf s) {c : Nat} :
    s.locate r (name :: x) = some c ↔
      ∃ d, s.locate r x = some d ∧ c ∈ (s.dentry d).children ∧ (s.dentry c).name = some name := by
  simp only [locate, bind_eq_some_iff, hs.findChild_eq_some]

lemma locate_cons_of_eq_some (h : s.locate r x = some d) :
    s.locate r (name :: x) = s.findChild d name := by
  rw [locate, h, bind_some]

lemma locate_cons_of_eq_none (h : s.locate r x = none) : s.locate r (name :: x) = none := by
  rw [locate, h, bind_none]

/-- Children have larger numbers than their parents. -/
lemma locate_le (hs : Wf s) (h : s.locate r x = some d) : r + x.length ≤ d := by
  induction x generalizing d with
  | nil =>
    rw [locate, some_inj] at h
    exact le_of_eq h
  | cons name x ih =>
    obtain ⟨e, he, hc, -⟩ := (locate_cons_eq_some hs).mp h
    have hle := ih he
    have hlt := (hs.child e d hc).1
    rw [length_cons]
    omega

lemma locate_lt (hs : Wf s) (hr : r < s.dentryCount) (h : s.locate r x = some d) :
    d < s.dentryCount := by
  cases x with
  | nil =>
    rw [locate, some_inj] at h
    exact h ▸ hr
  | cons name x =>
    obtain ⟨e, -, hc, -⟩ := (locate_cons_eq_some hs).mp h
    exact (hs.child e d hc).2.1

/-- An entry has one position, by induction on the position. -/
lemma locate_inj (hs : Wf s) (hr : (s.dentry r).parent = none) {y : Pos}
    (hx : s.locate r x = some d) (hy : s.locate r y = some d) : x = y := by
  induction x generalizing y d with
  | nil =>
    rw [locate, some_inj] at hx
    subst hx
    cases y with
    | nil => rfl
    | cons name y =>
      obtain ⟨e, -, hc, -⟩ := (locate_cons_eq_some hs).mp hy
      rw [(hs.child e r hc).2.2.1] at hr
      exact absurd hr (some_ne_none e)
  | cons name x ih =>
    obtain ⟨e, he, hc, hn⟩ := (locate_cons_eq_some hs).mp hx
    have hp := (hs.child e d hc).2.2.1
    cases y with
    | nil =>
      rw [locate, some_inj] at hy
      subst hy
      rw [hp] at hr
      exact absurd hr (some_ne_none e)
    | cons name' y =>
      obtain ⟨e', he', hc', hn'⟩ := (locate_cons_eq_some hs).mp hy
      have hp' := (hs.child e' d hc').2.2.1
      have hee : e = e' := some_inj.mp (hp.symm.trans hp')
      have hnn : name = name' := some_inj.mp (hn.symm.trans hn')
      rw [hnn, ih he (hee ▸ he')]

/-- Positions stay where children and their names do. -/
lemma locate_mono {s' : Vfs} (hs : Wf s) (hs' : Wf s')
    (h : ∀ d c, c ∈ (s.dentry d).children →
      c ∈ (s'.dentry d).children ∧ (s'.dentry c).name = (s.dentry c).name)
    (hx : s.locate r x = some d) : s'.locate r x = some d := by
  induction x generalizing d with
  | nil => exact hx
  | cons name x ih =>
    obtain ⟨e, he, hc, hn⟩ := (locate_cons_eq_some hs).mp hx
    obtain ⟨hc', hn'⟩ := h e d hc
    exact (locate_cons_eq_some hs').mpr ⟨e, ih he, hc', hn'.trans hn⟩

end Locate

section NewChild

variable {s : Vfs} {p : Nat} {name : CString} {inode : Option Nat} {negative : Bool}

/-- A new child is at one position, and every other position keeps its entry. -/
lemma locate_newChild (hs : Wf s) (hp : p < s.dentryCount)
    (hs' : Wf (s.newChild p name inode negative)) {r : Nat} {y : Pos} {e : Nat} :
    (s.newChild p name inode negative).locate r y = some e ↔
      s.locate r y = some e ∨
        (e = s.dentryCount ∧ (s.newChild p name inode negative).locate r y = some e) := by
  constructor
  · intro h
    induction y generalizing e with
    | nil => exact .inl h
    | cons m y ih =>
      obtain ⟨f, hf, hc, hn⟩ := (locate_cons_eq_some hs').mp h
      rw [mem_newChild_children hs hp] at hc
      rcases hc with hc | ⟨-, rfl⟩
      · have hec : e ≠ s.dentryCount := ne_of_lt (hs.child f e hc).2.1
        rw [newChild_name hec] at hn
        rcases ih hf with hf | ⟨rfl, -⟩
        · exact .inl ((locate_cons_eq_some hs).mpr ⟨f, hf, hc, hn⟩)
        · rw [hs.children_eq_nil (le_refl _)] at hc
          exact nomatch hc
      · exact .inr ⟨rfl, h⟩
  · rintro (h | ⟨-, h⟩)
    · refine locate_mono hs hs' ?_ h
      intro d c hc
      exact ⟨(mem_newChild_children hs hp).mpr (.inl hc),
        newChild_name (ne_of_lt (hs.child d c hc).2.1)⟩
    · exact h

end NewChild

/-! ## An inode for an entry -/

/-- The state in which an entry has the inode. -/
def setNode (s : Vfs) (d i : Nat) : Vfs :=
  s.setDentry d fun e => { e with inode := some i, negative := false }

section SetNode

variable {s : Vfs} {d i : Nat}

/-- Only the inode and the mark of a negative entry change. -/
lemma setNode_fields (e : Nat) :
    ∃ inode negative, (s.setNode d i).dentry e =
      { s.dentry e with inode := inode, negative := negative } := by
  by_cases he : e = d
  · subst he
    exact ⟨some i, false, update_self ..⟩
  · exact ⟨(s.dentry e).inode, (s.dentry e).negative, update_of_ne he ..⟩

@[simp]
lemma setNode_children (e : Nat) : ((s.setNode d i).dentry e).children = (s.dentry e).children := by
  obtain ⟨inode, negative, h⟩ := setNode_fields (s := s) (d := d) (i := i) e
  rw [h]

@[simp]
lemma setNode_name (e : Nat) : ((s.setNode d i).dentry e).name = (s.dentry e).name := by
  obtain ⟨inode, negative, h⟩ := setNode_fields (s := s) (d := d) (i := i) e
  rw [h]

@[simp]
lemma setNode_parent (e : Nat) : ((s.setNode d i).dentry e).parent = (s.dentry e).parent := by
  obtain ⟨inode, negative, h⟩ := setNode_fields (s := s) (d := d) (i := i) e
  rw [h]

@[simp]
lemma setNode_chain (e : Nat) : (s.setNode d i).chain e = s.chain e := by
  obtain ⟨inode, negative, h⟩ := setNode_fields (s := s) (d := d) (i := i) e
  rw [chain, h, chain]

lemma setNode_named {name : CString} (e : Nat) :
    (s.setNode d i).Named name e ↔ s.Named name e := by
  unfold Named
  rw [setNode_name]

lemma setNode_inode (e : Nat) :
    ((s.setNode d i).dentry e).inode = if e = d then some i else (s.dentry e).inode := by
  by_cases he : e = d
  · subst he
    simp [setNode, setDentry]
  · simp [setNode, setDentry, he]

/-- An inode that no entry has may be given to any entry. -/
lemma Wf.setNode (hs : Wf s) (hd : d < s.dentryCount) (hi : i < s.inodeCount)
    (hnew : ∀ e, (s.dentry e).inode ≠ some i) : Wf (s.setNode d i) where
  memory := hs.memory
  root_lt := hs.root_lt
  child e c hc := by
    rw [setNode_children] at hc
    rw [setNode_parent, setNode_name]
    exact hs.child e c hc
  distinct e := by
    simp only [setNode_children, setNode_name]
    exact hs.distinct e
  chain e j := by
    simp only [setNode_children, setNode_chain, InBucket, setNode_name]
    exact hs.chain e j
  leaf e he := by
    rw [setNode_inode] at he
    rw [setNode_children]
    split at he
    · exact nomatch he
    · exact hs.leaf e he
  negative e he := by
    rw [setNode_inode]
    by_cases hed : e = d
    · subst hed
      rw [if_pos rfl]
      simp [setNode, setDentry]
    · rw [if_neg hed]
      have hold : (s.setNode d i).dentry e = s.dentry e := update_of_ne hed ..
      rw [hold]
      exact hs.negative e he
  unique e f j he hf := by
    rw [setNode_inode] at he hf
    split_ifs at he with hed
    · rw [some_inj] at he
      by_cases hfd : f = d
      · rw [hed, hfd]
      · rw [if_neg hfd, ← he] at hf
        exact absurd hf (hnew f)
    · split at hf
      · rw [some_inj] at hf
        rw [← hf] at he
        exact absurd he (hnew e)
      · exact hs.unique e f j he hf
  bound e j he := by
    rw [setNode_inode] at he
    split_ifs at he with hed
    · rw [some_inj] at he
      exact ⟨hed ▸ hd, he ▸ hi⟩
    · exact hs.bound e j he

/-- Inodes have no part in positions. -/
lemma locate_setNode (r : Nat) (y : Pos) : (s.setNode d i).locate r y = s.locate r y := by
  induction y with
  | nil => rfl
  | cons m y ih =>
    rw [locate, ih, locate]
    congr 1
    funext e
    unfold findChild
    simp only [setNode_children, setNode_named]

end SetNode

/-! ## Removing an entry -/

section

variable {s : Vfs} {p d i : Nat}
variable {e : Nat}

/-- No entry is listed twice, because its name is not. -/
lemma Wf.nodup_children (hs : Wf s) (e : Nat) : (s.dentry e).children.Nodup :=
  List.Nodup.of_map _ (hs.distinct e)

/-- `d_hash_remove` changes entries only. -/
lemma dHashRemove_eq (s : Vfs) (d p : Nat) :
    s.dHashRemove d p = { s with dentry := (s.dHashRemove d p).dentry } := by
  unfold dHashRemove
  split <;> rfl

lemma vfsDentryDetach_eq (s : Vfs) (d : Nat) :
    s.vfsDentryDetach d = { s with dentry := (s.vfsDentryDetach d).dentry } := by
  unfold vfsDentryDetach
  split
  · rfl
  · rw [dHashRemove_eq]
    rfl

lemma removeEntry_eq (s : Vfs) (d i : Nat) :
    s.removeEntry d i =
      { s with
        dentry := (s.removeEntry d i).dentry
        dentryFreed := update s.dentryFreed d true
        inodeFreed := update s.inodeFreed i true } := by
  unfold removeEntry ramfsEvictInode freeDentry
  rw [vfsDentryDetach_eq]

section

variable (hs : Wf s) (hd : d ∈ (s.dentry p).children)
include hs hd

/-- The parent loses the entry from its list and from the chain of its name. -/
lemma removeEntry_parent {name : CString} (hn : (s.dentry d).name = some name) :
    (s.removeEntry d i).dentry p =
      { s.dentry p with
        children := (s.dentry p).children.erase d
        cache := some (update (s.chain p) (bucket name) ((s.chain p (bucket name)).erase d)) } := by
  have hpd : p ≠ d := ne_of_lt (hs.child p d hd).1
  have hc : ∃ h, (s.dentry p).cache = some h := by
    cases hc : (s.dentry p).cache with
    | some h => exact ⟨h, rfl⟩
    | none =>
      have hchain := hs.chain p (bucket name)
      unfold chain at hchain
      rw [hc, getD_none] at hchain
      have hmem : d ∈ (s.dentry p).children.filter fun c => s.InBucket (bucket name) c := by
        apply mem_filter.mpr
        refine ⟨hd, decide_eq_true ?_⟩
        unfold InBucket
        rw [hn, map_some]
      rw [← hchain] at hmem
      exact nomatch hmem
  obtain ⟨h, hc⟩ := hc
  simp only [removeEntry, ramfsEvictInode, freeDentry, vfsDentryDetach, (hs.child p d hd).2.2.1,
    dHashRemove, hc, hn, setDentry, update_self, update_of_ne hpd, chain, getD_some]

/-- Of the other entries only the one that goes changes: it has no parent. -/
lemma removeEntry_of_ne (hep : e ≠ p) : (s.removeEntry d i).dentry e =
    { s.dentry e with parent := if e = d then none else (s.dentry e).parent } := by
  obtain ⟨name, hn⟩ := ne_none_iff_exists'.mp (hs.child p d hd).2.2.2
  have hdp : d ≠ p := (ne_of_lt (hs.child p d hd).1).symm
  cases hc : (s.dentry p).cache <;>
    simp only [removeEntry, ramfsEvictInode, freeDentry, vfsDentryDetach, (hs.child p d hd).2.2.1,
      dHashRemove, hc, hn, setDentry, update_apply, if_neg hep, if_neg hdp] <;>
    by_cases hed : e = d <;> simp [hed, hn]

/-- Seen from any entry, the removed one is erased from the list and from the chains. -/
lemma removeEntry_lists (e : Nat) :
    ((s.removeEntry d i).dentry e).children = (s.dentry e).children.erase d ∧
      ∀ j, (s.removeEntry d i).chain e j = (s.chain e j).erase d := by
  by_cases hep : e = p
  · subst hep
    obtain ⟨name, hn⟩ := ne_none_iff_exists'.mp (hs.child e d hd).2.2.2
    refine ⟨by rw [removeEntry_parent hs hd hn], fun j => ?_⟩
    rw [chain, removeEntry_parent hs hd hn, getD_some]
    by_cases hj : j = bucket name
    · rw [hj, update_self]
    · have hnot : d ∉ s.chain e j := by simp [hs.chain, InBucket, hn, Ne.symm hj]
      rw [update_of_ne hj, erase_of_not_mem hnot]
  · -- The entry has one parent.
    have hnot : d ∉ (s.dentry e).children := fun hc =>
      hep (some_inj.mp ((hs.child e d hc).2.2.1.symm.trans (hs.child p d hd).2.2.1))
    have hchain : ∀ j, d ∉ s.chain e j := fun j hc =>
      hnot (mem_of_mem_filter (hs.chain e j ▸ hc))
    rw [erase_of_not_mem hnot]
    simp only [fun j => erase_of_not_mem (hchain j)]
    unfold chain
    rw [removeEntry_of_ne hs hd hep]
    exact ⟨rfl, fun _ => rfl⟩

lemma mem_removeEntry_children {c : Nat} :
    c ∈ ((s.removeEntry d i).dentry e).children ↔ c ∈ (s.dentry e).children ∧ c ≠ d := by
  rw [(removeEntry_lists hs hd e).1, (hs.nodup_children e).mem_erase_iff, and_comm]

/-- Names and inodes stay. -/
lemma removeEntry_fields (e : Nat) :
    ∃ children cache parent, (s.removeEntry d i).dentry e =
      { s.dentry e with children := children, cache := cache, parent := parent } ∧
      (e ≠ d → parent = (s.dentry e).parent) := by
  by_cases hep : e = p
  · subst hep
    obtain ⟨name, hn⟩ := ne_none_iff_exists'.mp (hs.child e d hd).2.2.2
    exact ⟨_, _, _, removeEntry_parent hs hd hn, fun _ => rfl⟩
  · exact ⟨_, _, _, removeEntry_of_ne hs hd hep, fun hed => if_neg hed⟩

lemma removeEntry_name (e : Nat) : ((s.removeEntry d i).dentry e).name = (s.dentry e).name := by
  obtain ⟨children, cache, parent, h, -⟩ := removeEntry_fields (i := i) hs hd e
  rw [h]

lemma removeEntry_inode (e : Nat) :
    ((s.removeEntry d i).dentry e).inode = (s.dentry e).inode := by
  obtain ⟨children, cache, parent, h, -⟩ := removeEntry_fields (i := i) hs hd e
  rw [h]

/-- Each chain still has the children of its bucket. -/
lemma removeEntry_chain (e j : Nat) :
    (s.removeEntry d i).chain e j =
      ((s.removeEntry d i).dentry e).children.filter fun c => (s.removeEntry d i).InBucket j c := by
  have hin : ∀ c, (s.removeEntry d i).InBucket j c ↔ s.InBucket j c := by
    intro c
    unfold InBucket
    rw [removeEntry_name hs hd]
  simp only [hin]
  rw [(removeEntry_lists hs hd e).1, (removeEntry_lists hs hd e).2, hs.chain,
    (hs.nodup_children e).erase_eq_filter, ((hs.nodup_children e).filter _).erase_eq_filter,
    filter_comm]

/-- Removing a child keeps the tree; what was below the child is no longer reached. -/
lemma Wf.removeEntry : Wf (s.removeEntry d i) where
  memory := by
    rw [removeEntry_eq]
    exact hs.memory
  root_lt := by
    rw [removeEntry_eq]
    exact hs.root_lt
  child e c hc := by
    obtain ⟨hc, hcd⟩ := (mem_removeEntry_children hs hd).mp hc
    obtain ⟨children, cache, parent, h, hparent⟩ := removeEntry_fields (i := i) hs hd c
    have hcount : (s.removeEntry d i).dentryCount = s.dentryCount := by rw [removeEntry_eq]
    rw [h, hparent hcd, hcount]
    exact hs.child e c hc
  distinct e := by
    simp only [removeEntry_name hs hd]
    rw [(removeEntry_lists hs hd e).1]
    exact (hs.distinct e).sublist (erase_sublist.map _)
  chain := removeEntry_chain hs hd
  leaf e he := by
    rw [removeEntry_inode hs hd] at he
    apply eq_nil_iff_forall_not_mem.mpr
    intro c hc
    have hmem := ((mem_removeEntry_children hs hd).mp hc).1
    rw [hs.leaf e he] at hmem
    exact nomatch hmem
  negative e he := by
    obtain ⟨children, cache, parent, h, -⟩ := removeEntry_fields (i := i) hs hd e
    rw [removeEntry_eq] at he
    rw [h]
    exact hs.negative e he
  unique e f j he hf := by
    rw [removeEntry_inode hs hd] at he hf
    exact hs.unique e f j he hf
  bound e j he := by
    rw [removeEntry_inode hs hd] at he
    rw [removeEntry_eq]
    exact hs.bound e j he

/-- Nothing is at or below the position of the entry any more; all other positions stay. -/
lemma locate_removeEntry {r : Nat}
    (hr : (s.dentry r).parent = none) {x : Pos} (hx : s.locate r x = some d) {y : Pos} :
    (s.removeEntry d i).locate r y = some e ↔ s.locate r y = some e ∧ ¬ x <:+ y := by
  have hs' : Wf (s.removeEntry d i) := hs.removeEntry hd
  have hback : ∀ {y e}, (s.removeEntry d i).locate r y = some e → s.locate r y = some e := by
    intro y e
    apply locate_mono hs' hs
    intro f c hc
    exact ⟨((mem_removeEntry_children hs hd).mp hc).1, (removeEntry_name hs hd c).symm⟩
  induction y generalizing e with
  | nil =>
    refine ⟨fun h => ⟨h, ?_⟩, And.left⟩
    intro hsuff
    rw [suffix_nil.mp hsuff, locate, some_inj] at hx
    rw [hx, (hs.child p d hd).2.2.1] at hr
    exact nomatch hr
  | cons m y ih =>
    constructor
    · intro h
      obtain ⟨f, hf, hc, hn⟩ := (locate_cons_eq_some hs').mp h
      obtain ⟨hc, hed⟩ := (mem_removeEntry_children hs hd).mp hc
      refine ⟨hback h, ?_⟩
      intro hsuff
      rcases suffix_cons_iff.mp hsuff with heq | hsuff
      · have hold := hback h
        rw [← heq, hx] at hold
        exact hed (some_inj.mp hold).symm
      · exact (ih.mp hf).2 hsuff
    · rintro ⟨h, hsuff⟩
      obtain ⟨f, hf, hc, hn⟩ := (locate_cons_eq_some hs).mp h
      have hf' := ih.mpr ⟨hf, fun h' => hsuff (h'.trans (suffix_cons m y))⟩
      refine (locate_cons_eq_some hs').mpr ⟨f, hf', ?_, (removeEntry_name hs hd e).trans hn⟩
      refine (mem_removeEntry_children hs hd).mpr ⟨hc, ?_⟩
      rintro rfl
      exact hsuff (locate_inj hs hr hx h ▸ suffix_rfl)

end

end

/-! ## Changes that keep the tree -/

/-- The entries are the same but for their counts and for what is mounted on them. -/
structure SameTree (s s' : Vfs) : Prop where
  dentry : ∀ d, ∃ r m, s'.dentry d = { s.dentry d with refcount := r, mount := m }
  dentryCount : s'.dentryCount = s.dentryCount
  root : s'.root = s.root
  answers : s'.answers = s.answers
  inodeCount : s.inodeCount ≤ s'.inodeCount

namespace SameTree

variable {s s' : Vfs}

section

variable (h : SameTree s s')
include h

lemma children (d : Nat) : (s'.dentry d).children = (s.dentry d).children := by
  obtain ⟨r, m, hr⟩ := h.dentry d
  rw [hr]

lemma name (d : Nat) : (s'.dentry d).name = (s.dentry d).name := by
  obtain ⟨r, m, hr⟩ := h.dentry d
  rw [hr]

lemma parent (d : Nat) : (s'.dentry d).parent = (s.dentry d).parent := by
  obtain ⟨r, m, hr⟩ := h.dentry d
  rw [hr]

lemma inode (d : Nat) : (s'.dentry d).inode = (s.dentry d).inode := by
  obtain ⟨r, m, hr⟩ := h.dentry d
  rw [hr]

lemma chain (d : Nat) : s'.chain d = s.chain d := by
  obtain ⟨r, m, hr⟩ := h.dentry d
  rw [Vfs.chain, hr, Vfs.chain]

/-- The tree is one of names, parents, children and chains, which are the same. -/
lemma wf (hs : Wf s) : Wf s' where
  memory := h.answers.trans hs.memory
  root_lt := by
    rw [h.root, h.dentryCount]
    exact hs.root_lt
  child d c hc := by
    rw [h.children] at hc
    rw [h.dentryCount, h.parent, h.name]
    exact hs.child d c hc
  distinct d := by
    simp only [h.children, h.name]
    exact hs.distinct d
  chain d i := by
    simp only [h.children, h.chain, InBucket, h.name]
    exact hs.chain d i
  leaf d hd := by
    rw [h.inode] at hd
    rw [h.children]
    exact hs.leaf d hd
  negative d hd := by
    rw [h.dentryCount] at hd
    obtain ⟨r, m, hr⟩ := h.dentry d
    rw [hr]
    exact hs.negative d hd
  unique d e i hd he := by
    rw [h.inode] at hd he
    exact hs.unique d e i hd he
  bound d i hd := by
    rw [h.inode] at hd
    rw [h.dentryCount]
    exact ⟨(hs.bound d i hd).1, lt_of_lt_of_le (hs.bound d i hd).2 h.inodeCount⟩

end

end SameTree

end Vfs
end LiteKernel.Fs
