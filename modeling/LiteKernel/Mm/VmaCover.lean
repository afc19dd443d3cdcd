import LiteKernel.Mm.VmaFlags

/-!
# The addresses covered by a list of areas

The loader inserts areas that may overlap, so that its list need not be a chain.

Main results:

- Lemma `vmaInsert_tidy`: insertion adds the addresses of the new area, and merging and splitting
  change nothing.
-/

namespace LiteKernel.Mm

open Lib List

variable {c : VmaCtx} {addr start stop : Nat}

/-- The area is a non-empty range of pages. -/
structure VmArea.Tidy (a : VmArea) : Prop where
  start : PageAligned a.vmStart
  stop : PageAligned a.vmEnd
  lt : a.vmStart < a.vmEnd
  bound : a.vmEnd < wordSize

/-- All areas are non-empty ranges of pages. -/
def TidyList (l : List VmArea) : Prop :=
  ∀ a ∈ l, a.Tidy

/-- The address belongs to an area of the list. -/
def Covered (l : List VmArea) (x : Nat) : Prop :=
  ∃ a ∈ l, a.vmStart ≤ x ∧ x < a.vmEnd

variable {a v : VmArea} {l l' : List VmArea}

lemma covered_iff_flagsAt {x : Nat} : Covered l x ↔ ∃ f, FlagsAt l x f := by
  simp [Covered, FlagsAt]

lemma covered_of_vmaAllows {addr : Nat} {isWrite isExec : Bool}
    (h : vmaAllows l addr isWrite isExec = true) : Covered l addr := by
  unfold vmaAllows at h
  cases hf : l.find? (fun v => v.contains addr) with
  | none =>
    rw [hf] at h
    cases h
  | some a =>
    have hc := List.find?_some hf
    simp only [VmArea.contains, Bool.and_eq_true, decide_eq_true_eq] at hc
    exact ⟨a, List.mem_of_find?_eq_some hf, hc⟩

lemma TidyList.intervals (h : TidyList l) : Intervals l :=
  fun a ha => (h a ha).lt.le

lemma tidyList_cons : TidyList (a :: l) ↔ a.Tidy ∧ TidyList l :=
  forall_mem_cons

lemma VmArea.Within.refl (a : VmArea) : a.Within a :=
  ⟨le_refl _, le_refl _⟩

lemma VmArea.Within.trans {b c : VmArea} (h1 : a.Within b) (h2 : b.Within c) : a.Within c :=
  ⟨h2.1.trans h1.1, h1.2.trans h2.2⟩

lemma Fuses.tidy (h : Fuses l l') (hl : TidyList l) : TidyList l' := by
  induction h with
  | nil => exact hl
  | keep _ ih => exact tidyList_cons.mpr ((tidyList_cons.mp hl).imp_right ih)
  | merge hm _ ih =>
    simp only [vmaCanMerge, Bool.and_eq_true, beq_iff_eq] at hm
    simp only [tidyList_cons] at hl ih
    obtain ⟨hv, hw, hl⟩ := hl
    have h1 := hv.lt
    have h2 := hw.lt
    exact ih ⟨⟨hv.start, hw.stop, by simp only; omega, hw.bound⟩, hl⟩

/-- Insertion keeps every area and the new one inside an area. -/
lemma vmaInsert_tidy (hv : v.Tidy) (hl : TidyList l) :
    TidyList (vmaInsert v l) ∧ ∀ a ∈ v :: l, ∃ b ∈ vmaInsert v l, a.Within b := by
  obtain ⟨pre, ps, ms, post, r, hl', heq, hf, -⟩ := vmaInsert_eq v l
  have hf' := (hf.append_left pre).append_right (m := post)
  have hmem : ∀ a, a ∈ pre ++ (ps ++ v :: ms) ++ post ↔ a ∈ v :: l := by
    intro a
    simp only [hl', mem_append, mem_cons]
    tauto
  have ht : TidyList (pre ++ (ps ++ v :: ms) ++ post) :=
    fun a ha => tidyList_cons.mpr ⟨hv, hl⟩ a ((hmem a).mp ha)
  have heq' : vmaInsert v l = pre ++ [r] ++ post := by simp [heq]
  rw [heq']
  exact ⟨hf'.tidy ht, fun a ha => hf'.within ht.intervals a ((hmem a).mpr ha)⟩

lemma tidy_vmaAddAnon (hl : TidyList l) (hstart : PageAligned start) (hstop : PageAligned stop)
    (hbound : stop < wordSize) (flags : VmFlags) (id : Nat) :
    TidyList (vmaAddAnon c l start stop flags id).1 := by
  unfold vmaAddAnon
  split
  · exact hl
  · cases hok : c.heap.ok c.heap.next
    · rw [VmaCtx.kmalloc_of_not_ok hok]
      exact hl
    · rw [VmaCtx.kmalloc_of_ok hok]
      exact (vmaInsert_tidy ⟨hstart, hstop, by simp only; omega, hbound⟩ hl).1

lemma covered_mprotectList (hok : ∀ n, c.heap.ok n = true) (hn : NodesOk c l) (hl : TidyList l)
    (hv : v ∈ l) (haddr : PageAligned addr) (hstop : PageAligned stop) (hlt : addr < stop)
    (hstart : v.vmStart ≤ addr) (hend : stop ≤ v.vmEnd) (flags : VmFlags) :
    TidyList (mprotectList c l v addr stop flags).1 ∧
      ∀ x, Covered (mprotectList c l v addr stop flags).1 x ↔ Covered l x := by
  have hvt := hl v hv
  have hvb := hvt.bound
  obtain ⟨-, hflags⟩ := flagsAt_mprotectList hn hl.intervals hv hstart hlt hend flags
  refine ⟨?_, fun x => ?_⟩
  · rw [mprotectList_eq]
    intro a ha
    simp only [vmaSet, mem_map] at ha
    obtain ⟨w, hw, rfl⟩ := ha
    split
    · exact ⟨haddr, hstop, hlt, hend.trans_lt hvb⟩
    · exact tidy_vmaAddAnon (tidy_vmaAddAnon hl hvt.start haddr (by omega) _ _) hstop hvt.stop
        hvb _ _ w hw
  · -- the area is its part below the range, the range and its part above it
    have hself : FlagsAt l x v.vmFlags ∨ ¬ (v.vmStart ≤ x ∧ x < v.vmEnd) := by
      by_cases hx : v.vmStart ≤ x ∧ x < v.vmEnd
      · exact .inl ⟨v, hv, by simpa using hx, rfl⟩
      · exact .inr hx
    simp only [covered_iff_flagsAt, hflags, hok, and_true]
    constructor
    · rintro ⟨f, (⟨hx, -⟩ | ⟨hx, -⟩ | ⟨hx, -⟩ | ⟨w, hw, hwx⟩)⟩
      · exact ⟨_, hself.resolve_right (by omega)⟩
      · exact ⟨_, hself.resolve_right (by omega)⟩
      · exact ⟨_, hself.resolve_right (by omega)⟩
      · exact ⟨f, w, mem_of_mem_filter hw, hwx⟩
    · rintro ⟨f, w, hw, hwx, hwf⟩
      by_cases hwv : w.node = v.node
      · obtain rfl : w = v := inj_on_of_nodup_map hn.nodup hw hv hwv
        simp only [contains_iff] at hwx
        by_cases hlow : x < addr
        · exact ⟨f, by simp [hwx, hlow, hwf]⟩
        · by_cases hhigh : x < stop
          · exact ⟨flags, by simp [hhigh, not_lt.mp hlow]⟩
          · exact ⟨f, by simp [hwx, not_lt.mp hhigh, hwf]⟩
      · exact ⟨f, by right; right; right; exact ⟨w, by simp [hw, hwv], hwx, hwf⟩⟩

/-! ## The calls -/

/-- The list of a well-formed `mm_struct`, without the assumption that areas are disjoint. -/
structure VmaLoose (c : VmaCtx) (l : List VmArea) : Prop where
  ok : ∀ n, c.heap.ok n = true
  nodes : NodesOk c l
  tidy : TidyList l

lemma VmaLoose.vmaAdd (h : VmaLoose c l) (hstart : PageAligned start) (hstop : PageAligned stop)
    (hbound : stop < wordSize) (flags : VmFlags) :
    let r := Mm.vmaAdd c l start stop flags
    VmaLoose r.2 r.1 ∧ (∀ x, Covered r.1 x ↔ Covered l x ∨ start ≤ x ∧ x < stop) ∧
      (∀ a ∈ l, ∃ b ∈ r.1, a.Within b) ∧
      (start < stop → ∃ b ∈ r.1, b.vmStart ≤ start ∧ stop ≤ b.vmEnd) := by
  intro r
  by_cases hge : start ≥ stop
  · have hr : r = (l, c) := if_pos hge
    rw [hr]
    refine ⟨h, fun x => (or_iff_left ?_).symm, fun a ha => ⟨a, ha, VmArea.Within.refl a⟩, ?_⟩
    · omega
    · omega
  have hlt := not_le.mp hge
  obtain ⟨id, c', hr, hheap⟩ : ∃ id c', r = vmaAddAnon c' l start stop flags id ∧
      c'.heap = c.heap := by
    simp only [r, Mm.vmaAdd, if_neg hge]
    split
    · exact ⟨_, _, rfl, VmaCtx.allocAnonVmaId_heap c⟩
    · exact ⟨_, _, rfl, rfl⟩
  have hn' : NodesOk c' l := ⟨h.nodes.nodup, fun a ha => hheap ▸ h.nodes.old a ha⟩
  have hok' : ∀ n, c'.heap.ok n = true := fun n => hheap ▸ h.ok n
  have hnew : VmArea.Tidy ⟨c'.heap.next, start, stop, flags, id⟩ := ⟨hstart, hstop, hlt, hbound⟩
  have hr' := hr.trans (vmaAddAnon_of_ok (hok' _) l hlt flags id)
  obtain ⟨htidy, hwithin⟩ := vmaInsert_tidy hnew h.tidy
  refine ⟨⟨fun n => ?_, ?_, ?_⟩, fun x => ?_, fun a ha => ?_, fun _ => ?_⟩
  · rw [hr']
    exact hok' n
  · rw [hr]
    exact hn'.addAnon start stop flags id
  · rw [hr']
    exact htidy
  · have hins := fun f => flagsAt_vmaInsert (x := x) (f := f) hnew.lt.le h.tidy.intervals
    simp only [hr', covered_iff_flagsAt, hins, contains_iff, exists_or, exists_and_left,
      exists_eq', and_true, or_comm]
  · rw [hr']
    exact hwithin a (mem_cons_of_mem _ ha)
  · rw [hr']
    exact hwithin _ mem_cons_self

lemma VmaLoose.doMprotect {c' : VmaCtx} {mm mm' : MmStruct} (h : VmaLoose c mm.mmap)
    {length prot : Nat} (heq : doMprotectVma c mm addr length prot = some (mm', c')) :
    VmaLoose c' mm'.mmap ∧ (∀ x, Covered mm'.mmap x ↔ Covered mm.mmap x) ∧ mm'.pgd = mm.pgd := by
  unfold doMprotectVma at heq
  cases hr : checkedRange addr length with
  | none =>
    rw [hr] at heq
    cases heq
  | some stop =>
    rw [hr] at heq
    simp only at heq
    cases hf : vmaFindCovering mm.mmap addr stop with
    | none =>
      rw [hf] at heq
      cases heq
    | some v =>
      rw [hf] at heq
      cases heq
      obtain ⟨haddr, hstop, hlt⟩ := checkedRange_spec hr
      obtain ⟨⟨hstart, hend⟩, -⟩ := vmaFindCovering_split hf
      have hv : v ∈ mm.mmap := mem_of_find?_eq_some hf
      obtain ⟨ht, hc⟩ := covered_mprotectList h.ok h.nodes h.tidy hv haddr hstop hlt
        hstart hend (protFlags prot)
      have hm := vmaMergeAdjacent_fuses (mprotectList c mm.mmap v addr stop (protFlags prot)).1
      refine ⟨⟨fun n => by rw [mprotectList_ok]; exact h.ok n,
        (h.nodes.mprotectList _ _ _ _).of_sublist hm.nodes, hm.tidy ht⟩, fun x => ?_, rfl⟩
      rw [← hc x, covered_iff_flagsAt, covered_iff_flagsAt]
      exact exists_congr fun f => hm.flagsAt ht.intervals

end LiteKernel.Mm
