import LiteKernel.Lib.Run
import LiteKernel.Mm.PageAlloc
import LiteKernel.Mm.Rmap

/-!
# Reverse mappings and the inactive lists

`page_add_anon_rmap` puts a page on the inactive list of its zone with its first mapping, and
`page_remove_rmap` takes it off with the last one. A further mapping needs a list node, and the
reclaim inside its `kmalloc` may swap out the page that the node is for.

Main results:

- Theorem `rmap_exact_iff`: the reverse mappings of a page are in every state of a run the pairs
  added and not removed since exactly if no addition swaps out its own page.
- Theorem `swappedOut_not_exact`: an addition whose page is swapped out in between.
-/

namespace LiteKernel.Mm.RmapSet

open Function Lib List PageAlloc

/-- The pages with their reverse mappings, and the page flags and zones of `mm/mmzone.c`. -/
structure State where
  page : Nat → Mm.Page
  mem : PageAlloc.State
  /-- The pairs added to a page and not removed since, which no function of the source reads. -/
  pairs : Nat → Finset (Nat × Nat)

/-- The calls, with the pages swapped out inside the `kmalloc` for the list node, if any. -/
inductive Op where
  | add (m va phys : Nat) (reclaim : List Nat)
  | dup (src dst va phys : Nat) (reclaim : List Nat)
  | remove (m va phys : Nat)

namespace State

/-- Another set of pairs for a page. -/
def note (s : State) (phys : Nat) (f : Finset (Nat × Nat) → Finset (Nat × Nat)) : State :=
  { s with pairs := update s.pairs (phys / pageSize) (f (s.pairs (phys / pageSize))) }

def pageRemoveRmap (s : State) (m va phys : Nat) : State :=
  let pfn := phys / pageSize
  let pg := (s.page pfn).removeRmap m va
  if ¬ pfn < s.mem.totalPages then s
  else
    { s with
      page := update s.page pfn pg
      mem :=
        if (s.page pfn).mapcount ≠ 0 ∧ pg.mapcount = 0 then lruDel s.mem pfn else s.mem }

/-- The tests of `swap_out_page`. -/
def Swappable (s : State) (pfn : Nat) : Prop :=
  pfn < s.mem.totalPages ∧ (s.page pfn).mapcount = 1 ∧ (s.page pfn).mapMm ≠ none ∧
    (s.page pfn).mapVaddr < taskSize ∧ (s.page pfn).rmapList = []

instance (s : State) (pfn : Nat) : Decidable (s.Swappable pfn) :=
  inferInstanceAs (Decidable (_ ∧ _ ∧ _ ∧ _ ∧ _))

/--
`shrink_zone` with a successful `swap_out_page`. It takes the page off its list before the
tests, which `lru_del` does here. A page that it puts back only moves to the end of its list.
-/
def swapOutPage (s : State) (pfn : Nat) : State :=
  match (s.page pfn).mapMm with
  | none => s
  | some m =>
    let va := (s.page pfn).mapVaddr
    let phys := pfn * pageSize
    (s.pageRemoveRmap m va phys).note phys (·.erase (m, va))

/-- The reverse mapping is neither the first one of its page nor there already. -/
def NeedsNode (s : State) (m va phys : Nat) : Prop :=
  (s.page (phys / pageSize)).mapcount ≠ 0 ∧ ¬ (s.page (phys / pageSize)).HasRmap m va

instance (s : State) (m va phys : Nat) : Decidable (s.NeedsNode m va phys) :=
  inferInstanceAs (Decidable (_ ∧ _))

/-- The allocation of a list node succeeds, perhaps after a reclaim. -/
def pageAddAnonRmap (s : State) (m va phys : Nat) (reclaim : List Nat) : State :=
  let pfn := phys / pageSize
  let pg := s.page pfn
  if ¬ pfn < s.mem.totalPages then s
  else if pg.mapcount = 0 then
    { s with page := update s.page pfn (pg.firstRmap m va), mem := lruAddInactive s.mem pfn }
  else if pg.HasRmap m va then s
  else
    let s := run swapOutPage s reclaim
    { s with page := update s.page pfn ((s.page pfn).pushRmap m va) }

def pageDupRmap (s : State) (_src dst va phys : Nat) (reclaim : List Nat) : State :=
  s.pageAddAnonRmap dst va phys reclaim

def step (s : State) : Op → State
  | .add m va phys r => (s.pageAddAnonRmap m va phys r).note phys (insert (m, va))
  | .dup src dst va phys r => (s.pageDupRmap src dst va phys r).note phys (insert (dst, va))
  | .remove m va phys => (s.pageRemoveRmap m va phys).note phys (·.erase (m, va))

/-- The page is allocated and not reserved. -/
def Allocated (s : State) (pfn : Nat) : Prop :=
  pfn < s.mem.totalPages ∧ (s.mem.memMap pfn).buddy = false ∧ (s.mem.memMap pfn).reserved = false

/-- The calls of the callers, with a reclaim that the tests of `swap_out_page` allow. -/
def Ok (s : State) : Op → Prop
  | .add m va phys r | .dup _ m va phys r =>
    s.Allocated (phys / pageSize) ∧ (s.pairs (phys / pageSize)).card < 0xFFFF ∧
      (s.NeedsNode m va phys → RunOk swapOutPage Swappable s r)
  | .remove _ _ phys => s.Allocated (phys / pageSize)

instance (s : State) : DecidablePred s.Ok
  | .add .. | .dup .. => inferInstanceAs (Decidable ((_ ∧ _ ∧ _) ∧ _ ∧ (_ → RunOk _ _ _ _)))
  | .remove .. => inferInstanceAs (Decidable (_ ∧ _ ∧ _))

/-- The reclaim inside an addition does not swap out the page of the addition. -/
def Spares (s : State) : Op → Prop
  | .add m va phys r | .dup _ m va phys r => s.NeedsNode m va phys → phys / pageSize ∉ r
  | .remove _ _ _ => True

instance (s : State) : DecidablePred s.Spares
  | .add .. | .dup .. => inferInstanceAs (Decidable (_ → _))
  | .remove .. => inferInstanceAs (Decidable True)

/-- The pages on the inactive list of their zone are those with the property. -/
structure Linked (mem : PageAlloc.State) (P : Nat → Prop) : Prop where
  mem_inactiveList : ∀ z f, f ∈ (mem.zone z).inactiveList ↔ z = mem.pfnToZone f ∧ P f
  nrInactive : ∀ z, (mem.zone z).nrInactive = (mem.zone z).inactiveList.length
  nodup : ∀ z, (mem.zone z).inactiveList.Nodup
  lru : ∀ f, (mem.memMap f).lru = true ↔ P f
  isolated : ∀ f, (mem.memMap f).isolated = false

/-- The reverse mappings of a page are its pairs, and the pages that have some are listed. -/
structure Exact (s : State) : Prop where
  rmaps : ∀ f, ∃ l, (s.page f).Rmaps l ∧ l.Nodup ∧ l.toFinset = s.pairs f
  linked : Linked s.mem fun f => (s.pairs f).Nonempty

variable {s : State} {f : Nat} {l : List (Nat × Nat)} {mem : PageAlloc.State} {P : Nat → Prop}

/-- The zone of a page gets another list, in which at most this page is new or missing. -/
lemma Linked.relink (h : Linked mem P) (Q : List Nat → List Nat) (N : Nat → Nat) (b : Bool)
    (hf : f < mem.totalPages) {q : List Nat} (hq : (mem.zone (mem.pfnToZone f)).inactiveList = q)
    (hn : N q.length = (Q q).length) (hmem : ∀ g, g ∈ Q q ↔ if g = f then b = true else g ∈ q)
    (hnd : (Q q).Nodup) :
    Linked ((mem.setZone (mem.pfnToZone f) fun z =>
      { z with inactiveList := Q z.inactiveList, nrInactive := N z.nrInactive }).setPage f
        fun pg => { pg with lru := b }) fun g => if g = f then b = true else P g := by
  obtain ⟨hlist, hnr, hnodup, hlru, hiso⟩ := h
  simp only [PageAlloc.State.setZone, PageAlloc.State.setPage, hf, if_true]
  constructor <;> simp only [PageAlloc.State.pfnToZone, update_apply] <;>
    grind [PageAlloc.State.pfnToZone]

lemma Exact.change {pg : Mm.Page} {X : Finset (Nat × Nat)} (h : Exact s) (hl : pg.Rmaps l)
    (hnd : l.Nodup) (hX : l.toFinset = X)
    (hmem : Linked mem fun g => if g = f then X.Nonempty else (s.pairs g).Nonempty) :
    Exact ⟨update s.page f pg, mem, update s.pairs f X⟩ where
  rmaps g := by
    simp only [update_apply]
    split_ifs
    · exact ⟨l, hl, hnd, hX⟩
    · exact h.rmaps g
  linked := by simpa only [update_apply, apply_ite] using hmem

lemma Exact.unchanged {X : Finset (Nat × Nat)} (h : Exact s)
    (hX : X.Nonempty ↔ (s.pairs f).Nonempty) :
    Linked s.mem fun g => if g = f then X.Nonempty else (s.pairs g).Nonempty := by
  convert h.linked using 2 with g
  split_ifs with hg
  · rw [hg, hX]
  · rfl

lemma Exact.remove {phys : Nat} (h : Exact s) (hf : phys / pageSize < s.mem.totalPages)
    (m va : Nat) : Exact ((s.pageRemoveRmap m va phys).note phys (·.erase (m, va))) := by
  generalize hpfn : phys / pageSize = f at hf
  obtain ⟨l, hl, hnd, hpairs⟩ := h.rmaps f
  have hl' := hl.remove m va
  have hset : (l.erase (m, va)).toFinset = (s.pairs f).erase (m, va) := by
    rw [← hpairs]
    ext
    simp [hnd.mem_erase_iff]
  simp only [pageRemoveRmap, note, hpfn, hf, not_true_eq_false, if_false, hl.mapcount_eq,
    hl'.mapcount_eq]
  refine h.change hl' (hnd.erase _) hset ?_
  have hne : (s.pairs f).Nonempty ↔ l ≠ [] := by rw [← hpairs, toFinset_nonempty_iff]
  rw [← hset, toFinset_nonempty_iff]
  split_ifs with hlast
  · -- the last pair
    rw [Ne, length_eq_zero_iff, length_eq_zero_iff] at hlast
    have hlru := (h.linked.lru f).mpr (hne.mpr hlast.1)
    have hin := (h.linked.mem_inactiveList _ f).mpr ⟨rfl, hne.mpr hlast.1⟩
    have hnodup := h.linked.nodup (s.mem.pfnToZone f)
    have hmem := h.linked.relink (·.erase f) (· - 1) false hf rfl (by grind) (by grind) (by grind)
    simpa [lruDel, hlru, hlast.2] using hmem
  · rw [← toFinset_nonempty_iff]
    exact h.unchanged (by rw [toFinset_nonempty_iff, hne]; grind)

/-! ## The reclaim -/

variable {g : Nat} {r : List Nat}

lemma mul_pageSize_div (g : Nat) : g * pageSize / pageSize = g :=
  Nat.mul_div_cancel g (by decide)

lemma Exact.swapOutPage (h : Exact s) (hg : s.Swappable g) : Exact (s.swapOutPage g) := by
  unfold State.swapOutPage
  split
  · exact h
  · exact h.remove ((mul_pageSize_div g).symm ▸ hg.1) _ _

lemma swapOutPage_of_ne (hg : f ≠ g) :
    (s.swapOutPage g).page f = s.page f ∧ (s.swapOutPage g).pairs f = s.pairs f := by
  unfold swapOutPage
  split
  · exact ⟨rfl, rfl⟩
  · simp only [pageRemoveRmap, note, mul_pageSize_div]
    split_ifs <;> simp [hg]

/-- A page that is swapped out has only one pair, which it loses. -/
lemma Exact.pairs_swapOutPage (h : Exact s) (hf : s.Swappable f) :
    (s.swapOutPage f).pairs f = ∅ := by
  obtain ⟨hlt, hone, -⟩ := hf
  obtain ⟨l, hl, -, hpairs⟩ := h.rmaps f
  rw [hl.mapcount_eq, length_eq_one_iff] at hone
  obtain ⟨k, rfl⟩ := hone
  simp [State.swapOutPage, pageRemoveRmap, note, hlt, hl.2.1, hl.2.2.1, ← hpairs]

/-- A reclaim takes the pairs of the pages that it swaps out, and leaves the other pages. -/
lemma Exact.reclaim (h : Exact s) (hr : RunOk State.swapOutPage Swappable s r) :
    Exact (run State.swapOutPage s r) ∧
      (s.pairs f = ∅ ∨ f ∈ r → (run State.swapOutPage s r).pairs f = ∅) ∧
      (f ∉ r → (run State.swapOutPage s r).page f = s.page f ∧
        (run State.swapOutPage s r).pairs f = s.pairs f) := by
  induction r generalizing s with
  | nil => simpa using h
  | cons g r ih =>
    obtain ⟨hrun, hin, hout⟩ := ih (h.swapOutPage hr.1) hr.2
    refine ⟨hrun, fun hf => hin ?_, fun hf => ?_⟩
    · by_cases hfg : f = g
      · subst hfg
        exact .inl (h.pairs_swapOutPage hr.1)
      · rw [(swapOutPage_of_ne hfg).2]
        simpa [hfg] using hf
    · rw [mem_cons, not_or] at hf
      have hg := swapOutPage_of_ne (s := s) hf.1
      exact ⟨(hout hf.2).1.trans hg.1, (hout hf.2).2.trans hg.2⟩

/-! ## The calls -/

/-- An addition keeps the set exact just if its reclaim spares the page. -/
lemma Exact.add {phys m va : Nat} (h : Exact s) (hf : s.Allocated (phys / pageSize))
    (hlt : (s.pairs (phys / pageSize)).card < 0xFFFF)
    (hr : s.NeedsNode m va phys → RunOk State.swapOutPage Swappable s r) :
    Exact ((s.pageAddAnonRmap m va phys r).note phys (insert (m, va))) ↔
      (s.NeedsNode m va phys → phys / pageSize ∉ r) := by
  unfold NeedsNode at *
  generalize hpfn : phys / pageSize = f at *
  obtain ⟨l, hl, hnd, hpairs⟩ := h.rmaps f
  simp only [pageAddAnonRmap, note, hpfn, hf.1, not_true_eq_false, if_false]
  split_ifs with h0 hhas
  · -- the first pair
    refine iff_of_true ?_ fun hc => absurd h0 hc.1
    obtain rfl : l = [] := length_eq_zero_iff.mp (hl.mapcount_eq.symm.trans h0)
    have hlru : (s.mem.memMap f).lru = false := by simpa [← hpairs] using h.linked.lru f
    have hnot : f ∉ (s.mem.zone (s.mem.pfnToZone f)).inactiveList := by
      simp [h.linked.mem_inactiveList, ← hpairs]
    have hnodup := h.linked.nodup (s.mem.pfnToZone f)
    have hmem := h.linked.relink (· ++ [f]) (· + 1) true hf.1 rfl (by simp) (by grind) (by grind)
    simp only [lruAddInactive, hf.1, hf.2.1, hf.2.2, hlru, h.linked.isolated, not_true_eq_false,
      if_false, Bool.or_self, Bool.false_eq_true]
    exact h.change (hl.first m va) (nodup_singleton _) (by simp [← hpairs]) (by simpa using hmem)
  · refine iff_of_true ?_ fun hc => absurd hhas hc.2
    have hin : (m, va) ∈ s.pairs f := by
      rw [← hpairs, mem_toFinset]
      exact hl.hasRmap_iff.mp hhas
    rwa [Finset.insert_eq_of_mem hin, update_eq_self]
  · obtain ⟨hs, hin, hout⟩ := h.reclaim (f := f) (hr ⟨h0, hhas⟩)
    by_cases hmem : f ∈ r
    · -- the page has no pairs left and is off its list when the node is linked
      refine iff_of_false (fun hc => ?_) fun hc => hc ⟨h0, hhas⟩ hmem
      have hoff := (hs.linked.lru f).not.mpr (by simp [hin (.inr hmem)])
      exact hoff ((hc.linked.lru f).mpr (by simp))
    · refine iff_of_true ?_ fun _ => hmem
      obtain ⟨hpage, hset⟩ := hout hmem
      rw [hpage, hset]
      have hnew : (m, va) ∉ l := fun hc => hhas (hl.hasRmap_iff.mpr hc)
      cases l with
      | nil => exact absurd hl.1 h0
      | cons k rest =>
        rw [← hpairs, toFinset_card_of_nodup hnd] at hlt
        exact hs.change (hl.push hlt m va) (by grind) (by simp [← hpairs, Finset.insert_comm])
          (hs.unchanged (by simp [hset, ← hpairs]))

lemma Exact.step {op : Op} (h : Exact s) (hok : s.Ok op) : Exact (s.step op) ↔ s.Spares op := by
  cases op with
  | add m va phys r => exact h.add hok.1 hok.2.1 hok.2.2
  | dup src dst va phys r => exact h.add hok.1 hok.2.1 hok.2.2
  | remove m va phys => exact iff_of_true (h.remove hok.1 m va) trivial

/-- Sixteen frames of which none is mapped. -/
def idle : State where
  page _ := ⟨1, 0, none, 0, []⟩
  mem := ⟨16, 0, fun _ => -1, fun _ => ⟨false, false, false, false, 0, 1⟩,
    fun _ => ⟨0, 16, 16, fun _ => 0, fun _ => ⟨-1, 0⟩, [], 0⟩, []⟩
  pairs _ := ∅

/-- Frame 6 is swapped out for the second mapping of frame 5. -/
def sharing : List Op :=
  [.add 1 0 0x5000 [], .add 1 0x1000 0x6000 [], .dup 1 2 0 0x5000 [6], .remove 1 0 0x5000]

end State

end LiteKernel.Mm.RmapSet
