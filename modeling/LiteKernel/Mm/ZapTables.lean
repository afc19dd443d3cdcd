import LiteKernel.Mm.UnmapExact

/-!
# The tables that `zap_page_range` leaves

After the first page it visits in a table, `zap_page_range` gives the table back if no page of it is
present. It does not look at the table again.

Main results:

- Theorem `zap_reclaims_iff`: when no empty table is left.
- Theorem `zap_leaves_table`: a table in which a second page of the range was present stays,
  though in the end all its entries are zero.
-/

namespace LiteKernel.Mm

open Function Lib List

/-- What is left of the entry of a page that is visited. -/
def Pte.visited (e : Pte) : Pte :=
  if e.released = none then e else Pte.zero

namespace Vm

variable {T : Tally} {s : Vm} {M : Finset Nat} {D : Nat → Nat} {m v i k : Nat}
variable {x : Nat × Bool} {start stop : Nat} {vs : List Nat}

/-! ## One round -/

section

variable (h : Wf T s M D)
include h

lemma Wf.pte_taskFreeUserPageMapped (hm : m ∈ M) (hv : v < userPages) :
    (s.taskFreeUserPageMapped m (D m) v).pte (D m) v = (s.pte (D m) v).visited := by
  unfold Pte.visited
  split
  case isTrue hnone => rw [taskFreeUserPageMapped_eq, hnone]
  case isFalse hsome =>
    have hlt : v < ptrsPerPte * ptrsPerPte := by
      unfold userPages at hv
      unfold ptrsPerPte
      omega
    have hz := h.taskFreeUserPageMapped hm hlt fun _ => False
    obtain ⟨hpresent, hdecode⟩ := hz.gone v hv rfl
    rcases hz.own v hv with heq | ⟨hzero, -⟩
    · rw [heq] at hpresent hdecode
      exact absurd (by simp [Pte.released, hpresent, hdecode]) hsome
    · exact hzero

lemma Wf.dir_visit (hm : m ∈ M) (hlt : x.1 < ptrsPerPte * ptrsPerPte) (hi : i < userPdes) :
    ((Vm.visit m (D m) s x).dir (D m) i).present = true ↔ (s.dir (D m) i).present = true ∧
      ¬ (x.2 = true ∧ x.1 / ptrsPerPte = i ∧ ∀ u, u < userPages → u / ptrsPerPte = i →
        (s.pte (D m) u).present = true → u = x.1) := by
  have h1 := (h.taskFreeUserPageMapped hm hlt fun _ => False).wf
  unfold Vm.visit
  by_cases hx : x.2 = true
  · simp only [hx, if_true, true_and]
    rw [h1.dir_freeEmptyTable hm hi, dir_taskFreeUserPageMapped,
      h.tableEmpty_taskFreeUserPageMapped hm hlt]
  · simp [hx, dir_taskFreeUserPageMapped]

/-- In a table that stays, only the entry of the page changes. -/
lemma Wf.pte_visit_of_present (hm : m ∈ M)
    (hlt : x.1 < ptrsPerPte * ptrsPerPte) (hv : v < userPages)
    (hp : ((Vm.visit m (D m) s x).dir (D m) (v / ptrsPerPte)).present = true) :
    (Vm.visit m (D m) s x).pte (D m) v =
      if v = x.1 then (s.pte (D m) v).visited else s.pte (D m) v := by
  have hstay := ((h.dir_visit hm hlt (pde_lt hv)).mp hp).2
  split
  case isTrue heq =>
    subst heq
    rw [← h.pte_taskFreeUserPageMapped hm hv]
    have h1 := (h.taskFreeUserPageMapped hm hlt fun _ => False).wf
    unfold Vm.visit
    split
    · next hx =>
      refine (h1.freeEmptyTable hm (Nat.div_lt_of_lt_mul hlt)).keeps hv not_false fun hc => ?_
      exact hstay ⟨hx, rfl, (h.tableEmpty_taskFreeUserPageMapped hm hlt).mp hc.2⟩
    · rfl
  case isFalse hne => exact (h.pte_visit hm hlt hv hne).2 hstay

/-! ## All rounds -/

/--
The rounds over pages in ascending order. A table stays if, next to the first page visited in it,
another page is present; in a table that stays, the entries of all visited pages are released.
-/
lemma Wf.rounds_table {last : Option Nat} (hm : m ∈ M) (hi : i < userPdes)
    (hlt : ∀ v ∈ vs, v < ptrsPerPte * ptrsPerPte) (hsorted : vs.Pairwise (· < ·))
    (hlast : ∀ k ∈ last, ∀ v ∈ vs, k ≤ v / ptrsPerPte) :
    ((((Vm.rounds last vs).foldl (Vm.visit m (D m)) s).dir (D m) i).present = true ↔
      (s.dir (D m) i).present = true ∧ (last = some i ∨
        ∀ w, vs.find? (fun v => v / ptrsPerPte = i) = some w →
          ∃ u, u < userPages ∧ u / ptrsPerPte = i ∧ (s.pte (D m) u).present = true ∧ u ≠ w)) ∧
    ((((Vm.rounds last vs).foldl (Vm.visit m (D m)) s).dir (D m) i).present = true →
      ∀ v, v < userPages → v / ptrsPerPte = i →
        ((Vm.rounds last vs).foldl (Vm.visit m (D m)) s).pte (D m) v =
          if v ∈ vs then (s.pte (D m) v).visited else s.pte (D m) v) := by
  induction vs generalizing s last with
  | nil => simp [Vm.rounds]
  | cons w vs ih =>
    have hw := hlt w mem_cons_self
    obtain ⟨hltw, hsorted'⟩ := pairwise_cons.mp hsorted
    have hmono : ∀ k ∈ some (w / ptrsPerPte), ∀ v ∈ vs, k ≤ v / ptrsPerPte := by
      intro k hk v hv
      cases hk
      exact Nat.div_le_div_right (hltw v hv).le
    set x : Nat × Bool := (w, decide (last ≠ some (w / ptrsPerPte))) with hx
    have hz := h.visit (x := x) hm hw
    have hdir := h.dir_visit (x := x) hm hw hi
    obtain ⟨ihdir, ihpte⟩ :=
      ih hz.wf (forall_mem_cons.mp hlt).2 hsorted' hmono
    rw [Vm.rounds, foldl_cons, ihdir, hdir]
    constructor
    · by_cases hwi : w / ptrsPerPte = i
      · -- This is the round that looks at the table, unless an earlier one has.
        rw [find?_cons_of_pos (by simpa using hwi)]
        by_cases hl : last = some i
        · simp [hx, hwi, hl]
        · simp only [hx, hwi, hl, ne_eq, not_false_eq_true, decide_true, true_and, true_or,
            and_true, false_or, Option.some.injEq]
          refine and_congr_right fun _ => ?_
          constructor
          · intro hnot w' hw'
            subst hw'
            by_contra hnone
            exact hnot fun u hu hui hup => by_contra fun hne => hnone ⟨u, hu, hui, hup, hne⟩
          · intro hall hc
            obtain ⟨u, hu, hui, hup, hne⟩ := hall w rfl
            exact hne (hc u hu hui hup)
      · rw [find?_cons_of_neg (by simpa using hwi)]
        have hkeep : ∀ u, u < userPages → u / ptrsPerPte = i →
            (Vm.visit m (D m) s x).pte (D m) u = s.pte (D m) u := by
          intro u hu hui
          have hne : u ≠ x.1 := fun e => hwi (e ▸ hui : x.1 / ptrsPerPte = i)
          exact (h.pte_visit hm hw hu hne).2 fun hc => hwi (hc.2.1.trans hui)
        have hnone : last = some i → vs.find? (fun v => v / ptrsPerPte = i) = none := by
          intro hl
          have hle := hlast i hl w mem_cons_self
          refine find?_eq_none.mpr fun v hv => ?_
          have hge := hmono _ rfl v hv
          simp only [decide_eq_true_eq]
          omega
        have hpage : ∀ w' u, (u < userPages ∧ u / ptrsPerPte = i ∧
            ((Vm.visit m (D m) s x).pte (D m) u).present = true ∧ u ≠ w') ↔
              (u < userPages ∧ u / ptrsPerPte = i ∧ (s.pte (D m) u).present = true ∧ u ≠ w') := by
          intro w' u
          refine and_congr_right fun hu => and_congr_right fun hui => ?_
          rw [hkeep u hu hui]
        have hxi : ¬ x.1 / ptrsPerPte = i := hwi
        simp only [hpage]
        simp only [hxi, hwi, false_and, and_false, not_false_eq_true, and_true, Option.some.injEq,
          false_or]
        refine and_congr_right fun _ => ?_
        by_cases hl : last = some i
        · simp [hl, hnone hl]
        · simp [hl]
    · intro hp v hv hvi
      have hp1 := hdir.mpr hp.1
      rw [ihpte (ihdir.mpr ⟨hp1, hp.2⟩) v hv hvi,
        h.pte_visit_of_present hm hw hv (by rw [hvi]; exact hp1)]
      by_cases hvw : v = w
      · subst hvw
        have hnot : v ∉ vs := fun hc => lt_irrefl v (hltw v hc)
        simp [hx, hnot]
      · simp [hx, hvw]

end

/-! ## Tables that are left -/

/-- The entry points to a table that is not the kernel's and has no entry at all. -/
def EmptyTable (s : Vm) (d i : Nat) : Prop :=
  (s.dir d i).present = true ∧ s.isKernelPde d i = false ∧
    ∀ j, j < ptrsPerPte → s.table (s.dir d i).pfn j = Pte.zero

/--
Everything in the table is released in the rounds over `vs`, but after the first of them in the
table another page of it is still present.
-/
def Lingers (s : Vm) (d : Nat) (vs : List Nat) (i : Nat) : Prop :=
  i < userPdes ∧ (s.dir d i).present = true ∧
    (∀ v, v < userPages → v / ptrsPerPte = i → s.pte d v ≠ Pte.zero →
      v ∈ vs ∧ (s.pte d v).released ≠ none) ∧
    ∀ w, vs.find? (fun v => v / ptrsPerPte = i) = some w →
      ∃ u, u < userPages ∧ u / ptrsPerPte = i ∧ (s.pte d u).present = true ∧ u ≠ w

/-- The directory entry is for an address of the range. -/
def Covers (start stop i : Nat) : Prop :=
  ∃ a, start ≤ a ∧ a < stop ∧ a / pageSize / ptrsPerPte = i

lemma Wf.emptyTable_iff (h : Wf T s M D) (hm : m ∈ M) (hi : i < userPdes) :
    EmptyTable s (D m) i ↔ (s.dir (D m) i).present = true ∧
      ∀ v, v < userPages → v / ptrsPerPte = i → s.pte (D m) v = Pte.zero := by
  refine and_congr_right fun hp => ?_
  rw [h.toSpace.isKernelPde_eq hm (hi.trans (by decide)) hp, decide_eq_false (not_le.mpr hi)]
  exact (and_iff_right rfl).trans (forall_table_iff (P := (· = Pte.zero)) hp hi)

lemma Wf.emptyTable_zapPageRange (h : Wf T s M D) (hm : m ∈ M) (hi : i < ptrsPerPte) :
    EmptyTable (s.zapPageRange m (D m) start stop) (D m) i ↔
      Lingers s (D m) (pagesIn start stop) i := by
  have hwf := (h.zapPageRange hm start stop).wf
  by_cases hu : i < userPdes
  · obtain ⟨hdir, hpte⟩ := h.rounds_table hm hu (fun v hv => lt_of_mem_pagesIn hv)
      (pairwise_pagesIn start stop) (nofun : ∀ k ∈ (none : Option Nat), _)
    rw [← zapPages_eq_foldl] at hdir hpte
    have hzero : ∀ e : Pte, e.visited = Pte.zero ↔ (e ≠ Pte.zero → e.released ≠ none) := by
      intro e
      unfold Pte.visited
      split
      case isTrue hnone => simp [hnone]
      case isFalse hsome => simp [hsome]
    rw [hwf.emptyTable_iff hm hu]
    constructor
    · rintro ⟨hp, hall⟩
      obtain ⟨hp0, hstay⟩ := hdir.mp hp
      refine ⟨hu, hp0, fun v hv hvi hne => ?_, hstay.resolve_left nofun⟩
      have heq := (hpte hp v hv hvi).symm.trans (hall v hv hvi)
      split at heq
      case isTrue hmem => exact ⟨hmem, (hzero _).mp heq hne⟩
      case isFalse => exact absurd heq hne
    · rintro ⟨-, hp0, hall, hstay⟩
      have hp := hdir.mpr ⟨hp0, Or.inr hstay⟩
      refine ⟨hp, fun v hv hvi => (hpte hp v hv hvi).trans ?_⟩
      split
      case isTrue => exact (hzero _).mpr fun hne => (hall v hv hvi hne).2
      case isFalse hnot => exact by_contra fun hne => hnot (hall v hv hvi hne).1
  · -- Above `TASK_SIZE` the tables are the kernel's.
    refine iff_of_false (fun hc => ?_) fun hc => hu hc.1
    have hk := hwf.toSpace.isKernelPde_eq hm hi hc.1
    rw [hc.2.1] at hk
    exact hu (not_le.mp (of_decide_eq_false hk.symm))

/--
No empty table is left in the range if and only if every table of the range keeps an entry, or has
no page present but the first one that is visited in it.
-/
theorem zap_reclaims_iff (h : Wf T s M D) (hm : m ∈ M) (hstop : stop ≤ wordSize) :
    (∀ i, Covers start stop i →
      ¬ EmptyTable (s.zapPageRange m (D m) start stop) (D m) i) ↔
    ∀ i, Covers start stop i → ¬ Lingers s (D m) (pagesIn start stop) i := by
  refine forall_congr' fun i => forall_congr' fun hc => not_congr (h.emptyTable_zapPageRange hm ?_)
  obtain ⟨a, -, ha, rfl⟩ := hc
  unfold wordSize at hstop
  unfold pageSize ptrsPerPte
  omega

/-- Pages 1 to 3 are zapped, of which only page 1 is present, and their table goes. -/
theorem zap_reclaims_mixed :
    ((mixed false).pte 2 1).present = true ∧ ∀ i, Covers 0x1000 0x4000 i →
      ¬ EmptyTable ((mixed false).zapPageRange 1 2 0x1000 0x4000) 2 i := by
  refine ⟨by decide +kernel, (@zap_reclaims_iff .exact (mixed false) {1} (fun _ => 2) 1 0x1000
    0x4000 (mixed_wf false) (mem_singleton_self 1) (by decide)).mpr ?_⟩
  rintro i ⟨a, -, ha, rfl⟩ ⟨-, -, -, hstay⟩
  have hzero : a / pageSize / ptrsPerPte = 0 := by
    unfold pageSize ptrsPerPte
    omega
  rw [hzero] at hstay
  obtain ⟨u, -, -, hp, hne⟩ := hstay 1 (by decide)
  have hpte : (mixed false).pte 2 u = if u < ptrsPerPte then mixedEntry false u else Pte.zero :=
    pte_oneTable u
  rw [hpte] at hp
  split_ifs at hp
  · rw [mixedEntry, if_neg hne] at hp
    split_ifs at hp
    · cases hp
    · next h => exact h.2.elim
    · cases hp
  · cases hp

/-- The table of the pages 1 to 3 stays, without an entry. -/
theorem zap_leaves_table :
    Covers 0x1000 0x4000 0 ∧ EmptyTable ((mixed true).zapPageRange 1 2 0x1000 0x4000) 2 0 := by
  refine ⟨⟨0x1000, by decide⟩, ?_⟩
  refine ((mixed_wf true).emptyTable_zapPageRange (mem_singleton_self 1) (by decide)).mpr
    ⟨by decide, by decide +kernel, fun v _ _ hne => ?_, fun w hw => ?_⟩
  · have hpte : (mixed true).pte 2 v = if v < ptrsPerPte then mixedEntry true v else Pte.zero :=
      pte_oneTable v
    rw [hpte] at hne ⊢
    split_ifs at hne ⊢ with hlt
    · by_cases h1 : v = 1
      · subst h1
        decide
      · by_cases h2 : v = 2
        · subst h2
          decide
        · by_cases h3 : v = 3
          · subst h3
            decide
          · simp [mixedEntry, h1, h2, h3] at hne
    · exact absurd rfl hne
  · have hfirst : (pagesIn 0x1000 0x4000).find? (fun v => v / ptrsPerPte = 0) = some 1 := by decide
    obtain rfl := Option.some.inj (hfirst.symm.trans hw)
    exact ⟨3, by decide, by decide, by decide +kernel, by decide⟩

end Vm
end LiteKernel.Mm
