import LiteKernel.Mm.FrameAlloc

/-!
# Unmapping

What `zap_page_range` does to an address space. `Zaps` says which entries
may disappear: those of the pages visited, and those of a table that has been
given back because none of its entries was present.

Main results:

- Lemma `Wf.zapPageRange`: the pages of the range are gone, and nothing else but such tables.
-/

namespace LiteKernel.Mm

open Function Lib List

namespace Vm

variable {T : Tally} {s s' : Vm} {M : Finset Nat} {D : Nat → Nat} {m v f : Nat} {e : Pte}
variable {d i start stop : Nat} {N : Finset Nat} {E P : Nat → Prop}

/--
Entries of `m` disappear: those of the pages `P`, and entries that are
not present in the tables `E`.
-/
structure Zaps (T : Tally) (M : Finset Nat) (D : Nat → Nat) (m : Nat) (P E : Nat → Prop)
    (s s' : Vm) : Prop where
  wf : Wf T s' M D
  rmap : RmapInv s M D → RmapInv s' M D
  other : ∀ m' ∈ M, m' ≠ m → ∀ v, v < userPages → s'.pte (D m') v = s.pte (D m') v
  own : ∀ v, v < userPages → s'.pte (D m) v = s.pte (D m) v ∨ s'.pte (D m) v = Pte.zero ∧
    (P v ∨ E (v / ptrsPerPte) ∧ (s.pte (D m) v).present = false)
  gone : ∀ v, v < userPages → P v →
    (s'.pte (D m) v).present = false ∧ swapPteDecode (s'.pte (D m) v) = none
  data : s'.data = s.data
  fixed : Fixed s s'

namespace Zaps

variable {P P' E E' : Nat → Prop}

/-- What is present afterwards was there before, in every address space. -/
lemma pte (h : Zaps T M D m P E s s') {m' : Nat} (hm' : m' ∈ M) (hv : v < userPages)
    (hp : (s'.pte (D m') v).present = true) : s'.pte (D m') v = s.pte (D m') v := by
  by_cases hmm : m' = m
  · subst hmm
    rcases h.own v hv with heq | ⟨hz, -⟩
    · exact heq
    · rw [hz] at hp
      cases hp
  · exact h.other m' hm' hmm v hv

/-- Entries outside of the pages and of the tables that may go are kept. -/
lemma keeps (h : Zaps T M D m P E s s') (hv : v < userPages) (hP : ¬ P v)
    (hE : ¬ E (v / ptrsPerPte)) : s'.pte (D m) v = s.pte (D m) v :=
  (h.own v hv).resolve_right fun hz => hz.2.elim hP fun hc => hE hc.1

lemma refl (h : Wf T s M D) (hP : ∀ v, v < userPages → P v →
    (s.pte (D m) v).present = false ∧ swapPteDecode (s.pte (D m) v) = none) :
    Zaps T M D m P E s s where
  wf := h
  rmap hr := hr
  other _ _ _ _ _ := rfl
  own _ _ := Or.inl rfl
  gone := hP
  data := rfl
  fixed := (Quiet.refl s).fixed

/-- Both steps together zap the pages of both and the tables of both. -/
lemma trans {s1 s2 s3 : Vm} {Q F : Nat → Prop} (h1 : Zaps T M D m P E s1 s2)
    (h2 : Zaps T M D m P' E' s2 s3) (hQ : ∀ v, Q v ↔ P v ∨ P' v) (hE : ∀ i, E i → F i)
    (hE' : ∀ i, E' i → F i) : Zaps T M D m Q F s1 s3 where
  wf := h2.wf
  rmap hr := h2.rmap (h1.rmap hr)
  other m' hm' hne v hv := (h2.other m' hm' hne v hv).trans (h1.other m' hm' hne v hv)
  own v hv := by
    have hgone : s2.pte (D m) v = Pte.zero ∧
        (P v ∨ E (v / ptrsPerPte) ∧ (s1.pte (D m) v).present = false) →
        Q v ∨ F (v / ptrsPerPte) ∧ (s1.pte (D m) v).present = false := by
      rintro ⟨-, hP | ⟨hEv, hpr⟩⟩
      · exact .inl ((hQ v).mpr (.inl hP))
      · exact .inr ⟨hE _ hEv, hpr⟩
    rcases h2.own v hv with heq | ⟨hz, hwhy⟩
    · rcases h1.own v hv with heq1 | hz1
      · exact .inl (heq.trans heq1)
      · exact .inr ⟨heq.trans hz1.1, hgone hz1⟩
    · rcases hwhy with hP' | ⟨hEv, hpr⟩
      · exact .inr ⟨hz, Or.inl ((hQ v).mpr (.inr hP'))⟩
      · rcases h1.own v hv with heq1 | hz1
        · exact .inr ⟨hz, Or.inr ⟨hE' _ hEv, heq1 ▸ hpr⟩⟩
        · exact .inr ⟨hz, hgone hz1⟩
  gone v hv hq := by
    rcases h2.own v hv with heq | ⟨hz, -⟩
    · rcases (hQ v).mp hq with hP | hP'
      · rw [heq]
        exact h1.gone v hv hP
      · exact h2.gone v hv hP'
    · rw [hz]
      exact ⟨rfl, rfl⟩
  data := h2.data.trans h1.data
  fixed := h1.fixed.trans h2.fixed

end Zaps

/-! ## One page -/

/-- A swap entry lies in a table. -/
lemma dir_present_of_decode (hd : swapPteDecode (s.pte d v) = some i) :
    (s.dir d (v / ptrsPerPte)).present = true := by
  unfold pte at hd
  split at hd
  · assumption
  · cases hd

/-- An entry without a frame may be replaced by another one without a frame. -/
lemma Wf.clearEntry (h : Wf T s M D) (hm : m ∈ M) (hv : v < userPages)
    (hp : (s.dir (D m) (v / ptrsPerPte)).present = true) (hpr : (s.pte (D m) v).present = false)
    (he : e.present = false) : Wf T (s.setPte (D m) v e) M D := by
  have hno : e.frame = none := by simp [Pte.frame, he]
  have hno' : (s.pte (D m) v).frame = none := by simp [Pte.frame, hpr]
  refine ⟨h.toSpace.setPte hm hv hp fun hc => ?_, fun f hf => ?_⟩
  · rw [he] at hc
    cases hc
  · have hrefs := h.toSpace.refsTo_setPte (e := e) hm hv hp f
    rw [hno, hno', add_right_cancel_iff] at hrefs
    rw [hrefs] at hf ⊢
    rw [page_setPte]
    exact h.counted f hf

lemma sameTables_swapFreeSlot (s : Vm) (i : Nat) : SameTables s (s.swapFreeSlot i) := by
  unfold swapFreeSlot
  split
  · exact SameTables.refl s
  · exact ⟨rfl, rfl, rfl, rfl, fun _ => rfl⟩

lemma page_swapFreeSlot (s : Vm) (i : Nat) : (s.swapFreeSlot i).page = s.page := by
  unfold swapFreeSlot
  split <;> rfl

lemma data_swapFreeSlot (s : Vm) (i : Nat) : (s.swapFreeSlot i).data = s.data := by
  unfold swapFreeSlot
  split <;> rfl

lemma fixed_swapFreeSlot (s : Vm) (i : Nat) : Fixed s (s.swapFreeSlot i) := by
  unfold swapFreeSlot
  split <;> exact ⟨rfl, rfl, rfl, rfl, rfl, rfl, le_refl _⟩

/-- One entry of one address space is cleared. -/
lemma Zaps.of_pte (hwf : Wf T s' M D) (hm : m ∈ M)
    (hpte : ∀ m' ∈ M, ∀ v', v' < userPages → s'.pte (D m') v' =
      if m' = m ∧ v' = v then Pte.zero else s.pte (D m') v')
    (hrmap : RmapInv s M D → RmapInv s' M D) (hdata : s'.data = s.data) (hfixed : Fixed s s')
    (E : Nat → Prop) : Zaps T M D m (· = v) E s s' where
  wf := hwf
  rmap := hrmap
  other m' hm' hne v' hv' := by rw [hpte m' hm' v' hv', if_neg fun hc => hne hc.1]
  own v' hv' := by
    rw [hpte m hm v' hv']
    by_cases hvv : v' = v
    · exact .inr ⟨if_pos ⟨rfl, hvv⟩, Or.inl hvv⟩
    · exact .inl (if_neg fun hc => hvv hc.2)
  gone v' hv' hvv := by
    rw [hpte m hm v' hv', if_pos ⟨rfl, hvv⟩]
    exact ⟨rfl, rfl⟩
  data := hdata
  fixed := hfixed

/-- A page that is swapped out: its entry is cleared and its slot is given back. -/
lemma Wf.zaps_swapEntry (h : Wf T s M D) (hm : m ∈ M) (hv : v < userPages)
    (hd : swapPteDecode (s.pte (D m) v) = some i) (hpr : (s.pte (D m) v).present = false)
    (E : Nat → Prop) : Zaps T M D m (· = v) E s ((s.setPte (D m) v Pte.zero).swapFreeSlot i) := by
  have hp := dir_present_of_decode hd
  have hpte : ∀ m' ∈ M, ∀ v', v' < userPages →
      ((s.setPte (D m) v Pte.zero).swapFreeSlot i).pte (D m') v' =
        if m' = m ∧ v' = v then Pte.zero else s.pte (D m') v' := fun m' hm' v' hv' => by
    rw [(sameTables_swapFreeSlot _ i).pte, h.toSpace.pte_setPte hm hv hp hm' hv']
  refine .of_pte ((h.clearEntry hm hv hp hpr rfl).of_same (sameTables_swapFreeSlot _ i)) hm hpte
    (fun hr => hr.congr (fun m' hm' v' hv' => ?_) fun f l hl => ?_) ?_
    ((quiet_setPte ..).fixed.trans (fixed_swapFreeSlot ..)) E
  · rw [hpte m' hm' v' hv']
    split
    · next heq =>
      rw [heq.1, heq.2, Pte.frame_zero]
      simp [Pte.frame, hpr]
    · rfl
  · rw [page_swapFreeSlot, page_setPte]
    exact hl
  · rw [data_swapFreeSlot, (quiet_setPte ..).data]

/-- A present page: its entry is cleared, and its frame loses a place and a reference. -/
lemma Wf.zaps_dropPage (h : Wf T s M D) (hm : m ∈ M) (hv : v < userPages)
    (hf : (s.pte (D m) v).frame = some f) (E : Nat → Prop) :
    Zaps T M D m (· = v) E s (s.dropPage (D m) m v (v * pageSize) f Pte.zero) :=
  .of_pte (h.dropPage hm hv hf rfl) hm (fun _ hm' _ hv' => h.toSpace.pte_dropPage hm hv hf hm' hv')
    (fun hr => hr.dropPage h.toSpace hm hv hf rfl) (quiet_dropPage ..).data
    (quiet_dropPage ..).fixed E

/-- The kernel half has no user pages and no swap entries, so that nothing of it is zapped. -/
lemma Space.pte_kernelHalf (h : Space s M D) (hm : m ∈ M) (hv : userPages ≤ v)
    (hlt : v < ptrsPerPte * ptrsPerPte) :
    (s.pte (D m) v).user = false ∧ swapPteDecode (s.pte (D m) v) = none := by
  have hi : userPdes ≤ v / ptrsPerPte := by
    unfold userPages at hv
    unfold userPdes ptrsPerPte
    omega
  have hi' : v / ptrsPerPte < ptrsPerPte := by
    unfold ptrsPerPte at hlt ⊢
    omega
  unfold pte
  split
  · next hp =>
    have hk := h.kernelHalf m hm _ hi hi' hp
    rw [← hk.2]
    exact h.kernelPte _ hi hi' hk.1 _
  · exact ⟨rfl, rfl⟩

/-- `task_free_user_page_mapped`, for user pages and for addresses of the kernel half alike. -/
lemma Wf.taskFreeUserPageMapped (h : Wf T s M D) (hm : m ∈ M)
    (hlt : v < ptrsPerPte * ptrsPerPte) (E : Nat → Prop) :
    Zaps T M D m (· = v) E s (s.taskFreeUserPageMapped m (D m) v) := by
  have hstay : swapPteDecode (s.pte (D m) v) = none → (v < userPages →
      (s.pte (D m) v).present = false) → Zaps T M D m (· = v) E s s := by
    intro hd hpr
    apply Zaps.refl h
    rintro v' hv' rfl
    exact ⟨hpr hv', hd⟩
  unfold Vm.taskFreeUserPageMapped
  by_cases hpr : (s.pte (D m) v).present = true
  · have hpr' : ¬ ¬ (s.pte (D m) v).present = true := not_not_intro hpr
    simp only [if_neg hpr']
    by_cases hv : v < userPages
    · have hu := h.userBit m hm v hv hpr
      have hu' : ¬ ¬ (s.pte (D m) v).user = true := not_not_intro hu
      rw [if_neg hu']
      exact h.zaps_dropPage hm hv (Pte.frame_eq_some.mpr ⟨hpr, rfl⟩) E
    · have hk := h.toSpace.pte_kernelHalf hm (not_lt.mp hv) hlt
      have hu : ¬ (s.pte (D m) v).user = true := by
        rw [hk.1]
        exact Bool.false_ne_true
      rw [if_pos hu]
      exact hstay hk.2 fun hc => absurd hc hv
  · simp only [if_pos hpr]
    have hpf : (s.pte (D m) v).present = false := by rwa [Bool.not_eq_true] at hpr
    cases hd : swapPteDecode (s.pte (D m) v) with
    | none => exact hstay hd fun _ => hpf
    | some i =>
      by_cases hv : v < userPages
      · exact h.zaps_swapEntry hm hv hd hpf E
      · have hk := h.toSpace.pte_kernelHalf hm (not_lt.mp hv) hlt
        rw [hk.2] at hd
        cases hd

/-! ## One table -/

lemma pteTableEmpty_iff {t : Nat → Pte} :
    pteTableEmpty t = true ↔ ∀ j, j < ptrsPerPte → (t j).present = false := by
  unfold pteTableEmpty
  simp only [all_eq_true, mem_range, Bool.not_eq_true']

/-- The tables that are shared with the kernel are those of the upper half of a directory. -/
lemma Space.isKernelPde_eq (h : Space s M D) (hm : m ∈ M) (hi : i < ptrsPerPte)
    (hp : (s.dir (D m) i).present = true) : s.isKernelPde (D m) i = decide (userPdes ≤ i) := by
  by_cases hu : userPdes ≤ i
  · have hk := h.kernelHalf m hm i hu hi hp
    have h0 := (h.used (.kernelTable i) _ ((held_kernelTable hu hi).trans
      (Pte.frame_eq_some.mpr ⟨hk.1, rfl⟩))).2
    simp [isKernelPde, hk.1, hk.2, hk.2 ▸ h0, hu]
  · simp [isKernelPde, h.kernelUser i (not_le.mp hu), hu]

lemma pte_of_table {j : Nat} (hp : (s.dir d i).present = true) (hj : j < ptrsPerPte) :
    s.pte d (i * ptrsPerPte + j) = s.table (s.dir d i).pfn j := by
  have hdiv : (i * ptrsPerPte + j) / ptrsPerPte = i := by
    unfold ptrsPerPte at hj ⊢
    omega
  have hmod : (i * ptrsPerPte + j) % ptrsPerPte = j := by
    unfold ptrsPerPte at hj ⊢
    omega
  unfold pte
  rw [hdiv, hmod, if_pos hp]

/-- The entries of a user table are the pages of the address space that it serves. -/
lemma forall_table_iff {P : Pte → Prop} (hp : (s.dir d i).present = true) (hi : i < userPdes) :
    (∀ j, j < ptrsPerPte → P (s.table (s.dir d i).pfn j)) ↔
      ∀ v, v < userPages → v / ptrsPerPte = i → P (s.pte d v) := by
  constructor
  · rintro hall v - rfl
    unfold pte
    rw [if_pos hp]
    exact hall _ (Nat.mod_lt _ (by decide))
  · intro hall j hj
    rw [← pte_of_table hp hj]
    refine hall _ ?_ ?_
    · unfold userPages
      unfold ptrsPerPte userPdes at *
      omega
    · unfold ptrsPerPte at *
      omega

/-- No page of the table `i` is present. -/
def TableEmpty (s : Vm) (d i : Nat) : Prop :=
  ∀ v, v < userPages → v / ptrsPerPte = i → (s.pte d v).present = false

lemma pteTableEmpty_table (hp : (s.dir d i).present = true) (hi : i < userPdes) :
    pteTableEmpty (s.table (s.dir d i).pfn) = true ↔ s.TableEmpty d i :=
  pteTableEmpty_iff.trans (forall_table_iff (P := (·.present = false)) hp hi)

/-- A table without present pages may be given back, and what it held of swap entries is gone. -/
lemma Wf.freeEmptyTable (h : Wf T s M D) (hm : m ∈ M) (hi : i < ptrsPerPte) :
    Zaps T M D m (fun _ => False) (fun j => j = i ∧ s.TableEmpty (D m) i) s
      (s.freeEmptyTable (D m) i) := by
  have hstay : Zaps T M D m (fun _ => False) (fun j => j = i ∧ s.TableEmpty (D m) i) s s :=
    Zaps.refl h fun _ _ hc => hc.elim
  unfold Vm.freeEmptyTable
  by_cases hp : (s.dir (D m) i).present = true
  · rw [if_neg (not_not_intro hp), h.toSpace.isKernelPde_eq hm hi hp]
    by_cases hu : userPdes ≤ i
    · rw [if_pos (decide_eq_true hu)]
      exact hstay
    have hlt := not_le.mp hu
    rw [if_neg (by simpa using hlt)]
    by_cases hempty : pteTableEmpty (s.table (s.dir (D m) i).pfn) = true
    · rw [if_neg (not_not_intro hempty)]
      have hnone := (pteTableEmpty_table hp hlt).mp hempty
      set t := (s.setDirEntry (D m) i Pte.zero).freePage (s.dir (D m) i).pfn
      have hpte : ∀ m' ∈ M, ∀ v, t.pte (D m') v =
          if m' = m ∧ v / ptrsPerPte = i then Pte.zero else s.pte (D m') v := fun m' hm' v => by
        rw [pte_freePage, h.toSpace.pte_removeTable hm hm']
      have hfr : ∀ m' ∈ M, ∀ v, v < userPages → (t.pte (D m') v).frame =
          (s.pte (D m') v).frame := fun m' hm' v hv => by
        rw [hpte m' hm' v]
        split
        · next heq =>
          have hno := hnone v hv heq.2
          rw [heq.1, Pte.frame_zero]
          simp [Pte.frame, hno]
        · rfl
      have hrefs : ∀ f, t.refsTo M D f = s.refsTo M D f := fun f => by
        apply refs_congr
        intro k hk
        have hmv := mem_pageKeys.mp hk
        rw [mapped_of_mem hmv.1 hmv.2, mapped_of_mem hmv.1 hmv.2, hfr k.1 hmv.1 k.2 hmv.2]
      have hun := h.toSpace.not_held_removeTable hm hlt hp
      have hsp := (h.toSpace.removeTable hm hlt).freePage (f := (s.dir (D m) i).pfn) fun _ => hun
      have hne : ∀ f, s.refsTo M D f ≠ 0 → f ≠ (s.dir (D m) i).pfn := by
        rintro f hf rfl
        rcases refsTo_pos_iff.mp (pos_of_ne_zero hf) with ⟨m', hm', v, hv, hfv⟩
        cases h.eq_table hm hlt (Pte.frame_eq_some.mpr ⟨hp, rfl⟩) ((held_page hm' hv).trans hfv)
      refine ⟨⟨hsp, fun f hf => ?_⟩, fun hr => hr.congr hfr fun f l hl => ?_,
        fun m' hm' hmm v hv => ?_, fun v hv => ?_, fun _ _ hc => hc.elim, ?_, ?_⟩
      · rw [hrefs] at hf ⊢
        rw [refcount_freePage, if_neg (hne f hf)]
        exact h.counted f hf
      · exact (rmaps_freePage _ _ f l).mpr hl
      · rw [hpte m' hm' v, if_neg fun hc => hmm hc.1]
      · rw [hpte m hm v]
        by_cases hvi : v / ptrsPerPte = i
        · exact .inr ⟨if_pos ⟨rfl, hvi⟩, Or.inr ⟨⟨hvi, hnone⟩, hnone v hv hvi⟩⟩
        · exact .inl (if_neg fun hc => hvi hc.2)
      · exact (quiet_freePage ..).data
      · exact ((quiet_setDirEntry ..).trans (quiet_freePage ..)).fixed
    · rw [if_pos hempty]
      exact hstay
  · rw [if_pos hp]
    exact hstay

/-! ## The loop -/

/--
The tables that the loop over `vs` can give back: no page but the first one
visited is present.
-/
def Emptied (s : Vm) (d : Nat) (vs : List Nat) (i : Nat) : Prop :=
  ∃ w, vs.find? (fun v => v / ptrsPerPte = i) = some w ∧
    ∀ v, v < userPages → v / ptrsPerPte = i → (s.pte d v).present = true → v = w

/-- The loop of `zap_page_range`, by induction on its pages; `last` is the table looked at last. -/
lemma Wf.zapPages {vs : List Nat} (h : Wf T s M D) (hm : m ∈ M)
    (hlt : ∀ v ∈ vs, v < ptrsPerPte * ptrsPerPte) (hsorted : vs.Pairwise (· < ·))
    {last : Option Nat} (hlast : ∀ i ∈ last, ∀ v ∈ vs, i ≤ v / ptrsPerPte) :
    Zaps T M D m (· ∈ vs) (fun i => last ≠ some i ∧ s.Emptied (D m) vs i) s
      (zapPages m (D m) vs last s) := by
  induction vs generalizing s last with
  | nil => exact Zaps.refl h fun _ _ hc => absurd hc not_mem_nil
  | cons v vs ih =>
    have hv := hlt v mem_cons_self
    have hlast' : ∀ i ∈ some (v / ptrsPerPte), ∀ x ∈ vs, i ≤ x / ptrsPerPte := by
      rintro _ ⟨⟩ x hx
      exact Nat.div_le_div_right (rel_of_pairwise_cons hsorted hx).le
    obtain ⟨t, heq, h1⟩ : ∃ t, zapPages m (D m) (v :: vs) last s =
        zapPages m (D m) vs (some (v / ptrsPerPte)) t ∧ Zaps T M D m (· = v) (fun i =>
          i = v / ptrsPerPte ∧ last ≠ some i ∧ s.Emptied (D m) (v :: vs) i) s t := by
      rw [zapPages]
      by_cases hsame : last = some (v / ptrsPerPte)
      · -- the table of this page has been looked at already
        rw [if_pos hsame, hsame]
        exact ⟨_, rfl, h.taskFreeUserPageMapped hm hv _⟩
      · rw [if_neg hsame]
        have h1 := h.taskFreeUserPageMapped hm hv fun _ => False
        have h2 := h1.wf.freeEmptyTable hm (Nat.div_lt_of_lt_mul hv)
        refine ⟨_, rfl, h1.trans h2 (fun x => (or_false _).symm.to_iff) (fun _ hc => hc.elim) ?_⟩
        rintro i ⟨rfl, hempty⟩
        refine ⟨rfl, hsame, v, List.find?_cons_of_pos (by simp), fun x hx hxi hxp => ?_⟩
        by_contra hne
        have hno := hempty x hx hxi
        rw [h1.keeps hx hne not_false, hxp] at hno
        cases hno
    have h2 := ih h1.wf (forall_mem_cons.mp hlt).2 hsorted.of_cons hlast'
    rw [heq]
    refine h1.trans h2 (fun x => mem_cons) (fun _ hc => hc.2) ?_
    rintro i ⟨hi, w, hw, hpr⟩
    have hne : v / ptrsPerPte ≠ i := fun e => hi (congrArg some e)
    have hwi : w / ptrsPerPte = i := by simpa using List.find?_some hw
    refine ⟨fun hl => ?_, w, ?_, fun x hx hxi hxp => hpr x hx hxi ?_⟩
    · have hle := hlast i hl v mem_cons_self
      have hge := hlast' _ rfl w (mem_of_find?_eq_some hw)
      exact hne (le_antisymm (hwi ▸ hge) hle)
    · rw [List.find?_cons_of_neg (by simpa using hne)]
      exact hw
    · have hxv : x ≠ v := fun e => hne (e ▸ hxi)
      rwa [h1.keeps hx hxv fun hc => hne (hc.1.symm.trans hxi)]

/-! ## Ranges of pages -/

lemma mem_pagesIn :
    v ∈ pagesIn start stop ↔ start / pageSize ≤ v ∧ v < alignUp stop / pageSize := by
  unfold pagesIn
  rw [mem_range'_1]
  omega

/-- The end of a range is rounded up in 32 bits, so its pages are pages of the machine. -/
lemma lt_of_mem_pagesIn (hv : v ∈ pagesIn start stop) : v < ptrsPerPte * ptrsPerPte := by
  have hlt := (mem_pagesIn.mp hv).2
  have hup := alignUp_lt stop
  unfold pageSize at hlt
  unfold ptrsPerPte
  omega

lemma pairwise_pagesIn (start stop : Nat) : (pagesIn start stop).Pairwise (· < ·) :=
  pairwise_lt_range'

lemma Wf.zapPageRange (h : Wf T s M D) (hm : m ∈ M) (start stop : Nat) :
    Zaps T M D m (· ∈ pagesIn start stop) (s.Emptied (D m) (pagesIn start stop)) s
      (s.zapPageRange m (D m) start stop) := by
  have hlast : ∀ i ∈ (none : Option Nat), ∀ v ∈ pagesIn start stop, i ≤ v / ptrsPerPte := nofun
  have hz := h.zapPages hm (fun v hv => lt_of_mem_pagesIn hv) (pairwise_pagesIn start stop) hlast
  refine hz.trans (Zaps.refl (P := fun _ => False) (E := fun _ => False) hz.wf fun _ _ hc => hc.elim)
    (fun v => (or_false _).symm.to_iff) (fun i hi => hi.2) fun _ hc => hc.elim

end Vm

end LiteKernel.Mm
