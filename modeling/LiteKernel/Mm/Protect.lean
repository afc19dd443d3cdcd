import LiteKernel.Mm.Unmap

/-!
# Protection changes and new address spaces

What `update_mapped_page_flags` and a new page directory do to the entries of the
address spaces.

Main results:

- Lemma `Wf.protectPages`: the present pages of a range get other bits.
- Lemma `Wf.cloneDir`: a new directory has the tables of the kernel only.
-/

namespace LiteKernel.Mm

open Function Lib List

namespace Vm

variable {T : Tally} {s s' : Vm} {M : Finset Nat} {D : Nat → Nat} {m v f : Nat} {e : Pte}

/-! ## Other bits -/

/-- The present pages `P` of `m` get other bits. -/
structure Reflags (T : Tally) (M : Finset Nat) (D : Nat → Nat) (m : Nat) (P : Nat → Prop)
    (g : PteFlags → PteFlags) (s s' : Vm) : Prop where
  wf : Wf T s' M D
  other : ∀ m' ∈ M, m' ≠ m → ∀ v, v < userPages → s'.pte (D m') v = s.pte (D m') v
  changed : ∀ v, v < userPages → P v → (s.pte (D m) v).present = true →
    s'.pte (D m) v = { g (s.pte (D m) v).toPteFlags with pfn := (s.pte (D m) v).pfn }
  kept : ∀ v, v < userPages → ¬ (P v ∧ (s.pte (D m) v).present = true) →
    s'.pte (D m) v = s.pte (D m) v
  dir : ∀ d i, (s'.dir d i).present = (s.dir d i).present
  page : s'.page = s.page
  free : s'.free = s.free
  quiet : Quiet s s'

namespace Reflags

variable {P P' Q : Nat → Prop} {g g' : PteFlags → PteFlags}

lemma refl (h : Wf T s M D) (hP : ∀ v, v < userPages → P v → (s.pte (D m) v).present = false) :
    Reflags T M D m P g s s where
  wf := h
  other _ _ _ _ _ := rfl
  changed v hv hp hpr := by
    rw [hP v hv hp] at hpr
    cases hpr
  kept _ _ _ := rfl
  dir _ _ := rfl
  page := rfl
  free := rfl
  quiet := Quiet.refl s

/-- Two changes of disjoint sets of pages by the same rule are one change of their union. -/
lemma trans {s1 s2 s3 : Vm} (h1 : Reflags T M D m P g s1 s2) (h2 : Reflags T M D m P' g s2 s3)
    (hQ : ∀ v, Q v ↔ P v ∨ P' v) (hdisj : ∀ v, P v → ¬ P' v) :
    Reflags T M D m Q g s1 s3 where
  wf := h2.wf
  other m' hm' hne v hv := (h2.other m' hm' hne v hv).trans (h1.other m' hm' hne v hv)
  changed v hv hq hpr := by
    by_cases hp : P v
    · rw [h2.kept v hv fun hc => hdisj v hp hc.1]
      exact h1.changed v hv hp hpr
    · have heq := h1.kept v hv fun hc => hp hc.1
      rw [h2.changed v hv (((hQ v).mp hq).resolve_left hp) (heq ▸ hpr), heq]
  kept v hv hq := by
    have heq := h1.kept v hv fun hc => hq ⟨(hQ v).mpr (.inl hc.1), hc.2⟩
    rw [h2.kept v hv fun hc => hq ⟨(hQ v).mpr (.inr hc.1), heq ▸ hc.2⟩, heq]
  dir d i := (h2.dir d i).trans (h1.dir d i)
  page := h2.page.trans h1.page
  free := h2.free.trans h1.free
  quiet := h1.quiet.trans h2.quiet

end Reflags

/-- For a present user page `set_pte_flags` marks the directory entry and keeps the frame. -/
lemma setPteFlags_eq {d : Nat} (hpr : (s.pte d v).present = true) {fl : PteFlags}
    (hu : fl.user = true) :
    s.setPteFlags d (v * pageSize) fl =
      (s.setPdeUser d v).setPte d v { fl with pfn := (s.pte d v).pfn } := by
  unfold setPteFlags
  rw [mul_div_pageSize]
  simp only [if_pos (dir_present_of_pte hpr), if_pos hu, pte_setPdeUser, if_pos hpr]

/-- `set_pte_flags` gives one page the bits `fl`; no other page of any address space changes. -/
lemma Wf.setPteFlags (h : Wf T s M D) (hm : m ∈ M) (hv : v < userPages)
    (hpr : (s.pte (D m) v).present = true) {fl : PteFlags} (hp : fl.present = true)
    (hu : fl.user = true) :
    Reflags T M D m (· = v) (fun _ => fl) s (s.setPteFlags (D m) (v * pageSize) fl) := by
  have hset := h.setPdeUser (D m) v
  have hpte : ∀ d x, (s.setPdeUser (D m) v).pte d x = s.pte d x := fun d x => pte_setPdeUser ..
  have heq := setPteFlags_eq hpr hu
  have hdir : ∀ d i, ((s.setPdeUser (D m) v).dir d i).present = (s.dir d i).present := by
    intro d i
    rw [Vm.setPdeUser, dir_setDirEntry]
    split
    · next hc => rw [hc.1, hc.2]
    · rfl
  have hpr' : ((s.setPdeUser (D m) v).pte (D m) v).present = true := by
    rw [hpte]
    exact hpr
  have hdp' := dir_present_of_pte hpr'
  have hget : ∀ m' ∈ M, ∀ v', v' < userPages →
      (s.setPteFlags (D m) (v * pageSize) fl).pte (D m') v' =
        if m' = m ∧ v' = v then { fl with pfn := (s.pte (D m) v).pfn } else s.pte (D m') v' := by
    intro m' hm' v' hv'
    rw [heq, hset.wf.toSpace.pte_setPte hm hv hdp' hm' hv', hpte]
  refine ⟨?_, fun m' hm' hne v' hv' => ?_, fun v' hv' hvv _ => ?_, fun v' hv' hc => ?_,
    fun d i => ?_, ?_, ?_, ?_⟩
  · rw [heq]
    apply hset.wf.setFlags hm hv hpr' hp hu
    rw [hpte]
  · rw [hget m' hm' v' hv', if_neg fun hc => hne hc.1]
  · rw [hget m hm v' hv', if_pos ⟨rfl, hvv⟩, hvv]
  · rw [hget m hm v' hv', if_neg]
    rintro ⟨-, rfl⟩
    exact hc ⟨rfl, hpr⟩
  · rw [heq, dir_setPte, hdir]
  · rw [heq, page_setPte]
    rfl
  · rw [heq, free_setPte]
    rfl
  · rw [heq]
    exact (quiet_setDirEntry ..).trans (quiet_setPte ..)

/-- Other bits do not change which frame is used for what. -/
lemma Wf.held_setPteFlags (h : Wf T s M D) (hm : m ∈ M) (hv : v < userPages)
    (hpr : (s.pte (D m) v).present = true) {fl : PteFlags} (hp : fl.present = true)
    (hu : fl.user = true) :
    (s.setPteFlags (D m) (v * pageSize) fl).held M D = s.held M D := by
  have hset := h.setPdeUser (D m) v
  have hdp' : ((s.setPdeUser (D m) v).dir (D m) (v / ptrsPerPte)).present = true := by
    rw [(dir_setPdeUser ..).1]
    exact dir_present_of_pte hpr
  rw [setPteFlags_eq hpr hu, hset.wf.toSpace.held_setPte hm hv hdp', held_setPdeUser]
  refine update_eq_self_iff.mpr ?_
  rw [held_page hm hv]
  simp [Pte.frame, hp, hpr]

/-- Only the bits of the pages that change matter. -/
lemma Reflags.congr {P : Nat → Prop} {g g' : PteFlags → PteFlags}
    (h : Reflags T M D m P g s s')
    (hg : ∀ v, v < userPages → P v → (s.pte (D m) v).present = true →
      g' (s.pte (D m) v).toPteFlags = g (s.pte (D m) v).toPteFlags) :
    Reflags T M D m P g' s s' :=
  { h with
    changed := fun v hv hp hpr => by
      rw [h.changed v hv hp hpr, hg v hv hp hpr] }

/-! ## Protection changes -/

/-- One round of `update_mapped_page_flags`; a page that is not present is passed over. -/
lemma Wf.protectPage (h : Wf T s M D) (hm : m ∈ M) (hv : v < userPages) (write : Bool) :
    Reflags T M D m (· = v) (protectFlags write) s (protectPage write (D m) s v) := by
  unfold Vm.protectPage getPteFlags
  rw [mul_div_pageSize]
  by_cases hpr : (s.pte (D m) v).present = true
  · simp only [if_pos hpr, if_neg (not_not_intro hpr)]
    refine (h.setPteFlags hm hv hpr rfl rfl).congr ?_
    rintro v' hv' rfl _
    rfl
  · have hz : ¬ Pte.zero.present = true := Bool.false_ne_true
    simp only [if_neg hpr, if_pos hz]
    apply Reflags.refl h
    rintro v' hv' rfl
    rwa [Bool.not_eq_true] at hpr

/-- The loop of `update_mapped_page_flags`, by induction on the pages it visits. -/
lemma Wf.protectPages (h : Wf T s M D) (hm : m ∈ M) {vs : List Nat}
    (hlt : ∀ v ∈ vs, v < userPages) (hnd : vs.Nodup) (write : Bool) :
    Reflags T M D m (· ∈ vs) (protectFlags write) s (vs.foldl (Vm.protectPage write (D m)) s) := by
  induction vs generalizing s with
  | nil => exact Reflags.refl h fun _ _ hc => absurd hc not_mem_nil
  | cons v vs ih =>
    have h1 := h.protectPage hm (hlt v mem_cons_self) write
    have h2 := ih h1.wf (forall_mem_cons.mp hlt).2 (nodup_cons.mp hnd).2
    refine h1.trans h2 (fun x => mem_cons) ?_
    rintro x rfl
    exact (nodup_cons.mp hnd).1

/-! ## The new address space -/

section

variable {d : Nat}

/-- A new directory has no user tables, so it adds no reference to a user frame. -/
lemma refsTo_cloneDir (h : Space s M D) (hm : m ∉ M) (hd : Unheld s M D d) (f : Nat) :
    (s.cloneDir d).refsTo (insert m M) (update D m d) f = s.refsTo M D f := by
  have hsub : pageKeys M ⊆ pageKeys (insert m M) := by
    intro k hk
    have hmv := mem_pageKeys.mp hk
    exact mem_pageKeys.mpr ⟨Finset.mem_insert_of_mem hmv.1, hmv.2⟩
  have hheld : ∀ k : Nat × Nat, (s.cloneDir d).mapped (insert m M) (update D m d) k =
      s.mapped M D k := by
    intro k
    have hne : Use.page k.1 k.2 ≠ .dir m := Use.noConfusion
    unfold mapped
    rw [h.held_cloneDir hm hd, update_of_ne hne]
  unfold refsTo
  rw [refs_of_subset hsub]
  · apply refs_congr
    intro k _
    rw [hheld]
  · intro k hk hnot hf
    rw [hheld] at hf
    have hkm : k.1 ∉ M := fun hkm => hnot (mem_pageKeys.mpr ⟨hkm, (mem_pageKeys.mp hk).2⟩)
    simp only [mapped, held, hkm, false_and, if_false] at hf
    cases hf

/-- The address space that `pgd_clone_kernel` makes joins the others. -/
lemma Wf.cloneDir (h : Wf T s M D) (hm : m ∉ M) (hd : Fresh s M D d) :
    Wf T (s.cloneDir d) (insert m M) (update D m d) where
  toSpace := h.toSpace.cloneDir hm hd.unheld hd.free hd.ne_zero
  counted f hf := by
    rw [refsTo_cloneDir h.toSpace hm hd.unheld] at hf ⊢
    exact h.counted f hf

end

end Vm

end LiteKernel.Mm
