import LiteKernel.Mm.Space

/-!
# References to user frames

The reference counter of a frame stands in a fixed relation to the number of
user pages that map it. `Wf` adds this to the invariant `Space`. The
relation is a parameter: some paths of the kernel leave references behind, so
that in general a counter is only known not to be too small.

Main results:

- Lemma `Wf.replace`: a page gets another frame.
- Lemma `Space.freePage`: a reference is dropped.
-/

namespace LiteKernel.Mm

open Function Lib

namespace Vm

/-- The frame mapped by a page of an address space. -/
def mapped (s : Vm) (M : Finset Nat) (D : Nat → Nat) (k : Nat × Nat) : Option Nat :=
  s.held M D (.page k.1 k.2)

/-- The user pages of a set of address spaces. -/
def pageKeys (M : Finset Nat) : Finset (Nat × Nat) :=
  M ×ˢ Finset.range userPages

lemma mem_pageKeys {M : Finset Nat} {m v : Nat} :
    (m, v) ∈ pageKeys M ↔ m ∈ M ∧ v < userPages := by
  simp [pageKeys]

/-- The number of user pages that map a frame. -/
def refsTo (s : Vm) (M : Finset Nat) (D : Nat → Nat) (f : Nat) : Nat :=
  refs (pageKeys M) (s.mapped M D) f

/-- The page tables are separate, and the reference counters match the mappings. -/
structure Wf (T : Tally) (s : Vm) (M : Finset Nat) (D : Nat → Nat) : Prop
    extends Space s M D where
  counted : ∀ f, s.refsTo M D f ≠ 0 → T.rel (s.page f).refcount (s.refsTo M D f)

/-- No use has the frame. -/
def Unheld (s : Vm) (M : Finset Nat) (D : Nat → Nat) (f : Nat) : Prop :=
  ∀ u, s.held M D u ≠ some f

/-- The tables, the free frames and the reference counters are the same. -/
structure SameTables (s s' : Vm) : Prop where
  dir : s'.dir = s.dir
  table : s'.table = s.table
  free : s'.free = s.free
  kernelDir : s'.kernelDir = s.kernelDir
  refcount : ∀ f, (s'.page f).refcount = (s.page f).refcount

lemma SameTables.refl (s : Vm) : SameTables s s :=
  ⟨rfl, rfl, rfl, rfl, fun _ => rfl⟩

lemma SameTables.trans {s1 s2 s3 : Vm} (h1 : SameTables s1 s2) (h2 : SameTables s2 s3) :
    SameTables s1 s3 :=
  ⟨h2.dir.trans h1.dir, h2.table.trans h1.table, h2.free.trans h1.free,
    h2.kernelDir.trans h1.kernelDir, fun f => (h2.refcount f).trans (h1.refcount f)⟩

variable {T : Tally} {s s' : Vm} {M : Finset Nat} {D : Nat → Nat} {m v f : Nat} {e : Pte}

lemma SameTables.pte (h : SameTables s s') (d v : Nat) : s'.pte d v = s.pte d v := by
  simp only [Vm.pte, h.dir, h.table]

lemma SameTables.held (h : SameTables s s') : s'.held M D = s.held M D := by
  funext u
  cases u <;> simp only [Vm.held, h.pte, h.dir, h.kernelDir]

lemma SameTables.refsTo (h : SameTables s s') (f : Nat) : s'.refsTo M D f = s.refsTo M D f := by
  unfold Vm.refsTo Vm.mapped
  rw [h.held]

lemma mapped_of_mem (hm : m ∈ M) (hv : v < userPages) :
    s.mapped M D (m, v) = (s.pte (D m) v).frame :=
  held_page hm hv

lemma refsTo_pos_iff :
    0 < s.refsTo M D f ↔ ∃ m ∈ M, ∃ v, v < userPages ∧ (s.pte (D m) v).frame = some f := by
  unfold refsTo
  rw [refs_pos_iff]
  constructor
  · rintro ⟨⟨m, v⟩, hk, hf⟩
    have hmv := mem_pageKeys.mp hk
    exact ⟨m, hmv.1, v, hmv.2, (mapped_of_mem hmv.1 hmv.2).symm.trans hf⟩
  · rintro ⟨m, hm, v, hv, hf⟩
    exact ⟨(m, v), mem_pageKeys.mpr ⟨hm, hv⟩, (mapped_of_mem hm hv).trans hf⟩

lemma refsTo_eq_zero_of_unheld (h : Unheld s M D f) : s.refsTo M D f = 0 :=
  refs_eq_zero_iff.mpr fun k _ => h (.page k.1 k.2)

lemma refsTo_ne_zero (hm : m ∈ M) (hv : v < userPages) (hf : (s.pte (D m) v).frame = some f) :
    s.refsTo M D f ≠ 0 :=
  (refsTo_pos_iff.mpr ⟨m, hm, v, hv, hf⟩).ne'

lemma Space.unheld_of_free (h : Space s M D) (hf : s.free f = true) : Unheld s M D f := by
  intro u hu
  rw [(h.used u f hu).1] at hf
  cases hf

lemma Space.isPage_of_frame (h : Space s M D) (hm : m ∈ M) (hv : v < userPages)
    (hf : (s.pte (D m) v).frame = some f) (u : Use) (hu : s.held M D u = some f) : u.IsPage := by
  rcases h.exclusive _ _ f hu ((held_page hm hv).trans hf) with rfl | ⟨hp, -⟩
  · trivial
  · exact hp

lemma unheld_of_refsTo (hpage : ∀ u, s.held M D u = some f → u.IsPage)
    (h0 : s.refsTo M D f = 0) : Unheld s M D f := by
  intro u hu
  cases u with
  | page m v =>
    by_cases hmv : m ∈ M ∧ v < userPages
    · rw [held_page hmv.1 hmv.2] at hu
      exact refsTo_ne_zero hmv.1 hmv.2 hu h0
    · simp only [held, if_neg hmv] at hu
      cases hu
  | kernelDir => exact hpage _ hu
  | dir m => exact hpage _ hu
  | kernelTable i => exact hpage _ hu
  | table m i => exact hpage _ hu

lemma Wf.of_same (h : Wf T s M D) (hs : SameTables s s') : Wf T s' M D where
  toSpace := h.toSpace.congr (fun d i => by rw [hs.dir]; exact ⟨rfl, rfl⟩) hs.table hs.kernelDir
    fun u f hu => by
      rw [hs.free]
      exact (h.used u f hu).1
  counted f hf := by
    rw [hs.refsTo] at hf ⊢
    rw [hs.refcount]
    exact h.counted f hf

/-! ## Changing an entry -/

section

variable (h : Space s M D) (hm : m ∈ M) (hv : v < userPages)
variable (hp : (s.dir (D m) (v / ptrsPerPte)).present = true)
include h hm hv hp

lemma Space.mapped_setPte :
    (s.setPte (D m) v e).mapped M D = update (s.mapped M D) (m, v) e.frame := by
  funext k
  unfold mapped
  rw [h.held_setPte hm hv hp]
  by_cases hk : k = (m, v)
  · rw [hk, update_self, update_self]
  · have hne : Use.page k.1 k.2 ≠ .page m v := fun he =>
      hk (Prod.ext (Use.page.inj he).1 (Use.page.inj he).2)
    rw [update_of_ne hk, update_of_ne hne]

/-- How the number of references changes with one entry. -/
lemma Space.refsTo_setPte (f : Nat) :
    (s.setPte (D m) v e).refsTo M D f + (if (s.pte (D m) v).frame = some f then 1 else 0) =
      s.refsTo M D f + (if e.frame = some f then 1 else 0) := by
  unfold refsTo
  rw [h.mapped_setPte hm hv hp, ← mapped_of_mem hm hv]
  exact refs_update (mem_pageKeys.mpr ⟨hm, hv⟩) e.frame

end

@[simp]
lemma page_setPte (s : Vm) (d v : Nat) (e : Pte) : (s.setPte d v e).page = s.page := by
  unfold setPte
  split <;> rfl

lemma dir_present_of_pte {d : Nat} (hp : (s.pte d v).present = true) :
    (s.dir d (v / ptrsPerPte)).present = true := by
  unfold pte at hp
  split at hp
  · assumption
  · cases hp

lemma Wf.setFlags (h : Wf T s M D) (hm : m ∈ M) (hv : v < userPages)
    (hpr : (s.pte (D m) v).present = true) (he : e.present = true) (hu : e.user = true)
    (hpfn : e.pfn = (s.pte (D m) v).pfn) : Wf T (s.setPte (D m) v e) M D := by
  have hp := dir_present_of_pte hpr
  have hold : (s.pte (D m) v).frame = some e.pfn := Pte.frame_eq_some.mpr ⟨hpr, hpfn.symm⟩
  have hnew : e.frame = some e.pfn := Pte.frame_eq_some.mpr ⟨he, rfl⟩
  have hused := h.used (.page m v) e.pfn ((held_page hm hv).trans hold)
  refine ⟨h.toSpace.setPte hm hv hp fun _ => ⟨hu, hused.1, hused.2, h.isPage_of_frame hm hv hold⟩,
    fun f hf => ?_⟩
  have hrefs := h.toSpace.refsTo_setPte (e := e) hm hv hp f
  rw [hold, hnew, add_right_cancel_iff] at hrefs
  rw [hrefs] at hf ⊢
  rw [page_setPte]
  exact h.counted f hf

section

variable (s)

lemma refcount_freePage (f f' : Nat) :
    ((s.freePage f).page f').refcount =
      if f' = f then (s.page f).refcount - 1 else (s.page f').refcount := by
  unfold freePage
  split
  · by_cases hf : f' = f
    · simp [setPage, hf]
    · simp [setPage, hf]
  · by_cases hf : f' = f
    · have h0 : (s.page f).refcount - 1 = 0 := by omega
      simp [setPage, hf, h0]
    · simp [setPage, hf]

lemma free_freePage (f f' : Nat) :
    (s.freePage f).free f' =
      if f' = f ∧ (s.page f).refcount ≤ 1 then true else s.free f' := by
  unfold freePage
  by_cases hrc : (s.page f).refcount > 1
  · rw [if_pos hrc, if_neg fun hc => absurd hc.2 (not_le.mpr hrc)]
    rfl
  · rw [if_neg hrc]
    by_cases hf : f' = f
    · rw [if_pos ⟨hf, not_lt.mp hrc⟩]
      simp [hf]
    · rw [if_neg fun hc => hf hc.1]
      simp [hf]

@[simp]
lemma dir_freePage (f : Nat) : (s.freePage f).dir = s.dir := by
  unfold freePage
  split <;> rfl

@[simp]
lemma table_freePage (f : Nat) : (s.freePage f).table = s.table := by
  unfold freePage
  split <;> rfl

@[simp]
lemma kernelDir_freePage (f : Nat) : (s.freePage f).kernelDir = s.kernelDir := by
  unfold freePage
  split <;> rfl

@[simp]
lemma pte_freePage (f d v : Nat) : (s.freePage f).pte d v = s.pte d v := by
  simp only [pte, dir_freePage, table_freePage]

lemma held_freePage (f : Nat) : (s.freePage f).held M D = s.held M D := by
  funext u
  cases u <;> simp only [held, pte_freePage, dir_freePage, kernelDir_freePage]

lemma refsTo_freePage (f f' : Nat) : (s.freePage f).refsTo M D f' = s.refsTo M D f' := by
  unfold refsTo mapped
  rw [held_freePage]

end

/-- A reference may be dropped where it is not the last one of a frame in use. -/
lemma Space.freePage (h : Space s M D)
    (hf : (s.page f).refcount ≤ 1 → Unheld s M D f) : Space (s.freePage f) M D := by
  refine h.congr (fun d i => ?_) (table_freePage s f) (kernelDir_freePage s f) fun u f' hu => ?_
  · rw [dir_freePage]
    exact ⟨rfl, rfl⟩
  · rw [free_freePage, if_neg]
    · exact (h.used u f' hu).1
    · rintro ⟨rfl, hrc⟩
      exact hf hrc u hu

/--
The frame of a page is replaced by a frame without uses, or by none, and loses
its reference.
-/
lemma Wf.replace (h : Wf T s M D) (hm : m ∈ M) (hv : v < userPages)
    (hold : (s.pte (D m) v).frame = some f)
    (hnew : e.present = true → e.user = true ∧ s.free e.pfn = false ∧ e.pfn ≠ 0 ∧
      Unheld s M D e.pfn ∧ (s.page e.pfn).refcount = 1)
    (hs : SameTables (s.setPte (D m) v e) s') : Wf T (s'.freePage f) M D := by
  have hp := dir_present_of_pte (Pte.frame_eq_some.mp hold).1
  have hsp : Space (s.setPte (D m) v e) M D := h.toSpace.setPte hm hv hp fun he =>
    ⟨(hnew he).1, (hnew he).2.1, (hnew he).2.2.1, fun u hu => absurd hu ((hnew he).2.2.2.1 u)⟩
  have hsp' : Space s' M D := hsp.congr (fun d i => by rw [hs.dir]; exact ⟨rfl, rfl⟩) hs.table
    hs.kernelDir fun u f hu => by rw [hs.free]; exact (hsp.used u f hu).1
  have hrc : ∀ f, (s'.page f).refcount = (s.page f).refcount := fun f =>
    (hs.refcount f).trans (by rw [page_setPte])
  have hne : e.frame ≠ some f := fun he => by
    have hpe := Pte.frame_eq_some.mp he
    exact (hnew hpe.1).2.2.2.1 (.page m v) (((held_page hm hv).trans hold).trans (hpe.2 ▸ rfl))
  have hrefs : ∀ f', s'.refsTo M D f' + (if f' = f then 1 else 0) =
      s.refsTo M D f' + (if e.frame = some f' then 1 else 0) := by
    intro f'
    have hset := h.toSpace.refsTo_setPte (e := e) hm hv hp f'
    rw [hold] at hset
    rw [hs.refsTo]
    by_cases hff : f' = f
    · rw [if_pos (congrArg some hff.symm)] at hset
      rw [if_pos hff]
      exact hset
    · rw [if_neg fun hc => hff (Option.some.inj hc).symm] at hset
      rw [if_neg hff]
      exact hset
  have hrel := h.counted f (refsTo_ne_zero hm hv hold)
  have hfrefs : s'.refsTo M D f + 1 = s.refsTo M D f := by
    have hr := hrefs f
    rwa [if_pos rfl, if_neg hne, add_zero] at hr
  refine ⟨hsp'.freePage fun hle => ?_, fun f' hf' => ?_⟩
  · -- the last reference: no page maps the frame any more
    rw [hrc] at hle
    have h1 := (T.le _ _ hrel).trans hle
    refine unheld_of_refsTo (fun u hu => ?_) (by omega)
    rw [hs.held, h.toSpace.held_setPte hm hv hp] at hu
    by_cases huv : u = .page m v
    · exact huv ▸ trivial
    · rw [update_of_ne huv] at hu
      exact h.isPage_of_frame hm hv hold u hu
  · rw [refsTo_freePage] at hf' ⊢
    have hr := hrefs f'
    rw [refcount_freePage, hrc, hrc]
    by_cases hff : f' = f
    · subst hff
      rw [if_pos rfl]
      rw [← hfrefs] at hrel
      have hpos : 1 ≤ (s.page f').refcount := by
        have := T.le _ _ hrel
        omega
      rw [← Nat.sub_add_cancel hpos] at hrel
      exact (T.succ_iff _ _).mp hrel
    · rw [if_neg hff]
      rw [if_neg hff, add_zero] at hr
      rw [hr] at hf' ⊢
      by_cases hef : e.frame = some f'
      · have hpe := Pte.frame_eq_some.mp hef
        rw [if_pos hef, ← hpe.2, refsTo_eq_zero_of_unheld (hnew hpe.1).2.2.2.1,
          (hnew hpe.1).2.2.2.2]
        exact T.one
      · rw [if_neg hef] at hf' ⊢
        exact h.counted f' hf'

/-! ## Frames on their way -/

/-- The frame has been handed out: one reference and no use yet. -/
structure Fresh (s : Vm) (M : Finset Nat) (D : Nat → Nat) (f : Nat) : Prop where
  unheld : Unheld s M D f
  free : s.free f = false
  ne_zero : f ≠ 0
  refcount : (s.page f).refcount = 1

end Vm

end LiteKernel.Mm
