import LiteKernel.Mm.Account

/-!
# Reverse mappings

A frame keeps the list of the places that map it: the first one in the fields of
its `struct page`, the others in a list. `RmapInv` says that the list of a
frame has exactly the places that map it, without repetition.

Main results:

- Lemma `RmapInv.change`: a place comes or goes.
- Lemma `Page.Rmaps.remove`: `page_remove_rmap` takes one place off the list.
-/

namespace LiteKernel.Mm

open Function Lib List

namespace Page

/-- The list of reverse mappings that the fields of a page hold. -/
def Rmaps (pg : Page) : List (Nat × Nat) → Prop
  | [] => pg.mapcount = 0 ∧ pg.mapMm = none ∧ pg.rmapList = []
  | k :: r =>
    pg.mapcount = r.length + 1 ∧ pg.mapMm = some k.1 ∧ pg.mapVaddr = k.2 ∧ pg.rmapList = r

variable {pg : Page} {l : List (Nat × Nat)} {m va : Nat}

lemma Rmaps.mapcount_eq (h : pg.Rmaps l) : pg.mapcount = l.length := by
  cases l with
  | nil => exact h.1
  | cons k r => exact h.1

lemma Rmaps.hasRmap_iff (h : pg.Rmaps l) : pg.HasRmap m va ↔ (m, va) ∈ l := by
  cases l with
  | nil => simp [HasRmap, h.2.1, h.2.2]
  | cons k r =>
    rw [HasRmap, h.2.1, h.2.2.1, h.2.2.2, mem_cons, Option.some_inj, Prod.ext_iff]
    exact or_congr_left (and_congr eq_comm eq_comm)

lemma Rmaps.first (h : pg.Rmaps []) (m va : Nat) : (firstRmap m va pg).Rmaps [(m, va)] :=
  ⟨rfl, rfl, rfl, h.2.2⟩

lemma Rmaps.push {k : Nat × Nat} {r : List (Nat × Nat)} (h : pg.Rmaps (k :: r))
    (hmax : r.length + 1 < 0xFFFF) (m va : Nat) :
    (pushRmap m va pg).Rmaps (k :: (m, va) :: r) := by
  refine ⟨?_, h.2.1, h.2.2.1, ?_⟩
  · simp only [pushRmap, h.1, if_pos hmax, length_cons]
  · simp only [pushRmap, h.2.2.2]

lemma Rmaps.remove (h : pg.Rmaps l) (m va : Nat) :
    (removeRmap m va pg).Rmaps (l.erase (m, va)) := by
  cases l with
  | nil =>
    simp only [removeRmap, h.1, if_true]
    exact h
  | cons k r =>
    have hpos : pg.mapcount ≠ 0 := by
      rw [h.1]
      exact Nat.succ_ne_zero _
    simp only [removeRmap, if_neg hpos]
    by_cases hk : k = (m, va)
    · -- the place in the page itself, which the next list node takes
      have hfields : pg.mapMm = some m ∧ pg.mapVaddr = va := by
        rw [h.2.1, h.2.2.1, hk]
        exact ⟨rfl, rfl⟩
      rw [if_pos hfields, hk, erase_cons_head]
      cases r with
      | nil =>
        have hone : pg.mapcount = 1 := h.1
        rw [if_pos hone]
        exact ⟨rfl, rfl, h.2.2.2⟩
      | cons node rest =>
        have hne : pg.mapcount ≠ 1 := by
          rw [h.1, length_cons]
          omega
        rw [if_neg hne, h.2.2.2]
        refine ⟨?_, rfl, rfl, rfl⟩
        simp only [h.1, length_cons, Nat.add_sub_cancel]
    · have hfields : ¬ (pg.mapMm = some m ∧ pg.mapVaddr = va) := by
        rw [h.2.1, h.2.2.1, Option.some_inj]
        exact fun hc => hk (Prod.ext hc.1 hc.2)
      have hbeq : ¬ (k == (m, va)) = true := fun hc => hk (eq_of_beq hc)
      rw [if_neg hfields, erase_cons_tail hbeq, h.2.2.2]
      split_ifs with hr
      · refine ⟨?_, h.2.1, h.2.2.1, rfl⟩
        have hlen := length_erase_of_mem hr
        have hlt := length_pos_of_mem hr
        simp only [h.1]
        omega
      · rw [erase_of_not_mem hr]
        exact h

@[simp]
lemma refcount_removeRmap (m va : Nat) (pg : Page) :
    (removeRmap m va pg).refcount = pg.refcount := by
  unfold removeRmap
  split
  · rfl
  · split
    · split
      · rfl
      · split <;> rfl
    · split <;> rfl

end Page

namespace Vm

variable {m' v' : Nat} {o : Option Nat}

/-! ## What stays the same -/

/-- The state apart from frames and tables is the same. -/
structure Quiet (s s' : Vm) : Prop where
  live : s'.live = s.live
  mm : s'.mm = s.mm
  kernelDir : s'.kernelDir = s.kernelDir
  pageDirectory : s'.pageDirectory = s.pageDirectory
  env : s'.env = s.env
  data : s'.data = s.data
  slot : s'.slot = s.slot
  ctx : s'.ctx = s.ctx
  calls : s'.calls = s.calls
  failures : s'.failures = s.failures

lemma Quiet.refl (s : Vm) : Quiet s s :=
  ⟨rfl, rfl, rfl, rfl, rfl, rfl, rfl, rfl, rfl, rfl⟩

lemma Quiet.trans {s1 s2 s3 : Vm} (h1 : Quiet s1 s2) (h2 : Quiet s2 s3) : Quiet s1 s3 where
  live := h2.live.trans h1.live
  mm := h2.mm.trans h1.mm
  kernelDir := h2.kernelDir.trans h1.kernelDir
  pageDirectory := h2.pageDirectory.trans h1.pageDirectory
  env := h2.env.trans h1.env
  data := h2.data.trans h1.data
  slot := h2.slot.trans h1.slot
  ctx := h2.ctx.trans h1.ctx
  calls := h2.calls.trans h1.calls
  failures := h2.failures.trans h1.failures

lemma quiet_setPage (s : Vm) (f : Nat) (g : Page → Page) : Quiet s (s.setPage f g) :=
  ⟨rfl, rfl, rfl, rfl, rfl, rfl, rfl, rfl, rfl, rfl⟩

lemma quiet_setDirEntry (s : Vm) (d i : Nat) (e : Pte) : Quiet s (s.setDirEntry d i e) :=
  ⟨rfl, rfl, rfl, rfl, rfl, rfl, rfl, rfl, rfl, rfl⟩

lemma quiet_setPte (s : Vm) (d v : Nat) (e : Pte) : Quiet s (s.setPte d v e) := by
  unfold setPte
  split
  · exact ⟨rfl, rfl, rfl, rfl, rfl, rfl, rfl, rfl, rfl, rfl⟩
  · exact Quiet.refl s

lemma quiet_freePage (s : Vm) (f : Nat) : Quiet s (s.freePage f) := by
  unfold freePage
  split <;> exact ⟨rfl, rfl, rfl, rfl, rfl, rfl, rfl, rfl, rfl, rfl⟩

lemma sameTables_setPage {g : Page → Page} {f : Nat} (s : Vm)
    (hg : (g (s.page f)).refcount = (s.page f).refcount) : SameTables s (s.setPage f g) := by
  refine ⟨rfl, rfl, rfl, rfl, fun f' => ?_⟩
  by_cases hf : f' = f
  · subst hf
    simpa [setPage] using hg
  · simp [setPage, hf]

lemma sameTables_pageRemoveRmap (s : Vm) (m va f : Nat) :
    SameTables s (s.pageRemoveRmap m va f) :=
  sameTables_setPage s (Page.refcount_removeRmap m va (s.page f))

/-! ## The invariant -/

/-- The place `k` is the address of a page that maps the frame. -/
def MapsTo (s : Vm) (M : Finset Nat) (D : Nat → Nat) (k : Nat × Nat) (f : Nat) : Prop :=
  ∃ m ∈ M, ∃ v, v < userPages ∧ k = (m, v * pageSize) ∧ (s.pte (D m) v).frame = some f

/-- The reverse mappings of every frame are the places that map it. -/
def RmapInv (s : Vm) (M : Finset Nat) (D : Nat → Nat) : Prop :=
  ∀ f, ∃ l, (s.page f).Rmaps l ∧ l.Nodup ∧ ∀ k, k ∈ l ↔ s.MapsTo M D k f

variable {T : Tally} {s s' : Vm} {M : Finset Nat} {D : Nat → Nat} {m v va f : Nat}
  {e : Pte}

lemma mapsTo_congr
    (hpte : ∀ m ∈ M, ∀ v, v < userPages → (s'.pte (D m) v).frame = (s.pte (D m) v).frame)
    (k : Nat × Nat) (f : Nat) : s'.MapsTo M D k f ↔ s.MapsTo M D k f := by
  constructor
  · rintro ⟨m, hm, v, hv, hk, hf⟩
    exact ⟨m, hm, v, hv, hk, (hpte m hm v hv).symm.trans hf⟩
  · rintro ⟨m, hm, v, hv, hk, hf⟩
    exact ⟨m, hm, v, hv, hk, (hpte m hm v hv).trans hf⟩

lemma RmapInv.congr (h : RmapInv s M D)
    (hpte : ∀ m ∈ M, ∀ v, v < userPages → (s'.pte (D m) v).frame = (s.pte (D m) v).frame)
    (hpage : ∀ f l, (s.page f).Rmaps l → (s'.page f).Rmaps l) : RmapInv s' M D := by
  intro f
  rcases h f with ⟨l, hl, hnd, hmem⟩
  exact ⟨l, hpage f l hl, hnd, fun k => (hmem k).trans (mapsTo_congr hpte k f).symm⟩

lemma place_inj (h : (m, v * pageSize) = (m', v' * pageSize)) : m = m' ∧ v = v' := by
  have h2 := (Prod.mk.inj h).2
  unfold pageSize at h2
  exact ⟨(Prod.mk.inj h).1, by omega⟩

/-- The places that map a frame after the change of one entry. -/
lemma mapsTo_change (hm : m ∈ M) (hv : v < userPages)
    (hpte : ∀ m' ∈ M, ∀ v', v' < userPages →
      (s'.pte (D m') v').frame = if m' = m ∧ v' = v then o else (s.pte (D m') v').frame)
    (k : Nat × Nat) (f : Nat) :
    s'.MapsTo M D k f ↔ if k = (m, v * pageSize) then o = some f else s.MapsTo M D k f := by
  split_ifs with hk
  · constructor
    · rintro ⟨m', hm', v', hv', hk', hf⟩
      have heq := place_inj (hk.symm.trans hk')
      rwa [hpte m' hm' v' hv', if_pos ⟨heq.1.symm, heq.2.symm⟩] at hf
    · intro ho
      refine ⟨m, hm, v, hv, hk, ?_⟩
      rw [hpte m hm v hv, if_pos ⟨rfl, rfl⟩, ho]
  · have hne : ∀ m' v', k = (m', v' * pageSize) → ¬ (m' = m ∧ v' = v) := by
      rintro m' v' hk' ⟨rfl, rfl⟩
      exact hk hk'
    constructor
    · rintro ⟨m', hm', v', hv', hk', hf⟩
      rw [hpte m' hm' v' hv', if_neg (hne m' v' hk')] at hf
      exact ⟨m', hm', v', hv', hk', hf⟩
    · rintro ⟨m', hm', v', hv', hk', hf⟩
      refine ⟨m', hm', v', hv', hk', ?_⟩
      rwa [hpte m' hm' v' hv', if_neg (hne m' v' hk')]

/--
The change of one entry: the frame it pointed to loses the place, and the frame
it points to gets it.
-/
lemma RmapInv.change (h : RmapInv s M D) (hm : m ∈ M) (hv : v < userPages)
    (hpte : ∀ m' ∈ M, ∀ v', v' < userPages →
      (s'.pte (D m') v').frame = if m' = m ∧ v' = v then o else (s.pte (D m') v').frame)
    (hout : ∀ f, (s.pte (D m) v).frame = some f → o ≠ some f → ∀ l, (s.page f).Rmaps l →
      (s'.page f).Rmaps (l.erase (m, v * pageSize)))
    (hin : ∀ f, (s.pte (D m) v).frame ≠ some f → o = some f → ∀ l, (s.page f).Rmaps l →
      (m, v * pageSize) ∉ l → ∃ l', (s'.page f).Rmaps l' ∧ l'.Perm ((m, v * pageSize) :: l))
    (hsame : ∀ f, ((s.pte (D m) v).frame = some f ↔ o = some f) → ∀ l, (s.page f).Rmaps l →
      (s'.page f).Rmaps l) : RmapInv s' M D := by
  intro f
  rcases h f with ⟨l, hl, hnd, hmem⟩
  have hmaps := fun k => mapsTo_change hm hv hpte k f
  have hself : (m, v * pageSize) ∈ l ↔ (s.pte (D m) v).frame = some f := by
    rw [hmem]
    constructor
    · rintro ⟨m', hm', v', hv', hk', hf⟩
      have heq := place_inj hk'
      rwa [heq.1, heq.2]
    · intro hf
      exact ⟨m, hm, v, hv, rfl, hf⟩
  by_cases hold : (s.pte (D m) v).frame = some f
  · by_cases ho : o = some f
    · refine ⟨l, hsame f ⟨fun _ => ho, fun _ => hold⟩ l hl, hnd, fun k => ?_⟩
      rw [hmaps]
      split_ifs with hk
      · rw [hk]
        exact ⟨fun _ => ho, fun _ => hself.mpr hold⟩
      · exact hmem k
    · refine ⟨l.erase (m, v * pageSize), hout f hold ho l hl, hnd.erase _, fun k => ?_⟩
      rw [hmaps, hnd.mem_erase_iff]
      split_ifs with hk
      · exact ⟨fun hc => absurd hk hc.1, fun hc => absurd hc ho⟩
      · rw [hmem]
        exact ⟨fun hc => hc.2, fun hc => ⟨hk, hc⟩⟩
  · have hnot : (m, v * pageSize) ∉ l := fun hk => hold (hself.mp hk)
    by_cases ho : o = some f
    · rcases hin f hold ho l hl hnot with ⟨l', hl', hperm⟩
      refine ⟨l', hl', hperm.nodup_iff.mpr (nodup_cons.mpr ⟨hnot, hnd⟩), fun k => ?_⟩
      rw [hmaps, hperm.mem_iff, mem_cons]
      split_ifs with hk
      · exact ⟨fun _ => ho, fun _ => .inl hk⟩
      · rw [← hmem]
        exact or_iff_right hk
    · refine ⟨l, hsame f ⟨fun hc => absurd hc hold, fun hc => absurd hc ho⟩ l hl, hnd, fun k => ?_⟩
      rw [hmaps]
      split_ifs with hk
      · rw [hk]
        exact ⟨fun hc => absurd hc hnot, fun hc => absurd hc ho⟩
      · exact hmem k

/-- The number of reverse mappings is the number of pages that map the frame. -/
lemma RmapInv.mapcount (h : RmapInv s M D) (f : Nat) :
    (s.page f).mapcount = s.refsTo M D f := by
  rcases h f with ⟨l, hl, hnd, hmem⟩
  have hset : l.toFinset = ((pageKeys M).filter fun k => s.mapped M D k = some f).image
      fun k => (k.1, k.2 * pageSize) := by
    ext k
    rw [mem_toFinset, hmem, Finset.mem_image]
    constructor
    · rintro ⟨m, hm, v, hv, rfl, hf⟩
      exact ⟨(m, v), Finset.mem_filter.mpr ⟨mem_pageKeys.mpr ⟨hm, hv⟩,
        (mapped_of_mem hm hv).trans hf⟩, rfl⟩
    · rintro ⟨k', hk', rfl⟩
      have hk := Finset.mem_filter.mp hk'
      have hmv := mem_pageKeys.mp hk.1
      exact ⟨k'.1, hmv.1, k'.2, hmv.2, rfl, (mapped_of_mem hmv.1 hmv.2).symm.trans hk.2⟩
  have hinj : Injective fun k : Nat × Nat => (k.1, k.2 * pageSize) := by
    intro k k' hk
    have heq := place_inj hk
    exact Prod.ext heq.1 heq.2
  rw [hl.mapcount_eq, ← toFinset_card_of_nodup hnd, hset, Finset.card_image_of_injective _ hinj]
  rfl

/-! ## A page loses its frame -/

/-- What unmapping and swapping out have in common. -/
def dropPage (s : Vm) (d m v va f : Nat) (e : Pte) : Vm :=
  ((s.setPte d v e).pageRemoveRmap m va f).freePage f

lemma quiet_dropPage (s : Vm) (d m v va f : Nat) (e : Pte) :
    Quiet s (s.dropPage d m v va f e) :=
  ((quiet_setPte s d v e).trans (quiet_setPage _ f _)).trans (quiet_freePage _ f)

@[simp]
lemma dir_dropPage (s : Vm) (d m v va f : Nat) (e : Pte) :
    (s.dropPage d m v va f e).dir = s.dir := by
  rw [dropPage, dir_freePage, (sameTables_pageRemoveRmap _ _ _ f).dir, dir_setPte]

lemma Wf.dropPage (h : Wf T s M D) (hm : m ∈ M) (hv : v < userPages)
    (hold : (s.pte (D m) v).frame = some f) (he : e.present = false) :
    Wf T (s.dropPage (D m) m v va f e) M D := by
  refine h.replace hm hv hold (fun hpe => ?_) (sameTables_pageRemoveRmap _ _ _ f)
  rw [he] at hpe
  cases hpe

lemma Space.pte_dropPage (h : Space s M D) (hm : m ∈ M) (hv : v < userPages)
    (hold : (s.pte (D m) v).frame = some f) (hm' : m' ∈ M) (hv' : v' < userPages) :
    (s.dropPage (D m) m v va f e).pte (D m') v' =
      if m' = m ∧ v' = v then e else s.pte (D m') v' := by
  rw [dropPage, pte_freePage, (sameTables_pageRemoveRmap _ _ _ f).pte]
  exact h.pte_setPte hm hv (dir_present_of_pte (Pte.frame_eq_some.mp hold).1) hm' hv'

lemma rmaps_freePage (s : Vm) (f f' : Nat) (l : List (Nat × Nat)) :
    ((s.freePage f).page f').Rmaps l ↔ (s.page f').Rmaps l := by
  unfold freePage setPage
  by_cases hf : f' = f
  · subst hf
    split <;> cases l <;> simp [Page.Rmaps]
  · split <;> simp [hf]

lemma page_pageRemoveRmap (s : Vm) (m va f f' : Nat) :
    (s.pageRemoveRmap m va f).page f' =
      if f' = f then (s.page f).removeRmap m va else s.page f' := by
  unfold pageRemoveRmap setPage
  by_cases hf : f' = f
  · simp [hf]
  · simp [hf]

lemma RmapInv.dropPage (h : RmapInv s M D) (hsp : Space s M D) (hm : m ∈ M)
    (hv : v < userPages) (hold : (s.pte (D m) v).frame = some f) (he : e.present = false) :
    RmapInv (s.dropPage (D m) m v (v * pageSize) f e) M D := by
  have hnone : e.frame = none := by simp [Pte.frame, he]
  have hpage : ∀ f' l, ((s.dropPage (D m) m v (v * pageSize) f e).page f').Rmaps l ↔
      (if f' = f then (s.page f).removeRmap m (v * pageSize) else s.page f').Rmaps l := by
    intro f' l
    rw [Vm.dropPage, rmaps_freePage, page_pageRemoveRmap, page_setPte]
  refine h.change (o := none) hm hv (fun m' hm' v' hv' => ?_) (fun f' hf' _ l hl => ?_)
    (fun _ _ hc => by cases hc) fun f' hf' l hl => ?_
  · rw [hsp.pte_dropPage hm hv hold hm' hv']
    split
    · exact hnone
    · rfl
  · rw [hold] at hf'
    cases hf'
    rw [hpage, if_pos rfl]
    exact hl.remove m (v * pageSize)
  · have hne : f' ≠ f := fun hc => by
      have := hf'.mp (hc ▸ hold)
      cases this
    rw [hpage, if_neg hne]
    exact hl

lemma free_dropPage (s : Vm) (d m v va f : Nat) (e : Pte) (f' : Nat) :
    (s.dropPage d m v va f e).free f' =
      if f' = f ∧ (s.page f).refcount ≤ 1 then true else s.free f' := by
  rw [dropPage, free_freePage, (sameTables_pageRemoveRmap _ _ _ f).refcount,
    (sameTables_pageRemoveRmap _ _ _ f).free, page_setPte, free_setPte]

end Vm

end LiteKernel.Mm
