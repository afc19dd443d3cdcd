import LiteKernel.Mm.PageAlloc

/-!
# The free lists of the page allocator

`buddy_next`, `free_area` and the page flags describe one thing three times: which
blocks are free. `FreeLists s free` says that the three agree on the lists `free`.

Main results:

- Lemmas `FreeLists.add`, `FreeLists.pop`, `FreeLists.remove`: the list operations of
  `mm/page_alloc.c` keep them in agreement.
-/

namespace LiteKernel.Mm.PageAlloc

open Function Lib List State

variable {z z' : ZoneType} {k p : Nat}

/-! ## Assignments -/

namespace State

variable (s : State)

@[simp]
lemma setArea_area (z z' : ZoneType) (k k' : Nat) (f : FreeArea → FreeArea) :
    (s.setArea z k f).area z' k' = if z' = z ∧ k' = k then f (s.area z k) else s.area z' k' := by
  unfold setArea setZone area
  by_cases hz : z' = z
  · subst hz
    by_cases hk : k' = k
    · subst hk
      simp
    · simp [hk]
  · simp [hz]

section

variable (z) (k) (f : FreeArea → FreeArea)

@[simp]
lemma setArea_buddyNext : (s.setArea z k f).buddyNext = s.buddyNext :=
  rfl

@[simp]
lemma setArea_memMap : (s.setArea z k f).memMap = s.memMap :=
  rfl

@[simp]
lemma setArea_totalPages : (s.setArea z k f).totalPages = s.totalPages :=
  rfl

end

@[simp]
lemma setNext_area (i : Nat) (v : Int) (z : ZoneType) (k : Nat) :
    (s.setNext i v).area z k = s.area z k :=
  rfl

@[simp]
lemma setNext_buddyNext (i : Nat) (v : Int) :
    (s.setNext i v).buddyNext = Function.update s.buddyNext i v :=
  rfl

@[simp]
lemma setNext_memMap (i : Nat) (v : Int) : (s.setNext i v).memMap = s.memMap :=
  rfl

@[simp]
lemma setNext_totalPages (i : Nat) (v : Int) : (s.setNext i v).totalPages = s.totalPages :=
  rfl

@[simp]
lemma setPage_area (pfn : Nat) (f : Page → Page) (z : ZoneType) (k : Nat) :
    (s.setPage pfn f).area z k = s.area z k := by
  unfold setPage
  split <;> rfl

@[simp]
lemma setPage_buddyNext (pfn : Nat) (f : Page → Page) :
    (s.setPage pfn f).buddyNext = s.buddyNext := by
  unfold setPage
  split <;> rfl

@[simp]
lemma setPage_totalPages (pfn : Nat) (f : Page → Page) :
    (s.setPage pfn f).totalPages = s.totalPages := by
  unfold setPage
  split <;> rfl

lemma setPage_memMap {pfn : Nat} (h : pfn < s.totalPages) (f : Page → Page) :
    (s.setPage pfn f).memMap = Function.update s.memMap pfn (f (s.memMap pfn)) := by
  rw [setPage, if_pos h]

end State

lemma State.zone_setZone {α : Type*} {s : State} {z : ZoneType} {f : Zone → Zone} (g : Zone → α)
    (hf : g (f (s.zone z)) = g (s.zone z)) (z' : ZoneType) :
    g ((s.setZone z f).zone z') = g (s.zone z') := by
  by_cases hz : z' = z
  · subst hz
    simpa [setZone] using hf
  · simp [setZone, hz]

/--
The two states differ at most in the free lists: the geometry, the holders and
the reservations and reference counts of the frames are the same.
-/
structure Keeps (s t : State) : Prop where
  totalPages : t.totalPages = s.totalPages
  buddyMaxOrder : t.buddyMaxOrder = s.buddyMaxOrder
  owned : t.owned = s.owned
  startPfn : ∀ z, (t.zone z).startPfn = (s.zone z).startPfn
  spannedPages : ∀ z, (t.zone z).spannedPages = (s.zone z).spannedPages
  reserved : ∀ p, (t.memMap p).reserved = (s.memMap p).reserved
  refcount : ∀ p, (t.memMap p).refcount = (s.memMap p).refcount

namespace Keeps

variable {s t u : State}

lemma refl (s : State) : Keeps s s :=
  ⟨rfl, rfl, rfl, fun _ => rfl, fun _ => rfl, fun _ => rfl, fun _ => rfl⟩

lemma trans (h : Keeps s t) (h' : Keeps t u) : Keeps s u where
  totalPages := h'.totalPages.trans h.totalPages
  buddyMaxOrder := h'.buddyMaxOrder.trans h.buddyMaxOrder
  owned := h'.owned.trans h.owned
  startPfn z := (h'.startPfn z).trans (h.startPfn z)
  spannedPages z := (h'.spannedPages z).trans (h.spannedPages z)
  reserved p := (h'.reserved p).trans (h.reserved p)
  refcount p := (h'.refcount p).trans (h.refcount p)

lemma pfnToZone (h : Keeps s t) (p : Nat) : t.pfnToZone p = s.pfnToZone p := by
  unfold State.pfnToZone
  rw [h.spannedPages]

lemma endPfn (h : Keeps s t) (z : ZoneType) : (t.zone z).endPfn = (s.zone z).endPfn := by
  unfold Zone.endPfn
  rw [h.startPfn, h.spannedPages]

lemma setZone (s : State) (z : ZoneType) {f : Zone → Zone}
    (hf : ∀ zn, (f zn).startPfn = zn.startPfn ∧ (f zn).spannedPages = zn.spannedPages) :
    Keeps s (s.setZone z f) :=
  ⟨rfl, rfl, rfl, zone_setZone Zone.startPfn (hf _).1,
    zone_setZone Zone.spannedPages (hf _).2, fun _ => rfl, fun _ => rfl⟩

lemma setArea (s : State) (z : ZoneType) (k : Nat) (f : FreeArea → FreeArea) :
    Keeps s (s.setArea z k f) :=
  setZone s z fun _ => ⟨rfl, rfl⟩

lemma setNext (s : State) (i : Nat) (v : Int) : Keeps s (s.setNext i v) :=
  ⟨rfl, rfl, rfl, fun _ => rfl, fun _ => rfl, fun _ => rfl, fun _ => rfl⟩

lemma setPage (s : State) (pfn : Nat) {f : Page → Page}
    (hf : ∀ pg, (f pg).reserved = pg.reserved ∧ (f pg).refcount = pg.refcount) :
    Keeps s (s.setPage pfn f) := by
  unfold State.setPage
  split
  · have hpage : ∀ p, (update s.memMap pfn (f (s.memMap pfn)) p).reserved =
          (s.memMap p).reserved ∧
        (update s.memMap pfn (f (s.memMap pfn)) p).refcount = (s.memMap p).refcount := by
      intro p
      by_cases hp : p = pfn
      · subst hp
        simpa using hf (s.memMap p)
      · simp [hp]
    exact ⟨rfl, rfl, rfl, fun _ => rfl, fun _ => rfl, fun p => (hpage p).1, fun p => (hpage p).2⟩
  · exact refl s

end Keeps

/-! ## Agreement of the three descriptions -/

/-- The free lists of a zone and an order, by the first frames of their blocks. -/
abbrev Lists := ZoneType → Nat → List Nat

variable {free free' : Lists}

/-- `buddy_next`, `free_area` and the page flags all describe the lists `free`. -/
structure FreeLists (s : State) (free : Lists) : Prop where
  maxOrder_lt : s.buddyMaxOrder < maxOrder
  threads : ∀ z k, k < maxOrder → Threads s.buddyNext (s.area z k).freeList (free z k)
  count : ∀ z k, k < maxOrder → (s.area z k).nrFree = (free z k).length
  nodup : ∀ z k, (free z k).Nodup
  mem_iff : ∀ z k p, p ∈ free z k ↔
    p < s.totalPages ∧ s.pfnToZone p = z ∧ (s.memMap p).buddy = true ∧ (s.memMap p).order = k
  aligned : ∀ z k p, p ∈ free z k → 2 ^ k ∣ p
  order_le : ∀ z k p, p ∈ free z k → k ≤ s.buddyMaxOrder

/-- Put `p` in front of the list of order `k` of the zone `z`. -/
def consAt (free : Lists) (z : ZoneType) (k p : Nat) : Lists :=
  fun z' k' => if z' = z ∧ k' = k then p :: free z k else free z' k'

/-- Take `p` off the list of order `k` of the zone `z`. -/
def eraseAt (free : Lists) (z : ZoneType) (k p : Nat) : Lists :=
  fun z' k' => if z' = z ∧ k' = k then (free z k).erase p else free z' k'

namespace FreeLists

variable {s : State} {free : Lists}
variable {k p : Nat} {z : ZoneType}

section

variable (h : FreeLists s free)
include h

lemma not_mem_of_ne {z' : ZoneType} {k' : Nat} (hp : p ∈ free z k)
    (hne : ¬ (z' = z ∧ k' = k)) : p ∉ free z' k' := by
  intro hp'
  obtain ⟨_, hz, _, hk⟩ := (h.mem_iff z k p).mp hp
  obtain ⟨_, hz', _, hk'⟩ := (h.mem_iff z' k' p).mp hp'
  exact hne ⟨hz'.symm.trans hz, hk'.symm.trans hk⟩

lemma not_mem_of_buddy (hp : (s.memMap p).buddy = false) (z : ZoneType) (k : Nat) :
    p ∉ free z k:= by
  intro hmem
  have := ((h.mem_iff z k p).mp hmem).2.2.1
  simp [hp] at this

lemma length_le (z : ZoneType) (k : Nat) : (free z k).length ≤ s.totalPages := by
  have hsub : (free z k) ⊆ List.range s.totalPages := by
    intro p hp
    exact mem_range.mpr ((h.mem_iff z k p).mp hp).1
  have hle := ((h.nodup z k).subperm hsub).length_le
  simpa using hle

lemma add (hp0 : p ≠ 0) (hp : p < s.totalPages) (hz : s.pfnToZone p = z)
    (hk : k ≤ s.buddyMaxOrder) (hal : 2 ^ k ∣ p) (hbuddy : (s.memMap p).buddy = false) :
    FreeLists (buddyListAdd s z k p) (consAt free z k p) ∧ Keeps s (buddyListAdd s z k p) := by
  have hkeep : Keeps s (buddyListAdd s z k p) := by
    unfold buddyListAdd
    rw [if_neg hp0]
    exact ((Keeps.setNext _ _ _).trans (Keeps.setArea _ _ _ _)).trans
      (Keeps.setPage _ _ fun _ => ⟨rfl, rfl⟩)
  have hnext : (buddyListAdd s z k p).buddyNext =
      update s.buddyNext p (s.area z k).freeList := by
    simp [buddyListAdd, hp0]
  have harea : ∀ z' k', (buddyListAdd s z k p).area z' k' =
      if z' = z ∧ k' = k then ⟨p, (s.area z k).nrFree + 1⟩ else s.area z' k' := by
    intro z' k'
    simp [buddyListAdd, hp0]
  have hmap : (buddyListAdd s z k p).memMap =
      update s.memMap p { s.memMap p with buddy := true, order := k } := by
    unfold buddyListAdd
    rw [if_neg hp0, setPage_memMap _ (by simpa using hp)]
    rfl
  have hfresh := h.not_mem_of_buddy hbuddy
  refine ⟨?_, hkeep⟩
  constructor
  · rw [hkeep.buddyMaxOrder]
    exact h.maxOrder_lt
  · intro z' k' hk'
    rw [hnext, harea]
    unfold consAt
    split_ifs with hzk
    · exact (h.threads z k (hzk.2 ▸ hk')).push (hfresh z k)
    · rw [Threads.update_of_not_mem (hfresh z' k')]
      exact h.threads z' k' hk'
  · intro z' k' hk'
    rw [harea]
    unfold consAt
    split_ifs with hzk
    · rw [length_cons, h.count z k (hzk.2 ▸ hk')]
    · exact h.count z' k' hk'
  · intro z' k'
    unfold consAt
    split
    · exact nodup_cons.mpr ⟨hfresh z k, h.nodup z k⟩
    · exact h.nodup z' k'
  · intro z' k' q
    rw [hkeep.totalPages, hkeep.pfnToZone, hmap]
    unfold consAt
    by_cases hq : q = p
    · subst hq
      have hnot := hfresh z' k'
      by_cases hzk : z' = z ∧ k' = k
      · simp [hzk, hp, hz]
      · simp only [if_neg hzk, hnot, false_iff, update_self]
        rintro ⟨_, hz', _, hk'⟩
        exact hzk ⟨hz'.symm.trans hz, hk'.symm⟩
    · rw [update_of_ne hq]
      split_ifs with hzk
      · rw [mem_cons, hzk.1, hzk.2, h.mem_iff]
        simp [hq]
      · rw [h.mem_iff]
  · intro z' k' q hq
    unfold consAt at hq
    split at hq
    · rename_i hzk
      rw [hzk.2]
      rcases mem_cons.mp hq with rfl | hq
      · exact hal
      · exact h.aligned z k q hq
    · exact h.aligned z' k' q hq
  · intro z' k' q hq
    rw [hkeep.buddyMaxOrder]
    unfold consAt at hq
    split at hq
    · rename_i hzk
      rw [hzk.2]
      exact hk
    · exact h.order_le z' k' q hq

/--
Taking `p` off its list, whichever assignments do it: the list heads and links
must thread the shorter list, the length must drop by one, and `PG_BUDDY` of
`p` must be cleared.
-/
lemma erase (hp : p ∈ free z k) {t : State} (hkeep : Keeps s t)
    (hthread : Threads t.buddyNext (t.area z k).freeList ((free z k).erase p))
    (hnext : ∀ l : List Nat, p ∉ l → (∀ q ∈ l, q ∉ free z k) → ∀ head,
      Threads t.buddyNext head l ↔ Threads s.buddyNext head l)
    (hcount : (t.area z k).nrFree = (s.area z k).nrFree - 1)
    (harea : ∀ z' k', ¬ (z' = z ∧ k' = k) → t.area z' k' = s.area z' k')
    (hmap : t.memMap = Function.update s.memMap p { s.memMap p with buddy := false }) :
    FreeLists t (eraseAt free z k p) := by
  constructor
  · rw [hkeep.buddyMaxOrder]
    exact h.maxOrder_lt
  · intro z' k' hk'
    unfold eraseAt
    split_ifs with hzk
    · rw [hzk.1, hzk.2]
      exact hthread
    · rw [harea z' k' hzk, hnext]
      · exact h.threads z' k' hk'
      · exact h.not_mem_of_ne hp hzk
      · intro q hq
        exact h.not_mem_of_ne hq fun hzk' => hzk ⟨hzk'.1.symm, hzk'.2.symm⟩
  · intro z' k' hk'
    unfold eraseAt
    by_cases hzk : z' = z ∧ k' = k
    · rw [if_pos hzk, hzk.1, hzk.2, hcount, length_erase_of_mem hp, h.count z k (hzk.2 ▸ hk')]
    · rw [if_neg hzk, harea z' k' hzk]
      exact h.count z' k' hk'
  · intro z' k'
    unfold eraseAt
    split
    · exact (h.nodup z k).erase p
    · exact h.nodup z' k'
  · intro z' k' q
    rw [hkeep.totalPages, hkeep.pfnToZone, hmap]
    unfold eraseAt
    by_cases hq : q = p
    · subst hq
      by_cases hzk : z' = z ∧ k' = k
      · simp [hzk, (h.nodup z k).not_mem_erase]
      · simp [hzk, h.not_mem_of_ne hp hzk]
    · rw [update_of_ne hq]
      split_ifs with hzk
      · rw [hzk.1, hzk.2, mem_erase_of_ne hq, h.mem_iff]
      · rw [h.mem_iff]
  · intro z' k' q hq
    unfold eraseAt at hq
    split at hq
    · rename_i hzk
      rw [hzk.2]
      exact h.aligned z k q (mem_of_mem_erase hq)
    · exact h.aligned z' k' q hq
  · intro z' k' q hq
    rw [hkeep.buddyMaxOrder]
    unfold eraseAt at hq
    split at hq
    · rename_i hzk
      rw [hzk.2]
      exact h.order_le z k q (mem_of_mem_erase hq)
    · exact h.order_le z' k' q hq

lemma pop {rest : List Nat} (hl : free z k = p :: rest) :
    FreeLists (buddyPop s z k p) (eraseAt free z k p) ∧ Keeps s (buddyPop s z k p) ∧
      ((buddyPop s z k p).memMap p).buddy = false := by
  have hmem : p ∈ free z k := by simp [hl]
  have hlt := ((h.mem_iff z k p).mp hmem).1
  have hk : k < maxOrder := lt_of_le_of_lt (h.order_le z k p hmem) h.maxOrder_lt
  have hnodup := h.nodup z k
  rw [hl, nodup_cons] at hnodup
  have hkeep : Keeps s (buddyPop s z k p) := by
    unfold buddyPop
    exact ((Keeps.setArea _ _ _ _).trans (Keeps.setNext _ _ _)).trans
      (Keeps.setPage _ _ fun _ => ⟨rfl, rfl⟩)
  have hnext : (buddyPop s z k p).buddyNext = update s.buddyNext p (-1) := by
    simp [buddyPop]
  have hmap : (buddyPop s z k p).memMap =
      update s.memMap p { s.memMap p with buddy := false } := by
    unfold buddyPop
    rw [setPage_memMap _ (by simpa using hlt)]
    rfl
  refine ⟨?_, hkeep, by simp [hmap]⟩
  apply h.erase hmem hkeep
  · have hthread := h.threads z k hk
    rw [hl] at hthread
    have herase : (free z k).erase p = rest := by simp [hl]
    rw [herase, hnext, Threads.update_of_not_mem hnodup.1]
    simpa [buddyPop] using hthread.2
  · intro l hpl _ head
    rw [hnext, Threads.update_of_not_mem hpl]
  · simp [buddyPop]
  · intro z' k' hzk
    simp [buddyPop, hzk]
  · exact hmap

lemma remove (hp : p ∈ free z k) :
    FreeLists (buddyListRemove s z k p) (eraseAt free z k p) ∧
      Keeps s (buddyListRemove s z k p) ∧
      ((buddyListRemove s z k p).memMap p).buddy = false := by
  have hlt := ((h.mem_iff z k p).mp hp).1
  have hk : k < maxOrder := lt_of_le_of_lt (h.order_le z k p hp) h.maxOrder_lt
  have hthread := h.threads z k hk
  have hnodup := h.nodup z k
  have hlen : (free z k).length ≤ s.totalPages + 1 := (h.length_le z k).trans (Nat.le_succ _)
  rcases findPrev_spec hthread hnodup hp hlen (-1) with
    ⟨post, hl, hfind⟩ | ⟨pre, q, post, hl, hfind⟩
  · -- the head of the list: the assignments are those of `buddyPop`
    have hpop : buddyListRemove s z k p = buddyPop s z k p := by
      have harea : ∀ f g : FreeArea → FreeArea,
          ((s.setArea z k f).setNext p (-1)).setArea z k g =
            (s.setArea z k fun a => g (f a)).setNext p (-1) := by
        intro f g
        simp [setArea, setZone, setNext]
      unfold buddyListRemove buddyPop
      rw [hfind]
      simp only [Int.reduceNeg, Int.neg_neg_iff_pos, zero_lt_one, ↓reduceIte, harea]
    rw [hpop]
    exact h.pop hl
  · have hq : ¬ ((q : Int) < 0) := by omega
    have hqp : q ≠ p ∧ p ∉ pre := by
      rw [hl] at hnodup
      simp only [nodup_append, nodup_cons, mem_cons, not_or] at hnodup
      refine ⟨hnodup.2.1.1.1, ?_⟩
      intro hmem
      exact hnodup.2.2 p hmem p (by simp) rfl
    have hkeep : Keeps s (buddyListRemove s z k p) := by
      unfold buddyListRemove
      rw [hfind]
      simp only [if_neg hq]
      exact (((Keeps.setNext _ _ _).trans (Keeps.setNext _ _ _)).trans
        (Keeps.setArea _ _ _ _)).trans (Keeps.setPage _ _ fun _ => ⟨rfl, rfl⟩)
    have hnext : (buddyListRemove s z k p).buddyNext =
        update (update s.buddyNext q (s.buddyNext p)) p (-1) := by
      unfold buddyListRemove
      rw [hfind]
      simp [hq]
    have harea : ∀ z' k', (buddyListRemove s z k p).area z' k' =
        if z' = z ∧ k' = k then { s.area z k with nrFree := (s.area z k).nrFree - 1 }
        else s.area z' k' := by
      intro z' k'
      unfold buddyListRemove
      rw [hfind]
      simp [hq]
    have hmap : (buddyListRemove s z k p).memMap =
        update s.memMap p { s.memMap p with buddy := false } := by
      unfold buddyListRemove
      rw [hfind]
      simp only [if_neg hq]
      rw [setPage_memMap _ (by simpa using hlt)]
      rfl
    refine ⟨?_, hkeep, by simp [hmap]⟩
    apply h.erase hp hkeep
    · have herase : (free z k).erase p = pre ++ q :: post := by
        rw [hl, erase_append_right _ hqp.2, erase_cons_tail (by simpa using hqp.1), erase_cons_head]
      rw [herase, hnext, harea, if_pos ⟨rfl, rfl⟩]
      rw [hl] at hthread hnodup
      exact hthread.unlink hnodup (-1)
    · intro l hpl hdisj head
      have hql : q ∉ l := fun hmem => hdisj q hmem (by simp [hl])
      rw [hnext, Threads.update_of_not_mem hpl, Threads.update_of_not_mem hql]
    · rw [harea, if_pos ⟨rfl, rfl⟩]
    · intro z' k' hzk
      rw [harea, if_neg hzk]
    · exact hmap

end

end FreeLists

/-! ## The blocks of a zone -/

/-- The free blocks of a zone. -/
def freeBlocks (free : Lists) (z : ZoneType) : Multiset Block :=
  ∑ k ∈ Finset.range maxOrder, (free z k : Multiset Nat).map fun p => ⟨p, k⟩

lemma mem_freeBlocks {b : Block} :
    b ∈ freeBlocks free z ↔ b.order < maxOrder ∧ b.base ∈ free z b.order := by
  unfold freeBlocks
  rw [Multiset.mem_sum]
  constructor
  · rintro ⟨k, hk, hb⟩
    obtain ⟨p, hp, rfl⟩ := Multiset.mem_map.mp hb
    exact ⟨Finset.mem_range.mp hk, by simpa using hp⟩
  · rintro ⟨hk, hb⟩
    exact ⟨b.order, Finset.mem_range.mpr hk, Multiset.mem_map.mpr ⟨b.base, by simpa using hb, rfl⟩⟩

lemma freeBlocks_congr (h : free' z = free z) : freeBlocks free' z = freeBlocks free z := by
  unfold freeBlocks
  rw [h]

lemma freeBlocks_of_cons (hk : k < maxOrder)
    (hcons : (free' z k : Multiset Nat) = p ::ₘ (free z k : Multiset Nat))
    (hother : ∀ k', k' ≠ k → free' z k' = free z k') :
    freeBlocks free' z = ⟨p, k⟩ ::ₘ freeBlocks free z := by
  have hmem : k ∈ Finset.range maxOrder := Finset.mem_range.mpr hk
  unfold freeBlocks
  rw [← Finset.add_sum_erase _ _ hmem, ← Finset.add_sum_erase _ _ hmem, hcons,
    Multiset.map_cons, Multiset.cons_add]
  congr 2
  apply Finset.sum_congr rfl
  intro k' hk'
  rw [hother k' (Finset.ne_of_mem_erase hk')]

lemma freeBlocks_consAt (hk : k < maxOrder) :
    freeBlocks (consAt free z k p) z = ⟨p, k⟩ ::ₘ freeBlocks free z := by
  apply freeBlocks_of_cons hk
  · simp [consAt]
  · intro k' hk'
    simp [consAt, hk']

lemma freeBlocks_eraseAt (hk : k < maxOrder) (hp : p ∈ free z k) :
    freeBlocks free z = ⟨p, k⟩ ::ₘ freeBlocks (eraseAt free z k p) z := by
  apply freeBlocks_of_cons hk
  · have hperm := perm_cons_erase hp
    simpa [eraseAt] using hperm
  · intro k' hk'
    simp [eraseAt, hk']

lemma consAt_of_ne (k p : Nat) (hz : z' ≠ z) : consAt free z k p z' = free z' := by
  funext k'
  simp [consAt, hz]

lemma eraseAt_of_ne (k p : Nat) (hz : z' ≠ z) : eraseAt free z k p z' = free z' := by
  funext k'
  simp [eraseAt, hz]

end LiteKernel.Mm.PageAlloc
