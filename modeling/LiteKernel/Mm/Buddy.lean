import LiteKernel.Mm.FreeLists

/-!
# Splitting and merging of buddies

The stock of a zone is what it was handed at boot: a set of frames that is tiled
by its free blocks and by the blocks that are held by callers. The splitting loop
of `buddy_alloc` and the merging loop of `buddy_free_block` exchange blocks of this
tiling for others.

Main results:

- Lemma `Stock.freeBlock`: merging keeps the stock.
- Lemma `buddyShrink_eq`: splitting, one block after the other.
-/

namespace LiteKernel.Mm.PageAlloc

open Lib Multiset

/-- The frames below `total_pages` belong to the zone whose boundaries enclose them. -/
def Geometry (s : State) : Prop :=
  ∀ z p, p < s.totalPages →
    (s.pfnToZone p = z ↔ (s.zone z).startPfn ≤ p ∧ p < (s.zone z).endPfn)

lemma Keeps.geometry {s t : State} (h : Keeps s t) (hg : Geometry s) : Geometry t := by
  intro z p hp
  rw [h.totalPages] at hp
  rw [h.pfnToZone, h.startPfn, h.endPfn]
  exact hg z p hp

/-- The two states have the same free lists and zone boundaries. -/
structure SameLists (s t : State) : Prop where
  totalPages : t.totalPages = s.totalPages
  buddyMaxOrder : t.buddyMaxOrder = s.buddyMaxOrder
  buddyNext : t.buddyNext = s.buddyNext
  area : ∀ z k, t.area z k = s.area z k
  startPfn : ∀ z, (t.zone z).startPfn = (s.zone z).startPfn
  spannedPages : ∀ z, (t.zone z).spannedPages = (s.zone z).spannedPages
  buddy : ∀ p, (t.memMap p).buddy = (s.memMap p).buddy
  order : ∀ p, (s.memMap p).buddy = true → (t.memMap p).order = (s.memMap p).order

namespace SameLists

variable {s t u : State}

lemma refl (s : State) : SameLists s s :=
  ⟨rfl, rfl, rfl, fun _ _ => rfl, fun _ => rfl, fun _ => rfl, fun _ => rfl, fun _ _ => rfl⟩

lemma trans (h : SameLists s t) (h' : SameLists t u) : SameLists s u where
  totalPages := h'.totalPages.trans h.totalPages
  buddyMaxOrder := h'.buddyMaxOrder.trans h.buddyMaxOrder
  buddyNext := h'.buddyNext.trans h.buddyNext
  area z k := (h'.area z k).trans (h.area z k)
  startPfn z := (h'.startPfn z).trans (h.startPfn z)
  spannedPages z := (h'.spannedPages z).trans (h.spannedPages z)
  buddy p := (h'.buddy p).trans (h.buddy p)
  order p hp := (h'.order p ((h.buddy p).trans hp)).trans (h.order p hp)

lemma pfnToZone (h : SameLists s t) (p : Nat) : t.pfnToZone p = s.pfnToZone p := by
  unfold State.pfnToZone
  rw [h.spannedPages]

lemma setPage {p : Nat} {f : Page → Page}
    (hb : (f (s.memMap p)).buddy = (s.memMap p).buddy)
    (ho : (s.memMap p).buddy = true → (f (s.memMap p)).order = (s.memMap p).order) :
    SameLists s (s.setPage p f) := by
  unfold State.setPage
  split
  · refine ⟨rfl, rfl, rfl, fun _ _ => rfl, fun _ => rfl, fun _ => rfl, ?_, ?_⟩
    · intro q
      by_cases hq : q = p
      · subst hq
        simpa using hb
      · simp [hq]
    · intro q hbuddy
      by_cases hq : q = p
      · subst hq
        simpa using ho hbuddy
      · simp [hq]
  · exact refl s

lemma setZone (s : State) (z : ZoneType) {f : Zone → Zone}
    (hf : ∀ zn, (f zn).freeArea = zn.freeArea ∧ (f zn).startPfn = zn.startPfn ∧
      (f zn).spannedPages = zn.spannedPages) :
    SameLists s (s.setZone z f) := by
  refine ⟨rfl, rfl, rfl, ?_, State.zone_setZone Zone.startPfn (hf _).2.1,
    State.zone_setZone Zone.spannedPages (hf _).2.2, fun _ => rfl, fun _ _ => rfl⟩
  intro z' k
  rw [State.area, State.zone_setZone Zone.freeArea (hf _).1, State.area]

lemma setOwned (s : State) (owned : List Block) : SameLists s { s with owned := owned } :=
  ⟨rfl, rfl, rfl, fun _ _ => rfl, fun _ => rfl, fun _ => rfl, fun _ => rfl, fun _ _ => rfl⟩

lemma freeLists (h : SameLists s t) {free : Lists} (hl : FreeLists s free) :
    FreeLists t free where
  maxOrder_lt := by
    rw [h.buddyMaxOrder]
    exact hl.maxOrder_lt
  threads z k hk := by
    rw [h.buddyNext, h.area]
    exact hl.threads z k hk
  count z k hk := by
    rw [h.area]
    exact hl.count z k hk
  nodup := hl.nodup
  mem_iff z k p := by
    rw [hl.mem_iff, h.totalPages, h.pfnToZone, h.buddy]
    constructor
    · rintro ⟨hp, hz, hb, ho⟩
      exact ⟨hp, hz, hb, (h.order p hb).trans ho⟩
    · rintro ⟨hp, hz, hb, ho⟩
      exact ⟨hp, hz, hb, (h.order p hb).symm.trans ho⟩
  aligned := hl.aligned
  order_le z k p hp := by
    rw [h.buddyMaxOrder]
    exact hl.order_le z k p hp

lemma geometry (h : SameLists s t) (hg : Geometry s) : Geometry t := by
  intro z p hp
  rw [h.totalPages] at hp
  rw [h.pfnToZone, Zone.endPfn, h.startPfn, h.spannedPages]
  exact hg z p hp

end SameLists

/--
The free blocks of the zone `z` and the blocks `held` tile the frames
`H`, all of them frames of the zone other than frame zero, and no two free
blocks below the largest order are buddies.
-/
structure Stock (s : State) (free : Lists) (z : ZoneType) (held : Multiset Block)
    (H : Finset Nat) : Prop where
  lists : FreeLists s free
  geometry : Geometry s
  frames : ∀ f ∈ H, f ≠ 0 ∧ f < s.totalPages ∧ s.pfnToZone f = z
  tiles : Tiles (held + freeBlocks free z) H
  apart : ∀ k, k < s.buddyMaxOrder → ∀ p ∈ free z k, p ^^^ 2 ^ k ∉ free z k

/-- A change of the free lists of the zone `z` alone. -/
structure Serves (z : ZoneType) (s : State) (free : Lists) (s' : State) (free' : Lists) :
    Prop where
  keeps : Keeps s s'
  other : ∀ z', z' ≠ z → free' z' = free z'

namespace Serves

variable {z : ZoneType} {s s' s'' : State} {free free' free'' : Lists}

lemma refl (z : ZoneType) (s : State) (free : Lists) : Serves z s free s free :=
  ⟨Keeps.refl s, fun _ _ => rfl⟩

lemma trans (h : Serves z s free s' free') (h' : Serves z s' free' s'' free'') :
    Serves z s free s'' free'' :=
  ⟨h.keeps.trans h'.keeps, fun z' hz => (h'.other z' hz).trans (h.other z' hz)⟩

end Serves

namespace Stock

variable {s : State} {free : Lists} {z : ZoneType} {held : Multiset Block} {H : Finset Nat}
variable {k n o order p : Nat} {s' : State} {free' : Lists} {b : Block}

section

variable (h : Stock s free z held H)
include h

lemma of_serves {z' : ZoneType} (hs : Serves z' s free s' free')
    (hz : z ≠ z') (hlists : FreeLists s' free') :
    Stock s' free' z held H where
  lists := hlists
  geometry := hs.keeps.geometry h.geometry
  frames f hf := by
    rw [hs.keeps.totalPages, hs.keeps.pfnToZone]
    exact h.frames f hf
  tiles := by
    rw [freeBlocks_congr (hs.other z hz)]
    exact h.tiles
  apart := by
    rw [hs.keeps.buddyMaxOrder, hs.other z hz]
    exact h.apart

lemma of_tiles {held' : Multiset Block} (hkeeps : Keeps s s')
    (hlists : FreeLists s' free') (htiles : Tiles (held' + freeBlocks free' z) H)
    (hapart : ∀ k, k < s.buddyMaxOrder → ∀ p ∈ free' z k, p ^^^ 2 ^ k ∉ free' z k) :
    Stock s' free' z held' H where
  lists := hlists
  geometry := hkeeps.geometry h.geometry
  frames f hf := by
    rw [hkeeps.totalPages, hkeeps.pfnToZone]
    exact h.frames f hf
  tiles := htiles
  apart := by
    rw [hkeeps.buddyMaxOrder]
    exact hapart

lemma of_same (hs : SameLists s s') :
    Stock s' free z held H where
  lists := hs.freeLists h.lists
  geometry := hs.geometry h.geometry
  frames f hf := by
    rw [hs.totalPages, hs.pfnToZone]
    exact h.frames f hf
  tiles := h.tiles
  apart := by
    rw [hs.buddyMaxOrder]
    exact h.apart

lemma mem_of_buddy (hp : p < s.totalPages) (hz : s.pfnToZone p = z)
    (hbuddy : (s.memMap p).buddy = true) :
    (⟨p, (s.memMap p).order⟩ : Block) ∈ freeBlocks free z := by
  have hmem : p ∈ free z (s.memMap p).order := (h.lists.mem_iff _ _ _).mpr ⟨hp, hz, hbuddy, rfl⟩
  exact mem_freeBlocks.mpr ⟨lt_of_le_of_lt (h.lists.order_le _ _ _ hmem) h.lists.maxOrder_lt, hmem⟩

lemma buddy_of_not_mem (hp : p < s.totalPages)
    (hz : s.pfnToZone p = z) (hH : p ∉ H) : (s.memMap p).buddy = false := by
  by_contra hb
  have hmem := h.mem_of_buddy hp hz (by simpa using hb)
  exact hH (h.tiles.base_mem (mem_add.mpr (.inr hmem)))

end

lemma base_of_held (h : Stock s free z (b ::ₘ held) H) :
    b.base ≠ 0 ∧ b.base < s.totalPages ∧ s.pfnToZone b.base = z ∧
      (s.memMap b.base).buddy = false := by
  have hbase := h.frames b.base (h.tiles.base_mem (by simp))
  refine ⟨hbase.1, hbase.2.1, hbase.2.2, ?_⟩
  by_contra hb
  -- a listed frame would head a free block that overlaps the held one
  have hblock : (⟨b.base, (s.memMap b.base).order⟩ : Block) ∈ held + freeBlocks free z :=
    mem_add.mpr (.inr (h.mem_of_buddy hbase.2.1 hbase.2.2 (by simpa using hb)))
  have htiles := h.tiles
  rw [cons_add] at htiles
  exact htiles.ne_base_of_cons hblock rfl

lemma end_of_held (h : Stock s free z (b ::ₘ held) H) :
    b.base + 2 ^ b.order ≤ (s.zone z).endPfn ∧ b.base + 2 ^ b.order ≤ s.totalPages := by
  obtain ⟨_, hlt, hz⟩ := h.frames _ (h.tiles.last_mem (b := b) (by simp))
  have hend := ((h.geometry z _ hlt).mp hz).2
  omega

lemma end_of_free (h : Stock s free z held H) (hp : p ∈ free z k) :
    (s.zone z).startPfn ≤ p ∧ p + 2 ^ k ≤ (s.zone z).endPfn := by
  have hk := lt_of_le_of_lt (h.lists.order_le z k p hp) h.lists.maxOrder_lt
  have hmem : (⟨p, k⟩ : Block) ∈ held + freeBlocks free z :=
    mem_add.mpr (.inr (mem_freeBlocks.mpr ⟨hk, hp⟩))
  obtain ⟨_, hlt, hz⟩ := h.frames p (h.tiles.base_mem hmem)
  obtain ⟨_, hlt', hz'⟩ := h.frames _ (h.tiles.last_mem hmem)
  have hstart := ((h.geometry z p hlt).mp hz).1
  have hend := ((h.geometry z _ hlt').mp hz').2
  simp only at hend
  exact ⟨hstart, by omega⟩

lemma listAdd (h : Stock s free z (⟨p, k⟩ ::ₘ held) H) (hal : 2 ^ k ∣ p)
    (hk : k ≤ s.buddyMaxOrder) (hfree : k < s.buddyMaxOrder → p ^^^ 2 ^ k ∉ free z k) :
    Stock (buddyListAdd s z k p) (consAt free z k p) z held H ∧
      Serves z s free (buddyListAdd s z k p) (consAt free z k p) := by
  obtain ⟨hp0, hp, hz, hbuddy⟩ := h.base_of_held
  obtain ⟨hlists, hkeeps⟩ := h.lists.add hp0 hp hz hk hal hbuddy
  refine ⟨h.of_tiles hkeeps hlists ?_ ?_, hkeeps, fun z' hz' => consAt_of_ne k p hz'⟩
  · rw [freeBlocks_consAt (lt_of_le_of_lt hk h.lists.maxOrder_lt), add_cons]
    have htiles := h.tiles
    rw [cons_add] at htiles
    exact htiles
  · intro j hj q hq hbud
    have hself : q ^^^ 2 ^ j ^^^ 2 ^ j = q := by rw [Nat.xor_assoc, Nat.xor_self, Nat.xor_zero]
    have hne : q ^^^ 2 ^ j ≠ q := fun heq => absurd
      (Nat.xor_right_injective (heq.trans (Nat.xor_zero q).symm)) (Nat.two_pow_pos j).ne'
    unfold consAt at hq hbud
    by_cases hjk : j = k
    · subst hjk
      simp only [and_self, if_true, List.mem_cons] at hq hbud
      rcases hq with rfl | hq
      · exact hfree hj (hbud.resolve_left hne)
      · rcases hbud with hbud | hbud
        · rw [← hbud, hself] at hfree
          exact hfree hj hq
        · exact h.apart j hj q hq hbud
    · simp only [hjk, and_false, if_false] at hq hbud
      exact h.apart j hj q hq hbud

lemma of_erase (h : Stock s free z held H) (hp : p ∈ free z k) (hkeeps : Keeps s s')
    (hlists : FreeLists s' (eraseAt free z k p)) :
    Stock s' (eraseAt free z k p) z (⟨p, k⟩ ::ₘ held) H ∧
      Serves z s free s' (eraseAt free z k p) := by
  have hk := lt_of_le_of_lt (h.lists.order_le z k p hp) h.lists.maxOrder_lt
  refine ⟨h.of_tiles hkeeps hlists ?_ ?_, hkeeps, fun z' hz' => eraseAt_of_ne k p hz'⟩
  · have htiles := h.tiles
    rw [freeBlocks_eraseAt hk hp, add_cons] at htiles
    rw [cons_add]
    exact htiles
  · have hsub : ∀ j, eraseAt free z k p z j ⊆ free z j := by
      intro j
      unfold eraseAt
      split
      · next heq =>
        rw [heq.2]
        exact List.erase_subset
      · exact List.Subset.refl _
    exact fun j hj q hq hbud => h.apart j hj q (hsub j hq) (hsub j hbud)

/-! ## Splitting -/

/-- The splitting loop keeps the lower half of order `order` and frees the rest. -/
lemma split (h : Stock s free z (⟨p, o⟩ ::ₘ held) H) (hle : order ≤ o) (hal : 2 ^ o ∣ p)
    (ho : o ≤ s.buddyMaxOrder) :
    ∃ free', Stock (buddySplit z p order o s) free' z (⟨p, order⟩ ::ₘ held) H ∧
      Serves z s free (buddySplit z p order o s) free' := by
  induction o generalizing s free with
  | zero =>
    obtain rfl : order = 0 := by omega
    exact ⟨free, h, Serves.refl z s free⟩
  | succ o ih =>
    simp only [buddySplit]
    by_cases hlt : o + 1 > order
    · rw [if_pos hlt]
      have hal' : 2 ^ o ∣ p := (pow_dvd_pow 2 (Nat.le_succ o)).trans hal
      have hhalves : Stock s free z (⟨p + 2 ^ o, o⟩ ::ₘ ⟨p, o⟩ ::ₘ held) H := by
        refine h.of_tiles (Keeps.refl s) h.lists ?_ h.apart
        have htiles := h.tiles
        rw [cons_add, Tiles.split_iff] at htiles
        rw [cons_add, cons_add, cons_swap]
        exact htiles
      -- the lower half is the buddy, and it is held
      have hbuddy : p + 2 ^ o ^^^ 2 ^ o = p := by
        rw [← buddy_of_aligned hal, Nat.xor_assoc, Nat.xor_self, Nat.xor_zero]
      obtain ⟨hadd, hserves⟩ := hhalves.listAdd ((Nat.dvd_add_right hal').mpr dvd_rfl) (by omega)
        fun _ => by
          rw [hbuddy]
          exact h.lists.not_mem_of_buddy h.base_of_held.2.2.2 z o
      obtain ⟨free', hstock, hserves'⟩ := ih hadd (by omega) hal'
        (by rw [hserves.keeps.buddyMaxOrder]; omega)
      exact ⟨free', hstock, hserves.trans hserves'⟩
    · obtain rfl : order = o + 1 := by omega
      rw [if_neg hlt]
      exact ⟨free, h, Serves.refl z s free⟩

lemma allocFrom (h : Stock s free z held H) (hle : order ≤ o) (hn : o + n = s.buddyMaxOrder + 1) :
    (buddyAllocFrom z order n o s = (none, s)) ∨
      ∃ p s' free', buddyAllocFrom z order n o s = (some p, s') ∧ 2 ^ order ∣ p ∧
        order ≤ s.buddyMaxOrder ∧ Stock s' free' z (⟨p, order⟩ ::ₘ held) H ∧
        Serves z s free s' free' := by
  induction n generalizing o with
  | zero => exact .inl rfl
  | succ n ih =>
    by_cases hneg : (s.area z o).freeList < 0
    · simp only [buddyAllocFrom, if_pos hneg]
      exact ih (by omega) (by omega)
    · right
      have ho : o < maxOrder := lt_of_le_of_lt (by omega) h.lists.maxOrder_lt
      obtain ⟨p, rest, hl, hhead, _⟩ := (h.lists.threads z o ho).exists_cons (not_lt.mp hneg)
      have hmem : p ∈ free z o := by simp [hl]
      have hal := h.lists.aligned z o p hmem
      have hole := h.lists.order_le z o p hmem
      obtain ⟨hlists, hkeeps, _⟩ := h.lists.pop hl
      obtain ⟨hstock, hserves⟩ := h.of_erase hmem hkeeps hlists
      have hp0 : p ≠ 0 := hstock.base_of_held.1
      obtain ⟨free', hsplit, hserves'⟩ := hstock.split hle hal
        (by rw [hserves.keeps.buddyMaxOrder]; exact hole)
      have hbuddy := hsplit.base_of_held.2.2.2
      have hneg' : ¬ ((p : Int) < 0) := by omega
      have hne : ¬ ((p : Int) = 0) := by omega
      refine ⟨p, (buddySplit z p order o (buddyPop s z o p)).setPage p
        (fun pg => { pg with buddy := false, order := order }), free', ?_, ?_, ?_, ?_, ?_⟩
      · simp only [buddyAllocFrom, hhead, if_neg hneg', if_neg hne, Int.toNat_natCast]
      · exact (pow_dvd_pow 2 hle).trans hal
      · omega
      · refine hsplit.of_same (SameLists.setPage hbuddy.symm ?_)
        intro hb
        exact absurd (hbuddy.symm.trans hb) (by decide)
      · refine (hserves.trans hserves').trans ⟨?_, fun _ _ => rfl⟩
        exact Keeps.setPage _ _ fun _ => ⟨rfl, rfl⟩

lemma alloc (h : Stock s free z held H) (order : Nat) :
    (buddyAlloc s z order = (none, s)) ∨
      ∃ p s' free', buddyAlloc s z order = (some p, s') ∧ 2 ^ order ∣ p ∧
        order ≤ s.buddyMaxOrder ∧ Stock s' free' z (⟨p, order⟩ ::ₘ held) H ∧
        Serves z s free s' free' := by
  unfold buddyAlloc
  by_cases hle : order ≤ s.buddyMaxOrder + 1
  · exact h.allocFrom le_rfl (by omega)
  · left
    have hzero : s.buddyMaxOrder + 1 - order = 0 := by omega
    rw [hzero]
    rfl

/-! ## Merging -/

lemma merge (h : Stock s free z (⟨p, k⟩ ::ₘ held) H) (hal : 2 ^ k ∣ p)
    (hn : k + n = s.buddyMaxOrder) :
    ∃ p' k' s' free', buddyMerge z n p k s = (p', k', s') ∧ 2 ^ k' ∣ p' ∧
      k' ≤ s.buddyMaxOrder ∧ (k' < s.buddyMaxOrder → p' ^^^ 2 ^ k' ∉ free' z k') ∧
      Stock s' free' z (⟨p', k'⟩ ::ₘ held) H ∧ Serves z s free s' free' := by
  induction n generalizing s free p k with
  | zero => exact ⟨p, k, s, free, rfl, hal, by omega, fun hlt => by omega, h, Serves.refl z s free⟩
  | succ n ih =>
    have hstop : p ^^^ 2 ^ k ∉ free z k → ∃ p' k' s' free', (p, k, s) = (p', k', s') ∧
        2 ^ k' ∣ p' ∧ k' ≤ s.buddyMaxOrder ∧
        (k' < s.buddyMaxOrder → p' ^^^ 2 ^ k' ∉ free' z k') ∧
        Stock s' free' z (⟨p', k'⟩ ::ₘ held) H ∧ Serves z s free s' free' :=
      fun hnot => ⟨p, k, s, free, rfl, hal, by omega, fun _ => hnot, h, Serves.refl z s free⟩
    have hmin : (if p ^^^ 2 ^ k < p then p ^^^ 2 ^ k else p) = min p (p ^^^ 2 ^ k) := by
      split <;> omega
    simp only [buddyMerge, hmin]
    split
    · refine hstop fun hmem => ?_
      have hend := h.end_of_free hmem
      omega
    · by_cases hfit : min p (p ^^^ 2 ^ k) + 2 ^ (k + 1) > (s.zone z).endPfn
      · -- the end of the zone would cut one of the two blocks
        rw [if_pos hfit]
        refine hstop fun hmem => ?_
        have hend := h.end_of_free hmem
        have hend' := h.end_of_held.1
        simp only at hend'
        rw [pow_succ] at hfit
        rcases buddy_cases hal with ⟨_, heq⟩ | ⟨_, heq⟩ <;> omega
      · rw [if_neg hfit]
        by_cases hfree : p ^^^ 2 ^ k < s.totalPages ∧ (s.memMap (p ^^^ 2 ^ k)).buddy = true ∧
            (s.memMap (p ^^^ 2 ^ k)).order = k
        · rw [if_neg (not_not.mpr hfree)]
          have hz : s.pfnToZone (p ^^^ 2 ^ k) = z :=
            (h.geometry z _ hfree.1).mpr ⟨by omega, by omega⟩
          have hmem : p ^^^ 2 ^ k ∈ free z k :=
            (h.lists.mem_iff _ _ _).mpr ⟨hfree.1, hz, hfree.2⟩
          obtain ⟨hlists, hkeeps, _⟩ := h.lists.remove hmem
          obtain ⟨hstock, hserves⟩ := h.of_erase hmem hkeeps hlists
          have hfused : Stock (buddyListRemove s z k (p ^^^ 2 ^ k))
              (eraseAt free z k (p ^^^ 2 ^ k)) z
              (⟨min p (p ^^^ 2 ^ k), k + 1⟩ ::ₘ held) H := by
            refine hstock.of_tiles (Keeps.refl _) hstock.lists ?_ hstock.apart
            have htiles := hstock.tiles
            rw [cons_add, cons_add, cons_swap] at htiles
            rw [cons_add]
            exact htiles.fuse hal
          obtain ⟨p', k', s', free', heq, hal', hk', hnot, hstock', hserves'⟩ :=
            ih hfused (aligned_min_buddy hal) (by rw [hserves.keeps.buddyMaxOrder]; omega)
          rw [hserves.keeps.buddyMaxOrder] at hk' hnot
          exact ⟨p', k', s', free', heq, hal', hk', hnot, hstock', hserves.trans hserves'⟩
        · rw [if_pos hfree]
          refine hstop fun hmem => hfree ?_
          obtain ⟨hlt, -, hflags⟩ := (h.lists.mem_iff z k _).mp hmem
          exact ⟨hlt, hflags⟩

end Stock

/-- A block that ends inside the zone is not shrunk. -/
lemma buddyShrink_eq {zoneEnd p k : Nat} (h : p + 2 ^ k ≤ zoneEnd) :
    buddyShrink zoneEnd p k = k := by
  cases k with
  | zero => rfl
  | succ k =>
    simp only [buddyShrink]
    rw [if_neg (by omega)]

/-- `buddy_free_block`: a held block becomes free, merged with its free buddies. -/
lemma Stock.freeBlock {s : State} {free : Lists} {z : ZoneType} {held : Multiset Block}
    {H : Finset Nat} {p k : Nat} (h : Stock s free z (⟨p, k⟩ ::ₘ held) H) (hal : 2 ^ k ∣ p)
    (hk : k ≤ s.buddyMaxOrder) :
    ∃ free', Stock (buddyFreeBlock s z p k) free' z held H ∧
      Serves z s free (buddyFreeBlock s z p k) free' := by
  obtain ⟨p', k', s', free', heq, hal', hk', hnot, hstock, hserves⟩ :=
    h.merge hal (n := s.buddyMaxOrder - k) (by omega)
  have hend : p' + 2 ^ k' ≤ (s.zone z).endPfn := by
    rw [← hserves.keeps.endPfn]
    exact hstock.end_of_held.1
  have hadd : buddyFreeBlock s z p k = buddyListAdd s' z k' p' := by
    simp only [buddyFreeBlock, heq, buddyShrink_eq hend]
  obtain ⟨hfinal, hserves'⟩ := hstock.listAdd hal' (by rw [hserves.keeps.buddyMaxOrder]; exact hk')
    (by rw [hserves.keeps.buddyMaxOrder]; exact hnot)
  rw [hadd]
  exact ⟨consAt free' z k' p', hfinal, hserves.trans hserves'⟩

end LiteKernel.Mm.PageAlloc
