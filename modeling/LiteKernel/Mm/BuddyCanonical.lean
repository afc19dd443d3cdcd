import LiteKernel.Mm.BuddyConservation

/-!
# The free lists are canonical

`buddy_free_block` merges a block with its buddy as long as the buddy is free, and `buddy_alloc`
splits a block only to hold one of its parts.

Main results:

- Theorem `buddy_canonical`: no two buddies are free side by side.
- Theorem `freeBlocks_of_held`: what the callers hold determines the free blocks.
-/

namespace LiteKernel.Mm.PageAlloc

open Lib List

/-- The block is on the free list of its order. -/
def State.IsFree (s : State) (z : ZoneType) (c : Block) : Prop :=
  c.order < maxOrder ∧ ∃ l, Threads s.buddyNext (s.area z c.order).freeList l ∧ c.base ∈ l

/-- The frame belongs to a free block. -/
def State.FrameFree (s : State) (z : ZoneType) (f : Nat) : Prop :=
  ∃ c, s.IsFree z c ∧ f ∈ c.frames

/-- The frame belongs to a block that is held. -/
def State.Held (s : State) (f : Nat) : Prop :=
  ∃ c ∈ s.owned, f ∈ c.frames

/-- Freeing the held blocks with these indices, one after the other, frees all `n` of them. -/
def FreesAll : List Nat → Nat → Prop
  | [], n => n = 0
  | i :: is, n => i < n ∧ FreesAll is (n - 1)

namespace Inv

variable {b : BootInfo} {s t : State} {free free' : Lists} {z : ZoneType} {f : Nat}

section

variable (h : Inv b s free)
include h

lemma isFree_iff (c : Block) : s.IsFree z c ↔ c ∈ freeBlocks free z := by
  rw [mem_freeBlocks]
  refine and_congr_right fun hk => ⟨?_, fun hc => ⟨_, (h.stock z).lists.threads z _ hk, hc⟩⟩
  rintro ⟨l, hl, hc⟩
  rwa [((h.stock z).lists.threads z _ hk).unique hl]

/-- The free blocks of a zone tile their frames, and no two of them are buddies. -/
lemma canonical {F : Finset Nat} (hF : Tiles (freeBlocks free z) F) :
    Canonical (initZones b).buddyMaxOrder (freeBlocks free z) F where
  tiles := hF
  aligned c hc := (h.stock z).lists.aligned z _ _ (mem_freeBlocks.mp hc).2
  order_le c hc := by
    rw [← h.limit]
    exact (h.stock z).lists.order_le z _ _ (mem_freeBlocks.mp hc).2
  apart c hc hk hbuddy := by
    rw [← h.limit] at hk
    exact (h.stock z).apart _ hk _ (mem_freeBlocks.mp hc).2 (mem_freeBlocks.mp hbuddy).2

/-- States with the same free frames have the same free blocks. -/
lemma freeBlocks_eq (h' : Inv b t free') (hframes : ∀ f, s.FrameFree z f ↔ t.FrameFree z f) :
    freeBlocks free z = freeBlocks free' z := by
  have hsame : ((freeBlocks free z).bind Block.frames).toFinset =
      ((freeBlocks free' z).bind Block.frames).toFinset := by
    ext f
    have hf := hframes f
    simp only [State.FrameFree, h.isFree_iff, h'.isFree_iff] at hf
    simpa only [Multiset.mem_toFinset, Multiset.mem_bind] using hf
  have hs := h.canonical (h.stock z).tiles.of_add
  have ht := h'.canonical (h'.stock z).tiles.of_add
  rw [hsame] at hs
  exact hs.unique ht

lemma tiles_of_owned_nil (hown : s.owned = []) : Tiles (freeBlocks free z) (handed b z) := by
  have htiles := (h.stock z).tiles
  rw [ownedIn, hown] at htiles
  simpa using htiles

lemma nrFree_eq (h' : Inv b t free') (hs : s.owned = []) (ht : t.owned = [])
    {k : Nat} (hk : k < maxOrder) : (s.area z k).nrFree = (t.area z k).nrFree := by
  have heq := (h.canonical (h.tiles_of_owned_nil (z := z) hs)).unique
    (h'.canonical (h'.tiles_of_owned_nil ht))
  rw [(h.stock z).lists.count z k hk, (h'.stock z).lists.count z k hk]
  refine ((perm_ext_iff_of_nodup ((h.stock z).lists.nodup z k)
    ((h'.stock z).lists.nodup z k)).mpr fun p => ?_).length_eq
  have hmem : (⟨p, k⟩ : Block) ∈ freeBlocks free z ↔ (⟨p, k⟩ : Block) ∈ freeBlocks free' z := by
    rw [heq]
  simpa only [mem_freeBlocks, hk, true_and] using hmem

lemma freesAll {is : List Nat} (his : FreesAll is s.owned.length) :
    (∃ free', Inv b (calls (is.map .free) s) free') ∧ (calls (is.map .free) s).owned = [] := by
  induction is generalizing s free with
  | nil => exact ⟨⟨free, h⟩, eq_nil_of_length_eq_zero his⟩
  | cons i is ih =>
    obtain ⟨hi, hrest⟩ := his
    obtain ⟨s', free', hok, hown, hinv⟩ := freePages_of_owned h (getElem?_eq_getElem hi)
    have hstep : call (.free i) s = { s' with owned := s'.owned.eraseIdx i } := by
      simp only [call, PageAlloc.disown, getElem?_eq_getElem hi, hok]
    simp only [map_cons, calls, hstep]
    refine ih hinv ?_
    rwa [hown, length_eraseIdx_of_lt hi]

/-- A frame that was handed to a zone is free or held. -/
lemma frameFree_iff : s.FrameFree z f ↔ f ∈ handed b z ∧ ¬ s.Held f := by
  have htiles := (h.stock z).tiles
  simp only [State.FrameFree, h.isFree_iff]
  constructor
  · rintro ⟨c, hc, hf⟩
    have hmem : c ∈ ownedIn s z + freeBlocks free z := Multiset.mem_add.mpr (.inr hc)
    have hhanded := htiles.mem_iff.mpr ⟨c, hmem, hf⟩
    refine ⟨hhanded, ?_⟩
    rintro ⟨d, hd, hfd⟩
    have hzone : s.pfnToZone d.base = z :=
      ((h.stock _).frames f (h.frames_of_owned hd f hfd)).2.2.symm.trans
        ((h.stock z).frames f hhanded).2.2
    have hdz : d ∈ ownedIn s z := mem_ownedIn.mpr ⟨hd, hzone⟩
    have heq : d = c := htiles.eq_of_mem (Multiset.mem_add.mpr (.inl hdz)) hmem hfd hf
    exact Multiset.disjoint_left.mp (Multiset.nodup_add.mp htiles.nodup).2.2 hdz (heq ▸ hc)
  · rintro ⟨hhanded, hheld⟩
    obtain ⟨c, hc, hf⟩ := htiles.mem_iff.mp hhanded
    refine ⟨c, (Multiset.mem_add.mp hc).resolve_left fun hown => ?_, hf⟩
    exact hheld ⟨c, (mem_ownedIn.mp hown).1, hf⟩

/-- Where the free blocks are the same, so are the frames that are held. -/
lemma held_of_isFree (h' : Inv b t free') (hfree : ∀ z c, s.IsFree z c ↔ t.IsFree z c)
    (hf : s.Held f) : t.Held f := by
  obtain ⟨c, hc, hfc⟩ := hf
  have hhanded := h.frames_of_owned hc f hfc
  have hnot : ¬ t.FrameFree (s.pfnToZone c.base) f := by
    rintro ⟨d, hd, hfd⟩
    exact (h.frameFree_iff.mp ⟨d, (hfree _ d).mpr hd, hfd⟩).2 ⟨c, hc, hfc⟩
  by_contra hheld
  exact hnot (h'.frameFree_iff.mpr ⟨hhanded, hheld⟩)

end

end Inv

/--
After every sequence of calls: no two free blocks of a zone below the largest order are buddies;
the free blocks of a zone are those of every reachable state with the same free frames; and when
the blocks that are held are freed in any order, the free counts are those that `mem_init` left.
-/
theorem buddy_canonical (b : BootInfo) (cs : List Call) :
    let s := calls cs (memInit b)
    (∀ z k p, k < s.buddyMaxOrder → s.IsFree z ⟨p, k⟩ → ¬ s.IsFree z ⟨p ^^^ 2 ^ k, k⟩) ∧
      (∀ cs' z, (∀ f, s.FrameFree z f ↔ (calls cs' (memInit b)).FrameFree z f) →
        ∀ c, s.IsFree z c ↔ (calls cs' (memInit b)).IsFree z c) ∧
      ∀ is, FreesAll is s.owned.length → ∀ z k, k < maxOrder →
        ((calls (is.map .free) s).area z k).nrFree = ((memInit b).area z k).nrFree := by
  intro s
  obtain ⟨free0, hinit⟩ := memInit_handing b
  obtain ⟨free, hinv⟩ := calls_inv cs hinit.inv
  refine ⟨fun z k p hk hp hbuddy => ?_, fun cs' z hframes c => ?_, fun is his z k hk => ?_⟩
  · rw [hinv.isFree_iff, mem_freeBlocks] at hp hbuddy
    exact (hinv.stock z).apart k hk p hp.2 hbuddy.2
  · obtain ⟨free', hinv'⟩ := calls_inv cs' hinit.inv
    rw [hinv.isFree_iff, hinv'.isFree_iff, hinv.freeBlocks_eq hinv' hframes]
  · obtain ⟨⟨free', hall⟩, hnil⟩ := hinv.freesAll his
    exact hall.nrFree_eq hinit.inv hnil hinit.owned hk

/--
The free blocks do not depend on the history: two sequences of calls leave the same free blocks
in every zone exactly when they leave the same frames in the hands of the callers.
-/
theorem freeBlocks_of_held (b : BootInfo) (cs cs' : List Call) :
    let s := calls cs (memInit b)
    let t := calls cs' (memInit b)
    (∀ f, s.Held f ↔ t.Held f) ↔ ∀ z c, s.IsFree z c ↔ t.IsFree z c := by
  intro s t
  obtain ⟨free0, hinit⟩ := memInit_inv b
  obtain ⟨free, hs⟩ := calls_inv cs hinit
  obtain ⟨free', ht⟩ := calls_inv cs' hinit
  constructor
  · intro hheld z c
    have hframes : ∀ f, s.FrameFree z f ↔ t.FrameFree z f := fun f => by
      rw [hs.frameFree_iff, ht.frameFree_iff, hheld]
    rw [hs.isFree_iff, ht.isFree_iff, hs.freeBlocks_eq ht hframes]
  · exact fun hfree f => ⟨hs.held_of_isFree ht hfree,
      ht.held_of_isFree hs fun z c => (hfree z c).symm⟩

end LiteKernel.Mm.PageAlloc
