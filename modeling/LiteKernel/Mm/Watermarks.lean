import LiteKernel.Mm.BuddyConservation

/-!
# The reserve of a zone

`zone_watermark_ok` subtracts the pages of the request from the free pages of the zone before
it compares them with the watermark, and splitting a block gives back all of it but these pages.

Main results:

- Theorem `reserve_kept`: an allocation leaves its zone with more free pages than the lowest
  watermark.
-/

namespace LiteKernel.Mm.PageAlloc

open Lib Multiset

variable {b : BootInfo} {s t : State} {free : Lists} {z : ZoneType}
variable {gfp order p : Nat} {mark : Watermark} {reclaim : ZoneType → State → State}

/-! ## Free pages -/

lemma zoneFreePages_eq_sum (h : FreeLists s free) (z : ZoneType) :
    zoneFreePages s z = ((freeBlocks free z).map fun c => 2 ^ c.order).sum := by
  have hsum : ∀ k ∈ Finset.range maxOrder, (s.area z k).nrFree * 2 ^ k =
      (((free z k : Multiset Nat).map fun p => (⟨p, k⟩ : Block)).map fun c => 2 ^ c.order).sum := by
    intro k hk
    rw [h.count z k (Finset.mem_range.mp hk)]
    simp [Function.comp_def]
  have hmap : (freeBlocks free z).map (fun c => 2 ^ c.order) = ∑ k ∈ Finset.range maxOrder,
      ((free z k : Multiset Nat).map fun p => (⟨p, k⟩ : Block)).map fun c => 2 ^ c.order := by
    unfold freeBlocks
    rw [← coe_mapAddMonoidHom, map_sum]
  have hadd : ∀ g : Nat → Multiset Nat, (∑ k ∈ Finset.range maxOrder, g k).sum =
      ∑ k ∈ Finset.range maxOrder, (g k).sum := fun g => map_sum sumAddMonoidHom g _
  rw [hmap, hadd, ← Finset.sum_congr rfl hsum]
  rfl

lemma Stock.zoneFreePages_eq {held : Multiset Block} {H : Finset Nat}
    (h : Stock s free z held H) :
    (held.map fun c => 2 ^ c.order).sum + zoneFreePages s z = H.card := by
  rw [zoneFreePages_eq_sum h.lists, ← sum_add, ← map_add]
  exact h.tiles.sum_eq_card

/-! ## Watermarks -/

/-- The watermarks of the zones. -/
def State.marks (s : State) (z : ZoneType) : Watermark → Nat :=
  (s.zone z).watermark

lemma marks_setZone {s : State} {z : ZoneType} {f : Zone → Zone}
    (hf : (f (s.zone z)).watermark = (s.zone z).watermark) : (s.setZone z f).marks = s.marks :=
  funext (State.zone_setZone Zone.watermark hf)

@[simp]
lemma marks_setArea (s : State) (z : ZoneType) (k : Nat) (f : FreeArea → FreeArea) :
    (s.setArea z k f).marks = s.marks :=
  marks_setZone rfl

@[simp]
lemma marks_setNext (s : State) (i : Nat) (v : Int) : (s.setNext i v).marks = s.marks :=
  rfl

@[simp]
lemma marks_setPage (s : State) (p : Nat) (f : Page → Page) : (s.setPage p f).marks = s.marks := by
  unfold State.setPage
  split <;> rfl

@[simp]
lemma marks_buddyListAdd (s : State) (z : ZoneType) (k p : Nat) :
    (buddyListAdd s z k p).marks = s.marks := by
  unfold buddyListAdd
  split <;> simp

@[simp]
lemma marks_buddyListRemove (s : State) (z : ZoneType) (k p : Nat) :
    (buddyListRemove s z k p).marks = s.marks := by
  unfold buddyListRemove
  split
  · rfl
  · dsimp only
    split <;> simp

lemma marks_buddySplit (z : ZoneType) (page order o : Nat) (s : State) :
    (buddySplit z page order o s).marks = s.marks := by
  induction o generalizing s with
  | zero => rfl
  | succ o ih =>
    unfold buddySplit
    split
    · rw [ih, marks_buddyListAdd]
    · rfl

lemma marks_buddyAllocFrom (z : ZoneType) (order n o : Nat) (s : State) :
    (buddyAllocFrom z order n o s).2.marks = s.marks := by
  induction n generalizing o s with
  | zero => rfl
  | succ n ih =>
    have hpop : ∀ page, (buddyPop s z o page).marks = s.marks := fun _ => by simp [buddyPop]
    simp only [buddyAllocFrom]
    split
    · exact ih (o + 1) s
    · split
      · rw [ih, hpop]
      · simp only [marks_setPage, marks_buddySplit, hpop]

lemma marks_buddyMerge (z : ZoneType) (n page k : Nat) (s : State) :
    (buddyMerge z n page k s).2.2.marks = s.marks := by
  induction n generalizing page k s with
  | zero => rfl
  | succ n ih =>
    unfold buddyMerge
    dsimp only
    generalize (if page ^^^ 2 ^ k < page then page ^^^ 2 ^ k else page) = newBase
    split
    · rfl
    split
    · rfl
    split
    · rfl
    rw [ih, marks_buddyListRemove]

lemma marks_setRefcounts (n frame : Nat) (s : State) :
    (setRefcounts n frame s).marks = s.marks := by
  induction n generalizing frame s with
  | zero => rfl
  | succ n ih => rw [setRefcounts, ih, marks_setPage]

lemma marks_putFrames (n idx : Nat) (s : State) : (putFrames n idx s).2.marks = s.marks := by
  have hframe : ∀ (s : State) (idx : Nat), (putFrame s idx).2.marks = s.marks := by
    intro s idx
    have hdel : (lruDel s idx).marks = s.marks := by
      unfold lruDel
      split
      · rfl
      · rw [marks_setPage]
        exact marks_setZone rfl
    unfold putFrame
    split
    · rfl
    · dsimp only
      split_ifs <;> simp [hdel]
  induction n generalizing idx s with
  | zero => rfl
  | succ n ih => simp only [putFrames, ih, hframe]

lemma marks_disown (s : State) (i : Nat) : (disown s i).marks = s.marks := by
  unfold disown
  split
  · rfl
  rename_i c _
  split
  · rfl
  rename_i t ht
  have hmarks : t.marks = s.marks := by
    unfold freePages at ht
    dsimp only at ht
    split_ifs at ht <;> cases ht
    · simp only [buddyFreeBlock, marks_buddyListAdd, marks_buddyMerge, marks_putFrames]
    · exact marks_putFrames _ _ s
  exact hmarks

section

variable (hreclaim : ∀ z s, (reclaim z s).marks = s.marks)
include hreclaim

lemma marks_allocZone (order : Nat) (mark : Watermark) (z : ZoneType) (s : State) :
    (allocZone reclaim order mark z s).2.marks = s.marks := by
  have halloc : (buddyAlloc s z order).2.marks = s.marks := marks_buddyAllocFrom _ _ _ _ s
  unfold allocZone
  split
  · rcases hr : buddyAlloc s z order with ⟨_ | p, t⟩ <;> rw [hr] at halloc
    · exact halloc
    · exact (marks_setRefcounts _ _ _).trans halloc
  · split
    · exact hreclaim z s
    · rfl

lemma marks_allocRounds (order : Nat) (rounds : List (Watermark × ZoneType)) (s : State) :
    (allocRounds reclaim order rounds s).2.marks = s.marks := by
  induction rounds generalizing s with
  | nil => rfl
  | cons round rounds ih =>
    have hzone := marks_allocZone hreclaim order round.1 round.2 s
    simp only [allocRounds]
    rcases hr : allocZone reclaim order round.1 round.2 s with ⟨_ | p, t⟩ <;> rw [hr] at hzone
    · exact (ih t).trans hzone
    · exact hzone

lemma marks_allocPages (gfp order : Nat)
    (s : State) : (allocPages reclaim gfp order s).2.marks = s.marks := by
  have htries : ∀ n s, (allocPagesTries reclaim gfp order n s).2.marks = s.marks := by
    intro n
    induction n with
    | zero => exact fun _ => rfl
    | succ n ih =>
      intro s
      have hrounds : (allocPagesNodemask reclaim gfp order s).2.marks = s.marks :=
        marks_allocRounds hreclaim order _ s
      simp only [allocPagesTries]
      rcases hr : allocPagesNodemask reclaim gfp order s with ⟨_ | p, t⟩ <;> rw [hr] at hrounds
      · exact hrounds
      · dsimp only
        split
        · rw [ih, marks_setPage]
          exact hrounds
        · exact hrounds
  exact htries 4 s

end

mutual

lemma marks_call : ∀ (c : Call) (s : State), (call c s).marks = s.marks
  | .alloc gfp order reclaim, s => by
    have halloc := marks_allocPages (fun z s => marks_calls (reclaim z) s) gfp order s
    unfold call
    rcases hr : allocPages (fun z s => calls (reclaim z) s) gfp order s with ⟨_ | p, t⟩ <;>
      rw [hr] at halloc <;> exact halloc
  | .free i, s => by
    unfold call
    exact marks_disown s i
  | .lruAdd pfn, s => by
    unfold call lruAddInactive
    split
    · rfl
    dsimp only
    split
    · rfl
    rw [marks_setPage]
    exact marks_setZone rfl

lemma marks_calls : ∀ (cs : List Call) (s : State), (calls cs s).marks = s.marks
  | [], s => by rw [calls]
  | c :: cs, s => by rw [calls, marks_calls cs, marks_call c]

end

/-- The watermarks rise. -/
def State.Marked (s : State) : Prop :=
  ∀ z mark, s.marks z .min ≤ s.marks z mark

lemma memInit_marked (b : BootInfo) : (memInit b).Marked := by
  have hsetup : ∀ (zn : Zone) mark, (setupWmarks zn).watermark .min ≤ (setupWmarks zn).watermark mark := by
    intro zn mark
    unfold setupWmarks
    cases mark <;> dsimp only <;> omega
  intro z mark
  cases z with
  | dma => exact hsetup _ mark
  | normal => exact hsetup _ mark

/-! ## The reserve -/

/-- What a successful allocation leaves in the zone `z` of its block. -/
def LeavesReserve (order p : Nat) (z : ZoneType) (t : State) : Prop :=
  (t.zone z).watermark .min < zoneFreePages t z ∧
    ∀ f ∈ (Block.mk p order).frames, t.pfnToZone f = z

lemma allocZone_leavesReserve (h : Inv b s free) (hmarks : s.Marked)
    (ht : allocZone reclaim order mark z s = (some p, t)) : LeavesReserve order p z t := by
  unfold allocZone at ht
  split at ht
  · rename_i hok
    rcases (h.stock z).alloc order with hnone | ⟨q, s', free', hsome, -, -, hstock, -⟩
    · rw [hnone] at ht
      cases ht
    · have hsame := setRefcounts_spec (2 ^ order) q s'
      have hm : (setRefcounts (2 ^ order) q s').marks = s.marks := by
        rw [marks_setRefcounts]
        have halloc := marks_buddyAllocFrom z order (s.buddyMaxOrder + 1 - order) order s
        rw [← buddyAlloc, hsome] at halloc
        exact halloc
      rw [hsome] at ht
      cases ht
      have hstock' := hstock.of_same hsame.1
      constructor
      · have hbefore := (h.stock z).zoneFreePages_eq
        have hafter := hstock'.zoneFreePages_eq
        rw [map_cons, sum_cons] at hafter
        have hmin := hmarks z mark
        have hwater : (s.zone z).watermark mark < zoneFreePages s z - 2 ^ order := by
          unfold zoneWatermarkOk at hok
          split at hok
          · cases hok
          · exact of_decide_eq_true hok
        show (setRefcounts (2 ^ order) p s').marks z .min < _
        rw [hm]
        unfold State.marks at hmin ⊢
        dsimp only at hafter
        omega
      · intro f hf
        refine (hstock'.frames f (hstock'.tiles.mem_iff.mpr ⟨_, ?_, hf⟩)).2.2
        exact mem_add.mpr (.inl (mem_cons_self _ _))
  · cases ht

/-- The zone of the block is one of those that were looked at. -/
lemma allocRounds_leavesReserve (hreclaim : ∀ z s free, Inv b s free → ∃ free', Inv b (reclaim z s) free')
    (hkeep : ∀ z s, (reclaim z s).marks = s.marks) (h : Inv b s free) (hmarks : s.Marked)
    {rounds : List (Watermark × ZoneType)} (ht : allocRounds reclaim order rounds s = (some p, t)) :
    ∃ round ∈ rounds, LeavesReserve order p round.2 t := by
  induction rounds generalizing s free with
  | nil => cases ht
  | cons round rounds ih =>
    have hspec := allocZone_spec hreclaim h order round.1 round.2
    have hzone := marks_allocZone hkeep order round.1 round.2 s
    simp only [allocRounds] at ht
    rcases hr : allocZone reclaim order round.1 round.2 s with ⟨_ | q, s'⟩
    · rw [hr] at ht hspec hzone
      obtain ⟨free', h'⟩ := hspec
      have hmarks' : s'.Marked := by
        unfold State.Marked
        rw [show s'.marks = s.marks from hzone]
        exact hmarks
      obtain ⟨round', hmem, hleaves⟩ := ih h' hmarks' ht
      exact ⟨round', List.mem_cons_of_mem _ hmem, hleaves⟩
    · rw [hr] at ht
      cases ht
      exact ⟨round, List.mem_cons_self, allocZone_leavesReserve h hmarks hr⟩

/--
After `mem_init` and any calls, a successful `__alloc_pages_nodemask` leaves the zone of its
block with more free pages than the lowest watermark, and `GFP_DMA` gets frames of the DMA zone.
-/
theorem reserve_kept (b : BootInfo) (cs : List Call) (gfp order : Nat)
    (reclaim : ZoneType → List Call) {p : Nat} {t : State}
    (ht : allocPagesNodemask (fun z s => calls (reclaim z) s) gfp order (calls cs (memInit b)) =
      (some p, t)) :
    ∃ z, (∀ f ∈ (Block.mk p order).frames, t.pfnToZone f = z) ∧
      (t.zone z).watermark .min < zoneFreePages t z ∧ (gfp.testBit 0 = true → z = .dma) := by
  obtain ⟨free, hinit⟩ := memInit_inv b
  obtain ⟨free', hinv⟩ := calls_inv cs hinit
  have hmarks : (calls cs (memInit b)).Marked := by
    unfold State.Marked
    rw [marks_calls]
    exact memInit_marked b
  obtain ⟨round, hround, hmin, hframes⟩ := allocRounds_leavesReserve
    (fun z _ _ hs => calls_inv (reclaim z) hs) (fun z s => marks_calls (reclaim z) s) hinv hmarks ht
  refine ⟨round.2, hframes, hmin, fun hgfp => ?_⟩
  obtain ⟨mark, -, hmem⟩ := List.mem_flatMap.mp hround
  obtain ⟨z, hz, rfl⟩ := List.mem_map.mp hmem
  unfold zonelist at hz
  rw [if_pos hgfp] at hz
  split at hz
  · exact List.mem_singleton.mp hz
  · cases hz

/-- Sixty-four frames of the DMA zone; a block of four of them leaves sixty. -/
def sixtyFourFrames : BootInfo where
  totalPages := 320
  mmap := [⟨true, 0x100000, 0x40000⟩]
  reserved := [⟨0, 0x100000⟩]
  totalPages_pos := by decide
  totalPages_le := by decide

theorem reserve_kept_sixtyFour :
    ∃ p t, allocPagesNodemask (fun _ s => calls [] s) 1 2 (calls [] (memInit sixtyFourFrames)) =
        (some p, t) ∧
      ∃ z, (∀ f ∈ (Block.mk p 2).frames, t.pfnToZone f = z) ∧
        (t.zone z).watermark .min < zoneFreePages t z ∧ (Nat.testBit 1 0 = true → z = .dma) := by
  have hsome : (allocPagesNodemask (fun _ s => calls [] s) 1 2
      (calls [] (memInit sixtyFourFrames))).1 = some 256 := by
    decide +kernel
  rcases hr : allocPagesNodemask (fun _ s => calls [] s) 1 2 (calls [] (memInit sixtyFourFrames)) with
    ⟨r, t⟩
  rw [hr] at hsome
  subst hsome
  exact ⟨256, t, rfl, reserve_kept sixtyFourFrames [] 1 2 (fun _ => []) hr⟩

end LiteKernel.Mm.PageAlloc
