import LiteKernel.Lib.Run
import LiteKernel.Mm.PageCacheLists

/-!
# The accounts of the page cache

Every mapping counts its pages, its clean pages and its dirty pages, and `wb_dirty_pages` counts the
dirty pages of all mappings and the dirty buffers.

Main results:

- Theorem `dirty_accounting`: the counters agree with the lists and the hash chains in every run,
  as long as no allocation reclaims pages in the middle of a call.
-/

namespace LiteKernel.Mm.PageCache

open Function Lib List State

variable {s t : State} {m p index : Nat} {a : AddressSpace} {entry entry' : Nat → Entry}

/-! ## The accounts -/

/-- The chains of a mapping have the entries of its lists, and the counters their numbers. -/
structure Booked (entry : Nat → Entry) (a : AddressSpace) : Prop where
  dirty : ∀ p ∈ a.dirtyPages, (entry p).dirty = true
  chained : ∀ p, p ∈ a.cleanPages ∨ p ∈ a.dirtyPages →
    p ∈ a.pageHash ((entry p).index % hashSize)
  once : ∀ p q, p ∈ a.cleanPages ∨ p ∈ a.dirtyPages → q ∈ a.cleanPages ∨ q ∈ a.dirtyPages →
    (entry p).index = (entry q).index → p = q
  nrpages : a.nrpages = a.cleanPages.length + a.dirtyPages.length
  nrpagesClean : a.nrpagesClean = a.cleanPages.length
  nrpagesDirty : a.nrpagesDirty = a.dirtyPages.length

/-- All mappings are booked, and the global counter has their dirty pages and the dirty buffers. -/
structure Accounts (s : State) : Prop extends Listed s where
  booked : ∀ m, Booked s.entry (s.mapping m)
  count : ∃ S : Finset Nat, (∀ m, m ∉ S → (s.mapping m).nrpagesDirty = 0) ∧
    s.wbDirtyPages = ∑ m ∈ S, (s.mapping m).nrpagesDirty + s.dirtyBuffers.card

lemma Booked.congr (h : Booked entry a)
    (hentry : ∀ p, p ∈ a.cleanPages ∨ p ∈ a.dirtyPages →
      (entry' p).index = (entry p).index ∧ (entry' p).dirty = (entry p).dirty) :
    Booked entry' a where
  dirty p hp := (hentry p (.inr hp)).2.trans (h.dirty p hp)
  chained p hp := (hentry p hp).1 ▸ h.chained p hp
  once p q hp hq hpq := h.once p q hp hq (by rwa [← (hentry p hp).1, ← (hentry q hq).1])
  nrpages := h.nrpages
  nrpagesClean := h.nrpagesClean
  nrpagesDirty := h.nrpagesDirty

namespace Accounts

section

variable (h : Accounts s)
include h

lemma dirty_le (m : Nat) : (s.mapping m).nrpagesDirty ≤ s.wbDirtyPages := by
  obtain ⟨S, hzero, hsum⟩ := h.count
  by_cases hm : m ∈ S
  · have hle := Finset.single_le_sum (f := fun i => (s.mapping i).nrpagesDirty)
      (fun _ _ => Nat.zero_le _) hm
    rw [hsum]
    exact hle.trans (Nat.le_add_right _ _)
  · rw [hzero m hm]
    exact Nat.zero_le _

lemma not_mem_dirty (hp : p ∈ (s.mapping m).cleanPages) : p ∉ (s.mapping m).dirtyPages := by
  intro hd
  have hclean := (h.pages m).clean p hp
  rw [(h.booked m).dirty p hd] at hclean
  cases hclean

lemma change (ht : Listed t) (hother : ∀ i, i ≠ m → t.mapping i = s.mapping i)
    (hentry : ∀ i, i ≠ m → ∀ q, OnList s i q →
      (t.entry q).index = (s.entry q).index ∧ (t.entry q).dirty = (s.entry q).dirty)
    (hm : Booked t.entry (t.mapping m)) (hbuffers : t.dirtyBuffers = s.dirtyBuffers)
    (hcount : t.wbDirtyPages + (s.mapping m).nrpagesDirty =
      s.wbDirtyPages + (t.mapping m).nrpagesDirty) : Accounts t where
  toListed := ht
  booked i := by
    rcases eq_or_ne i m with rfl | hi
    · exact hm
    · rw [hother i hi]
      exact (h.booked i).congr (hentry i hi)
  count := by
    obtain ⟨S, hzero, hsum⟩ := h.count
    have hold : ∑ i ∈ insert m S, (s.mapping i).nrpagesDirty =
        ∑ i ∈ S, (s.mapping i).nrpagesDirty :=
      Finset.sum_insert_of_eq_zero_if_notMem (hzero m)
    have hrest : ∑ i ∈ (insert m S).erase m, (t.mapping i).nrpagesDirty =
        ∑ i ∈ (insert m S).erase m, (s.mapping i).nrpagesDirty :=
      Finset.sum_congr rfl fun i hi => by rw [hother i (Finset.ne_of_mem_erase hi)]
    have hmem := Finset.mem_insert_self m S
    refine ⟨insert m S, fun i hi => ?_, ?_⟩
    · have hne : i ≠ m := fun e => hi (e ▸ hmem)
      rw [hother i hne]
      exact hzero i fun hS => hi (Finset.mem_insert_of_mem hS)
    · have hs := Finset.add_sum_erase (insert m S) (fun i => (s.mapping i).nrpagesDirty) hmem
      have ht' := Finset.add_sum_erase (insert m S) (fun i => (t.mapping i).nrpagesDirty) hmem
      rw [hbuffers]
      omega

/-! ## The changes of the cache -/

lemma setData (p : Nat) (f : Entry → PageData) :
    Accounts (s.setEntry p fun e => { e with data := f e }) := by
  have hentry : ∀ q, ((s.setEntry p fun e => { e with data := f e }).entry q).index =
      (s.entry q).index ∧ ((s.setEntry p fun e => { e with data := f e }).entry q).dirty =
        (s.entry q).dirty := by
    intro q
    by_cases hq : q = p
    · subst hq
      simp [setEntry]
    · simp [setEntry, hq]
  exact ⟨closed_listed.setData p f h.toListed, fun m => (h.booked m).congr fun q _ => hentry q,
    h.count⟩

lemma syncBuffers : Accounts (syncDirtyBuffersAll s).2 := by
  refine ⟨closed_listed.syncBuffers h.toListed, h.booked, ?_⟩
  obtain ⟨S, hzero, hsum⟩ := h.count
  refine ⟨S, hzero, ?_⟩
  have hsub := Finset.filter_subset (fun b => s.bufferStores 0 b = true) s.dirtyBuffers
  have hcard := Finset.card_sdiff_add_card_eq_card hsub
  simp only [syncDirtyBuffersAll]
  omega

lemma setSize (m n : Nat) : Accounts (s.setMapping m fun a => { a with iSize := n }) := by
  have hself : (s.setMapping m fun a => { a with iSize := n }).mapping m =
      { s.mapping m with iSize := n } := by simp [setMapping]
  have hb := h.booked m
  refine h.change (m := m) (closed_listed.setSize m n h.toListed)
    (fun i hi => by simp [setMapping, hi]) (fun _ _ _ _ => ⟨rfl, rfl⟩) ?_ rfl ?_
  · rw [hself]
    exact ⟨hb.dirty, hb.chained, hb.once, hb.nrpages, hb.nrpagesClean, hb.nrpagesDirty⟩
  · rw [hself]
    rfl

lemma add (hnone : findGetPage s m index = none) : Accounts (addToPageCache s m index).2 := by
  obtain ⟨-, hother, hmap⟩ := addToPageCache_fields s m index
  have hadd := fun i q (hq : OnList s i q) => h.toListed.entry_add hq m index
  have hself := addToPageCache_self s m index
  have hb := h.booked m
  -- No page of the mapping has the index: it would have been found.
  have hnew : ∀ q, OnList s m q → (s.entry q).index ≠ index := by
    rintro q hq rfl
    have hfind := List.find?_eq_none.mp hnone q (hb.chained q hq)
    simp at hfind
  refine h.change (h.toListed.add m index) hother (fun i _ q hq => by rw [hadd i q hq]; simp) ?_ rfl
    (by rw [hmap]; rfl)
  have hmem := fun q => (addToPageCache_mem s m index (i := m) (q := q)).1
  refine ⟨fun q hq => ?_, fun q hq => ?_, fun q r hq hr hqr => ?_, ?_, ?_, ?_⟩
  · rw [hmap] at hq
    rw [hadd m q (.inr hq)]
    exact hb.dirty q hq
  · rw [((addToPageCache_mem s m index).2 _)]
    rcases (hmem q).mp hq with hold | ⟨-, rfl⟩
    · rw [hadd m q hold]
      exact .inl (hb.chained q hold)
    · rw [hself]
      exact .inr ⟨rfl, rfl, rfl⟩
  · rcases (hmem q).mp hq with hold | ⟨-, rfl⟩ <;> rcases (hmem r).mp hr with hold' | ⟨-, rfl⟩
    · rw [hadd m q hold, hadd m r hold'] at hqr
      exact hb.once q r hold hold' hqr
    · rw [hadd m q hold, hself] at hqr
      exact absurd hqr (hnew q hold)
    · rw [hadd m r hold', hself] at hqr
      exact absurd hqr.symm (hnew r hold')
    · rfl
  · simp only [hmap, length_append, length_singleton, hb.nrpages]
    omega
  · simp only [hmap, length_append, length_singleton, hb.nrpagesClean]
  · simp only [hmap, hb.nrpagesDirty]

lemma chained_moves (hmove : Moves m p s t) (hp : OnList s m p) :
    (∀ q, OnList t m q → q ∈ (t.mapping m).pageHash ((t.entry q).index % hashSize)) ∧
      ∀ q r, OnList t m q → OnList t m r → (t.entry q).index = (t.entry r).index → q = r := by
  have hb := h.booked m
  refine ⟨fun q hq => ?_, fun q r hq hr hqr => ?_⟩
  · rw [hmove.pageHash, hmove.index_eq]
    exact hb.chained q ((hmove.onList hp m q).mp hq)
  · rw [hmove.index_eq, hmove.index_eq] at hqr
    exact hb.once q r ((hmove.onList hp m q).mp hq) ((hmove.onList hp m r).mp hr) hqr

lemma entry_other (hp : OnList s m p)
    (hentry : ∀ q, q ≠ p → t.entry q = s.entry q) (i : Nat) (hi : i ≠ m) (q : Nat)
    (hq : OnList s i q) :
    (t.entry q).index = (s.entry q).index ∧ (t.entry q).dirty = (s.entry q).dirty := by
  rw [hentry q (h.toListed.ne_of_other hi (.inl hp) hq)]
  exact ⟨rfl, rfl⟩

lemma markDirty (hp : OnList s m p) : Accounts (markDirty s m p) := by
  by_cases hd : (s.entry p).dirty = true
  · rw [PageCache.markDirty, if_pos hd]
    exact h
  obtain ⟨hmove, hentry, hmap⟩ := markDirty_moves hd m
  have hb := h.booked m
  have hclean : p ∈ (s.mapping m).cleanPages := hp.resolve_right fun hc => hd (hb.dirty p hc)
  have hnot := h.not_mem_dirty hclean
  obtain ⟨hchained, honce⟩ := h.chained_moves hmove hp
  have hpos := length_pos_of_mem hclean
  refine h.change (hmove.listed h.toListed hp) hmove.other (h.entry_other hp hmove.entry)
    ⟨fun q hq => ?_, hchained, honce, ?_, ?_, ?_⟩ ?_ ?_
  · rw [hentry]
    by_cases hq' : q = p
    · rw [hq', update_self]
    · rw [update_of_ne hq']
      rw [hmap] at hq
      simp only [mem_append, mem_singleton, hq', or_false] at hq
      exact hb.dirty q (mem_of_mem_erase hq)
  · simp only [hmap, length_append, length_singleton, erase_of_not_mem hnot,
      length_erase_of_mem hclean, hb.nrpages]
    omega
  · simp only [hmap, length_erase_of_mem hclean, hb.nrpagesClean]
  · simp only [hmap, length_append, length_singleton, erase_of_not_mem hnot, hb.nrpagesDirty]
  · simp [PageCache.markDirty, hd, lruDel, setMapping, setEntry]
  · rw [hmap]
    simp [PageCache.markDirty, hd, lruDel, setMapping, setEntry]
    omega

end

lemma flushPage_counts (hd : (s.entry p).dirty = true) (m n : Nat) :
    (flushPage m (n, s) p).2.wbDirtyPages = s.wbDirtyPages - 1 ∧
      (flushPage m (n, s) p).2.dirtyBuffers = s.dirtyBuffers := by
  cases hops : (s.mapping m).aOps <;> simp [flushPage, hd, hops, writepage, accountCleaned, lruDel,
    setEntry, setMapping]

lemma flushPage (h : Accounts s) (n : Nat) (hp : p ∈ (s.mapping m).dirtyPages) :
    Accounts (flushPage m (n, s) p).2 := by
  obtain ⟨hentry, -, hmap, -⟩ := flushPage_fields m n s p
  have hmove := flushPage_moves m n s p
  have hb := h.booked m
  have hd := hb.dirty p hp
  have hnot : p ∉ (s.mapping m).cleanPages := fun hc => h.not_mem_dirty hc hp
  obtain ⟨hchained, honce⟩ := h.chained_moves hmove (.inr hp)
  obtain ⟨hwb, hbuffers⟩ := flushPage_counts hd m n
  have hpos := length_pos_of_mem hp
  have hle := h.dirty_le m
  rw [hb.nrpagesDirty] at hle
  refine h.change (hmove.listed h.toListed (.inr hp)) hmove.other
    (h.entry_other (.inr hp) hmove.entry) ⟨fun q hq => ?_, hchained, honce, ?_, ?_, ?_⟩
    hbuffers ?_
  · rw [hmap] at hq
    have hq' : q ≠ p := fun e => ((h.pages m).dirtyNodup.mem_erase_iff.mp hq).1 e
    rw [hentry, update_of_ne hq']
    exact hb.dirty q (mem_of_mem_erase hq)
  · simp only [hmap, length_append, length_singleton, erase_of_not_mem hnot,
      length_erase_of_mem hp, hb.nrpages]
    omega
  · simp only [hmap, length_append, length_singleton, erase_of_not_mem hnot, hb.nrpagesClean]
  · simp only [hmap, length_erase_of_mem hp, hb.nrpagesDirty]
  · simp only [hwb, hmap, hb.nrpagesDirty]
    omega

lemma drop (h : Accounts s) (ht : Listed t) (hdrop : Drops m p s t) (hp : OnList s m p)
    (hdirty : ∀ q, q ≠ p → (t.entry q).dirty = (s.entry q).dirty)
    (hbuffers : t.dirtyBuffers = s.dirtyBuffers)
    (hpages : (t.mapping m).nrpages = (s.mapping m).nrpages - 1)
    (hclean : (t.mapping m).nrpagesClean = (t.mapping m).cleanPages.length)
    (hnr : (t.mapping m).nrpagesDirty = (t.mapping m).dirtyPages.length)
    (hcount : t.wbDirtyPages + (s.mapping m).nrpagesDirty =
      s.wbDirtyPages + (t.mapping m).nrpagesDirty) : Accounts t := by
  have hb := h.booked m
  have hold := h.pages m
  have hne : ∀ q, OnList t m q → OnList s m q ∧ q ≠ p := by
    intro q hq
    refine ⟨hdrop.onList hq, ?_⟩
    rintro rfl
    rw [OnList, hdrop.cleanPages, hdrop.dirtyPages] at hq
    rcases hq with hq | hq
    · exact hold.cleanNodup.not_mem_erase hq
    · exact hold.dirtyNodup.not_mem_erase hq
  refine h.change ht hdrop.other (fun i hi q hq => ?_)
    ⟨fun q hq => ?_, fun q hq => ?_, fun q r hq hr hqr => ?_, ?_, hclean, hnr⟩ hbuffers hcount
  · exact ⟨hdrop.index q, hdirty q (h.toListed.ne_of_other hi (.inl hp) hq)⟩
  · rw [hdirty q (hne q (.inr hq)).2]
    rw [hdrop.dirtyPages] at hq
    exact hb.dirty q (mem_of_mem_erase hq)
  · have hchain := hb.chained q (hne q hq).1
    rw [hdrop.index, hdrop.pageHash]
    split
    · exact (mem_erase_of_ne (hne q hq).2).mpr hchain
    · exact hchain
  · rw [hdrop.index, hdrop.index] at hqr
    exact hb.once q r (hne q hq).1 (hne r hr).1 hqr
  · rw [hpages, hdrop.cleanPages, hdrop.dirtyPages, hb.nrpages]
    rcases hp with hp | hp
    · have hpos := length_pos_of_mem hp
      rw [length_erase_of_mem hp, erase_of_not_mem (h.not_mem_dirty hp)]
      omega
    · have hpos := length_pos_of_mem hp
      rw [length_erase_of_mem hp, erase_of_not_mem fun hc => h.not_mem_dirty hc hp]
      omega

lemma dropClean (h : Accounts s) (hp : p ∈ (s.mapping m).cleanPages) :
    Accounts (dropClean m s p) := by
  have hdrop := dropClean_drops m s p
  have hb := h.booked m
  have hmap : ((PageCache.dropClean m s p).mapping m).nrpages = (s.mapping m).nrpages - 1 ∧
      ((PageCache.dropClean m s p).mapping m).nrpagesClean = (s.mapping m).nrpagesClean - 1 ∧
      ((PageCache.dropClean m s p).mapping m).nrpagesDirty = (s.mapping m).nrpagesDirty := by
    simp [PageCache.dropClean, lruDel, pageCacheHashDel, setMapping]
  refine h.drop (closed_listed.dropClean h.toListed hp) hdrop (.inl hp) (fun _ _ => rfl) rfl
    hmap.1 ?_ ?_ ?_
  · rw [hmap.2.1, hdrop.cleanPages, length_erase_of_mem hp, hb.nrpagesClean]
  · rw [hmap.2.2, hdrop.dirtyPages, erase_of_not_mem (h.not_mem_dirty hp), hb.nrpagesDirty]
  · rw [hmap.2.2]
    rfl

lemma dropDirty (h : Accounts s) (hp : p ∈ (s.mapping m).dirtyPages) :
    Accounts (dropDirty m s p) := by
  have hdrop := (dropDirty_drops m s p).1
  have hb := h.booked m
  have hd := hb.dirty p hp
  have hpos := length_pos_of_mem hp
  have hle := h.dirty_le m
  rw [hb.nrpagesDirty] at hle
  have hmap : ((PageCache.dropDirty m s p).mapping m).nrpages = (s.mapping m).nrpages - 1 ∧
      ((PageCache.dropDirty m s p).mapping m).nrpagesClean = (s.mapping m).nrpagesClean ∧
      ((PageCache.dropDirty m s p).mapping m).nrpagesDirty = (s.mapping m).nrpagesDirty - 1 ∧
      (PageCache.dropDirty m s p).wbDirtyPages = s.wbDirtyPages - 1 ∧
      (PageCache.dropDirty m s p).dirtyBuffers = s.dirtyBuffers ∧
      ∀ q, q ≠ p → (PageCache.dropDirty m s p).entry q = s.entry q := by
    refine ⟨?_, ?_, ?_, ?_, ?_, fun q hq => ?_⟩
    on_goal 6 => simp [PageCache.dropDirty, hd, lruDel, pageCacheHashDel, setMapping,
      setEntry, accountCleaned, hq]
    all_goals simp [PageCache.dropDirty, hd, lruDel, pageCacheHashDel, setMapping,
      setEntry, accountCleaned]
  obtain ⟨hpages, hclean, hnr, hwb, hbuffers, hentry⟩ := hmap
  refine h.drop (closed_listed.dropDirty h.toListed hp) hdrop (.inr hp)
    (fun q hq => by rw [hentry q hq]) hbuffers hpages ?_ ?_ ?_
  · rw [hclean, hdrop.cleanPages, erase_of_not_mem fun hc => h.not_mem_dirty hc hp, hb.nrpagesClean]
  · rw [hnr, hdrop.dirtyPages, length_erase_of_mem hp, hb.nrpagesDirty]
  · rw [hwb, hnr, hb.nrpagesDirty]
    omega

end Accounts

lemma closed_accounts : Closed Accounts where
  listed h := h.toListed
  setData p f h := h.setData p f
  syncBuffers h := h.syncBuffers
  setSize m n h := h.setSize m n
  add h hnone := h.add hnone
  markDirty h hp := h.markDirty hp
  flushPage n h hp := h.flushPage n hp
  dropClean h hp := h.dropClean hp
  dropDirty h hp := h.dropDirty hp
  reclaim h hp :=
    have hd := h.dropClean hp
    ⟨closed_listed.reclaim h.toListed hp, hd.booked, hd.count⟩

/-! ## Buffers -/

/-- `mark_buffer_dirty`. -/
def markBufferDirty (s : State) (b : Nat) : State :=
  if b ∈ s.dirtyBuffers then s
  else { s with wbDirtyPages := s.wbDirtyPages + 1, dirtyBuffers := insert b s.dirtyBuffers }

/--
`sync_dirty_buffer`; `valid` says that the buffer has a device, data and a size, and
`stored` that the block write is complete.
-/
def syncDirtyBuffer (s : State) (b : Nat) (valid stored : Bool) : Int × State :=
  if valid = false then (-1, s)
  else if b ∉ s.dirtyBuffers then (0, s)
  else if stored = false then (-1, s)
  else (0, accountCleaned { s with dirtyBuffers := s.dirtyBuffers.erase b })

/-- `invalidate_buffer`, for the buffer that `bh_lookup` finds. -/
def invalidateBuffer (s : State) : Option Nat → State
  | none => s
  | some b =>
    if b ∈ s.dirtyBuffers then
      accountCleaned { s with dirtyBuffers := s.dirtyBuffers.erase b }
    else s

lemma Accounts.buffers (h : Accounts s) {w : Nat} {B : Finset Nat}
    (hcount : w + s.dirtyBuffers.card = s.wbDirtyPages + B.card) :
    Accounts { s with wbDirtyPages := w, dirtyBuffers := B } := by
  obtain ⟨S, hzero, hsum⟩ := h.count
  refine ⟨⟨h.pages, h.apart⟩, h.booked, S, hzero, ?_⟩
  dsimp only
  omega

lemma Accounts.eraseBuffer (h : Accounts s) {b : Nat} (hb : b ∈ s.dirtyBuffers) :
    Accounts (accountCleaned { s with dirtyBuffers := s.dirtyBuffers.erase b }) := by
  have hcard := Finset.card_erase_add_one hb
  obtain ⟨S, -, hsum⟩ := h.count
  have hcount : s.wbDirtyPages - 1 + s.dirtyBuffers.card =
      s.wbDirtyPages + (s.dirtyBuffers.erase b).card := by omega
  exact h.buffers hcount

/-! ## Sequences of calls -/

inductive Call where
  | read (m offset size : Nat)
  | write (m offset : Nat) (buf : List UInt8)
  | truncate (m : Nat)
  | reclaimOne
  | flushAll
  | markBuffer (b : Nat)
  | syncBuffer (b : Nat) (valid stored : Bool)
  | invalidateBuffer (b : Option Nat)

def call (s : State) : Call → State
  | .read m offset size => (genericFileRead s m offset size).2
  | .write m offset buf => (genericFileWrite s m offset buf).2
  | .truncate m => truncateInodePages s m 0
  | .reclaimOne => (pageCacheReclaimOne s).2
  | .flushAll => (writebackFlushAll s).2
  | .markBuffer b => markBufferDirty s b
  | .syncBuffer b valid stored => (syncDirtyBuffer s b valid stored).2
  | .invalidateBuffer b => invalidateBuffer s b

lemma Accounts.call (h : Accounts s) (c : Call) : Accounts (call s c) := by
  cases c with
  | read m offset size => exact closed_accounts.genericFileRead h m offset size
  | write m offset buf => exact closed_accounts.genericFileWrite h m offset buf
  | truncate m => exact closed_accounts.truncateInodePages h m 0
  | reclaimOne => exact closed_accounts.reclaimOne h
  | flushAll => exact closed_accounts.writebackFlushAll h
  | markBuffer b =>
    simp only [PageCache.call, markBufferDirty]
    split
    · exact h
    · next hb => exact h.buffers (by rw [Finset.card_insert_of_notMem hb]; omega)
  | syncBuffer b valid stored =>
    simp only [PageCache.call, syncDirtyBuffer]
    split
    · exact h
    · split
      case isTrue => exact h
      case isFalse hb =>
        split
        · exact h
        · exact h.eraseBuffer (not_not.mp hb)
  | invalidateBuffer b =>
    cases b with
    | none => exact h
    | some b =>
      simp only [PageCache.call, invalidateBuffer]
      split
      · next hb => exact h.eraseBuffer hb
      · exact h

/-- The entries on all chains of a mapping. -/
def hashed (a : AddressSpace) : List Nat :=
  (List.range hashSize).flatMap a.pageHash

/-- Chains, lists, flags and counters agree. -/
structure Accounted (s : State) : Prop where
  once : ∀ m, ((hashed (s.mapping m)).map fun p => (s.entry p).index).Nodup
  nrpages : ∀ m, (s.mapping m).nrpages = (hashed (s.mapping m)).length
  partition : ∀ m, ((s.mapping m).cleanPages ++ (s.mapping m).dirtyPages).Perm
    (hashed (s.mapping m))
  nodup : ∀ m, (hashed (s.mapping m)).Nodup
  nrpagesClean : ∀ m, (s.mapping m).nrpagesClean = (s.mapping m).cleanPages.length
  nrpagesDirty : ∀ m, (s.mapping m).nrpagesDirty = (s.mapping m).dirtyPages.length
  dirty : ∀ m, ∀ p ∈ hashed (s.mapping m),
    (p ∈ (s.mapping m).dirtyPages ↔ (s.entry p).dirty = true)
  count : ∃ S : Finset Nat, (∀ m, m ∉ S → (s.mapping m).nrpagesDirty = 0) ∧
    s.wbDirtyPages = ∑ m ∈ S, (s.mapping m).nrpagesDirty + s.dirtyBuffers.card

lemma Accounts.mem_hashed (h : Accounts s) (m p : Nat) :
    p ∈ hashed (s.mapping m) ↔ OnList s m p := by
  unfold hashed
  rw [mem_flatMap]
  constructor
  · rintro ⟨b, -, hp⟩
    exact (h.pages m).hashed b p hp
  · exact fun hp => ⟨_, mem_range.mpr (Nat.mod_lt _ (by decide)), (h.booked m).chained p hp⟩

lemma Accounts.nodup_hashed (h : Accounts s) (m : Nat) : (hashed (s.mapping m)).Nodup := by
  refine nodup_flatMap.mpr ⟨fun b _ => (h.pages m).chainNodup b, ?_⟩
  refine (nodup_range).imp fun hne => ?_
  intro p hp hp'
  exact hne (((h.pages m).bucket _ p hp).symm.trans ((h.pages m).bucket _ p hp'))

lemma Accounts.accounted (h : Accounts s) : Accounted s := by
  have hlists : ∀ m, ((s.mapping m).cleanPages ++ (s.mapping m).dirtyPages).Nodup := fun m =>
    nodup_append.mpr ⟨(h.pages m).cleanNodup, (h.pages m).dirtyNodup,
      fun p hp q hq hpq => h.not_mem_dirty hp (hpq ▸ hq)⟩
  have hperm : ∀ m, ((s.mapping m).cleanPages ++ (s.mapping m).dirtyPages).Perm
      (hashed (s.mapping m)) := by
    intro m
    refine (perm_ext_iff_of_nodup (hlists m) (h.nodup_hashed m)).mpr fun p => ?_
    rw [h.mem_hashed, mem_append, OnList]
  refine ⟨fun m => ?_, fun m => ?_, hperm, h.nodup_hashed, fun m => (h.booked m).nrpagesClean,
    fun m => (h.booked m).nrpagesDirty, fun m p hp => ⟨(h.booked m).dirty p, fun hd => ?_⟩, h.count⟩
  · refine List.Nodup.map_on (fun p hp q hq hpq => ?_) (h.nodup_hashed m)
    exact (h.booked m).once p q ((h.mem_hashed m p).mp hp) ((h.mem_hashed m q).mp hq) hpq
  · rw [← (hperm m).length_eq, length_append, (h.booked m).nrpages]
  · refine ((h.mem_hashed m p).mp hp).resolve_left fun hc => ?_
    rw [(h.pages m).clean p hc] at hd
    cases hd

/-- New files, with or without a device behind them, and an empty cache. -/
def initial (aOps : Nat → Option Device) (files : List Nat) : State where
  entry _ := { index := 0, data := fun _ => 0, dirty := false }
  nextEntry := 0
  mapping m := addressSpaceInit (aOps m)
  mappingList := files
  wbDirtyPages := 0
  dirtyBuffers := ∅
  bufferStores _ _ := true
  cleaned := []
  reclaimed := []

/-- An empty cache over files of the given sizes; `stores` says which block writes succeed. -/
def booted (aOps : Nat → Option Device) (iSize : Nat → Nat) (files : List Nat)
    (stores : Nat → Nat → Bool) : State :=
  { initial aOps files with
    mapping := fun m => { addressSpaceInit (aOps m) with iSize := iSize m }
    bufferStores := stores }

lemma accounts_booted (aOps : Nat → Option Device) (iSize : Nat → Nat) (files : List Nat)
    (stores : Nat → Nat → Bool) : Accounts (booted aOps iSize files stores) where
  toListed := listed_of_empty fun _ => ⟨rfl, rfl, fun _ => rfl⟩
  booked _ := ⟨nofun, fun _ h => (not_mem_nil (h.elim id id)).elim,
    fun _ _ h => (not_mem_nil (h.elim id id)).elim, rfl, rfl, rfl⟩
  count := ⟨∅, fun _ _ => rfl, rfl⟩

/--
Whatever is read, written, truncated, reclaimed and written back, the accounts agree. Pages are
reclaimed between the calls, not inside an allocation of a write, and no allocation fails.
-/
theorem dirty_accounting (aOps : Nat → Option Device) (iSize : Nat → Nat) (files : List Nat)
    (stores : Nat → Nat → Bool) (calls : List Call) :
    Accounted (run call (booted aOps iSize files stores) calls) := by
  have hok : RunOk call (fun _ _ => True) (booted aOps iSize files stores) calls :=
    runOk_of_forall_mem (fun _ _ _ => trivial) _
  exact (run_invariant Accounts (fun _ c h _ => h.call c)
    (accounts_booted aOps iSize files stores) hok).accounted

end LiteKernel.Mm.PageCache
