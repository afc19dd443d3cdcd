import LiteKernel.Mm.PageCache

/-!
# The lists and the chains of the page cache

Every cached page of a file is on one of its two lists, and a hash chain leads to it: `Listed`.
The calls change the cache in few ways: a page is added, moved between the lists or dropped, and
bytes, sizes and counters change.

Main results:

- Structure `Closed`: a property that these changes keep is kept by every call.
-/

namespace LiteKernel.Mm.PageCache

open Function Lib List State

variable {s t : State} {m p index : Nat}

/-- The entry is on one of the two lists of the mapping. -/
def OnList (s : State) (m p : Nat) : Prop :=
  p ∈ (s.mapping m).cleanPages ∨ p ∈ (s.mapping m).dirtyPages

/-- The chains of a mapping hold entries of its lists, each once, and the clean list clean ones. -/
structure PagesOk (entry : Nat → Entry) (next : Nat) (a : AddressSpace) : Prop where
  cleanNodup : a.cleanPages.Nodup
  dirtyNodup : a.dirtyPages.Nodup
  fresh : ∀ p, p ∈ a.cleanPages ∨ p ∈ a.dirtyPages → p < next
  clean : ∀ p ∈ a.cleanPages, (entry p).dirty = false
  bucket : ∀ b, ∀ p ∈ a.pageHash b, (entry p).index % hashSize = b
  chainNodup : ∀ b, (a.pageHash b).Nodup
  hashed : ∀ b, ∀ p ∈ a.pageHash b, p ∈ a.cleanPages ∨ p ∈ a.dirtyPages

/-- No entry is listed by two mappings. -/
structure Listed (s : State) : Prop where
  pages : ∀ m, PagesOk s.entry s.nextEntry (s.mapping m)
  apart : ∀ m m' p, OnList s m p → OnList s m' p → m = m'

/-- The entry keeps its index, and is clean if it was. -/
def Entry.Still (e e' : Entry) : Prop :=
  e'.index = e.index ∧ (e.dirty = false → e'.dirty = false)

lemma Entry.still_of_eq {e e' : Entry} (h : e' = e) : e.Still e' :=
  h ▸ ⟨rfl, fun hd => hd⟩

lemma findGetPage_some (h : findGetPage s m index = some p) :
    p ∈ (s.mapping m).pageHash (index % hashSize) ∧ (s.entry p).index = index := by
  refine ⟨mem_of_find?_eq_some h, ?_⟩
  have hp := List.find?_some h
  simpa using hp

/-! ## Changes of one mapping -/

namespace Listed

lemma found (h : Listed s) (hp : findGetPage s m index = some p) : OnList s m p :=
  (h.pages m).hashed _ p (findGetPage_some hp).1

lemma ne_of_other {i q : Nat} (h : Listed s) (hi : i ≠ m) (hp : OnList s m p ∨ s.nextEntry ≤ p)
    (hq : OnList s i q) : q ≠ p := by
  rintro rfl
  rcases hp with hp | hp
  · exact hi (h.apart i m q hq hp)
  · exact not_lt.mpr hp ((h.pages i).fresh q hq)

lemma change (h : Listed s) (hnext : s.nextEntry ≤ t.nextEntry)
    (hother : ∀ i, i ≠ m → t.mapping i = s.mapping i)
    (hentry : ∀ i, i ≠ m → ∀ q, OnList s i q → (s.entry q).Still (t.entry q))
    (hlist : ∀ q, OnList t m q → OnList s m q ∨ s.nextEntry ≤ q)
    (hm : PagesOk t.entry t.nextEntry (t.mapping m)) : Listed t where
  pages i := by
    rcases eq_or_ne i m with rfl | hi
    · exact hm
    · have hold := h.pages i
      have hstill := hentry i hi
      rw [hother i hi]
      exact { hold with
        fresh := fun q hq => (hold.fresh q hq).trans_le hnext
        clean := fun q hq => (hstill q (.inl hq)).2 (hold.clean q hq)
        bucket := fun b q hq => by
          rw [(hstill q (hold.hashed b q hq)).1]
          exact hold.bucket b q hq }
  apart i i' q hq hq' := by
    have hold : ∀ j, OnList t j q → OnList s j q ∨ (j = m ∧ s.nextEntry ≤ q) := by
      intro j hj
      rcases eq_or_ne j m with rfl | hne
      · exact (hlist q hj).imp_right fun hlt => ⟨rfl, hlt⟩
      · rw [OnList, hother j hne] at hj
        exact .inl hj
    have hlt : ∀ j, OnList s j q → ¬ s.nextEntry ≤ q := fun j hj =>
      not_le.mpr ((h.pages j).fresh q hj)
    rcases hold i hq with hq | ⟨hi, hge⟩ <;> rcases hold i' hq' with hq' | ⟨hi', hge'⟩
    · exact h.apart i i' q hq hq'
    · exact absurd hge' (hlt i hq)
    · exact absurd hge (hlt i' hq')
    · rw [hi, hi']

lemma congr (h : Listed s) (hnext : t.nextEntry = s.nextEntry)
    (hmap : ∀ i, (t.mapping i).cleanPages = (s.mapping i).cleanPages ∧
      (t.mapping i).dirtyPages = (s.mapping i).dirtyPages ∧
      (t.mapping i).pageHash = (s.mapping i).pageHash)
    (hentry : ∀ q, (s.entry q).Still (t.entry q)) : Listed t where
  pages i := by
    obtain ⟨hclean, hdirty, hhash⟩ := hmap i
    have hold := h.pages i
    refine ⟨?_, ?_, fun q hq => ?_, fun q hq => ?_, fun b q hq => ?_, fun b => ?_, fun b q hq => ?_⟩
    · rw [hclean]
      exact hold.cleanNodup
    · rw [hdirty]
      exact hold.dirtyNodup
    · rw [hclean, hdirty] at hq
      rw [hnext]
      exact hold.fresh q hq
    · rw [hclean] at hq
      exact (hentry q).2 (hold.clean q hq)
    · rw [hhash] at hq
      rw [(hentry q).1]
      exact hold.bucket b q hq
    · rw [hhash]
      exact hold.chainNodup b
    · rw [hhash] at hq
      rw [hclean, hdirty]
      exact hold.hashed b q hq
  apart i i' q hq hq' := by
    rw [OnList, (hmap _).1, (hmap _).2.1] at hq hq'
    exact h.apart i i' q hq hq'

end Listed

/-! ## New entries -/

lemma addToPageCache_fields (s : State) (m index : Nat) :
    (addToPageCache s m index).2.entry = Function.update s.entry s.nextEntry
        { index := index, data := fun _ => 0, dirty := false } ∧
      (∀ i, i ≠ m → (addToPageCache s m index).2.mapping i = s.mapping i) ∧
      (addToPageCache s m index).2.mapping m = { s.mapping m with
        nrpages := (s.mapping m).nrpages + 1
        nrpagesClean := (s.mapping m).nrpagesClean + 1
        cleanPages := (s.mapping m).cleanPages ++ [s.nextEntry]
        pageHash := Function.update (s.mapping m).pageHash (index % hashSize)
          (s.nextEntry :: (s.mapping m).pageHash (index % hashSize)) } := by
  refine ⟨?_, fun i hi => ?_, ?_⟩
  · simp [addToPageCache, pageCacheHashAdd, setEntry, setMapping]
  · simp [addToPageCache, pageCacheHashAdd, setEntry, setMapping, hi]
  · simp [addToPageCache, pageCacheHashAdd, setEntry, setMapping]

lemma addToPageCache_mem (s : State) (m index : Nat) {i q : Nat} :
    (OnList (addToPageCache s m index).2 i q ↔ OnList s i q ∨ (i = m ∧ q = s.nextEntry)) ∧
      ∀ b, q ∈ ((addToPageCache s m index).2.mapping i).pageHash b ↔
        q ∈ (s.mapping i).pageHash b ∨ (i = m ∧ q = s.nextEntry ∧ b = index % hashSize) := by
  obtain ⟨-, hother, hmap⟩ := addToPageCache_fields s m index
  rcases eq_or_ne i m with rfl | hi
  · rw [OnList, hmap]
    refine ⟨?_, fun b => ?_⟩
    · rw [OnList, mem_append, mem_singleton]
      tauto
    · rcases eq_or_ne b (index % hashSize) with rfl | hb
      · simp [or_comm]
      · simp [hb]
  · rw [OnList, hother i hi, OnList]
    simp [hi]

lemma addToPageCache_self (s : State) (m index : Nat) :
    (addToPageCache s m index).2.entry s.nextEntry =
      { index := index, data := fun _ => 0, dirty := false } := by
  rw [(addToPageCache_fields s m index).1, update_self]

lemma Listed.entry_add (h : Listed s) {i q : Nat} (hq : OnList s i q) (m index : Nat) :
    (addToPageCache s m index).2.entry q = s.entry q := by
  have hlt := (h.pages i).fresh q hq
  rw [(addToPageCache_fields s m index).1, update_of_ne (by omega)]

lemma Listed.add (h : Listed s) (m index : Nat) : Listed (addToPageCache s m index).2 := by
  obtain ⟨-, hother, hmap⟩ := addToPageCache_fields s m index
  have hmem := fun i q => addToPageCache_mem s m index (i := i) (q := q)
  have hadd := fun q (hq : OnList s m q) => h.entry_add hq m index
  have hold := h.pages m
  have hself := addToPageCache_self s m index
  -- the number of the new entry is on no list yet
  have hunlisted : ¬ OnList s m s.nextEntry := fun hq => lt_irrefl _ (hold.fresh _ hq)
  refine h.change (Nat.le_succ _) hother
    (fun i hi q hq => Entry.still_of_eq (h.entry_add hq m index))
    (fun q hq => (((hmem m q).1.mp hq).imp_right fun hq => Nat.le_of_eq hq.2.symm)) ?_
  refine ⟨?_, ?_, fun q hq => ?_, fun q hq => ?_, fun b q hq => ?_, fun b => ?_, fun b q hq => ?_⟩
  · rw [hmap, nodup_append_comm]
    exact nodup_cons.mpr ⟨fun hq => hunlisted (.inl hq), hold.cleanNodup⟩
  · rw [hmap]
    exact hold.dirtyNodup
  · show q < s.nextEntry + 1
    rcases (hmem m q).1.mp hq with hq | ⟨-, hq⟩
    · exact Nat.lt_succ_of_lt (hold.fresh q hq)
    · omega
  · rw [hmap] at hq
    rcases mem_append.mp hq with hq | hq
    · rw [hadd q (.inl hq)]
      exact hold.clean q hq
    · rw [mem_singleton.mp hq, hself]
  · rcases ((hmem m q).2 b).mp hq with hq | ⟨-, rfl, rfl⟩
    · rw [hadd q (hold.hashed b q hq)]
      exact hold.bucket b q hq
    · rw [hself]
  · simp only [hmap]
    rcases eq_or_ne b (index % hashSize) with rfl | hb
    · rw [update_self]
      exact nodup_cons.mpr ⟨fun hq => hunlisted (hold.hashed _ _ hq), hold.chainNodup _⟩
    · rw [update_of_ne hb]
      exact hold.chainNodup b
  · rcases ((hmem m q).2 b).mp hq with hq | ⟨-, hq, -⟩
    · exact (hmem m q).1.mpr (.inl (hold.hashed b q hq))
    · exact (hmem m q).1.mpr (.inr ⟨rfl, hq⟩)

/-! ## Moves between the lists -/

/-- An entry goes to the end of a list of its mapping, to the clean one only if it is clean. -/
structure Moves (m p : Nat) (s t : State) : Prop where
  nextEntry : t.nextEntry = s.nextEntry
  other : ∀ i, i ≠ m → t.mapping i = s.mapping i
  pageHash : (t.mapping m).pageHash = (s.mapping m).pageHash
  entry : ∀ q, q ≠ p → t.entry q = s.entry q
  index : (t.entry p).index = (s.entry p).index
  lists : ((t.mapping m).cleanPages = (s.mapping m).cleanPages.erase p ++ [p] ∧
      (t.mapping m).dirtyPages = (s.mapping m).dirtyPages.erase p ∧ (t.entry p).dirty = false) ∨
    ((t.mapping m).cleanPages = (s.mapping m).cleanPages.erase p ∧
      (t.mapping m).dirtyPages = (s.mapping m).dirtyPages.erase p ++ [p])

namespace Moves

lemma onList (h : Moves m p s t) (hp : OnList s m p) (i q : Nat) : OnList t i q ↔ OnList s i q :=
    by
  rcases eq_or_ne i m with rfl | hi
  · by_cases hq : q = p
    · subst hq
      refine iff_of_true ?_ hp
      rcases h.lists with ⟨h1, -⟩ | ⟨-, h2⟩
      · exact .inl (by simp [h1])
      · exact .inr (by simp [h2])
    · rcases h.lists with ⟨h1, h2, -⟩ | ⟨h1, h2⟩ <;>
        simp [OnList, h1, h2, hq, mem_erase_of_ne hq]
  · rw [OnList, OnList, h.other i hi]

lemma index_eq (h : Moves m p s t) (q : Nat) : (t.entry q).index = (s.entry q).index := by
  by_cases hq : q = p
  · rw [hq, h.index]
  · rw [h.entry q hq]

lemma listed (h : Moves m p s t) (hs : Listed s) (hp : OnList s m p) : Listed t := by
  have hold := hs.pages m
  have hlist := h.onList hp m
  have happend : ∀ l : List Nat, l.Nodup → (l.erase p ++ [p]).Nodup := by
    intro l hl
    rw [nodup_append_comm]
    exact nodup_cons.mpr ⟨hl.not_mem_erase, hl.erase p⟩
  refine hs.change h.nextEntry.ge h.other
    (fun i hi q hq => Entry.still_of_eq (h.entry q (hs.ne_of_other hi (.inl hp) hq)))
    (fun q hq => .inl ((hlist q).mp hq)) ?_
  refine ⟨?_, ?_, fun q hq => ?_, fun q hq => ?_, fun b q hq => ?_, fun b => ?_, fun b q hq => ?_⟩
  · rcases h.lists with ⟨h1, -⟩ | ⟨h1, -⟩ <;> rw [h1]
    · exact happend _ hold.cleanNodup
    · exact hold.cleanNodup.erase p
  · rcases h.lists with ⟨-, h2, -⟩ | ⟨-, h2⟩ <;> rw [h2]
    · exact hold.dirtyNodup.erase p
    · exact happend _ hold.dirtyNodup
  · rw [h.nextEntry]
    exact hold.fresh q ((hlist q).mp hq)
  · rcases h.lists with ⟨h1, -, h3⟩ | ⟨h1, -⟩ <;> rw [h1] at hq
    · rcases eq_or_ne q p with rfl | hqp
      · exact h3
      · rw [h.entry q hqp]
        exact hold.clean q (by simpa [hqp, mem_erase_of_ne hqp] using hq)
    · obtain ⟨hqp, hq⟩ := hold.cleanNodup.mem_erase_iff.mp hq
      rw [h.entry q hqp]
      exact hold.clean q hq
  · rw [h.pageHash] at hq
    rw [h.index_eq]
    exact hold.bucket b q hq
  · rw [h.pageHash]
    exact hold.chainNodup b
  · rw [h.pageHash] at hq
    exact (hlist q).mpr (hold.hashed b q hq)

end Moves

lemma markDirty_moves (hd : ¬ (s.entry p).dirty = true) (m : Nat) :
    Moves m p s (markDirty s m p) ∧
      (markDirty s m p).entry = Function.update s.entry p { s.entry p with dirty := true } ∧
      (markDirty s m p).mapping m = { s.mapping m with
        nrpagesClean := (s.mapping m).nrpagesClean - 1
        nrpagesDirty := (s.mapping m).nrpagesDirty + 1
        cleanPages := (s.mapping m).cleanPages.erase p
        dirtyPages := (s.mapping m).dirtyPages.erase p ++ [p] } := by
  refine ⟨⟨?_, fun i hi => ?_, ?_, fun q hq => ?_, ?_, Or.inr ⟨?_, ?_⟩⟩, ?_, ?_⟩
  · simp [markDirty, hd, lruDel, setMapping, setEntry]
  · simp [markDirty, hd, lruDel, setMapping, setEntry, hi]
  · simp [markDirty, hd, lruDel, setMapping, setEntry]
  · simp [markDirty, hd, lruDel, setMapping, setEntry, hq]
  all_goals simp [markDirty, hd, lruDel, setMapping, setEntry]

/--
Write-back of a page: what is dirty goes to the device, and the entry to the list of clean pages.
-/
lemma flushPage_fields (m n : Nat) (s : State) (p : Nat) :
    (flushPage m (n, s) p).2.entry = Function.update s.entry p { s.entry p with dirty := false } ∧
      (∀ i, i ≠ m → (flushPage m (n, s) p).2.mapping i = s.mapping i) ∧
      (flushPage m (n, s) p).2.mapping m = { s.mapping m with
        aOps := (s.mapping m).aOps.map fun dev =>
          if (s.entry p).dirty then dev.write (s.entry p).index (s.entry p).data else dev
        cleanPages := (s.mapping m).cleanPages.erase p ++ [p]
        dirtyPages := (s.mapping m).dirtyPages.erase p
        nrpagesDirty := (s.mapping m).nrpagesDirty - 1
        nrpagesClean := (s.mapping m).nrpagesClean + 1 } ∧
      (flushPage m (n, s) p).2.nextEntry = s.nextEntry ∧
      (flushPage m (n, s) p).2.mappingList = s.mappingList ∧
      (flushPage m (n, s) p).2.reclaimed = s.reclaimed ∧
      ((flushPage m (n, s) p).2.cleaned = s.cleaned ∨ ∃ dev, (s.mapping m).aOps = some dev ∧
        (flushPage m (n, s) p).2.cleaned = ⟨(s.entry p).index, (s.entry p).data,
          dev.write (s.entry p).index (s.entry p).data⟩ :: s.cleaned) := by
  cases hd : (s.entry p).dirty with
  | false =>
    have hsame : { s.entry p with dirty := false } = s.entry p := by rw [← hd]
    refine ⟨?_, fun i hi => ?_, ?_, ?_, ?_, ?_, Or.inl ?_⟩
    · simp [flushPage, hd, lruDel, setMapping, hsame]
    · simp [flushPage, hd, lruDel, setMapping, hi]
    all_goals simp [flushPage, hd, lruDel, setMapping]
  | true =>
    cases hops : (s.mapping m).aOps with
    | none =>
      refine ⟨?_, fun i hi => ?_, ?_, ?_, ?_, ?_, Or.inl ?_⟩
      on_goal 2 => simp [flushPage, hd, hops, accountCleaned, lruDel, setEntry,
        setMapping, hi]
      all_goals simp [flushPage, hd, hops, accountCleaned, lruDel, setEntry, setMapping]
    | some dev =>
      refine ⟨?_, fun i hi => ?_, ?_, ?_, ?_, ?_, Or.inr ⟨dev, rfl, ?_⟩⟩
      on_goal 2 => simp [flushPage, hd, hops, writepage, accountCleaned, lruDel, setEntry,
        setMapping, hi]
      all_goals simp [flushPage, hd, hops, writepage, accountCleaned, lruDel, setEntry,
        setMapping]

lemma flushPage_moves (m n : Nat) (s : State) (p : Nat) : Moves m p s (flushPage m (n, s) p).2 :=
    by
  obtain ⟨hentry, hother, hmap, hnext, -⟩ := flushPage_fields m n s p
  refine ⟨hnext, hother, by rw [hmap], fun q hq => ?_, ?_, Or.inl ⟨by rw [hmap], by rw [hmap], ?_⟩⟩
  · rw [hentry, update_of_ne hq]
  · rw [hentry, update_self]
  · rw [hentry, update_self]

/-! ## Dropped entries -/

/-- The entry `p` leaves the chain and the lists of the file `m`. -/
structure Drops (m p : Nat) (s t : State) : Prop where
  nextEntry : t.nextEntry = s.nextEntry
  mappingList : t.mappingList = s.mappingList
  other : ∀ m', m' ≠ m → t.mapping m' = s.mapping m'
  pageHash : ∀ b, (t.mapping m).pageHash b =
    if b = (s.entry p).index % hashSize then ((s.mapping m).pageHash b).erase p
    else (s.mapping m).pageHash b
  cleanPages : (t.mapping m).cleanPages = (s.mapping m).cleanPages.erase p
  dirtyPages : (t.mapping m).dirtyPages = (s.mapping m).dirtyPages.erase p
  iSize : (t.mapping m).iSize = (s.mapping m).iSize
  aOps : (t.mapping m).aOps = (s.mapping m).aOps
  index : ∀ q, (t.entry q).index = (s.entry q).index
  data : ∀ q, (t.entry q).data = (s.entry q).data

namespace Drops

section

variable (h : Drops m p s t)
include h

lemma mem_chain {b q : Nat} (hq : q ∈ (t.mapping m).pageHash b) :
    q ∈ (s.mapping m).pageHash b := by
  rw [h.pageHash] at hq
  split at hq
  · exact mem_of_mem_erase hq
  · exact hq

lemma onList {q : Nat} (hq : OnList t m q) : OnList s m q := by
  rw [OnList, h.cleanPages, h.dirtyPages] at hq
  exact hq.imp mem_of_mem_erase mem_of_mem_erase

lemma listed (hs : Listed s)
    (hdirty : ∀ q, (s.entry q).dirty = false → (t.entry q).dirty = false) : Listed t := by
  have hold := hs.pages m
  refine hs.change h.nextEntry.ge h.other (fun i _ q _ => ⟨h.index q, hdirty q⟩)
    (fun q hq => .inl (h.onList hq)) ?_
  refine ⟨?_, ?_, fun q hq => ?_, fun q hq => ?_, fun b q hq => ?_, fun b => ?_, fun b q hq => ?_⟩
  · rw [h.cleanPages]
    exact hold.cleanNodup.erase p
  · rw [h.dirtyPages]
    exact hold.dirtyNodup.erase p
  · rw [h.nextEntry]
    exact hold.fresh q (h.onList hq)
  · rw [h.cleanPages] at hq
    exact hdirty q (hold.clean q (mem_of_mem_erase hq))
  · rw [h.index]
    exact hold.bucket b q (h.mem_chain hq)
  · rw [h.pageHash]
    split
    · exact (hold.chainNodup b).erase p
    · exact hold.chainNodup b
  · have hne : q ≠ p := by
      rintro rfl
      have hb := hold.bucket b q (h.mem_chain hq)
      rw [h.pageHash, if_pos hb.symm] at hq
      exact (hold.chainNodup b).not_mem_erase hq
    rw [h.cleanPages, h.dirtyPages, mem_erase_of_ne hne, mem_erase_of_ne hne]
    exact hold.hashed b q (h.mem_chain hq)

lemma reclaimed (log : List Entry) : Drops m p s { t with reclaimed := log } :=
  { h with }

end

end Drops

lemma drops_of_lruDel {s' : State} (hmap : s'.mapping = (lruDel s m p).mapping)
    (hnext : s'.nextEntry = s.nextEntry) (hlist : s'.mappingList = s.mappingList)
    (hindex : ∀ q, (s'.entry q).index = (s.entry q).index)
    (hdata : ∀ q, (s'.entry q).data = (s.entry q).data) {f : AddressSpace → AddressSpace}
    (hf : ∀ a, (f a).pageHash = a.pageHash ∧ (f a).cleanPages = a.cleanPages ∧
      (f a).dirtyPages = a.dirtyPages ∧ (f a).iSize = a.iSize ∧ (f a).aOps = a.aOps) :
    Drops m p s ((pageCacheHashDel s' m p).setMapping m f) := by
  refine ⟨hnext, hlist, ?_, ?_, ?_, ?_, ?_, ?_, hindex, hdata⟩
  · intro m' hm'
    simp [pageCacheHashDel, setMapping, hmap, lruDel, hm']
  · intro b
    by_cases hb : b = (s.entry p).index % hashSize
    · subst hb
      simp [pageCacheHashDel, setMapping, hmap, lruDel, hf, hindex]
    · simp [pageCacheHashDel, setMapping, hmap, lruDel, hf, hindex, hb]
  all_goals simp [pageCacheHashDel, setMapping, hmap, lruDel, hf]

lemma dropClean_drops (m : Nat) (s : State) (p : Nat) : Drops m p s (dropClean m s p) := by
  unfold dropClean
  exact drops_of_lruDel rfl rfl rfl (fun _ => rfl) (fun _ => rfl) fun _ => ⟨rfl, rfl, rfl, rfl, rfl⟩

lemma dropDirty_drops (m : Nat) (s : State) (p : Nat) :
    Drops m p s (dropDirty m s p) ∧
      (∀ q, (s.entry q).dirty = false → ((dropDirty m s p).entry q).dirty = false) ∧
      (dropDirty m s p).cleaned = s.cleaned ∧ (dropDirty m s p).reclaimed = s.reclaimed := by
  have hentry : ∀ q, ((s.setEntry p fun e => { e with dirty := false }).entry q).index =
        (s.entry q).index ∧
      ((s.setEntry p fun e => { e with dirty := false }).entry q).data = (s.entry q).data ∧
      ((s.entry q).dirty = false →
        ((s.setEntry p fun e => { e with dirty := false }).entry q).dirty = false) := by
    intro q
    by_cases hq : q = p
    · subst hq
      simp [setEntry]
    · simp [setEntry, hq]
  unfold dropDirty
  simp only
  split
  · refine ⟨?_, fun q => (hentry q).2.2, rfl, rfl⟩
    apply drops_of_lruDel
    · rfl
    · rfl
    · rfl
    · exact fun q => (hentry q).1
    · exact fun q => (hentry q).2.1
    · exact fun _ => ⟨rfl, rfl, rfl, rfl, rfl⟩
  · exact ⟨drops_of_lruDel rfl rfl rfl (fun _ => rfl) (fun _ => rfl)
      fun _ => ⟨rfl, rfl, rfl, rfl, rfl⟩, fun _ h => h, rfl, rfl⟩

lemma firstClean_some {l : List Nat} (h : firstClean s l = some (m, p)) :
    m ∈ l ∧ p ∈ (s.mapping m).cleanPages := by
  induction l with
  | nil => cases h
  | cons m' rest ih =>
    have hrest : firstClean s rest = some (m, p) → m ∈ m' :: rest ∧ p ∈ (s.mapping m).cleanPages :=
      fun h => ⟨mem_cons_of_mem _ (ih h).1, (ih h).2⟩
    simp only [firstClean] at h
    split at h
    · cases hl : (s.mapping m').cleanPages with
      | nil =>
        rw [hl] at h
        exact hrest h
      | cons q qs =>
        rw [hl] at h
        cases h
        exact ⟨mem_cons_self, by simp [hl]⟩
    · exact hrest h

/-! ## The calls -/

/-- A property of well-formed caches that write-back keeps. -/
structure KeptByFlush (P : State → Prop) : Prop where
  listed : ∀ {s}, P s → Listed s
  syncBuffers : ∀ {s}, P s → P (syncDirtyBuffersAll s).2
  flushPage : ∀ {s m p} n, P s → p ∈ (s.mapping m).dirtyPages → P (flushPage m (n, s) p).2

/-- A property of well-formed caches that is kept by every change of the cache. -/
structure Closed (P : State → Prop) : Prop extends KeptByFlush P where
  setData : ∀ {s} p (f : Entry → PageData), P s → P (s.setEntry p fun e => { e with data := f e })
  setSize : ∀ {s} m n, P s → P (s.setMapping m fun a => { a with iSize := n })
  add : ∀ {s m index}, P s → findGetPage s m index = none → P (addToPageCache s m index).2
  markDirty : ∀ {s m p}, P s → OnList s m p → P (markDirty s m p)
  dropClean : ∀ {s m p}, P s → p ∈ (s.mapping m).cleanPages → P (dropClean m s p)
  dropDirty : ∀ {s m p}, P s → p ∈ (s.mapping m).dirtyPages → P (dropDirty m s p)
  reclaim : ∀ {s m p}, P s → p ∈ (s.mapping m).cleanPages →
    P { PageCache.dropClean m s p with reclaimed := s.entry p :: s.reclaimed }

lemma closed_listed : Closed Listed where
  listed h := h
  setData p f h := by
    refine h.congr rfl (fun _ => ⟨rfl, rfl, rfl⟩) fun q => ?_
    by_cases hq : q = p
    · subst hq
      simp [setEntry, Entry.Still]
    · simp [setEntry, Entry.Still, hq]
  syncBuffers h := h.congr rfl (fun _ => ⟨rfl, rfl, rfl⟩) fun _ => Entry.still_of_eq rfl
  setSize m n h := by
    refine h.congr rfl (fun i => ?_) fun _ => Entry.still_of_eq rfl
    by_cases hi : i = m
    · subst hi
      simp [setMapping]
    · simp [setMapping, hi]
  add h _ := h.add _ _
  markDirty {s m p} h hp := by
    by_cases hd : (s.entry p).dirty = true
    · rw [PageCache.markDirty, if_pos hd]
      exact h
    · exact (markDirty_moves hd m).1.listed h hp
  flushPage n h hp := (flushPage_moves _ n _ _).listed h (.inr hp)
  dropClean h _ := (dropClean_drops _ _ _).listed h fun _ hq => hq
  dropDirty h _ := (dropDirty_drops _ _ _).1.listed h (dropDirty_drops _ _ _).2.1
  reclaim h _ := ((dropClean_drops _ _ _).reclaimed _).listed h fun _ hq => hq

lemma foldl_erase {σ : Type*} {P : σ → Prop} {list : σ → List Nat} {drop : σ → Nat → σ} {s : σ}
    (hlist : ∀ s p, list (drop s p) = (list s).erase p)
    (hdrop : ∀ s p, P s → p ∈ list s → P (drop s p)) {l : List Nat} (hl : l.Nodup)
    (h : P s) (hmem : ∀ p ∈ l, p ∈ list s) : P (l.foldl drop s) := by
  induction l generalizing s with
  | nil => exact h
  | cons p l ih =>
    obtain ⟨hpl, hl⟩ := nodup_cons.mp hl
    refine ih hl (hdrop s p h (hmem p mem_cons_self)) fun q hq => ?_
    have hne : q ≠ p := fun heq => hpl (heq ▸ hq)
    rw [hlist]
    exact (mem_erase_of_ne hne).mpr (hmem q (mem_cons_of_mem _ hq))

variable {P : State → Prop}

namespace KeptByFlush

lemma writebackFlushAll (hP : KeptByFlush P) (h : P s) : P (writebackFlushAll s).2 := by
  have hfold : P (s.mappingList.foldl flushMapping (0, s)).2 :=
    foldlRecOn (motive := fun t : Nat × State => P t.2) _ _ h fun t ht m _ =>
      foldl_erase (fun r p => congrArg (·.dirtyPages) (flushPage_fields m r.1 r.2 p).2.2.1)
        (fun r _ hr hp => hP.flushPage r.1 hr hp) ((hP.listed ht).pages m).dirtyNodup ht
        fun _ hp => hp
  exact hP.syncBuffers hfold

end KeptByFlush

namespace Closed

section

variable (hP : Closed P)
include hP

lemma readPart (h : P s) (m index pageOffset bytes : Nat) :
    P (readPart s m index pageOffset bytes).2 := by
  unfold PageCache.readPart
  split
  case h_1 => exact h
  case h_2 hnone =>
    split
    · exact hP.setData _ (fun e => Device.page _ e.index) (hP.add h hnone)
    · exact h

lemma genericFileRead (h : P s) (m offset size : Nat) :
    P (genericFileRead s m offset size).2 := by
  have hloop : ∀ (fuel offset size : Nat) (s : State), P s → P (readLoop m fuel offset size s).2 := by
    intro fuel
    induction fuel with
    | zero => exact fun _ _ _ hs => hs
    | succ fuel ih =>
      intro offset size s hs
      simp only [readLoop]
      split
      · exact hs
      · exact ih _ _ _ (hP.readPart hs m _ _ _)
  unfold PageCache.genericFileRead
  split
  · exact h
  · split
    · exact h
    · exact hloop _ _ _ s h

lemma writeEntry (h : P s) (m index pageOffset bytes : Nat) :
    P (writeEntry s m index pageOffset bytes).2 ∧
      OnList (writeEntry s m index pageOffset bytes).2 m
        (writeEntry s m index pageOffset bytes).1 := by
  have hlist : OnList (addToPageCache s m index).2 m (addToPageCache s m index).1 :=
    (addToPageCache_mem s m index).1.mpr (.inr ⟨rfl, rfl⟩)
  unfold PageCache.writeEntry
  split
  case h_1 p hp => exact ⟨h, (hP.listed h).found hp⟩
  case h_2 hnone =>
    have hadd := hP.add h hnone
    simp only
    split
    · split
      · exact ⟨hP.setData _ (fun e => Device.page _ e.index) hadd, hlist⟩
      · exact ⟨hadd, hlist⟩
    · exact ⟨hadd, hlist⟩

lemma writePart (h : P s) (m index pageOffset : Nat) (buf : List UInt8) :
    P (writePart s m index pageOffset buf) := by
  obtain ⟨hentry, hlist⟩ := hP.writeEntry h m index pageOffset buf.length
  have hdirty := hP.markDirty (hP.setData (PageCache.writeEntry s m index pageOffset buf.length).1
    (fun e => copyIn e.data pageOffset buf) hentry) hlist
  unfold PageCache.writePart balanceDirtyPages
  dsimp only
  split
  · exact hP.writebackFlushAll hdirty
  · exact hdirty

lemma genericFileWrite (h : P s) (m offset : Nat) (buf : List UInt8) :
    P (genericFileWrite s m offset buf).2 := by
  have hloop : ∀ (fuel offset : Nat) (buf : List UInt8) (s : State), P s →
      P (writeLoop m fuel offset buf s).2 := by
    intro fuel
    induction fuel with
    | zero => exact fun _ _ _ hs => hs
    | succ fuel ih =>
      intro offset buf s hs
      simp only [writeLoop]
      split
      · exact hs
      · exact ih _ _ _ (hP.writePart hs m _ _ _)
  unfold PageCache.genericFileWrite
  split
  · exact h
  · split
    · split
      · exact h
      · exact hloop _ _ _ s h
    · simp only
      split
      · exact hP.setSize _ _ (hloop _ _ _ s h)
      · exact hloop _ _ _ s h

end

section

variable (hP : Closed P) (h : P s)
include hP h

lemma truncateInodePages (m lstart : Nat) : P (truncateInodePages s m lstart) := by
  unfold PageCache.truncateInodePages
  split
  · have hdirty : P ((s.mapping m).dirtyPages.foldl (PageCache.dropDirty m) s) :=
      foldl_erase (fun s p => (dropDirty_drops m s p).1.dirtyPages) (fun _ _ => hP.dropDirty)
        ((hP.listed h).pages m).dirtyNodup h fun _ hp => hp
    exact foldl_erase (fun s p => (dropClean_drops m s p).cleanPages) (fun _ _ => hP.dropClean)
      ((hP.listed hdirty).pages m).cleanNodup hdirty fun _ hp => hp
  · exact h

lemma openTrunc (m : Nat) : P (openTrunc s m) :=
  hP.truncateInodePages (hP.setSize m 0 h) m 0

lemma reclaimOne : P (pageCacheReclaimOne s).2 := by
  unfold pageCacheReclaimOne
  cases hf : firstClean s s.mappingList with
  | none => exact h
  | some r => exact hP.reclaim h (firstClean_some hf).2

lemma tryToFree : P (tryToFreePages s).2 := by
  have hfirst := hP.reclaimOne h
  unfold tryToFreePages shrinkZone
  rw [if_pos rfl]
  rcases hr : pageCacheReclaimOne s with ⟨reclaimed, t⟩
  rw [hr] at hfirst
  cases reclaimed with
  | true => exact hfirst
  | false =>
    simp only [if_true]
    split
    · exact hP.reclaimOne (hP.writebackFlushAll hfirst)
    · exact hP.writebackFlushAll hfirst

end

end Closed

/-! ## The empty cache -/

lemma listed_of_empty (h : ∀ m, (s.mapping m).cleanPages = [] ∧ (s.mapping m).dirtyPages = [] ∧
    ∀ b, (s.mapping m).pageHash b = []) : Listed s := by
  have hlist : ∀ m p, ¬ OnList s m p := by
    intro m p hp
    rw [OnList, (h m).1, (h m).2.1] at hp
    simp at hp
  refine ⟨fun m => ?_, fun m _ p hp => absurd hp (hlist m p)⟩
  obtain ⟨hclean, hdirty, hhash⟩ := h m
  refine ⟨?_, ?_, fun p hp => absurd hp (hlist m p), fun p hp => absurd (.inl hp) (hlist m p),
    fun b p hp => ?_, fun b => ?_, fun b p hp => ?_⟩
  · rw [hclean]
    exact nodup_nil
  · rw [hdirty]
    exact nodup_nil
  · rw [hhash] at hp
    cases hp
  · rw [hhash]
    exact nodup_nil
  · rw [hhash] at hp
    cases hp

end LiteKernel.Mm.PageCache
