import LiteKernel.Mm.FileWrite

/-!
# Durability of files without a backing store

A file of ramfs lives in the page cache only. The content of a file is what its
writes since the last truncation say, and the cache *reflects* that content when
every page that is not all zero is cached with the right bytes.

Main results:

- Theorem `read_run`: a read returns what was last written, if no page of the file is reclaimed
  while it is clean.
- Theorem `writeFlushReclaim_read`: write-back marks a ramfs page clean although it has written it
  nowhere, and reclaim drops it.
-/

namespace LiteKernel.Mm.PageCache

open Lib List

variable {s t : State} {c c' : Content} {fuel index m offset p : Nat} {dev : Device}

/-- The content after a truncation. -/
def Content.clear (c : Content) (m : Nat) : Content :=
  fun i o => if i = m then 0 else c i o

lemma bytes_append (c : Nat → UInt8) (offset : Nat) {b size : Nat} (hb : b ≤ size) :
    ((List.range b).map fun k => c (offset + k)) ++
        (List.range (size - b)).map (fun k => c (offset + b + k)) =
      (List.range size).map fun k => c (offset + k) := by
  have hsize : size = b + (size - b) := by omega
  conv_rhs => rw [hsize, range_add, map_append, map_map]
  congr 1
  apply map_congr_left
  intro k _
  simp [add_assoc]

/-! ## The cache and the content -/

/-- The byte of a file that the cache has; pages that are not cached are zero. -/
def cachedByte (s : State) (m o : Nat) : UInt8 :=
  match findGetPage s m (o / pageSize) with
  | some p => (s.entry p).data (o % pageSize)
  | none => 0

/-- The cache reflects the content of all files without a backing store. -/
structure Reflects (s : State) (c : Content) : Prop extends Listed s where
  iSize_lt : ∀ m, (s.mapping m).iSize < wordSize
  holds : ∀ m, (s.mapping m).aOps = none → ∀ o, cachedByte s m o = c m o

lemma cachedByte_congr (hfind : findGetPage t m (offset / pageSize) =
      findGetPage s m (offset / pageSize))
    (hdata : ∀ q, findGetPage s m (offset / pageSize) = some q →
      (t.entry q).data = (s.entry q).data) : cachedByte t m offset = cachedByte s m offset := by
  unfold cachedByte
  rw [hfind]
  cases hq : findGetPage s m (offset / pageSize) with
  | none => rfl
  | some q => simp only [hdata q hq]

/-- The second state has the same bytes; sizes and what write-back keeps track of may differ. -/
structure Keeps (s t : State) : Prop where
  mappingList : t.mappingList = s.mappingList
  iSize_lt : ∀ m, (s.mapping m).iSize < wordSize → (t.mapping m).iSize < wordSize
  aOps : ∀ m, (t.mapping m).aOps = none ↔ (s.mapping m).aOps = none
  cached : ∀ m o, cachedByte t m o = cachedByte s m o

namespace Keeps

variable {u : State}

lemma refl (s : State) : Keeps s s :=
  ⟨rfl, fun _ h => h, fun _ => Iff.rfl, fun _ _ => rfl⟩

lemma trans (h : Keeps s t) (h' : Keeps t u) : Keeps s u where
  mappingList := h'.mappingList.trans h.mappingList
  iSize_lt m hm := h'.iSize_lt m (h.iSize_lt m hm)
  aOps m := (h'.aOps m).trans (h.aOps m)
  cached m o := (h'.cached m o).trans (h.cached m o)

lemma reflects (h : Keeps s t) (ht : Listed t) (hr : Reflects s c) : Reflects t c where
  toListed := ht
  iSize_lt m := h.iSize_lt m (hr.iSize_lt m)
  holds m hm o := (h.cached m o).trans (hr.holds m ((h.aOps m).mp hm) o)

lemma of_mapping (hlist : t.mappingList = s.mappingList)
    (hother : ∀ i, i ≠ m → t.mapping i = s.mapping i)
    (hhash : (t.mapping m).pageHash = (s.mapping m).pageHash)
    (hsize : (s.mapping m).iSize < wordSize → (t.mapping m).iSize < wordSize)
    (hops : (t.mapping m).aOps = none ↔ (s.mapping m).aOps = none)
    (hentry : ∀ q, (t.entry q).index = (s.entry q).index ∧ (t.entry q).data = (s.entry q).data) :
    Keeps s t := by
  refine ⟨hlist, fun i => ?_, fun i => ?_, fun i o => ?_⟩
  · rcases eq_or_ne i m with rfl | hi
    · exact hsize
    · rw [hother i hi]
      exact id
  · rcases eq_or_ne i m with rfl | hi
    · exact hops
    · rw [hother i hi]
  · refine cachedByte_congr (findGetPage_congr ?_ fun q _ => (hentry q).1) fun q _ => (hentry q).2
    rcases eq_or_ne i m with rfl | hi
    · rw [hhash]
    · rw [hother i hi]

lemma setSize (s : State) (m : Nat) {n : Nat} (hn : n < wordSize) :
    Keeps s (s.setMapping m fun a => { a with iSize := n }) := by
  refine of_mapping (m := m) rfl (fun i hi => ?_) ?_ (fun _ => ?_) ?_ fun _ => ⟨rfl, rfl⟩
  on_goal 1 => simp [State.setMapping, hi]
  all_goals simp [State.setMapping, hn]

end Keeps

/-! ## Write-back -/

lemma flushPage_keeps (m : Nat) (r : Nat × State) (p : Nat) :
    Keeps r.2 (flushPage m r p).2 := by
  obtain ⟨n, s⟩ := r
  obtain ⟨hentry, hother, hmap, -, hlist, -⟩ := flushPage_fields m n s p
  refine Keeps.of_mapping hlist hother ?_ ?_ ?_ fun q => ?_
  · rw [hmap]
  · rw [hmap]
    exact id
  · simp [hmap]
  · rw [hentry]
    exact update_dirty s p q false

lemma flushMapping_keeps (r : Nat × State) (m : Nat) : Keeps r.2 (flushMapping r m).2 :=
  foldlRecOn (motive := fun t => Keeps r.2 t.2) _ _ (Keeps.refl r.2) fun t ht p _ =>
    ht.trans (flushPage_keeps m t p)

lemma writebackFlushAll_keeps (s : State) : Keeps s (writebackFlushAll s).2 := by
  have hfold : Keeps s (s.mappingList.foldl flushMapping (0, s)).2 :=
    foldlRecOn (motive := fun t => Keeps s t.2) _ _ (Keeps.refl s) fun t ht m _ =>
      ht.trans (flushMapping_keeps t m)
  exact { hfold with }

lemma Reflects.flushAll (h : Reflects s c) : Reflects (writebackFlushAll s).2 c :=
  (writebackFlushAll_keeps s).reflects (closed_listed.writebackFlushAll h.toListed) h

/-! ## Reading and writing -/

lemma cachedByte_eq (hm : (s.mapping m).aOps = none) (o : Nat) :
    cachedByte s m o = logicalByte s m o := by
  unfold cachedByte logicalByte
  rw [hm]
  cases findGetPage s m (o / pageSize) <;> rfl

lemma Reflects.logicalByte_eq (h : Reflects s c) (hm : (s.mapping m).aOps = none) :
    logicalByte s m = c m := by
  funext o
  rw [← cachedByte_eq hm, h.holds m hm]

lemma Wrote.reflects {c1 : Content} (h : Wrote s c1 t) (hr : Reflects s c)
    (hc : ∀ i, (s.mapping i).aOps = none → c1 i = c' i) : Reflects t c' where
  toListed := h.toListed
  iSize_lt i := by
    rw [h.iSize]
    exact hr.iSize_lt i
  holds i hi o := by rw [cachedByte_eq hi, h.bytes, hc i ((h.aOps i).mp hi)]

lemma Reflects.write (h : Reflects s c) (ha : Accounts s) (m : Nat) (buf : List UInt8)
    (hoffset : offset < wordSize)
    (hfit : (s.mapping m).aOps = none → offset + buf.length ≤ wordSize) :
    Reflects (genericFileWrite s m offset buf).2 (c.poke m offset buf) := by
  unfold genericFileWrite
  by_cases hzero : buf.length = 0
  · rw [if_pos hzero, c.poke_nil m offset hzero]
    exact h
  rw [if_neg hzero]
  have hloop : ∀ cut : List UInt8, ∃ c1, Wrote s c1 (writeLoop m cut.length offset cut s).2 ∧
      (∀ i, i ≠ m → c1 i = logicalByte s i) ∧
      (offset + cut.length ≤ wordSize → c1 = Content.poke (logicalByte s) m offset cut) :=
    fun cut => writeLoop_pokes (P := fun c t => Wrote s c t) m
      (fun offset buf hlen ht => ht.writePart m offset buf hlen) ha.wrote le_rfl
  cases hops : (s.mapping m).aOps with
  | some dev =>
    -- a file with a backing store: only the other files matter
    have hne : ∀ i, (s.mapping i).aOps = none → i ≠ m := by
      rintro i hi rfl
      rw [hops] at hi
      cases hi
    simp only
    split
    · refine ha.wrote.reflects h fun i hi => ?_
      rw [h.logicalByte_eq hi, c.poke_of_ne (hne i hi)]
    · obtain ⟨c1, hw, hother, -⟩ := hloop _
      refine hw.reflects h fun i hi => ?_
      rw [hother i (hne i hi), h.logicalByte_eq hi, c.poke_of_ne (hne i hi)]
  | none =>
    obtain ⟨c1, hw, -, hpoke⟩ := hloop buf
    have hlt : (writeLoop m buf.length offset buf s).1 < wordSize := by
      rw [writeLoop_offset hoffset (le_refl _)]
      exact wrap_lt _
    have hr : Reflects (writeLoop m buf.length offset buf s).2 (c.poke m offset buf) := by
      refine hw.reflects h fun i hi => ?_
      rw [hpoke (hfit hops)]
      funext o
      unfold Content.poke
      rw [h.logicalByte_eq hi]
    simp only
    split
    · exact (Keeps.setSize _ m hlt).reflects (closed_listed.setSize _ _ hr.toListed) hr
    · exact hr

lemma Wrote.readPart {u : State} (h : Wrote u c s) (m index pageOffset bytes : Nat) :
    Wrote u c (readPart s m index pageOffset bytes).2 := by
  unfold PageCache.readPart
  cases hnone : findGetPage s m index with
  | some p => exact h
  | none =>
    cases hdev : (s.mapping m).aOps with
    | none => exact h
    | some dev => exact h.readIn hnone hdev

lemma Wrote.readLoop {u : State} (h : Wrote u c s) (m size : Nat) :
    Wrote u c (readLoop m fuel offset size s).2 := by
  induction fuel generalizing offset size s with
  | zero => exact h
  | succ fuel ih =>
    simp only [readLoop]
    split
    · exact h
    · exact ih (h.readPart ..) _

lemma Reflects.afterRead (h : Reflects s c) (ha : Accounts s) (m offset size : Nat) :
    Reflects (genericFileRead s m offset size).2 c := by
  have hw : Wrote s (logicalByte s) (genericFileRead s m offset size).2 := by
    unfold genericFileRead
    split
    · exact ha.wrote
    split
    · exact ha.wrote
    · exact ha.wrote.readLoop ..
  exact hw.reflects h fun i hi => h.logicalByte_eq hi

section

variable (h : Reflects s c) (hm : (s.mapping m).aOps = none)
include h hm

lemma Reflects.readPart {bytes : Nat} (hbytes : offset % pageSize + bytes ≤ pageSize) :
    readPart s m (offset / pageSize) (offset % pageSize) bytes =
      ((List.range bytes).map fun k => c m (offset + k), s) := by
  have hcached : ∀ k ∈ List.range bytes, c m (offset + k) =
      match findGetPage s m (offset / pageSize) with
      | some p => (s.entry p).data (offset % pageSize + k)
      | none => 0 := by
    intro k hk
    have hdiv : (offset + k) / pageSize = offset / pageSize ∧
        (offset + k) % pageSize = offset % pageSize + k := by
      have hlt := mem_range.mp hk
      unfold pageSize at *
      omega
    rw [← h.holds m hm (offset + k), cachedByte, hdiv.1, hdiv.2]
  rw [map_congr_left hcached]
  unfold PageCache.readPart
  cases findGetPage s m (offset / pageSize) with
  | some p => rfl
  | none => simp [hm]

lemma Reflects.readLoop {size : Nat} (hfuel : size ≤ fuel) (hfit : offset + size < wordSize) :
    readLoop m fuel offset size s = ((List.range size).map fun k => c m (offset + k), s) := by
  induction fuel generalizing offset size with
  | zero =>
    obtain rfl : size = 0 := by omega
    rfl
  | succ fuel ih =>
    simp only [readLoop]
    by_cases hzero : size = 0
    · subst hzero
      rfl
    · rw [if_neg hzero]
      set n := min (pageSize - offset % pageSize) size with hn
      have hmod : offset % pageSize < pageSize := Nat.mod_lt _ (by decide)
      have hbytes : offset % pageSize + n ≤ pageSize := by omega
      have hfuel' : size - n ≤ fuel := by omega
      have hfit' : offset + n + (size - n) < wordSize := by omega
      have hpart := h.readPart hm hbytes
      have hrest := ih hfuel' hfit'
      rw [wrap_of_lt (lt_of_le_of_lt (b := offset + size) (by omega) hfit), hpart]
      simp only [hrest]
      rw [bytes_append (c m) offset (by omega)]

lemma Reflects.read (offset size : Nat) :
    genericFileRead s m offset size =
      ((List.range (min size ((s.mapping m).iSize - offset))).map fun k => c m (offset + k), s) := by
  have hlt := h.iSize_lt m
  unfold genericFileRead
  by_cases hzero : size = 0
  · rw [if_pos hzero, hzero]
    simp
  · rw [if_neg hzero]
    split
    · have hempty : min size ((s.mapping m).iSize - offset) = 0 := by omega
      rw [hempty]
      rfl
    · exact h.readLoop hm le_rfl (by omega)

end

/-! ## Dropping entries -/

namespace Drops

lemma cached_other (h : Drops m p s t) {i : Nat} (hi : i ≠ m) (o : Nat) :
    cachedByte t i o = cachedByte s i o :=
  cachedByte_congr (findGetPage_congr (by rw [h.other i hi]) fun q _ => h.index q)
    fun q _ => h.data q

lemma reflects (h : Drops m p s t) (ht : Listed t) (hr : Reflects s c)
    (hm : (s.mapping m).aOps ≠ none) : Reflects t c := by
  refine ⟨ht, fun i => ?_, fun i hi o => ?_⟩
  · rcases eq_or_ne i m with rfl | him
    · rw [h.iSize]
      exact hr.iSize_lt i
    · rw [h.other i him]
      exact hr.iSize_lt i
  · have him : i ≠ m := by
      rintro rfl
      exact hm (h.aOps ▸ hi)
    rw [h.cached_other him]
    exact hr.holds i (h.other i him ▸ hi) o

end Drops

/-! ## Truncation -/

lemma foldl_drops {drop : State → Nat → State} (hdrop : ∀ s p, Drops m p s (drop s p))
    (l : List Nat) (s : State) :
    ((l.foldl drop s).mapping m).cleanPages = (s.mapping m).cleanPages.diff l ∧
      ((l.foldl drop s).mapping m).dirtyPages = (s.mapping m).dirtyPages.diff l ∧
      ((l.foldl drop s).mapping m).iSize = (s.mapping m).iSize ∧
      ∀ i, i ≠ m → (l.foldl drop s).mapping i = s.mapping i ∧
        ∀ o, cachedByte (l.foldl drop s) i o = cachedByte s i o := by
  induction l generalizing s with
  | nil => exact ⟨rfl, rfl, rfl, fun _ _ => ⟨rfl, fun _ => rfl⟩⟩
  | cons p l ih =>
    have hp := hdrop s p
    obtain ⟨h1, h2, h3, h4⟩ := ih (drop s p)
    refine ⟨?_, ?_, h3.trans hp.iSize, fun i hi => ?_⟩
    · rw [foldl_cons, h1, hp.cleanPages, diff_cons]
    · rw [foldl_cons, h2, hp.dirtyPages, diff_cons]
    · exact ⟨(h4 i hi).1.trans (hp.other i hi),
        fun o => ((h4 i hi).2 o).trans (hp.cached_other hi o)⟩

lemma diff_self (l : List Nat) : l.diff l = [] := by
  induction l with
  | nil => rfl
  | cons a l ih => rw [diff_cons, erase_cons_head, ih]

/-- After `vfs_open` with `O_TRUNC` the file is empty and no page of it is cached. -/
lemma Reflects.openTrunc (h : Reflects s c) (m : Nat) : Reflects (openTrunc s m) (c.clear m) := by
  have hlisted := closed_listed.openTrunc h.toListed m
  have hsize := Keeps.setSize s m (by decide : 0 < wordSize)
  revert hlisted
  unfold PageCache.openTrunc truncateInodePages
  rw [if_pos rfl]
  set s0 := s.setMapping m fun a => { a with iSize := 0 }
  obtain ⟨_, hdirty1, hsize1, hother1⟩ :=
    foldl_drops (fun s p => (dropDirty_drops m s p).1) (s0.mapping m).dirtyPages s0
  set s1 := (s0.mapping m).dirtyPages.foldl (dropDirty m) s0
  obtain ⟨hclean2, hdirty2, hsize2, hother2⟩ :=
    foldl_drops (dropClean_drops m) (s1.mapping m).cleanPages s1
  intro hlisted
  set s2 := (s1.mapping m).cleanPages.foldl (dropClean m) s1
  rw [diff_self] at hdirty1 hclean2
  rw [hdirty1, nil_diff] at hdirty2
  have hmap : ∀ i, i ≠ m → s2.mapping i = s0.mapping i := fun i hi =>
    (hother2 i hi).1.trans (hother1 i hi).1
  refine ⟨hlisted, fun i => ?_, fun i hi o => ?_⟩
  · rcases eq_or_ne i m with rfl | him
    · rw [hsize2, hsize1]
      exact hsize.iSize_lt i (h.iSize_lt i)
    · rw [hmap i him]
      exact hsize.iSize_lt i (h.iSize_lt i)
  · rcases eq_or_ne i m with rfl | him
    · have hempty : findGetPage s2 i (o / pageSize) = none := by
        rw [Option.eq_none_iff_forall_ne_some]
        intro q hq
        have hfound := hlisted.found hq
        rw [OnList, hclean2, hdirty2] at hfound
        simp at hfound
      simp [cachedByte, hempty, Content.clear]
    · have hclear : c.clear m i o = c i o := by
        simp [Content.clear, him]
      rw [hmap i him] at hi
      rw [(hother2 i him).2, (hother1 i him).2, hsize.cached, hclear]
      exact h.holds i ((hsize.aOps i).mp hi) o

/-! ## Reclaim -/

/-- Reclaim is harmless when no file without a backing store has a clean page. -/
lemma Reflects.reclaimOne (h : Reflects s c)
    (hclean : ∀ m ∈ s.mappingList, (s.mapping m).aOps = none → (s.mapping m).cleanPages = []) :
    Reflects (pageCacheReclaimOne s).2 c := by
  have hlisted := closed_listed.reclaimOne h.toListed
  revert hlisted
  unfold pageCacheReclaimOne
  cases hf : firstClean s s.mappingList with
  | none => exact fun _ => h
  | some r =>
    obtain ⟨m, p⟩ := r
    obtain ⟨hm, hp⟩ := firstClean_some hf
    refine fun hlisted => ((dropClean_drops m s p).reclaimed _).reflects hlisted h fun hnone => ?_
    rw [hclean m hm hnone] at hp
    simp at hp

lemma flushMapping_lists (r : Nat × State) (m i : Nat)
    (hi : (r.2.mapping i).cleanPages = [] ∧ (r.2.mapping i).dirtyPages = []) :
    ((flushMapping r m).2.mapping i).cleanPages = [] ∧
      ((flushMapping r m).2.mapping i).dirtyPages = [] := by
  by_cases him : i = m
  · subst him
    unfold flushMapping
    rw [hi.2]
    exact hi
  · have hfold : (flushMapping r m).2.mapping i = r.2.mapping i :=
      foldlRecOn (motive := fun t : Nat × State => t.2.mapping i = r.2.mapping i) _ _ rfl
        fun t ht p _ => ((flushPage_fields m t.1 t.2 p).2.1 i him).trans ht
    rw [hfold]
    exact hi

/-- `try_to_free_pages` is harmless when no file without a backing store has pages. -/
lemma Reflects.tryToFree (h : Reflects s c)
    (hempty : ∀ m ∈ s.mappingList, (s.mapping m).aOps = none →
      (s.mapping m).cleanPages = [] ∧ (s.mapping m).dirtyPages = []) :
    Reflects (tryToFreePages s).2 c := by
  have hfirst := h.reclaimOne fun m hm hops => (hempty m hm hops).1
  have hkeeps := writebackFlushAll_keeps s
  have hlists : ∀ m, (s.mapping m).cleanPages = [] ∧ (s.mapping m).dirtyPages = [] →
      ((writebackFlushAll s).2.mapping m).cleanPages = [] := by
    intro i hi
    have hfold := foldlRecOn (motive := fun t : Nat × State => (t.2.mapping i).cleanPages = [] ∧
      (t.2.mapping i).dirtyPages = []) s.mappingList flushMapping (b := (0, s)) hi
      fun t ht m _ => flushMapping_lists t m i ht
    exact hfold.1
  have hsecond : Reflects (pageCacheReclaimOne (writebackFlushAll s).2).2 c := by
    refine h.flushAll.reclaimOne ?_
    intro m hm hops
    rw [hkeeps.mappingList] at hm
    exact hlists m (hempty m hm ((hkeeps.aOps m).mp hops))
  unfold tryToFreePages shrinkZone
  rw [if_pos rfl]
  cases hr : pageCacheReclaimOne s with
  | mk reclaimed t =>
    rw [hr] at hfirst
    cases reclaimed with
    | true => exact hfirst
    | false =>
      -- nothing was dropped, so the state is still the one before the call
      have hst : t = s := by
        unfold pageCacheReclaimOne at hr
        cases hf : firstClean s s.mappingList with
        | none =>
          rw [hf] at hr
          cases hr
          rfl
        | some q =>
          rw [hf] at hr
          cases hr
      subst hst
      simp only [if_true]
      split
      · exact hsecond
      · exact h.flushAll

/-! ## Runs -/

/-- What can happen to the files, in any order. -/
inductive Op where
  | write (m : Nat) (offset : UInt32) (buf : List UInt8)
  | read (m : Nat) (offset size : UInt32)
  | openTrunc (m : Nat)
  | flushAll
  | reclaimOne
  | tryToFree

/-- The effect of one operation on the cache. -/
def step (s : State) : Op → State
  | .write m offset buf => (genericFileWrite s m offset.toNat buf).2
  | .read m offset size => (genericFileRead s m offset.toNat size.toNat).2
  | .openTrunc m => openTrunc s m
  | .flushAll => (writebackFlushAll s).2
  | .reclaimOne => (pageCacheReclaimOne s).2
  | .tryToFree => (tryToFreePages s).2

lemma Closed.step {P : State → Prop} (hP : Closed P) (h : P s) (op : Op) : P (step s op) := by
  cases op with
  | write m offset buf => exact hP.genericFileWrite h m _ buf
  | read m offset size => exact hP.genericFileRead h m _ _
  | openTrunc m => exact hP.openTrunc h m
  | flushAll => exact hP.writebackFlushAll h
  | reclaimOne => exact hP.reclaimOne h
  | tryToFree => exact hP.tryToFree h

/--
The value of the last write to the byte `o` of the file `i` since its last
truncation, or zero if there was none. The newest operation comes first.
-/
def lastWritten : List Op → Content
  | [] => fun _ _ => 0
  | .write m offset buf :: older => (lastWritten older).poke m offset.toNat buf
  | .openTrunc m :: older => (lastWritten older).clear m
  | .read _ _ _ :: older => lastWritten older
  | .flushAll :: older => lastWritten older
  | .reclaimOne :: older => lastWritten older
  | .tryToFree :: older => lastWritten older

/--
The condition on a step. A write to a file without a backing store stays inside the
32-bit offsets; reclaim runs only while no such file has a page that it could drop:
a clean page for `page_cache_reclaim_one`, any page for `try_to_free_pages`, which
flushes first.
-/
def StepOk (s : State) : Op → Prop
  | .write m offset buf => (s.mapping m).aOps = none → offset.toNat + buf.length ≤ wordSize
  | .reclaimOne =>
      ∀ m ∈ s.mappingList, (s.mapping m).aOps = none → (s.mapping m).cleanPages = []
  | .tryToFree =>
      ∀ m ∈ s.mappingList, (s.mapping m).aOps = none →
        (s.mapping m).cleanPages = [] ∧ (s.mapping m).dirtyPages = []
  | _ => True

lemma Reflects.step {older : List Op} (h : Reflects s (lastWritten older)) (ha : Accounts s)
    (op : Op) (hok : StepOk s op) : Reflects (step s op) (lastWritten (op :: older)) := by
  cases op with
  | write m offset buf => exact h.write ha m buf offset.toNat_lt hok
  | read m offset size => exact h.afterRead ha m _ _
  | openTrunc m => exact h.openTrunc m
  | flushAll => exact h.flushAll
  | reclaimOne => exact h.reclaimOne hok
  | tryToFree => exact h.tryToFree hok

lemma Reflects.run {older ops : List Op} (h : Reflects s (lastWritten older)) (ha : Accounts s)
    (hok : RunOk PageCache.step StepOk s ops) :
    Reflects (run PageCache.step s ops) (lastWritten (ops.reverse ++ older)) := by
  induction ops generalizing s older with
  | nil => exact h
  | cons op ops ih =>
    rw [reverse_cons, append_assoc]
    exact ih (h.step ha op hok.1) (closed_accounts.step ha op) hok.2

lemma initial_reflects (aOps : Nat → Option Device) (files : List Nat) :
    Reflects (initial aOps files) (lastWritten []) where
  toListed := listed_of_empty fun _ => ⟨rfl, rfl, fun _ => rfl⟩
  iSize_lt _ := (by decide : 0 < wordSize)
  holds _ _ _ := rfl

/--
After every run in which each step meets the condition, a read of a file without a
backing store returns, byte by byte, what was last written. The allocations of a write succeed,
and reclaim runs between the calls only.
-/
theorem read_run (aOps : Nat → Option Device) (files : List Nat) {ops : List Op}
    (hok : RunOk step StepOk (initial aOps files) ops) {m : Nat}
    (hm : ((run step (initial aOps files) ops).mapping m).aOps = none) (offset size : Nat) :
    (genericFileRead (run step (initial aOps files) ops) m offset size).1 =
      (List.range (min size (((run step (initial aOps files) ops).mapping m).iSize - offset))).map
        fun k => lastWritten ops.reverse m (offset + k) := by
  have ha : Accounts (initial aOps files) := accounts_booted aOps (fun _ => 0) files fun _ _ => true
  have hrun := (initial_reflects aOps files).run ha hok
  rw [append_nil] at hrun
  rw [hrun.read hm]

/-- Two bytes are written to a new ramfs file, and write-back runs. -/
def writeFlush : List Op :=
  [.write 0 0 [65, 66], .flushAll]

theorem writeFlush_read :
    RunOk step StepOk (initial (fun _ => none) [0]) writeFlush ∧
      (genericFileRead (run step (initial (fun _ => none) [0]) writeFlush) 0 0 2).1 = [65, 66] := by
  have hok : RunOk step StepOk (initial (fun _ => none) [0]) writeFlush :=
    ⟨fun _ => by decide, trivial, trivial⟩
  refine ⟨hok, ?_⟩
  rw [read_run (fun _ => none) [0] hok rfl 0 2]
  decide

/-- One byte is written to a new ramfs file, write-back runs, and one page is reclaimed. -/
def writeFlushReclaim : List Op :=
  [.write 0 0 [65], .flushAll, .reclaimOne]

theorem writeFlushReclaim_read :
    ((run step (initial (fun _ => none) [0]) writeFlushReclaim).mapping 0).aOps = none ∧
      ((run step (initial (fun _ => none) [0]) writeFlushReclaim).mapping 0).iSize = 1 ∧
      lastWritten writeFlushReclaim.reverse 0 0 = 65 ∧
      (genericFileRead (run step (initial (fun _ => none) [0]) writeFlushReclaim) 0 0 1).1 = [0] := by
  refine ⟨rfl, ?_, ?_, ?_⟩
  · decide
  · decide
  · decide

end LiteKernel.Mm.PageCache
