import LiteKernel.Mm.DirtyAccount

/-!
# The effect of a write

The content of a file is what a read finds: the bytes of the pages that are cached, the bytes that
the device delivers for other pages, and zeros for other pages of files without a device.

Main results:

- Theorem `write_effect_iff`: when `generic_file_write` changes exactly the bytes it writes, even
  if all files are written back in between.
- Theorem `write_wraps_to_start`: offsets are counted in 32 bits, so a write may go on at the
  start of the file.
-/

namespace LiteKernel.Mm.PageCache

open Function Lib List State

/-! ## The content of files -/

/-- The bytes of all files, by inode and offset. -/
abbrev Content := Nat → Nat → UInt8

variable {s t u : State} {buf : List UInt8} {c : Content}
variable {fuel index m offset p : Nat} {dev : Device}

/-- The content after a write of `buf` at `offset`. -/
def Content.poke (c : Content) (m offset : Nat) (buf : List UInt8) : Content :=
  fun i o => if i = m ∧ offset ≤ o ∧ o < offset + buf.length then buf.getD (o - offset) 0 else c i o

/-- A write can be made in two parts. -/
lemma Content.poke_take_drop (c : Content) (m offset n : Nat) (buf : List UInt8)
    (hn : n ≤ buf.length) :
    (c.poke m offset (buf.take n)).poke m (offset + n) (buf.drop n) = c.poke m offset buf := by
  funext i o
  have htake : (buf.take n).length = n := by simpa using hn
  have hdrop : (buf.drop n).length = buf.length - n := length_drop
  unfold Content.poke
  rw [htake, hdrop]
  by_cases hi : i = m
  · subst hi
    by_cases hlow : o < offset + n
    · rw [if_neg (by omega)]
      by_cases hge : offset ≤ o
      · rw [if_pos ⟨rfl, hge, hlow⟩, if_pos ⟨rfl, hge, by omega⟩]
        simp only [getD_eq_getElem?_getD]
        rw [List.getElem?_take_of_lt (by omega)]
      · rw [if_neg (by omega), if_neg (by omega)]
    · by_cases hhigh : o < offset + buf.length
      · rw [if_pos ⟨rfl, by omega, by omega⟩, if_pos ⟨rfl, by omega, hhigh⟩]
        simp only [getD_eq_getElem?_getD, List.getElem?_drop]
        congr 2
        omega
      · rw [if_neg (by omega), if_neg (by omega), if_neg (by omega)]
  · simp [hi]

lemma Content.poke_of_ne (c : Content) {i : Nat} (hi : i ≠ m) (offset : Nat) (buf : List UInt8) :
    c.poke m offset buf i = c i := by
  funext o
  unfold Content.poke
  rw [if_neg fun h => hi h.1]

lemma Content.poke_nil (c : Content) (m offset : Nat) (h : buf.length = 0) :
    c.poke m offset buf = c := by
  funext i o
  unfold Content.poke
  rw [if_neg (by omega)]

/-- A write inside one page, page by page: the bytes of that page are copied into its data. -/
lemma Content.copyIn_eq_poke (c : Content) {data : PageData} {i o : Nat}
    (hlen : offset % pageSize + buf.length ≤ pageSize)
    (hdata : i = m ∧ o / pageSize = offset / pageSize →
      ¬ (offset ≤ o ∧ o < offset + buf.length) → data (o % pageSize) = c i o) :
    (if i = m ∧ o / pageSize = offset / pageSize then
        copyIn data (offset % pageSize) buf (o % pageSize) else c i o) =
      c.poke m offset buf i o := by
  have hdiv : pageSize * (offset / pageSize) + offset % pageSize = offset := Nat.div_add_mod _ _
  have hodiv : pageSize * (o / pageSize) + o % pageSize = o := Nat.div_add_mod _ _
  unfold Content.poke
  by_cases hio : i = m ∧ o / pageSize = offset / pageSize
  · rw [hio.2] at hodiv
    rw [if_pos hio]
    by_cases hin : offset ≤ o ∧ o < offset + buf.length
    · rw [if_pos ⟨hio.1, hin⟩, copyIn, if_pos ⟨by omega, by omega⟩]
      congr 1
      omega
    · rw [if_neg fun h' => hin h'.2, copyIn, if_neg (by omega), hdata hio hin]
  · -- another page: the write ends before the page of `offset` does
    have hout : ¬ (i = m ∧ offset ≤ o ∧ o < offset + buf.length) := by
      rintro ⟨him, h1, h2⟩
      refine hio ⟨him, ?_⟩
      unfold pageSize at *
      omega
    rw [if_neg hio, if_neg hout]

/-- The byte at an offset that is not cached. -/
def deviceByte (aOps : Option Device) (o : Nat) : UInt8 :=
  match aOps with
  | some dev => dev.page (o / pageSize) (o % pageSize)
  | none => 0

/-- The byte at an offset: what a read finds. -/
def logicalByte (s : State) (m o : Nat) : UInt8 :=
  match findGetPage s m (o / pageSize) with
  | some p => (s.entry p).data (o % pageSize)
  | none => deviceByte (s.mapping m).aOps o

lemma logicalByte_of_some {o : Nat} (h : findGetPage s m (o / pageSize) = some p) :
    logicalByte s m o = (s.entry p).data (o % pageSize) := by
  rw [logicalByte, h]

lemma logicalByte_of_none {o : Nat} (h : findGetPage s m (o / pageSize) = none) :
    logicalByte s m o = deviceByte (s.mapping m).aOps o := by
  rw [logicalByte, h]

/-- The state `t` has the content `c`, and sizes and devices as in `s`. -/
structure Wrote (s : State) (c : Content) (t : State) : Prop extends Accounts t where
  bytes : ∀ i o, logicalByte t i o = c i o
  iSize : ∀ i, (t.mapping i).iSize = (s.mapping i).iSize
  aOps : ∀ i, (t.mapping i).aOps = none ↔ (s.mapping i).aOps = none

lemma Accounts.wrote (h : Accounts s) : Wrote s (logicalByte s) s :=
  ⟨h, fun _ _ => rfl, fun _ => rfl, fun _ => Iff.rfl⟩

lemma Device.page_write_of_ne (dev : Device) (data : PageData) {k j : Nat} (hk : k ≠ index)
    (hj : j < pageSize) : (dev.write index data).page k j = dev.page k j := by
  unfold Device.write
  split
  · rfl
  · have hout : ¬ (index * pageSize ≤ k * pageSize + j ∧
        k * pageSize + j < index * pageSize + pageSize) := by
      unfold pageSize at *
      omega
    unfold Device.page
    split
    · exact if_neg fun hc => hout ⟨hc.1, hc.2.1⟩
    · rfl

/-! ## Write-back -/

lemma update_dirty (s : State) (p q : Nat) (d : Bool) :
    (Function.update s.entry p { s.entry p with dirty := d } q).index = (s.entry q).index ∧
      (Function.update s.entry p { s.entry p with dirty := d } q).data = (s.entry q).data := by
  rcases eq_or_ne q p with rfl | hq
  · simp
  · simp [hq]

lemma findGetPage_congr
    (hchain : (t.mapping m).pageHash (index % hashSize) = (s.mapping m).pageHash (index % hashSize))
    (hindex : ∀ q ∈ (s.mapping m).pageHash (index % hashSize),
      (t.entry q).index = (s.entry q).index) : findGetPage t m index = findGetPage s m index := by
  unfold findGetPage chain
  rw [hchain]
  apply List.find?_congr
  intro q hq
  rw [hindex q hq]

lemma Wrote.flushPage (h : Wrote u c s) (n : Nat)
    (hp : p ∈ (s.mapping m).dirtyPages) : Wrote u c (flushPage m (n, s) p).2 := by
  obtain ⟨hentry, hother, hmap, -⟩ := flushPage_fields m n s p
  have hmove := flushPage_moves m n s p
  have hfind : ∀ i k, findGetPage (PageCache.flushPage m (n, s) p).2 i k = findGetPage s i k := by
    intro i k
    refine findGetPage_congr ?_ fun q _ => hmove.index_eq q
    rcases eq_or_ne i m with rfl | hi
    · rw [hmove.pageHash]
    · rw [hother i hi]
  refine ⟨h.toAccounts.flushPage n hp, fun i o => ?_, fun i => ?_, fun i => ?_⟩
  · rw [← h.bytes i o]
    unfold logicalByte
    rw [hfind]
    split
    · rw [hentry, (update_dirty s p _ false).2]
    · next hnone =>
      rcases eq_or_ne i m with rfl | hi
      · -- The page that goes to the device is cached, so it is another one.
        have hne : o / pageSize ≠ (s.entry p).index := by
          intro heq
          have hchain := (h.booked i).chained p (.inr hp)
          rw [heq] at hnone
          have hfound := List.find?_eq_none.mp hnone p hchain
          simp at hfound
        rw [hmap]
        cases hops : (s.mapping i).aOps with
        | none => rfl
        | some dev =>
          simp only [Option.map_some, deviceByte]
          split
          · exact dev.page_write_of_ne _ hne (Nat.mod_lt _ (by decide))
          · rfl
      · rw [hother i hi]
  · rcases eq_or_ne i m with rfl | hi
    · rw [hmap]
      exact h.iSize i
    · rw [hother i hi]
      exact h.iSize i
  · rcases eq_or_ne i m with rfl | hi
    · rw [hmap, ← h.aOps i]
      exact Option.map_eq_none_iff
    · rw [hother i hi]
      exact h.aOps i

lemma keptByFlush_wrote (s : State) (c : Content) : KeptByFlush (Wrote s c) where
  listed h := h.toListed
  syncBuffers h := ⟨h.toAccounts.syncBuffers, h.bytes, h.iSize, h.aOps⟩
  flushPage n h hp := h.flushPage n hp

/-! ## One page -/

lemma logicalByte_congr {i o : Nat}
    (hfind : findGetPage t i (o / pageSize) = findGetPage s i (o / pageSize))
    (hdata : ∀ q, findGetPage s i (o / pageSize) = some q → (t.entry q).data = (s.entry q).data)
    (hops : (t.mapping i).aOps = (s.mapping i).aOps) : logicalByte t i o = logicalByte s i o := by
  unfold logicalByte
  rw [hfind, hops]
  split
  · next q hq => rw [hdata q hq]
  · rfl

lemma Wrote.markDirty (h : Wrote u c s) (hp : OnList s m p) : Wrote u c (markDirty s m p) := by
  by_cases hd : (s.entry p).dirty = true
  · rw [PageCache.markDirty, if_pos hd]
    exact h
  obtain ⟨hmove, hentry, hmap⟩ := markDirty_moves hd m
  have hfields : ∀ i, ((PageCache.markDirty s m p).mapping i).iSize = (s.mapping i).iSize ∧
      ((PageCache.markDirty s m p).mapping i).aOps = (s.mapping i).aOps ∧
      ((PageCache.markDirty s m p).mapping i).pageHash = (s.mapping i).pageHash := by
    intro i
    rcases eq_or_ne i m with rfl | hi
    · rw [hmap]
      exact ⟨rfl, rfl, rfl⟩
    · rw [hmove.other i hi]
      exact ⟨rfl, rfl, rfl⟩
  refine ⟨h.toAccounts.markDirty hp, fun i o => ?_, fun i => (hfields i).1.trans (h.iSize i),
    fun i => by rw [(hfields i).2.1, h.aOps]⟩
  rw [← h.bytes i o]
  refine logicalByte_congr (findGetPage_congr (by rw [(hfields i).2.2]) fun q _ =>
    hmove.index_eq q) (fun q _ => ?_) (hfields i).2.1
  rw [hentry]
  exact (update_dirty s p q true).2

lemma findGetPage_add (h : Listed s) (m index : Nat) :
    findGetPage (addToPageCache s m index).2 m index = some s.nextEntry ∧
      ∀ i k, ¬ (i = m ∧ k = index) →
        findGetPage (addToPageCache s m index).2 i k = findGetPage s i k := by
  obtain ⟨-, hother, hmap⟩ := addToPageCache_fields s m index
  have hold := fun i b q (hq : q ∈ (s.mapping i).pageHash b) =>
    h.entry_add ((h.pages i).hashed b q hq) m index
  have hself := addToPageCache_self s m index
  set t := (addToPageCache s m index).2
  refine ⟨by simp [findGetPage, chain, hmap, hself], fun i k hne => ?_⟩
  by_cases hb : i = m ∧ k % hashSize = index % hashSize
  · obtain ⟨rfl, hb⟩ := hb
    have hk : index ≠ k := fun hk => hne ⟨rfl, hk.symm⟩
    unfold findGetPage chain
    simp only [hmap, hb, update_self]
    rw [List.find?_cons_of_neg (by simp [hself, hk])]
    apply List.find?_congr
    intro q hq
    rw [hold i _ q hq]
  · refine findGetPage_congr ?_ fun q hq => by rw [hold i _ q hq]
    rcases eq_or_ne i m with rfl | hi
    · simp only [hmap]
      rw [update_of_ne fun hk => hb ⟨rfl, hk⟩]
    · rw [hother i hi]

/-- A new page is zero; sizes, devices and the entries that were found before stay. -/
lemma addToPageCache_kept (h : Listed s) (m index : Nat) :
    (addToPageCache s m index).2.entry s.nextEntry =
        { index := index, data := fun _ => 0, dirty := false } ∧
      (∀ i, ((addToPageCache s m index).2.mapping i).iSize = (s.mapping i).iSize ∧
        ((addToPageCache s m index).2.mapping i).aOps = (s.mapping i).aOps) ∧
      ∀ i k q, findGetPage s i k = some q →
        (addToPageCache s m index).2.entry q = s.entry q := by
  obtain ⟨-, hother, hmap⟩ := addToPageCache_fields s m index
  refine ⟨addToPageCache_self s m index, fun i => ?_, fun i k q hq => ?_⟩
  · rcases eq_or_ne i m with rfl | hi
    · rw [hmap]
      exact ⟨rfl, rfl⟩
    · rw [hother i hi]
      exact ⟨rfl, rfl⟩
  · exact h.entry_add ((h.pages i).hashed _ q (findGetPage_some hq).1) m index

lemma findGetPage_setData (s : State) (p : Nat) (f : Entry → PageData) (i k : Nat) :
    findGetPage (s.setEntry p fun e => { e with data := f e }) i k = findGetPage s i k := by
  refine findGetPage_congr rfl fun q _ => ?_
  rcases eq_or_ne q p with rfl | hq
  · simp [setEntry]
  · simp [setEntry, hq]

lemma Accounts.logicalByte_setData (h : Accounts s) (hp : findGetPage s m index = some p)
    (f : Entry → PageData) (i o : Nat) :
    logicalByte (s.setEntry p fun e => { e with data := f e }) i o =
      if i = m ∧ o / pageSize = index then f (s.entry p) (o % pageSize) else logicalByte s i o := by
  split
  case isTrue hio =>
    obtain ⟨rfl, rfl⟩ := hio
    rw [logicalByte_of_some ((findGetPage_setData s p f i _).trans hp)]
    simp [setEntry]
  case isFalse hio =>
    refine logicalByte_congr (findGetPage_setData s p f i _) (fun q hq => ?_) rfl
    -- Another page of the file, or a page of another file.
    have hqp : q ≠ p := by
      rintro rfl
      have him := h.apart i m q (h.toListed.found hq) (h.toListed.found hp)
      exact hio ⟨him, (findGetPage_some hq).2.symm.trans (findGetPage_some hp).2⟩
    simp [setEntry, hqp]

lemma Wrote.add (h : Wrote u c s) (hnone : findGetPage s m index = none) :
    Wrote u (logicalByte (addToPageCache s m index).2) (addToPageCache s m index).2 ∧
      ∀ i o, ¬ (i = m ∧ o / pageSize = index) →
        logicalByte (addToPageCache s m index).2 i o = c i o := by
  obtain ⟨-, hfields, hold⟩ := addToPageCache_kept h.toListed m index
  obtain ⟨-, hfindOld⟩ := findGetPage_add h.toListed m index
  refine ⟨⟨h.toAccounts.add hnone, fun _ _ => rfl, fun i => (hfields i).1.trans (h.iSize i),
    fun i => by rw [(hfields i).2, h.aOps]⟩, fun i o hio => ?_⟩
  rw [← h.bytes i o]
  refine logicalByte_congr (hfindOld i _ hio) (fun q hq => ?_) (hfields i).2
  rw [hold i _ q hq]

lemma Wrote.readIn (h : Wrote u c s) (hnone : findGetPage s m index = none)
    (hdev : (s.mapping m).aOps = some dev) :
    Wrote u c (readpage dev (addToPageCache s m index).2 s.nextEntry) := by
  obtain ⟨hself, -, -⟩ := addToPageCache_kept h.toListed m index
  obtain ⟨hfind, -⟩ := findGetPage_add h.toListed m index
  obtain ⟨hw, hbytes⟩ := h.add hnone
  refine ⟨hw.toAccounts.setData _ (fun e => dev.page e.index), fun i o => ?_, hw.iSize, hw.aOps⟩
  refine (hw.toAccounts.logicalByte_setData hfind (fun e => dev.page e.index) i o).trans ?_
  split
  · next hio =>
    obtain ⟨rfl, rfl⟩ := hio
    rw [hself, ← h.bytes i o, logicalByte_of_none hnone, hdev]
    rfl
  · next hio => exact hbytes i o hio

/--
The entry for a write. The content stays, except that a page that will be overwritten as a whole is
not read in.
-/
lemma writeEntry_wrote (h : Wrote u c s) (m index pageOffset bytes : Nat) :
    ∃ c', Wrote u c' (writeEntry s m index pageOffset bytes).2 ∧
      findGetPage (writeEntry s m index pageOffset bytes).2 m index =
        some (writeEntry s m index pageOffset bytes).1 ∧
      ∀ i o, c' i o = c i o ∨
        (i = m ∧ o / pageSize = index ∧ pageOffset = 0 ∧ pageSize ≤ bytes) := by
  unfold writeEntry
  cases hnone : findGetPage s m index with
  | some p => exact ⟨c, h, hnone, fun _ _ => .inl rfl⟩
  | none =>
    obtain ⟨hself, hfields, -⟩ := addToPageCache_kept h.toListed m index
    obtain ⟨hfind, -⟩ := findGetPage_add h.toListed m index
    obtain ⟨hw, hbytes⟩ := h.add hnone
    have hp : (addToPageCache s m index).1 = s.nextEntry := rfl
    simp only [hp]
    rw [(hfields m).2]
    cases hdev : (s.mapping m).aOps with
    | none =>
      refine ⟨c, ⟨hw.toAccounts, fun i o => ?_, hw.iSize, hw.aOps⟩, hfind, fun _ _ => .inl rfl⟩
      by_cases hio : i = m ∧ o / pageSize = index
      · obtain ⟨rfl, rfl⟩ := hio
        rw [logicalByte_of_some hfind, hself, ← h.bytes i o, logicalByte_of_none hnone, hdev]
        rfl
      · exact hbytes i o hio
    | some dev =>
      dsimp only
      split
      case isTrue =>
        exact ⟨c, h.readIn hnone hdev,
          (findGetPage_setData _ _ (fun e => dev.page e.index) m index).trans hfind,
          fun _ _ => .inl rfl⟩
      case isFalse hfull =>
        refine ⟨_, hw, hfind, fun i o => ?_⟩
        by_cases hio : i = m ∧ o / pageSize = index
        · exact .inr ⟨hio.1, hio.2, by omega, by omega⟩
        · exact .inl (hbytes i o hio)

lemma Wrote.writePart (h : Wrote u c s) (m offset : Nat) (buf : List UInt8)
    (hlen : offset % pageSize + buf.length ≤ pageSize) :
    Wrote u (c.poke m offset buf)
      (writePart s m (offset / pageSize) (offset % pageSize) buf) := by
  obtain ⟨c', hw, hfind, hc⟩ :=
    writeEntry_wrote h m (offset / pageSize) (offset % pageSize) buf.length
  unfold PageCache.writePart
  set p := (writeEntry s m (offset / pageSize) (offset % pageSize) buf.length).1
  set t := (writeEntry s m (offset / pageSize) (offset % pageSize) buf.length).2
  have hset : Wrote u (c.poke m offset buf) (t.setEntry p fun e =>
      { e with data := copyIn e.data (offset % pageSize) buf }) := by
    refine ⟨hw.toAccounts.setData p _, fun i o => ?_, hw.iSize, hw.aOps⟩
    refine (hw.toAccounts.logicalByte_setData hfind
      (fun e => copyIn e.data (offset % pageSize) buf) i o).trans ?_
    rw [hw.bytes]
    refine (c'.copyIn_eq_poke hlen fun hio _ => ?_).trans ?_
    · obtain ⟨rfl, hidx⟩ := hio
      rw [← hw.bytes, logicalByte_of_some (by rw [hidx]; exact hfind)]
    · -- A page that was not read in is overwritten as a whole.
      unfold Content.poke
      split
      · rfl
      · next hout =>
        refine (hc i o).resolve_right fun ⟨him, hidx, hzero, hfull⟩ => hout ⟨him, ?_⟩
        unfold pageSize at *
        omega
  have hdirty := hset.markDirty (hw.toListed.found hfind)
  unfold balanceDirtyPages
  dsimp only
  split
  · exact (keptByFlush_wrote _ _).writebackFlushAll hdirty
  · exact hdirty

/-! ## The whole write -/

/--
The loop of `generic_file_write`, for what the parts keep. The bytes of other files stay; if the
range does not wrap around the address space, the file gets the bytes of the buffer.
-/
lemma writeLoop_pokes {P : Content → State → Prop} (m : Nat)
    (hpart : ∀ {c s} offset buf, offset % pageSize + buf.length ≤ pageSize → P c s →
      P (c.poke m offset buf) (writePart s m (offset / pageSize) (offset % pageSize) buf))
    (h : P c s) (hfuel : buf.length ≤ fuel) :
    ∃ c', P c' (writeLoop m fuel offset buf s).2 ∧ (∀ i, i ≠ m → c' i = c i) ∧
      (offset + buf.length ≤ wordSize → c' = c.poke m offset buf) := by
  induction fuel generalizing offset buf s c with
  | zero => exact ⟨c, h, fun _ _ => rfl, fun _ => (c.poke_nil m offset (by omega)).symm⟩
  | succ fuel ih =>
    simp only [writeLoop]
    split_ifs with hzero
    · exact ⟨c, h, fun _ _ => rfl, fun _ => (c.poke_nil m offset hzero).symm⟩
    · set n := min (pageSize - offset % pageSize) buf.length with hn
      have hmod : offset % pageSize < pageSize := Nat.mod_lt _ (by decide)
      have htake : (buf.take n).length = n := by
        rw [length_take]
        omega
      have hdrop : (buf.drop n).length = buf.length - n := length_drop
      have hfuel' : (buf.drop n).length ≤ fuel := by omega
      obtain ⟨c', hr, hother, hpoke⟩ := ih (hpart offset (buf.take n) (by omega) h) hfuel'
      refine ⟨c', hr, fun i hi => ?_, fun hfit => ?_⟩
      · rw [hother i hi, c.poke_of_ne hi]
      · rw [← c.poke_take_drop m offset n buf (by omega)]
        by_cases hlast : offset + n < wordSize
        · rw [wrap_of_lt hlast] at hpoke
          exact hpoke (by omega)
        · -- the range ends with the address space: this was the last part
          have hwrap : wrap (offset + n) = 0 := by
            have hsum : offset + n = wordSize := by omega
            rw [hsum]
            rfl
          rw [hwrap] at hpoke
          have hend : (buf.drop n).length = 0 := by omega
          rw [hpoke (by omega), Content.poke_nil _ m 0 hend, Content.poke_nil _ m (offset + n) hend]

lemma writeLoop_offset (hoffset : offset < wordSize) (hfuel : buf.length ≤ fuel) :
    (writeLoop m fuel offset buf s).1 = wrap (offset + buf.length) := by
  induction fuel generalizing offset buf s with
  | zero =>
    have hnil : buf.length = 0 := by omega
    rw [hnil, add_zero, wrap_of_lt hoffset]
    rfl
  | succ fuel ih =>
    simp only [writeLoop]
    split
    · next hzero => rw [hzero, add_zero, wrap_of_lt hoffset]
    · set n := min (pageSize - offset % pageSize) buf.length with hn
      have hmod : offset % pageSize < pageSize := Nat.mod_lt _ (by decide)
      have hdrop : (buf.drop n).length = buf.length - n := length_drop
      rw [ih (wrap_lt _) (by omega)]
      unfold wrap
      omega

/-- The loop writes the whole buffer, if the offsets do not wrap around. -/
lemma Wrote.writeLoop (h : Wrote u c s) (hfuel : buf.length ≤ fuel) :
    ∃ c', Wrote u c' (writeLoop m fuel offset buf s).2 ∧
      (offset + buf.length < wordSize →
        c' = c.poke m offset buf ∧ (writeLoop m fuel offset buf s).1 = offset + buf.length) := by
  obtain ⟨c', hw, -, hpoke⟩ := writeLoop_pokes (P := fun c t => Wrote u c t) m
    (fun offset buf hlen ht => ht.writePart m offset buf hlen) h hfuel
  refine ⟨c', hw, fun hfit => ⟨hpoke (by omega), ?_⟩⟩
  rw [writeLoop_offset (by omega) hfuel, wrap_of_lt hfit]

/--
What a write of `buf` at `offset` should do: it writes up to the end of a file with a
device, and all of the buffer to other files, which grow.
-/
structure WriteEffect (s : State) (m offset : Nat) (buf : List UInt8) (r : Nat × State) : Prop where
  written : r.1 = if (s.mapping m).aOps = none then buf.length
    else min buf.length ((s.mapping m).iSize - offset)
  content : ∀ i o, logicalByte r.2 i o =
    Content.poke (logicalByte s) m offset (buf.take r.1) i o
  size : (r.2.mapping m).iSize = if (s.mapping m).aOps = none
    then max (s.mapping m).iSize (offset + r.1) else (s.mapping m).iSize
  inside : (s.mapping m).aOps ≠ none → offset + r.1 ≤ (s.mapping m).iSize

/--
The offsets do not wrap around, and a write that writes nothing does not start behind the end.
-/
def Regular (s : State) (m offset : Nat) (buf : List UInt8) : Prop :=
  if (s.mapping m).aOps = none then
    if buf.length = 0 then offset ≤ (s.mapping m).iSize else offset + buf.length < wordSize
  else
    offset ≤ (s.mapping m).iSize ∧
      (buf.length = 0 ∨ offset = (s.mapping m).iSize ∨ offset + buf.length < wordSize)

lemma WriteEffect.nothing (hn : (if (s.mapping m).aOps = none then buf.length
      else min buf.length ((s.mapping m).iSize - offset)) = 0)
    (hle : offset ≤ (s.mapping m).iSize) : WriteEffect s m offset buf (0, s) where
  written := hn.symm
  content i o := by rw [take_zero, Content.poke_nil _ m offset rfl]
  size := by
    split
    · exact (max_eq_left hle).symm
    · rfl
  inside _ := hle

lemma grow_fields (s : State) (m n : Nat) :
    ((if n > (s.mapping m).iSize then s.setMapping m fun a => { a with iSize := n } else s).mapping
        m).iSize = max (s.mapping m).iSize n ∧
      ∀ i o, logicalByte (if n > (s.mapping m).iSize then
        s.setMapping m fun a => { a with iSize := n } else s) i o = logicalByte s i o := by
  split
  case isTrue hlt =>
    refine ⟨by simp [setMapping, max_eq_right hlt.le], fun i o => ?_⟩
    have hfields : ((s.setMapping m fun a => { a with iSize := n }).mapping i).aOps =
        (s.mapping i).aOps ∧ ((s.setMapping m fun a => { a with iSize := n }).mapping i).pageHash =
          (s.mapping i).pageHash := by
      rcases eq_or_ne i m with rfl | hi
      · simp [setMapping]
      · simp [setMapping, hi]
    exact logicalByte_congr (findGetPage_congr (by rw [hfields.2]) fun _ _ => rfl)
      (fun _ _ => rfl) hfields.1
  case isFalse hge => exact ⟨(max_eq_left (not_lt.mp hge)).symm, fun _ _ => rfl⟩

lemma write_effect_plain (h : Accounts s) (hoffset : offset < wordSize)
    (hsize : (s.mapping m).iSize < wordSize) (hnil : buf.length ≠ 0)
    (hops : (s.mapping m).aOps = none) :
    WriteEffect s m offset buf (genericFileWrite s m offset buf) ↔
      offset + buf.length < wordSize := by
  obtain ⟨c, hw, hfit⟩ := h.wrote.writeLoop (m := m) (le_refl buf.length)
  have hlt : (writeLoop m buf.length offset buf s).1 < wordSize := by
    rw [writeLoop_offset hoffset (le_refl _)]
    exact wrap_lt _
  have hgrow := grow_fields (writeLoop m buf.length offset buf s).2 m
    (writeLoop m buf.length offset buf s).1
  rw [hw.iSize m] at hgrow
  unfold genericFileWrite
  simp only [if_neg hnil, hops]
  rw [hw.iSize m]
  constructor
  · rintro ⟨-, -, hs, -⟩
    rw [if_pos hops, hgrow.1] at hs
    have hle : offset + buf.length ≤
        max (s.mapping m).iSize (writeLoop m buf.length offset buf s).1 :=
      (le_max_right _ _).trans hs.ge
    exact hle.trans_lt (max_lt hsize hlt)
  · intro hword
    obtain ⟨hc, hend⟩ := hfit hword
    refine ⟨(if_pos hops).symm, fun i o => ?_, ?_, fun hne => absurd hops hne⟩
    · rw [hgrow.2, hw.bytes, hc, take_length]
    · rw [if_pos hops, hgrow.1, hend]

lemma write_effect_device (h : Accounts s) (hlen : buf.length < wordSize)
    (hsize : (s.mapping m).iSize < wordSize) (hnil : buf.length ≠ 0)
    (hops : (s.mapping m).aOps = some dev) (hinside : offset < (s.mapping m).iSize) :
    WriteEffect s m offset buf (genericFileWrite s m offset buf) ↔
      offset + buf.length < wordSize := by
  have hne : ¬ (s.mapping m).aOps = none := by simp [hops]
  unfold genericFileWrite
  simp only [if_neg hnil, hops]
  rw [if_neg (not_le.mpr hinside)]
  by_cases hword : offset + buf.length < wordSize
  · rw [wrap_of_lt hword]
    refine iff_of_true ?_ hword
    set cut := if offset + buf.length > (s.mapping m).iSize then
      buf.take ((s.mapping m).iSize - offset) else buf with hcut
    have hcut' : cut.length = min buf.length ((s.mapping m).iSize - offset) ∧
        cut = buf.take cut.length := by
      rw [hcut]
      split
      · refine ⟨by rw [length_take, min_comm], ?_⟩
        rw [length_take, ← take_take, take_length]
      · exact ⟨by omega, (take_length).symm⟩
    obtain ⟨c, hw, hfit⟩ := h.wrote.writeLoop (m := m) (le_refl cut.length)
    obtain ⟨hc, -⟩ := hfit (by omega : offset + cut.length < wordSize)
    refine ⟨hcut'.1.trans (if_neg hne).symm, fun i o => ?_, ?_, fun _ => ?_⟩
    · rw [hw.bytes, hc, ← hcut'.2]
    · rw [if_neg hne]
      exact hw.iSize m
    · show offset + cut.length ≤ _
      omega
  · -- The sum wraps around to an offset in the file, and nothing is cut off.
    refine iff_of_false (fun he => ?_) hword
    have hcut : ¬ wrap (offset + buf.length) > (s.mapping m).iSize := by
      unfold wrap wordSize at *
      omega
    have hn := he.written
    rw [if_neg hcut, if_neg hne] at hn
    omega

/--
A write has the effect it should have, in a cache whose accounts agree, if and only if it is
regular. Its allocations succeed without a reclaim.
-/
theorem write_effect_iff (h : Accounts s) {buf : List UInt8} (hoffset : offset < wordSize)
    (hlen : buf.length < wordSize) (hsize : (s.mapping m).iSize < wordSize) :
    WriteEffect s m offset buf (genericFileWrite s m offset buf) ↔ Regular s m offset buf := by
  unfold Regular
  by_cases hnil : buf.length = 0
  · have hnone : genericFileWrite s m offset buf = (0, s) := if_pos hnil
    simp only [hnone, if_pos hnil]
    constructor
    · rintro ⟨-, -, hs, hin⟩
      split
      · next hops =>
        rw [if_pos hops] at hs
        exact hs ▸ le_max_right _ _
      · next hops => exact ⟨hin hops, Or.inl hnil⟩
    · intro hreg
      refine WriteEffect.nothing (by simp [hnil]) ?_
      split at hreg
      · exact hreg
      · exact hreg.1
  · cases hops : (s.mapping m).aOps with
    | none =>
      simp only [if_true, if_neg hnil]
      exact write_effect_plain h hoffset hsize hnil hops
    | some dev =>
      have hne : (s.mapping m).aOps ≠ none := by simp [hops]
      simp only [reduceCtorEq, if_false]
      rcases lt_or_ge offset (s.mapping m).iSize with hinside | hbehind
      · rw [write_effect_device h hlen hsize hnil hops hinside]
        omega
      · have hnone : genericFileWrite s m offset buf = (0, s) := by
          unfold genericFileWrite
          simp only [if_neg hnil, hops]
          exact if_pos hbehind
        rw [hnone]
        constructor
        · rintro ⟨-, -, -, hin⟩
          have hle : offset ≤ (s.mapping m).iSize := hin hne
          exact ⟨hle, Or.inr (.inl (le_antisymm hle hbehind))⟩
        · rintro ⟨hle, -⟩
          refine WriteEffect.nothing ?_ hle
          rw [if_neg hne]
          omega

/-- Two bytes are written to a new file. -/
theorem write_effect_two :
    WriteEffect (booted (fun _ => none) (fun _ => 0) [0] fun _ _ => true) 0 0 [1, 2]
      (genericFileWrite (booted (fun _ => none) (fun _ => 0) [0] fun _ _ => true) 0 0 [1, 2]) :=
  (write_effect_iff (accounts_booted _ _ _ _) (by decide) (by decide) (by decide)).mpr
    (show 0 + 2 < wordSize by decide)

/-- Two bytes are written at the last offset: the second of them goes to the start of the file. -/
theorem write_wraps_to_start :
    logicalByte (genericFileWrite (booted (fun _ => none) (fun _ => 0) [0] fun _ _ => true) 0
        0xFFFFFFFF [1, 2]).2 0 0 = 2 ∧
      ((genericFileWrite (booted (fun _ => none) (fun _ => 0) [0] fun _ _ => true) 0
        0xFFFFFFFF [1, 2]).2.mapping 0).iSize = 1 := by
  decide +kernel

end LiteKernel.Mm.PageCache
