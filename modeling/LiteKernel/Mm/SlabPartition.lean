import LiteKernel.Mm.Slab

/-!
# The heap hands out disjoint storage

Every frame that the heap holds belongs to a slab or to one large block. The objects of a slab
are its free list and the live pointers into its page.

Main results:

- Theorem `slab_partition`: free and live objects partition the slabs, live pointers have disjoint
  storage, and reclaim takes no page of a live object.
-/

namespace LiteKernel.Mm.Slab

open Function Lib List Slab State

variable {g i k size x : Nat} {s : State}

/-! ## Addresses -/

/-- The address at which a frame is mapped. -/
def frameAddr (g : Nat) : Nat :=
  g * pageSize + pageOffset

/-- The frame of an address. -/
def frameOf (x : Nat) : Nat :=
  (x - pageOffset) / pageSize

lemma frameAddr_inj {h : Nat} (heq : frameAddr g = frameAddr h) : g = h := by
  unfold frameAddr pageSize at heq
  omega

lemma frameOf_eq_iff (hg : 0 < g) :
    frameOf x = g ↔ frameAddr g ≤ x ∧ x < frameAddr g + pageSize := by
  unfold frameOf frameAddr pageSize pageOffset
  omega

lemma alignDown_eq_iff :
    alignDown x = frameAddr g ↔ frameAddr g ≤ x ∧ x < frameAddr g + pageSize := by
  unfold alignDown frameAddr pageSize pageOffset
  omega

lemma frameOf_of_page (hg : 0 < g) (hx : alignDown x = frameAddr g) : frameOf x = g :=
  (frameOf_eq_iff hg).mpr (alignDown_eq_iff.mp hx)

/-- The objects of a slab. -/
def objects (v size : Nat) : List Nat :=
  (List.range (pageSize / size)).map fun k => v + k * size

lemma nodup_objects (v : Nat) : (objects v (cacheSize i)).Nodup := by
  refine nodup_range.map fun a b heq => ?_
  have hpos : 0 < cacheSize i := Nat.two_pow_pos _
  exact Nat.eq_of_mul_eq_mul_right hpos (Nat.add_left_cancel heq)

section Objects

variable {i v o o' x : Nat} (hi : i < slabMaxCache)
include hi

lemma cacheSize_mul : pageSize / cacheSize i * cacheSize i = pageSize := by
  interval_cases i <;> rfl

lemma object_bounds (ho : o ∈ objects v (cacheSize i)) :
    v ≤ o ∧ o + cacheSize i ≤ v + pageSize := by
  obtain ⟨k, hk, rfl⟩ := mem_map.mp ho
  have hlt := mem_range.mp hk
  have hle : (k + 1) * cacheSize i ≤ pageSize := by
    rw [← cacheSize_mul hi]
    exact Nat.mul_le_mul_right _ hlt
  rw [Nat.succ_mul] at hle
  omega

lemma exists_object (h1 : v ≤ x) (h2 : x < v + pageSize) :
    ∃ o ∈ objects v (cacheSize i), o ≤ x ∧ x < o + cacheSize i := by
  have hpos : 0 < cacheSize i := Nat.two_pow_pos _
  have hmod := Nat.div_add_mod' (x - v) (cacheSize i)
  have hlt := Nat.mod_lt (x - v) hpos
  refine ⟨_, mem_map_of_mem (mem_range.mpr (?_ : (x - v) / cacheSize i < _)), ?_, ?_⟩
  · rw [Nat.div_lt_iff_lt_mul hpos, cacheSize_mul hi]
    omega
  · omega
  · omega

lemma objects_reverse_ne_nil : (objects v (cacheSize i)).reverse ≠ [] := by
  obtain ⟨o, ho, -⟩ := exists_object (v := v) hi le_rfl (Nat.lt_add_of_pos_right (by decide))
  exact ne_nil_of_mem (mem_reverse.mpr ho)

lemma object_unique (ho : o ∈ objects v (cacheSize i)) (ho' : o' ∈ objects v (cacheSize i))
    (h1 : o ≤ x) (h2 : x < o + cacheSize i) (h1' : o' ≤ x) (h2' : x < o' + cacheSize i) :
    o = o' := by
  obtain ⟨k, -, rfl⟩ := mem_map.mp ho
  obtain ⟨k', -, rfl⟩ := mem_map.mp ho'
  have h : k = k' := by
    unfold cacheSize at *
    interval_cases i <;> omega
  rw [h]

end Objects

/-! ## The invariant -/

/-- Who uses a frame of the heap. -/
inductive Owner where
  | slab (d : Nat)
  | large (p : Nat)

/-- The live pointers into the page of a slab. -/
def State.liveIn (s : State) (d : Nat) : List Nat :=
  (s.live.map Prod.fst).filter fun p => decide (alignDown p = (s.slabPool d).vaddr)

lemma mem_liveIn {d : Nat} {e : Nat × Nat} (he : e ∈ s.live)
    (hpage : alignDown e.1 = (s.slabPool d).vaddr) : e.1 ∈ s.liveIn d :=
  mem_filter.mpr ⟨mem_map_of_mem he, decide_eq_true hpage⟩

/-- A slab of the cache `i`; its free objects are `l`. -/
structure SlabOk (s : State) (own : Nat → Option Owner) (l : List Nat) (i d : Nat) : Prop where
  index : i < slabMaxCache
  cache : (s.slabPool d).cache = some i
  frame : ∃ g, (s.slabPool d).vaddr = frameAddr g ∧ own g = some (.slab d)
  total : (s.slabPool d).total = pageSize / cacheSize i
  links : Linked s.mem 0 (s.slabPool d).freelist l
  parts : (l ++ s.liveIn d).Perm (objects (s.slabPool d).vaddr (cacheSize i))
  inuse : (s.slabPool d).inuse = (s.liveIn d).length

/-- A block of pages with a header, for a pointer `p` to `n` bytes. -/
structure LargeOk (mem : Nat → Nat) (own : Nat → Option Owner) (p n f order : Nat) : Prop where
  ptr : p = frameAddr f + largeHdrSize
  magic : mem (frameAddr f) = largeMagic
  order_eq : mem (frameAddr f + 4) = order
  phys : mem (frameAddr f + 8) = f * pageSize
  bound : f + 2 ^ order ≤ lowPages
  frames : ∀ g, own g = some (.large p) ↔ f ≤ g ∧ g < f + 2 ^ order
  size : n + largeHdrSize ≤ pageSize * 2 ^ order

section Congr

variable {s s' : State} {own own' : Nat → Option Owner} {l : List Nat} {i d p n f order : Nat}

lemma SlabOk.page_of_object (h : SlabOk s own l i d) {o : Nat}
    (ho : o ∈ objects (s.slabPool d).vaddr (cacheSize i)) : alignDown o = (s.slabPool d).vaddr := by
  obtain ⟨g, hv, -⟩ := h.frame
  have hobj := object_bounds h.index ho
  have hpos : 0 < cacheSize i := Nat.two_pow_pos _
  rw [hv] at hobj ⊢
  exact alignDown_eq_iff.mpr (by omega)

lemma SlabOk.page_of_free (h : SlabOk s own l i d) {o : Nat} (ho : o ∈ l) :
    alignDown o = (s.slabPool d).vaddr :=
  h.page_of_object (h.parts.subset (mem_append_left _ ho))

lemma SlabOk.congr (h : SlabOk s own l i d) (hpool : s'.slabPool d = s.slabPool d)
    (hlive : s'.live.map Prod.fst = s.live.map Prod.fst ∨ s'.liveIn d = s.liveIn d)
    (hown : ∀ g, own g = some (.slab d) → own' g = some (.slab d))
    (hmem : ∀ o ∈ l, s'.mem o = s.mem o) : SlabOk s' own' l i d := by
  have hin : s'.liveIn d = s.liveIn d := by
    refine hlive.elim (fun heq => ?_) id
    simp only [liveIn, heq, hpool]
  obtain ⟨g, hv, ho⟩ := h.frame
  refine ⟨h.index, by rw [hpool]; exact h.cache, ⟨g, by rw [hpool]; exact hv, hown g ho⟩,
    by rw [hpool]; exact h.total, ?_, by rw [hin, hpool]; exact h.parts,
    by rw [hin, hpool]; exact h.inuse⟩
  rw [hpool]
  exact h.links.congr hmem

lemma LargeOk.own_first {mem : Nat → Nat} (h : LargeOk mem own p n f order) :
    own f = some (.large p) :=
  (h.frames f).mpr ⟨le_rfl, Nat.lt_add_of_pos_right (Nat.two_pow_pos _)⟩

lemma LargeOk.congr {mem mem' : Nat → Nat} (h : LargeOk mem own p n f order)
    (hown : ∀ g, own' g = some (.large p) ↔ own g = some (.large p))
    (hmem : ∀ a, own (frameOf a) = some (.large p) → a < p → mem' a = mem a) :
    LargeOk mem' own' p n f order := by
  have hword : ∀ k, k < largeHdrSize → mem' (frameAddr f + k) = mem (frameAddr f + k) := by
    intro k hk
    refine hmem _ ?_ (by rw [h.ptr]; omega)
    have hframe : frameOf (frameAddr f + k) = f := by
      unfold frameOf frameAddr pageSize
      unfold largeHdrSize at hk
      omega
    rw [hframe, h.own_first]
  exact
    { ptr := h.ptr
      magic := by
        have hzero := hword 0 (by decide)
        rwa [add_zero, h.magic] at hzero
      order_eq := (hword 4 (by decide)).trans h.order_eq
      phys := (hword 8 (by decide)).trans h.phys
      bound := h.bound
      frames := fun g => (hown g).trans (h.frames g)
      size := h.size }

end Congr

lemma reduceOption_replace (l : List (Option Nat)) (d : Nat) :
    (l.replace (some d) none).reduceOption = l.reduceOption.erase d := by
  induction l with
  | nil => rfl
  | cons a l ih =>
    cases a with
    | none => simpa [replace_cons] using ih
    | some c =>
      by_cases hc : c = d
      · simp [hc]
      · have hdc : (d == c) = false := by simpa using Ne.symm hc
        simp [replace_cons, hdc, hc, ih]

/-- The invariant of the heap, with the owners of the frames and the free objects of the slabs. -/
structure Inv (s : State) (own : Nat → Option Owner) (free : Nat → List Nat) : Prop where
  held : ∀ g, s.held g = (own g).isSome
  pos : ∀ g, own g ≠ none → 0 < g
  slab : ∀ i d, d ∈ s.slabs i → SlabOk s own (free d) i d
  nodup : ∀ i, (s.slabs i).Nodup
  owner : ∀ g d, own g = some (.slab d) →
    (∃ i, d ∈ s.slabs i) ∧ (s.slabPool d).vaddr = frameAddr g
  map_iff : ∀ d, d ∈ s.slabMap.reduceOption ↔ ∃ i, d ∈ s.slabs i
  map_nodup : s.slabMap.reduceOption.Nodup
  metas : s.slabFreeList.Nodup
  unused : ∀ d ∈ s.slabFreeList, ∀ i, d ∉ s.slabs i
  live : ∀ e ∈ s.live, (∃ i d, d ∈ s.slabs i ∧ alignDown e.1 = (s.slabPool d).vaddr ∧
    e.2 ≤ cacheSize i) ∨ ∃ f order, LargeOk s.mem own e.1 e.2 f order
  live_nodup : (s.live.map Prod.fst).Nodup
  blocks : ∀ g p, own g = some (.large p) →
    p ∈ s.live.map Prod.fst ∧ own (frameOf p) = some (.large p)

/-- The storage that a pointer stands for, with the header of a large block. -/
def InStorage (s : State) (p x : Nat) : Prop :=
  (if cacheOf s p = none then p - largeHdrSize else p) ≤ x ∧ x < p + ksize s p

/-- The address belongs to a frame of the heap, and to no free object. -/
def Taken (s : State) (x : Nat) : Prop :=
  s.held (frameOf x) = true ∧ ¬ ∃ i, ∃ d ∈ s.slabs i, ∃ l, Linked s.mem 0 (s.slabPool d).freelist l ∧
    ∃ o ∈ l, o ≤ x ∧ x < o + cacheSize i

lemma inv_kmemCacheInit (mem : Nat → Nat) :
    Inv (kmemCacheInit mem) (fun _ => none) fun _ => [] where
  held _ := rfl
  pos _ h := absurd rfl h
  slab _ _ h := absurd h not_mem_nil
  nodup _ := nodup_nil
  owner _ _ h := by cases h
  map_iff d := by simp [kmemCacheInit]
  map_nodup := nodup_nil
  metas := by simp only [kmemCacheInit, nodup_range]
  unused _ _ _ := not_mem_nil
  live _ h := absurd h not_mem_nil
  live_nodup := nodup_nil
  blocks _ _ h := by cases h

/-- The calls after which the heap is well formed: every size that has room for the header. -/
def Fits (s : State) : Call → Prop
  | .kmalloc size _ => size + largeHdrSize ≤ 2 ^ 31
  | c => Allowed s c

lemma Fits.of_allowed {c : Call} (h : Allowed s c) : Fits s c := by
  cases c with
  | kmalloc size a =>
    have hle : size ≤ 2 ^ 31 - 4096 := h.2
    show size + largeHdrSize ≤ 2 ^ 31
    unfold largeHdrSize
    omega
  | kfree p => exact h
  | reclaim => exact h
  | store addr v => exact h

/--
In every slab the free list and the live objects are its objects, and live pointers have disjoint
storage that makes up all the storage that is taken.
-/
structure Partitioned (s : State) : Prop where
  slabs : ∀ i, ∀ d ∈ s.slabs i, ∃ l, Linked s.mem 0 (s.slabPool d).freelist l ∧
    (l ++ s.liveIn d).Perm (objects (s.slabPool d).vaddr (cacheSize i)) ∧
    (s.slabPool d).total = pageSize / cacheSize i ∧ (s.slabPool d).inuse = (s.liveIn d).length
  size : ∀ e ∈ s.live, e.2 ≤ ksize s e.1
  disjoint : (s.live.map Prod.fst).Pairwise fun p q => ∀ x, p ≤ x ∧ x < p + ksize s p →
    ¬ (q ≤ x ∧ x < q + ksize s q)
  taken : ∀ x, Taken s x ↔ ∃ e ∈ s.live, InStorage s e.1 x

lemma inStorage_of_le {p : Nat} (h : p ≤ x ∧ x < p + ksize s p) : InStorage s p x := by
  refine ⟨?_, h.2⟩
  split_ifs
  · exact (Nat.sub_le _ _).trans h.1
  · exact h.1

lemma slabs_kfree (s : State) (p : Nat) :
    (kfree s p).slabs = s.slabs ∧ (kfree s p).slabFreeList = s.slabFreeList ∧
      ∀ d, ((kfree s p).slabPool d).vaddr = (s.slabPool d).vaddr := by
  unfold kfree kmemCacheFree
  dsimp only
  split
  · exact ⟨rfl, rfl, fun _ => rfl⟩
  split
  · split
    · exact ⟨rfl, rfl, fun _ => rfl⟩
    rename_i c _
    split
    · exact ⟨rfl, rfl, fun _ => rfl⟩
    · refine ⟨rfl, rfl, fun d => ?_⟩
      show (update s.slabPool c _ d).vaddr = _
      by_cases hd : d = c
      · rw [hd, update_self]
        rfl
      · rw [update_of_ne hd]
  · split <;> exact ⟨rfl, rfl, fun _ => rfl⟩

/-- What an allocation of `n` bytes leaves, once the pointer has been recorded. -/
def Allocates (n : Nat) : Option Nat × State → Prop
  | (none, s) => ∃ own free, Inv s own free
  | (some p, s) => ∃ own free, Inv { s with live := (p, n) :: s.live } own free

/-- The loop of `slab_init_objects` links the objects from the last to the first. -/
lemma slabInitObjects_eq {d f : Nat} (hi : i < slabMaxCache) (hf : 0 < f) (s : State)
    (hv : (s.slabPool d).vaddr = frameAddr f) :
    ∃ head mem, slabInitObjects s d (cacheSize i) =
        { s with
          slabPool := update s.slabPool d { s.slabPool d with
            total := pageSize / cacheSize i, inuse := 0, freelist := head }
          mem := mem } ∧
      Linked mem 0 head (objects (frameAddr f) (cacheSize i)).reverse ∧
      ∀ a, alignDown a ≠ frameAddr f → mem a = s.mem a := by
  have hloop : ∀ n ≤ pageSize / cacheSize i, ∃ head mem,
      (List.range n).foldl (initObject d (cacheSize i)) (s.setSlab d fun x =>
        { x with total := pageSize / cacheSize i, inuse := 0, freelist := 0 }) =
        { s with
          slabPool := update s.slabPool d { s.slabPool d with
            total := pageSize / cacheSize i, inuse := 0, freelist := head }
          mem := mem } ∧
      Linked mem 0 head ((List.range n).map fun k => frameAddr f + k * cacheSize i).reverse ∧
      ∀ a, alignDown a ≠ frameAddr f → mem a = s.mem a := by
    intro n
    induction n with
    | zero => exact fun _ => ⟨0, s.mem, rfl, rfl, fun _ _ => rfl⟩
    | succ n ih =>
      intro hn
      obtain ⟨head, mem, heq, hlinks, hmem⟩ := ih (by omega)
      have hobj : frameAddr f + n * cacheSize i ∈ objects (frameAddr f) (cacheSize i) :=
        mem_map_of_mem (mem_range.mpr hn)
      have hb := object_bounds hi hobj
      have hpos : 0 < cacheSize i := Nat.two_pow_pos _
      refine ⟨frameAddr f + n * cacheSize i, update mem (frameAddr f + n * cacheSize i) head, ?_, ?_,
        fun a ha => ?_⟩
      · rw [range_succ, foldl_append, heq]
        simp [initObject, setWord, setSlab, hv]
      · rw [range_succ, map_append, reverse_append]
        refine hlinks.push (fun hmem => ?_) ?_
        · obtain ⟨k, hk, hkn⟩ := mem_map.mp (mem_reverse.mp hmem)
          have hkn := Nat.eq_of_mul_eq_mul_right hpos (Nat.add_left_cancel hkn)
          exact absurd (mem_range.mp hk) (by omega)
        · unfold frameAddr pageSize at *
          omega
      · rw [update_of_ne, hmem a ha]
        rintro rfl
        exact ha (alignDown_eq_iff.mpr (by omega))
  exact hloop _ le_rfl

/-! ## The order of a block -/

lemma wrap_shift (k : Nat) : wrap (wrap (pageSize * 2 ^ k) * 2) = wrap (pageSize * 2 ^ (k + 1)) := by
  rw [wrap, wrap, wrap, Nat.mod_mul_mod, Nat.mul_assoc, pow_succ]

lemma wrap_pageSize_mul (hk : k ≤ 19) : wrap (pageSize * 2 ^ k) = pageSize * 2 ^ k := by
  refine wrap_of_lt ?_
  have hle : 2 ^ k ≤ 2 ^ 19 := Nat.pow_le_pow_right (by decide) hk
  unfold pageSize
  omega

lemma sizeToOrderFrom_of_le {fuel : Nat} (hsize : size ≤ 2 ^ 31) (hk : k ≤ 19)
    (hfuel : 20 ≤ fuel + k) : ∃ j, sizeToOrderFrom size fuel (wrap (pageSize * 2 ^ k)) k = some j ∧
      size ≤ pageSize * 2 ^ j := by
  induction fuel generalizing k with
  | zero => omega
  | succ fuel ih =>
    rw [sizeToOrderFrom, wrap_shift]
    split_ifs with hlt
    · refine ih ?_ (by omega)
      rcases hk.lt_or_eq with hk | rfl
      · exact hk
      · rw [wrap_pageSize_mul le_rfl] at hlt
        unfold pageSize at hlt
        omega
    · rw [wrap_pageSize_mul hk] at hlt
      exact ⟨k, rfl, by omega⟩

/-- The shifted value never reaches a size above two gigabytes. -/
lemma sizeToOrderFrom_of_lt (hsize : 2 ^ 31 < size) (fuel : Nat) :
    sizeToOrderFrom size fuel (wrap (pageSize * 2 ^ k)) k = none := by
  induction fuel generalizing k with
  | zero => rfl
  | succ fuel ih =>
    have hle : wrap (pageSize * 2 ^ k) ≤ 2 ^ 31 := by
      by_cases hk : k ≤ 19
      · have hpow : 2 ^ k ≤ 2 ^ 19 := Nat.pow_le_pow_right (by decide) hk
        rw [wrap_pageSize_mul hk]
        unfold pageSize
        omega
      · have heq : pageSize * 2 ^ k = 4294967296 * 2 ^ (k - 20) := by
          have hk20 : k = 20 + (k - 20) := by omega
          conv_lhs => rw [hk20, pow_add]
          unfold pageSize
          omega
        rw [heq, wrap, Nat.mul_mod_right]
        exact Nat.zero_le _
    rw [sizeToOrderFrom, if_pos (by omega), wrap_shift]
    exact ih

lemma sizeToOrder_of_le (h : size ≤ 2 ^ 31) :
    ∃ k, sizeToOrder size = some k ∧ size ≤ pageSize * 2 ^ k :=
  sizeToOrderFrom_of_le (k := 0) h (by decide) (by decide)

/-! ## The owners of a block -/

/-- The owners after the block of `2 ^ order` frames from `f` on has got the owner `o`. -/
def reown (own : Nat → Option Owner) (f order : Nat) (o : Option Owner) (g : Nat) : Option Owner :=
  if f ≤ g ∧ g < f + 2 ^ order then o else own g

section Reown

variable {own : Nat → Option Owner} {f order g : Nat} {x y : Owner}

lemma held_reown (h : ∀ g, s.held g = (own g).isSome) (f order : Nat) (o : Option Owner) (g : Nat) :
    (s.setHeld f order o.isSome).held g = (reown own f order o g).isSome := by
  show (if f ≤ g ∧ g < f + 2 ^ order then o.isSome else s.held g) = _
  unfold reown
  split_ifs
  · rfl
  · exact h g

lemma reown_give (hfree : ∀ g, f ≤ g → g < f + 2 ^ order → own g = none) :
    reown own f order (some y) g = some x ↔
      own g = some x ∨ (f ≤ g ∧ g < f + 2 ^ order) ∧ x = y := by
  unfold reown
  split_ifs with hg
  · simp [hfree g hg.1 hg.2, hg, eq_comm]
  · simp [hg]

lemma reown_take (hy : ∀ g, own g = some y ↔ f ≤ g ∧ g < f + 2 ^ order) :
    reown own f order none g = some x ↔ own g = some x ∧ x ≠ y := by
  unfold reown
  split_ifs with hg
  · simp [(hy g).mpr hg, eq_comm]
  · refine (and_iff_left_of_imp ?_).symm
    rintro hx rfl
    exact hg ((hy g).mp hx)

end Reown

namespace Inv

variable {s : State} {own : Nat → Option Owner} {free : Nat → List Nat} {d e i j g x p n : Nat}
variable {f head order : Nat} {mem : Nat → Nat}

/-! ## Finding the slab of an address -/

section

variable (h : Inv s own free)
include h

lemma own_pos {o : Owner} (ho : own g = some o) : 0 < g :=
  h.pos g (by rw [ho]; exact Option.some_ne_none o)

lemma pos_reown {o : Option Owner} (hf : 0 < f) :
    ∀ g, reown own f order o g ≠ none → 0 < g := by
  intro g hg
  unfold reown at hg
  split_ifs at hg with hblock
  · omega
  · exact h.pos g hg

lemma slab_unique (hd : d ∈ s.slabs i) (he : e ∈ s.slabs j)
    (hv : (s.slabPool d).vaddr = (s.slabPool e).vaddr) : d = e ∧ i = j := by
  obtain ⟨g, hg, hown⟩ := (h.slab i d hd).frame
  obtain ⟨g', hg', hown'⟩ := (h.slab j e he).frame
  have hgg : g = g' := frameAddr_inj (hg.symm.trans (hv.trans hg'))
  have hde : d = e := by
    rw [hgg, hown'] at hown
    cases hown
    rfl
  subst hde
  exact ⟨rfl, Option.some.inj ((h.slab i d hd).cache.symm.trans (h.slab j d he).cache)⟩

lemma slabFromPtr_eq_some_iff (hx : frameOf x = g) (hg : 0 < g) :
    slabFromPtr s x = some d ↔ own g = some (.slab d) := by
  have hx0 : x ≠ 0 := by
    rintro rfl
    simp only [frameOf, Nat.zero_sub, Nat.zero_div] at hx
    omega
  have hal : alignDown x = frameAddr g := alignDown_eq_iff.mpr ((frameOf_eq_iff hg).mp hx)
  have hown : ∀ e, (∃ i, e ∈ s.slabs i) → (s.slabPool e).vaddr = frameAddr g →
      own g = some (.slab e) := by
    rintro e ⟨i, hi⟩ hv
    obtain ⟨g', hg', how⟩ := (h.slab i e hi).frame
    rwa [frameAddr_inj (hv.symm.trans hg')]
  unfold slabFromPtr
  rw [if_neg hx0, hal]
  constructor
  · intro hfind
    have hv := List.find?_some hfind
    exact hown d ((h.map_iff d).mp (mem_of_find?_eq_some hfind)) (of_decide_eq_true hv)
  · intro hd
    obtain ⟨hin, hv⟩ := h.owner g d hd
    cases hfind : s.slabMap.reduceOption.find? fun e => decide ((s.slabPool e).vaddr = frameAddr g) with
    | none => exact absurd (decide_eq_true hv) (List.find?_eq_none.mp hfind d ((h.map_iff d).mpr hin))
    | some e =>
      have hv' := List.find?_some hfind
      have he := hown e ((h.map_iff e).mp (mem_of_find?_eq_some hfind)) (of_decide_eq_true hv')
      rw [hd] at he
      cases he
      rfl

lemma cacheOf_of_slab (hd : d ∈ s.slabs i)
    (hx : alignDown x = (s.slabPool d).vaddr) : slabFromPtr s x = some d ∧ cacheOf s x = some i := by
  have hok := h.slab i d hd
  obtain ⟨g, hg, hown⟩ := hok.frame
  have hpos := h.own_pos hown
  have hfrom := (h.slabFromPtr_eq_some_iff (frameOf_of_page hpos (hx.trans hg)) hpos).mpr hown
  exact ⟨hfrom, by rw [cacheOf, hfrom]; exact hok.cache⟩

lemma cacheOf_of_large (hl : LargeOk s.mem own p n f order) :
    p ≠ 0 ∧ slabFromPtr s p = none ∧ cacheOf s p = none ∧
      ksize s p = pageSize * 2 ^ order - largeHdrSize := by
  have hown := hl.own_first
  have hpos := h.own_pos hown
  have hp : p ≠ 0 := by
    rw [hl.ptr]
    unfold largeHdrSize
    omega
  have hframe : frameOf p = f := (frameOf_eq_iff hpos).mpr (by
    rw [hl.ptr]
    unfold largeHdrSize pageSize
    omega)
  have hfrom : slabFromPtr s p = none := by
    cases hd : slabFromPtr s p with
    | none => rfl
    | some d =>
      rw [h.slabFromPtr_eq_some_iff hframe hpos, hown] at hd
      cases hd
  have hcache : cacheOf s p = none := by rw [cacheOf, hfrom]; rfl
  have hhdr : p - largeHdrSize = frameAddr f := by rw [hl.ptr, Nat.add_sub_cancel]
  refine ⟨hp, hfrom, hcache, ?_⟩
  have hone : 1 ≤ 2 ^ order := Nat.one_le_two_pow
  have hb := hl.bound
  unfold ksize
  rw [if_neg hp, hcache]
  simp only [hhdr, hl.magic, hl.order_eq, ne_eq, not_true_eq_false, if_false]
  have hlt : pageSize * 2 ^ order < 4294967296 := by
    unfold pageSize
    unfold lowPages at hb
    omega
  rw [wrap_of_lt hlt, wrap]
  unfold pageSize wordSize largeHdrSize at *
  omega

/-! ## Reclaim -/

lemma liveIn_of_inuse (hd : d ∈ s.slabs i) (h0 : (s.slabPool d).inuse = 0) : s.liveIn d = []:=
  eq_nil_of_length_eq_zero ((h.slab i d hd).inuse.symm.trans h0)

lemma reclaimSlab (hd : d ∈ s.slabs i) (h0 : (s.slabPool d).inuse = 0) :
    ∃ own', Inv (Slab.reclaimSlab s i d) own' free ∧
      ∀ g, own' g ≠ own g → own g = some (.slab d) := by
  have hok := h.slab i d hd
  obtain ⟨g, hg, hown⟩ := hok.frame
  have hempty := h.liveIn_of_inuse hd h0
  have hframe : ((s.slabPool d).vaddr - pageOffset) / pageSize = g := by
    rw [hg, frameAddr, Nat.add_sub_cancel, Nat.mul_div_cancel _ (by decide)]
  -- the other slabs are where they were
  have hslabs : ∀ j e, e ∈ (Slab.reclaimSlab s i d).slabs j ↔ e ∈ s.slabs j ∧ e ≠ d := by
    intro j e
    show e ∈ update s.slabs i ((s.slabs i).erase d) j ↔ _
    by_cases hj : j = i
    · subst hj
      rw [update_self, (h.nodup j).mem_erase_iff, and_comm]
    · rw [update_of_ne hj]
      refine ⟨fun he => ⟨he, ?_⟩, And.left⟩
      rintro rfl
      exact hj (h.slab_unique he hd rfl).2
  have hpool : ∀ e, e ≠ d → (Slab.reclaimSlab s i d).slabPool e = s.slabPool e := fun e he =>
    update_of_ne he _ _
  have hblock : ∀ g', own g' = some (.slab d) ↔ g ≤ g' ∧ g' < g + 2 ^ 0 := by
    intro g'
    constructor
    · intro hg'
      rw [frameAddr_inj ((h.owner g' d hg').2.symm.trans hg)]
      simp
    · intro hg'
      rwa [show g' = g by omega]
  have hiff : ∀ g' o, reown own g 0 none g' = some o ↔ own g' = some o ∧ o ≠ .slab d :=
    fun g' o => reown_take hblock
  refine ⟨reown own g 0 none, ⟨fun g' => ?_, h.pos_reown (h.own_pos hown), fun j e he => ?_,
    fun j => ?_, fun g' e he => ?_, fun e => ?_, ?_, ?_, fun e he j hj => ?_, fun e he => ?_,
    h.live_nodup, fun g' p hg' => ?_⟩, fun g' hg' => ?_⟩
  · rw [← held_reown h.held g 0 none g', ← hframe]
    rfl
  · obtain ⟨he, hne⟩ := (hslabs j e).mp he
    exact (h.slab j e he).congr (hpool e hne) (.inl rfl)
      (fun g' hg' => (hiff g' _).mpr ⟨hg', fun heq => hne (Owner.slab.inj heq)⟩) fun _ _ => rfl
  · show (update s.slabs i ((s.slabs i).erase d) j).Nodup
    by_cases hj : j = i
    · rw [hj, update_self]
      exact (h.nodup i).erase d
    · rw [update_of_ne hj]
      exact h.nodup j
  · obtain ⟨he, hed⟩ := (hiff g' _).mp he
    have hne : e ≠ d := fun heq => hed (heq ▸ rfl)
    obtain ⟨⟨j, hj⟩, hv⟩ := h.owner g' e he
    exact ⟨⟨j, (hslabs j e).mpr ⟨hj, hne⟩⟩, by rw [hpool e hne]; exact hv⟩
  · show e ∈ (s.slabMap.replace (some d) none).reduceOption ↔ _
    rw [reduceOption_replace, h.map_nodup.mem_erase_iff, h.map_iff]
    simp only [hslabs, exists_and_right, and_comm (a := e ≠ d)]
  · show (s.slabMap.replace (some d) none).reduceOption.Nodup
    rw [reduceOption_replace]
    exact h.map_nodup.erase d
  · exact nodup_cons.mpr ⟨fun hm => h.unused d hm i hd, h.metas⟩
  · obtain ⟨hj, hne⟩ := (hslabs j e).mp hj
    exact h.unused e ((mem_cons.mp he).resolve_left hne) j hj
  · rcases h.live e he with ⟨j, c, hc, hpage, hsize⟩ | ⟨f, order, hl⟩
    · have hne : c ≠ d := by
        rintro rfl
        have hmem : e.1 ∈ s.liveIn c := mem_liveIn he hpage
        rw [hempty] at hmem
        exact not_mem_nil hmem
      exact .inl ⟨j, c, (hslabs j c).mpr ⟨hc, hne⟩, by rw [hpool c hne]; exact hpage, hsize⟩
    · refine .inr ⟨f, order, hl.congr (fun g' => ?_) fun _ _ _ => rfl⟩
      rw [hiff]
      exact and_iff_left Owner.noConfusion
  · obtain ⟨hp, ho⟩ := h.blocks g' p ((hiff g' _).mp hg').1
    exact ⟨hp, (hiff _ _).mpr ⟨ho, Owner.noConfusion⟩⟩
  · by_contra hne
    exact hg' (if_neg fun hc => hne ((hblock g').mpr hc))

end

/-- A reclaim leaves the descriptors that are in no list. -/
def Reclaims (s t : State) : Prop :=
  ∀ d, (∀ i, d ∉ s.slabs i) → d ∉ s.slabFreeList →
    (∀ i, d ∉ t.slabs i) ∧ d ∉ t.slabFreeList ∧ t.slabPool d = s.slabPool d

lemma findEmpty_some (heq : findEmpty s = some (i, d)) :
    d ∈ s.slabs i ∧ (s.slabPool d).inuse = 0 := by
  obtain ⟨j, -, hj⟩ := exists_of_findSome?_eq_some heq
  obtain ⟨e, he, hpair⟩ := Option.map_eq_some_iff.mp hj
  cases hpair
  have htest := List.find?_some he
  simp only [reclaimable, Bool.and_eq_true, decide_eq_true_eq] at htest
  exact ⟨mem_of_find?_eq_some he, htest.1⟩

section

variable (h : Inv s own free)
include h

lemma slabReclaimOne :
    ∃ own', Inv (slabReclaimOne s).2 own' free ∧
      (∀ g, own' g ≠ own g → ∃ i d, d ∈ s.slabs i ∧ own g = some (.slab d) ∧ s.liveIn d = []) ∧
      Reclaims s (slabReclaimOne s).2 := by
  unfold Slab.slabReclaimOne
  cases heq : findEmpty s with
  | none => exact ⟨own, h, fun _ hg => absurd rfl hg, fun _ hd hm => ⟨hd, hm, rfl⟩⟩
  | some r =>
    obtain ⟨i, d⟩ := r
    obtain ⟨hd, h0⟩ := findEmpty_some heq
    obtain ⟨own', hinv, hdiff⟩ := h.reclaimSlab hd h0
    refine ⟨own', hinv, fun g hg => ⟨i, d, hd, hdiff g hg, h.liveIn_of_inuse hd h0⟩,
      fun e he hm => ?_⟩
    have hne : e ≠ d := fun heq => he i (heq ▸ hd)
    refine ⟨fun j hj => he j ?_, fun hc => hm ((mem_cons.mp hc).resolve_left hne),
      update_of_ne hne _ _⟩
    have hj : e ∈ update s.slabs i ((s.slabs i).erase d) j := hj
    rw [update_apply] at hj
    split_ifs at hj with hji
    · exact hji ▸ mem_of_mem_erase hj
    · exact hj

lemma allocPages (a : Answer) (order : Nat) :
    ∃ t own', Inv t own' free ∧ Reclaims s t ∧
      (allocPages a order s = (none, t) ∨ ∃ f, 0 < f ∧ f + 2 ^ order ≤ lowPages ∧
        (∀ g, f ≤ g → g < f + 2 ^ order → own' g = none) ∧
        allocPages a order s = (some (f * pageSize), t.setHeld f order true)) := by
  have hrun : ∀ n, ∃ own', Inv ((fun s => (Slab.slabReclaimOne s).2)^[n] s) own' free ∧
      Reclaims s ((fun s => (Slab.slabReclaimOne s).2)^[n] s) := by
    intro n
    induction n with
    | zero => exact ⟨own, h, fun _ hd hm => ⟨hd, hm, rfl⟩⟩
    | succ n ih =>
      obtain ⟨own1, h1, hr⟩ := ih
      obtain ⟨own2, h2, -, hr'⟩ := h1.slabReclaimOne
      rw [iterate_succ_apply']
      refine ⟨own2, h2, fun d hd hm => ?_⟩
      obtain ⟨hd1, hm1, hp1⟩ := hr d hd hm
      obtain ⟨hd2, hm2, hp2⟩ := hr' d hd1 hm1
      exact ⟨hd2, hm2, hp2.trans hp1⟩
  obtain ⟨own', hinv, hr⟩ := hrun a.reclaims
  refine ⟨_, own', hinv, hr, ?_⟩
  unfold Slab.allocPages
  cases a.frame with
  | none => exact .inl rfl
  | some f =>
    simp only
    split_ifs with hfree
    · refine .inr ⟨f, hfree.1, hfree.2.1, fun g hlo hhi => ?_, rfl⟩
      have hheld := hfree.2.2 g hhi hlo
      rwa [hinv.held, Option.isSome_eq_false_iff, Option.isNone_iff_eq_none] at hheld
    · exact .inl rfl

/-! ## New slabs -/

lemma setMeta {t : State} (hpool : ∀ e, e ≠ d → t.slabPool e = s.slabPool e)
    (hd : ∀ i, d ∉ s.slabs i) (hslabs : t.slabs = s.slabs) (hmap : t.slabMap = s.slabMap)
    (hmem : t.mem = s.mem) (hheld : t.held = s.held) (hlive : t.live = s.live)
    (hnodup : t.slabFreeList.Nodup) (hsub : ∀ e ∈ t.slabFreeList, e ∈ s.slabFreeList) :
    Inv t own free := by
  have hne : ∀ {i e}, e ∈ s.slabs i → e ≠ d := fun he heq => hd _ (heq ▸ he)
  refine ⟨hheld ▸ h.held, h.pos, fun i e he => ?_, hslabs ▸ h.nodup, fun g e hg => ?_, ?_,
    hmap ▸ h.map_nodup, hnodup, fun e he i hi => ?_, fun e he => ?_, hlive ▸ h.live_nodup,
    hlive ▸ h.blocks⟩
  · rw [hslabs] at he
    exact (h.slab i e he).congr (hpool e (hne he)) (.inl (by rw [hlive])) (fun _ hg => hg)
      fun _ _ => by rw [hmem]
  · obtain ⟨⟨i, hi⟩, hv⟩ := h.owner g e hg
    exact ⟨⟨i, hslabs ▸ hi⟩, by rw [hpool e (hne hi)]; exact hv⟩
  · rw [hmap, hslabs]
    exact h.map_iff
  · exact h.unused e (hsub e he) i (hslabs ▸ hi)
  · rw [hlive] at he
    rw [hmem, hslabs]
    refine (h.live e he).imp_left ?_
    rintro ⟨i, c, hc, hpage, hsize⟩
    exact ⟨i, c, hc, by rw [hpool c (hne hc)]; exact hpage, hsize⟩

lemma own_of_live {e : Nat × Nat} (he : e ∈ s.live)
    (hg : alignDown e.1 = frameAddr g) : own g ≠ none := by
  rcases h.live e he with ⟨i, d, hd, hpage, -⟩ | ⟨f, order, hl⟩
  · obtain ⟨g', hv, hown⟩ := (h.slab i d hd).frame
    rw [frameAddr_inj (hg.symm.trans (hpage.trans hv)), hown]
    exact Option.some_ne_none _
  · have hf : alignDown e.1 = frameAddr f := alignDown_eq_iff.mpr (by
      rw [hl.ptr]
      unfold largeHdrSize pageSize
      omega)
    rw [frameAddr_inj (hg.symm.trans hf), hl.own_first]
    exact Option.some_ne_none _

lemma newSlab (hi : i < slabMaxCache) (hslabs : ∀ j, d ∉ s.slabs j)
    (hmeta : d ∉ s.slabFreeList) (hf : 0 < f) (hown : own f = none)
    (hlinks : Linked mem 0 head (objects (frameAddr f) (cacheSize i)).reverse)
    (hmem : ∀ a, alignDown a ≠ frameAddr f → mem a = s.mem a) :
    let t : State := { s.setHeld f 0 true with
      slabPool := update s.slabPool d ⟨head, 0, pageSize / cacheSize i, frameAddr f, some i⟩
      slabs := update s.slabs i (d :: s.slabs i)
      slabMap := s.slabMap ++ [some d]
      mem := mem }
    Inv t (reown own f 0 (some (.slab d)))
      (update free d (objects (frameAddr f) (cacheSize i)).reverse) := by
  intro t
  have hmem_slabs : ∀ j e, e ∈ t.slabs j ↔ e ∈ s.slabs j ∨ j = i ∧ e = d := by
    intro j e
    show e ∈ update s.slabs i (d :: s.slabs i) j ↔ _
    by_cases hj : j = i
    · subst hj
      simp [or_comm]
    · simp [hj]
  have hne : ∀ {j e}, e ∈ s.slabs j → e ≠ d := fun he heq => hslabs _ (heq ▸ he)
  have hpool : ∀ e, e ≠ d → t.slabPool e = s.slabPool e := fun e he => update_of_ne he _ _
  have hself : t.slabPool d = ⟨head, 0, pageSize / cacheSize i, frameAddr f, some i⟩ :=
    update_self ..
  have hiff : ∀ g' o, reown own f 0 (some (.slab d)) g' = some o ↔
      own g' = some o ∨ (f ≤ g' ∧ g' < f + 2 ^ 0) ∧ o = .slab d := fun g' o =>
    reown_give fun g' hlo hhi => by rwa [show g' = f by omega]
  have hlive : t.liveIn d = [] := by
    refine filter_eq_nil_iff.mpr fun p hp => ?_
    obtain ⟨e, he, rfl⟩ := mem_map.mp hp
    rw [hself, decide_eq_true_eq]
    exact fun hpage => h.own_of_live he hpage hown
  refine ⟨held_reown h.held f 0 (some _), h.pos_reown hf, fun j e he => ?_, fun j => ?_, fun g' e hg' => ?_,
    fun e => ?_, ?_, h.metas, fun e he j hj => ?_, fun e he => ?_, h.live_nodup, fun g' p hg' => ?_⟩
  · rcases (hmem_slabs j e).mp he with he | ⟨rfl, rfl⟩
    · rw [update_of_ne (hne he)]
      refine (h.slab j e he).congr (hpool e (hne he)) (.inl rfl)
        (fun g' hg' => (hiff g' _).mpr (.inl hg')) fun a ha => hmem a ?_
      obtain ⟨g', hv, ho⟩ := (h.slab j e he).frame
      rw [(h.slab j e he).page_of_free ha, hv]
      intro hfr
      rw [frameAddr_inj hfr, hown] at ho
      cases ho
    · rw [update_self]
      refine ⟨hi, by rw [hself], ⟨f, by rw [hself], if_pos (by simp)⟩, by rw [hself],
        by rw [hself]; exact hlinks, ?_, by rw [hself, hlive]; rfl⟩
      rw [hlive, append_nil, hself]
      exact reverse_perm _
  · show (update s.slabs i (d :: s.slabs i) j).Nodup
    by_cases hj : j = i
    · rw [hj, update_self]
      exact nodup_cons.mpr ⟨hslabs i, h.nodup i⟩
    · rw [update_of_ne hj]
      exact h.nodup j
  · rcases (hiff g' _).mp hg' with hg' | ⟨hgf, heq⟩
    · obtain ⟨⟨j, hj⟩, hv⟩ := h.owner g' e hg'
      exact ⟨⟨j, (hmem_slabs j e).mpr (.inl hj)⟩, by rw [hpool e (hne hj)]; exact hv⟩
    · cases heq
      refine ⟨⟨i, (hmem_slabs i d).mpr (.inr ⟨rfl, rfl⟩)⟩, ?_⟩
      rw [hself, show g' = f by omega]
  · rw [reduceOption_append, mem_append, h.map_iff]
    simp only [hmem_slabs, exists_or, and_comm]
    simp
  · rw [reduceOption_append, nodup_append]
    refine ⟨h.map_nodup, by simp, ?_⟩
    intro a ha b hb hab
    obtain rfl : b = d := by simpa using hb
    obtain ⟨j, hj⟩ := (h.map_iff a).mp ha
    exact hne hj hab
  · rcases (hmem_slabs j e).mp hj with hj | ⟨-, rfl⟩
    · exact h.unused e he j hj
    · exact hmeta he
  · rcases h.live e he with ⟨j, c, hc, hpage, hsize⟩ | ⟨b, order, hl⟩
    · exact .inl ⟨j, c, (hmem_slabs j c).mpr (.inl hc), by rw [hpool c (hne hc)]; exact hpage,
        hsize⟩
    · refine .inr ⟨b, order, hl.congr (fun g' => ?_) fun a ha hlt => hmem a fun hpage => ?_⟩
      · rw [hiff]
        exact or_iff_left fun hc => Owner.noConfusion hc.2
      · rw [frameOf_of_page hf hpage, hown] at ha
        cases ha
  · have hg' := ((hiff g' _).mp hg').resolve_right fun hc => Owner.noConfusion hc.2
    obtain ⟨hp, ho⟩ := h.blocks g' p hg'
    exact ⟨hp, (hiff _ _).mpr (.inl ho)⟩

/-! ## Objects -/

lemma setObjects (hd : d ∈ s.slabs i) {inuse : Nat} {l : List Nat} {live : List (Nat × Nat)}
    (hmem : ∀ a, alignDown a ≠ (s.slabPool d).vaddr → mem a = s.mem a)
    (hother : ∀ v, v ≠ (s.slabPool d).vaddr →
      live.filter (fun e => decide (alignDown e.1 = v)) =
        s.live.filter fun e => decide (alignDown e.1 = v))
    (hsize : ∀ e ∈ live, alignDown e.1 = (s.slabPool d).vaddr → e.2 ≤ cacheSize i)
    (hnodup : (live.map Prod.fst).Nodup) (hlinks : Linked mem 0 head l)
    (hparts : (l ++ (live.map Prod.fst).filter fun p => decide (alignDown p = (s.slabPool d).vaddr)).Perm
      (objects (s.slabPool d).vaddr (cacheSize i)))
    (hinuse : inuse = ((live.map Prod.fst).filter fun p =>
      decide (alignDown p = (s.slabPool d).vaddr)).length) :
    let t : State := { s with
      slabPool := update s.slabPool d { s.slabPool d with freelist := head, inuse := inuse }
      mem := mem
      live := live }
    Inv t own (update free d l) := by
  intro t
  obtain ⟨g, hg, hown⟩ := (h.slab i d hd).frame
  have hpos := h.own_pos hown
  have hpool : ∀ e, e ≠ d → t.slabPool e = s.slabPool e := fun e he => update_of_ne he _ _
  have hself : t.slabPool d = { s.slabPool d with freelist := head, inuse := inuse } :=
    update_self ..
  have hvaddr : ∀ e, (t.slabPool e).vaddr = (s.slabPool e).vaddr := by
    intro e
    by_cases he : e = d
    · rw [he, hself]
    · rw [hpool e he]
  have hpage : ∀ e : Nat × Nat, alignDown e.1 ≠ (s.slabPool d).vaddr → (e ∈ live ↔ e ∈ s.live) := by
    intro e hne
    have hiff : e ∈ live.filter (fun e' => decide (alignDown e'.1 = alignDown e.1)) ↔
        e ∈ s.live.filter (fun e' => decide (alignDown e'.1 = alignDown e.1)) := by
      rw [hother _ hne]
    simpa only [mem_filter, decide_true, and_true] using hiff
  refine ⟨h.held, h.pos, fun j e he => ?_, h.nodup, fun g' e hg' => ?_, h.map_iff, h.map_nodup,
    h.metas, h.unused, fun e he => ?_, hnodup, fun g' p hg' => ?_⟩
  · by_cases hed : e = d
    · subst hed
      obtain ⟨-, rfl⟩ := h.slab_unique hd he rfl
      have hok := h.slab i e hd
      rw [update_self]
      refine ⟨hok.index, by rw [hself]; exact hok.cache, ⟨g, by rw [hself]; exact hg, hown⟩,
        by rw [hself]; exact hok.total, by rw [hself]; exact hlinks, ?_, ?_⟩
      · rw [liveIn, hvaddr]
        exact hparts
      · rw [liveIn, hvaddr, hself]
        exact hinuse
    · have hv : (s.slabPool e).vaddr ≠ (s.slabPool d).vaddr := fun heq =>
        hed (h.slab_unique he hd heq).1
      rw [update_of_ne hed]
      refine (h.slab j e he).congr (hpool e hed) (.inr ?_) (fun _ hg' => hg') fun a ha =>
        hmem a ((h.slab j e he).page_of_free ha ▸ hv)
      have heq := congrArg (List.map Prod.fst) (hother _ hv)
      unfold liveIn
      rw [hpool e hed, filter_map, filter_map]
      exact heq
  · obtain ⟨hin, hv⟩ := h.owner g' e hg'
    exact ⟨hin, (hvaddr e).trans hv⟩
  · by_cases hep : alignDown e.1 = (s.slabPool d).vaddr
    · exact .inl ⟨i, d, hd, hep.trans (hvaddr d).symm, hsize e he hep⟩
    · rcases h.live e ((hpage e hep).mp he) with ⟨j, c, hc, hcp, hcs⟩ | ⟨f, order, hl⟩
      · exact .inl ⟨j, c, hc, hcp.trans (hvaddr c).symm, hcs⟩
      · refine .inr ⟨f, order, hl.congr (fun _ => Iff.rfl) fun a ha _ => hmem a fun hpa => ?_⟩
        rw [frameOf_of_page hpos (hpa.trans hg), hown] at ha
        cases ha
  · obtain ⟨hp, ho⟩ := h.blocks g' p hg'
    obtain ⟨e, he, rfl⟩ := mem_map.mp hp
    refine ⟨mem_map_of_mem ((hpage e fun hep => ?_).mpr he), ho⟩
    rw [frameOf_of_page hpos (hep.trans hg), hown] at ho
    cases ho

lemma size_of_slab {e : Nat × Nat} (he : e ∈ s.live) (hd : d ∈ s.slabs i)
    (hep : alignDown e.1 = (s.slabPool d).vaddr) : e.2 ≤ cacheSize i := by
  rcases h.live e he with ⟨j, c, hc, hcp, hcs⟩ | ⟨f, order, hl⟩
  · obtain ⟨-, rfl⟩ := h.slab_unique hc hd (hcp.symm.trans hep)
    exact hcs
  · have hcache := (h.cacheOf_of_large hl).2.2.1
    rw [(h.cacheOf_of_slab hd hep).2] at hcache
    cases hcache

lemma takeObject (hd : d ∈ s.slabs i) (hfree : (s.slabPool d).freelist ≠ 0)
    (hn : n ≤ cacheSize i) : Allocates n (takeObject s d) := by
  have hok := h.slab i d hd
  obtain ⟨o, l, hl⟩ := exists_cons_of_ne_nil fun hnil => hfree (hok.links.eq_nil_iff.mp hnil)
  have hlinks := hok.links
  have hparts := hok.parts
  rw [hl] at hlinks hparts
  obtain ⟨hhead, -, hrest⟩ := hlinks
  have ho : o ∈ objects (s.slabPool d).vaddr (cacheSize i) := hparts.subset mem_cons_self
  have hpage := hok.page_of_object ho
  have hnew : o ∉ s.live.map Prod.fst := by
    intro hmem
    have hnd := (hparts.nodup_iff.mpr (nodup_objects _))
    have hin : o ∈ s.liveIn d := mem_filter.mpr ⟨hmem, decide_eq_true hpage⟩
    exact (nodup_cons.mp hnd).1 (mem_append_right _ hin)
  have htake : Slab.takeObject s d = (some o, s.setSlab d fun x =>
      { x with freelist := s.mem o, inuse := x.inuse + 1 }) := by
    unfold Slab.takeObject
    rw [if_neg hfree, hhead]
  rw [htake]
  refine ⟨own, update free d l, h.setObjects hd (fun _ _ => rfl) (fun v hv => ?_)
    (fun e he hep => ?_) (nodup_cons.mpr ⟨hnew, h.live_nodup⟩) hrest ?_ ?_⟩
  · rw [filter_cons, if_neg]
    · rfl
    · rw [decide_eq_true_eq]
      exact fun heq => hv (heq.symm.trans hpage)
  · rcases mem_cons.mp he with rfl | he
    · exact hn
    · exact h.size_of_slab he hd hep
  · rw [map_cons, filter_cons, if_pos (decide_eq_true hpage)]
    exact perm_middle.trans hparts
  · rw [map_cons, filter_cons, if_pos (decide_eq_true hpage), length_cons]
    exact congrArg Nat.succ hok.inuse

lemma kmemCacheAlloc (a : Answer) (hi : i < slabMaxCache)
    (hn : n ≤ cacheSize i) : Allocates n (kmemCacheAlloc a i s) := by
  unfold Slab.kmemCacheAlloc
  cases hfind : (s.slabs i).find? fun d => decide ((s.slabPool d).freelist ≠ 0) with
  | some d =>
    have hhead := List.find?_some hfind
    exact h.takeObject (mem_of_find?_eq_some hfind) (of_decide_eq_true hhead) hn
  | none =>
    simp only [slabAllocMeta]
    cases hmeta : s.slabFreeList with
    | nil => exact ⟨own, free, h⟩
    | cons d rest =>
      -- the descriptor is in no list until the slab has its page
      have hd : d ∈ s.slabFreeList := hmeta ▸ mem_cons_self
      obtain ⟨hnot, hrest⟩ := nodup_cons.mp (hmeta ▸ h.metas)
      set s1 : State := ({ s with slabFreeList := rest }.setSlab d fun _ => ⟨0, 0, 0, 0, none⟩).setSlab
        d fun x => { x with cache := some i } with hs1
      have hpool1 : ∀ e, e ≠ d → s1.slabPool e = s.slabPool e := fun e he =>
        (update_of_ne he _ _).trans (update_of_ne he _ _)
      have h1 : Inv s1 own free := h.setMeta hpool1 (h.unused d hd) rfl rfl rfl rfl rfl hrest
        fun e he => hmeta ▸ mem_cons_of_mem d he
      simp only [slabAllocPage]
      split_ifs with hfull
      · exact ⟨own, free, h1⟩
      obtain ⟨t, own', ht, hr, halloc⟩ := h1.allocPages a 0
      obtain ⟨hslabs, hlist, hpool⟩ := hr d (h.unused d hd) hnot
      rcases halloc with halloc | ⟨f, hf, -, hfree, halloc⟩
      · rw [halloc]
        exact ⟨own', free, ht⟩
      · rw [halloc]
        have hself : t.slabPool d = ⟨0, 0, 0, 0, some i⟩ := by
          rw [hpool, hs1]
          simp [setSlab]
        set s2 : State := { (t.setHeld f 0 true).setSlab d fun x =>
            { x with vaddr := f * pageSize + pageOffset } with
          slabMap := t.slabMap ++ [some d] } with hs2
        obtain ⟨head, mem, heq, hlinks, hmem⟩ := slabInitObjects_eq (d := d) hi hf s2
          (by simp [hs2, setSlab, frameAddr])
        have hinv := ht.newSlab hi hslabs hlist hf (hfree f (le_refl f) (by simp)) hlinks hmem
        set r := slabInitObjects s2 d (cacheSize i)
        have hstate : { r with slabs := update r.slabs i (d :: r.slabs i) } =
            { t.setHeld f 0 true with
              slabPool := update t.slabPool d ⟨head, 0, pageSize / cacheSize i, frameAddr f, some i⟩
              slabs := update t.slabs i (d :: t.slabs i)
              slabMap := t.slabMap ++ [some d]
              mem := mem } := by
          rw [heq]
          simp [hs2, setSlab, setHeld, hself, frameAddr]
        show Allocates n (Slab.takeObject { r with slabs := update r.slabs i (d :: r.slabs i) } d)
        rw [hstate]
        refine hinv.takeObject (i := i) ?_ ?_ hn
        · show d ∈ update t.slabs i (d :: t.slabs i) i
          rw [update_self]
          exact mem_cons_self
        · show (update t.slabPool d _ d).freelist ≠ 0
          rw [update_self]
          exact fun hnil => objects_reverse_ne_nil hi (hlinks.eq_nil_iff.mpr hnil)

/-! ## Large blocks -/

lemma newLarge (hf : 0 < f) (hb : f + 2 ^ order ≤ lowPages)
    (hfree : ∀ g, f ≤ g → g < f + 2 ^ order → own g = none)
    (hn : n + largeHdrSize ≤ pageSize * 2 ^ order)
    (hmem : ∀ a, alignDown a ≠ frameAddr f → mem a = s.mem a)
    (hmagic : mem (frameAddr f) = largeMagic) (horder : mem (frameAddr f + 4) = order)
    (hphys : mem (frameAddr f + 8) = f * pageSize) :
    ∃ own', Inv { s.setHeld f order true with
      mem := mem
      live := (frameAddr f + largeHdrSize, n) :: s.live } own' free := by
  set p := frameAddr f + largeHdrSize with hp
  have hin : own f = none := hfree f le_rfl (Nat.lt_add_of_pos_right (Nat.two_pow_pos _))
  have hppage : alignDown p = frameAddr f := alignDown_eq_iff.mpr (by
    rw [hp]
    unfold largeHdrSize pageSize
    omega)
  have hiff : ∀ g o, reown own f order (some (.large p)) g = some o ↔
      own g = some o ∨ (f ≤ g ∧ g < f + 2 ^ order) ∧ o = .large p := fun g o => reown_give hfree
  have hnew : p ∉ s.live.map Prod.fst := by
    intro hmem
    obtain ⟨e, he, heq⟩ := mem_map.mp hmem
    exact h.own_of_live he (heq ▸ hppage) hin
  refine ⟨_, held_reown h.held f order (some (.large p)), h.pos_reown hf, fun j e he => ?_,
    h.nodup, fun g e hg => ?_, h.map_iff, h.map_nodup, h.metas, h.unused, fun e he => ?_,
    nodup_cons.mpr ⟨hnew, h.live_nodup⟩, fun g q hg => ?_⟩
  · have hok := h.slab j e he
    obtain ⟨g, hv, ho⟩ := hok.frame
    have hne : (s.slabPool e).vaddr ≠ frameAddr f := by
      intro heq
      rw [frameAddr_inj (hv.symm.trans heq), hin] at ho
      cases ho
    refine hok.congr rfl (.inr ?_) (fun g hg => (hiff g _).mpr (.inl hg)) fun a ha =>
      hmem a (hok.page_of_free ha ▸ hne)
    unfold liveIn
    rw [map_cons, filter_cons, if_neg]
    · rfl
    · rw [decide_eq_true_eq]
      exact fun heq => hne (heq.symm.trans hppage)
  · exact h.owner g e (((hiff g _).mp hg).resolve_right fun hc => Owner.noConfusion hc.2)
  · rcases mem_cons.mp he with rfl | he
    · refine .inr ⟨f, order, hp, hmagic, horder, hphys, hb, fun g => (hiff g _).trans ?_, hn⟩
      rw [or_iff_right fun hg => hnew (h.blocks g p hg).1, and_iff_left rfl]
    · refine (h.live e he).imp_right ?_
      rintro ⟨b, k, hl⟩
      have hne : e.1 ≠ p := fun heq => hnew (heq ▸ mem_map_of_mem he)
      refine ⟨b, k, hl.congr (fun g => (hiff g _).trans (or_iff_left fun hc => ?_))
        fun a ha _ => hmem a fun hpage => ?_⟩
      · exact hne (Owner.large.inj hc.2)
      · rw [frameOf_of_page hf hpage, hin] at ha
        cases ha
  · rcases (hiff g _).mp hg with hg | ⟨-, hq⟩
    · obtain ⟨hmem, ho⟩ := h.blocks g q hg
      exact ⟨mem_cons_of_mem _ hmem, (hiff _ _).mpr (.inl ho)⟩
    · cases hq
      refine ⟨mem_cons_self, ?_⟩
      rw [frameOf_of_page hf hppage]
      exact if_pos ⟨le_rfl, Nat.lt_add_of_pos_right (Nat.two_pow_pos _)⟩

lemma kmallocLarge (a : Answer) (hn : n + largeHdrSize ≤ 2 ^ 31) :
    ∃ r, kmallocLarge a n s = some r ∧ Allocates n r := by
  obtain ⟨order, horder, hsize⟩ := sizeToOrder_of_le hn
  have hwrap : wrap (n + largeHdrSize) = n + largeHdrSize := wrap_of_lt (by omega)
  unfold Slab.kmallocLarge
  rw [hwrap, horder]
  obtain ⟨t, own', ht, -, halloc | ⟨f, hf, hb, hfree, halloc⟩⟩ := h.allocPages a order
  · simp only [halloc]
    exact ⟨_, rfl, own', free, ht⟩
  · simp only [halloc]
    refine ⟨_, rfl, ?_⟩
    have hout : ∀ a k, alignDown a ≠ frameAddr f → k < pageSize → a ≠ frameAddr f + k := by
      rintro a k ha hk rfl
      exact ha (alignDown_eq_iff.mpr (by omega))
    have hmem : ∀ a, alignDown a ≠ frameAddr f →
        update (update (update t.mem (frameAddr f) largeMagic) (frameAddr f + 4) order)
          (frameAddr f + 8) (f * pageSize) a = t.mem a := fun a ha => by
      rw [update_of_ne (hout a 8 ha (by decide)), update_of_ne (hout a 4 ha (by decide)),
        update_of_ne fun heq => hout a 0 ha (by decide) (heq.trans (add_zero _).symm)]
    obtain ⟨own2, hinv⟩ := ht.newLarge hf hb hfree hsize hmem
      (by rw [update_of_ne (by omega), update_of_ne (by omega), update_self])
      (by rw [update_of_ne (by omega), update_self]) (update_self ..)
    exact ⟨own2, free, hinv⟩

/-- `kmalloc` returns, and the heap is well formed when the pointer has been recorded. -/
lemma kmalloc (a : Answer) (hn : n + largeHdrSize ≤ 2 ^ 31) :
    ∃ r, kmalloc a n s = some r ∧ Allocates n r := by
  unfold Slab.kmalloc
  split_ifs
  · exact ⟨_, rfl, own, free, h⟩
  · cases hfind : (List.range slabMaxCache).find? fun i => decide (n ≤ cacheSize i) with
    | none => exact h.kmallocLarge a hn
    | some i =>
      have hi := List.find?_some hfind
      exact ⟨_, rfl, h.kmemCacheAlloc a (mem_range.mp (mem_of_find?_eq_some hfind))
        (of_decide_eq_true hi)⟩

/-! ## Release -/

lemma ksize_of_slab (hd : d ∈ s.slabs i)
    (hpage : alignDown p = (s.slabPool d).vaddr) : p ≠ 0 ∧ ksize s p = cacheSize i := by
  obtain ⟨hfrom, hcache⟩ := h.cacheOf_of_slab hd hpage
  have hp0 : p ≠ 0 := by
    intro h0
    rw [slabFromPtr, if_pos h0] at hfrom
    cases hfrom
  refine ⟨hp0, ?_⟩
  simp only [ksize, if_neg hp0, hcache]

lemma kfreeSmall (hp : p ∈ s.live.map Prod.fst) (hd : d ∈ s.slabs i)
    (hpage : alignDown p = (s.slabPool d).vaddr) :
    ∃ free', Inv { kfree s p with live := s.live.filter fun e => decide (e.1 ≠ p) } own free' := by
  have hok := h.slab i d hd
  obtain ⟨hfrom, hcache⟩ := h.cacheOf_of_slab hd hpage
  have hin : p ∈ s.liveIn d := mem_filter.mpr ⟨hp, decide_eq_true hpage⟩
  have hp0 := (h.ksize_of_slab hd hpage).1
  have hnd := hok.parts.nodup_iff.mpr (nodup_objects _)
  have hpl : p ∉ free d := fun hmem => disjoint_of_nodup_append hnd hmem hin
  have hlive : (s.live.filter fun e => decide (e.1 ≠ p)).map Prod.fst =
      (s.live.map Prod.fst).erase p := by
    rw [h.live_nodup.erase_eq_filter, filter_map]
    refine congrArg _ (filter_congr fun e _ => ?_)
    by_cases he : e.1 = p <;> simp [he]
  have hfilter : ((s.live.map Prod.fst).erase p).filter (fun q =>
      decide (alignDown q = (s.slabPool d).vaddr)) = (s.liveIn d).erase p := by
    rw [h.live_nodup.erase_eq_filter, filter_comm]
    exact ((h.live_nodup.filter _).erase_eq_filter p).symm
  have hfree : kfree s p = { s with
      slabPool := update s.slabPool d { s.slabPool d with
        freelist := p, inuse := (s.slabPool d).inuse - 1 }
      mem := update s.mem p (s.slabPool d).freelist } := by
    simp only [kfree, if_neg hp0, hcache, kmemCacheFree, hfrom]
    rw [if_neg (not_not.mpr hok.cache)]
    rfl
  rw [hfree]
  have hrest : Linked (update s.mem p (s.slabPool d).freelist) 0 p (p :: free d) := by
    refine ⟨rfl, hp0, ?_⟩
    rw [update_self]
    refine hok.links.congr fun o ho => update_of_ne ?_ _ _
    rintro rfl
    exact hpl ho
  refine ⟨_, h.setObjects hd (fun a ha => ?_) (fun v hv => ?_)
    (fun e he hep => h.size_of_slab (mem_of_mem_filter he) hd hep) ?_ hrest ?_ ?_⟩
  · refine update_of_ne ?_ _ _
    rintro rfl
    exact ha hpage
  · rw [filter_filter]
    refine filter_congr fun e _ => ?_
    by_cases he : e.1 = p
    · have hne : alignDown p ≠ v := fun heq => hv (heq.symm.trans hpage)
      simp [he, hne]
    · simp [he]
  · rw [hlive]
    exact h.live_nodup.erase p
  · rw [hlive, hfilter]
    refine List.Perm.trans ?_ hok.parts
    exact perm_middle.symm.trans ((perm_cons_erase hin).symm.append_left _)
  · rw [hlive, hfilter, length_erase_of_mem hin]
    exact congrArg (· - 1) hok.inuse

lemma kfreeLarge (hl : LargeOk s.mem own p n f order) :
    ∃ own', Inv { kfree s p with live := s.live.filter fun e => decide (e.1 ≠ p) } own' free ∧
      ∀ g q, q ≠ p → (own' g = some (.large q) ↔ own g = some (.large q)) := by
  obtain ⟨hp0, hfrom, hcache, -⟩ := h.cacheOf_of_large hl
  have hhdr : p - largeHdrSize = frameAddr f := by
    rw [hl.ptr]
    exact Nat.add_sub_cancel _ _
  have hfree : kfree s p = s.setHeld f order false := by
    simp only [kfree, if_neg hp0, hcache, hhdr, hl.magic, hl.order_eq, hl.phys, ne_eq,
      not_true_eq_false, if_false]
    rw [Nat.mul_div_cancel _ (by decide)]
  rw [hfree]
  have hiff : ∀ g o, reown own f order none g = some o ↔ own g = some o ∧ o ≠ .large p :=
    fun g o => reown_take hl.frames
  have hlarge : ∀ g q, q ≠ p →
      (reown own f order none g = some (.large q) ↔ own g = some (.large q)) := fun g q hq => by
    rw [hiff]
    exact and_iff_left fun heq => hq (Owner.large.inj heq)
  refine ⟨_, ⟨held_reown h.held f order none, h.pos_reown (h.own_pos hl.own_first), fun j e he => ?_, h.nodup,
    fun g e hg => ?_, h.map_iff, h.map_nodup, h.metas, h.unused, fun e he => ?_,
    h.live_nodup.sublist (filter_sublist.map _), fun g q hg => ?_⟩, hlarge⟩
  · have hok := h.slab j e he
    refine hok.congr rfl (.inr ?_) (fun g hg => (hiff g _).mpr ⟨hg, Owner.noConfusion⟩)
      fun _ _ => rfl
    -- the pointer is not in the page of a slab
    unfold liveIn
    rw [filter_map, filter_map]
    refine congrArg _ ((filter_filter ..).trans (filter_congr fun x _ => ?_))
    by_cases hx : x.1 = p
    · have hne : alignDown p ≠ (s.slabPool e).vaddr := by
        intro heq
        rw [(h.cacheOf_of_slab he heq).1] at hfrom
        cases hfrom
      simp [setHeld, hx, hne]
    · simp [setHeld, hx]
  · exact h.owner g e ((hiff g _).mp hg).1
  · obtain ⟨he, hne⟩ := mem_filter.mp he
    refine (h.live e he).imp_right ?_
    rintro ⟨b, k, hl'⟩
    exact ⟨b, k, hl'.congr (fun g => hlarge g e.1 (of_decide_eq_true hne)) fun _ _ _ => rfl⟩
  · obtain ⟨hg, hq⟩ := (hiff g _).mp hg
    have hqp : q ≠ p := fun heq => hq (heq ▸ rfl)
    obtain ⟨hmem, ho⟩ := h.blocks g q hg
    obtain ⟨e, he, rfl⟩ := mem_map.mp hmem
    exact ⟨mem_map_of_mem (mem_filter.mpr ⟨he, decide_eq_true hqp⟩), (hlarge _ _ hqp).mpr ho⟩

lemma kfree (hp : p ∈ s.live.map Prod.fst) :
    ∃ own' free', Inv (step s (.kfree p)) own' free' ∧
      ∀ g q, q ≠ p → (own' g = some (.large q) ↔ own g = some (.large q)) := by
  obtain ⟨e, he, rfl⟩ := mem_map.mp hp
  rcases h.live e he with ⟨i, d, hd, hpage, -⟩ | ⟨f, order, hl⟩
  · obtain ⟨free', hinv⟩ := h.kfreeSmall hp hd hpage
    exact ⟨own, free', hinv, fun _ _ _ => Iff.rfl⟩
  · obtain ⟨own', hinv, hlarge⟩ := h.kfreeLarge hl
    exact ⟨own', free, hinv, hlarge⟩

/-! ## Storage -/

lemma object_of_live {e : Nat × Nat} (he : e ∈ s.live) (hd : d ∈ s.slabs i)
    (hpage : alignDown e.1 = (s.slabPool d).vaddr) :
    e.1 ∈ objects (s.slabPool d).vaddr (cacheSize i) := by
  exact (h.slab i d hd).parts.subset (mem_append_right _ (mem_liveIn he hpage))

lemma inStorage_iff {e : Nat × Nat} (he : e ∈ s.live) :
    InStorage s e.1 x ↔ (∃ i, ∃ d ∈ s.slabs i, alignDown e.1 = (s.slabPool d).vaddr ∧
      e.1 ≤ x ∧ x < e.1 + cacheSize i) ∨ own (frameOf x) = some (.large e.1) := by
  unfold InStorage
  rcases h.live e he with ⟨i, d, hd, hpage, -⟩ | ⟨f, order, hl⟩
  · rw [(h.ksize_of_slab hd hpage).2, (h.cacheOf_of_slab hd hpage).2,
      if_neg (Option.some_ne_none i)]
    constructor
    · exact fun hx => .inl ⟨i, d, hd, hpage, hx⟩
    · rintro (⟨j, c, hc, hcp, hx⟩ | hx)
      · obtain ⟨-, rfl⟩ := h.slab_unique hc hd (hcp.symm.trans hpage)
        exact hx
      · have hown := (h.blocks _ _ hx).2
        obtain ⟨g, hv, hg⟩ := (h.slab i d hd).frame
        have hpos := h.own_pos hg
        rw [frameOf_of_page hpos (hpage.trans hv), hg] at hown
        cases hown
  · obtain ⟨-, hfrom, hcache, hsize⟩ := h.cacheOf_of_large hl
    have hown := hl.own_first
    have hpos := h.own_pos hown
    have hpow : 1 ≤ 2 ^ order := Nat.two_pow_pos _
    rw [hcache, if_pos rfl, hsize, hl.frames]
    constructor
    · intro hx
      right
      rw [hl.ptr] at hx
      unfold frameAddr largeHdrSize pageSize pageOffset at hx
      unfold frameOf pageSize pageOffset
      omega
    · rintro (⟨j, c, hc, hcp, -⟩ | hx)
      · rw [(h.cacheOf_of_slab hc hcp).1] at hfrom
        cases hfrom
      · rw [hl.ptr]
        unfold frameOf pageSize pageOffset at hx
        unfold frameAddr largeHdrSize pageSize pageOffset
        omega

lemma own_of_object {o : Nat} (hd : d ∈ s.slabs i)
    (ho : o ∈ objects (s.slabPool d).vaddr (cacheSize i)) (hle : o ≤ x) (hlt : x < o + cacheSize i) :
    own (frameOf x) = some (.slab d) := by
  have hok := h.slab i d hd
  obtain ⟨g, hv, hg⟩ := hok.frame
  have hpos := h.own_pos hg
  have hbound := object_bounds hok.index ho
  rw [(frameOf_eq_iff hpos).mpr (by omega)]
  exact hg

lemma taken_iff : Taken s x ↔ ∃ e ∈ s.live, InStorage s e.1 x := by
  constructor
  · rintro ⟨hheld, hfree⟩
    rw [h.held, Option.isSome_iff_exists] at hheld
    obtain ⟨o, ho⟩ := hheld
    cases o with
    | large p =>
      obtain ⟨e, he, rfl⟩ := mem_map.mp (h.blocks _ _ ho).1
      exact ⟨e, he, (h.inStorage_iff he).mpr (.inr ho)⟩
    | slab d =>
      obtain ⟨⟨i, hd⟩, hv⟩ := h.owner _ _ ho
      have hok := h.slab i d hd
      have hpos := h.own_pos ho
      have hx := (frameOf_eq_iff hpos).mp rfl
      obtain ⟨o, hobj, hle, hlt⟩ := exists_object hok.index hx.1 hx.2
      rw [← hv] at hobj
      rcases mem_append.mp (hok.parts.symm.subset hobj) with hmem | hmem
      · exact absurd ⟨i, d, hd, free d, hok.links, o, hmem, hle, hlt⟩ hfree
      · obtain ⟨hlive, hpage⟩ := mem_filter.mp hmem
        obtain ⟨e, he, rfl⟩ := mem_map.mp hlive
        exact ⟨e, he, (h.inStorage_iff he).mpr (.inl ⟨i, d, hd, of_decide_eq_true hpage, hle, hlt⟩)⟩
  · rintro ⟨e, he, hx⟩
    have hst := (h.inStorage_iff he).mp hx
    constructor
    · rcases hst with ⟨i, d, hd, hpage, hle, hlt⟩ | hown
      · rw [h.held, h.own_of_object hd (h.object_of_live he hd hpage) hle hlt]
        rfl
      · rw [h.held, hown]
        rfl
    · rintro ⟨j, c, hc, l, hlinks, o, ho, hole, holt⟩
      have hok := h.slab j c hc
      obtain rfl := hlinks.unique hok.links
      have hoc := hok.parts.subset (mem_append_left _ ho)
      have hownc := h.own_of_object hc hoc hole holt
      rcases hst with ⟨i, d, hd, hpage, hle, hlt⟩ | hown
      · have hobj := h.object_of_live he hd hpage
        cases hownc.symm.trans (h.own_of_object hd hobj hle hlt)
        obtain ⟨-, rfl⟩ := h.slab_unique hc hd rfl
        obtain rfl := object_unique hok.index hobj hoc hle hlt hole holt
        exact disjoint_of_nodup_append (hok.parts.nodup_iff.mpr (nodup_objects _)) ho
          (mem_liveIn he hpage)
      · cases hownc.symm.trans hown

lemma storage_unique {e e' : Nat × Nat} (he : e ∈ s.live)
    (he' : e' ∈ s.live) (hx : InStorage s e.1 x) (hx' : InStorage s e'.1 x) : e = e' := by
  refine inj_on_of_nodup_map h.live_nodup he he' ?_
  rcases (h.inStorage_iff he).mp hx with ⟨i, d, hd, hpage, hle, hlt⟩ | hown <;>
    rcases (h.inStorage_iff he').mp hx' with ⟨j, c, hc, hpage', hle', hlt'⟩ | hown'
  · have hown := h.own_of_object hd (h.object_of_live he hd hpage) hle hlt
    rw [h.own_of_object hc (h.object_of_live he' hc hpage') hle' hlt'] at hown
    cases hown
    obtain ⟨-, rfl⟩ := h.slab_unique hc hd rfl
    exact object_unique (h.slab j d hd).index (h.object_of_live he hd hpage)
      (h.object_of_live he' hc hpage') hle hlt hle' hlt'
  · rw [h.own_of_object hd (h.object_of_live he hd hpage) hle hlt] at hown'
    cases hown'
  · rw [h.own_of_object hc (h.object_of_live he' hc hpage') hle' hlt'] at hown
    cases hown
  · exact Owner.large.inj (Option.some.inj (hown.symm.trans hown'))

lemma le_ksize {e : Nat × Nat} (he : e ∈ s.live) : e.2 ≤ ksize s e.1 := by
  rcases h.live e he with ⟨i, d, hd, hpage, hsize⟩ | ⟨f, order, hl⟩
  · rw [(h.ksize_of_slab hd hpage).2]
    exact hsize
  · rw [(h.cacheOf_of_large hl).2.2.2]
    exact Nat.le_sub_of_add_le hl.size

/-! ## Runs -/

/-- A store to an object, or outside the heap, keeps the free lists and the headers. -/
lemma store {addr v : Nat} (hc : Allowed s (.store addr v)) :
    Inv (s.setWord addr v) own free := by
  have htaken : own (frameOf addr) ≠ none → ∃ e ∈ s.live, e.1 ≤ addr ∧ InStorage s e.1 addr := by
    intro hown
    rcases hc with ⟨e, he, hle, hlt⟩ | hheld
    · exact ⟨e, he, hle, inStorage_of_le ⟨hle, hlt⟩⟩
    · have hnone := h.held (frameOf addr)
      rw [show s.held (frameOf addr) = false from hheld] at hnone
      exact absurd (Option.isNone_iff_eq_none.mp (by simpa using hnone.symm)) hown
  have hfree : ∀ i d, d ∈ s.slabs i → addr ∉ free d := by
    intro i d hd hmem
    have hok := h.slab i d hd
    have hpos : 0 < cacheSize i := Nat.two_pow_pos _
    have hobj := hok.parts.subset (mem_append_left (s.liveIn d) hmem)
    have hown := h.own_of_object hd hobj le_rfl (Nat.lt_add_of_pos_right hpos)
    obtain ⟨e, he, -, hx⟩ := htaken (by rw [hown]; exact Option.some_ne_none _)
    exact (h.taken_iff.mpr ⟨e, he, hx⟩).2 ⟨i, d, hd, free d, hok.links, addr, hmem, le_rfl,
      Nat.lt_add_of_pos_right hpos⟩
  refine ⟨h.held, h.pos, fun i d hd => (h.slab i d hd).congr rfl (.inr rfl) (fun _ ho => ho)
    fun o ho => ?_, h.nodup, h.owner, h.map_iff, h.map_nodup, h.metas, h.unused, fun e he => ?_,
    h.live_nodup, h.blocks⟩
  · refine update_of_ne ?_ _ _
    rintro rfl
    exact hfree i d hd ho
  · refine (h.live e he).imp_right ?_
    rintro ⟨f, order, hl⟩
    refine ⟨f, order, hl.congr (fun _ => Iff.rfl) fun a ha hlt => update_of_ne ?_ _ _⟩
    rintro rfl
    obtain ⟨e', he', hle, hx⟩ := htaken (by rw [ha]; exact Option.some_ne_none _)
    have heq := h.storage_unique he he' ((h.inStorage_iff he).mpr (.inr ha)) hx
    exact absurd (heq ▸ hle) (not_le.mpr hlt)

lemma step {c : Call} (hc : Fits s c) : ∃ own' free', Inv (step s c) own' free' := by
  cases c with
  | kmalloc size a =>
    obtain ⟨⟨p | p, t⟩, hr, hinv⟩ := h.kmalloc a hc
    · simpa only [Slab.step, hr, record, Allocates] using hinv
    · simpa only [Slab.step, hr, record, Allocates] using hinv
  | kfree p =>
    obtain ⟨own', free', hinv, -⟩ := h.kfree hc
    exact ⟨own', free', hinv⟩
  | reclaim =>
    obtain ⟨own', hinv, -⟩ := h.slabReclaimOne
    exact ⟨own', free, hinv⟩
  | store addr v => exact ⟨own, free, h.store hc⟩

lemma taken_kfree (hp : p ∈ s.live.map Prod.fst) :
    Taken (Slab.step s (.kfree p)) x ↔ Taken s x ∧ ¬ InStorage s p x := by
  obtain ⟨own', free', hinv, hlarge⟩ := h.kfree hp
  obtain ⟨e0, he0, rfl⟩ := mem_map.mp hp
  have hsame : ∀ e ∈ s.live, e.1 ≠ e0.1 →
      (InStorage (Slab.step s (.kfree e0.1)) e.1 x ↔ InStorage s e.1 x) := by
    intro e he hne
    rw [h.inStorage_iff he, hinv.inStorage_iff (mem_filter.mpr ⟨he, decide_eq_true hne⟩),
      hlarge _ _ hne]
    simp only [Slab.step, slabs_kfree]
  rw [hinv.taken_iff, h.taken_iff]
  constructor
  · rintro ⟨e, he, hx⟩
    obtain ⟨he, hne⟩ := mem_filter.mp he
    have hx' := (hsame e he (of_decide_eq_true hne)).mp hx
    refine ⟨⟨e, he, hx'⟩, fun hx0 => of_decide_eq_true hne ?_⟩
    rw [h.storage_unique he he0 hx' hx0]
  · rintro ⟨⟨e, he, hx⟩, hx0⟩
    have hne : e.1 ≠ e0.1 := fun heq => hx0 (heq ▸ hx)
    exact ⟨e, mem_filter.mpr ⟨he, decide_eq_true hne⟩, (hsame e he hne).mpr hx⟩

lemma frameOf_ne_of_reclaim (hg : s.held g = true)
    (hg' : (Slab.step s .reclaim).held g = false) {e : Nat × Nat} (he : e ∈ s.live)
    (hx : InStorage s e.1 x) : frameOf x ≠ g := by
  rintro rfl
  obtain ⟨own', hinv, hdiff, -⟩ := h.slabReclaimOne
  have hne : own' (frameOf x) ≠ own (frameOf x) := by
    intro heq
    rw [h.held, ← heq, ← hinv.held] at hg
    exact Bool.noConfusion (hg.symm.trans hg')
  obtain ⟨i, d, hd, hown, hnil⟩ := hdiff _ hne
  rcases (h.inStorage_iff he).mp hx with ⟨j, c, hc, hpage, hle, hlt⟩ | hlarge
  · rw [h.own_of_object hc (h.object_of_live he hc hpage) hle hlt] at hown
    cases hown
    have hin := mem_liveIn he hpage
    rw [hnil] at hin
    cases hin
  · rw [hlarge] at hown
    cases hown

lemma partitioned : Partitioned s where
  slabs i d hd := by
    have hok := h.slab i d hd
    exact ⟨free d, hok.links, hok.parts, hok.total, hok.inuse⟩
  size _ he := h.le_ksize he
  disjoint := by
    refine h.live_nodup.imp_of_mem fun {p q} hp hq hne x hpx hqx => hne ?_
    obtain ⟨e, he, rfl⟩ := mem_map.mp hp
    obtain ⟨e', he', rfl⟩ := mem_map.mp hq
    rw [h.storage_unique he he' (inStorage_of_le hpx) (inStorage_of_le hqx)]
  taken _ := h.taken_iff

end

end Inv

lemma reachable_inv {mem : Nat → Nat} {cs : List Call}
    (hok : RunOk step Fits (kmemCacheInit mem) cs) :
    ∃ own free, Inv (run step (kmemCacheInit mem) cs) own free := by
  refine run_invariant (fun s => ∃ own free, Inv s own free) ?_ ⟨_, _, inv_kmemCacheInit mem⟩ hok
  rintro s c ⟨own, free, h⟩ hc
  exact h.step hc

/-- Two objects are allocated, one of them with pages of its own, and the first is freed. -/
def twoObjects : List Call :=
  [.kmalloc 24 ⟨0, some 5⟩, .kmalloc 5000 ⟨0, some 8⟩, .kfree (frameAddr 5 + 4064), .reclaim]

end LiteKernel.Mm.Slab
