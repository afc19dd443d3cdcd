import LiteKernel.Mm.SlabPartition

/-!
# The limits of the heap

`kmalloc` adds a header to large sizes in 32 bits and looks for the order of a block by shifting
a 32-bit value. A slab takes one of the 4096 descriptors and one of the 4096 entries of
`slab_map`; a descriptor whose page cannot be allocated is lost, and an entry is never used again.

Main results:

- Theorem `kmalloc_serves_iff`: which sizes are served.
- Theorem `slab_capacity`: when the heap keeps its capacity.
-/

namespace LiteKernel.Mm.Slab

open Function Lib List Option

variable {s : State} {i n : Nat} {a : Answer}

/-! ## Sizes -/

/-- `kmalloc` returns, and a pointer that it returns has the size that was asked for. -/
def Serves (n : Nat) (s : State) : Prop :=
  ∀ a, ∃ r, kmalloc a n s = some r ∧ ∀ p, r.1 = some p → n ≤ ksize r.2 p

lemma kmalloc_of_large (hn : 2048 < n) (a : Answer) (s : State) :
    kmalloc a n s = kmallocLarge a n s := by
  have hfind : (List.range slabMaxCache).find? (fun i => decide (n ≤ cacheSize i)) = none := by
    rw [List.find?_eq_none]
    intro i hi
    have hi : i < 9 := mem_range.mp hi
    have hle : cacheSize i ≤ 2 ^ 11 := Nat.pow_le_pow_right (by decide) (by omega)
    rw [decide_eq_true_eq]
    omega
  rw [kmalloc, if_neg (by omega), hfind]

lemma kmallocLarge_of_wrap (hn : 4294967296 ≤ n + largeHdrSize) (hlt : n < 4294967296) :
    ¬ ∃ r, kmallocLarge ⟨0, some 1⟩ n (kmemCacheInit fun _ => 0) = some r ∧
      ∀ p, r.1 = some p → n ≤ ksize r.2 p := by
  have hwrap : wrap (n + largeHdrSize) < pageSize := by
    unfold wrap
    unfold largeHdrSize at hn ⊢
    unfold pageSize
    omega
  have horder : sizeToOrder (wrap (n + largeHdrSize)) = some 0 := by
    rw [sizeToOrder, sizeToOrderFrom, if_neg (not_lt.mpr hwrap.le)]
  have hone : kmallocLarge ⟨0, some 1⟩ n (kmemCacheInit fun _ => 0) =
      kmallocLarge ⟨0, some 1⟩ 0 (kmemCacheInit fun _ => 0) := by
    have horder0 : sizeToOrder (wrap (0 + largeHdrSize)) = some 0 := by decide
    unfold kmallocLarge
    rw [horder, horder0]
  have hsize : (kmallocLarge ⟨0, some 1⟩ 0 (kmemCacheInit fun _ => 0)).map
      (fun r => (r.1.map (ksize r.2))) = some (some 4080) := by
    decide +kernel
  rw [hone]
  rintro ⟨r, hr, hle⟩
  rw [hr, map_some, some_inj, map_eq_some_iff] at hsize
  obtain ⟨p, hp, hp'⟩ := hsize
  have hbig := hle p hp
  rw [hp'] at hbig
  unfold largeHdrSize at hn
  omega

/-- The number of live slabs. -/
def liveSlabs (s : State) : Nat :=
  ∑ i ∈ Finset.range slabMaxCache, (s.slabs i).length

/-- The page allocator has a page for the call. -/
def Answer.Ready (a : Answer) (s : State) : Prop :=
  ∃ f, a.frame = some f ∧ 0 < f ∧ f + 1 ≤ lowPages ∧ s.held f = false

/--
A failed `kmalloc` of at most 2048 bytes had no page or met 4096 live slabs, and has used up
nothing.
-/
def KeepsCapacity (s : State) : Call → Prop
  | .kmalloc n a => n ≤ 2048 → ∀ t, kmalloc a n s = some (none, t) →
      (¬ a.Ready s ∨ liveSlabs s = slabMaxPages) ∧
        t.slabFreeList.length = s.slabFreeList.length ∧ t.slabMap.length = s.slabMap.length
  | _ => True

/--
The size is not zero; and if the cache has no free object while a descriptor is left, then an
entry of `slab_map` and a page are left as well.
-/
def Roomy (s : State) : Call → Prop
  | .kmalloc n a => n ≠ 0 ∧ ∀ i, (List.range slabMaxCache).find? (fun i => decide (n ≤ cacheSize i)) =
      some i → (∀ d ∈ s.slabs i, (s.slabPool d).freelist = 0) → s.slabFreeList ≠ [] →
        s.slabMap.length < slabMaxPages ∧ a.Ready s
  | _ => True

/-- Every descriptor is available or in use. -/
def Counted (s : State) : Prop :=
  s.slabFreeList.length + liveSlabs s = slabMaxPages

lemma liveSlabs_update (hi : i < slabMaxCache) (l : List Nat) :
    liveSlabs { s with slabs := update s.slabs i l } + (s.slabs i).length = liveSlabs s + l.length := by
  have hmem := Finset.mem_range.mpr hi
  unfold liveSlabs
  rw [← Finset.add_sum_erase _ _ hmem, ← Finset.add_sum_erase _ _ hmem]
  dsimp only
  rw [update_self]
  have hrest : ∀ j ∈ (Finset.range slabMaxCache).erase i,
      (update s.slabs i l j).length = (s.slabs j).length := fun j hj => by
    rw [update_of_ne (Finset.ne_of_mem_erase hj)]
  rw [Finset.sum_congr rfl hrest]
  omega

lemma slabReclaimOne_counts (s : State) :
    (slabReclaimOne s).2.slabFreeList.length + liveSlabs (slabReclaimOne s).2 =
        s.slabFreeList.length + liveSlabs s ∧
      ∀ g, s.held g = false → (slabReclaimOne s).2.held g = false := by
  unfold slabReclaimOne
  cases hfind : findEmpty s with
  | none => exact ⟨rfl, fun _ hg => hg⟩
  | some r =>
    obtain ⟨i, d⟩ := r
    obtain ⟨j, hj, hd⟩ := exists_of_findSome?_eq_some hfind
    obtain ⟨c, hc, heq⟩ := map_eq_some_iff.mp hd
    cases heq
    have hmem := mem_of_find?_eq_some hc
    have hlen := length_erase_of_mem hmem
    have hpos := length_pos_of_mem hmem
    have hsum := liveSlabs_update (s := s) (mem_range.mp hj) ((s.slabs i).erase d)
    refine ⟨?_, fun g hg => ?_⟩
    · show s.slabFreeList.length + 1 +
        liveSlabs { s with slabs := update s.slabs i ((s.slabs i).erase d) } = _
      omega
    · show (if _ then false else s.held g) = false
      rw [hg, ite_self]

lemma allocPages_counts (a : Answer) (order : Nat) (s : State) :
    (allocPages a order s).2.slabFreeList.length + liveSlabs (allocPages a order s).2 =
        s.slabFreeList.length + liveSlabs s ∧
      (order = 0 → a.Ready s → ∃ f, 0 < f ∧ (allocPages a order s).1 = some (f * pageSize)) := by
  have hrun : ∀ n, ((fun s => (slabReclaimOne s).2)^[n] s).slabFreeList.length +
        liveSlabs ((fun s => (slabReclaimOne s).2)^[n] s) = s.slabFreeList.length + liveSlabs s ∧
      ∀ g, s.held g = false → ((fun s => (slabReclaimOne s).2)^[n] s).held g = false := by
    intro n
    induction n with
    | zero => exact ⟨rfl, fun _ hg => hg⟩
    | succ n ih =>
      obtain ⟨hcount, hheld⟩ := slabReclaimOne_counts ((fun s => (slabReclaimOne s).2)^[n] s)
      rw [iterate_succ_apply']
      exact ⟨hcount.trans ih.1, fun g hg => hheld g (ih.2 g hg)⟩
  obtain ⟨hcount, hheld⟩ := hrun a.reclaims
  unfold allocPages
  refine ⟨?_, ?_⟩
  · cases a.frame with
    | none => exact hcount
    | some f =>
      dsimp only
      split_ifs <;> exact hcount
  · rintro rfl ⟨f, hf, hpos, hle, hfree⟩
    refine ⟨f, hpos, ?_⟩
    rw [hf]
    dsimp only
    rw [if_pos]
    refine ⟨hpos, hle, fun g hlt hge => ?_⟩
    rw [show g = f by omega]
    exact hheld f hfree

lemma kmemCacheAlloc_counts (hi : i < slabMaxCache)
    (hroom : (∀ d ∈ s.slabs i, (s.slabPool d).freelist = 0) → s.slabFreeList ≠ [] →
      s.slabMap.length < slabMaxPages ∧ a.Ready s) :
    (kmemCacheAlloc a i s).2.slabFreeList.length + liveSlabs (kmemCacheAlloc a i s).2 =
        s.slabFreeList.length + liveSlabs s ∧
      ((kmemCacheAlloc a i s).1 = none → s.slabFreeList = [] ∧ (kmemCacheAlloc a i s).2 = s) := by
  unfold kmemCacheAlloc
  cases hfind : (s.slabs i).find? fun d => decide ((s.slabPool d).freelist ≠ 0) with
  | some d =>
    have hhead := List.find?_some hfind
    simp only [takeObject, if_neg (of_decide_eq_true hhead)]
    exact ⟨rfl, fun h => absurd h (some_ne_none _)⟩
  | none =>
    have hfull : ∀ d ∈ s.slabs i, (s.slabPool d).freelist = 0 := fun d hd => by
      simpa using List.find?_eq_none.mp hfind d hd
    cases hmeta : s.slabFreeList with
    | nil =>
      simp only [slabAllocMeta, hmeta]
      exact ⟨trivial, fun _ => ⟨trivial, trivial⟩⟩
    | cons d rest =>
      obtain ⟨hlen, hready⟩ := hroom hfull (by rw [hmeta]; exact cons_ne_nil _ _)
      simp only [slabAllocMeta, hmeta]
      set s1 : State := ({ s with slabFreeList := rest }.setSlab d fun _ => ⟨0, 0, 0, 0, none⟩).setSlab
        d fun x => { x with cache := some i } with hs1
      obtain ⟨hcount, hpage⟩ := allocPages_counts a 0 s1
      obtain ⟨f, hf, hphys⟩ := hpage rfl hready
      set t := (allocPages a 0 s1).2 with ht
      have hpair : allocPages a 0 s1 = (some (f * pageSize), t) := Prod.ext hphys rfl
      have hlen1 : ¬ s1.slabMap.length ≥ slabMaxPages := not_le.mpr hlen
      simp only [slabAllocPage, if_neg hlen1, hpair]
      set s2 : State := { t.setSlab d fun x => { x with vaddr := f * pageSize + pageOffset } with
        slabMap := (t.setSlab d fun x => { x with vaddr := f * pageSize + pageOffset }).slabMap ++
          [some d] } with hs2
      obtain ⟨head, mem, heq, hlinks, -⟩ := slabInitObjects_eq (d := d) hi hf s2
        (by show (update t.slabPool d _ d).vaddr = _; rw [update_self]; rfl)
      have hhead : head ≠ 0 := fun h => objects_reverse_ne_nil hi (hlinks.eq_nil_iff.mpr h)
      have hsum := liveSlabs_update (s := t) hi (d :: t.slabs i)
      have htake : ∀ u : State, (u.slabPool d).freelist = head → takeObject u d =
          (some head, u.setSlab d fun x => { x with freelist := u.mem head, inuse := x.inuse + 1 }) := by
        rintro u rfl
        exact if_neg hhead
      rw [heq, htake _ (by show (update s2.slabPool d _ d).freelist = _; rw [update_self])]
      refine ⟨?_, fun h => absurd h (some_ne_none _)⟩
      show t.slabFreeList.length +
        liveSlabs { t with slabs := update t.slabs i (d :: t.slabs i) } = rest.length + 1 + liveSlabs s
      have hcount1 : t.slabFreeList.length + liveSlabs t = rest.length + liveSlabs s := hcount
      rw [length_cons] at hsum
      omega

lemma kmalloc_counts (hc : Roomy s (.kmalloc n a)) {r : Option Nat × State}
    (hr : kmalloc a n s = some r) :
    r.2.slabFreeList.length + liveSlabs r.2 = s.slabFreeList.length + liveSlabs s ∧
      (n ≤ 2048 → r.1 = none → s.slabFreeList = [] ∧ r.2 = s) := by
  obtain ⟨hn, hroom⟩ := hc
  by_cases hlarge : 2048 < n
  · rw [kmalloc_of_large hlarge, kmallocLarge] at hr
    refine ⟨?_, fun hle => absurd hlarge (not_lt.mpr hle)⟩
    cases horder : sizeToOrder (wrap (n + largeHdrSize)) with
    | none =>
      rw [horder] at hr
      cases hr
    | some order =>
      have hcount := (allocPages_counts a order s).1
      rw [horder] at hr
      rcases halloc : allocPages a order s with ⟨phys, t⟩
      simp only [halloc] at hr hcount
      cases phys <;> cases hr <;> exact hcount
  · rw [kmalloc, if_neg hn] at hr
    cases hfind : (List.range slabMaxCache).find? fun i => decide (n ≤ cacheSize i) with
    | none =>
      have hbig := List.find?_eq_none.mp hfind 8 (mem_range.mpr (by decide))
      exact absurd (decide_eq_true (not_lt.mp hlarge)) hbig
    | some i =>
      have hi := mem_range.mp (mem_of_find?_eq_some hfind)
      have hcount := kmemCacheAlloc_counts hi (hroom i hfind)
      rw [hfind] at hr
      cases hr
      exact ⟨hcount.1, fun _ => hcount.2⟩

lemma Counted.step {c : Call} (h : Counted s) (hc : Roomy s c) : Counted (Slab.step s c) := by
  cases c with
  | kmalloc n a =>
    cases hr : kmalloc a n s with
    | none => simpa only [Slab.step, hr, record] using h
    | some r =>
      obtain ⟨p, t⟩ := r
      have hcount := (kmalloc_counts hc hr).1.trans h
      cases p with
      | none => simpa only [Slab.step, hr, record, Counted] using hcount
      | some p =>
        simp only [Slab.step, hr, record]
        exact hcount
  | kfree p =>
    show (kfree s p).slabFreeList.length +
      ∑ i ∈ Finset.range slabMaxCache, ((kfree s p).slabs i).length = slabMaxPages
    rw [(slabs_kfree s p).1, (slabs_kfree s p).2.1]
    exact h
  | reclaim => exact (slabReclaimOne_counts s).1.trans h
  | store addr v => exact h

/-- No history uses up the slabs if every call that needs a new slab gets its entry and its page. -/
theorem slab_capacity (mem : Nat → Nat) (cs : List Call)
    (hok : RunOk step Roomy (kmemCacheInit mem) cs) :
    RunOk step KeepsCapacity (kmemCacheInit mem) cs := by
  refine hok.imp Counted (fun _ _ => Counted.step) (fun s c h hc => ?_) ?_
  · cases c with
    | kmalloc n a =>
      intro hn t ht
      obtain ⟨-, hfail⟩ := kmalloc_counts hc ht
      obtain ⟨hnil, rfl⟩ := hfail hn rfl
      have hcount := h
      rw [Counted, hnil, length_nil, zero_add] at hcount
      exact ⟨.inr hcount, rfl, rfl⟩
    | kfree p => trivial
    | reclaim => trivial
    | store addr v => trivial
  · simp only [Counted, liveSlabs, kmemCacheInit, length_range, length_nil,
      Finset.sum_const_zero, add_zero]

/-- The first object of a cache, with a page for its slab. -/
theorem first_object_capacity :
    RunOk step KeepsCapacity (kmemCacheInit fun _ => 0) [.kmalloc 24 ⟨0, some 5⟩] := by
  refine slab_capacity _ _ ⟨⟨by decide, fun i _ _ _ => ⟨?_, 5, rfl, by decide, by decide, rfl⟩⟩, trivial⟩
  decide

/-- A page allocation that fails takes a descriptor with it. -/
theorem failed_page_loses_descriptor :
    ¬ RunOk step KeepsCapacity (kmemCacheInit fun _ => 0) [.kmalloc 24 ⟨0, none⟩] := by
  intro h
  have hlen : (kmalloc ⟨0, none⟩ 24 (kmemCacheInit fun _ => 0)).map
      (fun r => (r.1, r.2.slabFreeList.length)) = some (none, 4095) := by
    decide +kernel
  obtain ⟨⟨p, t⟩, hr, heq⟩ := map_eq_some_iff.mp hlen
  obtain ⟨rfl, hlost⟩ := Prod.mk.inj heq
  have hkeep := (h.1 (by decide) t hr).2.1
  simp only [hlost, kmemCacheInit, length_range] at hkeep
  exact absurd hkeep (by decide)

end LiteKernel.Mm.Slab
