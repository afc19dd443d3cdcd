import LiteKernel.Lib.Run
import LiteKernel.Mm.Bootmem

/-!
# The boot allocator

`bootmem_alloc` looks through the available regions for an aligned range that meets no reserved
one, skips over those that it meets, and reserves what it returns. The ends of ranges are 32-bit
sums, and a reservation that finds the table full is dropped without a word.

Main results:

- Theorem `bootmem_disjoint`: ranges handed out are disjoint while the table has room and no sum
  wraps around.
- Theorem `bootmem_alloc_wraps`: a range that wraps around.
-/

namespace LiteKernel.Mm.Bootmem

open Lib List

/-- `BOOTMEM_MAX_REGIONS`. -/
abbrev maxRegions : Nat := 256

/-- `align_up` to a power of two. -/
def alignUpTo (value align : Nat) : Nat :=
  if align = 0 then value else wrap (value + (align - 1)) / align * align

def bootmemReserve (s : State) (base size : Nat) : State :=
  if s.reserved.length ≥ maxRegions then s
  else { s with reserved := s.reserved ++ [⟨base, size⟩] }

/-- The end of the first reserved region that the range meets. -/
def bootmemFindReservedOverlap (s : State) (base size : Nat) : Option Nat :=
  (s.reserved.find? (Region.overlaps base size)).map fun r => wrap (r.base + r.size)

/-- The `while` loop of `bootmem_alloc`; `none` when the fuel ends. -/
def searchFrom (s : State) (size align rend : Nat) : Nat → Nat → Option (Option Nat)
  | 0, _ => none
  | fuel + 1, addr =>
    if addr < rend then
      if wrap (addr + size) > rend then some none
      else
        match bootmemFindReservedOverlap s addr size with
        | some overlapEnd => searchFrom s size align rend fuel (alignUpTo overlapEnd align)
        | none => some (some addr)
    else some none

/-- The loop of `bootmem_alloc` over the available regions; `none` when it does not return. -/
def searchRegions (s : State) (size align : Nat) : List Region → Option (Option Nat)
  | [] => some none
  | r :: l =>
    if r.base ≥ s.stop then searchRegions s size align l
    else
      -- An address that comes back makes the loop endless, so this is fuel for every loop that ends.
      match searchFrom s size align (min (wrap (r.base + r.size)) s.stop) (wordSize + 1)
        (alignUpTo (max s.current r.base) align) with
      | none => none
      | some none => searchRegions s size align l
      | some (some addr) => some (some addr)

/-- `align ? align : PAGE_SIZE`. -/
def reqAlign (align : Nat) : Nat :=
  if align = 0 then pageSize else align

/-- `bootmem_alloc`; `none` when it does not return. -/
def bootmemAlloc (s : State) (size align : Nat) : Option (Option Nat × State) :=
  if size = 0 then some (none, s)
  else
    (searchRegions s size (reqAlign align) s.available).map fun
      | none => (none, s)
      | some addr => (some addr, bootmemReserve { s with current := wrap (addr + size) } addr size)

/-! ## One call -/

variable {s : State} {addr align rend size fuel : Nat}

/-- The ranges have no address in common. -/
def Region.Apart (a b : Region) : Prop :=
  a.base + a.size ≤ b.base ∨ b.base + b.size ≤ a.base

/-- What a call may ask for: no sum wraps around, and a reservation is left. -/
structure Roomy (s : State) (size align : Nat) : Prop where
  room : s.reserved.length < maxRegions
  pow : ∃ k, align = 2 ^ k
  size : s.stop + size ≤ wordSize
  stop : s.stop + align ≤ wordSize
  current : s.current + align ≤ wordSize
  reserved : ∀ r ∈ s.reserved, r.base + r.size + align ≤ wordSize

lemma alignUpTo_spec {v : Nat} (halign : 0 < align) (h : v + align ≤ wordSize) :
    v ≤ alignUpTo v align ∧ align ∣ alignUpTo v align := by
  unfold alignUpTo
  rw [if_neg (Nat.pos_iff_ne_zero.mp halign), wrap_of_lt (by unfold wordSize at h; omega)]
  refine ⟨?_, Dvd.intro_left _ rfl⟩
  have hmod := Nat.div_add_mod' (v + (align - 1)) align
  have hlt := Nat.mod_lt (v + (align - 1)) halign
  omega

lemma overlaps_eq_false_iff {r : Region} (hr : r.base + r.size < wordSize)
    (h : addr + size < wordSize) :
    Region.overlaps addr size r = false ↔ Region.Apart ⟨addr, size⟩ r := by
  unfold Region.overlaps Region.Apart
  rw [wrap_of_lt hr, wrap_of_lt h]
  simp only [Bool.not_eq_false', Bool.or_eq_true, decide_eq_true_eq, ge_iff_le]

/-- The search of a region ends, with an aligned address that is free, or without one. -/
lemma searchFrom_spec (h : Roomy s size align) (hrend : rend ≤ s.stop)
    (hdvd : align ∣ addr) (hfuel : rend - addr < fuel) :
    ∃ r, searchFrom s size align rend fuel addr = some r ∧ ∀ a, r = some a → addr ≤ a ∧
      align ∣ a ∧ a + size ≤ rend ∧ ∀ q ∈ s.reserved, Region.Apart ⟨a, size⟩ q := by
  have halign : 0 < align := by
    obtain ⟨k, hk⟩ := h.pow
    exact hk ▸ Nat.two_pow_pos k
  have hstop := h.size
  induction fuel generalizing addr with
  | zero => exact absurd hfuel (Nat.not_lt_zero _)
  | succ fuel ih =>
    unfold searchFrom
    split
    · rename_i hlt
      have hsum : addr + size < wordSize := by omega
      rw [wrap_of_lt hsum]
      split
      · exact ⟨none, rfl, nofun⟩
      · rename_i hfit
        unfold bootmemFindReservedOverlap
        cases hfind : s.reserved.find? (Region.overlaps addr size) with
        | none =>
          refine ⟨some addr, rfl, fun a ha => ?_⟩
          cases ha
          refine ⟨le_rfl, hdvd, not_lt.mp hfit, fun q hq => ?_⟩
          have hres := h.reserved q hq
          refine (overlaps_eq_false_iff (by omega) hsum).mp ?_
          simpa using List.find?_eq_none.mp hfind q hq
        | some q =>
          have hmem := mem_of_find?_eq_some hfind
          have hres := h.reserved q hmem
          have hq : q.base + q.size < wordSize := by omega
          obtain ⟨hle, hdvd'⟩ := alignUpTo_spec halign hres
          -- the range meets the region, so the search goes on behind it
          have hmeets := List.find?_some hfind
          have hbehind : addr < q.base + q.size := by
            unfold Region.overlaps at hmeets
            rw [wrap_of_lt hq] at hmeets
            simp only [Bool.not_eq_true', Bool.or_eq_false_iff, decide_eq_false_iff_not] at hmeets
            omega
          rw [Option.map_some, wrap_of_lt hq]
          obtain ⟨r, hr, hspec⟩ := ih hdvd' (by omega)
          refine ⟨r, hr, fun a ha => ?_⟩
          obtain ⟨h1, h2⟩ := hspec a ha
          exact ⟨by omega, h2⟩
    · exact ⟨none, rfl, nofun⟩

/-- The range lies in an available region, below the managed end. -/
def Available (s : State) (addr size : Nat) : Prop :=
  ∃ r ∈ s.available, r.base ≤ addr ∧ addr + size ≤ r.base + r.size ∧ addr + size ≤ s.stop

lemma searchRegions_spec (h : Roomy s size align) {l : List Region} (hl : l ⊆ s.available) :
    ∃ r, searchRegions s size align l = some r ∧ ∀ a, r = some a → align ∣ a ∧ Available s a size ∧
      ∀ q ∈ s.reserved, Region.Apart ⟨a, size⟩ q := by
  have halign : 0 < align := by
    obtain ⟨k, hk⟩ := h.pow
    exact hk ▸ Nat.two_pow_pos k
  have hstop := h.stop
  have hcurrent := h.current
  induction l with
  | nil => exact ⟨none, rfl, nofun⟩
  | cons r l ih =>
    obtain ⟨hr, hl⟩ := cons_subset.mp hl
    unfold searchRegions
    split
    · exact ih hl
    · rename_i hbelow
      have hmax : max s.current r.base + align ≤ wordSize := by omega
      obtain ⟨hle, hdvd⟩ := alignUpTo_spec halign hmax
      have hfuel : min (wrap (r.base + r.size)) s.stop - alignUpTo (max s.current r.base) align <
          wordSize + 1 := by
        omega
      obtain ⟨res, hres, hspec⟩ := searchFrom_spec h (Nat.min_le_right _ _) hdvd hfuel
      rw [hres]
      cases res with
      | none => exact ih hl
      | some a =>
        obtain ⟨h1, h2, h3, h4⟩ := hspec a rfl
        refine ⟨some a, rfl, fun a' ha' => ?_⟩
        cases ha'
        have hend : wrap (r.base + r.size) ≤ r.base + r.size := Nat.mod_le _ _
        exact ⟨h2, ⟨r, hr, by omega, by omega, by omega⟩, h4⟩

/-- What a call returns, and what it leaves. -/
structure Granted (s : State) (addr size align : Nat) (t : State) : Prop where
  aligned : align ∣ addr
  available : Available s addr size
  apart : ∀ q ∈ s.reserved, Region.Apart ⟨addr, size⟩ q
  reserved : bootmemIsReserved t.reserved addr size = true
  table : t.reserved = s.reserved ++ [⟨addr, size⟩]

lemma bootmemAlloc_spec (h : Roomy s size (reqAlign align)) :
    ∃ r, bootmemAlloc s size align = some r ∧
      (∀ addr, r.1 = some addr → Granted s addr size (reqAlign align) r.2) ∧
      (r.1 = none → r.2 = s) := by
  unfold bootmemAlloc
  split
  · exact ⟨_, rfl, nofun, fun _ => rfl⟩
  · rename_i hsize
    obtain ⟨res, hres, hspec⟩ := searchRegions_spec h (List.Subset.refl _)
    rw [hres]
    cases res with
    | none => exact ⟨_, rfl, nofun, fun _ => rfl⟩
    | some a =>
      obtain ⟨hdvd, havail, hapart⟩ := hspec a rfl
      have hroom : ¬ s.reserved.length ≥ maxRegions := not_le.mpr h.room
      simp only [Option.map_some, bootmemReserve, if_neg hroom]
      refine ⟨_, rfl, fun addr haddr => ?_, nofun⟩
      cases haddr
      refine ⟨hdvd, havail, hapart, ?_, rfl⟩
      obtain ⟨-, -, -, -, hstop⟩ := havail
      refine any_eq_true.mpr ⟨⟨a, size⟩, mem_append_right _ (mem_singleton.mpr rfl), ?_⟩
      have halign := h.stop
      have hpow : 0 < reqAlign align := by
        obtain ⟨k, hk⟩ := h.pow
        exact hk ▸ Nat.two_pow_pos k
      unfold Region.overlaps
      rw [wrap_of_lt (by unfold wordSize at *; omega)]
      simp only [Bool.not_eq_true', Bool.or_eq_false_iff, decide_eq_false_iff_not]
      omega

/-! ## Runs -/

/-- The calls of the boot code. -/
inductive Call where
  | reserve (base size : Nat)
  | alloc (size align : Nat)

/-- The state with the regions that were ever passed to `bootmem_reserve` or returned. -/
def step (c : State × List Region) : Call → State × List Region
  | .reserve base size => (bootmemReserve c.1 base size, ⟨base, size⟩ :: c.2)
  | .alloc size align =>
    match bootmemAlloc c.1 size align with
    | none => c
    | some (none, t) => (t, c.2)
    | some (some addr, t) => (t, ⟨addr, size⟩ :: c.2)

/-- No sum wraps around, and the table has room. -/
def Fits (c : State × List Region) : Call → Prop
  | .reserve _ _ => c.1.reserved.length < maxRegions
  | .alloc size align => Roomy c.1 size (reqAlign align)

/-- The call returns, and what it returns is apart from all that was reserved or returned before. -/
def Safe (c : State × List Region) : Call → Prop
  | .reserve _ _ => True
  | .alloc size align => ∃ r, bootmemAlloc c.1 size align = some r ∧ ∀ addr, r.1 = some addr →
      reqAlign align ∣ addr ∧ Available c.1 addr size ∧
        (∀ q ∈ c.2, Region.Apart ⟨addr, size⟩ q) ∧ bootmemIsReserved r.2.reserved addr size = true

/-- The table has every region of the history. -/
def Recorded (c : State × List Region) : Prop :=
  ∀ q ∈ c.2, q ∈ c.1.reserved

lemma Recorded.step {c : State × List Region} {o : Call} (h : Recorded c) (hok : Fits c o) :
    Recorded (Bootmem.step c o) := by
  have hnew : ∀ r, ∀ q ∈ r :: c.2, q ∈ c.1.reserved ++ [r] := by
    refine fun r => forall_mem_cons.mpr ⟨?_, fun q hq => ?_⟩
    · exact mem_append_right _ (mem_singleton.mpr rfl)
    · exact mem_append_left _ (h q hq)
  cases o with
  | reserve base size =>
    have hroom : ¬ c.1.reserved.length ≥ maxRegions := not_le.mpr hok
    show Recorded (bootmemReserve c.1 base size, _)
    unfold bootmemReserve
    rw [if_neg hroom]
    exact hnew _
  | alloc size align =>
    obtain ⟨⟨res, t⟩, hr, hgrant, hnone⟩ := bootmemAlloc_spec hok
    unfold Bootmem.step
    simp only [hr]
    cases res with
    | none =>
      rw [show t = c.1 from hnone rfl]
      exact h
    | some addr =>
      have htable := (hgrant addr rfl).table
      unfold Recorded
      rw [htable]
      exact hnew _

/-- Every call of a run in which no sum wraps around and the table has room is safe. -/
theorem bootmem_disjoint {s : State} {cs : List Call} (hok : RunOk step Fits (s, s.reserved) cs) :
    RunOk step Safe (s, s.reserved) cs := by
  refine hok.imp Recorded (fun _ _ => Recorded.step) (fun c o h hok => ?_) fun _ hq => hq
  cases o with
  | reserve base size => trivial
  | alloc size align =>
    obtain ⟨r, hr, hgrant, -⟩ := bootmemAlloc_spec hok
    refine ⟨r, hr, fun addr haddr => ?_⟩
    have hg := hgrant addr haddr
    exact ⟨hg.aligned, hg.available, fun q hq => hg.apart q (h q hq), hg.reserved⟩

/-- Sixteen megabytes from one megabyte on. -/
def sixteenMegabytes : State where
  available := [⟨0x100000, 0x1000000⟩]
  reserved := [⟨0, 0x100000⟩]
  totalPages := 0x1100
  lowmemEnd := 0x1100000
  stop := 0x1100000
  current := 0x100000

/-- A region is reserved, and two ranges are allocated behind it. -/
theorem bootmem_disjoint_two :
    RunOk step Safe (sixteenMegabytes, sixteenMegabytes.reserved)
      [.reserve 0x100000 0x800, .alloc 0x1000 0x1000] := by
  refine bootmem_disjoint ⟨show 1 < 256 by decide, ⟨?_, ⟨12, rfl⟩, ?_, ?_, ?_, ?_⟩, trivial⟩
  all_goals decide

/-- Four gigabytes less a page: the sum wraps around, and the range does not fit. -/
theorem bootmem_alloc_wraps :
    (bootmemAlloc sixteenMegabytes 0xFFFFF000 0x1000).map Prod.fst = some (some 0x100000) ∧
      ¬ Available sixteenMegabytes 0x100000 0xFFFFF000 := by
  refine ⟨by decide +kernel, ?_⟩
  rintro ⟨r, -, -, -, hstop⟩
  exact absurd hstop (by decide)

end LiteKernel.Mm.Bootmem
