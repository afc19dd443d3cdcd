import LiteKernel.Mm.VmaFlags

/-!
# Where `do_mmap` places a mapping

A call of `do_mmap` either takes the address it is given or scans for a gap, page by page
from the end of the heap. The checks add the length to the address in 32 bits, so a sum
beyond the address space looks like a small address and passes them.

Main results:

- Theorem `doMmap_correct_iff`: when a call does what its callers expect: a mapping lies between
  the first page and the limit of the process in addresses that no area had, it has the flags that
  were asked for, nothing else changes, and a search that gives up leaves no gap behind.
-/

namespace LiteKernel.Mm

open Lib

lemma exists_vmaAdd_eq {c : VmaCtx} (hok : c.heap.ok c.heap.next = true) (l : List VmArea)
    {start stop : Nat} (hlt : start < stop) (flags : VmFlags) :
    ∃ node id, (vmaAdd c l start stop flags).1 = vmaInsert ⟨node, start, stop, flags, id⟩ l := by
  unfold vmaAdd
  rw [if_neg (not_le.mpr hlt)]
  simp only
  split
  · have hok' : c.allocAnonVmaId.2.heap.ok c.allocAnonVmaId.2.heap.next = true := hok
    rw [vmaAddAnon_of_ok hok' l hlt]
    exact ⟨_, _, rfl⟩
  · rw [vmaAddAnon_of_ok hok l hlt]
    exact ⟨_, _, rfl⟩

/-! ## The scan for a gap -/

section

variable {l : List VmArea} {size limit fuel s t : Nat}

/-- The scan ends at the address: it is too high, or the range behind it is free. -/
def Decided (l : List VmArea) (size limit s : Nat) : Prop :=
  limit < wrap (s + size) ∨ ¬ Meets l s (wrap (s + size))

lemma vmaFindGapFrom_of_decided (h : Decided l size limit s) :
    vmaFindGapFrom l size limit (fuel + 1) s =
      some (if limit < wrap (s + size) then 0 else s) := by
  rw [vmaFindGapFrom]
  by_cases hhigh : limit < wrap (s + size)
  · rw [if_neg (not_le.mpr hhigh), if_pos hhigh]
  · rw [if_pos (not_lt.mp hhigh), if_neg hhigh,
      if_pos (vmaRangeFree_eq_true.mpr (h.resolve_left hhigh))]

lemma vmaFindGapFrom_of_not_decided (h : ¬ Decided l size limit s) :
    vmaFindGapFrom l size limit (fuel + 1) s =
      vmaFindGapFrom l size limit fuel (wrap (s + 0x1000)) := by
  obtain ⟨hlow, hmeets⟩ := not_or.mp h
  rw [vmaFindGapFrom, if_pos (not_lt.mp hlow),
    if_neg (Bool.eq_false_iff.mp (vmaRangeFree_eq_false.mpr (not_not.mp hmeets)))]

lemma vmaFindGapFrom_skip {k : Nat} (h : ∀ i < k, ¬ Decided l size limit (s + 0x1000 * i))
    (hs : s + 0x1000 * k ≤ 4294967296) :
    vmaFindGapFrom l size limit (fuel + k) (wrap s) =
      vmaFindGapFrom l size limit fuel (wrap (s + 0x1000 * k)) := by
  induction k generalizing s with
  | zero => rfl
  | succ k ih =>
    have hlt : s < 4294967296 := by omega
    have hrest : ∀ i < k, ¬ Decided l size limit (s + 0x1000 + 0x1000 * i) := by
      intro i hi
      have hnot := h (i + 1) (Nat.succ_lt_succ hi)
      rwa [Nat.mul_succ, add_comm (0x1000 * i), ← add_assoc] at hnot
    have hzero : ¬ Decided l size limit s := h 0 (Nat.zero_lt_succ k)
    rw [← add_assoc, wrap_of_lt hlt, vmaFindGapFrom_of_not_decided hzero, ih hrest (by omega),
      Nat.mul_succ, add_comm (0x1000 * k), ← add_assoc]

/-- The scan ends at the first page boundary at which it can. -/
lemma vmaFindGapFrom_first (hs : PageAligned s) (ht : PageAligned t) (hst : s ≤ t)
    (hlt : t < 4294967296) (hd : Decided l size limit t) (hfuel : (t - s) / 0x1000 < fuel) :
    ∃ u, PageAligned u ∧ s ≤ u ∧ u ≤ t ∧ Decided l size limit u ∧
      vmaFindGapFrom l size limit fuel s = some (if limit < wrap (u + size) then 0 else u) := by
  classical
  unfold PageAligned at hs ht
  have hex : ∃ k, Decided l size limit (s + 0x1000 * k) :=
    ⟨(t - s) / 0x1000, by rwa [show s + 0x1000 * ((t - s) / 0x1000) = t by omega]⟩
  have hle : Nat.find hex ≤ (t - s) / 0x1000 :=
    Nat.find_min' hex (by rwa [show s + 0x1000 * ((t - s) / 0x1000) = t by omega])
  have hfirst : Decided l size limit (s + 0x1000 * Nat.find hex) := Nat.find_spec hex
  obtain ⟨m, rfl⟩ : ∃ m, fuel = m + 1 + Nat.find hex := ⟨fuel - 1 - Nat.find hex, by omega⟩
  have hskip : vmaFindGapFrom l size limit (m + 1 + Nat.find hex) (wrap s) = _ :=
    vmaFindGapFrom_skip (fun i hi => Nat.find_min hex hi) (by omega)
  rw [wrap_of_lt (by omega), wrap_of_lt (by omega), vmaFindGapFrom_of_decided hfirst] at hskip
  refine ⟨s + 0x1000 * Nat.find hex, ?_, by omega, by omega, hfirst, hskip⟩
  unfold PageAligned
  omega

end

/-! ## The search -/

section

variable {l : List VmArea} {g len limit : Nat}
variable {s : Nat}

/-- A page boundary from `g` on with a free range of the length below the limit. -/
def Gap (l : List VmArea) (g len limit : Nat) : Prop :=
  ∃ b, g ≤ b ∧ PageAligned b ∧ b + len ≤ limit ∧ ¬ Meets l b (b + len)

/-- A range that ends with the address space seems to be free. -/
lemma decided_of_add_eq (h : s + len = 4294967296) : Decided l len limit s := by
  refine .inr ?_
  rintro ⟨v, -, hv, -⟩
  rw [h] at hv
  exact absurd hv (Nat.not_lt_zero _)

lemma not_decided_of_meets (hs : s + len ≤ limit) (hlimit : limit < 4294967296)
    (h : Meets l s (s + len)) : ¬ Decided l len limit s := by
  unfold Decided
  rw [wrap_of_lt (by omega)]
  exact not_or.mpr ⟨by omega, not_not.mpr h⟩

/-- The search finds a gap if there is one. -/
lemma vmaFindGapFrom_of_gap (hg : PageAligned g) (hlimit : limit < 4294967296)
    (hgap : Gap l g len limit) :
    ∃ a, vmaFindGapFrom l len limit 0x100000 g = some a ∧ g ≤ a ∧ PageAligned a ∧
      a + len ≤ limit ∧ ¬ Meets l a (a + len) := by
  obtain ⟨b, hgb, hb, hhigh, hfree⟩ := hgap
  have hd : Decided l len limit b := by
    unfold Decided
    rw [wrap_of_lt (by omega)]
    exact .inr hfree
  have hfuel : (b - g) / 0x1000 < 0x100000 := by omega
  obtain ⟨u, hu, hgu, hub, hdu, hscan⟩ := vmaFindGapFrom_first hg hb hgb (by omega) hd hfuel
  have hwrap : wrap (u + len) = u + len := wrap_of_lt (by omega)
  unfold Decided at hdu
  rw [hwrap] at hscan hdu
  rw [if_neg (by omega)] at hscan
  exact ⟨u, hscan, hgu, hu, by omega, hdu.resolve_left (by omega)⟩

/--
Without a gap the search gives up, unless the limit lies in the last page: then the range
that ends with the address space is taken.
-/
lemma vmaFindGapFrom_of_meets {fuel : Nat} (hs : PageAligned s) (hlen : PageAligned len)
    (hpos : 0 < len) (hroom : s + len < 4294967296) (hlimit : limit < 4294967296)
    (hmeets : ∀ t, PageAligned t → s ≤ t → t + len ≤ limit → Meets l t (t + len))
    (hfuel : (4294967296 - len - s) / 0x1000 < fuel) :
    vmaFindGapFrom l len limit fuel s =
      some (if limit < 0xFFFFF000 then 0 else 4294967296 - len) := by
  have hsmall : ∀ u, PageAligned u → s ≤ u → Decided l len limit u → ¬ u + len ≤ limit :=
    fun u hu hsu hd hle => not_decided_of_meets hle hlimit (hmeets u hu hsu hle) hd
  unfold PageAligned at hs hlen
  by_cases hlow : limit < 0xFFFFF000
  · -- the first end beyond the limit is an exact sum
    obtain ⟨t, ht⟩ : ∃ t, t = max s (limit / 0x1000 * 0x1000 + 0x1000 - len) := ⟨_, rfl⟩
    have hal : PageAligned t := by
      unfold PageAligned
      omega
    have hd : Decided l len limit t := by
      refine .inl ?_
      rw [wrap_of_lt (by omega)]
      omega
    have hfuel' : (t - s) / 0x1000 < fuel := by omega
    obtain ⟨u, hu, hsu, hut, hdu, hscan⟩ :=
      vmaFindGapFrom_first hs hal (by omega) (by omega) hd hfuel'
    have hnot := hsmall u hu hsu hdu
    rw [hscan, if_pos hlow, wrap_of_lt (by omega), if_pos (by omega)]
  · have ht : PageAligned (4294967296 - len) := by
      unfold PageAligned
      omega
    have hd : Decided l len limit (4294967296 - len) := decided_of_add_eq (by omega)
    obtain ⟨u, hu, hsu, hut, hdu, hscan⟩ :=
      vmaFindGapFrom_first hs ht (by omega) (by omega) hd hfuel
    have hnot := hsmall u hu hsu hdu
    unfold PageAligned at hu
    have hlast : u = 4294967296 - len := by omega
    have hwrap : wrap (u + len) = 0 := by
      rw [show u + len = 4294967296 by omega]
      rfl
    rw [hscan, if_neg hlow, hwrap, if_neg (Nat.not_lt_zero _), hlast]

/-- A sum that overflows hides the end of the range: the search takes the first such address. -/
lemma vmaFindGapFrom_of_overflow (hg : PageAligned g) (hlen : len < 4294967296)
    (hlimit : limit < 4294967296) (hover : 4294967296 ≤ g + len)
    (h : ∃ s, PageAligned s ∧ g ≤ s ∧ s < 4294967296 ∧ s + len ≤ 4294967296 + limit ∧
      ¬ Meets l s (s + len - 4294967296)) :
    ∃ a, vmaFindGapFrom l len limit 0x100000 g = some a ∧ g ≤ a := by
  obtain ⟨s, hs, hgs, hslt, hhigh, hfree⟩ := h
  have hwrap : ∀ u, g ≤ u → u < 4294967296 → wrap (u + len) = u + len - 4294967296 := by
    intro u hgu hult
    unfold wrap
    omega
  have hd : Decided l len limit s := by
    unfold Decided
    rw [hwrap s hgs hslt]
    exact .inr hfree
  have hfuel : (s - g) / 0x1000 < 0x100000 := by omega
  obtain ⟨u, hu, hgu, hus, hdu, hscan⟩ := vmaFindGapFrom_first hg hs hgs hslt hd hfuel
  rw [hwrap u hgu (by omega), if_neg (by omega)] at hscan
  exact ⟨u, hscan, hgu⟩

/--
If every overflowing range below the limit meets an area, the search gives up or goes round the
address space, where the area in the last page meets every range.
-/
lemma vmaFindGapFrom_of_overflow_meets (hg : PageAligned g) (hlen : PageAligned len)
    (hgw : g < 4294967296) (hlenw : len < 4294967296) (hlimit : limit < 4294967296)
    (hover : 4294967296 ≤ g + len)
    (h : ∀ s, PageAligned s → g ≤ s → s < 4294967296 → s + len ≤ 4294967296 + limit →
      Meets l s (s + len - 4294967296)) :
    vmaFindGapFrom l len limit 0x100000 g =
      some (if limit < 0xFFFFF000 then 0 else 4294967296 - len) := by
  have hwrap : ∀ u, g ≤ u → u < 4294967296 → wrap (u + len) = u + len - 4294967296 := by
    intro u hgu hult
    unfold wrap
    omega
  have hnot : ∀ u, PageAligned u → g ≤ u → u < 4294967296 → u + len ≤ 4294967296 + limit →
      ¬ Decided l len limit u := by
    intro u hu hgu hult hhigh
    unfold Decided
    rw [hwrap u hgu hult]
    exact not_or.mpr ⟨by omega, not_not.mpr (h u hu hgu hult hhigh)⟩
  have hg' := hg
  have hlen' := hlen
  unfold PageAligned at hg' hlen'
  by_cases hend : 4294967296 + limit < 0xFFFFF000 + len
  · -- the wrapped end passes the limit before the address wraps
    have ht : PageAligned 0xFFFFF000 := by decide
    have hd : Decided l len limit 0xFFFFF000 := by
      refine .inl ?_
      rw [hwrap 0xFFFFF000 (by omega) (by decide)]
      omega
    have hfuel : (0xFFFFF000 - g) / 0x1000 < 0x100000 := by omega
    obtain ⟨u, hu, hgu, hut, hdu, hscan⟩ :=
      vmaFindGapFrom_first hg ht (by omega) (by decide) hd hfuel
    have hhigh : ¬ u + len ≤ 4294967296 + limit := fun hle => hnot u hu hgu (by omega) hle hdu
    rw [hscan, hwrap u hgu (by omega), if_pos (by omega), if_pos (by omega)]
  · -- an area reaches from below `len` into the last page
    obtain ⟨v, hv, hstart, hstop⟩ := h 0xFFFFF000 (by decide) (by omega) (by decide) (by omega)
    have hmeets : ∀ t, t + len < 4294967296 → Meets l t (t + len) :=
      fun t ht => ⟨v, hv, by omega, by omega⟩
    have hgne : ¬ g + len = 4294967296 := by
      intro heq
      exact hnot g hg (le_refl g) hgw (by omega) (decided_of_add_eq heq)
    have hskip : vmaFindGapFrom l len limit (g / 0x1000 + (0x100000 - g / 0x1000)) (wrap g) = _ :=
      vmaFindGapFrom_skip (fun i hi => hnot _ (by unfold PageAligned; omega) (by omega) (by omega)
        (by omega)) (by omega)
    rw [wrap_of_lt hgw, show g / 0x1000 + (0x100000 - g / 0x1000) = 0x100000 by omega,
      show g + 0x1000 * (0x100000 - g / 0x1000) = 4294967296 by omega] at hskip
    rw [hskip, show wrap 4294967296 = 0 from rfl]
    exact vmaFindGapFrom_of_meets (by decide) hlen (by omega) (by omega) hlimit
      (fun t _ _ ht => hmeets t (by omega)) (by omega)

end

/-! ## What a call has to do -/

/-- The length of a mapping: rounded up to whole pages, as an integer. -/
def pageCeil (length : Nat) : Nat :=
  (length + 4095) / 4096 * 4096

/-- A mapping of `len` bytes can be placed at `b`. -/
structure MmStruct.Fits (mm : MmStruct) (len b : Nat) : Prop where
  low : 0x1000 ≤ b
  high : b + len ≤ mm.limit
  unmapped : ∀ x, b ≤ x → x < b + len → ∀ f, ¬ FlagsAt mm.mmap x f

/-- The mapping at `a` is the only difference between the two lists of areas. -/
structure MmStruct.Placed (mm mm' : MmStruct) (a len : Nat) (flags : VmFlags) : Prop
    extends mm.Fits len a where
  mapped : ∀ x, a ≤ x → x < a + len → ∀ f, FlagsAt mm'.mmap x f ↔ f = flags
  kept : ∀ x, ¬ (a ≤ x ∧ x < a + len) → ∀ f, FlagsAt mm'.mmap x f ↔ FlagsAt mm.mmap x f

/--
The call returns. An address it returns is the one it was given, if it was given one, and the
mapping is placed there; a search that returns `0` leaves no place behind.
-/
def MmapCorrect (c : VmaCtx) (mm : MmStruct) (addr length prot : Nat) : Prop :=
  ∃ a mm' c', doMmap c mm addr length prot = some (a, mm', c') ∧
    (a ≠ 0 → mm.Placed mm' a (pageCeil length) (protFlags prot) ∧ (addr ≠ 0 → a = addr)) ∧
    (addr = 0 → a = 0 → ∀ b, vmaGapStart mm ≤ b → ¬ mm.Fits (pageCeil length) b)

/-- The end of the range overflows, and neither the limit nor an area stops the call. -/
structure AddrOverflows (mm : MmStruct) (addr length : Nat) : Prop where
  pos : 0 < length
  word : pageCeil length < 4294967296
  limit : 0x1000 < mm.limit
  first : 0x1000 ≤ addr
  aligned : PageAligned addr
  wraps : 4294967296 ≤ addr + pageCeil length
  below : addr + pageCeil length ≤ 4294967296 + mm.limit
  free : ¬ Meets mm.mmap addr (addr + pageCeil length - 4294967296)

/--
There is no gap, and the search comes to a page boundary at which the end of the range
overflows and is taken for a free range below the limit.
-/
structure SearchOverflows (mm : MmStruct) (length : Nat) : Prop where
  pos : 0 < length
  word : pageCeil length < 4294967296
  start : vmaGapStart mm < mm.limit
  noGap : ¬ Gap mm.mmap (vmaGapStart mm) (pageCeil length) mm.limit
  taken : (vmaGapStart mm + pageCeil length ≤ mm.limit ∧ 0xFFFFF000 ≤ mm.limit) ∨
    (4294967296 ≤ vmaGapStart mm + pageCeil length ∧ (0xFFFFF000 ≤ mm.limit ∨
      ∃ s, PageAligned s ∧ vmaGapStart mm ≤ s ∧ s < 4294967296 ∧
        s + pageCeil length ≤ 4294967296 + mm.limit ∧
        ¬ Meets mm.mmap s (s + pageCeil length - 4294967296)))

/-- Where a mapping fits, the search looks for one and there is a gap at a page boundary. -/
def SeesGaps (mm : MmStruct) (length : Nat) : Prop :=
  (∃ b, vmaGapStart mm ≤ b ∧ mm.Fits (pageCeil length) b) →
    0 < length ∧ Gap mm.mmap (vmaGapStart mm) (pageCeil length) mm.limit

/-! ## The calls -/

section

variable {c : VmaCtx} {mm : MmStruct} {addr length prot a : Nat}

lemma pageAligned_pageCeil (length : Nat) : PageAligned (pageCeil length) := by
  unfold PageAligned pageCeil
  omega

lemma alignUp_eq_pageCeil (h : pageCeil length < 4294967296) :
    alignUp length = pageCeil length := by
  unfold pageCeil at h
  unfold alignUp alignDown wrap pageCeil
  omega

lemma alignUp_eq_zero (hlength : length < 4294967296) (h : 4294967296 ≤ pageCeil length) :
    alignUp length = 0 := by
  unfold pageCeil at h
  unfold alignUp alignDown wrap
  omega

lemma limit_lt (hstack : mm.startStack < 4294967296) : mm.limit < 4294967296 := by
  unfold MmStruct.limit
  split
  · exact hstack
  · decide

lemma first_le_vmaGapStart (mm : MmStruct) : 0x1000 ≤ vmaGapStart mm := by
  unfold vmaGapStart
  simp only
  split_ifs <;> omega

lemma mmapCorrect_of_zero (h : doMmap c mm addr length prot = some (0, mm, c)) :
    MmapCorrect c mm addr length prot ↔
      (addr = 0 → ∀ b, vmaGapStart mm ≤ b → ¬ mm.Fits (pageCeil length) b) := by
  constructor
  · rintro ⟨a, mm', c', hr, -, hsearch⟩ haddr
    rw [h] at hr
    cases hr
    exact hsearch haddr rfl
  · intro hnone
    exact ⟨0, mm, c, h, fun hne => absurd rfl hne, fun haddr _ => hnone haddr⟩

/-- A mapping that reaches beyond the limit is misplaced. -/
lemma not_mmapCorrect_of_high {mm' : MmStruct} {c' : VmaCtx}
    (h : doMmap c mm addr length prot = some (a, mm', c')) (ha : a ≠ 0)
    (hhigh : mm.limit < a + pageCeil length) : ¬ MmapCorrect c mm addr length prot := by
  rintro ⟨a', mm'', c'', hr, hplaced, -⟩
  rw [h] at hr
  cases hr
  exact absurd (hplaced ha).1.high (not_le.mpr hhigh)

/-- A call without a length, with one that overflows or with no room returns `0`. -/
lemma doMmap_refused (h : length = 0 ∨ alignUp length = 0 ∨ mm.limit ≤ 0x1000) :
    doMmap c mm addr length prot = some (0, mm, c) := by
  unfold doMmap
  simp only
  split_ifs
  · rfl
  · rfl
  · rfl
  · omega

lemma doMmap_of_addr (c : VmaCtx) (prot : Nat) (hpos : 0 < length)
    (hword : pageCeil length < 4294967296) (hlimit : 0x1000 < mm.limit)
    (ha : doMmapAddr mm addr (pageCeil length) = some a) :
    ∃ mm' c', doMmap c mm addr length prot = some (a, mm', c') ∧
      (a = 0 → mm' = mm ∧ c' = c) ∧
      (a ≠ 0 → mm'.mmap =
        (vmaAdd c mm.mmap a (wrap (a + pageCeil length)) (protFlags prot)).1) := by
  have hlen : alignUp length ≠ 0 := by
    rw [alignUp_eq_pageCeil hword]
    unfold pageCeil
    omega
  unfold doMmap
  rw [if_neg (by omega)]
  rw [if_neg hlen, if_neg (by omega), alignUp_eq_pageCeil hword, ha]
  simp only
  split_ifs with hzero
  · exact ⟨mm, c, by rw [hzero], fun _ => ⟨rfl, rfl⟩, fun hne => absurd hzero hne⟩
  · exact ⟨_, _, rfl, fun h => absurd h hzero, fun _ => rfl⟩

lemma doMmap_of_addr_zero (hpos : 0 < length) (hword : pageCeil length < 4294967296)
    (hlimit : 0x1000 < mm.limit) (ha : doMmapAddr mm addr (pageCeil length) = some 0) :
    doMmap c mm addr length prot = some (0, mm, c) := by
  obtain ⟨mm', c', hr, hzero, -⟩ := doMmap_of_addr c prot hpos hword hlimit ha
  obtain ⟨rfl, rfl⟩ := hzero rfl
  exact hr

/-- A free range below the limit is mapped, and nothing else changes. -/
lemma mmapCorrect_of_free (hok : c.heap.ok c.heap.next = true) (hl : Intervals mm.mmap)
    (hlimit : mm.limit < 4294967296) (hpos : 0 < length) (hlow : 0x1000 ≤ a)
    (hhigh : a + pageCeil length ≤ mm.limit)
    (hfree : ¬ Meets mm.mmap a (a + pageCeil length))
    (ha : doMmapAddr mm addr (pageCeil length) = some a) (hsame : addr ≠ 0 → a = addr) :
    MmapCorrect c mm addr length prot := by
  have hlen : 0 < pageCeil length := by
    unfold pageCeil
    omega
  obtain ⟨mm', c', hr, -, hmmap⟩ :=
    doMmap_of_addr c prot hpos (by omega) (by omega) ha
  have hne : a ≠ 0 := by omega
  obtain ⟨node, id, hadd⟩ := exists_vmaAdd_eq hok mm.mmap
    (show a < a + pageCeil length by omega) (protFlags prot)
  have hflags : ∀ x f, FlagsAt mm'.mmap x f ↔
      ((a ≤ x ∧ x < a + pageCeil length) ∧ protFlags prot = f) ∨ FlagsAt mm.mmap x f := by
    intro x f
    rw [hmmap hne, wrap_of_lt (by omega), hadd, flagsAt_vmaInsert (by simp only; omega) hl,
      contains_iff]
  have hnone : ∀ x, a ≤ x → x < a + pageCeil length → ∀ f, ¬ FlagsAt mm.mmap x f :=
    fun x hx hx' f => not_flagsAt_of_not_meets hfree hx hx'
  refine ⟨a, mm', c', hr, fun _ => ⟨⟨⟨hlow, hhigh, hnone⟩, ?_, ?_⟩, hsame⟩,
    fun _ hzero => absurd hzero hne⟩
  · intro x hx hx' f
    rw [hflags, or_iff_left (hnone x hx hx' f), and_iff_right ⟨hx, hx'⟩, eq_comm]
  · intro x hx f
    rw [hflags, or_iff_right (fun h => hx h.1)]

/-- The end of the range is taken for a smaller address, and nothing stops the call. -/
def Overflows (mm : MmStruct) (addr length : Nat) : Prop :=
  if addr ≠ 0 then AddrOverflows mm addr length else SearchOverflows mm length

/-- The range that is given, or some gap behind the heap, is free and below the limit. -/
def HasPlace (mm : MmStruct) (addr length : Nat) : Prop :=
  0 < length ∧
    if addr ≠ 0 then 0x1000 ≤ addr ∧ PageAligned addr ∧ addr + pageCeil length ≤ mm.limit ∧
      ¬ Meets mm.mmap addr (addr + pageCeil length)
    else Gap mm.mmap (vmaGapStart mm) (pageCeil length) mm.limit

/--
How a call ends: with a range beyond the limit because a sum overflows, in a free range below the
limit, or with `0` because there is no such range.
-/
def MmapOutcome (c : VmaCtx) (mm : MmStruct) (addr length prot : Nat) : Prop :=
  (Overflows mm addr length ∧ ∃ a mm' c', doMmap c mm addr length prot = some (a, mm', c') ∧
    a ≠ 0 ∧ mm.limit < a + pageCeil length) ∨
  (¬ Overflows mm addr length ∧ HasPlace mm addr length ∧ ∃ a,
    doMmapAddr mm addr (pageCeil length) = some a ∧ 0x1000 ≤ a ∧
    a + pageCeil length ≤ mm.limit ∧ ¬ Meets mm.mmap a (a + pageCeil length) ∧
    (addr ≠ 0 → a = addr)) ∨
  (¬ Overflows mm addr length ∧ ¬ HasPlace mm addr length ∧
    doMmap c mm addr length prot = some (0, mm, c))

/-- With a given address only an overflow of the end of the range is harmful. -/
lemma mmapOutcome_of_addr (hlimit : mm.limit < 4294967296) (haddr : addr < 4294967296)
    (hne : addr ≠ 0) (hlength : length < 4294967296) : MmapOutcome c mm addr length prot := by
  unfold MmapOutcome Overflows HasPlace
  simp only [if_pos hne]
  by_cases hcheck : length = 0 ∨ alignUp length = 0 ∨ mm.limit ≤ 0x1000
  · -- the call is refused before it looks at the address
    refine .inr (.inr ⟨fun h => ?_, fun h => ?_, doMmap_refused hcheck⟩)
    · have hpos := h.pos
      have hroom := h.limit
      have hup := alignUp_eq_pageCeil h.word
      unfold pageCeil at hup
      omega
    · have hup : pageCeil length < 4294967296 → _ := alignUp_eq_pageCeil
      unfold pageCeil at hup h
      omega
  have hpos : 0 < length := by omega
  have hroom : 0x1000 < mm.limit := by omega
  have hword : pageCeil length < 4294967296 := by
    refine Nat.lt_of_not_le fun hle => hcheck (.inr (.inl ?_))
    exact alignUp_eq_zero hlength hle
  have hrefused : doMmapAddr mm addr (pageCeil length) = some 0 →
      doMmap c mm addr length prot = some (0, mm, c) := doMmap_of_addr_zero hpos hword hroom
  by_cases hlow : addr < 0x1000
  · refine .inr (.inr ⟨fun h => absurd h.first (by omega), by omega, hrefused ?_⟩)
    rw [doMmapAddr, if_pos hne, if_pos hlow]
  by_cases hal : PageAligned addr
  swap
  · refine .inr (.inr ⟨fun h => hal h.aligned, fun h => hal h.2.2.1, hrefused ?_⟩)
    rw [doMmapAddr, if_pos hne, if_neg hlow, if_pos hal]
  set stop := wrap (addr + pageCeil length) with hstop
  unfold wrap at hstop
  have haddr' : doMmapAddr mm addr (pageCeil length) =
      if stop > mm.limit then some 0
      else if vmaRangeFree mm.mmap addr stop then some addr
      else some 0 := by
    rw [doMmapAddr, if_pos hne, if_neg hlow, if_neg (not_not.mpr hal)]
  split at haddr'
  · refine .inr (.inr ⟨fun h => ?_, by omega, hrefused haddr'⟩)
    have hwraps := h.wraps
    have hbelow := h.below
    omega
  by_cases hmeets : Meets mm.mmap addr stop
  · rw [vmaRangeFree_eq_false.mpr hmeets] at haddr'
    refine .inr (.inr ⟨fun h => ?_, fun h => h.2.2.2.2 ?_, hrefused haddr'⟩)
    · have hwraps := h.wraps
      exact h.free (by rwa [show addr + pageCeil length - 4294967296 = stop by omega])
    · rwa [show addr + pageCeil length = stop by omega]
  rw [vmaRangeFree_eq_true.mpr hmeets, if_pos rfl] at haddr'
  by_cases hover : 4294967296 ≤ addr + pageCeil length
  · obtain ⟨mm', c', hr, -, -⟩ := doMmap_of_addr c prot hpos hword hroom haddr'
    rw [show stop = addr + pageCeil length - 4294967296 by omega] at hmeets
    exact .inl ⟨⟨hpos, hword, hroom, by omega, hal, hover, by omega, hmeets⟩,
      addr, mm', c', hr, hne, by omega⟩
  · rw [show stop = addr + pageCeil length by omega] at hmeets
    exact .inr (.inl ⟨fun h => hover h.wraps, ⟨hpos, by omega, hal, by omega, hmeets⟩, addr, haddr',
      by omega, by omega, hmeets, fun _ => rfl⟩)

lemma mmapOutcome_of_search (hlimit : mm.limit < 4294967296) (hlength : length < 4294967296) :
    MmapOutcome c mm 0 length prot := by
  have hfirst := first_le_vmaGapStart mm
  have hgw := vmaGapStart_lt mm
  have hg := vmaGapStart_pageAligned mm
  have hlenal := pageAligned_pageCeil length
  by_cases hcheck : length = 0 ∨ 4294967296 ≤ pageCeil length ∨ mm.limit ≤ vmaGapStart mm
  · -- there is no search
    have hzero : doMmap c mm 0 length prot = some (0, mm, c) := by
      by_cases hrefused : length = 0 ∨ alignUp length = 0 ∨ mm.limit ≤ 0x1000
      · exact doMmap_refused hrefused
      · have hword : pageCeil length < 4294967296 := by
          refine Nat.lt_of_not_le fun hle => hrefused (.inr (.inl ?_))
          exact alignUp_eq_zero hlength hle
        refine doMmap_of_addr_zero (by omega) hword (by omega) ?_
        unfold doMmapAddr vmaFindGap
        rw [if_neg (not_not.mpr rfl)]
        split_ifs
        · rfl
        · rfl
        · omega
    refine .inr (.inr ⟨fun h => ?_, ?_, hzero⟩)
    · have hpos := h.pos
      have hword := h.word
      have hstart := h.start
      omega
    · rintro ⟨hpos, b, hgb, -, hhigh, -⟩
      unfold pageCeil at hhigh hcheck
      omega
  have hpos : 0 < length := by omega
  have hlen : 0 < pageCeil length := by
    unfold pageCeil
    omega
  have hword : pageCeil length < 4294967296 := by omega
  have hroom : 0x1000 < mm.limit := by omega
  set scan := vmaFindGapFrom mm.mmap (pageCeil length) mm.limit 0x100000 (vmaGapStart mm) with hscan
  have haddr : doMmapAddr mm 0 (pageCeil length) = scan := by
    rw [doMmapAddr, if_neg (not_not.mpr rfl), vmaFindGap, if_neg (by omega), if_neg (by omega)]
  have hzero : scan = some 0 → doMmap c mm 0 length prot = some (0, mm, c) := fun h =>
    doMmap_of_addr_zero hpos hword hroom (haddr.trans h)
  have hhigh : ∀ a, scan = some a → a ≠ 0 → mm.limit < a + pageCeil length →
      ∃ a mm' c', doMmap c mm 0 length prot = some (a, mm', c') ∧ a ≠ 0 ∧
        mm.limit < a + pageCeil length := by
    intro a ha hne hlt
    obtain ⟨mm', c', hr, -, -⟩ := doMmap_of_addr c prot hpos hword hroom (haddr.trans ha)
    exact ⟨a, mm', c', hr, hne, hlt⟩
  by_cases hgap : Gap mm.mmap (vmaGapStart mm) (pageCeil length) mm.limit
  · obtain ⟨a, ha, hga, -, hend, hfree⟩ := vmaFindGapFrom_of_gap hg hlimit hgap
    exact .inr (.inl ⟨fun h => h.noGap hgap, ⟨hpos, hgap⟩, a, haddr.trans ha, by omega, hend,
      hfree, fun h => absurd rfl h⟩)
  have hnogap : ¬ (0 < length ∧ Gap mm.mmap (vmaGapStart mm) (pageCeil length) mm.limit) :=
    fun h => hgap h.2
  -- the search ends with `0`, or it takes the range that ends with the address space
  have hlast : scan = some (if mm.limit < 0xFFFFF000 then 0 else 4294967296 - pageCeil length) →
      (SearchOverflows mm length ↔ 0xFFFFF000 ≤ mm.limit) → MmapOutcome c mm 0 length prot := by
    intro hend hover
    split_ifs at hend with hlow
    · exact .inr (.inr ⟨fun h => absurd (hover.mp h) (not_le.mpr hlow), hnogap, hzero hend⟩)
    · exact .inl ⟨hover.mpr (not_lt.mp hlow), hhigh _ hend (by omega) (by omega)⟩
  by_cases hbelow : vmaGapStart mm + pageCeil length ≤ mm.limit
  · refine hlast (vmaFindGapFrom_of_meets hg hlenal hlen (by omega) hlimit ?_ (by omega)) ?_
    · intro t ht hgt hle
      exact not_not.mp fun hfree => hgap ⟨t, hgt, ht, hle, hfree⟩
    · constructor
      · intro h
        rcases h.taken with h | h
        · exact h.2
        · omega
      · intro h
        exact ⟨hpos, hword, by omega, hgap, Or.inl ⟨hbelow, h⟩⟩
  by_cases hover : 4294967296 ≤ vmaGapStart mm + pageCeil length
  · by_cases hfree : ∃ s, PageAligned s ∧ vmaGapStart mm ≤ s ∧ s < 4294967296 ∧
        s + pageCeil length ≤ 4294967296 + mm.limit ∧
        ¬ Meets mm.mmap s (s + pageCeil length - 4294967296)
    · obtain ⟨a, ha, hga⟩ := vmaFindGapFrom_of_overflow hg hword hlimit hover hfree
      exact .inl ⟨⟨hpos, hword, by omega, hgap, Or.inr ⟨hover, Or.inr hfree⟩⟩,
        hhigh a ha (by omega) (by omega)⟩
    · refine hlast (vmaFindGapFrom_of_overflow_meets hg hlenal hgw hword hlimit hover ?_) ?_
      · intro s hs hgs hlt hle
        exact not_not.mp fun h => hfree ⟨s, hs, hgs, hlt, hle, h⟩
      · constructor
        · intro h
          rcases h.taken with h | h
          · exact h.2
          · exact h.2.resolve_right hfree
        · intro h
          exact ⟨hpos, hword, by omega, hgap, Or.inr ⟨hover, Or.inl h⟩⟩
  · -- the first end is exact and beyond the limit
    have hd : Decided mm.mmap (pageCeil length) mm.limit (vmaGapStart mm) := by
      refine .inl ?_
      rw [wrap_of_lt (by omega)]
      omega
    rw [vmaFindGapFrom_of_decided hd, wrap_of_lt (by omega), if_pos (by omega)] at hscan
    refine .inr (.inr ⟨fun h => ?_, hnogap, hzero hscan⟩)
    have htaken := h.taken
    omega

lemma mmapOutcome (c : VmaCtx) (hlimit : mm.limit < 4294967296) (haddr : addr < 4294967296)
    (hlength : length < 4294967296) (prot : Nat) : MmapOutcome c mm addr length prot := by
  by_cases hzero : addr = 0
  · rw [hzero]
    exact mmapOutcome_of_search hlimit hlength
  · exact mmapOutcome_of_addr hlimit haddr hzero hlength

end

/-- In a list of whole pages the search sees every gap. -/
lemma seesGaps_of_pages {mm : MmStruct} {length : Nat}
    (hpages : ∀ v ∈ mm.mmap, PageAligned v.vmStart ∧ PageAligned v.vmEnd ∧ v.vmStart < v.vmEnd)
    (hpos : 0 < length) : SeesGaps mm length := by
  rintro ⟨b, hgb, hfits⟩
  have hg := vmaGapStart_pageAligned mm
  have hhigh := hfits.high
  unfold PageAligned at hg hpages
  refine ⟨hpos, b / 0x1000 * 0x1000, by omega, by unfold PageAligned; omega, by omega, ?_⟩
  -- an area that meets the range from the page of `b` on has an address in the range from `b` on
  rintro ⟨v, hv, hstart, hstop⟩
  obtain ⟨hvs, hve, hlt⟩ := hpages v hv
  have hlen : 0x1000 ≤ pageCeil length ∧ pageCeil length % 0x1000 = 0 := by
    unfold pageCeil
    omega
  refine hfits.unmapped (max b v.vmStart) (by omega) (by omega) v.vmFlags ⟨v, hv, ?_, rfl⟩
  rw [contains_iff]
  omega

/--
A call of `do_mmap` on a list of intervals, with memory for the new area, returns and places the
mapping as its callers expect exactly when the end of a given range does not overflow unnoticed,
the search for a gap does not come to such a range, and the search sees every gap.
-/
theorem doMmap_correct_iff {c : VmaCtx} {mm : MmStruct} (hok : ∀ n, c.heap.ok n = true)
    (hl : Intervals mm.mmap) (hstack : mm.startStack < 4294967296) {addr length : Nat}
    (haddr : addr < 4294967296) (hlength : length < 4294967296) (prot : Nat) :
    MmapCorrect c mm addr length prot ↔
      (addr ≠ 0 → ¬ AddrOverflows mm addr length) ∧
      (addr = 0 → ¬ SearchOverflows mm length ∧ SeesGaps mm length) := by
  have hover : Overflows mm addr length ↔ (addr ≠ 0 ∧ AddrOverflows mm addr length) ∨
      (addr = 0 ∧ SearchOverflows mm length) := by
    by_cases hzero : addr = 0 <;> simp [Overflows, hzero]
  rcases mmapOutcome c (limit_lt hstack) haddr hlength prot with
    ⟨hov, a, mm', c', hr, hne, hhigh⟩ | ⟨hov, hplace, a, ha, hlow, hhigh, hfree, hsame⟩ |
    ⟨hov, hplace, hr⟩
  · refine iff_of_false (not_mmapCorrect_of_high hr hne hhigh) ?_
    tauto
  · refine iff_of_true (mmapCorrect_of_free (hok _) hl (limit_lt hstack) hplace.1 hlow hhigh hfree
      ha hsame) ⟨by tauto, fun hzero => ⟨by tauto, fun _ => ?_⟩⟩
    simpa [HasPlace, hzero] using hplace
  · rw [mmapCorrect_of_zero hr]
    constructor
    · refine fun hnone => ⟨by tauto, fun hzero => ⟨by tauto, ?_⟩⟩
      rintro ⟨b, hb, hfits⟩
      exact absurd hfits (hnone hzero b hb)
    · intro h hzero b hb hfits
      have hgap := (h.2 hzero).2 ⟨b, hb, hfits⟩
      exact hplace (by simpa [HasPlace, hzero] using hgap)

/-- A process with two pages mapped where the search starts. -/
def mappedVmaState : VmaState :=
  emptyVmaState.mmap 0x400000 0x2000 3

theorem mappedVmaState_placed :
    mappedVmaState.mm.mmap = [⟨0, 0x400000, 0x402000, VmFlags.rw, 1⟩] ∧
      MmapCorrect mappedVmaState.ctx mappedVmaState.mm 0 0x5000 1 ∧
      MmapCorrect mappedVmaState.ctx mappedVmaState.mm 0x10000000 0x5000 1 := by
  have hmm : mappedVmaState.mm.mmap = [⟨0, 0x400000, 0x402000, VmFlags.rw, 1⟩] := by decide
  have hok : ∀ n, mappedVmaState.ctx.heap.ok n = true := by
    intro n
    rfl
  have hl : Intervals mappedVmaState.mm.mmap := by simp [hmm, Intervals]
  have hpages : ∀ v ∈ mappedVmaState.mm.mmap,
      PageAligned v.vmStart ∧ PageAligned v.vmEnd ∧ v.vmStart < v.vmEnd := by
    rw [hmm]
    decide
  refine ⟨hmm, (doMmap_correct_iff hok hl (by decide) (by decide) (by decide) 1).mpr ?_,
    (doMmap_correct_iff hok hl (by decide) (by decide) (by decide) 1).mpr ?_⟩
  · refine ⟨fun h => absurd rfl h, fun _ => ⟨?_, seesGaps_of_pages hpages (by decide)⟩⟩
    intro h
    have htaken := h.taken
    have hlimit : mappedVmaState.mm.limit = 0xBFFF8000 := by decide
    have hg : vmaGapStart mappedVmaState.mm = 0x400000 := by decide
    rw [hlimit, hg] at htaken
    unfold pageCeil at htaken
    omega
  · refine ⟨fun _ h => ?_, fun h => absurd h (by decide)⟩
    exact absurd h.wraps (by decide)

/-- The search answers `0x400000` for almost 4 GiB: the end of the range is `0`. -/
theorem emptyVmaState_not_mmapCorrect :
    (∀ n, emptyVmaState.ctx.heap.ok n = true) ∧ VmaInv emptyVmaState.mm.mmap ∧
      (doMmap emptyVmaState.ctx emptyVmaState.mm 0 0xFFC00000 3).map Prod.fst = some 0x400000 ∧
      ¬ MmapCorrect emptyVmaState.ctx emptyVmaState.mm 0 0xFFC00000 3 := by
  have hval : (doMmap emptyVmaState.ctx emptyVmaState.mm 0 0xFFC00000 3).map Prod.fst =
      some 0x400000 := by
    decide +kernel
  refine ⟨emptyVmaState_ok, emptyVmaState_inv, hval, ?_⟩
  rintro ⟨a, mm', c', hr, hplaced, -⟩
  rw [hr] at hval
  obtain rfl : a = 0x400000 := Option.some.inj hval
  have hhigh := (hplaced (by decide)).1.high
  exact absurd hhigh (by decide)

end LiteKernel.Mm
