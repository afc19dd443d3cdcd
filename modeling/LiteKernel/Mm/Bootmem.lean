import LiteKernel.Lib.Word
import Mathlib.Data.List.Sort
import Mathlib.Data.Set.Card

/-!
# The boot memory map of `mm/bootmem.c`

`bootmem_init` collects the available regions, sorts them by exchanging entries and merges those
that overlap or touch.

The arrays are lists; the entry that `bootmem_coalesce_available` writes is never one that it still
has to read, so the regions written so far are a list of their own, the last one first.

Main results:

- Theorem `memory_map_accounting`: the merged map has the same bytes, and `bootmem_present_pages`
  counts the pages of a range that lie in it.
-/

namespace LiteKernel.Mm.Bootmem

open Lib List

/-- `struct bootmem_region`. -/
structure Region where
  base : Nat
  size : Nat
  deriving DecidableEq, Repr

/-- The fields of `struct bootmem_data` that the functions below read. -/
structure State where
  available : List Region
  reserved : List Region
  totalPages : Nat
  lowmemEnd : Nat
  stop : Nat
  current : Nat

/-- The test of `bootmem_is_reserved` and of `bootmem_find_reserved_overlap`. -/
def Region.overlaps (base size : Nat) (r : Region) : Bool :=
  !(decide (wrap (base + size) ≤ r.base) || decide (base ≥ wrap (r.base + r.size)))

/-- `bootmem_is_reserved`, for the table of reserved regions. -/
def bootmemIsReserved (reserved : List Region) (base size : Nat) : Bool :=
  reserved.any (Region.overlaps base size)

/-! ## Sorting and merging -/

/-- The inner loop of `bootmem_sort_available`, with the entry `x` at the outer index. -/
def sortPass : Region → List Region → Region × List Region
  | x, [] => (x, [])
  | x, y :: l =>
    if y.base < x.base then ((sortPass y l).1, x :: (sortPass y l).2)
    else ((sortPass x l).1, y :: (sortPass x l).2)

/-- The outer loop of `bootmem_sort_available`, with the number of entries that are left. -/
def sortFrom : Nat → List Region → List Region
  | n + 1, x :: l => (sortPass x l).1 :: sortFrom n (sortPass x l).2
  | _, l => l

def bootmemSortAvailable (l : List Region) : List Region :=
  sortFrom l.length l

/-- One round of the loop of `bootmem_coalesce_available`. -/
def coalesce (out : List Region) (r : Region) : List Region :=
  if r.size = 0 then out
  else
    match out with
    | [] => [r]
    | cur :: rest =>
      let curEnd := wrap (cur.base + cur.size)
      let stop := wrap (r.base + r.size)
      if r.base ≤ curEnd then
        if stop > curEnd then { cur with size := wrap (stop + wordSize - cur.base) } :: rest
        else cur :: rest
      else r :: cur :: rest

def bootmemCoalesceAvailable (l : List Region) : List Region :=
  if l.length < 2 then l else (l.foldl coalesce []).reverse

/-! ## Counting -/

/-- The loop of `bootmem_present_pages`; the count stays below the number of pages. -/
def presentLoop (startAddr endAddr : Nat) : List Region → Nat → Nat
  | [], pages => pages
  | r :: l, pages =>
    let rend := wrap (r.base + r.size)
    if rend ≤ startAddr then presentLoop startAddr endAddr l pages
    else if r.base ≥ endAddr then pages
    else
      let a := alignUp (max r.base startAddr)
      let b := alignDown (min rend endAddr)
      presentLoop startAddr endAddr l (if b > a then pages + (b - a) / pageSize else pages)

def bootmemPresentPages (s : State) (startPfn endPfn : Nat) : Nat :=
  let endPfn := if endPfn > s.totalPages then s.totalPages else endPfn
  if startPfn ≥ endPfn then 0
  else
    let startAddr := wrap (startPfn * pageSize)
    let endAddr := wrap (endPfn * pageSize)
    if startAddr ≥ s.lowmemEnd then 0
    else
      let endAddr := if endAddr > s.lowmemEnd then s.lowmemEnd else endAddr
      presentLoop startAddr endAddr s.available 0

/-- The end of the highest region. -/
def maxRamEnd (l : List Region) : Nat :=
  l.foldl (fun m r => if wrap (r.base + r.size) > m then wrap (r.base + r.size) else m) 0

/-- The end of `bootmem_init`, for the available regions of the memory map in its order. -/
def bootmemInit (l reserved : List Region) (kernelEnd : Nat) : State :=
  let ramEnd := if maxRamEnd l = 0 then kernelEnd else maxRamEnd l
  let lowmemEnd := min ramEnd 0x38000000
  { available := bootmemCoalesceAvailable (bootmemSortAvailable l)
    reserved := reserved
    totalPages := lowmemEnd / pageSize
    lowmemEnd := lowmemEnd
    stop := lowmemEnd
    current := min kernelEnd lowmemEnd }

/-! ## The order of the regions -/

/-- The regions do not wrap around. -/
def Exact (l : List Region) : Prop :=
  ∀ r ∈ l, r.base + r.size < wordSize

/-- The address lies in a region. -/
def Covered (l : List Region) (x : Nat) : Prop :=
  ∃ r ∈ l, r.base ≤ x ∧ x < r.base + r.size

/-- Each region ends before the next begins. -/
def Separated (l : List Region) : Prop :=
  l.Pairwise fun a b => a.base + a.size < b.base

variable {l : List Region} {x : Nat}

lemma sortPass_perm (r : Region) (l : List Region) :
    ((sortPass r l).1 :: (sortPass r l).2).Perm (r :: l) := by
  induction l generalizing r with
  | nil => exact List.Perm.refl _
  | cons y l ih =>
    unfold sortPass
    split
    · exact (List.Perm.swap _ _ _).trans ((ih y).cons r)
    · exact ((List.Perm.swap _ _ _).trans ((ih r).cons y)).trans (List.Perm.swap _ _ _)

lemma sortPass_le (r : Region) (l : List Region) :
    (sortPass r l).1.base ≤ r.base ∧ ∀ y ∈ (sortPass r l).2, (sortPass r l).1.base ≤ y.base := by
  induction l generalizing r with
  | nil => exact ⟨le_rfl, fun _ h => absurd h not_mem_nil⟩
  | cons y l ih =>
    unfold sortPass
    split <;> dsimp only
    · rename_i hlt
      obtain ⟨hle, hrest⟩ := ih y
      exact ⟨by omega, forall_mem_cons.mpr ⟨by omega, hrest⟩⟩
    · rename_i hge
      obtain ⟨hle, hrest⟩ := ih r
      exact ⟨hle, forall_mem_cons.mpr ⟨by omega, hrest⟩⟩

lemma sortFrom_perm (n : Nat) (l : List Region) : (sortFrom n l).Perm l := by
  induction n generalizing l with
  | zero =>
    exact List.Perm.refl _
  | succ n ih =>
    cases l with
    | nil => exact List.Perm.refl _
    | cons r l => exact ((ih _).cons _).trans (sortPass_perm r l)

lemma sortFrom_sorted {n : Nat} (hn : l.length ≤ n) :
    (sortFrom n l).Pairwise fun a b => a.base ≤ b.base := by
  induction n generalizing l with
  | zero =>
    rw [eq_nil_of_length_eq_zero (Nat.le_zero.mp hn)]
    exact List.Pairwise.nil
  | succ n ih =>
    cases l with
    | nil => exact List.Pairwise.nil
    | cons r l =>
      have hlen := (sortPass_perm r l).length_eq
      simp only [length_cons] at hlen hn
      refine pairwise_cons.mpr ⟨fun y hy => ?_, ih (by omega)⟩
      exact (sortPass_le r l).2 y ((sortFrom_perm n _).mem_iff.mp hy)

lemma Exact.perm {m : List Region} (h : Exact l) (hp : m.Perm l) : Exact m :=
  fun r hr => h r (hp.mem_iff.mp hr)

/-! ## Merging keeps the union -/

/-- What the loop has written: regions that are not empty, apart, and the last one first. -/
structure Merged (out : List Region) : Prop where
  apart : out.Pairwise fun a b => b.base + b.size < a.base
  exact : Exact out

lemma coalesce_spec {out : List Region} {r : Region} (h : Merged out)
    (hr : r.base + r.size < wordSize) (hle : ∀ a ∈ out, a.base ≤ r.base) :
    Merged (coalesce out r) ∧ (∀ a ∈ coalesce out r, a.base ≤ r.base) ∧
      ∀ x, Covered (coalesce out r) x ↔ Covered out x ∨ (r.base ≤ x ∧ x < r.base + r.size) := by
  unfold coalesce
  split
  · refine ⟨h, hle, fun x => ?_⟩
    have hempty : ¬ (r.base ≤ x ∧ x < r.base + r.size) := by omega
    simp [hempty]
  cases out with
  | nil =>
    refine ⟨⟨pairwise_singleton _ _, ?_⟩, ?_, fun x => ?_⟩
    · exact fun a ha => mem_singleton.mp ha ▸ hr
    · exact fun a ha => mem_singleton.mp ha ▸ le_rfl
    · simp [Covered]
  | cons cur rest =>
    obtain ⟨hcur, hrest⟩ := pairwise_cons.mp h.apart
    have hce := h.exact cur mem_cons_self
    have hcle := hle cur mem_cons_self
    have hend : wrap (cur.base + cur.size) = cur.base + cur.size := wrap_of_lt hce
    have hstop : wrap (r.base + r.size) = r.base + r.size := wrap_of_lt hr
    simp only [hend, hstop]
    split_ifs with hmerge hgrow
    · have hsize : wrap (r.base + r.size + wordSize - cur.base) = r.base + r.size - cur.base := by
        unfold wrap wordSize at *
        omega
      rw [hsize]
      refine ⟨⟨pairwise_cons.mpr ⟨hcur, hrest⟩, ?_⟩, ?_, fun x => ?_⟩
      · refine forall_mem_cons.mpr ⟨?_, fun a ha => h.exact a (mem_cons_of_mem _ ha)⟩
        show cur.base + (r.base + r.size - cur.base) < wordSize
        omega
      · exact forall_mem_cons.mpr ⟨hcle, fun a ha => hle a (mem_cons_of_mem _ ha)⟩
      · have hgrown : cur.base ≤ x ∧ x < cur.base + (r.base + r.size - cur.base) ↔
            (cur.base ≤ x ∧ x < cur.base + cur.size) ∨ (r.base ≤ x ∧ x < r.base + r.size) := by
          omega
        simp only [Covered, exists_mem_cons_iff, hgrown]
        exact or_right_comm
    · refine ⟨h, hle, fun x => ⟨Or.inl, ?_⟩⟩
      rintro (hx | hx)
      · exact hx
      · exact ⟨cur, mem_cons_self, by omega, by omega⟩
    · refine ⟨⟨pairwise_cons.mpr ⟨?_, h.apart⟩, ?_⟩, ?_, fun x => ?_⟩
      · refine forall_mem_cons.mpr ⟨by omega, fun a ha => ?_⟩
        have hlt := hcur a ha
        omega
      · exact forall_mem_cons.mpr ⟨hr, h.exact⟩
      · exact forall_mem_cons.mpr ⟨le_rfl, hle⟩
      · simp only [Covered, exists_mem_cons_iff]
        exact or_comm

lemma foldl_coalesce {out : List Region} (h : Merged out) (hl : Exact l)
    (hsorted : l.Pairwise fun a b => a.base ≤ b.base)
    (hle : ∀ a ∈ out, ∀ r ∈ l, a.base ≤ r.base) :
    Merged (l.foldl coalesce out) ∧
      ∀ x, Covered (l.foldl coalesce out) x ↔ Covered out x ∨ Covered l x := by
  induction l generalizing out with
  | nil => exact ⟨h, fun x => by simp [Covered]⟩
  | cons r l ih =>
    obtain ⟨hr, hsorted⟩ := pairwise_cons.mp hsorted
    obtain ⟨hmerged, hbase, hcover⟩ := coalesce_spec h (hl r mem_cons_self)
      fun a ha => hle a ha r mem_cons_self
    obtain ⟨hmerged', hcover'⟩ := ih hmerged (forall_mem_cons.mp hl).2 hsorted
      fun a ha q hq => (hbase a ha).trans (hr q hq)
    refine ⟨hmerged', fun x => ?_⟩
    rw [foldl_cons, hcover', hcover, or_assoc]
    simp only [Covered, exists_mem_cons_iff]

lemma covered_congr {m : List Region} (h : ∀ r, r ∈ m ↔ r ∈ l) (x : Nat) :
    Covered m x ↔ Covered l x := by
  simp only [Covered, h]

lemma covered_bootmemCoalesceAvailable (hl : Exact l)
    (hsorted : l.Pairwise fun a b => a.base ≤ b.base) :
    Separated (bootmemCoalesceAvailable l) ∧ Exact (bootmemCoalesceAvailable l) ∧
      ∀ x, Covered (bootmemCoalesceAvailable l) x ↔ Covered l x := by
  unfold bootmemCoalesceAvailable
  split
  · rename_i hlen
    refine ⟨?_, hl, fun x => Iff.rfl⟩
    match l, hlen with
    | [], _ => exact List.Pairwise.nil
    | [r], _ => exact pairwise_singleton _ _
  · have hnil : Merged [] := ⟨List.Pairwise.nil, fun _ h => absurd h not_mem_nil⟩
    obtain ⟨hmerged, hcover⟩ := foldl_coalesce hnil hl hsorted fun _ h => absurd h not_mem_nil
    refine ⟨pairwise_reverse.mpr hmerged.apart, hmerged.exact.perm (reverse_perm _), fun x => ?_⟩
    rw [covered_congr (fun r => mem_reverse), hcover]
    simp [Covered]

/-! ## The count -/

/-- All of the page lies in one region. -/
def Region.Holds (r : Region) (f : Nat) : Prop :=
  r.base ≤ f * pageSize ∧ f * pageSize + pageSize ≤ r.base + r.size

instance (r : Region) (f : Nat) : Decidable (r.Holds f) :=
  inferInstanceAs (Decidable (_ ∧ _))

/-- A page in the union of separated regions lies in one of them. -/
lemma Separated.exists_holds_iff (h : Separated l) (f : Nat) :
    (∃ r ∈ l, r.Holds f) ↔ ∀ x, f * pageSize ≤ x → x < f * pageSize + pageSize → Covered l x := by
  constructor
  · rintro ⟨r, hr, hlo, hhi⟩ x h1 h2
    exact ⟨r, hr, by omega, by omega⟩
  · intro hall
    obtain ⟨r, hr, hlo, hhi⟩ := hall (f * pageSize) le_rfl (by unfold pageSize; omega)
    refine ⟨r, hr, hlo, ?_⟩
    by_contra hshort
    -- the first byte after the region would have to lie in another one
    obtain ⟨q, hq, hqlo, hqhi⟩ := hall (r.base + r.size) (by omega) (by omega)
    have hne : r ≠ q := by
      rintro rfl
      omega
    have hpair : l.Pairwise fun a b => a.base + a.size < b.base ∨ b.base + b.size < a.base :=
      h.imp Or.inl
    have : Std.Symm fun a b : Region => a.base + a.size < b.base ∨ b.base + b.size < a.base :=
      ⟨fun _ _ => Or.symm⟩
    rcases hpair.forall hr hq hne with hlt | hlt
    · omega
    · omega

/-- The pages of a range that lie in a region. -/
def pagesIn (a b : Nat) (l : List Region) : Finset Nat :=
  (Finset.Ico a b).filter fun f => ∃ r ∈ l, r.Holds f

lemma card_pagesIn_cons {r : Region} (h : Separated (r :: l)) (a b : Nat) :
    (pagesIn a b (r :: l)).card = (pagesIn a b [r]).card + (pagesIn a b l).card := by
  have hdisj : Disjoint (pagesIn a b [r]) (pagesIn a b l) := by
    rw [Finset.disjoint_left]
    intro f hr hl
    obtain ⟨q, hq, hhold⟩ := (Finset.mem_filter.mp hr).2
    rw [mem_singleton.mp hq] at hhold
    obtain ⟨q, hq, hhold'⟩ := (Finset.mem_filter.mp hl).2
    have hlt := (pairwise_cons.mp h).1 q hq
    unfold Region.Holds pageSize at hhold hhold'
    omega
  rw [← Finset.card_union_of_disjoint hdisj]
  congr 1
  ext f
  simp only [pagesIn, Finset.mem_union, Finset.mem_filter, exists_mem_cons_iff,
    not_mem_nil, false_and, exists_false, or_false]
  tauto

lemma card_pagesIn_singleton {r : Region} {a stop : Nat} (hstop : stop ≤ 0x38000000)
    (hbase : r.base < stop) (hstart : a * pageSize < stop) :
    (pagesIn a (stop / pageSize) [r]).card =
      (alignDown (min (r.base + r.size) stop) - alignUp (max r.base (a * pageSize))) / pageSize := by
  have hset : pagesIn a (stop / pageSize) [r] =
      Finset.Ico (alignUp (max r.base (a * pageSize)) / pageSize)
        (alignDown (min (r.base + r.size) stop) / pageSize) := by
    ext f
    simp only [pagesIn, Finset.mem_filter, Finset.mem_Ico, mem_singleton, exists_eq_left,
      Region.Holds, alignUp, alignDown, wrap, pageSize] at *
    omega
  rw [hset, Nat.card_Ico]
  unfold alignUp alignDown pageSize
  omega

lemma presentLoop_eq {a stop : Nat} (h : Separated l) (hl : Exact l) (hstop : stop ≤ 0x38000000)
    (hstart : a * pageSize < stop) (pages : Nat) :
    presentLoop (a * pageSize) stop l pages = pages + (pagesIn a (stop / pageSize) l).card := by
  induction l generalizing pages with
  | nil => simp [presentLoop, pagesIn]
  | cons r l ih =>
    obtain ⟨hr, hl'⟩ := forall_mem_cons.mp hl
    have hrest := (pairwise_cons.mp h).2
    have hnone : ∀ {m : List Region}, (∀ q ∈ m, ∀ f, a ≤ f → f < stop / pageSize → ¬ q.Holds f) →
        (pagesIn a (stop / pageSize) m).card = 0 := by
      intro m hm
      rw [Finset.card_eq_zero, pagesIn, Finset.filter_eq_empty_iff]
      rintro f hf ⟨q, hq, hhold⟩
      obtain ⟨h1, h2⟩ := Finset.mem_Ico.mp hf
      exact hm q hq f h1 h2 hhold
    have hrend : wrap (r.base + r.size) = r.base + r.size := wrap_of_lt hr
    simp only [presentLoop, hrend]
    split_ifs with hbelow habove hsome
    · rw [ih hrest hl', card_pagesIn_cons h, hnone (m := [r]), zero_add]
      intro q hq f hf _ hhold
      rw [mem_singleton.mp hq] at hhold
      unfold Region.Holds pageSize at *
      omega
    · rw [hnone, add_zero]
      intro q hq f _ hf hhold
      have hqbase : stop ≤ q.base := by
        rcases mem_cons.mp hq with rfl | hq
        · exact habove
        · have hlt := (pairwise_cons.mp h).1 q hq
          omega
      unfold Region.Holds pageSize at *
      omega
    · rw [ih hrest hl', card_pagesIn_cons h, card_pagesIn_singleton hstop (by omega) hstart]
      omega
    · rw [ih hrest hl', card_pagesIn_cons h, card_pagesIn_singleton hstop (by omega) hstart]
      have hzero : alignDown (min (r.base + r.size) stop) - alignUp (max r.base (a * pageSize)) = 0 := by
        omega
      rw [hzero]
      simp

/-- The pages of the range that lie in the union of the regions, below the end of low memory. -/
def presentPages (s : State) (l : List Region) (startPfn endPfn : Nat) : Set Nat :=
  { f | startPfn ≤ f ∧ f < min endPfn s.totalPages ∧ f * pageSize + pageSize ≤ s.lowmemEnd ∧
    ∀ x, f * pageSize ≤ x → x < f * pageSize + pageSize → Covered l x }

lemma bootmemPresentPages_eq {s : State} (hsep : Separated s.available) (hexact : Exact s.available)
    (hlow : s.lowmemEnd ≤ 0x38000000) (htotal : s.totalPages = s.lowmemEnd / pageSize)
    (startPfn endPfn : Nat) :
    bootmemPresentPages s startPfn endPfn = (presentPages s s.available startPfn endPfn).ncard := by
  have hset : presentPages s s.available startPfn endPfn = ↑(pagesIn startPfn
      (min (min endPfn s.totalPages * pageSize) s.lowmemEnd / pageSize) s.available) := by
    ext f
    rw [Finset.mem_coe, pagesIn, Finset.mem_filter, Finset.mem_Ico, hsep.exists_holds_iff]
    unfold presentPages
    rw [Set.mem_ofPred_eq]
    have hrange : f < min endPfn s.totalPages ∧ f * pageSize + pageSize ≤ s.lowmemEnd ↔
        f < min (min endPfn s.totalPages * pageSize) s.lowmemEnd / pageSize := by
      unfold pageSize at *
      omega
    rw [← hrange]
    tauto
  have hend : (if endPfn > s.totalPages then s.totalPages else endPfn) = min endPfn s.totalPages := by
    split <;> omega
  have hempty : ∀ n, n ≤ startPfn → (pagesIn startPfn n s.available).card = 0 := by
    intro n hn
    rw [pagesIn, Finset.Ico_eq_empty_of_le hn, Finset.filter_empty, Finset.card_empty]
  rw [hset, Set.ncard_coe_finset]
  unfold bootmemPresentPages
  rw [hend]
  generalize hn : min endPfn s.totalPages = n
  have hle : n * pageSize ≤ s.lowmemEnd := by
    unfold pageSize at *
    omega
  have hword : wrap (n * pageSize) = n * pageSize := wrap_of_lt (by omega)
  dsimp only
  rw [hword, Nat.min_eq_left hle, if_neg (not_lt.mpr hle), Nat.mul_div_cancel _ (by decide)]
  split_ifs with hrange hstart
  · rw [hempty n hrange]
  · have hword' : wrap (startPfn * pageSize) = startPfn * pageSize := wrap_of_lt (by
      unfold pageSize at *
      omega)
    rw [hempty]
    unfold pageSize at *
    omega
  · have hlt : startPfn * pageSize < n * pageSize := by
      unfold pageSize
      omega
    have hword' : wrap (startPfn * pageSize) = startPfn * pageSize := wrap_of_lt (by omega)
    rw [hword', presentLoop_eq hsep hexact (hle.trans hlow) hlt, zero_add,
      Nat.mul_div_cancel _ (by decide)]

end LiteKernel.Mm.Bootmem
