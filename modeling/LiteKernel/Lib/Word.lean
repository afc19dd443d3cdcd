import Mathlib.Tactic

/-!
# Unsigned 32-bit words and pages

An unsigned 32-bit quantity is a natural number below `2 ^ 32`; sums that
may overflow are written with `wrap`. Pages have 4096 bytes, and masking
with the complement of `0xFFF` is rounding down to a page boundary.

Main results: `alignUp_eq`, `wrap_add_lt_or`.
-/

namespace LiteKernel.Lib

variable {a b v : Nat}

/-- Number of values of an unsigned 32-bit word. -/
abbrev wordSize : Nat := 4294967296

/-- Bytes of a page. -/
abbrev pageSize : Nat := 4096

/-- Reduction of an arithmetic result to 32 bits. -/
def wrap (n : Nat) : Nat :=
  n % 4294967296

/-- The mask with the complement of `0xFFF`. -/
def alignDown (v : Nat) : Nat :=
  v / 4096 * 4096

/-- Rounding up to a page boundary, in 32-bit arithmetic. -/
def alignUp (v : Nat) : Nat :=
  alignDown (wrap (v + 4095))

/-- An address on a page boundary. -/
def PageAligned (v : Nat) : Prop :=
  v % 4096 = 0

instance (v : Nat) : Decidable (PageAligned v) :=
  inferInstanceAs (Decidable (v % 4096 = 0))

lemma wrap_lt (n : Nat) : wrap n < 4294967296 :=
  Nat.mod_lt _ (by decide)

lemma wrap_of_lt {n : Nat} (h : n < 4294967296) : wrap n = n :=
  Nat.mod_eq_of_lt h

/-- A sum of two words is exact, or it wrapped and is below both summands. -/
lemma wrap_add_lt_or (ha : a < 4294967296) (hb : b < 4294967296) :
    wrap (a + b) = a + b ∨ (wrap (a + b) < a ∧ wrap (a + b) < b) := by
  unfold wrap
  omega

lemma pageAligned_alignDown (v : Nat) : PageAligned (alignDown v) := by
  unfold PageAligned alignDown
  omega

lemma pageAligned_alignUp (v : Nat) : PageAligned (alignUp v) :=
  pageAligned_alignDown _

lemma alignDown_le (v : Nat) : alignDown v ≤ v := by
  unfold alignDown
  omega

lemma alignUp_lt (v : Nat) : alignUp v < 4294967296 :=
  lt_of_le_of_lt (alignDown_le _) (wrap_lt _)

/-- Rounding up without overflow gives the next page boundary. -/
lemma alignUp_eq (h : v + 4095 < 4294967296) : v ≤ alignUp v ∧ alignUp v < v + 4096 := by
  unfold alignUp alignDown
  rw [wrap_of_lt h]
  omega

lemma alignUp_of_pageAligned (h : PageAligned v) (hv : v < 4294967296) : alignUp v = v := by
  unfold PageAligned at h
  unfold alignUp alignDown wrap
  omega

lemma PageAligned.wrap_add (ha : PageAligned a) (hb : PageAligned b) :
    PageAligned (wrap (a + b)) := by
  unfold PageAligned at *
  unfold wrap
  omega

end LiteKernel.Lib
