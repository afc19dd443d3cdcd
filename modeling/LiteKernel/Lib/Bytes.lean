import Mathlib.Tactic

/-!
# Byte buffers and records in them

A buffer is a function from offsets to bytes. A record with little-endian fields is a list
of bytes that is copied into a buffer and read back from it; the lemmas say that a copy is
read back as it was written and that it leaves the rest of the buffer alone. A bitmap is a
buffer of which single bits are tested and set.

Main results: `bytesAt_memcpyAt`, `get16_put16_append`, `get32_put32_append`,
`bitmapTest_bitmapSet`.
-/

namespace LiteKernel.Lib

open List

variable {l r : List UInt8} {k : Nat}

/-- A buffer of bytes, by offset. -/
abbrev Buffer : Type := Nat → UInt8

section Copy

variable {b : Buffer} {src : List UInt8} {off i : Nat}

/-- `memcpy(b + off, src, n)`. -/
def memcpyAt (b : Buffer) (off : Nat) (src : List UInt8) : Buffer := fun i =>
  if off ≤ i ∧ i < off + src.length then src.getD (i - off) 0 else b i

/-- `memcpy(dst, b + off, n)`: the bytes that are copied out. -/
def bytesAt (b : Buffer) (off n : Nat) : List UInt8 :=
  (List.range n).map fun i => b (off + i)

@[simp] lemma length_bytesAt (b : Buffer) (off n : Nat) : (bytesAt b off n).length = n := by
  simp [bytesAt]

lemma memcpyAt_of_not_mem (h : i < off ∨ off + src.length ≤ i) : memcpyAt b off src i = b i := by
  unfold memcpyAt
  rw [if_neg (by omega)]

lemma memcpyAt_of_mem {k : Nat} (h : k < src.length) :
    memcpyAt b off src (off + k) = src.get ⟨k, h⟩ := by
  unfold memcpyAt
  rw [if_pos (by omega), Nat.add_sub_cancel_left]
  simp [h]

lemma bytesAt_memcpyAt (b : Buffer) (off : Nat) (src : List UInt8) :
    bytesAt (memcpyAt b off src) off src.length = src := by
  apply List.ext_getElem
  · simp
  · intro k _ hk
    simp [bytesAt, memcpyAt_of_mem hk]

end Copy

/-! ## Fields -/

/-- The 16-bit field at a position of a record. -/
def get16 (l : List UInt8) (k : Nat) : UInt16 :=
  UInt16.ofNat ((l.getD k 0).toNat + 256 * (l.getD (k + 1) 0).toNat)

def put16 (v : UInt16) : List UInt8 :=
  [UInt8.ofNat v.toNat, UInt8.ofNat (v.toNat / 256)]

/-- The 32-bit field at a position of a record. -/
def get32 (l : List UInt8) (k : Nat) : UInt32 :=
  UInt32.ofNat ((l.getD k 0).toNat + 256 * (l.getD (k + 1) 0).toNat +
    65536 * (l.getD (k + 2) 0).toNat + 16777216 * (l.getD (k + 3) 0).toNat)

def put32 (v : UInt32) : List UInt8 :=
  [UInt8.ofNat v.toNat, UInt8.ofNat (v.toNat / 256), UInt8.ofNat (v.toNat / 65536),
    UInt8.ofNat (v.toNat / 16777216)]

@[simp] lemma length_put16 (v : UInt16) : (put16 v).length = 2 :=
  rfl

@[simp] lemma length_put32 (v : UInt32) : (put32 v).length = 4 :=
  rfl

lemma getD_append_right (h : l.length ≤ k) (d : UInt8) :
    (l ++ r).getD k d = r.getD (k - l.length) d := by
  simp [getD_eq_getElem?_getD, List.getElem?_append_right h]

/-- Positions behind a field are positions of the rest of the record. -/
lemma get16_append_right (h : l.length ≤ k) : get16 (l ++ r) k = get16 r (k - l.length) := by
  unfold get16
  rw [getD_append_right h, getD_append_right (by omega), Nat.sub_add_comm h]

lemma get32_append_right (h : l.length ≤ k) : get32 (l ++ r) k = get32 r (k - l.length) := by
  unfold get32
  rw [getD_append_right h, getD_append_right (by omega), getD_append_right (by omega),
    getD_append_right (by omega), Nat.sub_add_comm h, Nat.sub_add_comm h, Nat.sub_add_comm h]

lemma get16_put16_append (v : UInt16) (r : List UInt8) : get16 (put16 v ++ r) 0 = v := by
  apply UInt16.toNat_inj.mp
  have hv := v.toNat_lt
  simp [get16, put16]
  omega

lemma get32_put32_append (v : UInt32) (r : List UInt8) : get32 (put32 v ++ r) 0 = v := by
  apply UInt32.toNat_inj.mp
  have hv := v.toNat_lt
  simp [get32, put32]
  omega

/-- An array of 16-bit fields is read back element by element. -/
lemma get16_flatMap_put16 {n : Nat} (f : Fin n → UInt16) (k : Fin n) :
    get16 ((List.finRange n).flatMap fun k => put16 (f k)) (2 * k) = f k := by
  induction n with
  | zero => exact k.elim0
  | succ n ih =>
    rw [finRange_succ, flatMap_cons, flatMap_map]
    cases k using Fin.cases with
    | zero => exact get16_put16_append _ _
    | succ k =>
      have hpos : 2 * (k.succ : Nat) - (put16 (f 0)).length = 2 * k := by
        simp only [Fin.val_succ, length_put16]
        omega
      rw [get16_append_right (by simp only [Fin.val_succ, length_put16]; omega), hpos]
      exact ih (fun k => f k.succ) k

/-! ## Bitmaps -/

/-- The bit of a map. -/
def bitmapTest (b : Buffer) (bit : Nat) : Bool :=
  (b (bit / 8)).toNat.testBit (bit % 8)

/-- The map with the bit set. -/
def bitmapSet (b : Buffer) (bit : Nat) : Buffer :=
  Function.update b (bit / 8) (b (bit / 8) ||| UInt8.ofNat (2 ^ (bit % 8)))

lemma bitmapTest_bitmapSet (b : Buffer) (bit k : Nat) :
    bitmapTest (bitmapSet b bit) k = (decide (k = bit) || bitmapTest b k) := by
  unfold bitmapTest bitmapSet
  by_cases hbyte : k / 8 = bit / 8
  · have hpow : 2 ^ (bit % 8) < 256 := by
      have hlt : bit % 8 < 8 := Nat.mod_lt _ (by decide)
      exact Nat.pow_lt_pow_right (by decide) hlt
    have hmod : UInt8.toNat (UInt8.ofNat (2 ^ (bit % 8))) = 2 ^ (bit % 8) := by
      rw [UInt8.toNat_ofNat']
      exact Nat.mod_eq_of_lt hpow
    have hiff : (bit % 8 = k % 8) ↔ (k = bit) := by omega
    rw [hbyte, Function.update_self, UInt8.toNat_or, Nat.testBit_or, hmod, Nat.testBit_two_pow,
      Bool.or_comm]
    simp only [hiff]
  · have hne : ¬ k = bit := fun h => hbyte (by rw [h])
    rw [Function.update_of_ne hbyte]
    simp [hne]

end LiteKernel.Lib
