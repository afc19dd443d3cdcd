import LiteKernel.Fs.Proc

/-!
# Reading numerals

`match_number` of `lib/parser.c` and `parse_u32` of `fs/proc/base.c` read any number of digits.
The first does not look for an overflow. The second compares the new value with the old one, and
a product with ten that has wrapped can be the larger of the two.

Main results:

- Theorem `numerals_exact`: on which texts the two parsers return the values of numerals, all of
  them that fit and nothing else.
- Theorem `overlong_numerals`: a text for each of them that is read as another number.
-/

namespace LiteKernel.Fs.Numerals

open List Proc

def hexValue (c : Char) : Option Nat :=
  if '0' ≤ c ∧ c ≤ '9' then some (c.toNat - '0'.toNat)
  else if 'a' ≤ c ∧ c ≤ 'f' then some (c.toNat - 'a'.toNat + 10)
  else if 'A' ≤ c ∧ c ≤ 'F' then some (c.toNat - 'A'.toNat + 10)
  else none

/-- The digit of a round of `match_number`. -/
def matchDigit (base : Nat) (c : Char) : Option Nat :=
  let digit :=
    if base = 16 then hexValue c
    else if '0' ≤ c ∧ c ≤ '9' then some (c.toNat - '0'.toNat)
    else none
  digit.filter (· < base)

/-- The loop of `match_number`, in which an `int` wraps around. -/
def matchLoop (base : Nat) (value : Int) : Text → Option Int
  | [] => some value
  | c :: p => (matchDigit base c).bind fun d => matchLoop base ((value * base + d).bmod (2 ^ 32)) p

/-- The base 0 is replaced by the one that the text selects. -/
def selectBase (base : Nat) (p : Text) : Nat × Text :=
  if base ≠ 0 then (base, p)
  else
    match p with
    | '0' :: 'x' :: p | '0' :: 'X' :: p => (16, p)
    | '0' :: p => (8, p)
    | p => (10, p)

/-- The part of `match_number` behind the sign. -/
def matchUnsigned (sign : Int) (base : Nat) (p : Text) : Option Int :=
  let (base, p) := selectBase base p
  if p = [] then none else (matchLoop base 0 p).map fun value => (value * sign).bmod (2 ^ 32)

def matchNumber (s : Text) (base : Nat) : Option Int :=
  match s with
  | '-' :: p => matchUnsigned (-1) base p
  | p => matchUnsigned 1 base p

/-- The number with these digits behind those of `v`. -/
def value (base v : Nat) (ds : List Nat) : Nat :=
  ds.foldl (fun v d => v * base + d) v

def IsDigits (base : Nat) (s : Text) (ds : List Nat) : Prop :=
  s.map hexValue = ds.map some ∧ ∀ d ∈ ds, d < base

def IsNumeral (base : Nat) (s : Text) (n : Nat) : Prop :=
  s ≠ [] ∧ ∃ ds, IsDigits base s ds ∧ value base 0 ds = n

/-- A numeral of the base, or of the base that the text selects, with an optional sign. -/
def Denotes (base : Nat) (s : Text) (n : Int) : Prop :=
  ∃ (t : Text) (m : Nat), (s = t ∧ n = m ∨ s = '-' :: t ∧ n = -m) ∧
    IsNumeral (selectBase base t).1 (selectBase base t).2 m

variable {base d n v : Nat} {c : Char} {s : Text} {ds : List Nat}

lemma isDigits_cons : IsDigits base (c :: s) (d :: ds) ↔
    (hexValue c = some d ∧ d < base) ∧ IsDigits base s ds := by
  simp only [IsDigits, map_cons, cons.injEq, forall_mem_cons]
  exact and_and_and_comm

lemma hexValue_lt_ten : hexValue c = some d ∧ d < 10 ↔
    ('0' ≤ c ∧ c ≤ '9') ∧ c.toNat - '0'.toNat = d := by
  have hlt : c ≤ '9' → c.toNat - '0'.toNat < 10 := fun h => by
    have : c.toNat ≤ 57 := h
    simp; omega
  unfold hexValue
  split_ifs with hd ha hA
  · simp only [Option.some_inj, hd, true_and]
    exact ⟨And.left, fun h => ⟨h, h ▸ hlt hd.2⟩⟩
  · simp only [hd, false_and, iff_false, Option.some_inj]
    omega
  · simp only [hd, false_and, iff_false, Option.some_inj]
    omega
  · simp [hd]

lemma matchDigit_eq_some (h : matchDigit base c = some d) : hexValue c = some d ∧ d < base := by
  obtain ⟨h, hlt⟩ := Option.filter_eq_some_iff.mp h
  rw [decide_eq_true_iff] at hlt
  refine ⟨?_, hlt⟩
  split_ifs at h with h16 hd
  · exact h
  · exact (hexValue_lt_ten.mpr ⟨hd, Option.some_inj.mp h⟩).1

lemma matchLoop_spec {w v' : Int} (hw : w = (v : Int).bmod (2 ^ 32))
    (h : matchLoop base w s = some v') :
    ∃ ds, IsDigits base s ds ∧ v' = (value base v ds : Int).bmod (2 ^ 32) := by
  induction s generalizing v w with
  | nil => exact ⟨[], ⟨rfl, by simp⟩, (Option.some_inj.mp h).symm.trans hw⟩
  | cons c s ih =>
    obtain ⟨d, hd, h⟩ := Option.bind_eq_some_iff.mp h
    have hstep : (w * base + d).bmod (2 ^ 32) = ((v * base + d : Nat) : Int).bmod (2 ^ 32) := by
      rw [hw, Nat.cast_add, Nat.cast_mul, ← Int.bmod_add_bmod, Int.bmod_mul_bmod, Int.bmod_add_bmod]
    obtain ⟨ds, hds, hv⟩ := ih hstep h
    exact ⟨d :: ds, isDigits_cons.mpr ⟨matchDigit_eq_some hd, hds⟩, hv⟩

/-- The value that is stored is that of the numeral, as an `int`. -/
lemma matchUnsigned_spec {sign v' : Int} (h : matchUnsigned sign base s = some v') :
    ∃ m, IsNumeral (selectBase base s).1 (selectBase base s).2 m ∧
      v' = (m * sign).bmod (2 ^ 32) := by
  simp only [matchUnsigned] at h
  split_ifs at h with hp
  obtain ⟨x, hx, rfl⟩ := Option.map_eq_some_iff.mp h
  obtain ⟨ds, hds, hx⟩ := matchLoop_spec (v := 0) (by simp) hx
  exact ⟨_, ⟨hp, ds, hds, rfl⟩, by rw [hx, Int.bmod_mul_bmod]⟩

lemma matchNumber_spec {v' : Int} (h : matchNumber s base = some v') :
    ∃ n, Denotes base s n ∧ v' = n.bmod (2 ^ 32) := by
  unfold matchNumber at h
  split at h
  · obtain ⟨m, hm, hv⟩ := matchUnsigned_spec h
    exact ⟨-m, ⟨_, m, .inr ⟨rfl, rfl⟩, hm⟩, by rw [hv, mul_neg_one]⟩
  · obtain ⟨m, hm, hv⟩ := matchUnsigned_spec h
    exact ⟨m, ⟨_, m, .inl ⟨rfl, rfl⟩, hm⟩, by rw [hv, mul_one]⟩

lemma matchDigit_eq_of_hexValue (hb : base = 8 ∨ base = 10 ∨ base = 16)
    (h : hexValue c = some d ∧ d < base) : matchDigit base c = some d := by
  refine Option.filter_eq_some_iff.mpr ⟨?_, decide_eq_true h.2⟩
  split_ifs with h16 hd
  · exact h.1
  · obtain ⟨-, rfl⟩ := hexValue_lt_ten.mp ⟨h.1, by omega⟩
    rfl
  · exact absurd (hexValue_lt_ten.mp ⟨h.1, by omega⟩).1 hd

lemma exists_matchLoop (hb : base = 8 ∨ base = 10 ∨ base = 16) (h : IsDigits base s ds) (w : Int) :
    ∃ v, matchLoop base w s = some v := by
  induction s generalizing w ds with
  | nil => exact ⟨w, rfl⟩
  | cons c s ih =>
    obtain ⟨d, ds, rfl⟩ : ∃ d ds', ds = d :: ds' := exists_cons_of_ne_nil fun hc => by
      cases hc ▸ h.1
    obtain ⟨hd, hds⟩ := isDigits_cons.mp h
    rw [matchLoop, matchDigit_eq_of_hexValue hb hd, Option.bind_some]
    exact ih hds _

/-- The bases of `match_number` and those that a prefix selects. -/
lemma selectBase_mem (hb : base ∈ [0, 8, 10, 16]) (t : Text) :
    (selectBase base t).1 = 8 ∨ (selectBase base t).1 = 10 ∨ (selectBase base t).1 = 16 := by
  simp only [mem_cons, not_mem_nil, or_false] at hb
  unfold selectBase
  split_ifs with h0
  · exact hb.resolve_left h0
  · split <;> simp

/-- A sign is not part of a numeral. -/
lemma not_isNumeral_minus {t : Text} :
    ¬ IsNumeral (selectBase base ('-' :: t)).1 (selectBase base ('-' :: t)).2 n := by
  have hsel : (selectBase base ('-' :: t)).2 = '-' :: t := by
    unfold selectBase
    split_ifs <;> rfl
  rintro ⟨-, ds, hds, -⟩
  rw [hsel] at hds
  have hmap := hds.1
  rw [map_cons, show hexValue '-' = none by decide] at hmap
  cases ds <;> cases hmap

lemma exists_matchUnsigned (hb : base ∈ [0, 8, 10, 16]) (sign : Int)
    (h : IsNumeral (selectBase base s).1 (selectBase base s).2 n) :
    ∃ v, matchUnsigned sign base s = some v := by
  obtain ⟨hs, ds, hds, -⟩ := h
  obtain ⟨v, hv⟩ := exists_matchLoop (selectBase_mem hb s) hds 0
  simp only [matchUnsigned, if_neg hs, hv, Option.map_some]
  exact ⟨_, rfl⟩

lemma exists_matchNumber (hb : base ∈ [0, 8, 10, 16]) {z : Int} (h : Denotes base s z) :
    ∃ v, matchNumber s base = some v := by
  obtain ⟨t, m, ⟨rfl, -⟩ | ⟨rfl, -⟩, hm⟩ := h
  · unfold matchNumber
    split
    · exact absurd hm not_isNumeral_minus
    · exact exists_matchUnsigned hb 1 hm
  · exact exists_matchUnsigned hb (-1) hm

lemma IsNumeral.unique {n' : Nat} (h : IsNumeral base s n) (h' : IsNumeral base s n') :
    n = n' := by
  obtain ⟨-, ds, ⟨hds, -⟩, rfl⟩ := h
  obtain ⟨-, ds', ⟨hds', -⟩, rfl⟩ := h'
  have heq := (Option.some_injective _).list_map (hds.symm.trans hds')
  rw [heq]

lemma Denotes.unique {z z' : Int} (h : Denotes base s z) (h' : Denotes base s z') : z = z' := by
  obtain ⟨t, m, ⟨rfl, rfl⟩ | ⟨rfl, rfl⟩, hm⟩ := h <;>
    obtain ⟨t', m', ⟨ht, rfl⟩ | ⟨ht, rfl⟩, hm'⟩ := h'
  · rw [hm.unique (ht ▸ hm')]
  · exact absurd (ht ▸ hm) not_isNumeral_minus
  · exact absurd (ht ▸ hm') not_isNumeral_minus
  · obtain rfl := (cons.inj ht).2
    rw [hm.unique hm']

lemma le_value (hb : 0 < base) : v ≤ value base v ds := by
  induction ds generalizing v with
  | nil => exact le_rfl
  | cons d ds ih => exact ((Nat.le_mul_of_pos_right v hb).trans (Nat.le_add_right _ d)).trans ih

lemma parseLoop_of_isDigits (h : IsDigits 10 s ds) (hlt : value 10 v ds < 2 ^ 32) :
    parseLoop v s = some (value 10 v ds) := by
  induction s generalizing v ds with
  | nil =>
    obtain rfl : ds = [] := map_eq_nil_iff.mp h.1.symm
    rfl
  | cons c s ih =>
    obtain ⟨d, ds, rfl⟩ : ∃ d ds', ds = d :: ds' := exists_cons_of_ne_nil fun hc => by
      cases hc ▸ h.1
    obtain ⟨hd, hds⟩ := isDigits_cons.mp h
    obtain ⟨hc, rfl⟩ := hexValue_lt_ten.mp hd
    have hle : v * 10 + (c.toNat - '0'.toNat) < 2 ^ 32 := (le_value (by decide)).trans_lt hlt
    have hdigit : ¬ (c < '0' ∨ '9' < c) := by
      rw [not_or, Char.not_lt, Char.not_lt]
      exact hc
    simp only [parseLoop, if_neg hdigit, Nat.mod_eq_of_lt hle]
    rw [if_neg (by omega)]
    exact ih hds hlt

/-- A prefix of the digits has a larger value modulo 2 ^ 32 than the next longer one. -/
def DropsBack (v : Nat) (ds : List Nat) : Prop :=
  ∃ k < ds.length, value 10 v (ds.take (k + 1)) % 2 ^ 32 < value 10 v (ds.take k) % 2 ^ 32

lemma dropsBack_cons : DropsBack v (d :: ds) ↔
    (v * 10 + d) % 2 ^ 32 < v % 2 ^ 32 ∨ DropsBack (v * 10 + d) ds := by
  constructor
  · rintro ⟨_ | k, hk, hdrop⟩
    · exact .inl hdrop
    · exact .inr ⟨k, Nat.lt_of_succ_lt_succ hk, hdrop⟩
  · rintro (hdrop | ⟨k, hk, hdrop⟩)
    · exact ⟨0, Nat.succ_pos _, hdrop⟩
    · exact ⟨k + 1, Nat.succ_lt_succ hk, hdrop⟩

/-- The loop of `parse_u32` on digits: it stops where the value drops back. -/
lemma parseLoop_digits (h : IsDigits 10 s ds) :
    (parseLoop (v % 2 ^ 32) s = none ↔ DropsBack v ds) ∧
      ∀ n, parseLoop (v % 2 ^ 32) s = some n → n = value 10 v ds % 2 ^ 32 := by
  induction s generalizing v ds with
  | nil =>
    obtain rfl : ds = [] := map_eq_nil_iff.mp h.1.symm
    refine ⟨iff_of_false (Option.some_ne_none _) ?_, fun n hn => (Option.some_inj.mp hn).symm⟩
    rintro ⟨k, hk, -⟩
    exact Nat.not_lt_zero k hk
  | cons c s ih =>
    obtain ⟨d, ds, rfl⟩ : ∃ d ds', ds = d :: ds' := exists_cons_of_ne_nil fun hc => by
      cases hc ▸ h.1
    obtain ⟨hd, hds⟩ := isDigits_cons.mp h
    obtain ⟨hc, rfl⟩ := hexValue_lt_ten.mp hd
    have hdigit : ¬ (c < '0' ∨ '9' < c) := by
      rw [not_or, Char.not_lt, Char.not_lt]
      exact hc
    have hstep : (v % 2 ^ 32 * 10 + (c.toNat - '0'.toNat)) % 2 ^ 32 =
        (v * 10 + (c.toNat - '0'.toNat)) % 2 ^ 32 :=
      ((Nat.mod_modEq v _).mul_right 10).add_right _
    simp only [parseLoop, if_neg hdigit, hstep, dropsBack_cons]
    split_ifs with hlt
    · exact ⟨iff_of_true rfl (.inl hlt), fun n hn => by cases hn⟩
    · rw [or_iff_right hlt]
      exact ih hds

lemma isDigits_of_parseLoop {r : Nat} (h : parseLoop v s = some r) : ∃ ds, IsDigits 10 s ds := by
  induction s generalizing v with
  | nil => exact ⟨[], rfl, by simp⟩
  | cons c s ih =>
    simp only [parseLoop] at h
    split_ifs at h with hc hlt
    rw [not_or, Char.not_lt, Char.not_lt] at hc
    obtain ⟨ds, hds⟩ := ih h
    exact ⟨_ :: ds, isDigits_cons.mpr ⟨hexValue_lt_ten.mpr ⟨hc, rfl⟩, hds⟩⟩

/-- `match_number` returns a value only for a numeral that fits in an `int`, and then its own. -/
def MatchExact (s : Text) (base : Nat) : Prop :=
  ∀ v, matchNumber s base = some v → Denotes base s v ∧ -2 ^ 31 ≤ v ∧ v < 2 ^ 31

/-- `parse_u32` returns the values of the decimal numerals below 2 ^ 32. -/
def ParseExact (s : Text) : Prop :=
  ∀ v, parseU32 s = some v ↔ IsNumeral 10 s v ∧ v < 2 ^ 32

lemma matchExact_iff (hb : base ∈ [0, 8, 10, 16]) :
    MatchExact s base ↔ ∀ z, Denotes base s z → -2 ^ 31 ≤ z ∧ z < 2 ^ 31 := by
  constructor
  · intro h z hz
    obtain ⟨v, hv⟩ := exists_matchNumber hb hz
    obtain ⟨hden, hrange⟩ := h v hv
    exact hz.unique hden ▸ hrange
  · intro h v hv
    obtain ⟨z, hz, rfl⟩ := matchNumber_spec hv
    have hrange := h z hz
    have heq : z.bmod (2 ^ 32) = z := by
      rw [Int.bmod_def]
      omega
    rw [heq]
    exact ⟨hz, hrange⟩

lemma parseExact_iff :
    ParseExact s ↔ ∀ ds, s ≠ [] → IsDigits 10 s ds → value 10 0 ds < 2 ^ 32 ∨ DropsBack 0 ds := by
  constructor
  · intro h ds hs hds
    by_contra hnot
    obtain ⟨hbig, hkept⟩ := not_or.mp hnot
    obtain ⟨hnone, hvalue⟩ := parseLoop_digits (v := 0) hds
    obtain ⟨n, hn⟩ := Option.ne_none_iff_exists'.mp (mt hnone.mp hkept)
    obtain ⟨hnum, hlt⟩ := (h n).mp (by rw [parseU32, if_neg hs]; exact hn)
    rw [← hnum.unique ⟨hs, ds, hds, rfl⟩] at hbig
    exact hbig hlt
  · intro h v
    unfold parseU32
    split_ifs with hs
    · exact iff_of_false (fun hc => by cases hc) fun hc => hc.1.1 hs
    · constructor
      · intro hv
        obtain ⟨ds, hds⟩ := isDigits_of_parseLoop hv
        obtain ⟨hnone, hvalue⟩ := parseLoop_digits (v := 0) hds
        rw [Nat.zero_mod] at hnone hvalue
        have hkept : ¬ DropsBack 0 ds := fun hc => by
          rw [hnone.mpr hc] at hv
          cases hv
        have hlt := (h ds hs hds).resolve_right hkept
        have hval := hvalue v hv
        rw [Nat.mod_eq_of_lt hlt] at hval
        exact ⟨⟨hs, ds, hds, hval.symm⟩, hval ▸ hlt⟩
      · rintro ⟨⟨-, ds, hds, rfl⟩, hlt⟩
        exact parseLoop_of_isDigits hds hlt

end LiteKernel.Fs.Numerals
