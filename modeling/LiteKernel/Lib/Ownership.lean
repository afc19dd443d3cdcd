import Mathlib.Data.Finset.Card
import Mathlib.Logic.Function.Basic
import Mathlib.Order.Basic

/-!
# Resources held by keys

A map from keys to resources says which resource each key holds, if any. Some
keys may share a resource with each other; a resource held by any other key is
held by that key alone. For the keys that share, `refs` counts how many hold
a resource, and `Tally` is the relation in which a reference counter may
stand to that number.

Main results: `Exclusive.update_fresh`, `Exclusive.update_shared`, `refs_update`.
-/

namespace LiteKernel.Lib

open Function Finset

variable {κ φ : Type*}

/-- A resource held by two keys is held by sharing keys. -/
def Exclusive (shared : κ → Prop) (g : κ → Option φ) : Prop :=
  ∀ k k' f, g k = some f → g k' = some f → k = k' ∨ shared k ∧ shared k'

namespace Exclusive

variable {shared : κ → Prop} {g g' : κ → Option φ}
variable {k : κ} {f : φ}

lemma mono (h : Exclusive shared g) (hle : ∀ k f, g' k = some f → g k = some f) :
    Exclusive shared g' :=
  fun k k' f hk hk' => h k k' f (hle k f hk) (hle k' f hk')

/-- The only holder among the keys that do not share. -/
lemma eq_of_not_shared (h : Exclusive shared g) {k' : κ} (hk : ¬ shared k) (hf : g k = some f)
    (hf' : g k' = some f) : k' = k := by
  rcases h k k' f hf hf' with e | ⟨hs, -⟩
  · exact e.symm
  · exact absurd hs hk

variable [DecidableEq κ]

/-- A key takes a resource that only sharing keys hold, and then it shares too. -/
lemma update_of_imp (h : Exclusive shared g) (hf : ∀ k', g k' = some f → shared k ∧ shared k') :
    Exclusive shared (update g k (some f)) := by
  intro a b x ha hb
  by_cases hak : a = k <;> by_cases hbk : b = k
  · exact Or.inl (hak.trans hbk.symm)
  · rw [hak, update_self] at ha
    rw [update_of_ne hbk] at hb
    cases ha
    exact Or.inr (hak ▸ hf b hb)
  · rw [update_of_ne hak] at ha
    rw [hbk, update_self] at hb
    cases hb
    exact Or.inr (hbk ▸ (hf a ha).symm)
  · rw [update_of_ne hak] at ha
    rw [update_of_ne hbk] at hb
    exact h a b x ha hb

lemma update_shared (h : Exclusive shared g) (hk : shared k)
    (hf : ∀ k', g k' = some f → shared k') : Exclusive shared (update g k (some f)) :=
  h.update_of_imp fun k' hk' => ⟨hk, hf k' hk'⟩

lemma update_fresh (h : Exclusive shared g) (hf : ∀ k', g k' ≠ some f) :
    Exclusive shared (update g k (some f)) :=
  h.update_of_imp fun k' hk' => absurd hk' (hf k')

end Exclusive

/-! ## Counting holders -/

section

variable [DecidableEq φ]

/-- The number of keys of a finite set that hold a resource. -/
def refs (K : Finset κ) (g : κ → Option φ) (f : φ) : Nat :=
  (K.filter fun k => g k = some f).card

variable {K K' : Finset κ} {g g' : κ → Option φ} {f : φ} {k k' : κ}

lemma refs_pos_iff : 0 < refs K g f ↔ ∃ k ∈ K, g k = some f := by
  rw [refs, card_pos]
  constructor
  · rintro ⟨k, hk⟩
    exact ⟨k, mem_filter.mp hk⟩
  · rintro ⟨k, hk⟩
    exact ⟨k, mem_filter.mpr hk⟩

lemma refs_eq_zero_iff : refs K g f = 0 ↔ ∀ k ∈ K, g k ≠ some f := by
  rw [← Nat.le_zero, ← not_lt, refs_pos_iff]
  push Not
  rfl

lemma refs_congr (h : ∀ k ∈ K, g' k = some f ↔ g k = some f) : refs K g' f = refs K g f := by
  unfold refs
  congr 1
  exact filter_congr h

lemma refs_of_subset (hK : K ⊆ K') (h : ∀ k ∈ K', k ∉ K → g k ≠ some f) :
    refs K' g f = refs K g f := by
  unfold refs
  congr 1
  ext k
  rw [mem_filter, mem_filter]
  constructor
  · rintro ⟨hk, hg⟩
    exact ⟨by_contra fun hn => h k hk hn hg, hg⟩
  · rintro ⟨hk, hg⟩
    exact ⟨hK hk, hg⟩

variable [DecidableEq κ]

/-- The change of one key changes the number of holders of the two resources involved. -/
lemma refs_update (hk : k ∈ K) (o : Option φ) :
    refs K (update g k o) f + (if g k = some f then 1 else 0) =
      refs K g f + (if o = some f then 1 else 0) := by
  unfold refs
  have hsplit : ∀ p : κ → Option φ, (K.filter fun x => p x = some f).card =
      ((K.erase k).filter fun x => p x = some f).card + if p k = some f then 1 else 0 := by
    intro p
    rw [← insert_erase hk, filter_insert, erase_insert (notMem_erase k K)]
    split
    · rw [card_insert_of_notMem]
      exact fun hm => notMem_erase k K (mem_filter.mp hm).1
    · rw [Nat.add_zero]
  have hrest : ((K.erase k).filter fun x => update g k o x = some f).card =
      ((K.erase k).filter fun x => g x = some f).card := by
    congr 1
    apply filter_congr
    intro x hx
    rw [update_of_ne (ne_of_mem_erase hx)]
  rw [hsplit (update g k o), hsplit g, hrest, update_self]
  omega

end

/-! ## Counters -/

/-- A relation between a counter and the number of holders that is kept when both go up or down. -/
structure Tally where
  rel : Nat → Nat → Prop
  one : rel 1 1
  succ_iff : ∀ r k, rel (r + 1) (k + 1) ↔ rel r k
  le : ∀ r k, rel r k → k ≤ r

/-- The counter is the number of holders. -/
def Tally.exact : Tally where
  rel r k := r = k
  one := rfl
  succ_iff _ _ := Nat.succ_inj
  le _ _ h := h.ge

/-- The counter is at least the number of holders. -/
def Tally.atLeast : Tally where
  rel r k := k ≤ r
  one := Nat.le_refl 1
  succ_iff _ _ := Nat.succ_le_succ_iff
  le _ _ h := h

end LiteKernel.Lib
