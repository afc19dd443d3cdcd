import Mathlib.Data.List.Basic
import Mathlib.Data.List.Nodup
import Mathlib.Tactic

/-!
# Tables of bounded size with keys

A table is a row of entries, each a key with a value. An entry is added at the end,
unless the table is full or has the key, and is taken out by shifting the entries
behind it.

Main results: `lookup_eq_some_iff`, `mem_unregister_iff`.
-/

namespace LiteKernel.Lib

open List

variable {κ β : Type*} [DecidableEq κ]

/-- The value of the first entry with a key. -/
def lookup (m : List (κ × β)) (k : κ) : Option β :=
  (m.find? fun e => e.1 = k).map Prod.snd

/-- A table of `cap` entries takes a new one; a key that is there keeps its entry. -/
def register (cap : Nat) (m : List (κ × β)) (k : κ) (x : β) : Option (List (κ × β)) :=
  if cap ≤ m.length then none
  else if (lookup m k).isSome then some m
  else some (m ++ [(k, x)])

/-- The first entry with a key is taken out. -/
def unregister (m : List (κ × β)) (k : κ) : List (κ × β) :=
  m.eraseP fun e => e.1 = k

/-- No key occurs twice. -/
def KeysNodup (m : List (κ × β)) : Prop :=
  (m.map Prod.fst).Nodup

variable {m : List (κ × β)} {k : κ} {x : β} {e : κ × β}

lemma lookup_eq_none_iff : lookup m k = none ↔ ∀ e ∈ m, e.1 ≠ k := by
  rw [lookup, Option.map_eq_none_iff, List.find?_eq_none]
  simp only [decide_eq_true_eq, ne_eq]

lemma mem_of_lookup_eq_some (h : lookup m k = some x) : (k, x) ∈ m := by
  obtain ⟨e, he, rfl⟩ := Option.map_eq_some_iff.mp h
  have hk : e.1 = k := by simpa using List.find?_some he
  rw [← hk]
  exact mem_of_find?_eq_some he

omit [DecidableEq κ] in
lemma KeysNodup.eq_of_mem {y : β} (hm : KeysNodup m) (hx : (k, x) ∈ m) (hy : (k, y) ∈ m) :
    x = y := by
  have h := inj_on_of_nodup_map hm hx hy rfl
  exact congrArg Prod.snd h

lemma lookup_eq_some_iff (hm : KeysNodup m) : lookup m k = some x ↔ (k, x) ∈ m := by
  constructor
  · exact mem_of_lookup_eq_some
  · intro hx
    cases hl : lookup m k with
    | none => exact absurd rfl (lookup_eq_none_iff.mp hl (k, x) hx)
    | some y => rw [hm.eq_of_mem hx (mem_of_lookup_eq_some hl)]

lemma KeysNodup.append (hm : KeysNodup m) (hk : lookup m k = none) :
    KeysNodup (m ++ [(k, x)]) := by
  rw [KeysNodup, map_append, nodup_append]
  refine ⟨hm, nodup_singleton _, ?_⟩
  intro a ha b hb
  obtain ⟨e, he, rfl⟩ := mem_map.mp ha
  rw [map_singleton, mem_singleton] at hb
  rw [hb]
  exact lookup_eq_none_iff.mp hk e he

lemma KeysNodup.unregister (hm : KeysNodup m) (k : κ) : KeysNodup (unregister m k) :=
  hm.sublist (eraseP_sublist.map Prod.fst)

lemma mem_unregister_iff (hm : KeysNodup m) :
    e ∈ unregister m k ↔ e ∈ m ∧ e.1 ≠ k := by
  by_cases hk : e.1 = k
  · refine iff_of_false (fun he => ?_) fun h => h.2 hk
    have hkeys : (unregister m k).map Prod.fst = (m.map Prod.fst).erase k := by
      rw [erase_eq_eraseP', eraseP_map]
      rfl
    exact hm.not_mem_erase (hk ▸ hkeys ▸ mem_map_of_mem he)
  · rw [unregister, mem_eraseP_of_neg (by simpa using hk), and_iff_left hk]

lemma register_cases (cap : Nat) (m : List (κ × β)) (k : κ) (x : β) :
    (cap ≤ m.length ∧ register cap m k x = none) ∨
    (m.length < cap ∧ (∃ y, lookup m k = some y) ∧ register cap m k x = some m) ∨
    (m.length < cap ∧ lookup m k = none ∧ register cap m k x = some (m ++ [(k, x)])) := by
  unfold register
  by_cases hcap : cap ≤ m.length
  · exact .inl ⟨hcap, if_pos hcap⟩
  · refine .inr ?_
    rw [if_neg hcap]
    cases hl : lookup m k with
    | some y => exact .inl ⟨Nat.lt_of_not_le hcap, ⟨y, rfl⟩, rfl⟩
    | none => exact .inr ⟨Nat.lt_of_not_le hcap, rfl, rfl⟩

end LiteKernel.Lib
