import Mathlib.Data.List.Nodup
import Mathlib.Logic.Function.Basic
import Mathlib.Tactic

/-!
# Singly linked lists threaded through an index array

A list of array indices is kept without cells of its own: `next i` is the
index that follows `i`, and a negative value ends the list. Several lists
may share one array as long as no index is on two of them.

Main results: `Threads.push`, `findPrev_spec`, `Threads.unlink`, `Threads.update_of_not_mem`,
`Linked.push`, `Linked.concat`, `Linked.nodup`.
-/

namespace LiteKernel.Lib

open List Function

variable {next : Nat → Int} {head : Int} {l : List Nat}

/-- From `head` on, `next` runs through the indices of a list and then ends. -/
def Threads (next : Nat → Int) : Int → List Nat → Prop
  | head, [] => head < 0
  | head, i :: l => head = (i : Int) ∧ Threads next (next i) l

@[simp]
lemma threads_nil : Threads next head [] ↔ head < 0 :=
  Iff.rfl

@[simp]
lemma threads_cons {i : Nat} :
    Threads next head (i :: l) ↔ head = (i : Int) ∧ Threads next (next i) l :=
  Iff.rfl

/-- The links determine the list. -/
lemma Threads.unique {m : List Nat} (hl : Threads next head l) (hm : Threads next head m) :
    l = m := by
  induction l generalizing head m with
  | nil =>
    cases m with
    | nil => rfl
    | cons j m =>
      rw [threads_nil, (threads_cons.mp hm).1] at hl
      omega
  | cons i l ih =>
    obtain ⟨hhead, hrest⟩ := threads_cons.mp hl
    cases m with
    | nil =>
      rw [threads_nil, hhead] at hm
      omega
    | cons j m =>
      obtain ⟨hhead', hrest'⟩ := threads_cons.mp hm
      obtain rfl : i = j := by omega
      rw [ih hrest hrest']

namespace Threads

variable {next : Nat → Int} {head : Int} {l : List Nat}
variable {i : Nat}

lemma update_of_not_mem (hi : i ∉ l) (v : Int) :
    Threads (Function.update next i v) head l ↔ Threads next head l := by
  induction l generalizing head with
  | nil => rfl
  | cons j l ih =>
    rw [mem_cons, not_or] at hi
    rw [threads_cons, threads_cons, update_of_ne (Ne.symm hi.1), ih hi.2]

lemma push (h : Threads next head l) (hi : i ∉ l) :
    Threads (Function.update next i head) i (i :: l) := by
  rw [threads_cons]
  refine ⟨rfl, ?_⟩
  rw [update_self, update_of_not_mem hi]
  exact h

lemma exists_cons (h : Threads next head l) (hh : 0 ≤ head) :
    ∃ i rest, l = i :: rest ∧ head = (i : Int) ∧ Threads next (next i) rest := by
  cases l with
  | nil => exact absurd h (by simpa using hh)
  | cons i rest => exact ⟨i, rest, rfl, h.1, h.2⟩

/-- Redirecting the predecessor `p` of `i` takes `i` off the list. -/
lemma unlink {pre post : List Nat} {p : Nat} (h : Threads next head (pre ++ p :: i :: post))
    (hnodup : (pre ++ p :: i :: post).Nodup) (v : Int) :
    Threads (Function.update (Function.update next p (next i)) i v) head (pre ++ p :: post) := by
  induction pre generalizing head with
  | nil =>
    simp only [nil_append, nodup_cons, mem_cons, not_or] at hnodup
    obtain ⟨⟨hpi, hppost⟩, hipost, _⟩ := hnodup
    obtain ⟨hhead, _, hpost⟩ := h
    refine ⟨hhead, ?_⟩
    rw [update_of_ne hpi, update_self, update_of_not_mem hipost, update_of_not_mem hppost]
    exact hpost
  | cons j pre ih =>
    simp only [cons_append, nodup_cons, mem_append, mem_cons, not_or] at hnodup
    obtain ⟨⟨_, hjp, hji, _⟩, hrest⟩ := hnodup
    obtain ⟨hhead, htail⟩ := h
    refine ⟨hhead, ?_⟩
    rw [update_of_ne hji, update_of_ne hjp]
    exact ih htail (by simpa using hrest)

end Threads

/-! ## Search -/

/--
The walk from `cur` that looks for `i` and remembers the index it came
from; `none` when the list ends, or when the fuel does.
-/
def findPrev (next : Nat → Int) (i : Nat) : Nat → Int → Int → Option Int
  | 0, _, _ => none
  | fuel + 1, prev, cur =>
      if cur < 0 then none
      else if cur = (i : Int) then some prev
      else findPrev next i fuel cur (next cur.toNat)

/-- On a list that contains `i` the walk returns the predecessor of `i`. -/
lemma findPrev_spec {i : Nat} (h : Threads next head l) (hnodup : l.Nodup) (hi : i ∈ l)
    {fuel : Nat} (hfuel : l.length ≤ fuel) (prev : Int) :
    (∃ post, l = i :: post ∧ findPrev next i fuel prev head = some prev) ∨
      ∃ pre p post, l = pre ++ p :: i :: post ∧ findPrev next i fuel prev head = some (p : Int) := by
  induction l generalizing head fuel prev with
  | nil => simp at hi
  | cons j l ih =>
    obtain ⟨rfl, htail⟩ := h
    obtain ⟨hjl, hl⟩ := nodup_cons.mp hnodup
    cases fuel with
    | zero => simp at hfuel
    | succ fuel =>
      have hnonneg : ¬ ((j : Int) < 0) := by omega
      by_cases hij : j = i
      · subst hij
        left
        exact ⟨l, rfl, by simp [findPrev]⟩
      · right
        have hil : i ∈ l := by
          rcases mem_cons.mp hi with h' | h'
          · exact absurd h'.symm hij
          · exact h'
        have hstep : findPrev next i (fuel + 1) prev (j : Int) =
            findPrev next i fuel (j : Int) (next j) := by
          have hne : ¬ ((j : Int) = (i : Int)) := by omega
          simp only [findPrev, if_neg hnonneg, if_neg hne, Int.toNat_natCast]
        rw [hstep]
        have hlen : l.length ≤ fuel := by simpa using hfuel
        rcases ih htail hl hil hlen (j : Int) with ⟨post, hpost, hfind⟩ | ⟨pre, p, post, hpost, hfind⟩
        · exact ⟨[], j, post, by simp [hpost], hfind⟩
        · exact ⟨j :: pre, p, post, by simp [hpost], hfind⟩

/-! ## Lists with an end marker -/

section

variable {ι : Type*} {next next' : ι → ι} {stop head i : ι} {l : List ι}

/-- From `head` on, `next` runs through a list and then reaches `stop`. -/
def Linked (next : ι → ι) (stop : ι) : ι → List ι → Prop
  | head, [] => head = stop
  | head, i :: l => head = i ∧ i ≠ stop ∧ Linked next stop (next i) l

@[simp]
lemma linked_nil : Linked next stop head [] ↔ head = stop :=
  Iff.rfl

namespace Linked

section

variable (h : Linked next stop head l)
include h

lemma congr (hnext : ∀ j ∈ l, next' j = next j) : Linked next' stop head l := by
  induction l generalizing head with
  | nil => exact h
  | cons j l ih =>
    obtain ⟨hhead, hj, hl⟩ := h
    refine ⟨hhead, hj, ?_⟩
    rw [hnext j mem_cons_self]
    exact ih hl (forall_mem_cons.mp hnext).2

lemma ne_stop (hi : i ∈ l) : i ≠ stop := by
  induction l generalizing head with
  | nil => exact absurd hi not_mem_nil
  | cons j l ih =>
    rcases mem_cons.mp hi with rfl | hi
    · exact h.2.1
    · exact ih h.2.2 hi

lemma eq_nil_iff : l = [] ↔ head = stop := by
  cases l with
  | nil => exact iff_of_true rfl h
  | cons j l =>
    obtain ⟨rfl, hj, _⟩ := h
    exact iff_of_false (cons_ne_nil _ _) hj

lemma unique {l' : List ι} (h' : Linked next stop head l') : l = l' := by
  induction l generalizing head l' with
  | nil => exact ((h'.eq_nil_iff).mpr h).symm
  | cons j l ih =>
    cases l' with
    | nil =>
      rw [linked_nil] at h'
      exact absurd (h.1.symm.trans h') h.2.1
    | cons j' l' =>
      have hj : j = j' := h.1.symm.trans h'.1
      subst hj
      rw [ih h.2.2 h'.2.2]

end

lemma suffix {pre post : List ι} (h : Linked next stop head (pre ++ i :: post)) :
    Linked next stop i (i :: post) := by
  induction pre generalizing head with
  | nil => exact h.1 ▸ h
  | cons j pre ih => exact ih h.2.2

section

variable (h : Linked next stop head l)
include h

/-- A list that ends does not come back to an index. -/
lemma nodup : l.Nodup := by
  induction l generalizing head with
  | nil => exact nodup_nil
  | cons j l ih =>
    refine nodup_cons.mpr ⟨fun hj => ?_, ih h.2.2⟩
    obtain ⟨pre, post, rfl⟩ := append_of_mem hj
    have hpost := h.2.2.suffix.unique (h.1 ▸ h)
    have hlen := congrArg List.length hpost
    simp only [length_cons, length_append] at hlen
    omega

lemma push [DecidableEq ι] (hi : i ∉ l) (hne : i ≠ stop) :
    Linked (Function.update next i head) stop i (i :: l) := by
  refine ⟨rfl, hne, ?_⟩
  rw [update_self]
  refine h.congr ?_
  intro j hj
  have hji : j ≠ i := fun heq => hi (heq ▸ hj)
  exact update_of_ne hji _ _

/-- An index becomes the last one when the old last one leads to it. -/
lemma concat [DecidableEq ι] (hne : i ≠ stop)
    (hold : ∀ j ∈ l.dropLast, next' j = next j) (hlast : ∀ j, l.getLast? = some j → next' j = i)
    (hi : next' i = stop) :
    Linked next' stop (if head = stop then i else head) (l ++ [i]) := by
  induction l generalizing head with
  | nil =>
    rw [linked_nil] at h
    rw [if_pos h]
    exact ⟨rfl, hne, hi⟩
  | cons j l ih =>
    obtain ⟨rfl, hj, hl⟩ := h
    rw [if_neg hj]
    refine ⟨rfl, hj, ?_⟩
    by_cases hnil : l = []
    · subst hnil
      rw [hlast head rfl]
      exact ⟨rfl, hne, hi⟩
    · have hnext : next' head = next head := by
        apply hold
        rw [dropLast_cons_of_ne_nil hnil]
        exact mem_cons_self
      have hrest := ih hl ?_ ?_
      · rwa [if_neg (fun heq => hnil ((hl.eq_nil_iff).mpr heq)), ← hnext] at hrest
      · intro k hk
        apply hold
        rw [dropLast_cons_of_ne_nil hnil]
        exact mem_cons_of_mem _ hk
      · intro k hk
        apply hlast
        rw [getLast?_cons, hk]
        rfl

end

end Linked

end

end LiteKernel.Lib
