import Mathlib.Data.List.Perm.Subperm
import LiteKernel.Kernel.WaitMembership

/-!
# Waking a given number of waiters

`__wake_up` takes every waiter off the queue before it wakes the first one, and
the count it compares with `nr` is a disjunction of the results, so it never exceeds one.

Main results:

- Theorem `selectiveWake_iff`: `nr` is respected, and the waiters that are not woken stay on the
  queue, only if there is nobody to be left behind.
- Theorem `twoWaiters_not_selectiveWake`: two waiters of whom one is to be woken.
-/

namespace LiteKernel.Kernel

open Function Lib List

namespace Sched

variable {fuel : Nat} {s s' : Sched} {q : QueueId} {nr : Int}

/-! ## What is left on the queue -/

lemma wakeUp_empties {w : QueueId → List Nat} (R : Rings waitLayout s.wait w)
    (h : s.wakeUp fuel q nr = some s') (t : Nat) : ¬ Linked s' t q := by
  obtain ⟨L, r, R1, hpos, hr, hwait, -⟩ := wakeUp_eq_some R h
  rcases wakeEach_run fuel nr (s := { s with wait := L }) R1 hpos (Nat.zero_le 1) with
    ⟨hnone, -⟩ | ⟨_, l, hr', R2, -⟩
  · cases hnone.symm.trans hr
  cases hr'.symm.trans hr
  rw [← hwait] at R2
  intro hreach
  have hmem := (R2.reaches_entry_iff (i := some q)).mp hreach
  rw [update_of_ne (Option.some_ne_none q), Option.elim_some, update_self] at hmem
  exact absurd hmem not_mem_nil

/-! ## Selective wake-ups -/

/-- The wake function of the waiter succeeds. -/
def Wakeable (s : Sched) (t : Nat) : Prop :=
  (s.defaultWakeFunction t).2 = 1

instance (s : Sched) (t : Nat) : Decidable (s.Wakeable t) :=
  inferInstanceAs (Decidable (_ = 1))

/-- The tasks of a list that have become runnable between two states, in its order. -/
def madeRunnable (s s' : Sched) (l : List Nat) : List Nat :=
  l.filter fun t => (s.task t).state ≠ .runnable ∧ (s'.task t).state = .runnable

/--
Of the waiters `l` of the queue the first `nr` that can be woken have become
runnable, and every other one is still linked on it.
-/
structure SelectiveWake (s s' : Sched) (q : QueueId) (nr : Int) (l : List Nat) : Prop where
  woken : madeRunnable s s' l = (l.filter fun t => s.Wakeable t).take nr.toNat
  kept : ∀ t ∈ l, t ∉ madeRunnable s s' l → Linked s' t q

lemma wakeable_iff {t : Nat} :
    s.Wakeable t ↔ (s.task t).state = .sleeping ∨ (s.task t).state = .blocked := by
  have hstate := state_setWaitq s t t none
  unfold Wakeable defaultWakeFunction wakeUpProcess
  rw [hstate]
  cases (s.task t).state <;> simp

lemma Wakeable.woken {t : Nat} (h : s.Wakeable t) :
    (s.task t).state ≠ .runnable ∧ (s.task t).state.woken = .runnable := by
  rcases wakeable_iff.mp h with h | h
  · rw [h]
    exact ⟨by decide, rfl⟩
  · rw [h]
    exact ⟨by decide, rfl⟩

lemma madeRunnable_of_wakes {l : List Nat} (hw : Wakes s s' l) (hl : ∀ t ∈ l, s.Wakeable t) :
    madeRunnable s s' l = l := by
  refine filter_eq_self.mpr fun t ht => ?_
  rw [hw.state, if_pos ht]
  exact decide_eq_true (hl t ht).woken

end Sched

open Sched

/--
`__wake_up` returns, and it wakes the first `nr` waiters that can be woken and
leaves the others on the queue exactly if every waiter can be woken and there are
at most `nr` of them.
-/
theorem selectiveWake_iff {fuel : Nat} {s : Sched} {q : QueueId} {nr : Int}
    {w : QueueId → List Nat} (R : Rings waitLayout s.wait w) (hnr : 1 ≤ nr)
    (hfuel : (w q).length < fuel) :
    ∃ s', s.wakeUp fuel q nr = some s' ∧
      (SelectiveWake s s' q nr (w q) ↔ (∀ t ∈ w q, s.Wakeable t) ∧ (w q).length ≤ nr) := by
  obtain ⟨s', hs'⟩ : ∃ s', s.wakeUp fuel q nr = some s' := wakeUp_returns R hfuel
  refine ⟨s', hs', fun h => ?_, fun ⟨hall, hlen⟩ => ?_⟩
  · -- nobody is linked any more, so everybody has to be among those made runnable
    have hsub : w q ⊆ ((w q).filter fun t => s.Wakeable t).take nr.toNat := by
      intro t ht
      rw [← h.woken]
      by_contra hn
      exact wakeUp_empties R hs' t (h.kept t ht hn)
    refine ⟨fun t ht => ?_, ?_⟩
    · have hmem := mem_of_mem_take (hsub ht)
      exact of_decide_eq_true (mem_filter.mp hmem).2
    · have hle := (List.Nodup.subperm (R.nodup q) hsub).length_le
      rw [length_take] at hle
      omega
  · have hfilter : ((w q).filter fun t => s.Wakeable t) = w q :=
      filter_eq_self.mpr fun t ht => decide_eq_true (hall t ht)
    have hone : nr ≠ 1 ∨ (w q).length ≤ 1 := by omega
    have hmade := madeRunnable_of_wakes (wakeUp_rings R hone hs').2 hall
    refine ⟨?_, fun t ht hn => ?_⟩
    · rw [hmade, hfilter, take_of_length_le (by omega)]
    · rw [hmade] at hn
      exact absurd ht hn

/-- Tasks 1 and 2 wait on one queue; task 2 came last and is in front. -/
def twoWaiters : Sched :=
  (twoTasks.waitQueueBlockLocked 1 (.other 0)).waitQueueBlockLocked 2 (.other 0)

lemma twoWaiters_rings :
    Rings waitLayout twoWaiters.wait (update (fun _ => []) (.other 0) [2, 1]) := by
  have R : Rings waitLayout twoTasks.wait (fun _ => []) := rings_nil_id _
  have R1 := waitQueueBlockLocked_rings (t := 1) (q := .other 0) R (by simp) (by decide) (by decide)
  have hfree : ∀ q, 2 ∉ update (fun _ : QueueId => []) (.other 0) [1] q := by
    intro q
    by_cases hq : q = .other 0 <;> simp [hq]
  have R2 := waitQueueBlockLocked_rings (t := 2) (q := .other 0) R1 hfree (by decide) (by decide)
  rwa [update_idem, update_self] at R2

theorem twoWaiters_selectiveWake :
    ∃ s', twoWaiters.wakeUp 3 (.other 0) 2 = some s' ∧
      SelectiveWake twoWaiters s' (.other 0) 2 [2, 1] := by
  rcases @selectiveWake_iff 3 _ (.other 0) 2 _ twoWaiters_rings (by decide) (by simp)
    with ⟨s', hs', hiff⟩
  rw [update_self] at hiff
  exact ⟨s', hs', hiff.mpr ⟨by decide, by decide⟩⟩

/-- A wake-up of one task leaves the other one on no queue. -/
theorem twoWaiters_not_selectiveWake :
    Rings waitLayout twoWaiters.wait (update (fun _ => []) (.other 0) [2, 1]) ∧
    ∃ s', twoWaiters.wakeUp 3 (.other 0) 1 = some s' ∧ (s'.task 1).state = .blocked ∧
      ¬ Linked s' 1 (.other 0) ∧ ¬ SelectiveWake twoWaiters s' (.other 0) 1 [2, 1] := by
  refine ⟨twoWaiters_rings, ?_⟩
  have hrun : (twoWaiters.wakeUp 3 (.other 0) 1).any (fun s =>
      decide ((s.task 1).state = .blocked)) = true := by decide
  rcases (Option.any_eq_true _ _).mp hrun with ⟨s', hs', hstate⟩
  have hblocked : (s'.task 1).state = .blocked := of_decide_eq_true hstate
  have hnot := wakeUp_empties twoWaiters_rings hs' 1
  refine ⟨s', hs', hblocked, hnot, fun h => hnot (h.kept 1 (by decide) fun hmade => ?_)⟩
  have hrunnable := (of_decide_eq_true (mem_filter.mp hmade).2).2
  rw [hblocked] at hrunnable
  cases hrunnable

end LiteKernel.Kernel
