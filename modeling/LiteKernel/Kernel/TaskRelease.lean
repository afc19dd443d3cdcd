import LiteKernel.Kernel.Reaping

/-!
# The check when a task is freed

`__put_task_struct` panics if the task it frees is still attached to something.

Main results:

- Theorem `taskRelease_run`: the check passes if no task is woken for the exit of a child while it
  is blocked on another queue, and no wake-up leaves waiters behind.
- Theorem `childExitKillWait_panics`: a woken task that names a queue, and the check fails.
-/

namespace LiteKernel.Kernel

open Function Lib Procs Sched

/--
In every run of fork, exit, kill, waitpid, blocking, sleeping and waking, if each
operation meets its condition in the state it starts from, then the check of
`__put_task_struct` never fails.
-/
theorem taskRelease_run {fuel : Nat} {p p' : Procs} {ops : List Procs.Op}
    (hp : Inv (fun _ _ => True) p)
    (hok : RunOk (Procs.step fuel) (fun o op => ∀ p ∈ o, p.Enabled op ∧ p.OpOk op) (some p) ops)
    (n : Nat) (h : run (Procs.step fuel) (some p) (ops.take n) = some p') :
    p'.panicked = false := by
  have hinv : ∀ x ∈ run (Procs.step fuel) (some p) (ops.take n), Procs.Inv (fun _ _ => True) x := by
    refine run_invariant (fun o => ∀ x ∈ o, Procs.Inv (fun _ _ => True) x) ?_ ?_ (hok.take n)
    · intro o op ho hop x hx
      rcases Option.bind_eq_some_iff.mp hx with ⟨y, hy, hxy⟩
      rw [(ho y hy).alive] at hxy
      rcases Option.map_eq_some_iff.mp hxy with ⟨⟨q, out⟩, hr, rfl⟩
      exact ((ho y hy).exec (fun _ => trivial) (fun _ _ _ => trivial) (hop y hy).1 (hop y hy).2 hr).1
    · intro x hx
      cases hx
      exact hp
  exact (hinv p' h).alive

/-- Task 2 blocks, is woken by a signal, exits, and is waited for. -/
def blockSignalExitWait : List Procs.Op :=
  [.fork 2 (some 3), .block 2 0, .kill 1 3 sigChld, .exit 2 ⟨0, 0, 0, 0⟩, .waitpid 1 2]

theorem blockSignalExitWait_taskRelease :
    (run (Procs.step 8) (some threeProcs) blockSignalExitWait).any
      (fun p => p.allocated 2 = false) ∧
    ∀ n p', run (Procs.step 8) (some threeProcs) (blockSignalExitWait.take n) = some p' →
      p'.panicked = false := by
  refine ⟨by decide, fun n p' h => taskRelease_run threeProcs_inv ?_ n h⟩
  refine ⟨fun p hp => ?_, fun p hp => ?_, fun p hp => ?_, fun p hp => ?_, fun p hp => ?_, trivial⟩
  · cases hp
    refine ⟨⟨⟨rfl, by decide, rfl, rfl⟩, fun c hc => ?_⟩, trivial⟩
    cases hc
    rfl
  · cases hp
    exact ⟨⟨rfl, by decide, rfl, rfl⟩, trivial⟩
  · cases hp
    exact ⟨⟨rfl, by decide, rfl, rfl⟩, fun hf => absurd rfl hf.2⟩
  · cases hp
    refine ⟨⟨rfl, by decide, rfl, rfl⟩, fun q hq => ?_⟩
    cases hq
    exact .inr (.inl rfl)
  · cases hp
    exact ⟨⟨rfl, by decide, rfl, rfl⟩, trivial⟩

/-- Task 2 blocks, is woken because its child exits, is killed, and is waited for. -/
def childExitKillWait : List Procs.Op :=
  [.fork 2 (some 3), .block 2 0, .exit 3 ⟨0, 0, 0, 0⟩, .kill 1 2 sigKill, .waitpid 1 2]

/-- All operations can happen, and the last one panics. -/
theorem childExitKillWait_panics :
    Inv (fun _ _ => True) threeProcs ∧
    RunOk (Procs.step 8) (fun o op => ∀ p ∈ o, p.Enabled op) (some threeProcs) childExitKillWait ∧
    ∃ p', run (Procs.step 8) (some threeProcs) childExitKillWait = some p' ∧
      ¬ p'.taskReleaseInvariantHolds 2 ∧ p'.panicked = true := by
  refine ⟨threeProcs_inv, ⟨fun p hp => ?_, fun p hp => ?_, fun p hp => ?_, fun p hp => ?_,
    fun p hp => ?_, trivial⟩, ?_⟩
  · cases hp
    refine ⟨⟨rfl, by decide, rfl, rfl⟩, fun c hc => ?_⟩
    cases hc
    rfl
  · cases hp
    exact ⟨rfl, by decide, rfl, rfl⟩
  · cases hp
    exact ⟨rfl, by decide, rfl, rfl⟩
  · cases hp
    exact ⟨rfl, by decide, rfl, rfl⟩
  · cases hp
    exact ⟨rfl, by decide, rfl, rfl⟩
  · have hrun : (run (Procs.step 8) (some threeProcs) childExitKillWait).any (fun p =>
        decide (¬ p.taskReleaseInvariantHolds 2 ∧ p.panicked = true)) = true := by decide
    rcases (Option.any_eq_true _ _).mp hrun with ⟨p', hp', hdec⟩
    exact ⟨p', hp', of_decide_eq_true hdec⟩

end LiteKernel.Kernel
