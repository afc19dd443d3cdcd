import LiteKernel.Kernel.Wait

/-!
# Processes: fork, exit, kill and waitpid

The model of `sys_fork` and `__put_task_struct` in `kernel/fork.c`, of
`exit_notify` and `release_task` in `kernel/exit.c`, of `sys_kill` in
`kernel/signal.c` and of `do_waitpid` in `kernel/sched/wait.c`, over the wait queues
and the task tree of `LiteKernel.Kernel.Wait`.

A task is named by its address. The allocator is not modelled: the address of a
new task is an argument of the fork, and it may be one that was freed before.
Every call runs to its end or to the point where it blocks; `do_waitpid` is the
only one that goes on after that, so the state remembers who is in it.

Main results:

- Definition `Procs.exec`: one call.
-/

namespace LiteKernel.Kernel

open Function Lib

/-- The tasks with their reference counts, and the calls that are blocked. -/
structure Procs where
  sched : Sched
  usage : Nat → Int
  /-- The task has an `mm`. -/
  hasMm : Nat → Bool
  /-- The `task_struct` at this address has not been freed. -/
  allocated : Nat → Bool
  /-- The argument of the `do_waitpid` that the task is in. -/
  waiting : Nat → Option Nat
  lastPid : Nat
  /-- The task of `sched_init`, which only halts the processor. -/
  idle : Nat
  panicked : Bool

/-- What a call gives to its caller. -/
inductive Outcome where
  | value (r : Int)
  /-- `do_waitpid` returns a pid and stores a status. -/
  | reaped (pid : Int) (status : Sched.ExitStatus)
  | blocked

def sigInt : Int := 2
def sigKill : Int := 9
def sigTerm : Int := 15
def sigChld : Int := 17

def taskExitSignal : Int := 3

/-- A 32-bit value as an `int`. -/
def toInt32 (n : Nat) : Int :=
  if n < 2 ^ 31 then n else n - 2 ^ 32

/-- The `id` that stands for every child, `(uint32_t)-1`. -/
def wantAny (id : Nat) : Prop :=
  id = 2 ^ 32 - 1

instance (id : Nat) : Decidable (wantAny id) :=
  inferInstanceAs (Decidable (_ = _))

def Task.exitStatus (k : Task) : Sched.ExitStatus where
  code := k.exitCode
  reason := k.exitState
  info0 := k.exitInfo0
  info1 := k.exitInfo1

namespace Procs

/-! ## References -/

def getTaskStruct (p : Procs) (t : Nat) : Procs :=
  { p with usage := update p.usage t (p.usage t + 1) }

/-- The check at the end of the life of a task. -/
def taskReleaseInvariantHolds (p : Procs) (t : Nat) : Prop :=
  ¬ p.sched.isIdleTask t ∧ (p.sched.task t).state = .zombie ∧
    (p.sched.task t).realParent = none ∧ (p.sched.task t).parent = none ∧
    t ∉ p.sched.taskList ∧ p.sched.kin.ListEmpty (.sibling t) ∧
    p.sched.kin.ListEmpty (.children t) ∧ (p.sched.task t).waitq = none

instance (p : Procs) (t : Nat) : Decidable (p.taskReleaseInvariantHolds t) :=
  inferInstanceAs (Decidable (_ ∧ _))

/-- The function `__put_task_struct`. -/
def freeTaskStruct (p : Procs) (t : Nat) : Procs :=
  if ¬ p.taskReleaseInvariantHolds t then { p with panicked := true }
  else if p.usage t ≠ 0 then { p with panicked := true }
  else { p with allocated := update p.allocated t false }

def putTaskStruct (p : Procs) (t : Nat) : Procs :=
  let p := { p with usage := update p.usage t (p.usage t - 1) }
  if p.usage t = 0 then p.freeTaskStruct t else p

/-! ## Fork -/

/-- The fields of a new task. -/
def newTask (parent pid : Nat) : Task where
  pid := pid
  realParent := some parent
  parent := some parent
  wakeJiffies := 0
  state := .runnable
  timeSlice := taskTimesliceTicks
  exitCode := 0
  exitState := 0
  exitInfo0 := 0
  exitInfo1 := 0
  waitq := none

/-- The nodes of a new task are initialised, and it goes on the lists. -/
def linkTask (s : Sched) (parent c : Nat) : Sched :=
  let s := { s with wait := s.wait.initListHead (.entry c) }
  let s := { s with kin := (s.kin.initListHead (.children c)).initListHead (.sibling c) }
  let s := { s with wait := s.wait.initListHead (.head (.childExitWait c)) }
  { s with
    kin := s.kin.listAddTail (.sibling c) (.children parent)
    taskList := s.taskList ++ [c] }

/-- The call of task `t`; without an address one of the allocations fails. -/
def sysFork (p : Procs) (t : Nat) (child : Option Nat) : Procs × Outcome :=
  match p.hasMm t, child with
  | true, some c =>
    let pid := (p.lastPid + 1) % 2 ^ 32
    let s := { p.sched with task := update p.sched.task c (newTask t pid) }
    ({ p with
        sched := linkTask s t c
        usage := update p.usage c 1
        hasMm := update p.hasMm c true
        allocated := update p.allocated c true
        waiting := update p.waiting c none
        lastPid := pid }, .value (toInt32 pid))
  | _, _ => (p, .value (-1))

/-! ## Exit and kill -/

/-- The references that `exit_notify` holds while it runs are those to the parent and the reaper. -/
def exitNotify (fuel : Nat) (p : Procs) (t : Nat) (x : Sched.ExitStatus) : Option Procs :=
  if p.sched.isIdleTask t then some p
  else if (p.sched.task t).state = .zombie then some p
  else do
    let parent := (p.sched.task t).parent
    let reaper := p.sched.reaperOf t
    let p := parent.elim p p.getTaskStruct
    let p := p.sched.taskReaperLocked.elim p p.getTaskStruct
    let s ← p.sched.exitNotify fuel t x
    let p := { p with sched := s, hasMm := update p.hasMm t false }
    let p := parent.elim p p.putTaskStruct
    some (if reaper ≠ t then p.putTaskStruct reaper else p)

/-- The call of task `self`. -/
def sysKill (fuel : Nat) (p : Procs) (self id : Nat) (sig : Int) : Option (Procs × Outcome) :=
  if ¬ (sig = 0 ∨ sig = sigChld ∨ sig = sigInt ∨ sig = sigKill ∨ sig = sigTerm) then
    some (p, .value (-1))
  else if id = 0 then some (p, .value (-1))
  else
    match p.sched.findTaskByVpid id with
    | none => some (p, .value (-1))
    | some t =>
      if p.sched.isIdleTask t then some (p, .value (-1))
      else if sig = 0 then some (p, .value 0)
      else if sig = sigChld then
        match (p.sched.task t).parent with
        | none => some (p, .value (-1))
        | some q => some ({ p with sched := p.sched.signalWakeUpState q }, .value 0)
      else if (p.sched.task t).state = .zombie then some (p, .value 0)
      else if p.hasMm t = false then some (p, .value (-1))
      else if t = self then
        (p.exitNotify fuel t ⟨128 + sig, taskExitSignal, sig.toNat, 0⟩).map (·, .value 0)
      else if (p.sched.task t).pid = 1 then some (p, .value (-1))
      else (p.exitNotify fuel t ⟨128 + sig, taskExitSignal, sig.toNat, 0⟩).map (·, .value 0)

/-! ## Waitpid -/

def releaseTask (p : Procs) (t : Nat) : Procs :=
  if p.sched.isIdleTask t then p
  else
    let s := p.sched
    let s := if s.kin.ListEmpty (.sibling t) then s
      else { s with kin := s.kin.listDelInit .null (.sibling t) }
    let s := { s with taskList := s.taskList.erase t }
    let s := s.setTask t fun k => { k with realParent := none, parent := none }
    { p with sched := s }.putTaskStruct t

/--
The loop of `do_waitpid` over the children: the zombie that is taken, if there is
one, and whether a child was asked for.
-/
def scanChildren : Nat → Sched → Nat → Nat → Bool → KinNode → Option (Option Nat × Bool)
  | 0, _, _, _, _, _ => none
  | fuel + 1, s, t, id, hasTarget, pos =>
    match pos with
    | .children u => if u = t then some (none, hasTarget) else none
    | .sibling c =>
      if ¬ (wantAny id ∨ (s.task c).pid = id) then
        scanChildren fuel s t id hasTarget (s.kin.next pos)
      else if (s.task c).state = .zombie then some (some c, true)
      else if ¬ wantAny id then some (none, true)
      else scanChildren fuel s t id true (s.kin.next pos)
    | .null => none

/-- A zombie is taken off the children list and released. -/
def reap (p : Procs) (t c : Nat) : Procs × Outcome :=
  let p := p.getTaskStruct c
  let p := { p with sched.kin := p.sched.kin.listDelInit .null (.sibling c) }
  let status := (p.sched.task c).exitStatus
  let waited := toInt32 (p.sched.task c).pid
  let p := p.releaseTask c
  let p := p.putTaskStruct c
  ({ p with waiting := update p.waiting t none }, .reaped waited status)

/-- One round of the outer loop of `do_waitpid`. -/
def waitRound (fuel : Nat) (p : Procs) (t id : Nat) : Option (Procs × Outcome) := do
  let r ← scanChildren fuel p.sched t id false (p.sched.kin.next (.children t))
  match r with
  | (some c, _) => some (p.reap t c)
  | (none, hasTarget) =>
    if p.sched.kin.ListEmpty (.children t) ∨ hasTarget = false then
      some ({ p with waiting := update p.waiting t none }, .value (-1))
    else
      some ({ p with
        sched := p.sched.waitQueueBlockLocked t (.childExitWait t)
        waiting := update p.waiting t (some id) }, .blocked)

/-- The call of task `t`, up to the point where it blocks. -/
def doWaitpid (fuel : Nat) (p : Procs) (t id : Nat) : Option (Procs × Outcome) :=
  if id = 0 then some (p, .value (-1))
  else if ¬ wantAny id ∧ (p.sched.task t).pid = id then some (p, .value (-1))
  else p.waitRound fuel t id

/-! ## Sleeping -/

def taskSleep (s : Sched) (t ticks jiffies : Nat) : Sched :=
  if ticks = 0 then s
  else
    { s.setTask t fun k =>
        { k with wakeJiffies := (jiffies + ticks) % 2 ^ 32, state := .sleeping } with
      needResched := true }

def wakeSleeper (now : Nat) (s : Sched) (t : Nat) : Sched :=
  if (s.task t).state = .sleeping ∧ 0 ≤ toInt32 ((now + 2 ^ 32 - (s.task t).wakeJiffies) % 2 ^ 32)
  then s.setTask t fun k => { k with state := .runnable }
  else s

def runqueueWakeSleepers (s : Sched) (now : Nat) : Sched :=
  s.taskList.foldl (wakeSleeper now) s

/-! ## Steps -/

/-- What can happen next. -/
inductive Op where
  | fork (t : Nat) (child : Option Nat)
  /-- `do_exit_reason`, by the task itself. -/
  | exit (t : Nat) (x : Sched.ExitStatus)
  | kill (t id : Nat) (sig : Int)
  | waitpid (t id : Nat)
  /-- A task that has been woken goes on in `do_waitpid`. -/
  | resume (t : Nat)
  /-- The task blocks on a queue that is not its `child_exit_wait`. -/
  | block (t n : Nat)
  | sleep (t ticks jiffies : Nat)
  | wakeUp (n : Nat) (nr : Int)
  /-- The timer wakes the sleepers whose time has come. -/
  | tick (now : Nat)

/-- The task runs, and is not in a call. -/
def Runs (p : Procs) (t : Nat) : Prop :=
  p.allocated t = true ∧ t ≠ p.idle ∧ (p.sched.task t).state = .runnable ∧ p.waiting t = none

/-- The operation can happen. -/
def Enabled (p : Procs) : Op → Prop
  | .fork t child => p.Runs t ∧ ∀ c ∈ child, p.allocated c = false
  | .exit t _ | .kill t _ _ | .waitpid t _ | .block t _ | .sleep t _ _ => p.Runs t
  | .resume t =>
    p.allocated t = true ∧ t ≠ p.idle ∧ (p.sched.task t).state = .runnable ∧ p.waiting t ≠ none
  | .wakeUp _ _ | .tick _ => True

/-- The state in which an operation returns or blocks, and what it gives to its caller. -/
def exec (fuel : Nat) (p : Procs) : Op → Option (Procs × Outcome)
  | .fork t child => some (p.sysFork t child)
  | .exit t x => (p.exitNotify fuel t x).map (·, .value 0)
  | .kill t id sig => p.sysKill fuel t id sig
  | .waitpid t id => p.doWaitpid fuel t id
  | .resume t => (p.waiting t).bind fun id => p.waitRound fuel t id
  | .block t n => some ({ p with sched := p.sched.waitQueueBlockLocked t (.other n) }, .blocked)
  | .sleep t ticks jiffies => some ({ p with sched := taskSleep p.sched t ticks jiffies }, .blocked)
  | .wakeUp n nr =>
    (p.sched.wakeUp fuel (.other n) nr).map fun s => ({ p with sched := s }, .value 0)
  | .tick now => some ({ p with sched := runqueueWakeSleepers p.sched now }, .value 0)

/-- One step of a run; there is no further state after a panic or a call that does not return. -/
def step (fuel : Nat) (o : Option Procs) (op : Op) : Option Procs :=
  o.bind fun p => if p.panicked then none else (p.exec fuel op).map Prod.fst

end Procs

end LiteKernel.Kernel
