import LiteKernel.Lib.Ring

/-!
# Wait queues, wake-ups and task exit

The model of `kernel/sched/wait.c`, of `wake_up_process` in
`kernel/sched/core.c`, of the wake-ups of `kernel/signal.c` and of
`exit_notify` in `kernel/exit.c`.

A wait queue is a ring of `list_head` nodes: one in the queue and one in the
`wait_entry` of each task that waits. The pointers are modelled as they are, so
that an entry which is initialised while it is linked leaves the neighbours
pointing at it, as in the kernel. The children lists are rings of the same kind,
over nodes of their own.

The loops take a bound on the number of rounds. A call that yields
`none` has not returned within that bound, or has followed a pointer to a
node that is not embedded in the structure the code takes it for.

Main results:

- Definitions `wakeUp`, `waitQueueBlockLocked`, `exitNotify`: the calls.
-/

namespace LiteKernel.Kernel

open Function Lib

/-- The `TASK_*` states. -/
inductive TaskState where
  | runnable
  | sleeping
  | blocked
  | zombie
  deriving DecidableEq, Repr

/-- A wait queue head: the `child_exit_wait` of a task, or one of the other queues. -/
inductive QueueId where
  | childExitWait (t : Nat)
  | other (n : Nat)
  deriving DecidableEq, Repr

/-- The `list_head` nodes of wait queues; `wakeList` is the local list of `__wake_up`. -/
inductive WaitNode where
  | null
  | head (q : QueueId)
  | wakeList
  | entry (t : Nat)
  deriving DecidableEq, Repr

/-- The `list_head` nodes of the task tree. -/
inductive KinNode where
  | null
  | children (t : Nat)
  | sibling (t : Nat)
  deriving DecidableEq, Repr

/-- The fields of `task_struct` that blocking, waking and exiting read or write. -/
structure Task where
  pid : Nat
  realParent : Option Nat
  parent : Option Nat
  wakeJiffies : Nat
  state : TaskState
  timeSlice : Int
  exitCode : Int
  exitState : Int
  exitInfo0 : Nat
  exitInfo1 : Nat
  waitq : Option QueueId

/-- All tasks, the pointers of the wait queues and of the task tree, and the task list. -/
structure Sched where
  task : Nat → Task
  wait : Links WaitNode
  kin : Links KinNode
  taskList : List Nat
  needResched : Bool

def taskTimesliceTicks : Int := 3

namespace Sched

/-- Write fields of one task. -/
def setTask (s : Sched) (t : Nat) (f : Task → Task) : Sched :=
  { s with task := update s.task t (f (s.task t)) }

def isIdleTask (s : Sched) (t : Nat) : Prop :=
  (s.task t).pid = 0

instance (s : Sched) (t : Nat) : Decidable (s.isIdleTask t) :=
  inferInstanceAs (Decidable ((s.task t).pid = 0))

/-! ## Waking one task -/

/-- What `wake_up_process` does to a sleeping or blocked task. -/
def makeRunnable (s : Sched) (t : Nat) (f : Task → Task) : Sched :=
  { s.setTask t fun k =>
      let k := f k
      { k with
        state := .runnable
        timeSlice := if k.timeSlice ≤ 0 then taskTimesliceTicks else k.timeSlice } with
    needResched := true }

/-- The new state and the value returned. -/
def wakeUpProcess (s : Sched) (t : Nat) : Sched × Nat :=
  match (s.task t).state with
  | .sleeping => (s.makeRunnable t fun k => { k with wakeJiffies := 0 }, 1)
  | .blocked => (s.makeRunnable t id, 1)
  | _ => (s, 0)

def setWaitq (s : Sched) (t : Nat) (q : Option QueueId) : Sched :=
  s.setTask t fun k => { k with waitq := q }

def defaultWakeFunction (s : Sched) (t : Nat) : Sched × Nat :=
  (s.setWaitq t none).wakeUpProcess t

/-! ## Wait queues -/

/-- The call of a running task; the other fields of the entry are the same for every task. -/
def waitQueueBlockLocked (s : Sched) (t : Nat) (q : QueueId) : Sched :=
  if (s.task t).waitq = some q then s
  else if (s.task t).state = .zombie then s
  else
    let s := s.setWaitq t (some q)
    let s := { s with wait := s.wait.initListHead (.entry t) }
    let s := { s with wait := s.wait.listAdd (.entry t) (.head q) }
    s.setTask t fun k => { k with state := .blocked }

/-- The first loop of `__wake_up`: all entries of the queue move to the local list. -/
def drainWaiters : Nat → Links WaitNode → QueueId → Option (Links WaitNode)
  | 0, _, _ => none
  | fuel + 1, L, q =>
    if L.ListEmpty (.head q) then some L
    else
      let entry := L.next (.head q)
      drainWaiters fuel ((L.listDelInit .null entry).listAddTail entry .wakeList) q

/-- The second loop: `list_for_each_safe` over the local list. -/
def wakeEach : Nat → Sched → Int → Nat → WaitNode → WaitNode → Option (Sched × Nat)
  | 0, _, _, _, _, _ => none
  | fuel + 1, s, nr, woke, pos, n =>
    match pos with
    | .wakeList => some (s, woke)
    | .entry t =>
      let s := { s with wait := s.wait.listDelInit .null (.entry t) }
      let r := s.defaultWakeFunction t
      let woke := woke ||| r.2
      if 0 < nr ∧ nr ≤ woke then some (r.1, woke)
      else wakeEach fuel r.1 nr woke n (r.1.wait.next n)
    -- neither a wait entry nor the head of the list: its `func` is not a function
    | .null | .head _ => none

/-- The function `__wake_up`. -/
def wakeUp (fuel : Nat) (s : Sched) (q : QueueId) (nr : Int) : Option Sched := do
  let wait ← drainWaiters fuel (s.wait.initListHead .wakeList) q
  let pos := wait.next .wakeList
  let r ← wakeEach fuel { s with wait := wait } nr 0 pos (wait.next pos)
  if r.2 ≠ 0 then some { r.1 with needResched := true } else some r.1

def wakeUpAll (fuel : Nat) (s : Sched) (q : QueueId) : Option Sched :=
  s.wakeUp fuel q 0

def removeWaitQueue (s : Sched) (t : Nat) : Sched :=
  if s.wait.ListEmpty (.entry t) then s
  else { s with wait := s.wait.listDelInit .null (.entry t) }

/-- The queue is only used for its lock. -/
def waitQueueRemove (s : Sched) (_q : QueueId) (t : Nat) : Sched :=
  (s.removeWaitQueue t).setWaitq t none

/-! ## Signals -/

def signalWakeUpState (s : Sched) (t : Nat) : Sched :=
  if (s.task t).state = .sleeping then (s.wakeUpProcess t).1
  else
    match (s.task t).state, (s.task t).waitq with
    | .blocked, some q => ((s.waitQueueRemove q t).wakeUpProcess t).1
    | _, _ => s

def signalNotifyExit (fuel : Nat) (s : Sched) (child : Nat) : Option Sched :=
  match (s.task child).parent with
  | none => some s
  | some p => (s.wakeUpProcess p).1.wakeUpAll fuel (.childExitWait p)

/-! ## Exit -/

def findTaskByVpid (s : Sched) (pid : Nat) : Option Nat :=
  s.taskList.find? fun t => (s.task t).pid = pid

def taskReaperLocked (s : Sched) : Option Nat :=
  (s.findTaskByVpid 1).or s.taskList.head?

/-- The task that inherits the children of `t`. -/
def reaperOf (s : Sched) (t : Nat) : Nat :=
  s.taskReaperLocked.getD t

/-- One round of `reparent_children`. -/
def reparentChild (s : Sched) (t reaper : Nat) : Sched :=
  let s := { s with kin := s.kin.listDel .null (.sibling t) }
  let s := s.setTask t fun k => { k with realParent := some reaper, parent := some reaper }
  { s with kin := s.kin.listAddTail (.sibling t) (.children reaper) }

/-- The loop of `reparent_children`: `list_for_each_entry_safe` over the children. -/
def reparentEach : Nat → Sched → Nat → Nat → Bool → KinNode → KinNode → Option (Sched × Bool)
  | 0, _, _, _, _, _, _ => none
  | fuel + 1, s, parent, reaper, wake, pos, n =>
    match pos with
    | .children p => if p = parent then some (s, wake) else none
    | .sibling t =>
      let s := s.reparentChild t reaper
      let wake := if (s.task t).state = .zombie then true else wake
      reparentEach fuel s parent reaper wake n (s.kin.next n)
    | .null => none

def reparentChildren (fuel : Nat) (s : Sched) (parent reaper : Nat) : Option (Sched × Bool) :=
  if s.kin.ListEmpty (.children parent) then some (s, false)
  else
    let pos := s.kin.next (.children parent)
    reparentEach fuel s parent reaper false pos (s.kin.next pos)

/-- The values a task exits with. -/
structure ExitStatus where
  code : Int
  reason : Int
  info0 : Nat
  info1 : Nat

def taskZombify (s : Sched) (t : Nat) (x : ExitStatus) : Sched :=
  if s.isIdleTask t then s
  else if (s.task t).state = .zombie then s
  else
    s.setTask t fun k =>
      { k with
        exitCode := x.code
        exitState := x.reason
        exitInfo0 := x.info0
        exitInfo1 := x.info1
        state := .zombie }

/-- The first step of `exit_notify`: a task that waits leaves its queue. -/
def leaveQueue (s : Sched) (t : Nat) : Sched :=
  match (s.task t).state, (s.task t).waitq with
  | .blocked, some q => s.waitQueueRemove q t
  | _, _ => s

/-- The wake-up of the parents that wait for their children, if there is one to wake. -/
def wakeChildExit (fuel : Nat) (s : Sched) : Option Nat → Option Sched
  | some p => s.wakeUpAll fuel (.childExitWait p)
  | none => some s

def exitNotify (fuel : Nat) (s : Sched) (t : Nat) (x : ExitStatus) : Option Sched :=
  if s.isIdleTask t then some s
  else if (s.task t).state = .zombie then some s
  else do
    let s := s.leaveQueue t
    let parent := (s.task t).parent
    let reaper := s.reaperOf t
    let r ← s.reparentChildren fuel t reaper
    let s ← (r.1.taskZombify t x).signalNotifyExit fuel t
    let s ← s.wakeChildExit fuel parent
    let s ← s.wakeChildExit fuel (if r.2 then some reaper else none)
    some { s with needResched := true }

end Sched

end LiteKernel.Kernel
