import LiteKernel.Kernel.Process
import LiteKernel.Kernel.WaitMembership

/-!
# What waking, blocking and exiting do to the task tree

Waking and blocking change states and queues, but nothing of what the tasks are to
each other: `Keeps`. An exit makes a zombie and moves its children: `Exits`.

Main results:

- Theorem `exit_finishes_iff`: which exits come to an end.
- Theorem `init_exit_never_ends`: the exit of a reaper with two children.
- Lemma `exitNotify_exits`: an exit that ends is an `Exits`.
-/

namespace LiteKernel.Kernel

open Function Lib List Option Procs

/-- What a task is to its family: neither waking nor blocking changes it. -/
def Task.record (k : Task) : Nat × Option Nat × Option Nat × Sched.ExitStatus :=
  (k.pid, k.realParent, k.parent, k.exitStatus)

namespace Sched

variable {fuel : Nat} {s s' s1 s2 s3 : Sched} {t : Nat} {w : QueueId → List Nat}
variable {x : ExitStatus} {kids kids' : Nat → List Nat} {f : Task → Task} {nr : Int} {reaper : Nat}

/-! ## Steps that leave the tree alone -/

/-- The tree, the task list and the zombies are as before. -/
structure Keeps (s s' : Sched) : Prop where
  kin : s'.kin = s.kin
  taskList : s'.taskList = s.taskList
  record : ∀ x, (s'.task x).record = (s.task x).record
  zombie : ∀ x, (s'.task x).state = .zombie ↔ (s.task x).state = .zombie

lemma Keeps.refl (s : Sched) : Keeps s s :=
  ⟨rfl, rfl, fun _ => rfl, fun _ => Iff.rfl⟩

lemma Keeps.trans (h1 : Keeps s1 s2) (h2 : Keeps s2 s3) : Keeps s1 s3 where
  kin := h2.kin.trans h1.kin
  taskList := h2.taskList.trans h1.taskList
  record x := (h2.record x).trans (h1.record x)
  zombie x := (h2.zombie x).trans (h1.zombie x)

lemma Keeps.pid (h : Keeps s s') (x : Nat) : (s'.task x).pid = (s.task x).pid :=
  congrArg Prod.fst (h.record x)

lemma Keeps.parent (h : Keeps s s') (x : Nat) : (s'.task x).parent = (s.task x).parent :=
  congrArg (fun r => r.2.2.1) (h.record x)

lemma Keeps.exitStatus (h : Keeps s s') (x : Nat) :
    (s'.task x).exitStatus = (s.task x).exitStatus :=
  congrArg (fun r => r.2.2.2) (h.record x)

lemma keeps_setTask (hrecord : ∀ k, (f k).record = k.record)
    (hzombie : (f (s.task t)).state = .zombie ↔ (s.task t).state = .zombie) :
    Keeps s (s.setTask t f) where
  kin := rfl
  taskList := rfl
  record := field_setTask Task.record hrecord
  zombie x := by
    by_cases hx : x = t
    · rw [hx, task_setTask_self]
      exact hzombie
    · rw [task_setTask_of_ne hx]

/-- A task leaves the queue it names, or stays on it. -/
def Leaves (s s' : Sched) : Prop :=
  ∀ x, (s'.task x).waitq = (s.task x).waitq ∨ (s'.task x).waitq = none

lemma Leaves.refl (s : Sched) : Leaves s s :=
  fun _ => .inl rfl

lemma Leaves.trans (h1 : Leaves s1 s2) (h2 : Leaves s2 s3) : Leaves s1 s3 := by
  intro x
  rcases h2 x with h | h
  · rw [h]
    exact h1 x
  · exact .inr h

/-- A wake-up: some tasks become runnable and leave their queues. -/
structure Rouses (s s' : Sched) : Prop extends Keeps s s' where
  leaves : Leaves s s'

lemma Rouses.refl (s : Sched) : Rouses s s :=
  ⟨Keeps.refl s, Leaves.refl s⟩

lemma Rouses.trans (h1 : Rouses s1 s2) (h2 : Rouses s2 s3) : Rouses s1 s3 :=
  ⟨h1.toKeeps.trans h2.toKeeps, h1.leaves.trans h2.leaves⟩

lemma makeRunnable_keeps (hrecord : ∀ k, (f k).record = k.record)
    (hz : (s.task t).state ≠ .zombie) : Keeps s (s.makeRunnable t f) := by
  have h : Keeps s (s.setTask t fun k => { f k with
      state := .runnable
      timeSlice := if (f k).timeSlice ≤ 0 then taskTimesliceTicks else (f k).timeSlice }) :=
    keeps_setTask hrecord ⟨nofun, fun h => absurd h hz⟩
  exact ⟨h.kin, h.taskList, h.record, h.zombie⟩

lemma wakeUpProcess_rouses (s : Sched) (t : Nat) : Rouses s (s.wakeUpProcess t).1 := by
  refine ⟨?_, fun x => .inl (waitq_wakeUpProcess s t x)⟩
  unfold wakeUpProcess
  cases hs : (s.task t).state with
  | runnable => exact Keeps.refl s
  | zombie => exact Keeps.refl s
  | sleeping => exact makeRunnable_keeps (fun _ => rfl) (by rw [hs]; decide)
  | blocked => exact makeRunnable_keeps (fun _ => rfl) (by rw [hs]; decide)

lemma setWaitq_rouses (s : Sched) (t : Nat) : Rouses s (s.setWaitq t none) := by
  refine ⟨keeps_setTask (fun _ => rfl) Iff.rfl, fun x => ?_⟩
  rw [waitq_setWaitq]
  by_cases hx : x = t
  · exact .inr (if_pos hx)
  · exact .inl (if_neg hx)

lemma defaultWakeFunction_rouses (s : Sched) (t : Nat) :
    Rouses s (s.defaultWakeFunction t).1 :=
  (setWaitq_rouses s t).trans (wakeUpProcess_rouses _ t)

lemma wakeEach_rouses {woke : Nat} {pos n : WaitNode} {r : Sched × Nat}
    (h : wakeEach fuel s nr woke pos n = some r) : Rouses s r.1 := by
  induction fuel generalizing s woke pos n with
  | zero => cases h
  | succ fuel ih =>
    cases pos with
    | null => cases h
    | head q => cases h
    | wakeList =>
      rw [wakeEach] at h
      cases h
      exact Rouses.refl s
    | entry t =>
      rw [wakeEach] at h
      have hw : Rouses s
          ({ s with wait := s.wait.listDelInit .null (.entry t) }.defaultWakeFunction t).1 := by
        have hd := defaultWakeFunction_rouses
          { s with wait := s.wait.listDelInit .null (.entry t) } t
        exact ⟨⟨hd.kin, hd.taskList, hd.record, hd.zombie⟩, hd.leaves⟩
      split at h
      · cases h
        exact hw
      · exact hw.trans (ih h)

lemma wakeUp_rouses {q : QueueId} (h : s.wakeUp fuel q nr = some s') : Rouses s s' := by
  unfold wakeUp at h
  simp only [bind_eq_bind, bind_eq_some_iff] at h
  rcases h with ⟨L, -, r, hr, h⟩
  have hw := wakeEach_rouses hr
  split at h
  · cases h
    exact ⟨⟨hw.kin, hw.taskList, hw.record, hw.zombie⟩, hw.leaves⟩
  · cases h
    exact ⟨⟨hw.kin, hw.taskList, hw.record, hw.zombie⟩, hw.leaves⟩

lemma removeWaitQueue_rouses (s : Sched) (t : Nat) : Rouses s (s.removeWaitQueue t) := by
  unfold removeWaitQueue
  split
  · exact Rouses.refl s
  · exact ⟨⟨rfl, rfl, fun _ => rfl, fun _ => Iff.rfl⟩, fun _ => .inl rfl⟩

lemma waitQueueRemove_rouses (s : Sched) (q : QueueId) (t : Nat) :
    Rouses s (s.waitQueueRemove q t) :=
  (removeWaitQueue_rouses s t).trans (setWaitq_rouses _ t)

lemma signalWakeUpState_rouses (s : Sched) (t : Nat) : Rouses s (s.signalWakeUpState t) := by
  unfold signalWakeUpState
  split
  · exact wakeUpProcess_rouses s t
  · split
    · exact (waitQueueRemove_rouses s _ t).trans (wakeUpProcess_rouses _ t)
    · exact Rouses.refl s

lemma signalNotifyExit_rouses (h : s.signalNotifyExit fuel t = some s') : Rouses s s' := by
  unfold signalNotifyExit at h
  split at h
  · cases h
    exact Rouses.refl s
  · exact (wakeUpProcess_rouses s _).trans (wakeUp_rouses h)

lemma leaveQueue_rouses (s : Sched) (t : Nat) : Rouses s (s.leaveQueue t) := by
  unfold leaveQueue
  split
  · exact waitQueueRemove_rouses s _ t
  · exact Rouses.refl s

lemma wakeChildExit_rouses {o : Option Nat} (h : s.wakeChildExit fuel o = some s') :
    Rouses s s' := by
  cases o with
  | none =>
    cases h
    exact Rouses.refl s
  | some p => exact wakeUp_rouses h

lemma waitQueueBlockLocked_keeps (s : Sched) (t : Nat) (q : QueueId) :
    Keeps s (s.waitQueueBlockLocked t q) := by
  unfold waitQueueBlockLocked
  split
  · exact Keeps.refl s
  · split
    · exact Keeps.refl s
    · rename_i hz
      let s1 : Sched := { s.setWaitq t (some q) with
        wait := (s.wait.initListHead (.entry t)).listAdd (.entry t) (.head q) }
      have h1 : Keeps s (s.setWaitq t (some q)) := keeps_setTask (fun _ => rfl) Iff.rfl
      have h2 : Keeps s s1 := ⟨h1.kin, h1.taskList, h1.record, h1.zombie⟩
      have hz1 : (s1.task t).state ≠ .zombie := by
        rw [Ne, h2.zombie]
        exact hz
      exact h2.trans (keeps_setTask (fun _ => rfl) ⟨nofun, fun h => absurd h hz1⟩)

lemma setTask_rouses (hrecord : ∀ k, (f k).record = k.record)
    (hwaitq : ∀ k, (f k).waitq = k.waitq) (hf : (f (s.task t)).state ≠ .zombie)
    (hz : (s.task t).state ≠ .zombie) : Rouses s (s.setTask t f) :=
  ⟨keeps_setTask hrecord (iff_of_false hf hz), fun x => .inl (field_setTask Task.waitq hwaitq x)⟩

lemma Settled.setTask (h : Settled s w) (hwaitq : ∀ k, (f k).waitq = k.waitq)
    (ht : (s.task t).waitq = none) : Settled (s.setTask t f) w := by
  refine h.of_state rfl (field_setTask Task.waitq hwaitq) fun x hx => ?_
  have hxt : x ≠ t := fun e => hx (e ▸ ht)
  rw [task_setTask_of_ne hxt]

lemma taskSleep_rouses {ticks jiffies : Nat} (h : Settled s w)
    (ht : (s.task t).state = .runnable) (hq : (s.task t).waitq = none) :
    Rouses s (taskSleep s t ticks jiffies) ∧ Settled (taskSleep s t ticks jiffies) w := by
  unfold taskSleep
  split
  · exact ⟨Rouses.refl s, h⟩
  · let f : Task → Task := fun k =>
      { k with wakeJiffies := (jiffies + ticks) % 2 ^ 32, state := .sleeping }
    have hr : Rouses s (s.setTask t f) :=
      setTask_rouses (fun _ => rfl) (fun _ => rfl) nofun (by rw [ht]; decide)
    have hs : Settled (s.setTask t f) w := h.setTask (fun _ => rfl) hq
    exact ⟨⟨⟨hr.kin, hr.taskList, hr.record, hr.zombie⟩, hr.leaves⟩,
      hs.of_state rfl (fun _ => rfl) fun _ _ => rfl⟩

lemma wakeSleeper_rouses (h : Settled s w) (now t : Nat) :
    Rouses s (wakeSleeper now s t) ∧ Settled (wakeSleeper now s t) w := by
  unfold wakeSleeper
  split
  · rename_i ht
    have hq : (s.task t).waitq = none := by
      by_contra hne
      rcases ne_none_iff_exists'.mp hne with ⟨q, hq⟩
      have hb := h.blocked t q ((h.waitq t q).mpr hq)
      rw [ht.1] at hb
      cases hb
    exact ⟨setTask_rouses (fun _ => rfl) (fun _ => rfl) nofun (by rw [ht.1]; decide),
      h.setTask (fun _ => rfl) hq⟩
  · exact ⟨Rouses.refl s, h⟩

lemma runqueueWakeSleepers_rouses (h : Settled s w) (now : Nat) :
    Rouses s (runqueueWakeSleepers s now) ∧ Settled (runqueueWakeSleepers s now) w := by
  unfold runqueueWakeSleepers
  generalize s.taskList = l
  induction l generalizing s with
  | nil => exact ⟨Rouses.refl s, h⟩
  | cons t l ih =>
    have h1 := wakeSleeper_rouses h now t
    have h2 := ih h1.2
    exact ⟨h1.1.trans h2.1, h2.2⟩

/-! ## Exit -/

/--
What `exit_notify` does: the task becomes a zombie with its status, and its
children become children of the reaper.
-/
structure Exits (s s' : Sched) (t reaper : Nat) (x : ExitStatus) (kids kids' : Nat → List Nat) :
    Prop where
  taskList : s'.taskList = s.taskList
  rings : Rings kinLayout s'.kin kids'
  mem : ∀ c p, c ∈ kids' p ↔ c ∈ kids t ∧ p = reaper ∨ c ∉ kids t ∧ c ∈ kids p
  moved : ∀ y ∈ kids t, (s'.task y).parent = some reaper
  kept : ∀ y, y ∉ kids t → (s'.task y).parent = (s.task y).parent
  pid : ∀ y, (s'.task y).pid = (s.task y).pid
  zombie : ∀ y, (s'.task y).state = .zombie ↔ y = t ∨ (s.task y).state = .zombie
  status : (s'.task t).exitStatus = x
  others : ∀ y, y ≠ t → (s'.task y).exitStatus = (s.task y).exitStatus
  leaves : Leaves s s'

lemma Exits.of_rouses (h1 : Rouses s s1) (h : Exits s1 s2 t reaper x kids kids')
    (h2 : Rouses s2 s3) :
    Exits s s3 t reaper x kids kids' where
  taskList := (h2.taskList.trans h.taskList).trans h1.taskList
  rings := h2.kin ▸ h.rings
  mem := h.mem
  moved y hy := (h2.parent y).trans (h.moved y hy)
  kept y hy := ((h2.parent y).trans (h.kept y hy)).trans (h1.parent y)
  pid y := ((h2.pid y).trans (h.pid y)).trans (h1.pid y)
  zombie y := by rw [h2.zombie, h.zombie, h1.zombie]
  status := (h2.exitStatus t).trans h.status
  others y hy := ((h2.exitStatus y).trans (h.others y hy)).trans (h1.exitStatus y)
  leaves := (h1.leaves.trans h.leaves).trans h2.leaves

lemma Moves.exits (h : Moves s s1 reaper (kids t) kids kids') (hidle : ¬ s.isIdleTask t)
    (hz : (s.task t).state ≠ .zombie) : Exits s (s1.taskZombify t x) t reaper x kids kids' := by
  have hidle1 : ¬ s1.isIdleTask t := by
    rw [isIdleTask, h.task t]
    exact hidle
  have hz1 : (s1.task t).state ≠ .zombie := by
    rw [h.task t]
    exact hz
  have hself : (s1.taskZombify t x).task t = { s1.task t with
      exitCode := x.code, exitState := x.reason, exitInfo0 := x.info0, exitInfo1 := x.info1,
      state := .zombie } := by
    rw [taskZombify, if_neg hidle1, if_neg hz1, task_setTask_self]
  have hother : ∀ y, y ≠ t → (s1.taskZombify t x).task y = s1.task y :=
    fun y hy => task_taskZombify_of_ne hy
  have hparent := (taskZombify_sameTree s1 t x).parent
  have hlist : (s1.taskZombify t x).taskList = s1.taskList := by
    rw [taskZombify, if_neg hidle1, if_neg hz1]
    rfl
  refine ⟨hlist.trans h.taskList, ?_, h.mem, fun y hy => ?_, fun y hy => ?_, fun y => ?_,
    fun y => ?_, ?_, fun y hy => ?_, fun y => ?_⟩
  · rw [(taskZombify_sameTree s1 t x).kin]
    exact h.rings
  · rw [hparent]
    exact h.moved y hy
  · rw [hparent]
    exact h.kept y hy
  · by_cases hy : y = t
    · rw [hy, hself, h.task t]
    · rw [hother y hy, h.task y]
  · by_cases hy : y = t
    · rw [hy, hself]
      exact iff_of_true rfl (.inl rfl)
    · rw [hother y hy, h.task y]
      simp [hy]
  · rw [hself]
    rfl
  · rw [hother y hy, h.task y]
    rfl
  · refine .inl ?_
    by_cases hy : y = t
    · rw [hy, hself, h.task t]
    · rw [hother y hy, h.task y]

lemma reparentZombify_exits {r : Sched × Bool} (R : Rings kinLayout s.kin kids)
    (hpar : ∀ c p, c ∈ kids p → (s.task c).parent = some p) (hidle : ¬ s.isIdleTask t)
    (hz : (s.task t).state ≠ .zombie)
    (hr : (s.leaveQueue t).reparentChildren fuel t ((s.leaveQueue t).reaperOf t) = some r) :
    ∃ kids', Exits s (r.1.taskZombify t x) t (s.reaperOf t) x kids kids' := by
  have h1 := leaveQueue_rouses s t
  have R1 : Rings kinLayout (s.leaveQueue t).kin kids := h1.kin ▸ R
  have hpar1 : ∀ c p, c ∈ kids p → ((s.leaveQueue t).task c).parent = some p :=
    fun c p hc => (h1.parent c).trans (hpar c p hc)
  rw [reaperOf_congr h1.taskList h1.pid] at hr
  rcases reparentChildren_moves R1 hpar1 hr with ⟨kids', hmove⟩
  have hidle1 : ¬ (s.leaveQueue t).isIdleTask t := by
    rw [isIdleTask, h1.pid]
    exact hidle
  have hz1 : ((s.leaveQueue t).task t).state ≠ .zombie := by
    rw [Ne, h1.zombie]
    exact hz
  exact ⟨kids', Exits.of_rouses h1 (hmove.exits hidle1 hz1) (Rouses.refl _)⟩

lemma exitNotify_exits (R : Rings kinLayout s.kin kids)
    (hpar : ∀ c p, c ∈ kids p → (s.task c).parent = some p) (hidle : ¬ s.isIdleTask t)
    (hz : (s.task t).state ≠ .zombie) (hs : s.exitNotify fuel t x = some s') :
    ∃ kids', Exits s s' t (s.reaperOf t) x kids kids' := by
  unfold exitNotify at hs
  rw [if_neg hidle, if_neg hz] at hs
  simp only [bind_eq_bind, bind_eq_some_iff] at hs
  rcases hs with ⟨r, hr, s2, hs2, s3, hs3, s4, hs4, hs'⟩
  rcases reparentZombify_exits (x := x) R hpar hidle hz hr with ⟨kids', h⟩
  have h2 := ((signalNotifyExit_rouses hs2).trans (wakeChildExit_rouses hs3)).trans
    (wakeChildExit_rouses hs4)
  cases hs'
  have h3 : Rouses (r.1.taskZombify t x) { s4 with needResched := true } :=
    ⟨⟨h2.kin, h2.taskList, h2.record, h2.zombie⟩, h2.leaves⟩
  exact ⟨kids', Exits.of_rouses (Rouses.refl s) h h3⟩

/-! ## Exit returns -/

/-- The tasks wait on queues of a certain kind only. -/
def WaitsOn (A : Nat → QueueId → Prop) (s : Sched) : Prop :=
  ∀ x q, (s.task x).waitq = some q → A x q

lemma WaitsOn.leaves {A : Nat → QueueId → Prop} (h : WaitsOn A s) (hl : Leaves s s') :
    WaitsOn A s' := by
  intro x q hx
  rcases hl x with he | he
  · rw [he] at hx
    exact h x q hx
  · rw [he] at hx
    cases hx

/-- Only the task itself waits on its `child_exit_wait`. -/
def OwnQueues (s : Sched) : Prop :=
  WaitsOn (fun x q => ∀ t, q = .childExitWait t → x = t) s

lemma OwnQueues.leaves (h : OwnQueues s) (hl : Leaves s s') : OwnQueues s' :=
  WaitsOn.leaves h hl

lemma OwnQueues.length_le_one (h : OwnQueues s) (hs : Queued s w) (p : Nat) :
    (w (.childExitWait p)).length ≤ 1 := by
  have hone : ∀ x ∈ w (.childExitWait p), x = p := fun x hx => h x _ ((hs.waitq x _).mp hx) p rfl
  have hnd := hs.rings.nodup (.childExitWait p)
  cases hw : w (.childExitWait p) with
  | nil => exact Nat.zero_le 1
  | cons a l =>
    rw [hw] at hone hnd
    cases l with
    | nil => exact le_refl 1
    | cons b l =>
      have hab : a = b := (hone a (by simp)).trans (hone b (by simp)).symm
      rw [hab] at hnd
      exact absurd mem_cons_self (nodup_cons.mp hnd).1

lemma wakeChildExit_returns {o : Option Nat} (R : Rings waitLayout s.wait w)
    (hf : ∀ p, o = some p → (w (.childExitWait p)).length < fuel) :
    ∃ s' w', s.wakeChildExit fuel o = some s' ∧ Rings waitLayout s'.wait w' ∧
      ∀ q, (w' q).length ≤ (w q).length := by
  cases o with
  | none => exact ⟨s, w, rfl, R, fun _ => le_rfl⟩
  | some p =>
    obtain ⟨s', hs'⟩ : ∃ s', s.wakeUp fuel (.childExitWait p) 0 = some s' :=
      wakeUp_returns R (hf p rfl)
    refine ⟨s', _, hs', (wakeUp_rings R (.inl (by decide)) hs').1, fun q => ?_⟩
    by_cases hq : q = .childExitWait p
    · rw [hq, update_self]
      exact Nat.zero_le _
    · rw [update_of_ne hq]

lemma signalNotifyExit_returns (R : Rings waitLayout s.wait w)
    (hf : ∀ p, (s.task t).parent = some p → (w (.childExitWait p)).length < fuel) :
    ∃ s' w', s.signalNotifyExit fuel t = some s' ∧ Rings waitLayout s'.wait w' ∧
      ∀ q, (w' q).length ≤ (w q).length := by
  unfold signalNotifyExit
  cases hpar : (s.task t).parent with
  | none => exact ⟨s, w, rfl, R, fun _ => le_rfl⟩
  | some p =>
    have R1 : Rings waitLayout (s.wakeUpProcess p).1.wait w := by
      rw [wait_wakeUpProcess]
      exact R
    exact wakeChildExit_returns (o := some p) R1 fun q hq => Option.some.inj hq ▸ hf p hpar

lemma leaveQueue_rings (h : Queued s w) (t : Nat) :
    ∃ w', Rings waitLayout (s.leaveQueue t).wait w' ∧ ∀ q, (w' q).length ≤ (w q).length := by
  unfold leaveQueue
  split
  · exact ⟨_, h.removeWaitQueue t, fun q => (erase_sublist).length_le⟩
  · exact ⟨w, h.rings, fun _ => le_rfl⟩

section

variable (R : Rings kinLayout s.kin kids)
include R

/-- A task that is its own reaper and has one child comes to the end of its list. -/
lemma reparentChildren_returns_of_le_one (hone : (kids t).length ≤ 1)
    (hf : (kids t).length < fuel) :
    
    ∃ r, s.reparentChildren fuel t t = some r := by
  have hfirst := R.next_head t
  unfold reparentChildren
  cases hk : kids t with
  | nil =>
    rw [hk] at hfirst
    exact ⟨_, if_pos hfirst⟩
  | cons c l =>
    rw [hk] at hone hf hfirst
    obtain rfl : l = [] :=
      eq_nil_of_length_eq_zero (Nat.le_zero.mp (Nat.le_of_succ_le_succ hone))
    obtain ⟨fuel, rfl⟩ : ∃ n, fuel = n + 2 := Nat.exists_eq_add_of_le' hf
    have hnext : s.kin.next (.sibling c) = .children t := R.next_entry hk
    have hsib : s.kin.next (.children t) = .sibling c := hfirst
    rw [if_neg (by rw [Links.ListEmpty, hsib]; exact nofun), hsib]
    dsimp only
    rw [hnext, reparentEach]
    simp only [reparentEach, if_pos]
    exact ⟨_, rfl⟩

/-- A task that is its own reaper and has two children never does: each goes behind the next. -/
lemma reparentEach_self_eq_none {c d : Nat} {l : List Nat} {wake : Bool}
    (hl : kids t = c :: d :: l) :
    
    reparentEach fuel s t t wake (.sibling c) (s.kin.next (.sibling c)) = none := by
  induction fuel generalizing s kids wake c d l with
  | zero => rfl
  | succ fuel ih =>
    have hc : c ∈ kids t := hl ▸ mem_cons_self
    have hnext : s.kin.next (.sibling c) = .sibling d := R.next_entry hl
    have hl1 : moveChild kids t t c t = d :: (l ++ [c]) := by
      rw [moveChild, update_self, update_self, hl, erase_cons_head, cons_append]
    obtain ⟨e, l', hl'⟩ := exists_cons_of_ne_nil (append_ne_nil_of_right_ne_nil l
      (cons_ne_nil c []))
    rw [hl'] at hl1
    rw [reparentEach, hnext]
    exact ih (reparentChild_rings R hc) hl1

lemma reparentChildren_self_eq_none (htwo : 1 < (kids t).length) :
    s.reparentChildren fuel t t = none := by
  have hfirst := R.next_head t
  unfold reparentChildren
  match hk : kids t, htwo with
  | c :: d :: l, _ =>
    rw [hk] at hfirst
    have hsib : s.kin.next (.children t) = .sibling c := hfirst
    rw [if_neg (by rw [Links.ListEmpty, hsib]; exact nofun), hsib]
    exact reparentEach_self_eq_none R hk

end

lemma wait_taskZombify (s : Sched) (t : Nat) (x : ExitStatus) :
    (s.taskZombify t x).wait = s.wait := by
  unfold taskZombify
  split_ifs <;> rfl

/-- A task that has another reaper, or one child at most, exits. -/
lemma exitNotify_returns (h : Queued s w) (R : Rings kinLayout s.kin kids)
    (hpar : ∀ c p, c ∈ kids p → (s.task c).parent = some p)
    (hone : s.reaperOf t ≠ t ∨ (kids t).length ≤ 1) (hkids : (kids t).length < fuel)
    (hwait : ∀ p, (s.task t).parent = some p ∨ p = s.reaperOf t →
      (w (.childExitWait p)).length < fuel) :
    ∃ s', s.exitNotify fuel t x = some s' := by
  unfold exitNotify
  by_cases hidle : s.isIdleTask t
  · exact ⟨s, if_pos hidle⟩
  rw [if_neg hidle]
  by_cases hz : (s.task t).state = .zombie
  · exact ⟨s, if_pos hz⟩
  rw [if_neg hz]
  have h1 := leaveQueue_rouses s t
  have hreaper : (s.leaveQueue t).reaperOf t = s.reaperOf t :=
    reaperOf_congr h1.taskList h1.pid t
  have R1 : Rings kinLayout (s.leaveQueue t).kin kids := h1.kin ▸ R
  have hr : ∃ r, (s.leaveQueue t).reparentChildren fuel t ((s.leaveQueue t).reaperOf t) =
      some r := by
    rw [hreaper]
    by_cases hself : s.reaperOf t = t
    · rw [hself]
      exact reparentChildren_returns_of_le_one R1 (hone.resolve_left (absurd hself)) hkids
    · exact reparentChildren_returns hself R1 hkids
  obtain ⟨r, hr⟩ := hr
  have hpar1 : ∀ c p, c ∈ kids p → ((s.leaveQueue t).task c).parent = some p :=
    fun c p hc => (h1.parent c).trans (hpar c p hc)
  obtain ⟨w1, W1, hw1⟩ := leaveQueue_rings h t
  -- Reparenting and `task_zombify` leave the queues alone; the parent may be the reaper now.
  obtain ⟨kids', hmove⟩ := reparentChildren_moves R1 hpar1 hr
  have W2 : Rings waitLayout (r.1.taskZombify t x).wait w1 := by
    rw [wait_taskZombify, hmove.wait]
    exact W1
  have hparent : ∀ p, ((r.1.taskZombify t x).task t).parent = some p →
      (s.task t).parent = some p ∨ p = s.reaperOf t := by
    intro p hp
    rw [(taskZombify_sameTree r.1 t x).parent] at hp
    by_cases ht : t ∈ kids t
    · rw [hmove.moved t ht, hreaper] at hp
      exact .inr (Option.some.inj hp).symm
    · rw [hmove.kept t ht, h1.parent] at hp
      exact .inl hp
  obtain ⟨s2, w2, hs2, W3, hw2⟩ := signalNotifyExit_returns W2
    fun p hp => (hw1 _).trans_lt (hwait p (hparent p hp))
  obtain ⟨s3, w3, hs3, W4, hw3⟩ := wakeChildExit_returns (o := ((s.leaveQueue t).task t).parent) W3
    fun p hp => ((hw2 _).trans (hw1 _)).trans_lt (hwait p (.inl ((h1.parent t).symm.trans hp)))
  obtain ⟨s4, w4, hs4, -, -⟩ := wakeChildExit_returns
    (o := if r.2 then some ((s.leaveQueue t).reaperOf t) else none) W4 fun p hp => by
      have hp' : p = s.reaperOf t := by
        split_ifs at hp
        exact (Option.some.inj hp).symm.trans hreaper
      exact ((hw3 _).trans ((hw2 _).trans (hw1 _))).trans_lt (hwait p (.inr hp'))
  refine ⟨{ s4 with needResched := true }, ?_⟩
  simp only [bind_eq_bind, hr, hs2, hs3, hs4, bind_some]

/--
The exit of a task comes to an end unless the task is its own reaper and has two children. The task
is then a zombie, and its children are on the list of the reaper and on no other.
-/
theorem exit_finishes_iff (h : Queued s w) (R : Rings kinLayout s.kin kids)
    (hpar : ∀ c p, c ∈ kids p → (s.task c).parent = some p) (hidle : ¬ s.isIdleTask t)
    (x : ExitStatus) :
    ((∃ fuel s', s.exitNotify fuel t x = some s') ↔
      (s.task t).state = .zombie ∨ s.reaperOf t ≠ t ∨ (kids t).length ≤ 1) ∧
    ∀ fuel s', s.exitNotify fuel t x = some s' → (s'.task t).state = .zombie ∧
      ((s.task t).state ≠ .zombie → ∃ kids', Rings kinLayout s'.kin kids' ∧
        ∀ c ∈ kids t, ∀ p, c ∈ kids' p ↔ p = s.reaperOf t) := by
  refine ⟨⟨?_, ?_⟩, fun fuel s' hs' => ?_⟩
  · rintro ⟨fuel, s', hs'⟩
    by_contra hnot
    obtain ⟨hz, hself, htwo⟩ : (s.task t).state ≠ .zombie ∧ s.reaperOf t = t ∧
        1 < (kids t).length := by
      simpa using hnot
    have h1 := leaveQueue_rouses s t
    have hreaper : (s.leaveQueue t).reaperOf t = t := by
      rw [reaperOf_congr h1.taskList h1.pid, hself]
    have R1 : Rings kinLayout (s.leaveQueue t).kin kids := h1.kin ▸ R
    have hnone : (s.leaveQueue t).reparentChildren fuel t t = none :=
      reparentChildren_self_eq_none R1 htwo
    rw [exitNotify, if_neg hidle, if_neg hz] at hs'
    simp [hreaper, hnone] at hs'
  · rintro (hz | hone)
    · exact ⟨0, s, by rw [exitNotify, if_neg hidle, if_pos hz]⟩
    · let waiters := fun p => (w (.childExitWait p)).length
      refine ⟨(kids t).length + ((s.task t).parent.elim 0 waiters + waiters (s.reaperOf t)) + 1,
        exitNotify_returns h R hpar hone (by omega) fun p hp => ?_⟩
      have hp' : waiters p ≤ (s.task t).parent.elim 0 waiters + waiters (s.reaperOf t) := by
        rcases hp with hp | rfl
        · rw [hp]
          exact Nat.le_add_right _ _
        · exact Nat.le_add_left _ _
      exact Nat.lt_succ_of_le (hp'.trans (Nat.le_add_left _ _))
  · by_cases hz : (s.task t).state = .zombie
    · rw [exitNotify, if_neg hidle, if_pos hz] at hs'
      cases hs'
      exact ⟨hz, fun hne => absurd hz hne⟩
    · obtain ⟨kids', hx⟩ := exitNotify_exits R hpar hidle hz hs'
      refine ⟨(hx.zombie t).mpr (.inl rfl), fun _ => ⟨kids', hx.rings, fun c hc p => ?_⟩⟩
      rw [hx.mem]
      simp [hc]

/-- The task with PID 1 and its children, tasks 2 and 3; nothing waits. -/
def initWithTwo : Sched where
  task t :=
    { pid := t, realParent := if t = 2 ∨ t = 3 then some 1 else none,
      parent := if t = 2 ∨ t = 3 then some 1 else none, wakeJiffies := 0, state := .runnable,
      timeSlice := 3, exitCode := 0, exitState := 0, exitInfo0 := 0, exitInfo1 := 0,
      waitq := none }
  wait := ⟨id, id⟩
  kin :=
    (Links.listAddTail ⟨id, id⟩ (.sibling 2) (.children 1)).listAddTail (.sibling 3) (.children 1)
  taskList := [1, 2, 3]
  needResched := false

lemma initWithTwo_rings :
    Rings kinLayout initWithTwo.kin (update (fun _ => []) 1 [2, 3]) := by
  have R := rings_nil_id kinLayout
  have hfree : ∀ j, 3 ∉ update (fun _ : Nat => ([] : List Nat)) 1 ([] ++ [2]) j := by
    intro j
    by_cases hj : j = 1 <;> simp [hj]
  have R2 := (R.listAddTail 1 (fun j => not_mem_nil : ∀ j, 2 ∉ (fun _ => []) j)).listAddTail 1 hfree
  rw [update_self, update_idem] at R2
  exact R2

/-- The exit of task 2 comes to an end, with task 2 a zombie. -/
theorem exit_finishes_two : ∃ fuel s',
    initWithTwo.exitNotify fuel 2 ⟨0, 0, 0, 0⟩ = some s' ∧ (s'.task 2).state = .zombie := by
  have hqueued : Queued initWithTwo fun _ => [] :=
    ⟨rings_nil_id _, fun t q => by simp [initWithTwo]⟩
  have hexit := exit_finishes_iff (t := 2) hqueued initWithTwo_rings (fun c p hc => ?_) (by decide)
    ⟨0, 0, 0, 0⟩
  · obtain ⟨fuel, s', hs'⟩ := hexit.1.mpr (.inr (.inl (by decide)))
    exact ⟨fuel, s', hs', (hexit.2 fuel s' hs').1⟩
  rw [update_apply] at hc
  split_ifs at hc with hp
  · have hc' : c = 2 ∨ c = 3 := by simpa using hc
    rw [hp]
    exact if_pos hc'
  · cases hc

/-- The exit of the task with PID 1 does not come to an end. -/
theorem init_exit_never_ends :
    ¬ ∃ fuel, (initWithTwo.exitNotify fuel 1 ⟨0, 0, 0, 0⟩).isSome = true := by
  rintro ⟨fuel, hsome⟩
  have hnone : initWithTwo.reparentChildren fuel 1 1 = none :=
    reparentChildren_self_eq_none initWithTwo_rings (by decide)
  simp [exitNotify, isIdleTask, show initWithTwo.leaveQueue 1 = initWithTwo from rfl,
    show initWithTwo.reaperOf 1 = 1 from rfl, hnone, show (initWithTwo.task 1).pid = 1 from rfl,
    show (initWithTwo.task 1).state = .runnable from rfl] at hsome

end Sched
end LiteKernel.Kernel
