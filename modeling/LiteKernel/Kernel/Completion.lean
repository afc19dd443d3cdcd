import LiteKernel.Kernel.WaitMembership

/-!
# Completions

The model of `include/linux/completion.h` on one processor. A task that waits for
a completion is at one of five points; between two of them every instruction runs
with interrupts disabled, or is a call of `wait_queue_block_locked` or
`task_yield`. The timer may run the scheduler, and a handler may complete, at
every point where the task that runs has interrupts enabled. `wait_for_completion` restores the
interrupt flag between its test of `done` and its call of `wait_queue_block`.

Main results:

- Theorem `completion_run`: no completion is lost if none comes in between.
- Theorem `irqsDisabled_run`: none is lost if every caller has interrupts disabled.
- Theorem `completeBetween_lost`: a completion in between finds nobody to wake.
-/

namespace LiteKernel.Kernel

open Function Lib Option

/-- Where a task is in `wait_for_completion`. -/
inductive WaitPoint where
  /-- Not in the function. -/
  | outside
  /-- At the test of `done`. -/
  | check
  /-- At the call of `wait_queue_block`. -/
  | block
  /-- In `wait_queue_block_locked`, before it takes the lock. -/
  | enqueue
  /-- At the call of `task_yield`. -/
  | yield
  deriving DecidableEq, Repr

/--
A completion, the task that runs, and for every task its point and the interrupt
flag of its last call. Outside the function a task may have interrupts enabled.
-/
structure Completion where
  sched : Sched
  done : Nat
  current : Nat
  point : Nat → WaitPoint
  irqs : Nat → Bool

namespace Sched

/-- What `wait_queue_block_locked` does under the lock of the queue. -/
def waitQueueEnqueue (s : Sched) (t : Nat) (q : QueueId) : Sched :=
  let s := s.setWaitq t (some q)
  let s := { s with wait := s.wait.initListHead (.entry t) }
  let s := { s with wait := s.wait.listAdd (.entry t) (.head q) }
  s.setTask t fun k => { k with state := .blocked }

lemma waitQueueBlockLocked_of_ne {s : Sched} {t : Nat} {q : QueueId}
    (hq : (s.task t).waitq ≠ some q) (hz : (s.task t).state ≠ .zombie) :
    s.waitQueueBlockLocked t q = s.waitQueueEnqueue t q := by
  rw [waitQueueBlockLocked, if_neg hq, if_neg hz, waitQueueEnqueue]

/-- The other tasks of the task list, in the order in which its ring is followed from one of them. -/
def runqueueAfter (s : Sched) (curr : Nat) : List Nat :=
  s.taskList.drop (s.taskList.idxOf curr + 1) ++ s.taskList.take (s.taskList.idxOf curr)

def runqueuePickNext (s : Sched) (curr : Nat) : Nat :=
  ((s.runqueueAfter curr).find? fun t => (s.task t).state = .runnable).getD curr

lemma runqueuePickNext_cases (s : Sched) (curr : Nat) :
    s.runqueuePickNext curr = curr ∨ (s.task (s.runqueuePickNext curr)).state = .runnable := by
  unfold runqueuePickNext
  cases hf : (s.runqueueAfter curr).find? fun t => (s.task t).state = .runnable with
  | none => exact .inl rfl
  | some u => exact .inr (of_decide_eq_true (List.find?_some hf :))

end Sched

namespace Completion

def goto (c : Completion) (p : WaitPoint) : Completion :=
  { c with point := update c.point c.current p }

/-- The next step of the current task in `wait_for_completion`. -/
def waitForCompletion (c : Completion) (q : QueueId) : Option Completion :=
  let t := c.current
  match c.point t with
  | .outside => none
  | .check =>
    if c.done ≠ 0 then some { c.goto .outside with done := c.done - 1 }
    else some (c.goto .block)
  | .block =>
    if (c.sched.task t).waitq = some q then some (c.goto .yield)
    else if (c.sched.task t).state = .zombie then some (c.goto .yield)
    else some (c.goto .enqueue)
  | .enqueue => some { c.goto .yield with sched := c.sched.waitQueueEnqueue t q }
  | .yield => some { c.goto .check with current := c.sched.runqueuePickNext t }

/-- The function `complete`, with interrupts disabled. -/
def complete (fuel : Nat) (c : Completion) (q : QueueId) : Option Completion :=
  (c.sched.wakeUpAll fuel q).map fun s => { c with sched := s, done := (c.done + 1) % 2 ^ 32 }

/-- What can happen next. -/
inductive Event where
  /-- The current task calls `wait_for_completion`, with its interrupt flag. -/
  | wait (irqs : Bool)
  /-- The current task goes on in `wait_for_completion`. -/
  | go
  /-- The current task, or a handler that interrupts it, calls `complete`. -/
  | complete
  /-- The timer interrupts the current task and runs the scheduler. -/
  | tick

variable {e : Event}

/-- The state after an event; there is none if the event cannot happen. -/
def exec (fuel : Nat) (q : QueueId) (c : Completion) : Event → Option Completion
  | .wait irqs =>
    if c.point c.current = .outside then
      some { c.goto .check with irqs := update c.irqs c.current irqs }
    else none
  | .go => c.waitForCompletion q
  | .complete =>
    if c.point c.current = .outside ∨ c.irqs c.current = true then c.complete fuel q else none
  | .tick =>
    if c.point c.current = .outside ∨ c.irqs c.current = true then
      some { c with current := c.sched.runqueuePickNext c.current }
    else none

def step (fuel : Nat) (q : QueueId) (o : Option Completion) (e : Event) : Option Completion :=
  o.bind fun c => c.exec fuel q e

/-- The task has found `done` zero and is not on the queue yet. -/
def Between (c : Completion) (t : Nat) : Prop :=
  c.point t = .block ∨ c.point t = .enqueue

/-- Nobody completes while a task is between the test and its place on the queue. -/
def EventOk (c : Completion) : Event → Prop
  | .complete => ∀ t, ¬ c.Between t
  | .wait _ | .go | .tick => True

/-- The task is blocked on the queue. -/
def BlockedOn (c : Completion) (q : QueueId) (t : Nat) : Prop :=
  (c.sched.task t).state = .blocked ∧
    (Sched.Linked c.sched t q ∨ (c.sched.task t).waitq = some q)

/-- No call is in progress: each task is outside, or has blocked and is not running. -/
def Resting (c : Completion) : Prop :=
  ∀ t, c.point t = .outside ∨ ((c.sched.task t).state = .blocked ∧ t ≠ c.current)

/-- The start: nobody waits for the completion, and the current task is runnable. -/
structure Fresh (c : Completion) (q : QueueId) : Prop where
  settled : ∃ w, Sched.Settled c.sched w ∧ w q = []
  outside : ∀ t, c.point t = .outside
  current : (c.sched.task c.current).state = .runnable

/-! ## The invariant -/

variable {fuel : Nat} {q : QueueId} {c c' : Completion}

/-- Whoever runs in the function is runnable or blocked on its queue. -/
structure Inv (q : QueueId) (c : Completion) : Prop where
  settled : ∃ w, Sched.Settled c.sched w ∧ (0 < c.done → w q = [])
  between : 0 < c.done → ∀ t, ¬ c.Between t
  awake : ∀ t, c.point t ≠ .outside ∨ t = c.current →
    (c.sched.task t).state = .runnable ∨ (c.sched.task t).waitq = some q
  enqueue : ∀ t, c.point t = .enqueue → (c.sched.task t).state = .runnable

lemma Fresh.inv (h : Fresh c q) : Inv q c := by
  rcases h.settled with ⟨w, hw, hq⟩
  refine ⟨⟨w, hw, fun _ => hq⟩, fun _ t ht => ?_, fun t ht => ?_, fun t ht => ?_⟩
  · rw [Between, h.outside] at ht
    rcases ht with ht | ht <;> cases ht
  · rcases ht with ht | ht
    · exact absurd (h.outside t) ht
    · exact .inl (ht ▸ h.current)
  · rw [h.outside] at ht
    cases ht

lemma Inv.not_blockedOn (h : Inv q c) (hd : 0 < c.done) (t : Nat) : ¬ c.BlockedOn q t := by
  rcases h.settled with ⟨w, hw, hq⟩
  rintro ⟨-, hl | hl⟩
  · rw [hw.linked_iff, hq hd] at hl
    cases hl
  · rw [← hw.waitq, hq hd] at hl
    cases hl

lemma point_goto_self (c : Completion) (p : WaitPoint) : (c.goto p).point c.current = p :=
  update_self _ _ _

lemma point_goto_of_ne {t : Nat} (ht : t ≠ c.current) (p : WaitPoint) :
    (c.goto p).point t = c.point t :=
  update_of_ne ht _ _

section

variable (h : Inv q c)
include h

lemma Inv.goto {p : WaitPoint} (hd : 0 < c.done → p ≠ .block ∧ p ≠ .enqueue)
    (hp : p = .enqueue → (c.sched.task c.current).state = .runnable) : Inv q (c.goto p) where
  settled := h.settled
  between hpos t ht := by
    by_cases hx : t = c.current
    · rw [Between, hx, point_goto_self] at ht
      exact ht.elim (hd hpos).1 (hd hpos).2
    · rw [Between, point_goto_of_ne hx] at ht
      exact h.between hpos t ht
  awake t ht := by
    by_cases hx : t = c.current
    · exact h.awake t (.inr hx)
    · rw [point_goto_of_ne hx] at ht
      exact h.awake t ht
  enqueue t ht := by
    by_cases hx : t = c.current
    · rw [hx, point_goto_self] at ht
      exact hx ▸ hp ht
    · rw [point_goto_of_ne hx] at ht
      exact h.enqueue t ht

lemma Inv.schedule :
    Inv q { c with current := c.sched.runqueuePickNext c.current } where
  settled := h.settled
  between := h.between
  enqueue := h.enqueue
  awake t ht := by
    rcases ht with ht | ht
    · exact h.awake t (.inl ht)
    · rw [ht]
      rcases c.sched.runqueuePickNext_cases c.current with hu | hu
      · rw [hu]
        exact h.awake _ (.inr rfl)
      · exact .inl hu

lemma Inv.waitQueueEnqueue (hp : c.point c.current = .enqueue) :
    Inv q { c.goto .yield with sched := c.sched.waitQueueEnqueue c.current q } := by
  have hrun := h.enqueue _ hp
  have hdone : ¬ 0 < c.done := fun hd => h.between hd _ (.inr hp)
  rcases h.settled with ⟨w, hw, -⟩
  have hwaitq : (c.sched.task c.current).waitq = none := by
    by_contra hne
    rcases ne_none_iff_exists'.mp hne with ⟨q', hq'⟩
    have hb := hw.blocked _ q' ((hw.waitq _ q').mpr hq')
    rw [hrun] at hb
    cases hb
  have hother : ∀ t, t ≠ c.current →
      (c.sched.waitQueueEnqueue c.current q).task t = c.sched.task t := fun t ht => by
    simp [Sched.waitQueueEnqueue, Sched.setWaitq, Sched.task_setTask_of_ne ht]
  refine ⟨?_, fun hd => absurd hd hdone, fun t ht => ?_, fun t ht => ?_⟩
  · have hne : (c.sched.task c.current).waitq ≠ some q := by
      rw [hwaitq]
      exact (some_ne_none q).symm
    have hz : (c.sched.task c.current).state ≠ .zombie := by
      rw [hrun]
      decide
    rcases hw.waitQueueBlockLocked (q := q) (.inl hwaitq) with ⟨w', hw'⟩
    rw [Sched.waitQueueBlockLocked_of_ne hne hz] at hw'
    exact ⟨w', hw', fun hd => absurd hd hdone⟩
  · by_cases hx : t = c.current
    · refine .inr ?_
      simp [Sched.waitQueueEnqueue, Sched.setWaitq, hx]
    · rw [hother t hx]
      exact h.awake t (ht.imp_left fun hne => by rwa [point_goto_of_ne hx] at hne)
  · by_cases hx : t = c.current
    · rw [hx] at ht
      cases (point_goto_self c .yield).symm.trans ht
    · rw [hother t hx]
      exact h.enqueue t ((point_goto_of_ne hx .yield).symm.trans ht)

lemma Inv.waitForCompletion (hc : c.waitForCompletion q = some c') : Inv q c' := by
  unfold Completion.waitForCompletion at hc
  cases hp : c.point c.current with
  | outside =>
    simp only [hp] at hc
    cases hc
  | check =>
    simp only [hp] at hc
    split_ifs at hc with hd
    · cases hc
      have hg := h.goto (p := .outside) (fun _ => by decide) nofun
      rcases hg.settled with ⟨w, hw, hq⟩
      exact ⟨⟨w, hw, fun _ => hq (pos_of_ne_zero hd)⟩,
        fun _ => hg.between (pos_of_ne_zero hd), hg.awake, hg.enqueue⟩
    · cases hc
      exact h.goto (fun hpos => absurd (ne_of_gt hpos) hd) nofun
  | block =>
    have hdone : ¬ 0 < c.done := fun hd => h.between hd _ (.inl hp)
    simp only [hp] at hc
    split at hc
    · cases hc
      exact h.goto (fun _ => by decide) nofun
    · rename_i hq
      split at hc
      · cases hc
        exact h.goto (fun _ => by decide) nofun
      · cases hc
        exact h.goto (fun hd => absurd hd hdone) fun _ =>
          (h.awake _ (.inr rfl)).resolve_right hq
  | enqueue =>
    simp only [hp] at hc
    cases hc
    exact h.waitQueueEnqueue hp
  | yield =>
    simp only [hp] at hc
    cases hc
    exact (h.goto (p := .check) (fun _ => by decide) nofun).schedule

/-- A completion that finds nobody between wakes everybody. -/
lemma Inv.complete (hb : ∀ t, ¬ c.Between t) (hc : c.complete fuel q = some c') : Inv q c' := by
  rcases h.settled with ⟨w, hw, -⟩
  rcases map_eq_some_iff.mp hc with ⟨s, hs, rfl⟩
  rcases hw.wakeUpAll hs with ⟨hw', hwakes⟩
  have hrun : ∀ t, (c.sched.task t).state = .runnable → (s.task t).state = .runnable := by
    intro t ht
    rw [hwakes.state, ht]
    exact ite_self _
  refine ⟨⟨_, hw', fun _ => update_self _ _ _⟩, fun _ => hb, fun t ht => ?_, fun t ht => ?_⟩
  · refine .inl ?_
    rcases h.awake t ht with hr | hq
    · exact hrun t hr
    · have hmem := (hw.waitq t q).mpr hq
      rw [hwakes.state, if_pos hmem, hw.blocked t q hmem]
      rfl
  · exact hrun t (h.enqueue t ht)

lemma Inv.exec (hok : EventOk c e) (hc : c.exec fuel q e = some c') : Inv q c' := by
  cases e with
  | wait irqs =>
    rw [Completion.exec] at hc
    split at hc
    · cases hc
      have hg := h.goto (p := .check) (fun _ => by decide) nofun
      exact ⟨hg.settled, hg.between, hg.awake, hg.enqueue⟩
    · cases hc
  | go => exact h.waitForCompletion hc
  | complete =>
    rw [Completion.exec] at hc
    split at hc
    · exact h.complete hok hc
    · cases hc
  | tick =>
    rw [Completion.exec] at hc
    split at hc
    · cases hc
      exact h.schedule
    · cases hc

end

/-! ## Callers with interrupts disabled -/

/-- The callers of `wait_for_completion` have interrupts disabled. -/
def IrqsDisabled : Event → Prop
  | .wait irqs => irqs = false
  | .go | .complete | .tick => True

/-- Who is in the function has interrupts disabled, and who is between is running. -/
def Shielded (c : Completion) : Prop :=
  ∀ t, (c.point t ≠ .outside → c.irqs t = false) ∧ (c.Between t → t = c.current)

lemma Shielded.not_between (h : Shielded c)
    (hout : c.point c.current = .outside ∨ c.irqs c.current = true) (t : Nat) : ¬ c.Between t := by
  intro ht
  have hcur := (h t).2 ht
  subst hcur
  have hne : c.point c.current ≠ .outside := by
    intro hp
    rw [Between, hp] at ht
    rcases ht with ht | ht <;> cases ht
  rcases hout with hp | hirqs
  · exact hne hp
  · rw [(h _).1 hne] at hirqs
    cases hirqs

lemma Shielded.goto (h : Shielded c) (hp : c.point c.current ≠ .outside) (p : WaitPoint) :
    Shielded (c.goto p) := by
  intro t
  by_cases hx : t = c.current
  · exact ⟨fun _ => (h t).1 (hx ▸ hp), fun _ => hx⟩
  · rw [Between, point_goto_of_ne hx]
    exact h t

lemma Shielded.waitForCompletion (h : Shielded c) (hc : c.waitForCompletion q = some c') :
    Shielded c' := by
  unfold Completion.waitForCompletion at hc
  cases hp : c.point c.current with
  | outside =>
    simp only [hp] at hc
    cases hc
  | check =>
    have hg := h.goto (by rw [hp]; decide)
    simp only [hp] at hc
    split at hc
    · cases hc
      exact hg .outside
    · cases hc
      exact hg .block
  | block =>
    have hg := h.goto (by rw [hp]; decide)
    simp only [hp] at hc
    split at hc
    · cases hc
      exact hg .yield
    · split at hc
      · cases hc
        exact hg .yield
      · cases hc
        exact hg .enqueue
  | enqueue =>
    simp only [hp] at hc
    cases hc
    exact h.goto (by rw [hp]; decide) .yield
  | yield =>
    -- the only task that could be between leaves the processor at another point
    simp only [hp] at hc
    cases hc
    intro t
    have hg := h.goto (by rw [hp]; decide) .check t
    refine ⟨hg.1, fun ht => ?_⟩
    have hcur : t = c.current := hg.2 ht
    subst hcur
    rcases ht with ht | ht
    · cases (point_goto_self c .check).symm.trans ht
    · cases (point_goto_self c .check).symm.trans ht

lemma Shielded.exec (h : Shielded c) (he : IrqsDisabled e) (hc : c.exec fuel q e = some c') :
    Shielded c' ∧ EventOk c e := by
  cases e with
  | wait irqs =>
    cases he
    rw [Completion.exec] at hc
    split at hc
    · rename_i hout
      cases hc
      refine ⟨fun t => ?_, trivial⟩
      by_cases hx : t = c.current
      · subst hx
        exact ⟨fun _ => update_self _ _ _, fun _ => rfl⟩
      · have hb := h.not_between (.inl hout) t
        refine ⟨fun hne => ?_, fun ht => ?_⟩
        · show update c.irqs c.current false t = false
          rw [update_of_ne hx]
          exact (h t).1 fun ho => hne ((point_goto_of_ne hx .check).trans ho)
        · have hpt : (c.goto .check).Between t := ht
          rw [Between, point_goto_of_ne hx] at hpt
          exact absurd hpt hb
    · cases hc
  | go => exact ⟨h.waitForCompletion hc, trivial⟩
  | complete =>
    rw [Completion.exec] at hc
    split at hc
    · rename_i hout
      rcases map_eq_some_iff.mp hc with ⟨s, -, rfl⟩
      exact ⟨h, h.not_between hout⟩
    · cases hc
  | tick =>
    rw [Completion.exec] at hc
    split at hc
    · rename_i hout
      cases hc
      exact ⟨fun t => ⟨(h t).1, fun ht => absurd ht (h.not_between hout t)⟩, trivial⟩
    · cases hc

lemma Fresh.shielded (h : Fresh c q) : Shielded c := by
  refine fun t => ⟨fun hne => absurd (h.outside t) hne, fun ht => ?_⟩
  rw [Between, h.outside] at ht
  rcases ht with ht | ht <;> cases ht

/--
If every caller of `wait_for_completion` has interrupts disabled, then in no run a
task is blocked on the queue while `done` is positive.
-/
theorem irqsDisabled_run {es : List Event} (hc : Fresh c q) (hes : ∀ e ∈ es, IrqsDisabled e)
    (h : run (step fuel q) (some c) es = some c') (hdone : 0 < c'.done) (t : Nat) :
    ¬ c'.BlockedOn q t := by
  have hinv : ∀ x ∈ run (step fuel q) (some c) es, Inv q x ∧ Shielded x := by
    have hok : RunOk (step fuel q) (fun _ e => IrqsDisabled e) (some c) es :=
      runOk_of_forall_mem (fun e he _ => hes e he) _
    refine run_invariant (fun o => ∀ x ∈ o, Inv q x ∧ Shielded x) ?_ ?_ hok
    · intro o e ho he x hx
      rcases bind_eq_some_iff.mp hx with ⟨y, hy, hxy⟩
      have hs := (ho y hy).2.exec he hxy
      exact ⟨(ho y hy).1.exec hs.2 hxy, hs.1⟩
    · intro x hx
      cases hx
      exact ⟨hc.inv, hc.shielded⟩
  exact (hinv c' h).1.not_blockedOn hdone t

end Completion

open Completion

/--
In every run that starts with nobody waiting for the completion, if nobody
completes while a task is between its test of `done` and its place on the queue,
then no task is blocked on the queue while `done` is positive.
-/
theorem completion_run {fuel : Nat} {q : QueueId} {c c' : Completion} {es : List Event}
    (hc : Fresh c q)
    (hok : RunOk (step fuel q) (fun o e => ∀ c ∈ o, EventOk c e) (some c) es) (n : Nat)
    (h : run (step fuel q) (some c) (es.take n) = some c') (hdone : 0 < c'.done) (t : Nat) :
    ¬ c'.BlockedOn q t := by
  have hinv : ∀ x ∈ run (step fuel q) (some c) (es.take n), Completion.Inv q x := by
    refine run_invariant (fun o => ∀ x ∈ o, Completion.Inv q x) ?_ ?_ (hok.take n)
    · intro o e ho he x hx
      rcases bind_eq_some_iff.mp hx with ⟨y, hy, hxy⟩
      exact (ho y hy).exec (he y hy) hxy
    · intro x hx
      cases hx
      exact hc.inv
  exact (hinv c' h).not_blockedOn hdone t

/-- Task 1 runs, with interrupts enabled, and task 2 may; nobody waits. -/
def twoCallers : Completion where
  sched := twoTasks
  done := 0
  current := 1
  point _ := .outside
  irqs _ := true

lemma twoCallers_fresh : Fresh twoCallers (.other 0) where
  settled := by
    rcases twoTasks_quiet with ⟨hheads, hentries, hwaitq, -⟩
    refine ⟨fun _ => [], ⟨⟨⟨hheads, fun t _ => hentries t, nofun⟩, fun t q => ?_⟩, nofun⟩, rfl⟩
    have hq : (twoCallers.sched.task t).waitq = none := hwaitq t
    simp [hq]
  outside t := rfl
  current := rfl

/-- Task 1 blocks, task 2 completes, and task 1 returns. -/
def waitThenComplete : List Event :=
  [.wait true, .go, .go, .go, .go, .complete, .tick, .go]

theorem waitThenComplete_completion :
    (run (step 3 (.other 0)) (some twoCallers) waitThenComplete).isSome = true ∧
    ∀ n c', run (step 3 (.other 0)) (some twoCallers) (waitThenComplete.take n) = some c' →
      0 < c'.done → ∀ t, ¬ c'.BlockedOn (.other 0) t := by
  refine ⟨by decide, fun n c' h => completion_run twoCallers_fresh ?_ n h⟩
  refine ⟨fun _ _ => trivial, fun _ _ => trivial, fun _ _ => trivial, fun _ _ => trivial,
    fun _ _ => trivial, fun c hc t ht => ?_, fun _ _ => trivial, fun _ _ => trivial, trivial⟩
  cases hc
  by_cases h1 : t = 1
  · subst h1
    revert ht
    unfold Between
    decide
  · simp only [Between, Completion.goto, twoCallers, update_of_ne h1] at ht
    rcases ht with ht | ht <;> cases ht

/-- With interrupts disabled task 1 blocks, and task 2 completes. -/
theorem shielded_completes :
    ∃ c', run (step 3 (.other 0)) (some twoCallers) [.wait false, .go, .go, .go, .go, .complete] =
      some c' ∧ 0 < c'.done ∧ ∀ t, ¬ c'.BlockedOn (.other 0) t := by
  have hrun : ((run (step 3 (.other 0)) (some twoCallers)
      [.wait false, .go, .go, .go, .go, .complete]).map (·.done)) = some 1 := by decide
  obtain ⟨c', hc', hdone⟩ := map_eq_some_iff.mp hrun
  have hpos : 0 < c'.done := hdone ▸ one_pos
  exact ⟨c', hc', hpos, irqsDisabled_run twoCallers_fresh (by simp [IrqsDisabled]) hc' hpos⟩

/-- Task 2 completes after task 1 has tested `done` and before it is on the queue. -/
def completeBetween : List Event :=
  [.wait true, .go, .tick, .complete, .tick, .go, .go, .go]

/-- The completion in between is lost: task 1 sleeps although `done` is one. -/
theorem completeBetween_lost :
    Fresh twoCallers (.other 0) ∧ ∃ c', run (step 3 (.other 0)) (some twoCallers)
      completeBetween = some c' ∧ Resting c' ∧ 0 < c'.done ∧ c'.BlockedOn (.other 0) 1 ∧
      Sched.Linked c'.sched 1 (.other 0) := by
  refine ⟨twoCallers_fresh, ?_⟩
  have hrun : (run (step 3 (.other 0)) (some twoCallers) completeBetween).any (fun c =>
      decide (c.sched.wait.next (.head (.other 0)) = .entry 1 ∧ 0 < c.done ∧
        (c.sched.task 1).state = .blocked ∧ c.current = 2)) = true := by decide
  rcases (any_eq_true _ _).mp hrun with ⟨c', hc', hdec⟩
  rcases of_decide_eq_true hdec with ⟨hnext, hdone, hblocked, hcur⟩
  have hlinked : Sched.Linked c'.sched 1 (.other 0) := ⟨1, hnext⟩
  refine ⟨c', hc', fun t => ?_, hdone, ⟨hblocked, Or.inl hlinked⟩, hlinked⟩
  by_cases h1 : t = 1
  · refine .inr ⟨h1 ▸ hblocked, ?_⟩
    rw [h1, hcur]
    decide
  · cases hc'
    refine .inl ?_
    show update (update (update (update (update (fun _ => WaitPoint.outside) 1 .check) 1 .block)
      1 .enqueue) 1 .yield) 1 .check t = .outside
    simp only [update_of_ne h1]

end LiteKernel.Kernel
