import LiteKernel.Kernel.Wait

/-!
# Waking the tasks of a wait queue

`__wake_up` first moves all entries of the queue to a list of its own; while it runs, that list
is one more ring beside those of the queues.

Main results:

- Lemma `wakeUpProcess_cases`: what `wake_up_process` does to a task.
- Lemma `wakeUp_rings`: what `__wake_up` does to the tasks and to the rings of the wait queues.
-/

namespace LiteKernel.Kernel

open Function Lib List Option

variable {L : Links WaitNode}

/-! ## The nodes of the rings -/

/-- The heads and entries of the wait queues. -/
def waitLayout : Layout WaitNode QueueId Nat where
  null := .null
  head := .head
  entry := .entry
  head_injective _ _ h := WaitNode.head.inj h
  entry_injective _ _ h := WaitNode.entry.inj h
  head_ne_entry _ _ := WaitNode.noConfusion
  head_ne_null _ := WaitNode.noConfusion
  entry_ne_null _ := WaitNode.noConfusion

/-- The same with the local list of `__wake_up`. -/
def wakeLayout : Layout WaitNode (Option QueueId) Nat where
  null := .null
  head o := o.elim .wakeList .head
  entry := .entry
  head_injective := by
    rintro (_ | q) (_ | q') h
    · rfl
    · cases h
    · cases h
    · exact congrArg some (WaitNode.head.inj h)
  entry_injective _ _ h := WaitNode.entry.inj h
  head_ne_entry o _ := by cases o <;> exact WaitNode.noConfusion
  head_ne_null o := by cases o <;> exact WaitNode.noConfusion
  entry_ne_null _ := WaitNode.noConfusion

/-- The children lists. -/
def kinLayout : Layout KinNode Nat Nat where
  null := .null
  head := .children
  entry := .sibling
  head_injective _ _ h := KinNode.children.inj h
  entry_injective _ _ h := KinNode.sibling.inj h
  head_ne_entry _ _ := KinNode.noConfusion
  head_ne_null _ := KinNode.noConfusion
  entry_ne_null _ := KinNode.noConfusion

lemma wakeRings_of_waitRings {w : QueueId → List Nat} (R : Rings waitLayout L w) :
    Rings wakeLayout (L.initListHead .wakeList) fun o => o.elim [] w where
  ring o := by
    cases o with
    | none => exact Links.Ring.of_initListHead L .wakeList
    | some q =>
      refine (R.ring q).initListHead_of_not_mem fun hm => ?_
      simp [waitLayout] at hm
  free t ht := by
    refine (R.free t fun q => ht (some q)).initListHead_of_not_mem fun hm => ?_
    simp [waitLayout] at hm
  unique {t o o'} h h' := by
    cases o with
    | none => cases h
    | some q =>
      cases o' with
      | none => cases h'
      | some q' => exact congrArg some (R.unique h h')

lemma waitRings_of_wakeRings {w : Option QueueId → List Nat} (R : Rings wakeLayout L w)
    (hw : w none = []) :
    Rings waitLayout L fun q => w (some q) where
  ring q := R.ring (some q)
  free t ht := by
    refine R.free t fun o => ?_
    cases o with
    | none => simp [hw]
    | some q => exact ht q
  unique h h' := Option.some.inj (R.unique h h')

/-! ## What the operations do to tasks -/

/-- The state of a task after `wake_up_process`. -/
def TaskState.woken : TaskState → TaskState
  | .sleeping | .blocked => .runnable
  | k => k

lemma TaskState.woken_woken (k : TaskState) : k.woken.woken = k.woken := by
  cases k <;> rfl

namespace Sched

variable {s : Sched} {t : Nat}

@[simp]
lemma task_setTask_self (s : Sched) (t : Nat) (f : Task → Task) :
    (s.setTask t f).task t = f (s.task t) := by
  simp [setTask]

lemma task_setTask_of_ne {x : Nat} (h : x ≠ t) (f : Task → Task) :
    (s.setTask t f).task x = s.task x := by
  simp [setTask, h]

@[simp]
lemma wait_setTask (s : Sched) (t : Nat) (f : Task → Task) : (s.setTask t f).wait = s.wait :=
  rfl

lemma field_setTask {β : Type*} {f : Task → Task} (g : Task → β) (h : ∀ k, g (f k) = g k)
    (x : Nat) : g ((s.setTask t f).task x) = g (s.task x) := by
  by_cases hx : x = t
  · rw [hx, task_setTask_self, h]
  · rw [task_setTask_of_ne hx]

/-- The tasks of a list have been woken and have left their queues; the others are as before. -/
structure Wakes (s s' : Sched) (l : List Nat) : Prop where
  state : ∀ x, (s'.task x).state = if x ∈ l then (s.task x).state.woken else (s.task x).state
  waitq : ∀ x, (s'.task x).waitq = if x ∈ l then none else (s.task x).waitq
  parent : ∀ x, (s'.task x).parent = (s.task x).parent
  kin : s'.kin = s.kin

lemma Wakes.refl {s' : Sched} (htask : s'.task = s.task) (hkin : s'.kin = s.kin) :
    Wakes s s' [] where
  state x := by simp [htask]
  waitq x := by simp [htask]
  parent x := by rw [htask]
  kin := hkin

lemma Wakes.cons {s1 s2 : Sched} {l : List Nat} (h1 : Wakes s s1 [t]) (h2 : Wakes s1 s2 l) :
    Wakes s s2 (t :: l) where
  state x := by
    rw [h2.state, h1.state]
    by_cases hx : x = t
    · simp [hx, TaskState.woken_woken]
    · simp [hx]
  waitq x := by
    rw [h2.waitq, h1.waitq]
    by_cases hx : x = t
    · simp [hx]
    · simp [hx]
  parent x := (h2.parent x).trans (h1.parent x)
  kin := h2.kin.trans h1.kin

section

variable (s)

/-- What `wake_up_process` does to the state of its task; it returns whether that was asleep. -/
lemma wakeUpProcess_cases (t : Nat) :
    (∃ f, (s.wakeUpProcess t).1 = { s.setTask t f with needResched := true } ∧
        (∀ k, (f k).waitq = k.waitq) ∧ (∀ k, (f k).parent = k.parent) ∧
        (f (s.task t)).state = (s.task t).state.woken ∧ (s.wakeUpProcess t).2 = 1) ∨
      (s.wakeUpProcess t = (s, 0) ∧ (s.task t).state.woken = (s.task t).state) := by
  unfold wakeUpProcess
  cases hs : (s.task t).state with
  | sleeping => exact .inl ⟨_, rfl, fun _ => rfl, fun _ => rfl, rfl, rfl⟩
  | blocked => exact .inl ⟨_, rfl, fun _ => rfl, fun _ => rfl, rfl, rfl⟩
  | runnable => exact .inr ⟨rfl, rfl⟩
  | zombie => exact .inr ⟨rfl, rfl⟩

@[simp]
lemma wait_wakeUpProcess (t : Nat) : (s.wakeUpProcess t).1.wait = s.wait := by
  rcases s.wakeUpProcess_cases t with ⟨f, h, -⟩ | ⟨h, -⟩
  · rw [h]
    rfl
  · rw [h]

@[simp]
lemma kin_wakeUpProcess (t : Nat) : (s.wakeUpProcess t).1.kin = s.kin := by
  rcases s.wakeUpProcess_cases t with ⟨f, h, -⟩ | ⟨h, -⟩
  · rw [h]
    rfl
  · rw [h]

@[simp]
lemma waitq_wakeUpProcess (t x : Nat) :
    ((s.wakeUpProcess t).1.task x).waitq = (s.task x).waitq := by
  rcases s.wakeUpProcess_cases t with ⟨f, h, hq, -⟩ | ⟨h, -⟩
  · rw [h]
    exact field_setTask Task.waitq hq x
  · rw [h]

@[simp]
lemma parent_wakeUpProcess (t x : Nat) :
    ((s.wakeUpProcess t).1.task x).parent = (s.task x).parent := by
  rcases s.wakeUpProcess_cases t with ⟨f, h, -, hp, -⟩ | ⟨h, -⟩
  · rw [h]
    exact field_setTask Task.parent hp x
  · rw [h]

lemma state_wakeUpProcess (t x : Nat) :
    ((s.wakeUpProcess t).1.task x).state =
      if x = t then (s.task x).state.woken else (s.task x).state := by
  by_cases hx : x = t
  · subst hx
    rw [if_pos rfl]
    rcases s.wakeUpProcess_cases x with ⟨f, h, -, -, hf, -⟩ | ⟨h, hf⟩
    · rw [h, ← hf]
      exact congrArg Task.state (task_setTask_self s x f)
    · rw [h, hf]
  · rw [if_neg hx]
    rcases s.wakeUpProcess_cases t with ⟨f, h, -⟩ | ⟨h, -⟩
    · rw [h]
      exact congrArg Task.state (task_setTask_of_ne hx f)
    · rw [h]

lemma wakeUpProcess_le (t : Nat) : (s.wakeUpProcess t).2 ≤ 1 := by
  rcases s.wakeUpProcess_cases t with ⟨f, -, -, -, -, h⟩ | ⟨h, -⟩
  · exact h.le
  · rw [h]
    exact Nat.zero_le 1

@[simp]
lemma state_setWaitq (t x : Nat) (o : Option QueueId) :
    ((s.setWaitq t o).task x).state = (s.task x).state := by
  apply field_setTask Task.state
  exact fun _ => rfl

@[simp]
lemma parent_setWaitq (t x : Nat) (o : Option QueueId) :
    ((s.setWaitq t o).task x).parent = (s.task x).parent := by
  apply field_setTask Task.parent
  exact fun _ => rfl

lemma waitq_setWaitq (t x : Nat) (o : Option QueueId) :
    ((s.setWaitq t o).task x).waitq = if x = t then o else (s.task x).waitq := by
  by_cases hx : x = t
  · simp [setWaitq, hx]
  · simp [setWaitq, hx, task_setTask_of_ne]

lemma defaultWakeFunction_wakes (t : Nat) :
    Wakes s (s.defaultWakeFunction t).1 [t] where
  state x := by simp [defaultWakeFunction, state_wakeUpProcess]
  waitq x := by simp [defaultWakeFunction, waitq_setWaitq]
  parent x := by simp [defaultWakeFunction]
  kin := kin_wakeUpProcess _ t

@[simp]
lemma wait_defaultWakeFunction (t : Nat) : (s.defaultWakeFunction t).1.wait = s.wait :=
  wait_wakeUpProcess _ t

end

/-! ## The two loops of `__wake_up` -/

section

variable {fuel : Nat} {L L' : Links WaitNode} {q : QueueId} {w : Option QueueId → List Nat}
variable {l : List Nat}

section

variable (R : Rings wakeLayout L w)
include R

lemma drainWaiters_step {t : Nat} (hq : w (some q) = t :: l) :
    ∃ L1, (∀ fuel, drainWaiters (fuel + 1) L q = drainWaiters fuel L1 q) ∧
      Rings wakeLayout L1 (update (update w (some q) l) none (w none ++ [t])) := by
  have hn : L.next (.head q) = .entry t := by
    have hfirst := R.next_head (some q)
    rwa [hq] at hfirst
  have hne : ¬ L.ListEmpty (.head q) := fun he => by cases hn.symm.trans he
  have hm : t ∈ w (some q) := hq ▸ mem_cons_self
  have hnd : t ∉ l := (nodup_cons.mp (hq ▸ R.nodup (some q))).1
  have R1 := R.listDelInit hm
  rw [hq, erase_cons_head] at R1
  have hfree : ∀ o, t ∉ update w (some q) l o := by
    intro o ho
    rw [update_apply] at ho
    split_ifs at ho with hoq
    · exact hnd ho
    · exact hoq (R.unique ho hm)
  have R2 := R1.listAddTail none hfree
  rw [update_of_ne (some_ne_none q).symm] at R2
  refine ⟨_, fun fuel => ?_, R2⟩
  rw [drainWaiters, if_neg hne]
  simp only [hn]
  rfl

lemma drainWaiters_nil (hq : w (some q) = []) : drainWaiters (fuel + 1) L q = some L := by
  have hn : L.ListEmpty (.head q) := by
    have hfirst := R.next_head (some q)
    rwa [hq] at hfirst
  rw [drainWaiters, if_pos hn]

/--
With enough fuel the first loop leaves the queue empty and its waiters, in order, on the local list.
-/
lemma drainWaiters_run (fuel : Nat) :
    drainWaiters fuel L q = none ∧ fuel ≤ (w (some q)).length ∨
      ∃ L', drainWaiters fuel L q = some L' ∧
        Rings wakeLayout L' (update (update w (some q) []) none (w none ++ w (some q))) := by
  induction hq : w (some q) generalizing fuel L w with
  | nil =>
    cases fuel with
    | zero => exact .inl ⟨rfl, le_refl 0⟩
    | succ fuel =>
      refine .inr ⟨L, drainWaiters_nil R hq, ?_⟩
      rwa [← hq, update_eq_self, hq, append_nil, update_eq_self]
  | cons t l ih =>
    cases fuel with
    | zero => exact .inl ⟨rfl, Nat.zero_le _⟩
    | succ fuel =>
      rcases drainWaiters_step R hq with ⟨L1, hL1, R1⟩
      rw [hL1]
      rcases ih R1 fuel (by simp) with ⟨hnone, hle⟩ | ⟨L', hL', R2⟩
      · exact .inl ⟨hnone, Nat.succ_le_succ hle⟩
      have hw : update (update (update (update w (some q) l) none (w none ++ [t])) (some q) []) none
          (update (update w (some q) l) none (w none ++ [t]) none ++ l) =
          update (update w (some q) []) none (w none ++ t :: l) := by
        funext o
        cases o with
        | none => simp
        | some q' => by_cases hqq : q' = q <;> simp [hqq]
      rw [hw] at R2
      exact .inr ⟨L', hL', R2⟩

end

variable {s s' : Sched} {nr : Int} {woke woke' : Nat} {pos n : WaitNode}

lemma or_le_one {a b : Nat} (ha : a ≤ 1) (hb : b ≤ 1) : a ||| b ≤ 1 :=
  Nat.le_of_lt_succ (Nat.or_lt_two_pow (n := 1) (Nat.lt_succ_of_le ha) (Nat.lt_succ_of_le hb))

/-- The node at which a traversal of the local list stands. -/
def AtFirst (L : Links WaitNode) (l : List Nat) (pos n : WaitNode) : Prop :=
  pos = wakeLayout.first none l ∧ n = L.next pos

lemma wakeEach_step (nr : Int) {t : Nat} (R : Rings wakeLayout s.wait w) (hl : w none = t :: l)
    (hpos : AtFirst s.wait (w none) pos n) (hwoke : woke ≤ 1) :
    ∃ (s1 : Sched) (woke1 : Nat) (n1 : WaitNode), (∀ fuel, wakeEach (fuel + 1) s nr woke pos n =
        if 0 < nr ∧ nr ≤ woke1 then some (s1, woke1)
        else wakeEach fuel s1 nr woke1 n n1) ∧
      Rings wakeLayout s1.wait (update w none l) ∧ AtFirst s1.wait l n n1 ∧
      Wakes s s1 [t] ∧ woke1 ≤ 1 := by
  have hm : t ∈ w none := hl ▸ mem_cons_self
  have hp : pos = .entry t := by
    have hfirst := hpos.1
    rwa [hl] at hfirst
  have hn : n = wakeLayout.first none l := by
    rw [hpos.2, hp]
    exact R.next_entry hl
  have R1 := R.listDelInit hm
  rw [hl, erase_cons_head] at R1
  let s0 : Sched := { s with wait := s.wait.listDelInit .null (.entry t) }
  have hw := s0.defaultWakeFunction_wakes t
  refine ⟨(s0.defaultWakeFunction t).1, woke ||| (s0.defaultWakeFunction t).2, _, fun fuel => ?_,
    ?_, ⟨hn, rfl⟩, ⟨hw.state, hw.waitq, hw.parent, hw.kin⟩, ?_⟩
  · rw [hp, wakeEach]
  · rw [wait_defaultWakeFunction]
    exact R1
  · exact or_le_one hwoke (wakeUpProcess_le _ t)

lemma wakeEach_nil (hl : w none = []) (hpos : AtFirst s.wait (w none) pos n) :
    wakeEach (fuel + 1) s nr woke pos n = some (s, woke) := by
  have hp : pos = .wakeList := by
    have hfirst := hpos.1
    rwa [hl] at hfirst
  rw [hp, wakeEach]

/--
With enough fuel the second loop returns. It touches the local list only, and it wakes every task
of the list, unless it may stop after the first one.
-/
lemma wakeEach_run (fuel : Nat) (nr : Int) (R : Rings wakeLayout s.wait w)
    (hpos : AtFirst s.wait (w none) pos n) (hwoke : woke ≤ 1) :
    wakeEach fuel s nr woke pos n = none ∧ fuel ≤ (w none).length ∨
      ∃ r l, wakeEach fuel s nr woke pos n = some r ∧
        Rings wakeLayout r.1.wait (update w none l) ∧
        (nr ≠ 1 ∨ (w none).length ≤ 1 → l = [] ∧ Wakes s r.1 (w none)) := by
  induction hl : w none generalizing fuel s woke pos n w with
  | nil =>
    cases fuel with
    | zero => exact .inl ⟨rfl, le_refl 0⟩
    | succ fuel =>
      refine .inr ⟨_, [], wakeEach_nil hl hpos, ?_, fun _ => ⟨rfl, Wakes.refl rfl rfl⟩⟩
      rwa [← hl, update_eq_self]
  | cons t l ih =>
    cases fuel with
    | zero => exact .inl ⟨rfl, Nat.zero_le _⟩
    | succ fuel =>
      rcases wakeEach_step nr R hl hpos hwoke with ⟨s1, woke1, n1, heq, R1, hpos1, hw1, hle1⟩
      rw [heq, length_cons]
      by_cases hstop : 0 < nr ∧ nr ≤ woke1
      · refine .inr ⟨_, l, if_pos hstop, R1, fun hnr => ?_⟩
        -- the loop may stop only for `nr = 1`, and then this was the last task
        have hnil : l = [] := eq_nil_of_length_eq_zero (by omega)
        subst hnil
        exact ⟨rfl, hw1⟩
      · rw [if_neg hstop]
        have hpos2 : AtFirst s1.wait (update w none l none) n n1 := by rwa [update_self]
        rcases ih fuel R1 hpos2 hle1 (update_self _ _ _) with
          ⟨hnone, hle⟩ | ⟨r, l', hr, R', hall⟩
        · exact .inl ⟨hnone, Nat.succ_le_succ hle⟩
        rw [update_idem] at R'
        refine .inr ⟨r, l', hr, R', fun hnr => ?_⟩
        have hrest := hall (hnr.imp_right fun hlen => by omega)
        exact ⟨hrest.1, hw1.cons hrest.2⟩

end

/-! ## `__wake_up` on a queue -/

section

variable {fuel : Nat} {s s' : Sched} {q : QueueId} {nr : Int} {w : QueueId → List Nat}

section

variable (R : Rings waitLayout s.wait w)
include R

lemma wakeUp_drained {L : Links WaitNode}
    (h : drainWaiters fuel (s.wait.initListHead .wakeList) q = some L) :
    Rings wakeLayout L (fun o => o.elim (w q) (update w q [])) := by
  rcases drainWaiters_run (q := q) (wakeRings_of_waitRings R) fuel with
    ⟨hnone, -⟩ | ⟨L', hL, R1⟩
  · cases hnone.symm.trans h
  cases hL.symm.trans h
  convert R1 using 1
  funext o
  cases o with
  | none => simp
  | some q' => by_cases hqq : q' = q <;> simp [hqq]

/-- What a call of `__wake_up` that returns has done: its two loops, one after the other. -/
lemma wakeUp_eq_some (h : s.wakeUp fuel q nr = some s') :
    ∃ L r, Rings wakeLayout L (fun o => o.elim (w q) (update w q [])) ∧
      AtFirst L (w q) (L.next .wakeList) (L.next (L.next .wakeList)) ∧
      wakeEach fuel { s with wait := L } nr 0 (L.next .wakeList) (L.next (L.next .wakeList)) =
        some r ∧
      s'.wait = r.1.wait ∧ s'.task = r.1.task ∧ s'.kin = r.1.kin := by
  unfold wakeUp at h
  cases hd : drainWaiters fuel (s.wait.initListHead .wakeList) q with
  | none => simp [hd] at h
  | some L =>
    have R1 := wakeUp_drained R hd
    cases hr : wakeEach fuel { s with wait := L } nr 0 (L.next .wakeList)
        (L.next (L.next .wakeList)) with
    | none => simp [hd, hr] at h
    | some r =>
      refine ⟨L, r, R1, ⟨R1.next_head none, rfl⟩, hr, ?_⟩
      simp only [hd, hr, bind_eq_bind, bind_some] at h
      split at h
      · cases h
        exact ⟨rfl, rfl, rfl⟩
      · cases h
        exact ⟨rfl, rfl, rfl⟩

/--
If it cannot stop early, `__wake_up` empties the queue and wakes the tasks that
waited there.
-/
lemma wakeUp_rings (hnr : nr ≠ 1 ∨ (w q).length ≤ 1) (h : s.wakeUp fuel q nr = some s') :
    Rings waitLayout s'.wait (update w q []) ∧ Wakes s s' (w q) := by
  obtain ⟨L, r, R1, hpos, hr, hwait, htask, hkin⟩ := wakeUp_eq_some R h
  rcases wakeEach_run fuel nr (s := { s with wait := L }) R1 hpos (Nat.zero_le 1) with
    ⟨hnone, -⟩ | ⟨_, l, hr', R2, hall⟩
  · cases hnone.symm.trans hr
  cases hr'.symm.trans hr
  obtain ⟨rfl, hw⟩ := hall hnr
  refine ⟨hwait ▸ waitRings_of_wakeRings R2 (update_self _ _ _), ?_⟩
  exact ⟨htask ▸ hw.state, htask ▸ hw.waitq, htask ▸ hw.parent, hkin.trans hw.kin⟩

lemma wakeUp_returns (hf : (w q).length < fuel) : ∃ s', s.wakeUp fuel q nr = some s' := by
  rcases drainWaiters_run (q := q) (wakeRings_of_waitRings R) fuel with
    ⟨-, hle⟩ | ⟨L, hd, -⟩
  · exact absurd hle (Nat.not_le_of_gt hf)
  have R1 := wakeUp_drained R hd
  have hpos : AtFirst L (w q) (L.next .wakeList) (L.next (L.next .wakeList)) :=
    ⟨R1.next_head none, rfl⟩
  rcases wakeEach_run fuel nr (s := { s with wait := L }) R1 hpos (Nat.zero_le 1) with
    ⟨-, hle⟩ | ⟨r, -, hr, -⟩
  · exact absurd hle (Nat.not_le_of_gt hf)
  simp only [wakeUp, hd, hr, bind_eq_bind, bind_some]
  split
  · exact ⟨_, rfl⟩
  · exact ⟨_, rfl⟩

end

end

end Sched
end LiteKernel.Kernel
