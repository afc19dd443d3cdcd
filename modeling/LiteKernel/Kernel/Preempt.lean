import LiteKernel.Kernel.Completion
import LiteKernel.Kernel.Process

/-!
# Time slices

The timer interrupt of `arch/x86/kernel/irq.c` with `task_tick` and `task_schedule` of
`kernel/sched/core.c`.

Main results:

- Theorem `waiting_bounded`: as long as no task comes or goes, a task that can run waits for less
  than three interrupts for each other task, whatever the others do.
-/

namespace LiteKernel.Kernel

open Function Lib

/-- `struct sched_cpu_state` and `kernel_preempt_count`. -/
structure Cpu where
  sched : Sched
  current : Nat
  preemptCount : Nat

namespace Cpu

def taskTick (c : Cpu) (now : Nat) : Cpu :=
  if c.sched.taskList = [] then c
  else
    let s := Procs.runqueueWakeSleepers c.sched now
    if (s.task c.current).state ≠ .runnable then { c with sched := { s with needResched := true } }
    else
      let s := s.setTask c.current fun k =>
        { k with timeSlice := if 0 < k.timeSlice then k.timeSlice - 1 else k.timeSlice }
      if (s.task c.current).timeSlice ≤ 0 then { c with sched := { s with needResched := true } }
      else { c with sched := s }

/-- `task_schedule` without the switch of the address space and of the stack. -/
def taskSchedule (c : Cpu) : Cpu :=
  if c.sched.needResched = false then c
  else
    let next := c.sched.runqueuePickNext c.current
    let s := c.sched.setTask next fun k =>
      { k with timeSlice := if k.timeSlice ≤ 0 then taskTimesliceTicks else k.timeSlice }
    { c with sched := { s with needResched := false }, current := next }

def taskShouldResched (c : Cpu) : Bool :=
  decide ((c.sched.task c.current).state ≠ .runnable) || c.sched.needResched

/-- `irq_handler` for the timer. -/
def irqTimer (c : Cpu) (now : Nat) : Cpu :=
  let c := c.taskTick now
  if c.preemptCount = 0 ∧ c.taskShouldResched = true then c.taskSchedule else c

/-- What can happen next. -/
inductive Op where
  | timer (now : Nat)
  /-- The end of a system call or a fault. -/
  | schedule
  /-- Whatever the running task or a handler does to the tasks. -/
  | other (s : Sched) (preemptCount : Nat)

def Op.isTimer : Op → Bool
  | .timer _ => true
  | _ => false

def step (c : Cpu) : Op → Cpu
  | .timer now => c.irqTimer now
  | .schedule => c.taskSchedule
  | .other s preemptCount => { c with sched := s, preemptCount := preemptCount }

variable {c : Cpu} {b t : Nat} {s : Sched}

/-- The running task is on the list, and no time slice is too long. -/
structure Listed (c : Cpu) : Prop where
  nodup : c.sched.taskList.Nodup
  current : c.current ∈ c.sched.taskList
  slice_le : ∀ t, (c.sched.task t).timeSlice ≤ taskTimesliceTicks

/-- The running task has time left. -/
structure Ok (c : Cpu) : Prop extends Listed c where
  slice_pos : 0 < (c.sched.task c.current).timeSlice

def Ready (s : Sched) (t : Nat) : Prop :=
  t ∈ s.taskList ∧ (s.task t).state = .runnable

/--
`b` can run and does not get the processor. No task is put on the list or taken off, the running
task gets no new time slice, and the timer finds preemption enabled.
-/
def Waits (b : Nat) (c : Cpu) (op : Op) : Prop :=
  Ready c.sched b ∧ (c.step op).current ≠ b ∧
    match op with
    | .timer _ => c.preemptCount = 0
    | .schedule => True
    | .other s _ => s.taskList = c.sched.taskList ∧
        (s.task c.current).timeSlice = (c.sched.task c.current).timeSlice ∧
        ∀ t, (s.task t).timeSlice ≤ taskTimesliceTicks

/-! ## Distances on the ring -/

/-- The place of `b` on the ring of tasks, counted from `t`. -/
def turns (s : Sched) (t b : Nat) : Nat :=
  (t :: s.runqueueAfter t).idxOf b

/-- The interrupts until `b` runs, at the latest. -/
def delay (b : Nat) (c : Cpu) : Int :=
  3 * (turns c.sched c.current b - 1) + (c.sched.task c.current).timeSlice

lemma cons_runqueueAfter (ht : t ∈ s.taskList) :
    t :: s.runqueueAfter t = s.taskList.rotate (s.taskList.idxOf t) := by
  have hlt := List.idxOf_lt_length_iff.mpr ht
  rw [List.rotate_eq_drop_append_take hlt.le, List.drop_eq_getElem_cons hlt, List.getElem_idxOf,
    Sched.runqueueAfter, List.cons_append]

lemma mem_ring_iff (ht : t ∈ s.taskList) : b ∈ t :: s.runqueueAfter t ↔ b ∈ s.taskList := by
  rw [cons_runqueueAfter ht, List.mem_rotate]

lemma turns_lt (ht : t ∈ s.taskList) (hb : b ∈ s.taskList) :
    turns s t b < s.taskList.length := by
  have hlt := List.idxOf_lt_length_iff.mpr ((mem_ring_iff ht).mpr hb)
  rwa [cons_runqueueAfter ht, List.length_rotate, ← cons_runqueueAfter ht] at hlt

/-- The place of `b` counted from the start of the list. -/
lemma turns_add (hd : s.taskList.Nodup) (ht : t ∈ s.taskList) (hb : b ∈ s.taskList) :
    (turns s t b + s.taskList.idxOf t) % s.taskList.length = s.taskList.idxOf b := by
  have hlt := turns_lt ht hb
  have hget := List.getElem_idxOf (List.idxOf_lt_length_iff.mpr ((mem_ring_iff ht).mpr hb))
  simp only [cons_runqueueAfter ht, List.getElem_rotate] at hget
  have hidx := hd.idxOf_getElem _ (Nat.mod_lt (turns s t b + s.taskList.idxOf t) (by omega))
  simp only [turns, cons_runqueueAfter ht, hget] at hidx ⊢
  exact hidx.symm

/-- The first task with a property is not behind another one with the property. -/
lemma idxOf_le_of_find? {l : List Nat} {p : Nat → Bool} {u : Nat} (hu : l.find? p = some u)
    (hb : p b = true) : l.idxOf u ≤ l.idxOf b := by
  obtain ⟨hpu, x, y, rfl, hx⟩ := List.find?_eq_some_iff_append.mp hu
  have hnot : ∀ v, p v = true → v ∉ x := fun v hv hvx => by simpa [hv] using hx v hvx
  rw [List.idxOf_append_of_notMem (hnot u hpu), List.idxOf_append_of_notMem (hnot b hb),
    List.idxOf_cons_self]
  omega

/-- The task that is chosen is nearer to `b`. -/
lemma turns_runqueuePickNext (hd : s.taskList.Nodup) (ht : t ∈ s.taskList) (hb : Ready s b)
    (hne : b ≠ t) :
    s.runqueuePickNext t ∈ s.taskList ∧ turns s (s.runqueuePickNext t) b < turns s t b := by
  have hbmem := List.mem_of_ne_of_mem hne ((mem_ring_iff ht).mpr hb.1)
  have hsome : ((s.runqueueAfter t).find? fun t => (s.task t).state = .runnable).isSome :=
    List.find?_isSome.mpr ⟨b, hbmem, decide_eq_true hb.2⟩
  obtain ⟨u, hu⟩ := Option.isSome_iff_exists.mp hsome
  have humem := List.mem_of_find?_eq_some hu
  have hul := (mem_ring_iff ht).mp (List.mem_cons_of_mem t humem)
  have hnodup : (t :: s.runqueueAfter t).Nodup :=
    cons_runqueueAfter ht ▸ List.nodup_rotate.mpr hd
  have hut : t ≠ u := fun h => (List.nodup_cons.mp hnodup).1 (h ▸ humem)
  have hle : 0 < turns s t u ∧ turns s t u ≤ turns s t b := by
    have hfirst := idxOf_le_of_find? hu (decide_eq_true hb.2)
    rw [turns, turns, List.idxOf_cons_ne _ hut, List.idxOf_cons_ne _ hne.symm]
    omega
  -- from `t` to `b` it is as far as from `t` to `u` and from there to `b`
  have hsum : turns s t b ≡ turns s u b + turns s t u [MOD s.taskList.length] := by
    refine Nat.ModEq.add_right_cancel' (s.taskList.idxOf t) ?_
    rw [Nat.ModEq, turns_add hd ht hb.1, add_assoc, ← Nat.add_mod_mod, turns_add hd ht hul,
      turns_add hd hul hb.1]
  have hlt := turns_lt hul hb.1
  rw [Sched.runqueuePickNext, hu, Option.getD_some]
  refine ⟨hul, ?_⟩
  by_contra hnot
  have hdvd := Nat.le_of_dvd (by omega) ((Nat.modEq_iff_dvd' (by omega)).mp hsum)
  omega

/-! ## Steps -/

lemma wakeSleepers_spec (now : Nat) (l : List Nat) (s : Sched) :
    let s' := l.foldl (Procs.wakeSleeper now) s
    s'.taskList = s.taskList ∧ ∀ t, (s'.task t).timeSlice = (s.task t).timeSlice ∧
      ((s.task t).state = .runnable → (s'.task t).state = .runnable) := by
  induction l generalizing s with
  | nil => exact ⟨rfl, fun _ => ⟨rfl, id⟩⟩
  | cons u l ih =>
    obtain ⟨hlist, htask⟩ := ih (Procs.wakeSleeper now s u)
    have hstep : (Procs.wakeSleeper now s u).taskList = s.taskList ∧
        ∀ t, ((Procs.wakeSleeper now s u).task t).timeSlice = (s.task t).timeSlice ∧
          ((s.task t).state = .runnable →
            ((Procs.wakeSleeper now s u).task t).state = .runnable) := by
      unfold Procs.wakeSleeper
      split
      · refine ⟨rfl, fun t => ?_⟩
        by_cases ht : t = u
        · simp [ht, Sched.task_setTask_self]
        · simp [Sched.task_setTask_of_ne ht]
      · exact ⟨rfl, fun _ => ⟨rfl, id⟩⟩
    exact ⟨hlist.trans hstep.1, fun t =>
      ⟨(htask t).1.trans (hstep.2 t).1, fun hr => (htask t).2 ((hstep.2 t).2 hr)⟩⟩

lemma state_setTimeSlice (s : Sched) (t : Nat) (f : Task → Int) (x : Nat) :
    ((s.setTask t fun k => { k with timeSlice := f k }).task x).state = (s.task x).state := by
  by_cases hx : x = t
  · rw [hx, Sched.task_setTask_self]
  · rw [Sched.task_setTask_of_ne hx]

/-- The tick takes a unit of the time slice, or asks for another task. -/
lemma Ok.taskTick (h : Ok c) (hb : Ready c.sched b) (now : Nat) :
    let c' := c.taskTick now
    Listed c' ∧ Ready c'.sched b ∧ c'.current = c.current ∧ c'.preemptCount = c.preemptCount ∧
      c'.sched.taskList = c.sched.taskList ∧
      (c'.sched.needResched = false → c'.taskShouldResched = false ∧
        (c'.sched.task c.current).timeSlice = (c.sched.task c.current).timeSlice - 1 ∧
        0 < (c'.sched.task c.current).timeSlice) := by
  obtain ⟨hlist, htask⟩ := wakeSleepers_spec now c.sched.taskList c.sched
  unfold Cpu.taskTick Procs.runqueueWakeSleepers
  rw [if_neg (List.ne_nil_of_mem h.current)]
  dsimp only
  generalize c.sched.taskList.foldl (Procs.wakeSleeper now) c.sched = s at *
  have hready : Ready s b := ⟨hlist.symm ▸ hb.1, (htask b).2 hb.2⟩
  have hslice : ∀ t, (s.task t).timeSlice ≤ taskTimesliceTicks := fun t =>
    (htask t).1.trans_le (h.slice_le t)
  have hpos : 0 < (s.task c.current).timeSlice := (htask c.current).1.symm ▸ h.slice_pos
  set s' := s.setTask c.current fun k =>
    { k with timeSlice := if 0 < k.timeSlice then k.timeSlice - 1 else k.timeSlice } with hs'
  have hstate : ∀ t, (s'.task t).state = (s.task t).state := state_setTimeSlice s c.current _
  have hcur : (s'.task c.current).timeSlice = (s.task c.current).timeSlice - 1 := by
    rw [hs', Sched.task_setTask_self]
    exact if_pos hpos
  have hle : ∀ t, (s'.task t).timeSlice ≤ taskTimesliceTicks := by
    intro t
    by_cases ht : t = c.current
    · have hold := hslice c.current
      rw [ht, hcur]
      omega
    · rw [hs', Sched.task_setTask_of_ne ht]
      exact hslice t
  have hready' : Ready s' b := ⟨hready.1, (hstate b).trans hready.2⟩
  have hd : s.taskList.Nodup := hlist.symm ▸ h.nodup
  have hmem : c.current ∈ s.taskList := hlist.symm ▸ h.current
  split_ifs with hrun hzero
  · exact ⟨⟨hd, hmem, hslice⟩, hready, rfl, rfl, hlist, nofun⟩
  · exact ⟨⟨hd, hmem, hle⟩, hready', rfl, rfl, hlist, nofun⟩
  · refine ⟨⟨hd, hmem, hle⟩, hready', rfl, rfl, hlist, fun hno => ⟨?_, ?_, not_le.mp hzero⟩⟩
    · have hno' : s'.needResched = false := hno
      simp [taskShouldResched, hno', hstate, not_not.mp hrun]
    · exact hcur.trans (by rw [(htask c.current).1])

/-- Another task is chosen that is nearer to `b`, and has time left. -/
lemma Listed.taskSchedule (h : Listed c) (hb : Ready c.sched b) (hne : b ≠ c.current)
    (hneed : c.sched.needResched = true) :
    Ok c.taskSchedule ∧ delay b c.taskSchedule ≤ 3 * (turns c.sched c.current b - 1) := by
  obtain ⟨hmem, hlt⟩ := turns_runqueuePickNext h.nodup h.current hb hne
  rw [Cpu.taskSchedule, if_neg (by simp [hneed])]
  dsimp only
  generalize c.sched.runqueuePickNext c.current = u at *
  set s' := c.sched.setTask u fun k =>
    { k with timeSlice := if k.timeSlice ≤ 0 then taskTimesliceTicks else k.timeSlice } with hs'
  have hu : 0 < (s'.task u).timeSlice ∧ (s'.task u).timeSlice ≤ taskTimesliceTicks := by
    have hold := h.slice_le u
    rw [hs', Sched.task_setTask_self]
    dsimp only
    unfold taskTimesliceTicks at *
    split_ifs <;> omega
  refine ⟨⟨⟨h.nodup, hmem, fun t => ?_⟩, hu.1⟩, ?_⟩
  · by_cases ht : t = u
    · exact ht ▸ hu.2
    · show (s'.task t).timeSlice ≤ taskTimesliceTicks
      rw [hs', Sched.task_setTask_of_ne ht]
      exact h.slice_le t
  · have hslice := hu.2
    show 3 * ((turns c.sched u b : Int) - 1) + (s'.task u).timeSlice ≤ _
    unfold taskTimesliceTicks at hslice
    omega

/-- A step of a run in which `b` waits; an interrupt shortens the delay. -/
lemma Ok.step (h : Ok c) (hne : b ≠ c.current) {op : Op} (hop : Waits b c op) :
    Ok (c.step op) ∧ delay b (c.step op) + (if op.isTimer then 1 else 0) ≤ delay b c := by
  obtain ⟨hb, -, hop⟩ := hop
  have hpos := h.slice_pos
  cases op with
  | timer now =>
    obtain ⟨hlisted, hb', hcur, hcount, hlist, htick⟩ := h.taskTick hb now
    simp only [Cpu.step, irqTimer, Op.isTimer, if_true]
    have hturns : turns (c.taskTick now).sched c.current b = turns c.sched c.current b := by
      unfold turns Sched.runqueueAfter
      rw [hlist]
    rcases hneed : (c.taskTick now).sched.needResched with _ | _
    · obtain ⟨hno, hslice, hleft⟩ := htick hneed
      rw [if_neg (by simp [hno])]
      refine ⟨⟨hlisted, hcur ▸ hleft⟩, ?_⟩
      unfold delay
      rw [hcur, hturns, hslice]
      omega
    · rw [if_pos ⟨hcount.trans hop, by simp [taskShouldResched, hneed]⟩]
      obtain ⟨hok, hdelay⟩ := hlisted.taskSchedule hb' (hcur.symm ▸ hne) hneed
      rw [hcur, hturns] at hdelay
      refine ⟨hok, ?_⟩
      unfold delay at hdelay ⊢
      omega
  | schedule =>
    simp only [Cpu.step, Op.isTimer, Bool.false_eq_true, if_false, add_zero]
    rcases hneed : c.sched.needResched with _ | _
    · rw [Cpu.taskSchedule, if_pos hneed]
      exact ⟨h, le_rfl⟩
    · obtain ⟨hok, hdelay⟩ := h.taskSchedule hb hne hneed
      refine ⟨hok, hdelay.trans ?_⟩
      unfold delay
      omega
  | other s count =>
    obtain ⟨hlist, hslice, hle⟩ := hop
    refine ⟨⟨⟨hlist.symm ▸ h.nodup, hlist.symm ▸ h.current, hle⟩, hslice.symm ▸ hpos⟩, ?_⟩
    simp [Cpu.step, Op.isTimer, delay, turns, Sched.runqueueAfter, hlist, hslice]

/-- The interrupts of a run in which `b` waits are paid for by the delay. -/
lemma Ok.countP_lt_delay (h : Ok c) (hne : b ≠ c.current) {ops : List Op}
    (hops : RunOk Cpu.step (Waits b) c ops) : ops.countP Op.isTimer < delay b c := by
  induction ops generalizing c with
  | nil =>
    have hpos := h.slice_pos
    have hturns : turns c.sched c.current b = _ := List.idxOf_cons_ne _ hne.symm
    simp only [List.countP_nil, delay, hturns]
    omega
  | cons op ops ih =>
    obtain ⟨hop, hops⟩ := hops
    obtain ⟨hok, hdelay⟩ := h.step hne hop
    have hrest := ih hok hop.2.1.symm hops
    rw [List.countP_cons]
    push_cast
    omega

/--
While a task can run and does not get the processor, there are less than three interrupts for each
other task on the list.
-/
theorem waiting_bounded (h : Ok c) (hb : Ready c.sched b) (hne : b ≠ c.current) {ops : List Op}
    (hops : RunOk Cpu.step (Waits b) c ops) :
    ops.countP Op.isTimer < 3 * (c.sched.taskList.length - 1) := by
  have hcount := h.countP_lt_delay hne hops
  have hturns := turns_lt h.current hb.1
  have hslice := h.slice_le c.current
  unfold delay at hcount
  unfold taskTimesliceTicks at hslice
  omega

/-- Two tasks that can run; the first one has a whole time slice. -/
def twoReady : Cpu where
  sched :=
    { task := fun _ => ⟨0, none, none, 0, .runnable, 3, 0, 0, 0, 0, none⟩
      wait := ⟨id, id⟩
      kin := ⟨id, id⟩
      taskList := [0, 1]
      needResched := false }
  current := 0
  preemptCount := 0

/-- The second task waits for two interrupts, and runs after the third. -/
theorem twoReady_waits :
    [Op.timer 1, .timer 2].countP Op.isTimer < 3 * (twoReady.sched.taskList.length - 1) ∧
      (run step twoReady [.timer 1, .timer 2, .timer 3]).current = 1 := by
  have hready : ∀ s : Sched, s.taskList = [0, 1] → (s.task 1).state = .runnable → Ready s 1 :=
    fun s hl hs => ⟨by simp [hl], hs⟩
  refine ⟨waiting_bounded ⟨⟨by decide, by decide, fun _ => le_rfl⟩, by decide⟩
    (hready _ rfl rfl) (by decide) ⟨⟨hready _ rfl rfl, by decide, rfl⟩,
      ⟨hready _ rfl rfl, by decide, rfl⟩, trivial⟩, by decide⟩

end Cpu
end LiteKernel.Kernel
