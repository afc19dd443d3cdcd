import LiteKernel.Kernel.WakeUp
import LiteKernel.Lib.Run

/-!
# Wait-queue membership

A task waits on a queue exactly if its `waitq` field names that queue, and only a
blocked task waits. The queues and the wait entries are related by
`Queued`, which says that the pointers form one ring for each queue, and
`Settled` adds that the tasks on these rings are blocked.

`wake_up_process`, also in `signal_notify_exit`, makes a blocked task runnable
and leaves its entry on the queue; `__wake_up` with `nr = 1` leaves all waiters
but the first on its local list; and `wait_queue_block_locked` initialises an
entry which may still be linked.

Main results:

- Theorem `membership_run`: membership holds in every run whose steps meet conditions that rule
  these cases out.
- Theorem `childExit_not_membership`: a runnable task on a queue.
-/

namespace LiteKernel.Kernel

open Function Lib List Option Sched

namespace Sched

variable {x : ExitStatus} {s1 s2 s3 : Sched}

/-! ## The invariant -/

/-- The pointers form one ring for each queue, and `waitq` tells on which one a task is. -/
structure Queued (s : Sched) (w : QueueId → List Nat) : Prop where
  rings : Rings waitLayout s.wait w
  waitq : ∀ t q, t ∈ w q ↔ (s.task t).waitq = some q

/-- Moreover only blocked tasks are on a ring. -/
structure Settled (s : Sched) (w : QueueId → List Nat) : Prop extends Queued s w where
  blocked : ∀ t q, t ∈ w q → (s.task t).state = .blocked

variable {fuel : Nat} {s s' : Sched} {t : Nat} {q : QueueId} {w : QueueId → List Nat}

lemma Queued.of_waitq (h : Queued s w) (hwait : s'.wait = s.wait)
    (hwaitq : ∀ x, (s'.task x).waitq = (s.task x).waitq) : Queued s' w where
  rings := hwait ▸ h.rings
  waitq t q := by rw [hwaitq, h.waitq]

lemma Queued.not_mem (h : Queued s w) (ht : (s.task t).waitq = none) (q : QueueId) : t ∉ w q := by
  rw [h.waitq, ht]
  exact (some_ne_none q).symm

lemma Settled.of_state (h : Settled s w) (hwait : s'.wait = s.wait)
    (hwaitq : ∀ x, (s'.task x).waitq = (s.task x).waitq)
    (hstate : ∀ x, (s.task x).waitq ≠ none → (s'.task x).state = (s.task x).state) :
    Settled s' w where
  toQueued := h.toQueued.of_waitq hwait hwaitq
  blocked t q ht := by
    have hq := (h.waitq t q).mp ht
    rw [hstate t (by rw [hq]; exact some_ne_none q)]
    exact h.blocked t q ht

/-! ## Waking -/

/-- A complete wake-up leaves the queue empty, whatever the states of its waiters were. -/
lemma Queued.wakeUp {nr : Int} (h : Queued s w)
    (hb : ∀ t q', q' ≠ q → t ∈ w q' → (s.task t).state = .blocked)
    (hnr : nr ≠ 1 ∨ (w q).length ≤ 1) (hs : s.wakeUp fuel q nr = some s') :
    Settled s' (update w q []) ∧ Wakes s s' (w q) := by
  have hw := wakeUp_rings h.rings hnr hs
  have hother : ∀ {x q'}, q' ≠ q → x ∈ w q' → x ∉ w q := fun hq hx hx' =>
    hq (h.rings.unique hx hx')
  refine ⟨⟨⟨hw.1, fun x q' => ?_⟩, fun x q' hx => ?_⟩, hw.2⟩
  · rw [hw.2.waitq]
    by_cases hq : q' = q
    · subst hq
      by_cases hx : x ∈ w q'
      · simp [hx]
      · simp [hx, ← h.waitq]
    · rw [update_of_ne hq]
      by_cases hx : x ∈ w q
      · have hx' : x ∉ w q' := fun hm => hother hq hm hx
        simp [hx, hx']
      · rw [if_neg hx, h.waitq]
  · rw [update_apply] at hx
    split_ifs at hx with hq
    · cases hx
    · rw [hw.2.state, if_neg (hother hq hx)]
      exact hb x q' hq hx

lemma Settled.wakeUp {nr : Int} (h : Settled s w) (hnr : nr ≠ 1 ∨ (w q).length ≤ 1)
    (hs : s.wakeUp fuel q nr = some s') : Settled s' (update w q []) ∧ Wakes s s' (w q) :=
  h.toQueued.wakeUp (fun x q' _ hx => h.blocked x q' hx) hnr hs

lemma Settled.wakeUpAll (h : Settled s w) (hs : s.wakeUpAll fuel q = some s') :
    Settled s' (update w q []) ∧ Wakes s s' (w q) :=
  h.wakeUp (.inl (by decide)) hs

lemma Settled.wakeUpProcess (h : Settled s w)
    (ht : (s.task t).state ≠ .blocked ∨ (s.task t).waitq = none) :
    Settled (s.wakeUpProcess t).1 w := by
  refine h.of_state (wait_wakeUpProcess s t) (waitq_wakeUpProcess s t) fun x hx => ?_
  rw [state_wakeUpProcess]
  by_cases hxt : x = t
  · subst hxt
    rcases ne_none_iff_exists'.mp hx with ⟨q, hq⟩
    have hb := h.blocked x q ((h.waitq x q).mpr hq)
    rcases ht with ht | ht
    · exact absurd hb ht
    · exact absurd ht hx
  · rw [if_neg hxt]

/-! ## Blocking and leaving a queue -/

lemma waitQueueBlockLocked_rings (R : Rings waitLayout s.wait w) (hfree : ∀ q, t ∉ w q)
    (hq : (s.task t).waitq ≠ some q) (hz : (s.task t).state ≠ .zombie) :
    Rings waitLayout (s.waitQueueBlockLocked t q).wait (update w q (t :: w q)) := by
  have hinit : s.wait.initListHead (.entry t) = s.wait := (R.free t hfree).initListHead_eq
  unfold waitQueueBlockLocked
  rw [if_neg hq, if_neg hz]
  simp only [setWaitq, wait_setTask, hinit]
  exact R.listAdd q hfree

lemma Settled.waitQueueBlockLocked (h : Settled s w)
    (ht : (s.task t).waitq = none ∨ (s.task t).waitq = some q ∨ (s.task t).state = .zombie) :
    ∃ w', Settled (s.waitQueueBlockLocked t q) w' := by
  by_cases hq : (s.task t).waitq = some q
  · rw [Sched.waitQueueBlockLocked, if_pos hq]
    exact ⟨w, h⟩
  by_cases hz : (s.task t).state = .zombie
  · rw [Sched.waitQueueBlockLocked, if_neg hq, if_pos hz]
    exact ⟨w, h⟩
  have hnone : (s.task t).waitq = none := ht.resolve_right (not_or.mpr ⟨hq, hz⟩)
  have hfree := h.not_mem hnone
  have R := waitQueueBlockLocked_rings h.rings hfree hq hz
  refine ⟨update w q (t :: w q), ⟨R, fun x q' => ?_⟩, fun x q' hx => ?_⟩
  all_goals rw [Sched.waitQueueBlockLocked, if_neg hq, if_neg hz]
  · by_cases hxt : x = t
    · subst hxt
      have hmem : x ∈ update w q (x :: w q) q' ↔ q = q' := by
        by_cases hqq : q' = q
        · simp [hqq]
        · rw [update_of_ne hqq]
          exact iff_of_false (hfree q') (Ne.symm hqq)
      simp [setWaitq, hmem]
    · have hmem : x ∈ update w q (t :: w q) q' ↔ x ∈ w q' := by
        by_cases hqq : q' = q
        · simp [hqq, hxt]
        · rw [update_of_ne hqq]
      rw [hmem, h.waitq, task_setTask_of_ne hxt]
      simp [setWaitq, task_setTask_of_ne hxt]
  · by_cases hxt : x = t
    · simp [hxt]
    · rw [task_setTask_of_ne hxt]
      have hx' : x ∈ w q' := by
        by_cases hqq : q' = q
        · subst hqq
          simpa [hxt] using hx
        · rwa [update_of_ne hqq] at hx
      simpa [setWaitq, task_setTask_of_ne hxt] using h.blocked x q' hx'

/-- Taking the entry of a task off whichever queue it is on. -/
lemma Queued.removeWaitQueue (h : Queued s w) (t : Nat) :
    Rings waitLayout (s.removeWaitQueue t).wait fun q => (w q).erase t := by
  unfold Sched.removeWaitQueue
  by_cases ht : ∃ q, t ∈ w q
  · rcases ht with ⟨q, hq⟩
    have hne : ¬ s.wait.ListEmpty (.entry t) := by
      intro he
      rcases h.rings.next_mem hq with hn | ⟨x, -, hx, hn⟩
      · cases hn.symm.trans he
      · exact hx (WaitNode.entry.inj (hn.symm.trans he))
    rw [if_neg hne]
    have hw : (fun q => (w q).erase t) = update w q ((w q).erase t) := by
      funext q'
      by_cases hqq : q' = q
      · rw [hqq, update_self]
      · rw [update_of_ne hqq]
        exact erase_of_not_mem fun hm => hqq (h.rings.unique hm hq)
    rw [hw]
    exact h.rings.listDelInit hq
  · have hfree : ∀ q, t ∉ w q := not_exists.mp ht
    have hempty : s.wait.ListEmpty (.entry t) := (h.rings.free t hfree).next_head_nil
    rw [if_pos hempty]
    have hw : (fun q => (w q).erase t) = w := by
      funext q
      exact erase_of_not_mem (hfree q)
    rw [hw]
    exact h.rings

@[simp]
lemma task_removeWaitQueue (s : Sched) (t : Nat) : (s.removeWaitQueue t).task = s.task := by
  unfold removeWaitQueue
  split <;> rfl

lemma Settled.waitQueueRemove (h : Settled s w) (q : QueueId) (t : Nat) :
    Settled (s.waitQueueRemove q t) fun q => (w q).erase t where
  rings := h.removeWaitQueue t
  waitq x q' := by
    rw [Sched.waitQueueRemove, waitq_setWaitq, task_removeWaitQueue,
      (h.rings.nodup q').mem_erase_iff]
    by_cases hx : x = t
    · simp [hx]
    · simp [hx, h.waitq]
  blocked x q' hx := by
    rw [Sched.waitQueueRemove, state_setWaitq, task_removeWaitQueue]
    exact h.blocked x q' (mem_of_mem_erase hx)

lemma Settled.signalWakeUpState (h : Settled s w) (t : Nat) :
    ∃ w', Settled (s.signalWakeUpState t) w' := by
  unfold Sched.signalWakeUpState
  split_ifs with hs
  · exact ⟨w, h.wakeUpProcess (.inl (by rw [hs]; decide))⟩
  · split
    · rename_i q _ _
      refine ⟨_, (h.waitQueueRemove q t).wakeUpProcess (.inr ?_)⟩
      rw [Sched.waitQueueRemove, waitq_setWaitq, if_pos rfl]
    · exact ⟨w, h⟩

/-- A task can be woken for the exit of a child: it is on no queue but its own. -/
def WakeSafe (s : Sched) (p : Nat) : Prop :=
  (s.task p).state ≠ .blocked ∨ (s.task p).waitq = none ∨
    (s.task p).waitq = some (.childExitWait p)

lemma Settled.signalNotifyExit (h : Settled s w)
    (hp : ∀ p, (s.task t).parent = some p → WakeSafe s p)
    (hs : s.signalNotifyExit fuel t = some s') : ∃ w', Settled s' w' := by
  unfold Sched.signalNotifyExit at hs
  cases hpar : (s.task t).parent with
  | none =>
    rw [hpar] at hs
    cases hs
    exact ⟨w, h⟩
  | some p =>
    simp only [hpar] at hs
    by_cases hown : (s.task p).waitq = some (.childExitWait p)
    · -- the parent is runnable and still linked until its own queue is woken
      have hq : Queued (s.wakeUpProcess p).1 w :=
        h.toQueued.of_waitq (wait_wakeUpProcess s p) (waitq_wakeUpProcess s p)
      have hpw : p ∈ w (.childExitWait p) := (h.waitq p _).mpr hown
      refine ⟨_, (hq.wakeUp (fun x q' hq' hx => ?_) (.inl (by decide)) hs).1⟩
      have hxp : x ≠ p := fun e => hq' (h.rings.unique (e ▸ hx) hpw)
      rw [state_wakeUpProcess, if_neg hxp]
      exact h.blocked x q' hx
    · have hsafe := hp p hpar
      have hfree : (s.task p).state ≠ .blocked ∨ (s.task p).waitq = none :=
        hsafe.imp_right fun hw => hw.resolve_right hown
      exact ⟨_, ((h.wakeUpProcess hfree).wakeUpAll hs).1⟩

/-! ## The task tree -/

/-- The children lists are rings, and the tasks on them know their parent. -/
def TreeOk (s : Sched) : Prop :=
  ∃ kids, Rings kinLayout s.kin kids ∧ ∀ c p, c ∈ kids p → (s.task c).parent = some p

/-- Neither the children lists nor the parents change. -/
structure SameTree (s s' : Sched) : Prop where
  kin : s'.kin = s.kin
  parent : ∀ x, (s'.task x).parent = (s.task x).parent

lemma SameTree.refl (s : Sched) : SameTree s s :=
  ⟨rfl, fun _ => rfl⟩

lemma SameTree.trans (h1 : SameTree s1 s2) (h2 : SameTree s2 s3) : SameTree s1 s3 :=
  ⟨h2.kin.trans h1.kin, fun x => (h2.parent x).trans (h1.parent x)⟩

lemma Wakes.sameTree {l : List Nat} (h : Wakes s s' l) : SameTree s s' :=
  ⟨h.kin, h.parent⟩

lemma TreeOk.of_sameTree (h : TreeOk s) (hs : SameTree s s') : TreeOk s' := by
  rcases h with ⟨kids, R, hpar⟩
  refine ⟨kids, hs.kin ▸ R, fun c p hc => ?_⟩
  rw [hs.parent]
  exact hpar c p hc

lemma wakeUpProcess_sameTree (s : Sched) (t : Nat) : SameTree s (s.wakeUpProcess t).1 :=
  ⟨kin_wakeUpProcess s t, parent_wakeUpProcess s t⟩

lemma waitQueueRemove_sameTree (s : Sched) (q : QueueId) (t : Nat) :
    SameTree s (s.waitQueueRemove q t) := by
  refine ⟨?_, fun x => ?_⟩
  · unfold waitQueueRemove removeWaitQueue
    split <;> rfl
  · rw [waitQueueRemove, parent_setWaitq, task_removeWaitQueue]

/-- What `reparent_children` does: the children of a task become children of the reaper. -/
structure Reparents (s s' : Sched) (t reaper : Nat) : Prop where
  wait : s'.wait = s.wait
  state : ∀ x, (s'.task x).state = (s.task x).state
  waitq : ∀ x, (s'.task x).waitq = (s.task x).waitq
  pid : ∀ x, (s'.task x).pid = (s.task x).pid
  parent : ∀ x, (s'.task x).parent = (s.task x).parent ∨
    (s.task x).parent = some t ∧ (s'.task x).parent = some reaper

/-- The tasks of a list have moved to the children list of the reaper; the others are as before. -/
structure Moves (s s' : Sched) (reaper : Nat) (M : List Nat) (kids kids' : Nat → List Nat) :
    Prop where
  wait : s'.wait = s.wait
  taskList : s'.taskList = s.taskList
  rings : Rings kinLayout s'.kin kids'
  mem : ∀ c p, c ∈ kids' p ↔ c ∈ M ∧ p = reaper ∨ c ∉ M ∧ c ∈ kids p
  moved : ∀ x ∈ M, (s'.task x).parent = some reaper
  kept : ∀ x, x ∉ M → (s'.task x).parent = (s.task x).parent
  task : ∀ x, s'.task x = { s.task x with
    realParent := (s'.task x).realParent, parent := (s'.task x).parent }

lemma Moves.refl (reaper : Nat) {kids : Nat → List Nat} (R : Rings kinLayout s.kin kids) :
    Moves s s reaper [] kids kids where
  wait := rfl
  taskList := rfl
  rings := R
  mem c p := by simp
  moved x hx := nomatch hx
  kept x _ := rfl
  task x := rfl

lemma Moves.trans {reaper : Nat} {M M' : List Nat} {kids1 kids2 kids3 : Nat → List Nat}
    (h1 : Moves s1 s2 reaper M kids1 kids2) (h2 : Moves s2 s3 reaper M' kids2 kids3) :
    Moves s1 s3 reaper (M ++ M') kids1 kids3 where
  wait := h2.wait.trans h1.wait
  taskList := h2.taskList.trans h1.taskList
  rings := h2.rings
  mem c p := by
    rw [h2.mem, h1.mem]
    by_cases hc : c ∈ M
    · by_cases hc' : c ∈ M' <;> simp [hc, hc']
    · by_cases hc' : c ∈ M' <;> simp [hc, hc']
  moved x hx := by
    by_cases hx' : x ∈ M'
    · exact h2.moved x hx'
    · rw [h2.kept x hx']
      exact h1.moved x ((mem_append.mp hx).resolve_right hx')
  kept x hx := by
    rw [h2.kept x fun h => hx (mem_append_right M h), h1.kept x fun h => hx (mem_append_left M' h)]
  task x := by
    rw [h2.task x, h1.task x]

section Reparent

variable {c reaper : Nat} {kids : Nat → List Nat}
variable {r : Sched × Bool} {wake : Bool} {n pos : KinNode} {l : List Nat}

/-- The children lists after one round. -/
def moveChild (kids : Nat → List Nat) (t reaper c : Nat) : Nat → List Nat :=
  let kids := update kids t ((kids t).erase c)
  update kids reaper (kids reaper ++ [c])

lemma mem_moveChild (R : Rings kinLayout s.kin kids) (hc : c ∈ kids t) (x p : Nat) :
    x ∈ moveChild kids t reaper c p ↔ if x = c then p = reaper else x ∈ kids p := by
  have hother : ∀ p', p' ≠ t → c ∉ kids p' := fun p' hp' hm => hp' (R.unique hm hc)
  have hdel : ∀ p', x ∈ update kids t ((kids t).erase c) p' ↔ x ≠ c ∧ x ∈ kids p' := by
    intro p'
    by_cases hp' : p' = t
    · subst hp'
      rw [update_self, (R.nodup p').mem_erase_iff]
    · rw [update_of_ne hp']
      exact ⟨fun hm => ⟨fun e => hother p' hp' (e ▸ hm), hm⟩, fun hm => hm.2⟩
  unfold moveChild
  by_cases hpr : p = reaper
  · subst hpr
    simp only [update_self, mem_append, mem_singleton]
    rw [hdel]
    by_cases hx : x = c <;> simp [hx]
  · simp only [update_of_ne hpr]
    rw [hdel]
    by_cases hx : x = c <;> simp [hx, hpr]

lemma reparentChild_rings (R : Rings kinLayout s.kin kids) (hc : c ∈ kids t) :
    Rings kinLayout (s.reparentChild c reaper).kin (moveChild kids t reaper c) := by
  have hne := R.links_ne_null hc
  have hdel := Links.listAddTail_listDel hne.1 hne.2 (kinLayout.head_ne_entry reaper c)
  have R1 := R.listDelInit hc
  have hfree : ∀ p, c ∉ update kids t ((kids t).erase c) p := by
    intro p hp
    rw [update_apply] at hp
    split_ifs at hp with hpt
    · subst hpt
      exact (R.nodup p).not_mem_erase hp
    · exact hpt (R.unique hp hc)
  have R2 := R1.listAddTail reaper hfree
  rw [← hdel] at R2
  exact R2

lemma task_reparentChild (s : Sched) (c reaper x : Nat) :
    (s.reparentChild c reaper).task x =
      if x = c then { s.task c with realParent := some reaper, parent := some reaper }
      else s.task x := by
  by_cases hx : x = c
  · simp [reparentChild, setTask, hx]
  · simp [reparentChild, setTask, hx]

lemma reparentChild_moves (R : Rings kinLayout s.kin kids) (hc : c ∈ kids t) :
    Moves s (s.reparentChild c reaper) reaper [c] kids (moveChild kids t reaper c) where
  wait := rfl
  taskList := rfl
  rings := reparentChild_rings R hc
  mem x p := by
    rw [mem_moveChild R hc]
    by_cases hx : x = c <;> simp [hx]
  moved x hx := by
    rw [task_reparentChild, if_pos (mem_singleton.mp hx)]
  kept x hx := by
    rw [task_reparentChild, if_neg fun e => hx (mem_singleton.mpr e)]
  task x := by
    by_cases hx : x = c <;> simp [task_reparentChild, hx]

/-- The loop of `reparent_children`, towards another task, comes to an end and moves every child. -/
lemma reparentEach_run (hne : reaper ≠ t) (R : Rings kinLayout s.kin kids) (hl : kids t = l)
    (hpos : pos = kinLayout.first t l) (hn : n = s.kin.next pos) :
    reparentEach fuel s t reaper wake pos n = none ∧ fuel ≤ l.length ∨
      ∃ r kids', reparentEach fuel s t reaper wake pos n = some r ∧
        Moves s r.1 reaper l kids kids' := by
  induction l generalizing fuel s kids wake pos n with
  | nil =>
    cases fuel with
    | zero => exact .inl ⟨rfl, le_refl 0⟩
    | succ fuel =>
      rw [hpos, Layout.first, kinLayout, reparentEach, if_pos rfl]
      exact .inr ⟨_, kids, rfl, Moves.refl reaper R⟩
  | cons c l ih =>
    have hc : c ∈ kids t := hl ▸ mem_cons_self
    cases fuel with
    | zero => exact .inl ⟨rfl, Nat.zero_le _⟩
    | succ fuel =>
      rw [hpos, Layout.first, kinLayout, reparentEach]
      have hmove : Moves s (s.reparentChild c reaper) .. := reparentChild_moves R hc
      have hl1 : moveChild kids t reaper c t = l := by
        rw [moveChild, update_of_ne hne.symm, update_self, hl, erase_cons_head]
      have hn1 : n = kinLayout.first t l := by
        rw [hn, hpos]
        exact R.next_entry hl
      rcases ih hmove.rings hl1 hn1 rfl with ⟨hnone, hle⟩ | ⟨r, kids', hr, hrest⟩
      · exact .inl ⟨hnone, Nat.succ_le_succ hle⟩
      · exact .inr ⟨r, kids', hr, hmove.trans hrest⟩

/-- The node is the head of a children list or one of the children on it. -/
def OnList (kids : Nat → List Nat) (t : Nat) (pos : KinNode) : Prop :=
  pos = .children t ∨ ∃ c ∈ kids t, pos = .sibling c

section

variable (R : Rings kinLayout s.kin kids)
include R

lemma onList_next_head (t : Nat) : OnList kids t (s.kin.next (.children t)) := by
  have hfirst := R.next_head t
  cases hk : kids t with
  | nil =>
    rw [hk] at hfirst
    exact .inl hfirst
  | cons c l =>
    rw [hk] at hfirst
    exact .inr ⟨c, hk ▸ mem_cons_self, hfirst⟩

/--
A task that is its own reaper. The loop appends to the list it walks along, so
all that is known of the next child is that it is still on that list.
-/
lemma reparentEach_self (hpos : OnList kids t pos)
    (hn : n = s.kin.next pos) (h : reparentEach fuel s t t wake pos n = some r) :
    ∃ M kids', M ⊆ kids t ∧ Moves s r.1 t M kids kids' := by
  induction fuel generalizing s kids wake pos n with
  | zero => cases h
  | succ fuel ih =>
    rcases hpos with rfl | ⟨c, hc, rfl⟩
    · rw [reparentEach, if_pos rfl] at h
      cases h
      exact ⟨[], kids, nil_subset _, Moves.refl t R⟩
    · rw [reparentEach] at h
      have hmove : Moves s (s.reparentChild c t) .. := reparentChild_moves R hc
      have hsame : ∀ x, x ∈ moveChild kids t t c t ↔ x ∈ kids t := by
        intro x
        rw [mem_moveChild R hc]
        by_cases hx : x = c
        · simp [hx, hc]
        · simp [hx]
      have hn1 : OnList (moveChild kids t t c) t n := by
        rcases R.next_mem hc with hh | ⟨c', hc', -, hh⟩
        · exact .inl (hn.trans hh)
        · exact .inr ⟨c', (hsame c').mpr hc', hn.trans hh⟩
      rcases ih hmove.rings hn1 rfl h with ⟨M, kids', hM, hrest⟩
      refine ⟨c :: M, kids', cons_subset.mpr ⟨hc, fun x hx => ?_⟩, hmove.trans hrest⟩
      exact (hsame x).mp (hM hx)

lemma reparentChildren_moves (hpar : ∀ x p, x ∈ kids p → (s.task x).parent = some p)
    (hs : s.reparentChildren fuel t reaper = some r) :
    ∃ kids', Moves s r.1 reaper (kids t) kids kids' := by
  have hfirst := R.next_head t
  unfold reparentChildren at hs
  split_ifs at hs with he
  · cases hs
    refine ⟨kids, ?_⟩
    have hnil : kids t = [] := by
      cases hk : kids t with
      | nil => rfl
      | cons c l =>
        rw [hk] at hfirst
        cases hfirst.symm.trans he
    rw [hnil]
    exact Moves.refl reaper R
  · by_cases hne : reaper = t
    · subst hne
      rcases reparentEach_self R (onList_next_head R reaper) rfl hs with ⟨M, kids', hM, hmove⟩
      -- children that have not moved have the right parent already
      refine ⟨kids', hmove.wait, hmove.taskList, hmove.rings, fun c p => ?_, fun x hx => ?_,
        fun x hx => hmove.kept x fun h => hx (hM h), hmove.task⟩
      · rw [hmove.mem]
        have hiff : c ∈ kids reaper → (p = reaper ↔ c ∈ kids p) := fun hc =>
          ⟨fun e => e ▸ hc, fun hp => R.unique hp hc⟩
        by_cases hc : c ∈ kids reaper
        · by_cases hcM : c ∈ M <;> simp [hc, hcM, hiff hc]
        · have hcM : c ∉ M := fun h => hc (hM h)
          simp [hc, hcM]
      · by_cases hxM : x ∈ M
        · exact hmove.moved x hxM
        · rw [hmove.kept x hxM]
          exact hpar x reaper hx
    · rcases reparentEach_run hne R rfl hfirst rfl with ⟨hnone, -⟩ | ⟨_, kids', hr, hmove⟩
      · cases hnone.symm.trans hs
      · cases hr.symm.trans hs
        exact ⟨kids', hmove⟩

end

lemma TreeOk.reparentChildren (h : TreeOk s) (hs : s.reparentChildren fuel t reaper = some r) :
    Reparents s r.1 t reaper ∧ TreeOk r.1 := by
  rcases h with ⟨kids, R, hpar⟩
  rcases reparentChildren_moves R hpar hs with ⟨kids', hmove⟩
  refine ⟨⟨hmove.wait, fun x => ?_, fun x => ?_, fun x => ?_, fun x => ?_⟩, kids', hmove.rings,
    fun c p hc => ?_⟩
  · rw [hmove.task x]
  · rw [hmove.task x]
  · rw [hmove.task x]
  · by_cases hx : x ∈ kids t
    · exact .inr ⟨hpar x t hx, hmove.moved x hx⟩
    · exact .inl (hmove.kept x hx)
  · rcases (hmove.mem c p).mp hc with ⟨hck, rfl⟩ | ⟨hck, hcp⟩
    · exact hmove.moved c hck
    · rw [hmove.kept c hck]
      exact hpar c p hcp

lemma reparentChildren_returns (hne : reaper ≠ t) (R : Rings kinLayout s.kin kids)
    (hf : (kids t).length < fuel) : ∃ r, s.reparentChildren fuel t reaper = some r := by
  unfold reparentChildren
  split
  · exact ⟨_, rfl⟩
  · rcases reparentEach_run hne R rfl (R.next_head t) rfl with ⟨-, hle⟩ | ⟨r, -, hr, -⟩
    · exact absurd hle (not_le_of_gt hf)
    · exact ⟨r, hr⟩

end Reparent

/-! ## Exit -/

lemma signalNotifyExit_sameTree (h : Settled s w)
    (hs : s.signalNotifyExit fuel t = some s') : SameTree s s' := by
  unfold signalNotifyExit at hs
  cases hpar : (s.task t).parent with
  | none =>
    rw [hpar] at hs
    cases hs
    exact SameTree.refl s
  | some p =>
    simp only [hpar] at hs
    have R : Rings waitLayout (s.wakeUpProcess p).1.wait w := by
      rw [wait_wakeUpProcess]
      exact h.rings
    have hw := wakeUp_rings R (.inl (by decide)) hs
    exact (wakeUpProcess_sameTree s p).trans hw.2.sameTree

lemma Settled.leaveQueue (h : Settled s w) (t : Nat) :
    ∃ w', Settled (s.leaveQueue t) w' ∧ ((s.leaveQueue t).task t).waitq = none ∧
      SameTree s (s.leaveQueue t) ∧ (s.leaveQueue t).taskList = s.taskList ∧
      (∀ x, ((s.leaveQueue t).task x).pid = (s.task x).pid) ∧
      ∀ x, x ≠ t → (s.leaveQueue t).task x = s.task x := by
  unfold Sched.leaveQueue
  split
  · rename_i q _ _
    refine ⟨_, h.waitQueueRemove q t, ?_, waitQueueRemove_sameTree s q t, ?_, fun x => ?_,
      fun x hx => ?_⟩
    · rw [Sched.waitQueueRemove, waitq_setWaitq, if_pos rfl]
    · unfold Sched.waitQueueRemove Sched.removeWaitQueue
      split <;> rfl
    · rw [Sched.waitQueueRemove, setWaitq, ← task_removeWaitQueue s t]
      apply field_setTask Task.pid
      exact fun _ => rfl
    · rw [Sched.waitQueueRemove, setWaitq, task_setTask_of_ne hx, task_removeWaitQueue]
  · rename_i hnot
    refine ⟨w, h, ?_, SameTree.refl s, rfl, fun _ => rfl, fun _ _ => rfl⟩
    cases hq : (s.task t).waitq with
    | none => rfl
    | some q => exact absurd hq (hnot q (h.blocked t q ((h.waitq t q).mpr hq)))

lemma reaperOf_congr (hl : s2.taskList = s1.taskList)
    (hp : ∀ x, (s2.task x).pid = (s1.task x).pid) (t : Nat) : s2.reaperOf t = s1.reaperOf t := by
  unfold reaperOf taskReaperLocked findTaskByVpid
  simp only [hl, hp]

lemma Settled.taskZombify (h : Settled s w) (ht : (s.task t).waitq = none) (x : ExitStatus) :
    Settled (s.taskZombify t x) w := by
  unfold Sched.taskZombify
  split
  · exact h
  · split
    · exact h
    · refine h.of_state rfl (fun y => ?_) fun y hy => ?_
      · apply field_setTask Task.waitq
        exact fun _ => rfl
      · have hyt : y ≠ t := fun e => hy (e ▸ ht)
        rw [task_setTask_of_ne hyt]

lemma taskZombify_sameTree (s : Sched) (t : Nat) (x : ExitStatus) :
    SameTree s (s.taskZombify t x) := by
  unfold taskZombify
  split
  · exact SameTree.refl s
  · split
    · exact SameTree.refl s
    · refine ⟨rfl, fun y => ?_⟩
      apply field_setTask Task.parent
      exact fun _ => rfl

lemma Settled.wakeChildExit {p : Option Nat} (h : Settled s w)
    (hs : s.wakeChildExit fuel p = some s') : (∃ w', Settled s' w') ∧ SameTree s s' := by
  cases p with
  | none =>
    cases hs
    exact ⟨⟨w, h⟩, SameTree.refl s⟩
  | some p =>
    have hw := h.wakeUpAll hs
    exact ⟨⟨_, hw.1⟩, hw.2.sameTree⟩

/-- The tasks that `exit_notify` wakes by themselves: the parent, or the reaper of a self-parent. -/
def Notified (s : Sched) (t p : Nat) : Prop :=
  (s.task t).parent = some p ∨ (s.task t).parent = some t ∧ p = s.reaperOf t

lemma isZombie_taskZombify (hidle : ¬ s.isIdleTask t) :
    ((s.taskZombify t x).task t).state = .zombie := by
  unfold taskZombify
  rw [if_neg hidle]
  split
  · assumption
  · simp

lemma task_taskZombify_of_ne {y : Nat} (hy : y ≠ t) : (s.taskZombify t x).task y = s.task y := by
  unfold taskZombify
  split
  · rfl
  · split
    · rfl
    · exact task_setTask_of_ne hy _

/--
After an exiting task has left its queue, given away its children and become a
zombie, it is on no queue, and its parent can be woken.
-/
lemma Settled.reparentZombify {r : Sched × Bool} (h : Settled s w) (htree : TreeOk s)
    (hidle : ¬ s.isIdleTask t) (hp : ∀ p, Notified s t p → p = t ∨ WakeSafe s p)
    (hr : (s.leaveQueue t).reparentChildren fuel t ((s.leaveQueue t).reaperOf t) = some r) :
    (∃ w', Settled (r.1.taskZombify t x) w') ∧ TreeOk (r.1.taskZombify t x) ∧
      ∀ p, ((r.1.taskZombify t x).task t).parent = some p → WakeSafe (r.1.taskZombify t x) p := by
  rcases h.leaveQueue t with ⟨w1, h1, hnone1, htree1, hlist1, hpid1, hother1⟩
  rcases (htree.of_sameTree htree1).reparentChildren hr with ⟨hrep, htree2⟩
  have h2 : Settled r.1 w1 := h1.of_state hrep.wait hrep.waitq fun y _ => hrep.state y
  have hnone2 : (r.1.task t).waitq = none := (hrep.waitq t).trans hnone1
  have hidle2 : ¬ r.1.isIdleTask t := by
    unfold isIdleTask
    rw [hrep.pid, hpid1]
    exact hidle
  refine ⟨⟨w1, h2.taskZombify hnone2 x⟩, htree2.of_sameTree (taskZombify_sameTree r.1 t x),
    fun p hpp => ?_⟩
  rw [(taskZombify_sameTree r.1 t x).parent] at hpp
  have hnot : Notified s t p := by
    rcases hrep.parent t with hsame | ⟨hself, hreaper⟩
    · exact .inl (((htree1.parent t).symm.trans hsame.symm).trans hpp)
    · refine .inr ⟨(htree1.parent t).symm.trans hself, ?_⟩
      rw [← reaperOf_congr hlist1 hpid1 t]
      exact (Option.some.inj (hreaper.symm.trans hpp)).symm
  by_cases hpt : p = t
  · subst hpt
    refine .inl ?_
    rw [isZombie_taskZombify hidle2]
    decide
  · have hsp := (hp p hnot).resolve_left hpt
    unfold WakeSafe at hsp ⊢
    rw [task_taskZombify_of_ne hpt, hrep.state, hrep.waitq, hother1 p hpt]
    exact hsp

lemma Settled.exitNotify (h : Settled s w) (htree : TreeOk s)
    (hp : ∀ p, Notified s t p → p = t ∨ WakeSafe s p) (hs : s.exitNotify fuel t x = some s') :
    (∃ w', Settled s' w') ∧ TreeOk s' := by
  unfold Sched.exitNotify at hs
  by_cases hidle : s.isIdleTask t
  · rw [if_pos hidle] at hs
    cases hs
    exact ⟨⟨w, h⟩, htree⟩
  rw [if_neg hidle] at hs
  split at hs
  · cases hs
    exact ⟨⟨w, h⟩, htree⟩
  simp only [bind_eq_bind, bind_eq_some_iff] at hs
  rcases hs with ⟨r, hr, s2, hs2, s3, hs3, s4, hs4, hs'⟩
  rcases h.reparentZombify (x := x) htree hidle hp hr with ⟨⟨w1, h3⟩, htree3, hsafe⟩
  rcases h3.signalNotifyExit hsafe hs2 with ⟨w2, h4⟩
  have htree4 := htree3.of_sameTree (signalNotifyExit_sameTree h3 hs2)
  rcases h4.wakeChildExit hs3 with ⟨⟨w3, h5⟩, hsame3⟩
  rcases h5.wakeChildExit hs4 with ⟨⟨w4, h6⟩, hsame4⟩
  cases hs'
  refine ⟨⟨w4, h6.of_state rfl (fun _ => rfl) fun _ _ => rfl⟩, ?_⟩
  exact ((htree4.of_sameTree hsame3).of_sameTree hsame4).of_sameTree ⟨rfl, fun _ => rfl⟩

/-! ## Runs -/

/-- The operations on tasks and wait queues. -/
inductive Op where
  /-- `wait_queue_block_locked`, called by a task. -/
  | block (t : Nat) (q : QueueId)
  | wakeUp (q : QueueId) (nr : Int)
  | remove (q : QueueId) (t : Nat)
  | wakeUpProcess (t : Nat)
  | signalWakeUpState (t : Nat)
  | signalNotifyExit (child : Nat)
  | exit (t : Nat) (x : ExitStatus)

/-- The state in which an operation returns. -/
def exec (fuel : Nat) (s : Sched) : Op → Option Sched
  | .block t q => some (s.waitQueueBlockLocked t q)
  | .wakeUp q nr => s.wakeUp fuel q nr
  | .remove q t => some (s.waitQueueRemove q t)
  | .wakeUpProcess t => some (s.wakeUpProcess t).1
  | .signalWakeUpState t => some (s.signalWakeUpState t)
  | .signalNotifyExit child => s.signalNotifyExit fuel child
  | .exit t x => s.exitNotify fuel t x

/-- One step of a run; after a call that does not return there is no further state. -/
def step (fuel : Nat) (o : Option Sched) (op : Op) : Option Sched :=
  o.bind fun s => s.exec fuel op

/-- The entry of a task is reached from the head of a queue. -/
def Linked (s : Sched) (t : Nat) (q : QueueId) : Prop :=
  s.wait.Reaches (.head q) (.entry t)

/-- The wait entries are where the tasks say, and tasks that run or have exited do not wait. -/
structure Membership (s : Sched) : Prop where
  unique : ∀ t q q', Linked s t q → Linked s t q' → q = q'
  waitq : ∀ t q, Linked s t q ↔ (s.task t).waitq = some q
  unlinked : ∀ t q, (s.task t).state = .runnable ∨ (s.task t).state = .zombie → ¬ Linked s t q

/-- What an operation needs in the state it starts from. -/
def OpOk (s : Sched) : Op → Prop
  | .block t q =>
    (s.task t).waitq = none ∨ (s.task t).waitq = some q ∨ (s.task t).state = .zombie
  | .wakeUp q nr => nr ≠ 1 ∨ ∀ t t', Linked s t q → Linked s t' q → t = t'
  | .wakeUpProcess t => (s.task t).state ≠ .blocked ∨ (s.task t).waitq = none
  | .signalNotifyExit child => ∀ p, (s.task child).parent = some p → WakeSafe s p
  | .exit t _ =>
    s.isIdleTask t ∨ (s.task t).state = .zombie ∨ ∀ p, Notified s t p → p = t ∨ WakeSafe s p
  | .remove _ _ | .signalWakeUpState _ => True

/-- Every queue is empty and no task waits; the tasks and their tree are arbitrary. -/
structure Quiet (s : Sched) : Prop where
  heads : ∀ q, s.wait.Ring (.head q) []
  entries : ∀ t, s.wait.Ring (.entry t) []
  waitq : ∀ t, (s.task t).waitq = none
  tree : TreeOk s

lemma Queued.linked_iff (h : Queued s w) : Linked s t q ↔ t ∈ w q :=
  h.rings.reaches_entry_iff

lemma Settled.membership (h : Settled s w) : Membership s where
  unique t q q' hq hq' := h.rings.unique (h.linked_iff.mp hq) (h.linked_iff.mp hq')
  waitq t q := by rw [h.linked_iff, h.waitq]
  unlinked t q ht hq := by
    have hb := h.blocked t q (h.linked_iff.mp hq)
    rw [hb] at ht
    rcases ht with ht | ht <;> cases ht

/-- The invariant of the runs. -/
def Inv (s : Sched) : Prop :=
  (∃ w, Settled s w) ∧ TreeOk s

lemma Quiet.inv (h : Quiet s) : Inv s := by
  refine ⟨⟨fun _ => [], ⟨⟨h.heads, fun t _ => h.entries t, fun ht => ?_⟩, fun t q => ?_⟩,
    fun t q ht => ?_⟩, h.tree⟩
  · cases ht
  · simp [h.waitq]
  · cases ht

lemma waiters_length_le_one (h : Queued s w)
    (hone : ∀ t t', Linked s t q → Linked s t' q → t = t') : (w q).length ≤ 1 := by
  have hnd := h.rings.nodup q
  cases hw : w q with
  | nil => exact Nat.zero_le 1
  | cons t l =>
    cases l with
    | nil => exact le_refl 1
    | cons t' l =>
      have ht : Linked s t q := h.linked_iff.mpr (by simp [hw])
      have ht' : Linked s t' q := h.linked_iff.mpr (by simp [hw])
      rw [hw, hone t t' ht ht'] at hnd
      exact absurd mem_cons_self (nodup_cons.mp hnd).1

lemma Inv.exec {op : Op} (h : Inv s) (hok : OpOk s op) (hs : s.exec fuel op = some s') :
    Inv s' := by
  rcases h with ⟨⟨w, h⟩, htree⟩
  cases op with
  | block t q =>
    cases hs
    refine ⟨h.waitQueueBlockLocked hok, htree.of_sameTree ?_⟩
    unfold waitQueueBlockLocked
    split
    · exact SameTree.refl s
    · split
      · exact SameTree.refl s
      · refine ⟨rfl, fun x => ?_⟩
        by_cases hx : x = t
        · simp [setWaitq, hx]
        · simp [setWaitq, task_setTask_of_ne hx]
  | wakeUp q nr =>
    have hnr : nr ≠ 1 ∨ (w q).length ≤ 1 := hok.imp_right (waiters_length_le_one h.toQueued)
    have hw := h.wakeUp hnr hs
    exact ⟨⟨_, hw.1⟩, htree.of_sameTree hw.2.sameTree⟩
  | remove q t =>
    cases hs
    exact ⟨⟨_, h.waitQueueRemove q t⟩, htree.of_sameTree (waitQueueRemove_sameTree s q t)⟩
  | wakeUpProcess t =>
    cases hs
    exact ⟨⟨_, h.wakeUpProcess hok⟩, htree.of_sameTree (wakeUpProcess_sameTree s t)⟩
  | signalWakeUpState t =>
    cases hs
    refine ⟨h.signalWakeUpState t, htree.of_sameTree ?_⟩
    unfold signalWakeUpState
    split
    · exact wakeUpProcess_sameTree s t
    · split
      · exact (waitQueueRemove_sameTree s _ t).trans (wakeUpProcess_sameTree _ t)
      · exact SameTree.refl s
  | signalNotifyExit child =>
    exact ⟨h.signalNotifyExit hok hs, htree.of_sameTree (signalNotifyExit_sameTree h hs)⟩
  | exit t x =>
    rcases hok with hidle | hz | hp
    · rw [Sched.exec, Sched.exitNotify, if_pos hidle] at hs
      cases hs
      exact ⟨⟨w, h⟩, htree⟩
    · rw [Sched.exec, Sched.exitNotify, if_pos hz, ite_self] at hs
      cases hs
      exact ⟨⟨w, h⟩, htree⟩
    · exact h.exitNotify htree hp hs

end Sched

open Sched

/--
In every run of the operations from a state in which nothing waits, if each
operation meets its condition in the state it starts from, then in every state
reached each wait entry is linked exactly on the queue its task names, and no
runnable task and no zombie is linked.
-/
theorem membership_run {fuel : Nat} {s s' : Sched} {ops : List Op} (hs : Quiet s)
    (hok : RunOk (step fuel) (fun o op => ∀ s ∈ o, OpOk s op) (some s) ops) (n : Nat)
    (h : run (step fuel) (some s) (ops.take n) = some s') : Membership s' := by
  have hinv : ∀ x ∈ run (step fuel) (some s) (ops.take n), Sched.Inv x := by
    refine run_invariant (fun o => ∀ x ∈ o, Sched.Inv x) ?_ ?_ (hok.take n)
    · intro o op ho hop x hx
      rcases bind_eq_some_iff.mp hx with ⟨y, hy, hxy⟩
      exact (ho y hy).exec (hop y hy) hxy
    · intro x hx
      cases hx
      exact hs.inv
  rcases hinv s' h with ⟨⟨w, hw⟩, -⟩
  exact hw.membership

/-- Task 1 and its child, task 2; nothing waits. -/
def twoTasks : Sched where
  task t :=
    { pid := t, realParent := if t = 2 then some 1 else none,
      parent := if t = 2 then some 1 else none, wakeJiffies := 0, state := .runnable,
      timeSlice := 3, exitCode := 0, exitState := 0, exitInfo0 := 0, exitInfo1 := 0,
      waitq := none }
  wait := ⟨id, id⟩
  kin := Links.listAddTail ⟨id, id⟩ (.sibling 2) (.children 1)
  taskList := [1, 2]
  needResched := false

lemma ring_nil_id {ν : Type*} (a : ν) : Links.Ring ⟨id, id⟩ a [] :=
  ⟨Links.chain_nil.mpr ⟨rfl, rfl⟩, nodup_singleton a⟩

lemma rings_nil_id {ν ι ε : Type*} (Λ : Layout ν ι ε) : Rings Λ ⟨id, id⟩ fun _ => [] :=
  ⟨fun _ => ring_nil_id _, fun _ _ => ring_nil_id _, nofun⟩

lemma twoTasks_quiet : Quiet twoTasks where
  heads q := ring_nil_id _
  entries t := ring_nil_id _
  waitq t := rfl
  tree := by
    refine ⟨_, (rings_nil_id kinLayout).listAddTail 1 (fun j => not_mem_nil : ∀ j, 2 ∉ (fun _ => []) j), ?_⟩
    intro c p hc
    by_cases hp : p = 1
    · subst hp
      have hc2 : c = 2 := by simpa using hc
      rw [hc2]
      rfl
    · rw [update_of_ne hp] at hc
      cases hc

/-- A task waits, is woken by a signal, and then its child exits. -/
def signalThenChildExit : List Op :=
  [.block 1 (.other 0), .signalWakeUpState 1, .exit 2 ⟨0, 0, 0, 0⟩]

theorem signalThenChildExit_membership :
    (run (step 4) (some twoTasks) signalThenChildExit).isSome = true ∧
    ∀ n s', run (step 4) (some twoTasks) (signalThenChildExit.take n) = some s' →
      Membership s' := by
  refine ⟨by decide, fun n s' h => membership_run twoTasks_quiet ?_ n h⟩
  refine ⟨fun s hs => ?_, fun s hs => trivial, fun s hs => ?_, trivial⟩
  · cases hs
    exact .inl rfl
  · cases hs
    refine .inr (.inr fun p hp => .inr (.inl ?_))
    have hp1 : p = 1 := by
      rcases hp with hp | ⟨hp, -⟩
      · exact (Option.some.inj hp).symm
      · cases hp
    rw [hp1]
    decide

/-- A child exits while its parent waits elsewhere, and the parent then waits again. -/
theorem childExit_not_membership :
    Quiet twoTasks ∧ ∃ s', run (step 4) (some twoTasks)
      [.block 1 (.other 0), .exit 2 ⟨0, 0, 0, 0⟩, .block 1 (.other 1)] = some s' ∧
      Linked s' 1 (.other 0) ∧ Linked s' 1 (.other 1) ∧ ¬ Membership s' := by
  refine ⟨twoTasks_quiet, ?_⟩
  have hrun : (run (step 4) (some twoTasks)
      [.block 1 (.other 0), .exit 2 ⟨0, 0, 0, 0⟩, .block 1 (.other 1)]).any (fun s =>
        decide (s.wait.next (.head (.other 0)) = .entry 1 ∧
          s.wait.next (.head (.other 1)) = .entry 1)) = true := by decide
  rcases (any_eq_true _ _).mp hrun with ⟨s', hs', hnext⟩
  have h := of_decide_eq_true hnext
  have h0 : Linked s' 1 (.other 0) := ⟨1, h.1⟩
  have h1 : Linked s' 1 (.other 1) := ⟨1, h.2⟩
  refine ⟨s', hs', h0, h1, fun hm => ?_⟩
  cases hm.unique 1 _ _ h0 h1

end LiteKernel.Kernel
