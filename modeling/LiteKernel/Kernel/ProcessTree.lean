import Mathlib.Data.List.Find
import LiteKernel.Kernel.TaskExit

/-!
# The process tree

The invariant of processes that fork, exit, are killed and are waited for: every
task is on the children list of its parent, and every zombie is off the wait
queues and, unless it is the reaper itself, without children.

Main results:

- Lemma `Inv.exec`: every operation that meets `Procs.OpOk` keeps the invariant, and only
  `do_waitpid` frees a task.
-/

namespace LiteKernel.Kernel

open Function Lib List Option Procs

namespace Procs

open Sched

variable {fuel : Nat} {p p' : Procs} {t c : Nat} {kids kids' : Nat → List Nat}
  {A : Nat → QueueId → Prop}

variable {s : Sched} {i id x : Nat} {out : Outcome} {U : Nat → Int} {q : QueueId}

/-! ## The invariant -/

/--
The children lists are those of the parent pointers, the tasks that exist are
those of the task list, and a zombie other than the reaper has no children.
-/
structure Family (p : Procs) (kids : Nat → List Nat) : Prop where
  rings : Rings kinLayout p.sched.kin kids
  mem : ∀ c t, c ∈ kids t ↔ p.allocated c = true ∧ (p.sched.task c).parent = some t
  parent : ∀ c, p.allocated c = true → c ≠ p.idle → ∃ t, (p.sched.task c).parent = some t
  alive : ∀ c t, c ∈ kids t → p.allocated t = true ∧ c ≠ t
  listed : ∀ t, t ∈ p.sched.taskList ↔ p.allocated t = true
  nodup : p.sched.taskList.Nodup
  idle : p.allocated p.idle = true ∧ (p.sched.task p.idle).pid = 0
  zombie : ∀ t, p.allocated t = true → (p.sched.task t).state = .zombie →
    (p.sched.task t).pid ≠ 0 ∧ (kids t = [] ∨ p.sched.findTaskByVpid 1 = some t)
  init : ∃ i, p.sched.findTaskByVpid 1 = some i ∧ (p.sched.task i).parent = some p.idle
  usage : ∀ t, p.allocated t = true →
    1 ≤ p.usage t ∧ (p.sched.findTaskByVpid 1 ≠ some t → p.usage t = 1)

/-- The invariant of the runs in which the tasks wait on certain queues only. -/
structure Inv (A : Nat → QueueId → Prop) (p : Procs) : Prop where
  settled : ∃ w, Settled p.sched w
  kind : WaitsOn A p.sched
  own : OwnQueues p.sched
  gone : ∀ t, p.allocated t = false → (p.sched.task t).waitq = none
  family : ∃ kids, Family p kids
  alive : p.panicked = false

lemma findTaskByVpid_congr {s' : Sched} (hl : s'.taskList = s.taskList)
    (hp : ∀ x, (s'.task x).pid = (s.task x).pid) (pid : Nat) :
    s'.findTaskByVpid pid = s.findTaskByVpid pid := by
  unfold findTaskByVpid
  simp only [hl, hp]

lemma Family.of_keeps (h : Family p kids) (hk : Keeps p.sched s) :
    Family { p with sched := s } kids := by
  have hfind := findTaskByVpid_congr hk.taskList hk.pid 1
  refine ⟨hk.kin ▸ h.rings, fun c t => ?_, fun c hc hne => ?_, h.alive, fun t => ?_, ?_, ?_,
    fun t ht hz => ?_, ?_, fun t ht => ?_⟩
  · rw [h.mem, hk.parent]
  · rw [hk.parent]
    exact h.parent c hc hne
  · rw [hk.taskList]
    exact h.listed t
  · rw [hk.taskList]
    exact h.nodup
  · rw [hk.pid]
    exact h.idle
  · rw [hk.pid, hfind]
    exact h.zombie t ht ((hk.zombie t).mp hz)
  · rw [hfind]
    rcases h.init with ⟨i, hi, hpar⟩
    exact ⟨i, hi, (hk.parent i).trans hpar⟩
  · rw [hfind]
    exact h.usage t ht

lemma Family.not_mem_of_gone (h : Family p kids) (hc : p.allocated c = false) (t : Nat) :
    c ∉ kids t := by
  rw [h.mem, hc]
  exact fun h => absurd h.1 Bool.false_ne_true

lemma Family.kids_of_gone (h : Family p kids) (hc : p.allocated c = false) : kids c = [] := by
  refine eq_nil_iff_forall_not_mem.mpr fun x hx => ?_
  have ha := (h.alive x c hx).1
  rw [hc] at ha
  cases ha

lemma Family.ne_of_gone (hc : p.allocated c = false) (ht : p.allocated t = true) : t ≠ c := by
  rintro rfl
  rw [hc] at ht
  cases ht

/-! ## Fork -/

lemma kin_linkTask (R : Rings kinLayout s.kin kids) (hc : ∀ t, c ∉ kids t) (hkids : kids c = [])
    (t : Nat) : (linkTask s t c).kin = s.kin.listAddTail (.sibling c) (.children t) := by
  have hring : s.kin.Ring (.children c) [] := by
    have hr := R.ring c
    rwa [hkids] at hr
  have h1 : s.kin.initListHead (.children c) = s.kin := hring.initListHead_eq
  have h2 : s.kin.initListHead (.sibling c) = s.kin := (R.free c hc).initListHead_eq
  unfold linkTask
  simp only [h1, h2]

lemma wait_linkTask {w : QueueId → List Nat} (R : Rings waitLayout s.wait w) (hc : ∀ q, c ∉ w q)
    (hq : w (.childExitWait c) = []) (t : Nat) : (linkTask s t c).wait = s.wait := by
  have hring : s.wait.Ring (.head (.childExitWait c)) [] := by
    have hr := R.ring (.childExitWait c)
    rwa [hq] at hr
  have h1 : s.wait.initListHead (.entry c) = s.wait := (R.free c hc).initListHead_eq
  have h2 : s.wait.initListHead (.head (.childExitWait c)) = s.wait := hring.initListHead_eq
  unfold linkTask
  simp only [h1, h2]

/-- The state after a fork that succeeds. -/
def forked (p : Procs) (t c : Nat) : Procs :=
  { p with
    sched := linkTask
      { p.sched with task := update p.sched.task c (newTask t ((p.lastPid + 1) % 2 ^ 32)) } t c
    usage := update p.usage c 1
    hasMm := update p.hasMm c true
    allocated := update p.allocated c true
    waiting := update p.waiting c none
    lastPid := (p.lastPid + 1) % 2 ^ 32 }

lemma sysFork_cases (p : Procs) (t : Nat) (child : Option Nat) :
    (p.sysFork t child).1 = p ∨ ∃ c, child = some c ∧ (p.sysFork t child).1 = p.forked t c := by
  unfold sysFork
  split
  · exact .inr ⟨_, rfl, rfl⟩
  · exact .inl rfl

lemma task_forked_self (p : Procs) (t c : Nat) :
    (p.forked t c).sched.task c = newTask t ((p.lastPid + 1) % 2 ^ 32) :=
  update_self _ _ _

lemma task_forked_of_ne (hx : x ≠ c) (t : Nat) : (p.forked t c).sched.task x = p.sched.task x :=
  update_of_ne hx _ _

lemma allocated_forked_of_ne (hx : x ≠ c) (t : Nat) :
    (p.forked t c).allocated x = p.allocated x :=
  update_of_ne hx _ _

lemma findTaskByVpid_forked {pid : Nat} (hc : c ∉ p.sched.taskList)
    (hi : p.sched.findTaskByVpid pid = some i) (t : Nat) :
    (p.forked t c).sched.findTaskByVpid pid = some i := by
  have hold : p.sched.taskList.find?
      (fun x => ((p.forked t c).sched.task x).pid = pid) = some i := by
    rw [← hi, findTaskByVpid]
    refine List.find?_congr fun x hx => ?_
    have hxc : x ≠ c := fun e => hc (e ▸ hx)
    rw [task_forked_of_ne hxc]
  show (p.sched.taskList ++ [c]).find? _ = some i
  rw [List.find?_append, hold, some_or]

lemma Family.forked (h : Family p kids) (ht : p.allocated t = true)
    (hz : (p.sched.task t).state ≠ .zombie) (hc : p.allocated c = false) :
    Family (p.forked t c) (update kids t (kids t ++ [c])) := by
  have hcl : c ∉ p.sched.taskList := fun hm => by
    rw [h.listed, hc] at hm
    cases hm
  have hfree := h.not_mem_of_gone hc
  have hmem : ∀ x q, x ∈ update kids t (kids t ++ [c]) q ↔ x ∈ kids q ∨ x = c ∧ q = t := by
    intro x q
    by_cases hq : q = t
    · subst hq
      simp
    · simp [hq]
  have hself := task_forked_self p t c
  rcases h.init with ⟨i, hi, hipar⟩
  have hfind := findTaskByVpid_forked hcl hi t
  have hic : i ≠ c := fun e => hcl (e ▸ mem_of_find?_eq_some hi)
  have hdc : p.idle ≠ c := Family.ne_of_gone hc h.idle.1
  refine ⟨?_, fun x q => ?_, fun x hx hne => ?_, fun x q hx => ?_, fun x => ?_, ?_, ?_,
    fun x hx hzx => ?_, ⟨i, hfind, ?_⟩, fun x hx => ?_⟩
  · have hkin : (p.forked t c).sched.kin = p.sched.kin.listAddTail (.sibling c) (.children t) :=
      kin_linkTask h.rings hfree (h.kids_of_gone hc) t
    rw [hkin]
    exact h.rings.listAddTail t hfree
  · rw [hmem]
    by_cases hx : x = c
    · subst hx
      rw [hself]
      have hal : (p.forked t x).allocated x = true := update_self _ _ _
      simp [hfree q, hal, newTask, eq_comm]
    · rw [task_forked_of_ne hx, allocated_forked_of_ne hx, h.mem]
      simp [hx]
  · by_cases hxc : x = c
    · rw [hxc, hself]
      exact ⟨t, rfl⟩
    · rw [allocated_forked_of_ne hxc] at hx
      rw [task_forked_of_ne hxc]
      exact h.parent x hx hne
  · rcases (hmem x q).mp hx with hx | ⟨rfl, rfl⟩
    · have ha := h.alive x q hx
      exact ⟨(allocated_forked_of_ne (Family.ne_of_gone hc ha.1) t).trans ha.1, ha.2⟩
    · have hne := Family.ne_of_gone hc ht
      exact ⟨(allocated_forked_of_ne hne _).trans ht, hne.symm⟩
  · show x ∈ p.sched.taskList ++ [c] ↔ _
    by_cases hxc : x = c
    · subst hxc
      exact iff_of_true (by simp) (update_self _ _ _)
    · rw [allocated_forked_of_ne hxc, ← h.listed]
      simp [hxc]
  · exact nodup_append.mpr ⟨h.nodup, nodup_singleton c, fun a ha b hb => by
      rintro rfl
      exact hcl (mem_singleton.mp hb ▸ ha)⟩
  · exact ⟨(allocated_forked_of_ne hdc t).trans h.idle.1,
      (congrArg Task.pid (task_forked_of_ne hdc t)).trans h.idle.2⟩
  · by_cases hxc : x = c
    · rw [hxc, hself] at hzx
      cases hzx
    · rw [task_forked_of_ne hxc] at hzx ⊢
      rw [allocated_forked_of_ne hxc] at hx
      have hxt : x ≠ t := fun e => hz (e ▸ hzx)
      rw [update_of_ne hxt, hfind, ← hi]
      exact h.zombie x hx hzx
  · rw [task_forked_of_ne hic]
    exact hipar
  · by_cases hxc : x = c
    · subst hxc
      have hu : (p.forked t x).usage x = 1 := update_self _ _ _
      rw [hu]
      exact ⟨le_refl 1, fun _ => rfl⟩
    · rw [allocated_forked_of_ne hxc] at hx
      have hu : (p.forked t c).usage x = p.usage x := update_of_ne hxc _ _
      rw [hu, hfind, ← hi]
      exact h.usage x hx

lemma Inv.forked (h : Inv A p) (ht : p.allocated t = true)
    (hz : (p.sched.task t).state ≠ .zombie) (hc : p.allocated c = false) : Inv A (p.forked t c) := by
  rcases h.settled with ⟨w, hw⟩
  rcases h.family with ⟨kids, hfam⟩
  have hwaitq : ∀ x, ((p.forked t c).sched.task x).waitq = (p.sched.task x).waitq := by
    intro x
    by_cases hx : x = c
    · rw [hx, task_forked_self, h.gone c hc]
      rfl
    · rw [task_forked_of_ne hx]
  have hempty : w (.childExitWait c) = [] := by
    refine eq_nil_iff_forall_not_mem.mpr fun x hx => ?_
    have hq := (hw.waitq x _).mp hx
    rw [h.own x _ hq c rfl, h.gone c hc] at hq
    cases hq
  have hwait : (p.forked t c).sched.wait = p.sched.wait :=
    wait_linkTask hw.rings (hw.not_mem (h.gone c hc)) hempty t
  have hleaves : Leaves p.sched (p.forked t c).sched := fun x => .inl (hwaitq x)
  refine ⟨⟨w, hw.of_state hwait hwaitq fun x hx => ?_⟩, h.kind.leaves hleaves, h.own.leaves hleaves,
    fun x hx => ?_, ⟨_, hfam.forked ht hz hc⟩, h.alive⟩
  · have hxc : x ≠ c := fun e => hx (e ▸ h.gone c hc)
    rw [task_forked_of_ne hxc]
  · rw [hwaitq]
    by_cases hxc : x = c
    · rw [hxc]
      exact h.gone c hc
    · rw [allocated_forked_of_ne hxc] at hx
      exact h.gone x hx

/-! ## Exit -/

lemma Family.reaper (h : Family p kids) :
    ∃ i, p.sched.findTaskByVpid 1 = some i ∧ p.sched.taskReaperLocked = some i ∧
      (∀ t, p.sched.reaperOf t = i) ∧ p.allocated i = true ∧
      (p.sched.task i).parent = some p.idle := by
  rcases h.init with ⟨i, hi, hpar⟩
  have hr : p.sched.taskReaperLocked = some i := by
    rw [taskReaperLocked, hi, some_or]
  refine ⟨i, hi, hr, fun t => ?_, (h.listed i).mp (mem_of_find?_eq_some hi), hpar⟩
  rw [reaperOf, hr, getD_some]

lemma Family.exits {x : ExitStatus} {m : Nat → Bool}
    (h : Family p kids) (ht : p.allocated t = true) (hidle : ¬ p.sched.isIdleTask t)
    (hx : Exits p.sched s t (p.sched.reaperOf t) x kids kids')
    (hU : ∀ y, p.allocated y = true →
      1 ≤ U y ∧ (p.sched.findTaskByVpid 1 ≠ some y → U y = 1)) :
    Family { p with sched := s, usage := U, hasMm := m } kids' := by
  rcases h.reaper with ⟨i, hi, -, hreaper, hial, hipar⟩
  rw [hreaper] at hx
  have hfind : s.findTaskByVpid 1 = some i := (findTaskByVpid_congr hx.taskList hx.pid 1).trans hi
  have htd : t ≠ p.idle := fun e => hidle (e ▸ h.idle.2)
  have hit : i ∉ kids t := by
    rw [h.mem, hipar]
    exact fun hm => htd (Option.some.inj hm.2).symm
  refine ⟨hx.rings, fun y q => ?_, fun y hy hne => ?_, fun y q hy => ?_, fun y => ?_, ?_, ?_,
    fun y hy hz => ?_, ⟨i, hfind, ?_⟩, fun y hy => ?_⟩
  · rw [hx.mem]
    by_cases hyt : y ∈ kids t
    · rw [hx.moved y hyt]
      simp [hyt, ((h.mem y t).mp hyt).1, eq_comm]
    · rw [hx.kept y hyt]
      simp only [hyt, false_and, not_false_eq_true, true_and, false_or]
      exact h.mem y q
  · by_cases hyt : y ∈ kids t
    · exact ⟨i, hx.moved y hyt⟩
    · rw [hx.kept y hyt]
      exact h.parent y hy hne
  · rcases (hx.mem y q).mp hy with ⟨hyt, rfl⟩ | ⟨-, hyq⟩
    · exact ⟨hial, fun e => hit (e ▸ hyt)⟩
    · exact h.alive y q hyq
  · rw [hx.taskList]
    exact h.listed y
  · rw [hx.taskList]
    exact h.nodup
  · rw [hx.pid]
    exact h.idle
  · rw [hx.pid, hfind]
    by_cases hyi : y = i
    · subst hyi
      refine ⟨?_, Or.inr rfl⟩
      have hpid := of_decide_eq_true (List.find?_some hi :)
      rw [hpid]
      decide
    · -- nobody but the reaper gets children
      have hsub : ∀ c, c ∈ kids' y → c ∉ kids t ∧ c ∈ kids y := fun c hc =>
        ((hx.mem c y).mp hc).resolve_left fun hm => hyi hm.2
      rcases (hx.zombie y).mp hz with rfl | hzy
      · refine ⟨hidle, Or.inl (eq_nil_iff_forall_not_mem.mpr fun c hc => ?_)⟩
        exact (hsub c hc).1 (hsub c hc).2
      · rcases h.zombie y hy hzy with ⟨hpid, hnil | hinit⟩
        · refine ⟨hpid, Or.inl (eq_nil_iff_forall_not_mem.mpr fun c hc => ?_)⟩
          have hm := (hsub c hc).2
          rw [hnil] at hm
          cases hm
        · exact absurd (Option.some.inj (hinit.symm.trans hi)) hyi
  · rw [hx.kept i hit]
    exact hipar
  · rw [hfind, ← hi]
    exact hU y hy

lemma sched_getTaskStruct (p : Procs) (t : Nat) : (p.getTaskStruct t).sched = p.sched :=
  rfl

lemma usage_getTaskStruct (p : Procs) (t y : Nat) :
    (p.getTaskStruct t).usage y = p.usage y + if y = t then 1 else 0 := by
  by_cases hy : y = t
  · subst hy
    rw [if_pos rfl]
    exact update_self _ _ _
  · rw [if_neg hy, add_zero]
    exact update_of_ne hy _ _

lemma putTaskStruct_of_two_le (h : 2 ≤ p.usage t) :
    ∃ U, p.putTaskStruct t = { p with usage := U } ∧
      ∀ y, U y = p.usage y - if y = t then 1 else 0 := by
  have hne : update p.usage t (p.usage t - 1) t ≠ 0 := by
    rw [update_self]
    omega
  refine ⟨update p.usage t (p.usage t - 1), if_neg hne, fun y => ?_⟩
  by_cases hy : y = t
  · rw [hy, update_self, if_pos rfl]
  · rw [update_of_ne hy, if_neg hy, sub_zero]

/-- The references that `exit_notify` takes are dropped again, unless the task is its own reaper. -/
lemma exitNotify_eq {x : ExitStatus} (h : Family p kids) (ht : p.allocated t = true)
    (hidle : ¬ p.sched.isIdleTask t) (hz : (p.sched.task t).state ≠ .zombie)
    (hp' : p.exitNotify fuel t x = some p') :
    ∃ s U, p.sched.exitNotify fuel t x = some s ∧
      p' = { p with sched := s, usage := U, hasMm := update p.hasMm t false } ∧
      ∀ y, p.allocated y = true →
        1 ≤ U y ∧ (p.sched.findTaskByVpid 1 ≠ some y → U y = 1) := by
  rcases h.reaper with ⟨i, hi, hlocked, hreaper, hial, -⟩
  have htd : t ≠ p.idle := fun e => hidle (e ▸ h.idle.2)
  rcases h.parent t ht htd with ⟨q, hq⟩
  have hqal : p.allocated q = true := (h.alive t q ((h.mem t q).mpr ⟨ht, hq⟩)).1
  have hqu := (h.usage q hqal).1
  have hiu := (h.usage i hial).1
  unfold exitNotify at hp'
  rw [if_neg hidle, if_neg hz] at hp'
  simp only [hq, hlocked, hreaper, elim_some, bind_eq_bind,
    bind_eq_some_iff, sched_getTaskStruct] at hp'
  rcases hp' with ⟨s, hs, hp'⟩
  have hV : ∀ y, ((p.getTaskStruct q).getTaskStruct i).usage y =
      p.usage y + (if y = q then 1 else 0) + if y = i then 1 else 0 := fun y => by
    rw [usage_getTaskStruct, usage_getTaskStruct]
  let p3 : Procs := { (p.getTaskStruct q).getTaskStruct i with
    sched := s, hasMm := update p.hasMm t false }
  have h3 : 2 ≤ p3.usage q := by
    rw [hV, if_pos rfl]
    split <;> omega
  rcases putTaskStruct_of_two_le h3 with ⟨W, hput, hW⟩
  have hWV : ∀ y, W y = p.usage y + if y = i then 1 else 0 := by
    intro y
    rw [hW]
    rw [hV]
    omega
  have hp3 : (if i ≠ t then (p3.putTaskStruct q).putTaskStruct i else p3.putTaskStruct q) = p' :=
    Option.some.inj hp'
  rw [hput] at hp3
  by_cases hit : i = t
  · rw [if_neg (not_not_intro hit)] at hp3
    refine ⟨s, W, hs, hp3.symm, fun y hy => ?_⟩
    have hyu := h.usage y hy
    rw [hWV]
    refine ⟨by split <;> omega, fun hne => ?_⟩
    have hyi : y ≠ i := fun e => hne (e ▸ hi)
    rw [if_neg hyi, add_zero]
    exact hyu.2 hne
  · rw [if_pos hit] at hp3
    have h4 : 2 ≤ ({ p3 with usage := W } : Procs).usage i := by
      show 2 ≤ W i
      rw [hWV, if_pos rfl]
      omega
    rcases putTaskStruct_of_two_le h4 with ⟨U, hput', hU⟩
    rw [hput'] at hp3
    refine ⟨s, U, hs, hp3.symm, fun y hy => ?_⟩
    have hUy : U y = p.usage y := by
      rw [hU]
      show W y - _ = _
      rw [hWV]
      omega
    rw [hUy]
    exact h.usage y hy

/-- No task is freed, and the zombies keep their pid and their status. -/
structure Lives (p p' : Procs) : Prop where
  allocated : ∀ c, p.allocated c = true → p'.allocated c = true
  zombie : ∀ c, p.allocated c = true → (p.sched.task c).state = .zombie →
    (p'.sched.task c).state = .zombie ∧ (p'.sched.task c).pid = (p.sched.task c).pid ∧
      (p'.sched.task c).exitStatus = (p.sched.task c).exitStatus

lemma Lives.refl (p : Procs) : Lives p p :=
  ⟨fun _ h => h, fun _ _ h => ⟨h, rfl, rfl⟩⟩

lemma lives_forked (hc : p.allocated c = false) (t : Nat) : Lives p (p.forked t c) := by
  refine ⟨fun x hx => ?_, fun x hx hz => ?_⟩
  · rw [allocated_forked_of_ne (Family.ne_of_gone hc hx)]
    exact hx
  · rw [task_forked_of_ne (Family.ne_of_gone hc hx)]
    exact ⟨hz, rfl, rfl⟩

/-- What an exiting task needs: its parent is not blocked on a queue of another kind. -/
def ExitSafe (p : Procs) (t : Nat) : Prop :=
  ∀ q, (p.sched.task t).parent = some q → WakeSafe p.sched q

lemma Family.notified (h : Family p kids) (hsafe : p.ExitSafe t) (ht : p.allocated t = true)
    (q : Nat) (hq : Notified p.sched t q) : q = t ∨ WakeSafe p.sched q := by
  rcases hq with hq | ⟨hself, -⟩
  · exact .inr (hsafe q hq)
  · exact absurd rfl (h.alive t t ((h.mem t t).mpr ⟨ht, hself⟩)).2

lemma Inv.exitNotify {x : ExitStatus} (h : Inv A p) (ht : p.allocated t = true)
    (hsafe : p.ExitSafe t) (hp' : p.exitNotify fuel t x = some p') : Inv A p' ∧ Lives p p' := by
  rcases h.settled with ⟨w, hw⟩
  rcases h.family with ⟨kids, hfam⟩
  by_cases hidle : p.sched.isIdleTask t
  · rw [Procs.exitNotify, if_pos hidle] at hp'
    cases hp'
    exact ⟨h, Lives.refl p⟩
  by_cases hz : (p.sched.task t).state = .zombie
  · rw [Procs.exitNotify, if_neg hidle, if_pos hz] at hp'
    cases hp'
    exact ⟨h, Lives.refl p⟩
  have hpar : ∀ c q, c ∈ kids q → (p.sched.task c).parent = some q :=
    fun c q hc => ((hfam.mem c q).mp hc).2
  rcases exitNotify_eq hfam ht hidle hz hp' with ⟨s, U, hs, rfl, hU⟩
  rcases exitNotify_exits hfam.rings hpar hidle hz hs with ⟨kids', hx⟩
  have hset := (hw.exitNotify ⟨kids, hfam.rings, hpar⟩ (hfam.notified hsafe ht) hs).1
  refine ⟨⟨hset, h.kind.leaves hx.leaves, h.own.leaves hx.leaves, fun y hy => ?_, 
    ⟨kids', hfam.exits ht hidle hx hU⟩, h.alive⟩, fun _ hc => hc, fun c _ hcz => ?_⟩
  · rcases hx.leaves y with he | he
    · rw [he]
      exact h.gone y hy
    · exact he
  · have hct : c ≠ t := fun e => hz (e ▸ hcz)
    exact ⟨(hx.zombie c).mpr (.inr hcz), hx.pid c, hx.others c hct⟩

/-! ## Steps that keep the family -/

lemma Inv.of_keeps (h : Inv A p) (hs : ∃ w, Settled s w) (hk : Keeps p.sched s)
    (hon : WaitsOn A s) (hown : OwnQueues s)
    (hgone : ∀ t, p.allocated t = false → (s.task t).waitq = none) :
    Inv A { p with sched := s } ∧ Lives p { p with sched := s } := by
  rcases h.family with ⟨kids, hfam⟩
  exact ⟨⟨hs, hon, hown, hgone, ⟨kids, hfam.of_keeps hk⟩, h.alive⟩, fun _ hc => hc,
    fun c _ hcz => ⟨(hk.zombie c).mpr hcz, hk.pid c, hk.exitStatus c⟩⟩

lemma Inv.of_rouses (h : Inv A p) (hs : ∃ w, Settled s w) (hr : Rouses p.sched s) :
    Inv A { p with sched := s } ∧ Lives p { p with sched := s } := by
  refine h.of_keeps hs hr.toKeeps (h.kind.leaves hr.leaves) (h.own.leaves hr.leaves) fun t ht => ?_
  rcases hr.leaves t with he | he
  · rw [he]
    exact h.gone t ht
  · exact he

lemma waitq_waitQueueBlockLocked_of_ne (hx : x ≠ t) (q : QueueId) :
    ((s.waitQueueBlockLocked t q).task x).waitq = (s.task x).waitq := by
  unfold waitQueueBlockLocked
  split
  · rfl
  · split
    · rfl
    · simp [setWaitq, task_setTask_of_ne hx]

lemma waitq_waitQueueBlockLocked_self :
    ((s.waitQueueBlockLocked t q).task t).waitq = some q ∨
      ((s.waitQueueBlockLocked t q).task t).waitq = (s.task t).waitq := by
  unfold waitQueueBlockLocked
  split
  · exact .inr rfl
  · split
    · exact .inr rfl
    · exact .inl (by simp [setWaitq])

lemma Inv.waitq_of_runnable (h : Inv A p) (ht : (p.sched.task t).state ≠ .blocked) :
    (p.sched.task t).waitq = none := by
  rcases h.settled with ⟨w, hw⟩
  by_contra hne
  rcases ne_none_iff_exists'.mp hne with ⟨q, hq⟩
  exact ht (hw.blocked t q ((hw.waitq t q).mpr hq))

lemma WaitsOn.block (h : WaitsOn A s) (hq : A t q) : WaitsOn A (s.waitQueueBlockLocked t q) := by
  intro x q' hx
  by_cases hxt : x = t
  · subst hxt
    rcases waitq_waitQueueBlockLocked_self (s := s) (t := x) (q := q) with he | he
    · rw [← Option.some.inj (he.symm.trans hx)]
      exact hq
    · rw [he] at hx
      exact h x q' hx
  · rw [waitq_waitQueueBlockLocked_of_ne hxt] at hx
    exact h x q' hx

lemma Inv.block (h : Inv A p) (ht : p.allocated t = true)
    (hrun : (p.sched.task t).state = .runnable) (hA : A t q)
    (hq : ∀ u, q = .childExitWait u → t = u) :
    Inv A { p with sched := p.sched.waitQueueBlockLocked t q } ∧
      Lives p { p with sched := p.sched.waitQueueBlockLocked t q } := by
  rcases h.settled with ⟨w, hw⟩
  have hnone := h.waitq_of_runnable (by rw [hrun]; decide)
  refine h.of_keeps (hw.waitQueueBlockLocked (.inl hnone)) (waitQueueBlockLocked_keeps _ t q)
    (WaitsOn.block h.kind hA) (WaitsOn.block h.own hq) fun x hx => ?_
  have hxt : x ≠ t := (Family.ne_of_gone hx ht).symm
  rw [waitq_waitQueueBlockLocked_of_ne hxt]
  exact h.gone x hx

/-! ## Waitpid -/

/-- A child that is taken is a zombie that was asked for. -/
lemma scanChildren_zombie {hasTarget b : Bool} {pos : KinNode} (R : Rings kinLayout s.kin kids)
    (hpos : OnList kids t pos) (h : scanChildren fuel s t id hasTarget pos = some (some c, b)) :
    c ∈ kids t ∧ (s.task c).state = .zombie ∧ (wantAny id ∨ (s.task c).pid = id) := by
  induction fuel generalizing hasTarget pos with
  | zero => cases h
  | succ fuel ih =>
    rcases hpos with rfl | ⟨x, hx, rfl⟩
    · rw [scanChildren, if_pos rfl] at h
      cases h
    · have hnext : OnList kids t (s.kin.next (.sibling x)) := by
        rcases R.next_mem hx with hn | ⟨y, hy, -, hn⟩
        · exact .inl hn
        · exact .inr ⟨y, hy, hn⟩
      rw [scanChildren] at h
      by_cases hwant : wantAny id ∨ (s.task x).pid = id
      · rw [if_neg (not_not_intro hwant)] at h
        by_cases hz : (s.task x).state = .zombie
        · rw [if_pos hz] at h
          cases h
          exact ⟨hx, hz, hwant⟩
        · rw [if_neg hz] at h
          by_cases hany : wantAny id
          · rw [if_neg (not_not_intro hany)] at h
            exact ih hnext h
          · rw [if_pos hany] at h
            cases h
      · rw [if_pos hwant] at h
        exact ih hnext h

/-- The scan comes to an end, and finds a zombie if there is one and every child will do. -/
lemma scanChildren_returns {hasTarget : Bool} {l1 l2 : List Nat} (R : Rings kinLayout s.kin kids)
    (hkids : kids t = l1 ++ l2) (hf : l2.length < fuel) :
    ∃ r, scanChildren fuel s t id hasTarget (kinLayout.first t l2) = some r ∧
      (wantAny id → (∃ c ∈ l2, (s.task c).state = .zombie) → ∃ c b, r = (some c, b)) := by
  induction l2 generalizing fuel hasTarget l1 with
  | nil =>
    cases fuel with
    | zero => cases hf
    | succ fuel => exact ⟨_, if_pos rfl, fun _ ⟨_, hc, _⟩ => nomatch hc⟩
  | cons x l2 ih =>
    cases fuel with
    | zero => cases hf
    | succ fuel =>
      have hnext : s.kin.next (.sibling x) = kinLayout.first t l2 := R.next_of_append hkids
      have hkids' : kids t = (l1 ++ [x]) ++ l2 := by simp [hkids]
      have hf' := Nat.lt_of_succ_lt_succ hf
      show ∃ r, scanChildren (fuel + 1) s t id hasTarget (.sibling x) = some r ∧ _
      rw [scanChildren, hnext]
      by_cases hz : (s.task x).state = .zombie
      · split
        · rename_i hwant
          rcases @ih _ hasTarget _ hkids' hf' with ⟨r, hr, -⟩
          exact ⟨r, hr, fun hany => absurd (.inl hany) hwant⟩
        · exact ⟨_, rfl, fun _ _ => ⟨x, true, rfl⟩⟩
      · -- the zombie is further down the list
        have hrest : (∃ c ∈ x :: l2, (s.task c).state = .zombie) →
            ∃ c ∈ l2, (s.task c).state = .zombie := by
          rintro ⟨c, hc, hcz⟩
          rcases mem_cons.mp hc with rfl | hc
          · exact absurd hcz hz
          · exact ⟨c, hc, hcz⟩
        split
        · rcases @ih _ hasTarget _ hkids' hf' with ⟨r, hr, hfind⟩
          exact ⟨r, hr, fun hany hex => hfind hany (hrest hex)⟩
        · split
          · rename_i hany
            exact ⟨_, rfl, fun hany' => absurd hany' hany⟩
          · rcases @ih _ true _ hkids' hf' with ⟨r, hr, hfind⟩
            exact ⟨r, hr, fun hany hex => hfind hany (hrest hex)⟩

/-- A zombie off its lists, without parents. -/
def unlinked (s : Sched) (c : Nat) : Sched :=
  Sched.setTask { s with
      kin := s.kin.listDelInit .null (.sibling c)
      taskList := s.taskList.erase c } c
    fun k => { k with realParent := none, parent := none }

lemma task_unlinked_self (s : Sched) (c : Nat) :
    (unlinked s c).task c = { s.task c with realParent := none, parent := none } :=
  update_self _ _ _

lemma task_unlinked_of_ne (hx : x ≠ c) : (unlinked s c).task x = s.task x :=
  update_of_ne hx _ _

section

variable (h : Family p kids) (hc : c ∈ kids t)
include h hc

lemma rings_unlinked :
    Rings kinLayout (unlinked p.sched c).kin (update kids t ((kids t).erase c)) :=
  h.rings.listDelInit hc

lemma mem_eraseChild (x q : Nat) :
    x ∈ update kids t ((kids t).erase c) q ↔ x ≠ c ∧ x ∈ kids q := by
  by_cases hq : q = t
  · subst hq
    rw [update_self, (h.rings.nodup q).mem_erase_iff]
  · rw [update_of_ne hq]
    refine ⟨fun hx => ⟨fun e => hq ?_, hx⟩, fun hx => hx.2⟩
    exact h.rings.unique (e ▸ hx) hc

lemma Family.ne_init (ht : t ≠ p.idle) : p.sched.findTaskByVpid 1 ≠ some c := by
  intro hinit
  rcases h.reaper with ⟨i, hi, -, -, -, hipar⟩
  have hci : c = i := Option.some.inj (hinit.symm.trans hi)
  exact ht (Option.some.inj (((h.mem c t).mp hc).2.symm.trans (hci ▸ hipar)))

lemma Family.childless (ht : t ≠ p.idle)
    (hz : (p.sched.task c).state = .zombie) : (p.sched.task c).pid ≠ 0 ∧ kids c = [] := by
  have hzombie := h.zombie c ((h.mem c t).mp hc).1 hz
  exact ⟨hzombie.1, hzombie.2.resolve_right (h.ne_init hc ht)⟩

/-- The check at the end of the life of a reaped zombie succeeds. -/
lemma Family.taskReleaseInvariantHolds (ht : t ≠ p.idle)
    (hz : (p.sched.task c).state = .zombie) (hq : (p.sched.task c).waitq = none) :
    { p with sched := unlinked p.sched c, usage := U }.taskReleaseInvariantHolds c := by
  have hzombie := h.childless hc ht hz
  have R := rings_unlinked h hc
  have hself := task_unlinked_self p.sched c
  refine ⟨?_, ?_, ?_, ?_, ?_, ?_, ?_, ?_⟩
  · show ¬ ((unlinked p.sched c).task c).pid = 0
    rw [hself]
    exact hzombie.1
  · rw [hself]
    exact hz
  · rw [hself]
  · rw [hself]
  · exact h.nodup.not_mem_erase
  · refine (R.free c fun q hm => ?_).next_head_nil
    exact ((mem_eraseChild h hc c q).mp hm).1 rfl
  · have hring := R.ring c
    have hnil : update kids t ((kids t).erase c) c = [] := by
      refine eq_nil_iff_forall_not_mem.mpr fun x hx => ?_
      have hm := ((mem_eraseChild h hc x c).mp hx).2
      rw [hzombie.2] at hm
      cases hm
    rw [hnil] at hring
    exact hring.next_head_nil
  · rw [hself]
    exact hq

end

lemma putTaskStruct_of_one (h : p.usage t = 1) (hholds : p.taskReleaseInvariantHolds t) :
    p.putTaskStruct t =
      { p with usage := update p.usage t 0, allocated := update p.allocated t false } := by
  have hholds' : { p with usage := update p.usage t 0 }.taskReleaseInvariantHolds t := hholds
  have hzero : update p.usage t 0 t = 0 := update_self _ _ _
  unfold putTaskStruct freeTaskStruct
  rw [h]
  simp only [sub_self, if_pos hzero, if_neg (not_not_intro hholds'),
    if_neg (not_not_intro hzero)]

lemma releaseTask_of_empty (hidle : ¬ p.sched.isIdleTask c)
    (he : p.sched.kin.ListEmpty (.sibling c)) :
    p.releaseTask c = putTaskStruct { p with
      sched := setTask { p.sched with taskList := p.sched.taskList.erase c } c
        fun k => { k with realParent := none, parent := none } } c := by
  unfold releaseTask
  rw [if_neg hidle]
  simp only [if_pos he]

lemma reap_eq (h : Family p kids) (hc : c ∈ kids t) (ht : t ≠ p.idle)
    (hz : (p.sched.task c).state = .zombie) (hq : (p.sched.task c).waitq = none) :
    ∃ U, p.reap t c =
        ({ p with
            sched := unlinked p.sched c
            usage := U
            allocated := update p.allocated c false
            waiting := update p.waiting t none },
          .reaped (toInt32 (p.sched.task c).pid) (p.sched.task c).exitStatus) ∧
      ∀ y, y ≠ c → U y = p.usage y := by
  have hpid := (h.childless hc ht hz).1
  have hone : p.usage c = 1 := (h.usage c ((h.mem c t).mp hc).1).2 (h.ne_init hc ht)
  let p1 : Procs := { p.getTaskStruct c with sched := unlinked p.sched c }
  have hrelease : releaseTask { p.getTaskStruct c with
      sched.kin := p.sched.kin.listDelInit .null (.sibling c) } c = p1.putTaskStruct c := by
    have hempty : (p.sched.kin.listDelInit .null (.sibling c)).ListEmpty (.sibling c) := by
      refine ((rings_unlinked h hc).free c fun q hm => ?_).next_head_nil
      exact ((mem_eraseChild h hc c q).mp hm).1 rfl
    exact releaseTask_of_empty hpid hempty
  have hV : ∀ y, p1.usage y = p.usage y + if y = c then 1 else 0 := usage_getTaskStruct p c
  have htwo : 2 ≤ p1.usage c := by
    rw [hV, hone, if_pos rfl]
    decide
  rcases putTaskStruct_of_two_le htwo with ⟨W, hput, hW⟩
  have hWc : W c = 1 := by
    rw [hW, hV, hone, if_pos rfl]
    rfl
  have hholds := h.taskReleaseInvariantHolds (U := W) hc ht hz hq
  let p2 : Procs := { p with
    sched := unlinked p.sched c
    usage := update W c 0
    allocated := update p.allocated c false }
  have hfree : putTaskStruct { p1 with usage := W } c = p2 := putTaskStruct_of_one hWc hholds
  refine ⟨update W c 0, ?_, fun y hy => ?_⟩
  · have hstate : (releaseTask { p.getTaskStruct c with
        sched.kin := p.sched.kin.listDelInit .null (.sibling c) } c).putTaskStruct c = p2 := by
      rw [hrelease, hput, hfree]
    exact congrArg (fun r : Procs => ({ r with waiting := update r.waiting t none },
      Outcome.reaped (toInt32 (p.sched.task c).pid) (p.sched.task c).exitStatus)) hstate
  · rw [update_of_ne hy, hW, hV, if_neg hy, add_zero, sub_zero]

lemma find?_erase_of_ne {f : Nat → Bool} {l : List Nat} (hi : l.find? f = some i) (hne : i ≠ c) :
    (l.erase c).find? f = some i := by
  induction l with
  | nil => cases hi
  | cons a l ih =>
    by_cases hac : a = c
    · subst hac
      rw [erase_cons_head]
      by_cases ha : f a = true
      · rw [List.find?_cons_of_pos ha] at hi
        exact absurd (Option.some.inj hi).symm hne
      · rwa [List.find?_cons_of_neg ha] at hi
    · rw [erase_cons_tail (by simpa using hac)]
      by_cases ha : f a = true
      · rw [List.find?_cons_of_pos ha] at hi ⊢
        exact hi
      · rw [List.find?_cons_of_neg ha] at hi ⊢
        exact ih hi

lemma Family.reaped {W : Nat → Option Nat} (h : Family p kids) (hc : c ∈ kids t) (ht : t ≠ p.idle)
    (hpid : (p.sched.task c).pid ≠ 0) (hkids : kids c = []) (hU : ∀ y, y ≠ c → U y = p.usage y) :
    Family { p with
      sched := unlinked p.sched c
      usage := U
      allocated := update p.allocated c false
      waiting := W } (update kids t ((kids t).erase c)) := by
  have hmem := mem_eraseChild h hc
  have hal : ∀ x, update p.allocated c false x = true ↔ x ≠ c ∧ p.allocated x = true := by
    intro x
    by_cases hx : x = c
    · simp [hx]
    · simp [hx]
  have htask : ∀ x, x ≠ c → (unlinked p.sched c).task x = p.sched.task x :=
    fun x hx => task_unlinked_of_ne hx
  have hpids : ∀ x, ((unlinked p.sched c).task x).pid = (p.sched.task x).pid := by
    intro x
    by_cases hx : x = c
    · rw [hx, task_unlinked_self]
    · rw [htask x hx]
  rcases h.reaper with ⟨i, hi, -, -, -, hipar⟩
  have hic : i ≠ c := fun e => h.ne_init hc ht (e ▸ hi)
  have hdc : p.idle ≠ c := fun e => hpid (e ▸ h.idle.2)
  have hfind : (unlinked p.sched c).findTaskByVpid 1 = some i := by
    unfold findTaskByVpid
    simp only [hpids]
    exact find?_erase_of_ne hi hic
  refine ⟨rings_unlinked h hc, fun x q => ?_, fun x hx hne => ?_, fun x q hx => ?_, fun x => ?_,
    h.nodup.erase c, ⟨(hal _).mpr ⟨hdc, h.idle.1⟩, (hpids _).trans h.idle.2⟩, fun x hx hz => ?_,
    ⟨i, hfind, ?_⟩, fun x hx => ?_⟩
  · rw [hmem, hal]
    by_cases hx : x = c
    · simp [hx]
    · rw [htask x hx, h.mem, and_assoc]
  · have hx' := (hal x).mp hx
    rw [htask x hx'.1]
    exact h.parent x hx'.2 hne
  · have hx' := (hmem x q).mp hx
    have ha := h.alive x q hx'.2
    refine ⟨(hal q).mpr ⟨fun e => ?_, ha.1⟩, ha.2⟩
    rw [e, hkids] at hx'
    cases hx'.2
  · show x ∈ p.sched.taskList.erase c ↔ _
    rw [h.nodup.mem_erase_iff, hal, h.listed]
  · have hx' := (hal x).mp hx
    rw [htask x hx'.1] at hz ⊢
    rw [hfind, ← hi]
    rcases h.zombie x hx'.2 hz with ⟨hxp, hnil | hinit⟩
    · refine ⟨hxp, Or.inl (eq_nil_iff_forall_not_mem.mpr fun y hy => ?_)⟩
      have hm := ((hmem y x).mp hy).2
      rw [hnil] at hm
      cases hm
    · exact ⟨hxp, Or.inr hinit⟩
  · rw [htask i hic]
    exact hipar
  · have hx' := (hal x).mp hx
    show 1 ≤ U x ∧ ((unlinked p.sched c).findTaskByVpid 1 ≠ some x → U x = 1)
    rw [hU x hx'.1, hfind, ← hi]
    exact h.usage x hx'.2

/--
A child has been reaped: it was a zombie and a child of the caller, the caller has
its pid and its status, and it is freed and off every list.
-/
structure Reaps (p p' : Procs) (t c : Nat) (out : Outcome) : Prop where
  allocated : p.allocated c = true
  zombie : (p.sched.task c).state = .zombie
  parent : (p.sched.task c).parent = some t
  outcome : out = .reaped (toInt32 (p.sched.task c).pid) (p.sched.task c).exitStatus
  freed : ∀ x, p'.allocated x = true ↔ x ≠ c ∧ p.allocated x = true
  taskList : c ∉ p'.sched.taskList
  children : ∀ q, ¬ p'.sched.kin.Reaches (.children q) (.sibling c)
  others : ∀ x, x ≠ c → p'.sched.task x = p.sched.task x

lemma Inv.reap (h : Inv A p) (hfam : Family p kids) (hc : c ∈ kids t) (ht : t ≠ p.idle)
    (hz : (p.sched.task c).state = .zombie) :
    Inv A (p.reap t c).1 ∧ Reaps p (p.reap t c).1 t c (p.reap t c).2 := by
  have hq : (p.sched.task c).waitq = none := h.waitq_of_runnable (by rw [hz]; decide)
  have hcm := (hfam.mem c t).mp hc
  have hchild := hfam.childless hc ht hz
  rcases reap_eq hfam hc ht hz hq with ⟨U, heq, hU⟩
  rcases h.settled with ⟨w, hw⟩
  have hfam' := hfam.reaped (W := update p.waiting t none) hc ht hchild.1 hchild.2 hU
  have hwaitq : ∀ x, ((unlinked p.sched c).task x).waitq = (p.sched.task x).waitq := by
    intro x
    by_cases hx : x = c
    · rw [hx, task_unlinked_self]
    · rw [task_unlinked_of_ne hx]
  rw [heq]
  have hleaves : Leaves p.sched (unlinked p.sched c) := fun x => .inl (hwaitq x)
  refine ⟨⟨⟨w, hw.of_state rfl hwaitq fun x hx => ?_⟩, h.kind.leaves hleaves, h.own.leaves hleaves,
    fun x hx => ?_, ⟨_, hfam'⟩, h.alive⟩, hcm.1, hz, hcm.2, rfl, fun x => ?_, hfam.nodup.not_mem_erase,
    fun q hr => ?_, fun x hx => task_unlinked_of_ne hx⟩
  · have hxc : x ≠ c := fun e => hx (e ▸ hq)
    rw [task_unlinked_of_ne hxc]
  · rw [hwaitq]
    by_cases hxc : x = c
    · rw [hxc]
      exact hq
    · have hx' : update p.allocated c false x = false := hx
      rw [update_of_ne hxc] at hx'
      exact h.gone x hx'
  · by_cases hx : x = c
    · simp [hx]
    · simp [hx]
  · have hm := ((rings_unlinked hfam hc).reaches_entry_iff (i := q)).mp hr
    exact ((mem_eraseChild hfam hc c q).mp hm).1 rfl

lemma Inv.waiting (h : Inv A p) (W : Nat → Option Nat) : Inv A { p with waiting := W } := by
  rcases h.family with ⟨kids, hf⟩
  exact ⟨h.settled, h.kind, h.own, h.gone, ⟨kids, hf.rings, hf.mem, hf.parent, hf.alive, hf.listed,
    hf.nodup, hf.idle, hf.zombie, hf.init, hf.usage⟩, h.alive⟩

/-- A step frees nobody, or reaps one child of its caller. -/
def Progresses (p p' : Procs) (caller : Option Nat) (out : Outcome) : Prop :=
  Lives p p' ∨ ∃ t ∈ caller, ∃ c, Reaps p p' t c out

section

variable (h : Inv A p) (hA : ∀ t, A t (.childExitWait t)) (ht : p.allocated t = true)
variable (hd : t ≠ p.idle) (hrun : (p.sched.task t).state = .runnable)
include h hA ht hd hrun

lemma Inv.waitRound (hr : p.waitRound fuel t id = some (p', out)) :
    Inv A p' ∧ Progresses p p' (some t) out := by
  rcases h.family with ⟨kids, hfam⟩
  unfold Procs.waitRound at hr
  simp only [bind_eq_bind, bind_eq_some_iff] at hr
  rcases hr with ⟨⟨o, b⟩, hscan, hr⟩
  cases o with
  | some c =>
    rcases scanChildren_zombie hfam.rings (onList_next_head hfam.rings t) hscan with ⟨hc, hz, -⟩
    have hreap := h.reap hfam hc hd hz
    have heq : p.reap t c = (p', out) := Option.some.inj hr
    rw [heq] at hreap
    exact ⟨hreap.1, Or.inr ⟨t, rfl, c, hreap.2⟩⟩
  | none =>
    simp only at hr
    split at hr
    · cases hr
      exact ⟨h.waiting _, Or.inl ⟨fun _ hx => hx, fun _ _ hz => ⟨hz, rfl, rfl⟩⟩⟩
    · cases hr
      have hb := h.block (q := .childExitWait t) ht hrun (hA t) fun u hu => QueueId.childExitWait.inj hu
      exact ⟨hb.1.waiting _, Or.inl ⟨hb.2.allocated, hb.2.zombie⟩⟩

lemma Inv.doWaitpid (hr : p.doWaitpid fuel t id = some (p', out)) :
    Inv A p' ∧ Progresses p p' (some t) out := by
  unfold Procs.doWaitpid at hr
  split at hr
  · cases hr
    exact ⟨h, Or.inl (Lives.refl p)⟩
  · split at hr
    · cases hr
      exact ⟨h, Or.inl (Lives.refl p)⟩
    · exact h.waitRound hA ht hd hrun hr

end

/-! ## Kill -/

/-- A signal that ends its task. -/
def fatal (sig : Int) : Prop :=
  sig ≠ 0 ∧ sig ≠ sigChld

/-- `sys_kill` does nothing, wakes the parent of a task, or makes a task exit. -/
lemma sysKill_cases (fuel : Nat) (p : Procs) (t id : Nat) (sig : Int) :
    (∃ r, p.sysKill fuel t id sig = some (p, .value r)) ∨
    (∃ q, p.sysKill fuel t id sig =
      some ({ p with sched := p.sched.signalWakeUpState q }, .value 0)) ∨
    ∃ u x, fatal sig ∧ p.sched.findTaskByVpid id = some u ∧
      (u = t ∨ (p.sched.task u).pid ≠ 1) ∧
      p.sysKill fuel t id sig = (p.exitNotify fuel u x).map (·, .value 0) := by
  unfold sysKill
  by_cases hsig : sig = 0 ∨ sig = sigChld ∨ sig = sigInt ∨ sig = sigKill ∨ sig = sigTerm
  swap
  · exact .inl ⟨_, if_pos hsig⟩
  rw [if_neg (not_not_intro hsig)]
  by_cases hid : id = 0
  · exact .inl ⟨_, if_pos hid⟩
  rw [if_neg hid]
  cases hu : p.sched.findTaskByVpid id with
  | none => exact .inl ⟨_, rfl⟩
  | some u =>
    simp only
    by_cases hidle : p.sched.isIdleTask u
    · exact .inl ⟨_, if_pos hidle⟩
    rw [if_neg hidle]
    by_cases h0 : sig = 0
    · exact .inl ⟨_, if_pos h0⟩
    rw [if_neg h0]
    by_cases hchld : sig = sigChld
    · rw [if_pos hchld]
      cases (p.sched.task u).parent with
      | none => exact .inl ⟨_, rfl⟩
      | some q => exact .inr (.inl ⟨q, rfl⟩)
    rw [if_neg hchld]
    by_cases hz : (p.sched.task u).state = .zombie
    · exact .inl ⟨_, if_pos hz⟩
    rw [if_neg hz]
    by_cases hmm : p.hasMm u = false
    · exact .inl ⟨_, if_pos hmm⟩
    rw [if_neg hmm]
    by_cases hself : u = t
    · exact .inr (.inr ⟨u, _, ⟨h0, hchld⟩, rfl, Or.inl hself, if_pos hself⟩)
    rw [if_neg hself]
    by_cases hinit : (p.sched.task u).pid = 1
    · exact .inl ⟨_, if_pos hinit⟩
    · exact .inr (.inr ⟨u, _, ⟨h0, hchld⟩, rfl, Or.inr hinit, if_neg hinit⟩)

lemma Inv.sysKill {sig : Int} (h : Inv A p)
    (hsafe : fatal sig → ∀ u, p.sched.findTaskByVpid id = some u → p.ExitSafe u)
    (hr : p.sysKill fuel t id sig = some (p', out)) : Inv A p' ∧ Lives p p' := by
  rcases sysKill_cases fuel p t id sig with ⟨r, he⟩ | ⟨q, he⟩ | ⟨u, x, hfatal, hu, -, he⟩
  · rw [he] at hr
    cases hr
    exact ⟨h, Lives.refl p⟩
  · rw [he] at hr
    cases hr
    rcases h.settled with ⟨w, hw⟩
    exact h.of_rouses (hw.signalWakeUpState q) (signalWakeUpState_rouses p.sched q)
  · rw [he] at hr
    rcases h.family with ⟨kids, hfam⟩
    have hual : p.allocated u = true := (hfam.listed u).mp (mem_of_find?_eq_some hu)
    rcases map_eq_some_iff.mp hr with ⟨r, hr', hp⟩
    cases hp
    exact h.exitNotify hual (hsafe hfatal u hu) hr'

/-! ## Steps -/

/-- The task that calls the operation. -/
def Op.caller : Op → Option Nat
  | .fork t _ | .exit t _ | .kill t _ _ | .waitpid t _ | .resume t | .block t _ | .sleep t _ _ =>
    some t
  | .wakeUp _ _ | .tick _ => none

/-- The operation is a call of `do_waitpid`. -/
def Op.isWait : Op → Prop
  | .waitpid _ _ | .resume _ => True
  | _ => False

/--
What an operation needs in the state it starts from: no parent is woken from
another queue for the exit of its child, and a wake-up of one task leaves no
others behind.
-/
def OpOk (p : Procs) : Op → Prop
  | .exit t _ => p.ExitSafe t
  | .kill _ id sig => fatal sig → ∀ u, p.sched.findTaskByVpid id = some u → p.ExitSafe u
  | .wakeUp n nr =>
    nr ≠ 1 ∨ ∀ t t', Linked p.sched t (.other n) → Linked p.sched t' (.other n) → t = t'
  | _ => True

/-- What a step does to the tasks: nobody is freed but by `do_waitpid`. -/
def Advances (p p' : Procs) (op : Op) (out : Outcome) : Prop :=
  Lives p p' ∨ op.isWait ∧ ∃ t ∈ op.caller, ∃ c, Reaps p p' t c out

lemma Inv.exec {op : Op} (h : Inv A p) (hA : ∀ t, A t (.childExitWait t))
    (hblock : ∀ t n, op = .block t n → A t (.other n)) (hen : p.Enabled op) (hok : p.OpOk op)
    (hr : p.exec fuel op = some (p', out)) : Inv A p' ∧ Advances p p' op out := by
  rcases h.settled with ⟨w, hw⟩
  cases op with
  | fork t child =>
    rcases sysFork_cases p t child with he | ⟨c, hc, he⟩
    · have hp : p' = p := (congrArg Prod.fst (Option.some.inj hr)).symm.trans he
      rw [hp]
      exact ⟨h, Or.inl (Lives.refl p)⟩
    · have hp : p' = p.forked t c := (congrArg Prod.fst (Option.some.inj hr)).symm.trans he
      have hcal := hen.2 c hc
      have hz : (p.sched.task t).state ≠ .zombie := by
        rw [hen.1.2.2.1]
        decide
      rw [hp]
      exact ⟨h.forked hen.1.1 hz hcal, Or.inl (lives_forked hcal t)⟩
  | exit t x =>
    rcases map_eq_some_iff.mp hr with ⟨r, hr', he⟩
    cases he
    have hx := h.exitNotify hen.1 hok hr'
    exact ⟨hx.1, Or.inl hx.2⟩
  | kill t id sig =>
    have hk := h.sysKill hok hr
    exact ⟨hk.1, Or.inl hk.2⟩
  | waitpid t id =>
    have hp := h.doWaitpid hA hen.1 hen.2.1 hen.2.2.1 hr
    exact ⟨hp.1, hp.2.imp_right fun hc => ⟨trivial, hc⟩⟩
  | resume t =>
    rcases bind_eq_some_iff.mp hr with ⟨id, -, hr'⟩
    have hp := h.waitRound hA hen.1 hen.2.1 hen.2.2.1 hr'
    exact ⟨hp.1, hp.2.imp_right fun hc => ⟨trivial, hc⟩⟩
  | block t n =>
    cases hr
    have hb := h.block (q := .other n) hen.1 hen.2.2.1 (hblock t n rfl) nofun
    exact ⟨hb.1, Or.inl hb.2⟩
  | sleep t ticks jiffies =>
    cases hr
    have hq := h.waitq_of_runnable (t := t) (by rw [hen.2.2.1]; decide)
    have hs : Rouses p.sched (taskSleep p.sched t ticks jiffies) ∧ _ :=
      taskSleep_rouses hw hen.2.2.1 hq
    have hi := h.of_rouses ⟨w, hs.2⟩ hs.1
    exact ⟨hi.1, Or.inl hi.2⟩
  | wakeUp n nr =>
    rcases map_eq_some_iff.mp hr with ⟨s, hs, he⟩
    cases he
    have hnr : nr ≠ 1 ∨ (w (.other n)).length ≤ 1 :=
      hok.imp_right (waiters_length_le_one hw.toQueued)
    have hi := h.of_rouses ⟨_, (hw.wakeUp hnr hs).1⟩ (wakeUp_rouses hs)
    exact ⟨hi.1, Or.inl hi.2⟩
  | tick now =>
    cases hr
    have hs := runqueueWakeSleepers_rouses hw now
    have hi := h.of_rouses ⟨w, hs.2⟩ hs.1
    exact ⟨hi.1, Or.inl hi.2⟩

end Procs
end LiteKernel.Kernel
