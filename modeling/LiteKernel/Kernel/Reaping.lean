import Mathlib.Data.List.Perm.Subperm
import LiteKernel.Kernel.ProcessTree

/-!
# Reaping

Runs of `sys_fork`, exit, `sys_kill` and `do_waitpid` in which the reaper does not
exit. A task then waits on its own `child_exit_wait` only.

Main results:

- Theorem `processTree_run`: the invariant holds in every such run, and every call returns or
  blocks.
- Lemma `zombie_run`: a zombie stays one until it is reaped.
-/

namespace LiteKernel.Kernel

open Function Lib List Option Procs

namespace Procs

open Sched

variable {fuel : Nat} {p p' : Procs} {t c : Nat} {kids : Nat → List Nat}
variable {op : Op} {x : ExitStatus}

/-- The task waits for its children. -/
def AwaitsChildren (x : Nat) (q : QueueId) : Prop :=
  q = .childExitWait x

/-- The operations of the process tree. -/
def Op.ofProcess : Op → Prop
  | .fork _ _ | .exit _ _ | .kill _ _ _ | .waitpid _ _ | .resume _ => True
  | .block _ _ | .sleep _ _ _ | .wakeUp _ _ | .tick _ => False

/-- The task with pid 1 neither exits nor kills itself. -/
def InitStays (p : Procs) : Op → Prop
  | .exit t _ => p.sched.findTaskByVpid 1 ≠ some t
  | .kill t id _ => id = 1 → p.sched.findTaskByVpid 1 ≠ some t
  | _ => True

/-- Every task but the idle one is on the children list of its parent, and on no other. -/
def OnParentsList (p : Procs) : Prop :=
  ∀ c, p.allocated c = true → c ≠ p.idle → ∃ t, (p.sched.task c).parent = some t ∧
    ∀ q, p.sched.kin.Reaches (.children q) (.sibling c) ↔ q = t

lemma Family.onParentsList (h : Family p kids) : p.OnParentsList := by
  intro c hc hd
  rcases h.parent c hc hd with ⟨t, ht⟩
  refine ⟨t, ht, fun q => ?_⟩
  have hreach : p.sched.kin.Reaches (.children q) (.sibling c) ↔ c ∈ kids q :=
    h.rings.reaches_entry_iff
  rw [hreach, h.mem, ht]
  exact ⟨fun hm => (Option.some.inj hm.2).symm, fun e => ⟨hc, e ▸ rfl⟩⟩

/-! ## Every call returns or blocks -/

lemma Inv.exitSafe (h : Inv AwaitsChildren p) (t : Nat) : p.ExitSafe t := by
  intro q _
  cases hq : (p.sched.task q).waitq with
  | none => exact .inr (.inl hq)
  | some q' =>
    have hown : q' = .childExitWait q := h.kind q q' hq
    exact .inr (.inr (hown ▸ hq))

lemma Inv.opOk (h : Inv AwaitsChildren p) (hop : op.ofProcess) : p.OpOk op := by
  cases op with
  | exit t x => exact h.exitSafe t
  | kill t id sig => exact fun _ u _ => h.exitSafe u
  | wakeUp n nr => cases hop
  | fork | waitpid | resume | block | sleep | tick => trivial

lemma Family.length_kids_le (h : Family p kids) (t : Nat) :
    (kids t).length ≤ p.sched.taskList.length := by
  refine (List.Nodup.subperm (h.rings.nodup t) fun c hc => ?_).length_le
  exact (h.listed c).mpr ((h.mem c t).mp hc).1

lemma Family.two_le_length (h : Family p kids) : 2 ≤ p.sched.taskList.length := by
  rcases h.reaper with ⟨i, hi, -, -, hial, -⟩
  have hpid : (p.sched.task i).pid = 1 := of_decide_eq_true (find?_some hi :)
  have hne : p.idle ≠ i := by
    intro e
    have hz := h.idle.2
    rw [e, hpid] at hz
    cases hz
  have hnd : [p.idle, i].Nodup := by simp [hne]
  refine (List.Nodup.subperm hnd fun x hx => ?_).length_le
  rcases mem_cons.mp hx with rfl | hx
  · exact (h.listed _).mpr h.idle.1
  · exact (h.listed x).mpr (mem_singleton.mp hx ▸ hial)

lemma exitNotify_of_sched {s : Sched} (hs : p.sched.exitNotify fuel t x = some s) :
    ∃ r, p.exitNotify fuel t x = some r := by
  unfold exitNotify
  split
  · exact ⟨_, rfl⟩
  · split
    · exact ⟨_, rfl⟩
    · cases (p.sched.task t).parent <;> cases hr : p.sched.taskReaperLocked <;>
        simp [sched_getTaskStruct, hr, hs]

lemma Inv.exitNotify_returns (h : Inv AwaitsChildren p) (ht : p.allocated t = true)
    (hinit : p.sched.findTaskByVpid 1 ≠ some t) (hf : p.sched.taskList.length < fuel) :
    ∃ r, p.exitNotify fuel t x = some r := by
  rcases h.settled with ⟨w, hw⟩
  rcases h.family with ⟨kids, hfam⟩
  rcases hfam.reaper with ⟨i, hi, -, hreaper, -, -⟩
  have hne : p.sched.reaperOf t ≠ t := by
    rw [hreaper]
    rintro rfl
    exact hinit hi
  have hs := Sched.exitNotify_returns (x := x) hw.toQueued hfam.rings
    (fun c q hc => ((hfam.mem c q).mp hc).2) (.inl hne)
    (lt_of_le_of_lt (hfam.length_kids_le t) hf) fun q _ =>
      (h.own.length_le_one hw.toQueued q).trans_lt (lt_of_lt_of_le hfam.two_le_length hf.le)
  rcases hs with ⟨s, hs⟩
  exact exitNotify_of_sched hs

lemma Inv.sysKill_returns {id : Nat} {sig : Int} (h : Inv AwaitsChildren p)
    (hinit : id = 1 → p.sched.findTaskByVpid 1 ≠ some t)
    (hf : p.sched.taskList.length < fuel) : ∃ r, p.sysKill fuel t id sig = some r := by
  rcases sysKill_cases fuel p t id sig with ⟨r, he⟩ | ⟨q, he⟩ | ⟨u, x, -, hu, hself, he⟩
  · exact ⟨_, he⟩
  · exact ⟨_, he⟩
  · rcases h.family with ⟨kids, hfam⟩
    have hual : p.allocated u = true := (hfam.listed u).mp (mem_of_find?_eq_some hu)
    have hupid : (p.sched.task u).pid = id := of_decide_eq_true (find?_some hu :)
    have hne : p.sched.findTaskByVpid 1 ≠ some u := by
      intro hfind
      have hpid : (p.sched.task u).pid = 1 := of_decide_eq_true (find?_some hfind :)
      rcases hself with rfl | hself
      · exact hinit (hupid.symm.trans hpid) hfind
      · exact hself hpid
    rcases h.exitNotify_returns (x := x) hual hne hf with ⟨r, hr⟩
    rw [he, hr]
    exact ⟨_, rfl⟩

lemma Inv.waitRound_returns {A : Nat → QueueId → Prop} (h : Inv A p) (ht : t ≠ p.idle) (id : Nat)
    (hf : p.sched.taskList.length < fuel) :
    ∃ r, p.waitRound fuel t id = some r ∧
      (wantAny id → (∃ c, p.allocated c = true ∧ (p.sched.task c).parent = some t ∧
        (p.sched.task c).state = .zombie) → ∃ c, Reaps p r.1 t c r.2) := by
  rcases h.family with ⟨kids, hfam⟩
  have hkids : kids t = [] ++ kids t := rfl
  have hscan : ∃ r, scanChildren fuel p.sched t id false _ = some r ∧ _ :=
    scanChildren_returns hfam.rings hkids (lt_of_le_of_lt (hfam.length_kids_le t) hf)
  rw [← hfam.rings.next_head t] at hscan
  rcases hscan with ⟨⟨o, b⟩, hr, hfind⟩
  have hr' : scanChildren fuel p.sched t id false (p.sched.kin.next (.children t)) =
      some (o, b) := hr
  unfold Procs.waitRound
  simp only [hr', bind_eq_bind, bind_some]
  cases o with
  | some c =>
    rcases scanChildren_zombie hfam.rings (onList_next_head hfam.rings t) hr' with ⟨hc, hz, -⟩
    exact ⟨_, rfl, fun _ _ => ⟨c, (h.reap hfam hc ht hz).2⟩⟩
  | none =>
    have hnone : wantAny id → ¬ ∃ c, p.allocated c = true ∧
        (p.sched.task c).parent = some t ∧ (p.sched.task c).state = .zombie := by
      rintro hany ⟨c, hc, hpar, hz⟩
      rcases hfind hany ⟨c, (hfam.mem c t).mpr ⟨hc, hpar⟩, hz⟩ with ⟨c', b', he⟩
      cases he
    simp only
    split
    · exact ⟨_, rfl, fun hany hex => absurd hex (hnone hany)⟩
    · exact ⟨_, rfl, fun hany hex => absurd hex (hnone hany)⟩

lemma Inv.exec_returns (h : Inv AwaitsChildren p) (hen : p.Enabled op) (hop : op.ofProcess)
    (hinit : p.InitStays op) (hf : p.sched.taskList.length < fuel) :
    ∃ r, p.exec fuel op = some r := by
  cases op with
  | fork t child => exact ⟨_, rfl⟩
  | exit t x =>
    rcases h.exitNotify_returns (x := x) hen.1 hinit hf with ⟨r, hr⟩
    exact ⟨_, congrArg (Option.map _) hr⟩
  | kill t id sig => exact h.sysKill_returns hinit hf
  | waitpid t id =>
    rw [Procs.exec, Procs.doWaitpid]
    split
    · exact ⟨_, rfl⟩
    split
    · exact ⟨_, rfl⟩
    · rcases h.waitRound_returns hen.2.1 id hf with ⟨r, hr, -⟩
      exact ⟨r, hr⟩
  | resume t =>
    rcases ne_none_iff_exists'.mp hen.2.2.2 with ⟨id, hid⟩
    rcases h.waitRound_returns hen.2.1 id hf with ⟨r, hr, -⟩
    refine ⟨r, ?_⟩
    rw [Procs.exec, hid]
    exact hr
  | block | sleep | wakeUp | tick => cases hop

/-! ## The fate of a zombie -/

/-- The task is a zombie with this pid and this status. -/
structure IsZombie (p : Procs) (c pid : Nat) (x : ExitStatus) : Prop where
  allocated : p.allocated c = true
  zombie : (p.sched.task c).state = .zombie
  pid : (p.sched.task c).pid = pid
  status : (p.sched.task c).exitStatus = x

/-- Some `do_waitpid` of the run, called by the parent of the task, reaps it with this outcome. -/
def ReapedIn (fuel c : Nat) (out : Outcome) : Procs → List Op → Prop
  | _, [] => False
  | p, op :: ops => ∃ p' o, p.exec fuel op = some (p', o) ∧
    (op.isWait ∧ o = out ∧ (∃ t ∈ op.caller, Reaps p p' t c o) ∨ ReapedIn fuel c out p' ops)

/-- A step reaps the zombie, with its own pid and status, or leaves it as it is. -/
lemma IsZombie.advances {out : Outcome} {pid : Nat} (h : IsZombie p c pid x)
    (ha : Advances p p' op out) :
    IsZombie p' c pid x ∨
      op.isWait ∧ out = .reaped (toInt32 pid) x ∧ ∃ t ∈ op.caller, Reaps p p' t c out := by
  rcases ha with hl | ⟨hwait, t, ht, c', hr⟩
  · have hz := hl.zombie c h.allocated h.zombie
    exact .inl ⟨hl.allocated c h.allocated, hz.1, hz.2.1.trans h.pid, hz.2.2.trans h.status⟩
  · by_cases hc : c = c'
    · subst hc
      have hout := hr.outcome
      rw [h.pid, h.status] at hout
      exact .inr ⟨hwait, hout, t, ht, hr⟩
    · have htask := hr.others c hc
      refine .inl ⟨(hr.freed c).mpr ⟨hc, h.allocated⟩, ?_, ?_, ?_⟩
      · rw [htask]
        exact h.zombie
      · rw [htask]
        exact h.pid
      · rw [htask]
        exact h.status

end Procs

open Procs Sched

/-- What the operations of a run meet in the states they start from. -/
def ProcessRun (fuel : Nat) (p : Procs) (ops : List Procs.Op) : Prop :=
  RunOk (Procs.step fuel)
    (fun o op => ∀ p ∈ o, p.Enabled op ∧ op.ofProcess ∧ p.InitStays op) (some p) ops

namespace Procs

variable {fuel : Nat} {p p' : Procs} {ops : List Op}

lemma Inv.step {op : Op} (h : Inv AwaitsChildren p)
    (hok : p.Enabled op ∧ op.ofProcess ∧ p.InitStays op)
    (hs : step fuel (some p) op = some p') :
    ∃ out, p.exec fuel op = some (p', out) ∧ Inv AwaitsChildren p' ∧ Advances p p' op out := by
  have hexec : (p.exec fuel op).map Prod.fst = some p' := by
    have hs' : (if p.panicked then none else (p.exec fuel op).map Prod.fst) = some p' := hs
    rwa [h.alive] at hs'
  rcases map_eq_some_iff.mp hexec with ⟨⟨q, out⟩, hr, rfl⟩
  refine ⟨out, hr, h.exec (fun _ => rfl) (fun t n he => ?_) hok.1 (h.opOk hok.2.1) hr⟩
  rw [he] at hok
  exact hok.2.1.elim

lemma run_none (ops : List Op) : run (step fuel) none ops = none := by
  induction ops with
  | nil => rfl
  | cons op ops ih => exact ih

lemma Inv.run (h : Inv AwaitsChildren p) (hok : ProcessRun fuel p ops)
    (hr : run (Procs.step fuel) (some p) ops = some p') : Inv AwaitsChildren p' := by
  have hinv : ∀ x ∈ Lib.run (Procs.step fuel) (some p) ops, Inv AwaitsChildren x := by
    refine run_invariant (fun o => ∀ x ∈ o, Inv AwaitsChildren x) ?_ ?_ hok
    · intro o op ho hop x hx
      rcases bind_eq_some_iff.mp hx with ⟨y, hy, hxy⟩
      rcases (ho y hy).step (hop y hy) hxy with ⟨-, -, hinv, -⟩
      exact hinv
    · intro x hx
      cases hx
      exact h
  exact hinv p' hr

/-- A zombie stays what it is until a `do_waitpid` of its parent reaps it. -/
lemma zombie_run {c pid : Nat} {x : ExitStatus} (h : Inv AwaitsChildren p)
    (hok : ProcessRun fuel p ops) (hr : run (step fuel) (some p) ops = some p')
    (hz : IsZombie p c pid x) :
    IsZombie p' c pid x ∨ ReapedIn fuel c (.reaped (toInt32 pid) x) p ops := by
  induction ops generalizing p with
  | nil =>
    cases hr
    exact .inl hz
  | cons op ops ih =>
    rw [run_cons] at hr
    cases hs : step fuel (some p) op with
    | none =>
      rw [hs, run_none] at hr
      cases hr
    | some p1 =>
      rw [hs] at hr
      have hok1 : ProcessRun fuel p1 ops := by
        have hrest := hok.2
        rwa [hs] at hrest
      rcases h.step (hok.1 p rfl) hs with ⟨out, hexec, h1, ha⟩
      rcases hz.advances ha with hz1 | hreap
      · rcases ih h1 hok1 hr hz1 with hz' | hlater
        · exact .inl hz'
        · exact .inr ⟨p1, out, hexec, Or.inr hlater⟩
      · exact .inr ⟨p1, out, hexec, Or.inl hreap⟩

end Procs

/--
In every run of fork, exit, kill and waitpid in which the reaper does not exit:
every task is on the children list of its parent and on no other; every operation
returns or blocks, and frees nobody but a zombie child of the caller of
`do_waitpid`, who gets its pid and its status and finds a zombie if there is one;
and a zombie stays what it is until it is reaped so.
-/
theorem processTree_run {fuel : Nat} {p p' : Procs} {ops : List Procs.Op}
    (hp : Inv AwaitsChildren p) (hok : ProcessRun fuel p ops) (n : Nat)
    (h : run (Procs.step fuel) (some p) (ops.take n) = some p') :
    p'.OnParentsList ∧
    (∀ op, p'.Enabled op → op.ofProcess → p'.InitStays op → p'.sched.taskList.length < fuel →
      ∃ p'' out, p'.exec fuel op = some (p'', out) ∧ Advances p' p'' op out) ∧
    (∀ t id, p'.Enabled (.waitpid t id) → wantAny id → p'.sched.taskList.length < fuel →
      (∃ c, p'.allocated c = true ∧ (p'.sched.task c).parent = some t ∧
        (p'.sched.task c).state = .zombie) →
      ∃ p'' out c, p'.exec fuel (.waitpid t id) = some (p'', out) ∧ Reaps p' p'' t c out) ∧
    ∀ c pid x, IsZombie p c pid x →
      IsZombie p' c pid x ∨ ReapedIn fuel c (.reaped (toInt32 pid) x) p (ops.take n) := by
  have hok' : ProcessRun fuel p (ops.take n) := hok.take n
  have hinv := hp.run hok' h
  rcases hinv.family with ⟨kids, hfam⟩
  refine ⟨hfam.onParentsList, fun op hen hop hinit hf => ?_, fun t id hen hany hf hex => ?_,
    fun c pid x hz => zombie_run hp hok' h hz⟩
  · rcases hinv.exec_returns hen hop hinit hf with ⟨⟨p'', out⟩, hr⟩
    refine ⟨p'', out, hr, (hinv.exec (fun _ => rfl) (fun t n he => ?_) hen (hinv.opOk hop) hr).2⟩
    rw [he] at hop
    exact hop.elim
  · rcases hinv.waitRound_returns hen.2.1 id hf with ⟨⟨p'', out⟩, hr, hreap⟩
    rcases hreap hany hex with ⟨c, hc⟩
    refine ⟨p'', out, c, ?_, hc⟩
    have hid : id ≠ 0 := by
      rw [hany]
      decide
    rw [Procs.exec, Procs.doWaitpid, if_neg hid, if_neg fun hn => hn.1 hany]
    exact hr

/-- The idle task 0, the reaper 1 and a task 2, each the child of the one before. -/
def threeProcs : Procs where
  sched :=
    { task := fun t =>
        { pid := t
          realParent := if t = 1 then some 0 else if t = 2 then some 1 else none
          parent := if t = 1 then some 0 else if t = 2 then some 1 else none
          wakeJiffies := 0, state := .runnable, timeSlice := 3, exitCode := 0, exitState := 0
          exitInfo0 := 0, exitInfo1 := 0, waitq := none }
      wait := ⟨id, id⟩
      kin := (Links.listAddTail ⟨id, id⟩ (.sibling 1) (.children 0)).listAddTail
        (.sibling 2) (.children 1)
      taskList := [0, 1, 2]
      needResched := false }
  usage _ := 1
  hasMm t := decide (t = 2)
  allocated t := decide (t ≤ 2)
  waiting _ := none
  lastPid := 2
  idle := 0
  panicked := false

def threeProcsKids : Nat → List Nat :=
  update (update (fun _ => []) 0 [1]) 1 [2]

lemma mem_threeProcsKids {c t : Nat} : c ∈ threeProcsKids t ↔ c = t + 1 ∧ t ≤ 1 := by
  unfold threeProcsKids
  by_cases h1 : t = 1
  · simp [h1]
  · by_cases h0 : t = 0
    · simp [h0]
    · simp only [update_of_ne h1, update_of_ne h0]
      exact iff_of_false not_mem_nil (by omega)

lemma threeProcs_family : Family threeProcs threeProcsKids where
  rings := by
    have R1 := (rings_nil_id kinLayout).listAddTail 0 (e := 1) (by simp)
    have hfree : ∀ j, 2 ∉ update (fun _ : Nat => ([] : List Nat)) 0 ([] ++ [1]) j := by
      intro j
      by_cases hj : j = 0 <;> simp [hj]
    exact R1.listAddTail 1 hfree
  mem c t := by
    rw [mem_threeProcsKids]
    by_cases h1 : c = 1
    · subst h1
      simp [threeProcs]
      omega
    · by_cases h2 : c = 2
      · subst h2
        simp [threeProcs]
        omega
      · simp [threeProcs, h1, h2]
        omega
  parent c hc hd := by
    have hle : c ≤ 2 := of_decide_eq_true hc
    have hne : c ≠ 0 := hd
    by_cases h1 : c = 1
    · exact ⟨0, by simp [threeProcs, h1]⟩
    · have h2 : c = 2 := by omega
      exact ⟨1, by simp [threeProcs, h2]⟩
  alive c t hc := by
    have hm := mem_threeProcsKids.mp hc
    exact ⟨decide_eq_true (by omega), by omega⟩
  listed t := by
    show t ∈ [0, 1, 2] ↔ decide (t ≤ 2) = true
    simp
    omega
  nodup := by decide
  idle := ⟨rfl, rfl⟩
  zombie t _ hz := nomatch hz
  init := ⟨1, rfl, rfl⟩
  usage t _ := ⟨le_refl 1, fun _ => rfl⟩

lemma threeProcs_inv {A : Nat → QueueId → Prop} : Inv A threeProcs where
  settled := by
    refine ⟨fun _ => [], ⟨rings_nil_id _, fun t q => ?_⟩, nofun⟩
    exact iff_of_false not_mem_nil nofun
  kind _ _ h := nomatch h
  own _ _ h := nomatch h
  gone _ _ := rfl
  family := ⟨threeProcsKids, threeProcs_family⟩
  alive := rfl

/-- Task 2 forks task 3, which exits, and waits for it. -/
def forkExitWait : List Procs.Op :=
  [.fork 2 (some 3), .exit 3 ⟨7, 0, 0, 0⟩, .waitpid 2 (2 ^ 32 - 1)]

theorem forkExitWait_processTree :
    (run (Procs.step 8) (some threeProcs) forkExitWait).any (fun p => p.allocated 3 = false) ∧
    ∀ n p', run (Procs.step 8) (some threeProcs) (forkExitWait.take n) = some p' →
      p'.OnParentsList := by
  refine ⟨by decide, fun n p' h => (processTree_run threeProcs_inv ?_ n h).1⟩
  refine ⟨fun p hp => ?_, fun p hp => ?_, fun p hp => ?_, trivial⟩
  · cases hp
    refine ⟨⟨⟨rfl, by decide, rfl, rfl⟩, fun c hc => ?_⟩, trivial, trivial⟩
    cases hc
    rfl
  · cases hp
    refine ⟨⟨rfl, by decide, rfl, rfl⟩, trivial, ?_⟩
    show (some 1 : Option Nat) ≠ some 3
    decide
  · cases hp
    exact ⟨⟨rfl, by decide, rfl, rfl⟩, trivial, trivial⟩

end LiteKernel.Kernel
