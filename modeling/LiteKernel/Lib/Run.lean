import Mathlib.Data.List.Basic
import Mathlib.Tactic

/-!
# Runs of a state machine

A component is modelled by a step function on its state. A run is the fold of
that function over a list of operations, and a *guarded* run is one whose every
operation meets a condition in the state it starts from. The rule of this file
turns a one-step preservation lemma into a statement about all runs.

Main results: `run_invariant`, `RunOk.take`, `runOk_of_forall_take`, `forall_take_iff_runOk`,
`replies_simulation`.
-/

namespace LiteKernel.Lib

variable {σ ω : Type*}
variable {ok ok' : σ → ω → Prop} {ops : List ω} {step : σ → ω → σ} {s : σ}

/-- The state reached from `s` by the operations of a list. -/
def run (step : σ → ω → σ) (s : σ) (ops : List ω) : σ :=
  ops.foldl step s

/-- Every operation meets `ok` in the state it is applied to. -/
def RunOk (step : σ → ω → σ) (ok : σ → ω → Prop) : σ → List ω → Prop
  | _, [] => True
  | s, o :: ops => ok s o ∧ RunOk step ok (step s o) ops

instance RunOk.decidable [∀ s o, Decidable (ok s o)] : ∀ s ops, Decidable (RunOk step ok s ops)
  | _, [] => inferInstanceAs (Decidable True)
  | s, o :: ops =>
    have := RunOk.decidable (step s o) ops
    inferInstanceAs (Decidable (ok s o ∧ RunOk step ok (step s o) ops))

@[simp]
lemma run_nil (step : σ → ω → σ) (s : σ) : run step s [] = s :=
  rfl

@[simp]
lemma run_cons (step : σ → ω → σ) (s : σ) (o : ω) (ops : List ω) :
    run step s (o :: ops) = run step (step s o) ops :=
  rfl

lemma run_append (step : σ → ω → σ) (s : σ) (ops1 ops2 : List ω) :
    run step s (ops1 ++ ops2) = run step (run step s ops1) ops2 :=
  List.foldl_append

/-- Preservation by one admitted step gives preservation by every admitted run. -/
lemma run_invariant (Inv : σ → Prop) (hstep : ∀ s o, Inv s → ok s o → Inv (step s o)) (hs : Inv s)
    (hok : RunOk step ok s ops) : Inv (run step s ops) := by
  induction ops generalizing s with
  | nil => exact hs
  | cons o ops ih => exact ih (hstep s o hs hok.1) hok.2

lemma RunOk.take (hok : RunOk step ok s ops) (n : Nat) : RunOk step ok s (ops.take n) := by
  induction n generalizing s ops with
  | zero => trivial
  | succ n ih =>
    cases ops with
    | nil => trivial
    | cons o ops => exact ⟨hok.1, ih hok.2⟩

/--
A run that has the property `P` in every state it reaches is admitted, if an
admitted step keeps `Inv` and a step from `Inv` to `P` is admitted.
-/
lemma runOk_of_forall_take (Inv P : σ → Prop) (hstep : ∀ s o, Inv s → ok s o → Inv (step s o))
    (hok : ∀ s o, Inv s → P (step s o) → ok s o) (hs : Inv s)
    (hP : ∀ n, P (run step s (ops.take n))) : RunOk step ok s ops := by
  induction ops generalizing s with
  | nil => trivial
  | cons o ops ih =>
    have ho : ok s o := hok s o hs (hP 1)
    exact ⟨ho, ih (hstep s o hs ho) fun n => hP (n + 1)⟩

/-- Where a step keeps `Inv` exactly if it meets `ok'`, a run keeps it exactly if all steps do. -/
lemma forall_take_iff_runOk (Inv : σ → Prop)
    (hstep : ∀ s o, Inv s → ok s o → (Inv (step s o) ↔ ok' s o)) (hs : Inv s)
    (hok : RunOk step ok s ops) :
    (∀ n, Inv (run step s (ops.take n))) ↔ RunOk step ok' s ops := by
  induction ops generalizing s with
  | nil => exact ⟨fun _ => trivial, fun _ n => by rwa [List.take_nil]⟩
  | cons o ops ih =>
    have ho := hstep s o hs hok.1
    constructor
    · intro hInv
      exact ⟨ho.mp (hInv 1), (ih (hInv 1) hok.2).mp fun n => hInv (n + 1)⟩
    · rintro ⟨h, hops⟩ (_ | n)
      · exact hs
      · exact (ih (ho.mpr h) hok.2).mpr hops n

/-- A run is admitted if each of its operations is admitted in every state. -/
lemma runOk_of_forall_mem (h : ∀ o ∈ ops, ∀ s, ok s o) (s : σ) : RunOk step ok s ops := by
  induction ops generalizing s with
  | nil => trivial
  | cons o ops ih =>
    exact ⟨h o List.mem_cons_self s, ih (fun o' ho' => h o' (List.mem_cons_of_mem o ho')) _⟩

lemma RunOk.imp (Inv : σ → Prop) (hstep : ∀ s o, Inv s → ok s o → Inv (step s o))
    (h : ∀ s o, Inv s → ok s o → ok' s o) (hs : Inv s) (hok : RunOk step ok s ops) :
    RunOk step ok' s ops := by
  induction ops generalizing s with
  | nil => trivial
  | cons o ops ih => exact ⟨h s o hs hok.1, ih (hstep s o hs hok.1) hok.2⟩

/-- Two conditions that agree wherever an invariant of the steps holds admit the same runs. -/
lemma runOk_congr (Inv : σ → Prop) (hstep : ∀ s o, Inv s → Inv (step s o))
    (h : ∀ s o, Inv s → (ok s o ↔ ok' s o)) (hs : Inv s) :
    RunOk step ok s ops ↔ RunOk step ok' s ops := by
  induction ops generalizing s with
  | nil => exact Iff.rfl
  | cons o ops ih => exact and_congr (h s o hs) (ih (hstep s o hs))

/-! ## Machines that reply -/

variable {τ ρ : Type*}

/-- The replies to the operations of a list. -/
def replies (exec : σ → ω → ρ × σ) : σ → List ω → List ρ
  | _, [] => []
  | s, o :: ops => (exec s o).1 :: replies exec (exec s o).2 ops

/-- Two machines whose admitted steps reply alike and keep them related reply alike in every run. -/
lemma replies_simulation {exec : σ → ω → ρ × σ} {exec' : τ → ω → ρ × τ}
    (R : σ → τ → Prop)
    (hstep : ∀ s t o, R s t → ok s o →
      (exec s o).1 = (exec' t o).1 ∧ R (exec s o).2 (exec' t o).2) {t : τ} (hR : R s t)
    (hok : RunOk (fun s o => (exec s o).2) ok s ops) :
    replies exec s ops = replies exec' t ops ∧
      R (run (fun s o => (exec s o).2) s ops) (run (fun t o => (exec' t o).2) t ops) := by
  induction ops generalizing s t with
  | nil => exact ⟨rfl, hR⟩
  | cons o ops ih =>
    obtain ⟨hreply, hnext⟩ := hstep s t o hR hok.1
    obtain ⟨hreplies, hlast⟩ := ih hnext hok.2
    exact ⟨by rw [replies, replies, hreply, hreplies], hlast⟩

end LiteKernel.Lib
