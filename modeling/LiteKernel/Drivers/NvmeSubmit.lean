import LiteKernel.Lib.Run

/-!
# The submission queue of an NVMe controller

`__nvme_submit_cmd` writes a command into the slot at the tail and rings the doorbell. It does
not look at the head of the controller: a command that times out may still be in the queue.

Main results:

- Theorem `submission_safe_iff`: no slot is overwritten exactly if the queue never gets full.
- Theorem `submission_looks_empty`: a full queue that the controller takes for an empty one.
-/

namespace LiteKernel.Drivers.Nvme

open Function Lib List

/-- The slot behind a slot of a queue. -/
def slotAfter (depth slot : UInt16) : UInt16 :=
  if depth ≤ slot + 1 then 0 else slot + 1

/-- The number of slots in use; a queue of depth 0 uses its slot 0. -/
def slotCount (depth : UInt16) : Nat :=
  max depth.toNat 1

lemma slotCount_pos (depth : UInt16) : 0 < slotCount depth :=
  lt_of_lt_of_le one_pos (le_max_right _ _)

lemma toNat_slotAfter {depth slot : UInt16} {k : Nat} (h : slot.toNat = k % slotCount depth) :
    (slotAfter depth slot).toNat = (k + 1) % slotCount depth := by
  have hlt := Nat.mod_lt k (slotCount_pos depth)
  have hdepth := depth.toNat_lt
  have hsucc : (slot + 1).toNat = slot.toNat + 1 := by
    rw [UInt16.toNat_add, UInt16.toNat_one]
    exact Nat.mod_eq_of_lt (by unfold slotCount at *; omega)
  rw [← Nat.mod_add_mod, ← h] at *
  unfold slotAfter
  split_ifs with hle
  · rw [UInt16.le_iff_toNat_le, hsucc] at hle
    have hend : slot.toNat + 1 = slotCount depth := by unfold slotCount at *; omega
    rw [hend, Nat.mod_self]
    rfl
  · rw [UInt16.le_iff_toNat_le, hsucc] at hle
    rw [hsucc, Nat.mod_eq_of_lt]
    unfold slotCount
    omega

lemma mod_ne_mod {d a b : Nat} (hab : a < b) (hb : b < a + d) : a % d ≠ b % d := by
  intro h
  have hdvd := Nat.dvd_of_mod_eq_zero (Nat.sub_mod_eq_zero_of_mod_eq h.symm)
  have := Nat.le_of_dvd (Nat.sub_pos_of_lt hab) hdvd
  omega

/--
The submission side of `struct nvme_queue`, and the controller's: its head, how many commands it
has fetched, and the slots and commands that were submitted.
-/
structure SubmissionQueue (α : Type*) where
  depth : UInt16
  sqTail : UInt16
  nextCid : UInt16
  sq : UInt16 → Option (UInt16 × α)
  sqHead : UInt16
  fetched : Nat
  submitted : List (UInt16 × UInt16 × α)

open SubmissionQueue

variable {α : Type*} {q : SubmissionQueue α}

/-- `__nvme_submit_cmd`, and the id that it returns. -/
def SubmissionQueue.submitCmd (q : SubmissionQueue α) (cmd : α) : UInt16 × SubmissionQueue α :=
  let tmp := (q.nextCid, cmd)
  (q.nextCid,
    { q with
      nextCid := if q.nextCid + 1 = 0 then 1 else q.nextCid + 1
      sq := update q.sq q.sqTail (some tmp)
      sqTail := slotAfter q.depth q.sqTail
      submitted := q.submitted ++ [(q.sqTail, tmp)] })

inductive QueueOp (α : Type*) where
  | submit (cmd : α)
  | fetch

/-- The controller fetches unless its head has reached the tail. -/
def SubmissionQueue.step (q : SubmissionQueue α) : QueueOp α → SubmissionQueue α
  | .submit cmd => (q.submitCmd cmd).2
  | .fetch =>
    if q.sqHead = q.sqTail then q
    else { q with sqHead := slotAfter q.depth q.sqHead, fetched := q.fetched + 1 }

/-- The slots and commands that the controller has not fetched. -/
def SubmissionQueue.pending (q : SubmissionQueue α) : List (UInt16 × UInt16 × α) :=
  q.submitted.drop q.fetched

/-- A submission writes to a slot that is free, and the queue does not look empty after it. -/
def SubmissionQueue.Safe (q : SubmissionQueue α) : QueueOp α → Prop
  | .submit cmd =>
    (∀ p ∈ q.pending, p.1 ≠ q.sqTail) ∧ (q.submitCmd cmd).2.sqTail ≠ (q.submitCmd cmd).2.sqHead
  | .fetch => True

/-- A submission leaves a slot of the queue free. -/
def SubmissionQueue.Roomy (q : SubmissionQueue α) : QueueOp α → Prop
  | .submit _ => q.pending.length + 1 < q.depth.toNat
  | .fetch => True

/-- A queue that has been set up. -/
def SubmissionQueue.new (α : Type*) (depth : UInt16) : SubmissionQueue α :=
  ⟨depth, 0, 1, fun _ => none, 0, 0, []⟩

/-- Tail, head and slots are the numbers of the commands modulo the depth. -/
structure Numbered (q : SubmissionQueue α) : Prop where
  fetched_le : q.fetched ≤ q.submitted.length
  tail : q.sqTail.toNat = q.submitted.length % slotCount q.depth
  head : q.sqHead.toNat = q.fetched % slotCount q.depth
  slot : ∀ k p, q.submitted[k]? = some p → p.1.toNat = k % slotCount q.depth

lemma Numbered.step (h : Numbered q) (op : QueueOp α) : Numbered (q.step op) := by
  cases op with
  | submit cmd =>
    refine ⟨?_, ?_, h.head, fun k p hp => ?_⟩
    · exact h.fetched_le.trans (by simp [SubmissionQueue.step, submitCmd])
    · simpa [SubmissionQueue.step, submitCmd] using toNat_slotAfter h.tail
    · change (q.submitted ++ [_])[k]? = some p at hp
      rw [getElem?_append] at hp
      split_ifs at hp with hk
      · exact h.slot k p hp
      · obtain ⟨hlast, rfl⟩ : k - q.submitted.length = 0 ∧ _ = p := by
          simpa [getElem?_singleton] using hp
        have hk' : k = q.submitted.length := by omega
        exact hk' ▸ h.tail
  | fetch =>
    unfold SubmissionQueue.step
    split_ifs with hempty
    · exact h
    · have hne : q.fetched ≠ q.submitted.length := fun heq =>
        hempty (UInt16.toNat_inj.mp (h.head.trans (heq ▸ h.tail.symm)))
      exact ⟨lt_of_le_of_ne h.fetched_le hne, h.tail, toNat_slotAfter h.head, h.slot⟩

lemma Numbered.safe_iff (h : Numbered q) (op : QueueOp α) : q.Safe op ↔ q.Roomy op := by
  cases op with
  | fetch => exact Iff.rfl
  | submit cmd =>
    have hle := h.fetched_le
    have htail : q.Safe (.submit cmd) ↔
        (∀ k, q.fetched ≤ k → k < q.submitted.length →
          k % slotCount q.depth ≠ q.submitted.length % slotCount q.depth) ∧
        (q.submitted.length + 1) % slotCount q.depth ≠ q.fetched % slotCount q.depth := by
      rw [← toNat_slotAfter h.tail, ← h.tail, ← h.head]
      refine and_congr ⟨fun hs k hk hlt heq => ?_, fun hs p hp heq => ?_⟩
        (not_congr UInt16.toNat_inj.symm)
      · have hget := getElem?_eq_getElem hlt
        refine hs _ (mem_drop_iff_getElem.mpr ⟨k - q.fetched, by omega, ?_⟩)
          (UInt16.toNat_inj.mp ((h.slot k _ hget).trans heq))
        simp [Nat.add_sub_cancel' hk]
      · obtain ⟨i, hi, rfl⟩ := mem_drop_iff_getElem.mp hp
        have hlt : q.fetched + i < q.submitted.length := by omega
        refine hs (q.fetched + i) (Nat.le_add_right _ _) hlt ?_
        rw [← h.slot _ _ (getElem?_eq_getElem hlt), heq]
    rw [htail, Roomy, pending, length_drop]
    constructor
    · rintro ⟨hslot, hne⟩
      by_contra hfull
      rcases lt_or_ge (q.submitted.length - q.fetched) (slotCount q.depth) with hlt | hge
      · have hlast : q.submitted.length + 1 = q.fetched + slotCount q.depth := by
          unfold slotCount at *
          omega
        exact hne (by rw [hlast, Nat.add_mod_right])
      · have hpos := slotCount_pos q.depth
        refine hslot (q.submitted.length - slotCount q.depth) (by omega) (by omega) ?_
        rw [← Nat.add_mod_right, Nat.sub_add_cancel (by omega)]
    · intro hroom
      have hcount : q.depth.toNat ≤ slotCount q.depth := le_max_left _ _
      refine ⟨fun k hk hlt => mod_ne_mod hlt (by omega), ?_⟩
      exact (mod_ne_mod (by omega) (by omega)).symm

/--
A run of submissions, with any of the commands fetched at any time, writes no slot with a command
that is not fetched and never lets the tail reach the head exactly if each submission leaves a
slot free.
-/
theorem submission_safe_iff (depth : UInt16) (ops : List (QueueOp α)) :
    RunOk step Safe (.new α depth) ops ↔
      RunOk step Roomy (.new α depth) ops := by
  have hnew : Numbered (SubmissionQueue.new α depth) :=
    ⟨le_rfl, (Nat.zero_mod _).symm, (Nat.zero_mod _).symm, nofun⟩
  exact runOk_congr Numbered (fun _ op h => h.step op) (fun _ op h => h.safe_iff op) hnew

/-- Two commands that time out in a queue of depth 2: the second one makes it look empty. -/
theorem submission_looks_empty :
    let ops : List (QueueOp Unit) := [.submit (), .submit ()]
    (run step (.new Unit 2) ops).pending.length = 2 ∧
      ¬ RunOk step Safe (.new Unit 2) ops := by
  refine ⟨rfl, fun h => ?_⟩
  exact h.2.1.2 rfl

end LiteKernel.Drivers.Nvme
