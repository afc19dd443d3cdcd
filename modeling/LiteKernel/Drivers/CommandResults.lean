import LiteKernel.Drivers.DescriptorOwnership

/-!
# Whose result a command gets

`virtio_scsi_submit` takes any entry of the used ring for the answer to its own command
and then reads its own response buffer, which it has cleared: zero is the status GOOD.

Main results:

- Theorem `good_completed`: a GOOD command was completed, if the device completes no command
  that has run out of time.
- Theorem `late_completion_good`: a late completion makes the next command GOOD.
-/

namespace LiteKernel.Drivers.Scsi

open Lib

/-- In a run without late completions, GOOD is told only where the device wrote it. -/
theorem good_completed {num : UInt16} (hnum : 0 < num.toNat) {ops : List Action}
    (hok : RunOk Scsi.step OnTime (start num) ops) :
    ∀ p ∈ (run Scsi.step (start num) ops).reports, p.result = statusGood →
      ⟨p.tag, statusGood⟩ ∈ (run Scsi.step (start num) ops).completions := by
  have hrun : ∃ free, Sane num (run Scsi.step (start num) ops) free := by
    refine run_invariant (fun s => ∃ free, Sane num s free) ?_ (start_sane hnum) hok
    rintro s a ⟨free, hs⟩ ha
    exact hs.step a ha
  obtain ⟨free, hs⟩ := hrun
  exact hs.told

/-- A command runs out of time and is never completed; the next one is completed in time. -/
def abandoned : List Action :=
  [.submit testUnitReady (some 4096) (some 8192), .poll true,
    .submit testUnitReady (some 4096) (some 8192), .complete 1 CmdResp.zero, .poll false]

theorem abandoned_good :
    (run Scsi.step (start 8) abandoned).reports.map (fun p => (p.tag, p.result)) =
        [(1, statusGood), (0, statusCheckCondition)] ∧
      ∀ p ∈ (run Scsi.step (start 8) abandoned).reports, p.result = statusGood →
        ⟨p.tag, statusGood⟩ ∈ (run Scsi.step (start 8) abandoned).completions := by
  refine ⟨by decide, good_completed (by decide) ?_⟩
  refine ⟨trivial, trivial, trivial, ?_, trivial, trivial⟩
  rintro ⟨q, hq, htag⟩
  exact ⟨_, rfl, rfl⟩

/-- The completion of a command that has run out of time comes during the next command. -/
def late : List Action :=
  [.submit testUnitReady (some 4096) (some 8192), .poll true,
    .submit testUnitReady (some 4096) (some 12288),
    .complete 0 { CmdResp.zero with status := statusCheckCondition }, .poll false]

/-- The second command is told GOOD; the device has completed the first one only, and not so. -/
theorem late_completion_good :
    (∃ p ∈ (run Scsi.step (start 8) late).reports, p.tag = 1 ∧ p.result = statusGood) ∧
      (run Scsi.step (start 8) late).completions.map (fun c => (c.tag, c.status)) =
        [(0, statusCheckCondition)] ∧
      ¬ ∀ p ∈ (run Scsi.step (start 8) late).reports, p.result = statusGood →
        ⟨p.tag, statusGood⟩ ∈ (run Scsi.step (start 8) late).completions := by
  have hcompletions : (run Scsi.step (start 8) late).completions =
      [⟨0, statusCheckCondition⟩] := rfl
  have hreports : (run Scsi.step (start 8) late).reports.head?.map
      (fun p => (p.tag, p.result)) = some (1, statusGood) := by decide
  obtain ⟨p, hp, hfields⟩ := Option.map_eq_some_iff.mp hreports
  obtain ⟨htag, hgood⟩ : p.tag = 1 ∧ p.result = statusGood := by simpa using hfields
  have hmem := List.mem_of_head? hp
  refine ⟨⟨p, hmem, htag, hgood⟩, by rw [hcompletions]; rfl, ?_⟩
  intro hall
  have hdone := hall p hmem hgood
  rw [hcompletions, htag, List.mem_singleton] at hdone
  injection hdone with htag'
  exact absurd htag' (by decide)

end LiteKernel.Drivers.Scsi
