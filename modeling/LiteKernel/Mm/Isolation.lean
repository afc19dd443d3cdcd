import LiteKernel.Lib.Run
import LiteKernel.Mm.Protect
import LiteKernel.Mm.OwnFrames
import LiteKernel.Mm.VmaCover

/-!
# Address spaces and the calls of other processes

The processes map, unmap, protect and resize ranges of their address spaces, in any order, while
they share frames. The page tables stay separate and the reference counters right, and no call
changes a page of another process. The calls are those of `mm/mmap.c` without page faults. They
allocate the nodes of their areas, and memory suffices for these without reclaim, which takes
pages from any process.

Main results:

- Lemma `Vm.Separate.callStep`: a call affects the address space of its process only.
- Theorem `Vm.addressSpaces_separate`: what any interleaving of calls keeps.
-/

namespace LiteKernel.Mm

open Lib Function

/-- A call of the process with the `mm_struct` `m`. -/
inductive MmCall where
  | mmap (m addr length prot : Nat)
  | munmap (m addr length : Nat)
  | mprotect (m addr length prot : Nat)
  | mremap (m addr oldLength newLength : Nat)
  | brk (m newEnd : Nat)

def MmCall.mm : MmCall → Nat
  | .mmap m _ _ _ | .munmap m _ _ | .mprotect m _ _ _ | .mremap m _ _ _ | .brk m _ => m

/-- A process of `M` calls, and `do_mprotect` stays below `TASK_SIZE`. -/
def MmCall.Ok (M : Finset Nat) (c : MmCall) : Prop :=
  c.mm ∈ M ∧ match c with
    | .mprotect _ addr length _ => wrap (addr + alignUp length) ≤ taskSize
    | _ => True

/-! ## The directory of a process -/

section

variable {c c' : VmaCtx} {mm mm' : MmStruct} {addr length prot r : Nat}

lemma doMmap_pgd (h : doMmap c mm addr length prot = some (r, mm', c')) : mm'.pgd = mm.pgd := by
  unfold doMmap at h
  grind

lemma doMunmapVma_pgd (h : doMunmapVma c mm addr length = some (mm', c')) :
    mm'.pgd = mm.pgd := by
  unfold doMunmapVma at h
  grind

lemma doMprotectVma_pgd (h : doMprotectVma c mm addr length prot = some (mm', c')) :
    mm'.pgd = mm.pgd := by
  unfold doMprotectVma at h
  grind

lemma doMremapVma_pgd {old new : Nat} {range : Option (Nat × Nat)}
    (h : doMremapVma mm addr old new = some (mm', range)) : mm'.pgd = mm.pgd := by
  unfold doMremapVma at h
  grind

lemma doBrk_pgd (mm : MmStruct) (newEnd : Nat) : (doBrk mm newEnd).2.pgd = mm.pgd := by
  unfold doBrk
  grind

end

namespace Vm

/-- The state after a call; a search for a gap that never ends changes nothing. -/
def callStep (s : Vm) : MmCall → Vm
  | .mmap m addr length prot => ((s.doMmap m addr length prot).map Prod.snd).getD s
  | .munmap m addr length => (s.doMunmap m addr length).2
  | .mprotect m addr length prot => (s.doMprotect m addr length prot).2
  | .mremap m addr oldLength newLength => (s.doMremap m addr oldLength newLength).2
  | .brk m newEnd => (s.doBrk m newEnd).2

/--
The page tables are well formed, each process has its directory, and no reclaim runs inside the
allocation of a node.
-/
structure Separate (T : Tally) (M : Finset Nat) (D : Nat → Nat) (s : Vm) : Prop
    extends Wf T s M D where
  pgd : ∀ m ∈ M, (s.mm m).pgd = D m
  calm : ∀ n, s.env.heapReclaim n = .done

/-- The entries of the address space `m` may have changed, and nothing that a process reads. -/
structure Affects (T : Tally) (M : Finset Nat) (D : Nat → Nat) (m : Nat) (s s' : Vm) : Prop where
  separate : Separate T M D s'
  data : s'.data = s.data
  other : ∀ m' ∈ M, m' ≠ m → ∀ v, v < userPages → s'.pte (D m') v = s.pte (D m') v
  rmap : RmapInv s M D → RmapInv s' M D

variable {T : Tally} {s s' : Vm} {M : Finset Nat} {D : Nat → Nat} {m : Nat}

/-- The new bits keep the present bit and the frame. -/
lemma Reflags.rmap {P : Nat → Prop} {write : Bool}
    (hr : Reflags T M D m P (protectFlags write) s s') (h : RmapInv s M D) : RmapInv s' M D := by
  refine h.congr (fun m' hm' v hv => ?_) fun _ _ hl => hr.page ▸ hl
  by_cases hx : m' = m
  · subst hx
    by_cases hp : P v ∧ (s.pte (D m') v).present = true
    · rw [hr.changed v hv hp.1 hp.2]
      simp [Pte.frame, protectFlags, hp.2]
    · rw [hr.kept v hv hp]
  · rw [hr.other m' hm' hx v hv]

section

variable (h : Separate T M D s)
include h

lemma Separate.refl : Affects T M D m s s :=
  ⟨h, rfl, fun _ _ _ _ _ => rfl, id⟩

/-- The areas of `m` change. -/
lemma Separate.putVma {mm : MmStruct} (hmm : mm.pgd = (s.mm m).pgd) (c : VmaCtx) :
    Affects T M D m s (s.putVma m mm c) where
  separate :=
    { toWf := h.toWf.of_same (sameTables_putVma s m mm c)
      pgd := fun m' hm' => by
        by_cases hx : m' = m
        · subst hx
          exact (congrArg MmStruct.pgd (update_self ..)).trans (hmm.trans (h.pgd m' hm'))
        · exact (congrArg MmStruct.pgd (update_of_ne hx ..)).trans (h.pgd m' hm')
      calm := h.calm }
  data := rfl
  other _ _ _ _ _ := rfl
  rmap h := h

/-- The areas of `m` change, and pages of a range are zapped. -/
lemma Separate.zap (hm : m ∈ M) {mm : MmStruct} (hmm : mm.pgd = (s.mm m).pgd) (c : VmaCtx)
    (start stop : Nat) :
    Affects T M D m s ((s.putVma m mm c).zapPageRange m mm.pgd start stop) := by
  have hput := (h.putVma hmm c).separate
  rw [hmm, h.pgd m hm]
  have hz := hput.toWf.zapPageRange hm start stop
  exact ⟨⟨hz.wf, fun m' hm' => hz.fixed.mm ▸ hput.pgd m' hm', hz.fixed.env ▸ hput.calm⟩, hz.data,
    hz.other, hz.rmap⟩

/-- The areas of `m` change, and pages below `TASK_SIZE` get other bits. -/
lemma Separate.protect (hm : m ∈ M) {mm : MmStruct} (hmm : mm.pgd = (s.mm m).pgd) (c : VmaCtx)
    {start stop : Nat} (hstop : stop ≤ taskSize) (write : Bool) :
    Affects T M D m s ((s.putVma m mm c).updateMappedPageFlags mm.pgd start stop write) := by
  have hput := (h.putVma hmm c).separate
  rw [hmm, h.pgd m hm]
  have hlt : ∀ v ∈ pagesIn start stop, v < userPages := by
    intro v hv
    have hlt := (mem_pagesIn.mp hv).2
    unfold alignUp alignDown wrap pageSize at hlt
    unfold taskSize at hstop
    unfold userPages
    omega
  have hr := hput.toWf.protectPages hm hlt ((pairwise_pagesIn start stop).imp ne_of_lt) write
  exact ⟨⟨hr.wf, fun m' hm' => hr.quiet.mm ▸ hput.pgd m' hm', hr.quiet.env ▸ hput.calm⟩,
    hr.quiet.data, hr.other, hr.rmap⟩

/-- A call affects the address space of its process only. -/
lemma Separate.callStep {c : MmCall} (hc : c.Ok M) : Affects T M D c.mm s (s.callStep c) := by
  obtain ⟨hm, hc⟩ := hc
  cases c with
  | mmap m addr length prot =>
    simp only [Vm.callStep, Vm.doMmap, commitVma_of_calm h.calm]
    rcases hmap : Mm.doMmap s.ctx (s.mm m) addr length prot with _ | ⟨r, mm, c⟩
    · exact h.refl
    · exact h.putVma (doMmap_pgd hmap) c
  | munmap m addr length =>
    simp only [Vm.callStep, Vm.doMunmap, commitVma_of_calm h.calm]
    rcases hmap : doMunmapVma s.ctx (s.mm m) addr length with _ | ⟨mm, c⟩
    · exact h.refl
    · exact h.zap hm (doMunmapVma_pgd hmap) c addr _
  | mprotect m addr length prot =>
    simp only [Vm.callStep, Vm.doMprotect, commitVma_of_calm h.calm]
    rcases hmap : doMprotectVma s.ctx (s.mm m) addr length prot with _ | ⟨mm, c⟩
    · exact h.refl
    · exact h.protect hm (doMprotectVma_pgd hmap) c hc _
  | mremap m addr oldLength newLength =>
    simp only [Vm.callStep, Vm.doMremap]
    rcases hmap : doMremapVma (s.mm m) addr oldLength newLength with _ | ⟨mm, _ | ⟨start, stop⟩⟩
    · exact h.refl
    · exact h.putVma (doMremapVma_pgd hmap) s.ctx
    · exact h.zap hm (doMremapVma_pgd hmap) s.ctx start stop
  | brk m newEnd => exact h.putVma (doBrk_pgd (s.mm m) newEnd) s.ctx

end

/--
Whatever the processes map, unmap, protect and resize, in any order: the page tables stay
separate, no frame in use is free, and the counters count the mappings; and a process that makes
no call keeps its pages, with the bytes in them. Exact reverse mappings stay exact.
-/
theorem addressSpaces_separate (h : Separate T M D s) {calls : List MmCall}
    (hcalls : ∀ c ∈ calls, c.Ok M) :
    Separate T M D (run callStep s calls) ∧ (run callStep s calls).data = s.data ∧
      (∀ m ∈ M, (∀ c ∈ calls, c.mm ≠ m) → ∀ v, v < userPages →
        (run callStep s calls).pte (D m) v = s.pte (D m) v) ∧
      (RmapInv s M D → RmapInv (run callStep s calls) M D) := by
  induction calls generalizing s with
  | nil => exact ⟨h, rfl, fun _ _ _ _ _ => rfl, id⟩
  | cons c calls ih =>
    obtain ⟨hc, hcalls⟩ := List.forall_mem_cons.mp hcalls
    have hstep := h.callStep hc
    obtain ⟨hsep, hdata, hother, hrmap⟩ := ih hstep.separate hcalls
    refine ⟨hsep, hdata.trans hstep.data, fun m hm hne v hv => ?_, hrmap ∘ hstep.rmap⟩
    obtain ⟨hne, hrest⟩ := List.forall_mem_cons.mp hne
    exact (hother m hm hrest v hv).trans (hstep.other m hm hne.symm v hv)

/-- The address space 1 of `mixed`, and a new one without pages. -/
def twoSpaces : Vm :=
  (mixed true).pgdCloneKernel.2.putVma 2 ⟨8, 0, 0, 0, 0, 0, []⟩ (mixed true).ctx

lemma twoSpaces_start : Separate .exact {2, 1} (update (fun _ => 2) 2 8) twoSpaces ∧
    RmapInv twoSpaces {2, 1} (update (fun _ => 2) 2 8) := by
  obtain ⟨hset, hfresh⟩ := (mixed_wf true).takeFrame (f := 8) rfl (by decide) 1
  have hwf := hset.wf.cloneDir (m := 2) (by decide) hfresh
  have hrmap : RmapInv (mixed true) {1} fun _ => 2 := oneTable_rmapInv (mixed_owner true)
  refine ⟨⟨hwf.of_same (sameTables_putVma _ 2 _ _), by decide, fun _ => rfl⟩, fun f => ?_⟩
  obtain ⟨l, hl, hnd, hmem⟩ := hrmap f
  refine ⟨l, ?_, hnd, fun k => (hmem k).trans ⟨?_, ?_⟩⟩
  · by_cases hf : f = 8
    · subst hf
      cases l <;> exact hl
    · have hpage : twoSpaces.page f = (mixed true).page f := update_of_ne hf ..
      rwa [hpage]
  · rintro ⟨m, hm, v, hv, hk, hf⟩
    obtain rfl := Finset.mem_singleton.mp hm
    exact ⟨1, by decide, v, hv, hk, hf⟩
  · rintro ⟨m, hm, v, hv, hk, hf⟩
    rcases Finset.mem_insert.mp hm with rfl | hm
    · have hzero : twoSpaces.pte 8 v = Pte.zero := hset.wf.toSpace.pte_cloneDir_new hv
      rw [update_self, hzero, Pte.frame_zero] at hf
      cases hf
    · obtain rfl := Finset.mem_singleton.mp hm
      exact ⟨1, by decide, v, hv, hk, hf⟩

/-- Process 2 maps and unmaps the addresses of the pages of process 1, which keeps them. -/
theorem twoSpaces_separate :
    let s := run callStep twoSpaces [.mmap 2 0x1000 0x3000 3, .munmap 2 0x1000 0x3000]
    Separate .exact {2, 1} (update (fun _ => 2) 2 8) s ∧
      RmapInv s {2, 1} (update (fun _ => 2) 2 8) ∧ (s.pte 2 1).present = true ∧
      ∀ v, v < userPages → s.pte 2 v = twoSpaces.pte 2 v := by
  have hcalls : ∀ c ∈ [.mmap 2 0x1000 0x3000 3, .munmap 2 0x1000 0x3000], MmCall.Ok {2, 1} c := by
    simp [MmCall.Ok, MmCall.mm]
  obtain ⟨hsep, -, hother, hrmap⟩ := addressSpaces_separate twoSpaces_start.1 hcalls
  exact ⟨hsep, hrmap twoSpaces_start.2, by decide +kernel, hother 1 (by decide) (by simp [MmCall.mm])⟩

end Vm
end LiteKernel.Mm
