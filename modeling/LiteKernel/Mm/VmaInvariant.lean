import LiteKernel.Lib.Run
import LiteKernel.Mm.VmaChain

/-!
# The VMA list over runs of the memory calls

The six calls of `mm/mmap.c` that reshape the list of virtual memory areas are
put together as one state machine with 32-bit arguments. Five of them keep the
list sorted, disjoint and page aligned from every state. `do_brk` moves the end
of the heap area without a look at its neighbour, and it may give the heap area
an empty range.

Main results:

- Theorem `vmaInv_run_iff`: the invariant holds in a run exactly if each `do_brk` fits.
- Theorem `heapOverrun_not_vmaInv`: a heap that grows into the next area.
-/

namespace LiteKernel.Mm

open Lib VmaChain

/-! ## The six calls -/

/-- An `mm_struct` with the static data of `mm/mmap.c`. -/
structure VmaState where
  mm : MmStruct
  ctx : VmaCtx

variable {s : VmaState} {a addr length newEnd start stop : Nat} {mm : MmStruct} {l : List VmArea}
  {c : VmaCtx} {heap : VmArea}

/-- What every call keeps: distinct nodes, and the chain of areas. -/
structure VmaState.Wf (s : VmaState) : Prop where
  ok : ∀ n, s.ctx.heap.ok n = true
  nodes : NodesOk s.ctx s.mm.mmap
  chain : VmaChain s.mm.mmap

lemma vmaAdd_wf (hok : ∀ n, c.heap.ok n = true) (hn : NodesOk c l) (h : VmaChain l)
    (flags : VmFlags) (hstart : PageAligned start) (hstop : PageAligned stop)
    (hfree : start < stop → vmaRangeFree l start stop = true) :
    (∀ n, (vmaAdd c l start stop flags).2.heap.ok n = true) ∧
      NodesOk (vmaAdd c l start stop flags).2 (vmaAdd c l start stop flags).1 ∧
      VmaChain (vmaAdd c l start stop flags).1 := by
  have key : ∀ (c : VmaCtx) (id : Nat), (∀ n, c.heap.ok n = true) → NodesOk c l → start < stop →
      (∀ n, (vmaAddAnon c l start stop flags id).2.heap.ok n = true) ∧
        NodesOk (vmaAddAnon c l start stop flags id).2 (vmaAddAnon c l start stop flags id).1 ∧
        VmaChain (vmaAddAnon c l start stop flags id).1 := by
    intro c id hok hn hlt
    refine ⟨?_, hn.addAnon _ _ _ _, ?_⟩
    · rw [vmaAddAnon_of_ok (hok _) l hlt]
      exact hok
    · rw [vmaAddAnon_of_ok (hok _) l hlt]
      exact h.insert ⟨hstart, hstop, hlt⟩ (freeIn_of_vmaRangeFree (hfree hlt))
  unfold vmaAdd
  split
  · exact ⟨hok, hn, h⟩
  · rename_i hlt
    simp only
    split
    · exact key c.allocAnonVmaId.2 _ hok ⟨hn.nodup, hn.old⟩ (by omega)
    · exact key c _ hok hn (by omega)

lemma vmaGapStart_pageAligned (mm : MmStruct) : PageAligned (vmaGapStart mm) := by
  unfold vmaGapStart
  simp only
  split_ifs
  all_goals first
    | exact pageAligned_alignUp _
    | decide

/-- An address found by the gap scan is a page boundary with a free range behind it. -/
lemma vmaFindGapFrom_spec {size limit fuel : Nat}
    (hstart : PageAligned start ∧ start < 4294967296)
    (h : vmaFindGapFrom l size limit fuel start = some a) (ha : a ≠ 0) :
    (PageAligned a ∧ a < 4294967296) ∧ vmaRangeFree l a (wrap (a + size)) = true := by
  induction fuel generalizing start with
  | zero => cases h
  | succ fuel ih =>
    simp only [vmaFindGapFrom] at h
    split at h
    · split at h
      · rename_i hfree
        cases h
        exact ⟨hstart, hfree⟩
      · exact ih ⟨hstart.1.wrap_add (by decide), wrap_lt _⟩ h
    · cases h
      exact absurd rfl ha

lemma vmaGapStart_lt (mm : MmStruct) : vmaGapStart mm < 4294967296 := by
  have h1 := alignUp_lt mm.brk
  have h2 := alignUp_lt mm.endCode
  unfold vmaGapStart
  simp only
  split_ifs <;> omega

/-- The address `do_mmap` settles on is a page boundary with a free range behind it. -/
lemma doMmapAddr_spec {len : Nat} (haddr : addr < 4294967296)
    (h : doMmapAddr mm addr len = some a) (ha : a ≠ 0) :
    (PageAligned a ∧ a < 4294967296) ∧ vmaRangeFree mm.mmap a (wrap (a + len)) = true := by
  unfold doMmapAddr at h
  split at h
  · split at h
    · cases h; exact absurd rfl ha
    · split at h
      · cases h; exact absurd rfl ha
      · rename_i hal
        split at h
        · cases h; exact absurd rfl ha
        · split at h
          · rename_i hfree
            cases h
            exact ⟨⟨not_not.mp hal, haddr⟩, hfree⟩
          · cases h; exact absurd rfl ha
  · unfold vmaFindGap at h
    split at h
    · cases h; exact absurd rfl ha
    · split at h
      · cases h; exact absurd rfl ha
      · exact vmaFindGapFrom_spec ⟨vmaGapStart_pageAligned mm, vmaGapStart_lt mm⟩ h ha

/-- The state after `do_mmap`; a call that never returns leaves the state as it is. -/
def VmaState.mmap (s : VmaState) (addr length prot : Nat) : VmaState :=
  match doMmap s.ctx s.mm addr length prot with
  | none => s
  | some (_, mm, ctx) => ⟨mm, ctx⟩

lemma VmaState.Wf.mmap (h : s.Wf) (haddr : addr < 4294967296) (length prot : Nat) :
    (s.mmap addr length prot).Wf := by
  have key : ∀ r, doMmap s.ctx s.mm addr length prot = some r → VmaState.Wf ⟨r.2.1, r.2.2⟩ := by
    intro r hr
    unfold doMmap at hr
    split at hr
    · cases hr; exact h
    · simp only at hr
      split at hr
      · cases hr; exact h
      · split at hr
        · cases hr; exact h
        · split at hr
          · cases hr
          · rename_i a ha
            split at hr
            · cases hr; exact h
            · rename_i hne
              cases hr
              obtain ⟨hal, hfree⟩ := doMmapAddr_spec haddr ha hne
              obtain ⟨hok, hn, hc⟩ := vmaAdd_wf h.ok h.nodes h.chain (protFlags prot) hal.1
                (hal.1.wrap_add (pageAligned_alignUp length)) fun _ => hfree
              exact ⟨hok, hn, hc⟩
  unfold VmaState.mmap
  split
  · exact h
  · rename_i r hr
    exact key _ hr

/-- A range that passes the argument checks is a non-empty page range. -/
lemma checkedRange_spec (h : checkedRange addr length = some stop) :
    PageAligned addr ∧ PageAligned stop ∧ addr < stop := by
  unfold checkedRange at h
  split_ifs at h with _ _ hal _ hlt
  cases h
  exact ⟨hal, hal.wrap_add (pageAligned_alignUp _), by omega⟩

/-- The state after `do_munmap`, as far as the list is concerned. -/
def VmaState.munmap (s : VmaState) (addr length : Nat) : VmaState :=
  match doMunmapVma s.ctx s.mm addr length with
  | none => s
  | some (mm, ctx) => ⟨mm, ctx⟩

lemma VmaState.Wf.munmap (h : s.Wf) (addr length : Nat) : (s.munmap addr length).Wf := by
  unfold VmaState.munmap doMunmapVma
  cases hr : checkedRange addr length with
  | none => exact h
  | some stop =>
    obtain ⟨haddr, hstop, hlt⟩ := checkedRange_spec hr
    refine ⟨?_, ?_, ?_⟩
    · intro n
      simpa using h.ok n
    · exact (munmapList_nodes addr stop h.nodes).2.1.of_sublist (vmaMergeAdjacent_fuses _).nodes
    · exact (vmaMergeAdjacent_fuses _).chain (h.chain.munmap haddr hstop hlt s.ctx).1

lemma vmaFindCovering_split {v : VmArea} (h : vmaFindCovering l start stop = some v) :
    (v.vmStart ≤ start ∧ stop ≤ v.vmEnd) ∧ ∃ pre post, l = pre ++ v :: post := by
  obtain ⟨hcov, pre, post, hl, _⟩ := List.find?_eq_some_iff_append.mp h
  refine ⟨?_, pre, post, hl⟩
  simpa [VmArea.covers] using hcov

/-- The state after `do_mprotect`, as far as the list is concerned. -/
def VmaState.mprotect (s : VmaState) (addr length prot : Nat) : VmaState :=
  match doMprotectVma s.ctx s.mm addr length prot with
  | none => s
  | some (mm, ctx) => ⟨mm, ctx⟩

lemma VmaState.Wf.mprotect (h : s.Wf) (addr length prot : Nat) :
    (s.mprotect addr length prot).Wf := by
  unfold VmaState.mprotect doMprotectVma
  cases hr : checkedRange addr length with
  | none => exact h
  | some stop =>
    obtain ⟨haddr, hstop, hlt⟩ := checkedRange_spec hr
    simp only
    cases hf : vmaFindCovering s.mm.mmap addr stop with
    | none => exact h
    | some v =>
      obtain ⟨⟨hstart, hend⟩, pre, post, hl⟩ := vmaFindCovering_split hf
      have hn := h.nodes
      have hc := h.chain
      rw [hl] at hn hc
      obtain ⟨hn', hc'⟩ := mprotectList_chain h.ok (protFlags prot) hn hc
        haddr hstop hlt hstart hend
      simp only [hl]
      refine ⟨?_, hn'.of_sublist (vmaMergeAdjacent_fuses _).nodes,
        (vmaMergeAdjacent_fuses _).chain hc'⟩
      intro n
      simpa using h.ok n

/-- The state after `do_mremap`, as far as the list is concerned. -/
def VmaState.mremap (s : VmaState) (addr oldLength newLength : Nat) : VmaState :=
  match doMremapVma s.mm addr oldLength newLength with
  | none => s
  | some (mm, _) => { s with mm := mm }

/-- The end of a checked range is the exact sum, because an overflow is refused. -/
lemma checkedRange_eq (haddr : addr < 4294967296) (h : checkedRange addr length = some stop) :
    stop = addr + alignUp length := by
  unfold checkedRange at h
  split_ifs at h
  cases h
  rcases wrap_add_lt_or haddr (alignUp_lt length) with h' | h' <;> omega

lemma VmaState.Wf.mremap (h : s.Wf) (ha : addr < 4294967296) (oldLength newLength : Nat) :
    (s.mremap addr oldLength newLength).Wf := by
  unfold VmaState.mremap doMremapVma
  cases hold : checkedRange addr oldLength with
  | none => exact h
  | some oldEnd =>
    cases hnew : checkedRange addr newLength with
    | none => exact h
    | some newEnd =>
      obtain ⟨haddr, hoal, hold'⟩ := checkedRange_spec hold
      obtain ⟨_, hnal, hnew'⟩ := checkedRange_spec hnew
      simp only
      cases hf : vmaFindCovering s.mm.mmap addr oldEnd with
      | none => exact h
      | some v =>
        obtain ⟨⟨hstart, hend⟩, pre, post, hl⟩ := vmaFindCovering_split hf
        have hn := h.nodes
        have hc := h.chain
        rw [hl] at hn hc
        have hset := vmaSet_append_cons (f := fun w => { w with vmEnd := newEnd }) hn.nodup
        have hvlt := (cons_iff.mp (append_iff.mp hc).2.1).2.1
        -- all that is needed of the new end is that it stays below the next area
        have key : (∀ w ∈ post, newEnd ≤ w.vmStart) →
            VmaState.Wf ⟨{ s.mm with
              mmap := vmaMergeAdjacent
                (vmaSet v.node (fun w => { w with vmEnd := newEnd }) s.mm.mmap) }, s.ctx⟩ := by
          intro hpost
          have hc' := hc.setEnd hnal (by omega) hpost
          refine ⟨h.ok, ?_, ?_⟩
          · exact (h.nodes.set (f := fun w => { w with vmEnd := newEnd }) v.node
              fun _ => rfl).of_sublist (vmaMergeAdjacent_fuses _).nodes
          · rw [hl, hset]
            exact (vmaMergeAdjacent_fuses _).chain hc'
        split_ifs with h1 h2 h3 h4
        · exact h
        · refine key fun w hw => ?_
          have hw' := hvlt w hw
          have ho := checkedRange_eq ha hold
          have hn := checkedRange_eq ha hnew
          omega
        · exact h
        · refine key fun w hw => ?_
          have hfw := List.all_eq_true.mp h4 w (by simp [hl, hw])
          have hw' := hvlt w hw
          have hwp := (h.chain.pages w (by simp [hl, hw])).2.2
          simp only [Bool.or_eq_true, decide_eq_true_eq] at hfw
          omega
        · exact h

/-- The state after `mm_init_brk`. -/
def VmaState.initBrk (s : VmaState) (heapBase stackBase : Nat) : VmaState :=
  let r := mmInitBrk s.ctx s.mm heapBase stackBase
  ⟨r.1, r.2⟩

/-- `mm_init_brk` asks for an empty area, which `vma_add` refuses: the list stays. -/
lemma VmaState.initBrk_mmap (s : VmaState) (heapBase stackBase : Nat) :
    (s.initBrk heapBase stackBase).mm.mmap = s.mm.mmap ∧
      (s.initBrk heapBase stackBase).ctx = s.ctx := by
  unfold VmaState.initBrk mmInitBrk
  split_ifs
  · exact ⟨rfl, rfl⟩
  · exact ⟨rfl, rfl⟩
  · exact ⟨rfl, rfl⟩
  · simp only
    split
    · exact ⟨rfl, rfl⟩
    · simp [vmaAdd]

lemma VmaState.Wf.initBrk (h : s.Wf) (heapBase stackBase : Nat) :
    (s.initBrk heapBase stackBase).Wf := by
  obtain ⟨hm, hc⟩ := s.initBrk_mmap heapBase stackBase
  exact ⟨by rw [hc]; exact h.ok, by rw [hm, hc]; exact h.nodes, by rw [hm]; exact h.chain⟩

/-- The state after `do_brk`. -/
def VmaState.brk (s : VmaState) (newEnd : Nat) : VmaState :=
  { s with mm := (doBrk s.mm newEnd).2 }

/--
The new end of the heap fits between the start of the heap area and the area
that follows it. Calls that `do_brk` rejects and calls without a heap area move
nothing, so they fit.
-/
def BrkFits (mm : MmStruct) (newEnd : Nat) : Prop :=
  ¬ doBrkRejects mm newEnd → ∀ heap, vmaFindHeap mm = some heap →
    heap.vmStart < alignUp newEnd ∧
      ∀ w ∈ mm.mmap, heap.vmStart < w.vmStart → alignUp newEnd ≤ w.vmStart

lemma vmaFindHeap_split (h : vmaFindHeap mm = some heap) :
    heap.vmStart = mm.startBrk ∧ ∃ pre post, mm.mmap = pre ++ heap :: post := by
  unfold vmaFindHeap at h
  split at h
  · cases h
  · obtain ⟨hp, pre, post, hl, _⟩ := List.find?_eq_some_iff_append.mp h
    refine ⟨?_, pre, post, hl⟩
    simp only [VmArea.isHeap, Bool.and_eq_true, decide_eq_true_eq] at hp
    exact hp.1.1

/-- An accepted request is below `TASK_SIZE`, so its rounding does not overflow. -/
lemma brkEnd_of_accepted (hr : ¬ doBrkRejects mm newEnd) (hh : heap.vmStart = mm.startBrk) :
    brkEnd heap newEnd = alignUp newEnd := by
  unfold doBrkRejects at hr
  have hlt : newEnd < taskSize := by
    by_contra hge
    exact hr (by omega)
  have hup := (alignUp_eq (v := newEnd) (by unfold taskSize at hlt; omega)).1
  unfold brkEnd
  rw [if_neg (by omega)]

/-- `do_brk` keeps a well-formed list well formed exactly when the new end fits. -/
lemma doBrk_vmaInv_iff (hn : NodesOk c mm.mmap) (h : VmaInv mm.mmap) (newEnd : Nat) :
    VmaInv (doBrk mm newEnd).2.mmap ↔ BrkFits mm newEnd := by
  rw [vmaInv_iff_vmaChain] at h ⊢
  unfold doBrk BrkFits
  split
  · rename_i hr
    exact ⟨fun _ hn => absurd hr hn, fun _ => h⟩
  · rename_i hr
    have hfind : vmaFindHeap { mm with brk := newEnd } = vmaFindHeap mm := rfl
    simp only [hfind]
    cases hf : vmaFindHeap mm with
    | none => simpa [hr] using h
    | some heap =>
      obtain ⟨hstart, pre, post, hl⟩ := vmaFindHeap_split hf
      rw [hl] at h hn
      have hset := vmaSet_append_cons (f := fun w => { w with vmEnd := brkEnd heap newEnd })
        hn.nodup
      obtain ⟨hpre, hvpost, hsep⟩ := append_iff.mp h
      obtain ⟨hv, hvlt, _⟩ := cons_iff.mp hvpost
      simp only [hl, hset]
      rw [brkEnd_of_accepted hr hstart]
      constructor
      · intro hc _ heap' heq
        cases heq
        obtain ⟨_, hc', _⟩ := append_iff.mp hc
        obtain ⟨hv', hpost', _⟩ := cons_iff.mp hc'
        refine ⟨hv'.2.2, ?_⟩
        intro w hw hlt
        rcases List.mem_append.mp hw with hw | hw
        · have h1 := hsep w hw heap (by simp)
          have h2 := (hpre.pages w hw).2.2
          omega
        · rcases List.mem_cons.mp hw with rfl | hw
          · omega
          · exact hpost' w hw
      · intro hfit
        obtain ⟨hlt, hpost⟩ := hfit hr heap rfl
        refine h.setEnd (pageAligned_alignUp _) hlt ?_
        intro w hw
        have h1 := hvlt w hw
        exact hpost w (by simp [hw]) (by omega)

lemma VmaState.Wf.brk (h : s.Wf) (hfit : BrkFits s.mm newEnd) : (s.brk newEnd).Wf := by
  refine ⟨h.ok, ?_, ?_⟩
  · unfold VmaState.brk doBrk
    split
    · exact h.nodes
    · simp only
      split
      · exact h.nodes
      · rename_i heap _
        exact h.nodes.set (f := fun w => { w with vmEnd := brkEnd heap newEnd }) _ fun _ => rfl
  · have hinv := (doBrk_vmaInv_iff h.nodes (vmaInv_iff_vmaChain.mpr h.chain) newEnd).mpr hfit
    exact vmaInv_iff_vmaChain.mp hinv

/-! ## Runs -/

/-- The six calls, with the 32-bit arguments they take. -/
inductive VmaOp where
  | mmap (addr length prot : UInt32)
  | munmap (addr length : UInt32)
  | mprotect (addr length prot : UInt32)
  | mremap (addr oldLength newLength : UInt32)
  | initBrk (heapBase stackBase : UInt32)
  | brk (newEnd : UInt32)

/-- The effect of one call on the VMA list. -/
def vmaStep (s : VmaState) : VmaOp → VmaState
  | .mmap addr length prot => s.mmap addr.toNat length.toNat prot.toNat
  | .munmap addr length => s.munmap addr.toNat length.toNat
  | .mprotect addr length prot => s.mprotect addr.toNat length.toNat prot.toNat
  | .mremap addr old new => s.mremap addr.toNat old.toNat new.toNat
  | .initBrk heapBase stackBase => s.initBrk heapBase.toNat stackBase.toNat
  | .brk newEnd => s.brk newEnd.toNat

/-- The condition on a step: a `do_brk` fits, and nothing is asked of the other calls. -/
def VmaStepFits (s : VmaState) : VmaOp → Prop
  | .brk newEnd => BrkFits s.mm newEnd.toNat
  | _ => True

lemma VmaState.Wf.step (h : s.Wf) (op : VmaOp) (hfit : VmaStepFits s op) : (vmaStep s op).Wf := by
  cases op with
  | mmap addr length prot => exact h.mmap addr.toNat_lt _ _
  | munmap addr length => exact h.munmap _ _
  | mprotect addr length prot => exact h.mprotect _ _ _
  | mremap addr old new => exact h.mremap addr.toNat_lt _ _
  | initBrk heapBase stackBase => exact h.initBrk _ _
  | brk newEnd => exact h.brk hfit

lemma VmaState.Wf.vmaInv (h : s.Wf) : VmaInv s.mm.mmap :=
  vmaInv_iff_vmaChain.mpr h.chain

/-- A step from a well-formed list to one with the list invariant fits. -/
lemma VmaState.Wf.fits_of_vmaInv (h : s.Wf) (op : VmaOp) (hinv : VmaInv (vmaStep s op).mm.mmap) :
    VmaStepFits s op := by
  cases op with
  | brk newEnd => exact (doBrk_vmaInv_iff h.nodes h.vmaInv _).mp hinv
  | _ => trivial

/--
Start from a sorted list of disjoint, non-empty page ranges, with memory for
every new node. A run of the six calls goes through such lists only exactly when
each of its `do_brk` calls fits.
-/
theorem vmaInv_run_iff {s : VmaState} (hok : ∀ n, s.ctx.heap.ok n = true)
    (hnodes : NodesOk s.ctx s.mm.mmap) (hinv : VmaInv s.mm.mmap) (ops : List VmaOp) :
    (∀ n, VmaInv (run vmaStep s (ops.take n)).mm.mmap) ↔ RunOk vmaStep VmaStepFits s ops := by
  have hwf : s.Wf := ⟨hok, hnodes, vmaInv_iff_vmaChain.mp hinv⟩
  constructor
  · exact runOk_of_forall_take VmaState.Wf (fun s => VmaInv s.mm.mmap)
      (fun _ op h hf => h.step op hf) (fun _ op h hi => h.fits_of_vmaInv op hi) hwf
  · intro hfits n
    exact (run_invariant VmaState.Wf (fun _ op h hf => h.step op hf) hwf (hfits.take n)).vmaInv

/-- A process without areas, a stack at `USER_STACK_BASE` and a heap that never runs out. -/
def emptyVmaState : VmaState where
  mm := { pgd := 0, startCode := 0, endCode := 0, startStack := 0xBFFF8000,
          startBrk := 0, brk := 0, mmap := [] }
  ctx := { heap := { next := 0, ok := fun _ => true }, nextAnonVmaId := 1 }

lemma emptyVmaState_ok : ∀ n, emptyVmaState.ctx.heap.ok n = true :=
  fun _ => rfl

lemma emptyVmaState_nodes : NodesOk emptyVmaState.ctx emptyVmaState.mm.mmap :=
  ⟨by decide, by simp [emptyVmaState]⟩

lemma emptyVmaState_inv : VmaInv emptyVmaState.mm.mmap :=
  vmaInv_iff_vmaChain.mpr nil

/-- A heap page is mapped at `start_brk`, and `do_brk` extends it by a second page. -/
def heapGrowth : List VmaOp :=
  [.initBrk 0x10000 0xBFFF8000, .mmap 0x10000 0x1000 3, .brk 0x12000]

theorem heapGrowth_vmaInv :
    RunOk vmaStep VmaStepFits emptyVmaState heapGrowth ∧
      ∀ n, VmaInv (run vmaStep emptyVmaState (heapGrowth.take n)).mm.mmap := by
  have hmm : (run vmaStep emptyVmaState (heapGrowth.take 2)).mm =
      { pgd := 0, startCode := 0, endCode := 0, startStack := 0xBFFF8000, startBrk := 0x10000,
        brk := 0x10000, mmap := [⟨0, 0x10000, 0x11000, VmFlags.rw, 1⟩] } := by
    decide
  have hfit : BrkFits (run vmaStep emptyVmaState (heapGrowth.take 2)).mm 0x12000 := by
    rw [hmm]
    intro _ heap hheap
    obtain rfl : heap = ⟨0, 0x10000, 0x11000, VmFlags.rw, 1⟩ :=
      Option.some.inj (hheap.symm.trans (by decide))
    exact ⟨by decide, by simp⟩
  have hfits : RunOk vmaStep VmaStepFits emptyVmaState heapGrowth :=
    ⟨trivial, trivial, hfit, trivial⟩
  exact ⟨hfits, (vmaInv_run_iff emptyVmaState_ok emptyVmaState_nodes emptyVmaState_inv _).mpr hfits⟩

/-- The heap grows over an area mapped two pages above `start_brk`. -/
def heapOverrun : List VmaOp :=
  [.initBrk 0x10000 0xBFFF8000, .mmap 0x10000 0x1000 3, .mmap 0x12000 0x1000 1, .brk 0x13000]

theorem heapOverrun_not_vmaInv :
    (∀ n, emptyVmaState.ctx.heap.ok n = true) ∧
      NodesOk emptyVmaState.ctx emptyVmaState.mm.mmap ∧
      VmaInv emptyVmaState.mm.mmap ∧
      ¬ VmaInv (run vmaStep emptyVmaState heapOverrun).mm.mmap := by
  refine ⟨emptyVmaState_ok, emptyVmaState_nodes, emptyVmaState_inv, ?_⟩
  have hval : (run vmaStep emptyVmaState heapOverrun).mm.mmap =
      [⟨0, 0x10000, 0x13000, VmFlags.rw, 1⟩, ⟨1, 0x12000, 0x13000, ⟨true, false, false⟩, 2⟩] := by
    decide +kernel
  intro h
  rw [hval] at h
  have hd := h.disjoint
  simp at hd

end LiteKernel.Mm
