import LiteKernel.Mm.Mmap
import LiteKernel.Mm.MmapPlacement

/-!
# The heap

`mm_init_brk` asks `vma_add` for an empty area, which `vma_add` refuses, so a process starts
without a heap area. `do_brk` moves the end of whatever readable and writable area starts at
`start_brk`; it neither looks at the area behind nor at the pages it cuts off.

Main results:

- Theorem `brk_run_iff`: the runs in which every call serves.
- Theorem `heapVm_not_serves`: pages that are cut off and stay mapped.
-/

namespace LiteKernel.Mm

open Lib List Option

/-- The area an address belongs to, as `vma_allows` and the fault handler find it. -/
def vmaOwner (l : List VmArea) (x : Nat) : Option VmArea :=
  l.find? fun v => v.contains x

/-- The address lies in an area that is readable and writable. -/
def ReadWriteAt (l : List VmArea) (x : Nat) : Prop :=
  ∃ v ∈ l, v.contains x = true ∧ v.vmFlags.read = true ∧ v.vmFlags.write = true

namespace Vm

/-- `mm_init_brk` for the `mm_struct` `m`. -/
def initBrk (s : Vm) (m heapBase stackBase : Nat) : Vm :=
  s.putVma m (mmInitBrk s.ctx (s.mm m) heapBase stackBase).1
    (mmInitBrk s.ctx (s.mm m) heapBase stackBase).2

/-- What a program expects of a call of `do_brk`. -/
structure BrkServes (s : Vm) (m newEnd : Nat) : Prop where
  usable : (s.doBrk m newEnd).1 = newEnd → (s.mm m).startBrk < newEnd →
    ∀ x, (s.mm m).startBrk ≤ x → x < pageCeil newEnd →
      ReadWriteAt ((s.doBrk m newEnd).2.mm m).mmap x
  owners : ∀ x v, vmaOwner (s.mm m).mmap x = some v →
    (∀ heap, vmaFindHeap (s.mm m) = some heap → v.node ≠ heap.node) →
    vmaOwner ((s.doBrk m newEnd).2.mm m).mmap x = some v
  released : (s.doBrk m newEnd).1 = newEnd → newEnd < (s.mm m).brk →
    ∀ heap, vmaFindHeap (s.mm m) = some heap → ∀ p, pageCeil newEnd ≤ p * pageSize →
    p * pageSize < heap.vmEnd →
      (s.doBrk m newEnd).2.pte (s.mm m).pgd p = Pte.zero ∧
      ((s.pte (s.mm m).pgd p).present = true →
        ((s.doBrk m newEnd).2.page (s.pte (s.mm m).pgd p).pfn).refcount + 1 =
          (s.page (s.pte (s.mm m).pgd p).pfn).refcount)

/--
The condition on a call that `do_brk` accepts: the heap has an area, or other areas stand in for
it; the first area with an address behind the heap area does not follow it in the list; and no
page is mapped where the heap is cut off.
-/
structure BrkFree (s : Vm) (m newEnd : Nat) : Prop where
  area : (s.mm m).startBrk < newEnd → (vmaFindHeap (s.mm m)).isSome = true ∨
    ∀ x, (s.mm m).startBrk ≤ x → x < pageCeil newEnd → ReadWriteAt (s.mm m).mmap x
  room : ∀ heap, vmaFindHeap (s.mm m) = some heap → ∀ x, (s.mm m).startBrk ≤ x →
    heap.vmEnd ≤ x → x < pageCeil newEnd → ∀ v, vmaOwner (s.mm m).mmap x = some v →
      v ∈ (s.mm m).mmap.takeWhile fun w => !w.isHeap (s.mm m).startBrk
  noPage : newEnd < (s.mm m).brk → ∀ heap, vmaFindHeap (s.mm m) = some heap → ∀ p,
    pageCeil newEnd ≤ p * pageSize → p * pageSize < heap.vmEnd →
      s.pte (s.mm m).pgd p = Pte.zero

/-- What `do_brk` keeps of the `mm_struct` of a process. -/
structure BrkReady (s : Vm) (m : Nat) : Prop where
  nodes : ((s.mm m).mmap.map VmArea.node).Nodup
  start : (s.mm m).startBrk ≠ 0
  brk : (s.mm m).brk = (s.mm m).startBrk ∨ ¬ doBrkRejects (s.mm m) (s.mm m).brk

section Call

variable {s : Vm} {m newEnd : Nat}

@[simp] lemma doBrk_mm (s : Vm) (m newEnd : Nat) :
    (s.doBrk m newEnd).2.mm m = (Mm.doBrk (s.mm m) newEnd).2 := by
  simp [doBrk, putVma]

lemma doBrk_of_rejects (h : doBrkRejects (s.mm m) newEnd) :
    (s.doBrk m newEnd).2.mm m = s.mm m := by
  simp [Mm.doBrk, h]

lemma doBrk_of_accepted (h : ¬ doBrkRejects (s.mm m) newEnd) :
    (s.doBrk m newEnd).1 = newEnd ∧ ((s.doBrk m newEnd).2.mm m).brk = newEnd ∧
      ((s.doBrk m newEnd).2.mm m).startBrk = (s.mm m).startBrk ∧
      ((s.doBrk m newEnd).2.mm m).startStack = (s.mm m).startStack ∧
      ((s.doBrk m newEnd).2.mm m).mmap = match vmaFindHeap (s.mm m) with
        | none => (s.mm m).mmap
        | some heap =>
          vmaSet heap.node (fun w => { w with vmEnd := pageCeil newEnd }) (s.mm m).mmap := by
  have hfind : vmaFindHeap { s.mm m with brk := newEnd } = vmaFindHeap (s.mm m) := rfl
  have hceil : alignUp newEnd = pageCeil newEnd := by
    refine alignUp_eq_pageCeil ?_
    unfold doBrkRejects taskSize at h
    unfold pageCeil
    omega
  rw [doBrk_mm]
  simp only [doBrk, Mm.doBrk, if_neg h, hfind]
  cases hf : vmaFindHeap (s.mm m) with
  | none => simp
  | some heap =>
    have hend := brkEnd_of_accepted h (vmaFindHeap_split hf).1
    simp [hend, hceil]

lemma BrkReady.step (h : s.BrkReady m) (newEnd : Nat) : (s.doBrk m newEnd).2.BrkReady m := by
  by_cases hr : doBrkRejects (s.mm m) newEnd
  · have hmm := doBrk_of_rejects hr
    exact ⟨by rw [hmm]; exact h.nodes, by rw [hmm]; exact h.start, by rw [hmm]; exact h.brk⟩
  · obtain ⟨-, hbrk, hstart, hstack, hmmap⟩ := doBrk_of_accepted hr
    refine ⟨?_, by rw [hstart]; exact h.start, Or.inr ?_⟩
    · rw [hmmap]
      cases vmaFindHeap (s.mm m) with
      | none => exact h.nodes
      | some heap =>
        rw [vmaSet_nodes heap.node _ (f := fun w => { w with vmEnd := pageCeil newEnd }) fun _ => rfl]
        exact h.nodes
    · unfold doBrkRejects at hr ⊢
      rwa [hstart, hstack, hbrk]

lemma vmaOwner_eq_some {l : List VmArea} {x : Nat} {v : VmArea} (h : vmaOwner l x = some v) :
    v ∈ l ∧ v.contains x = true :=
  ⟨mem_of_find?_eq_some h, @List.find?_some _ (fun w : VmArea => w.contains x) _ _ h⟩

lemma vmaOwner_append_cons (pre post : List VmArea) (v : VmArea) (x : Nat) :
    vmaOwner (pre ++ v :: post) x =
      (vmaOwner pre x).or (if v.contains x then some v else vmaOwner post x) := by
  unfold vmaOwner
  rw [List.find?_append, List.find?_cons]
  cases v.contains x <;> rfl

/-- The heap area splits the list; no area before it could be taken for the heap. -/
lemma vmaFindHeap_append {mm : MmStruct} {heap : VmArea} (h : vmaFindHeap mm = some heap) :
    heap.vmStart = mm.startBrk ∧ heap.vmFlags.read = true ∧ heap.vmFlags.write = true ∧
      ∃ post, mm.mmap = (mm.mmap.takeWhile fun w => !w.isHeap mm.startBrk) ++ heap :: post := by
  unfold vmaFindHeap at h
  split at h
  · cases h
  · obtain ⟨hp, pre, post, hl, hpre⟩ := List.find?_eq_some_iff_append.mp h
    have htake : mm.mmap.takeWhile (fun w => !w.isHeap mm.startBrk) = pre := by
      rw [hl, takeWhile_append_of_pos (by simpa using hpre)]
      simp [hp]
    simp only [VmArea.isHeap, Bool.and_eq_true, decide_eq_true_eq] at hp
    exact ⟨hp.1.1, hp.1.2, hp.2, post, by rw [htake, hl]⟩

/-- A call serves the program exactly when it is rejected or the condition is met. -/
lemma brkServes_iff (h : s.BrkReady m) :
    s.BrkServes m newEnd ↔ (¬ doBrkRejects (s.mm m) newEnd → s.BrkFree m newEnd) := by
  by_cases hr : doBrkRejects (s.mm m) newEnd
  · -- a rejected call leaves the list alone and returns the old end
    have hret : (s.doBrk m newEnd).1 = (s.mm m).brk := by
      simp [doBrk, Mm.doBrk, hr, h.start]
    refine iff_of_true ⟨fun heq hlt => ?_, fun x v hx _ => ?_, fun heq hlt => ?_⟩
      fun hn => absurd hr hn
    · rcases h.brk with hb | hb
      · omega
      · rw [← hret, heq] at hb
        exact absurd hr hb
    · rw [doBrk_of_rejects hr]
      exact hx
    · omega
  obtain ⟨hret, -, -, -, hmmap⟩ := doBrk_of_accepted hr
  have hpte : ∀ p, (s.doBrk m newEnd).2.pte (s.mm m).pgd p = s.pte (s.mm m).pgd p := fun _ => rfl
  cases hf : vmaFindHeap (s.mm m) with
  | none =>
    rw [hf] at hmmap
    simp only at hmmap
    constructor
    · intro hs _
      refine ⟨fun hlt => .inr ?_, fun heap hh => ?_, fun _ heap hh => ?_⟩
      · rw [← hmmap]
        exact hs.usable hret hlt
      · rw [hf] at hh
        cases hh
      · rw [hf] at hh
        cases hh
    · intro hs
      refine ⟨fun _ hlt => ?_, fun x v hx _ => ?_, fun _ _ heap hh => ?_⟩
      · rw [hmmap]
        exact ((hs hr).area hlt).resolve_left (by simp [hf])
      · rwa [hmmap]
      · rw [hf] at hh
        cases hh
  | some heap =>
    obtain ⟨hstart, hread, hwrite, post, hl⟩ := vmaFindHeap_append hf
    set pre := (s.mm m).mmap.takeWhile fun w => !w.isHeap (s.mm m).startBrk with hpre
    rw [hf] at hmmap
    simp only at hmmap
    have hn := h.nodes
    have hnode := hn
    rw [hl] at hn hnode
    rw [hl, vmaSet_append_cons hn] at hmmap
    simp only [map_append, map_cons, nodup_append, nodup_cons] at hnode
    obtain ⟨-, ⟨hpost, -⟩, hpreheap⟩ := hnode
    constructor
    · intro hs _
      refine ⟨fun _ => .inl (by simp [hf]), fun heap' hh x hlow hend hhigh v hv => ?_,
        fun hlt heap' hh p hp hp' => ?_⟩
      · obtain rfl : heap = heap' := some.inj (hf.symm.trans hh)
        have hxheap : heap.contains x = false := by
          rw [Bool.eq_false_iff, ne_eq, contains_iff]
          omega
        rw [hl, vmaOwner_append_cons, hxheap] at hv
        by_contra hnot
        have hpx : vmaOwner pre x = none := by
          cases hpx : vmaOwner pre x with
          | none => rfl
          | some w =>
            rw [hpx] at hv
            cases hv
            exact absurd (mem_of_find?_eq_some hpx) hnot
        have hvpost : vmaOwner post x = some v := by simpa [hpx] using hv
        have hvnode : v.node ≠ heap.node := fun heq =>
          hpost (heq ▸ mem_map_of_mem (mem_of_find?_eq_some hvpost))
        -- the address now belongs to the heap area
        have hafter := hs.owners x v (by rw [hl, vmaOwner_append_cons, hxheap]; exact hv)
          fun heap' hh' => by
            obtain rfl : heap = heap' := some.inj (hf.symm.trans hh')
            exact hvnode
        rw [hmmap, vmaOwner_append_cons, hpx, if_pos (by simp only [contains_iff]; omega)] at hafter
        exact hvnode (by rw [← some.inj hafter])
      · exact (hpte p).symm.trans (hs.released hret hlt heap' hh p hp hp').1
    · intro hs
      have hs := hs hr
      refine ⟨fun _ _ x hlow hhigh => ?_, fun x v hx hv => ?_, fun _ hlt heap' hh p hp hp' => ?_⟩
      · rw [hmmap]
        exact ⟨{ heap with vmEnd := pageCeil newEnd }, by simp,
          by simp only [contains_iff]; omega, hread, hwrite⟩
      · have hne : v.node ≠ heap.node := hv heap hf
        have hroom := hs.room heap hf x
        rw [hx] at hroom
        rw [hl, vmaOwner_append_cons] at hx
        rw [hmmap, vmaOwner_append_cons]
        cases hpx : vmaOwner pre x with
        | some w => rwa [hpx] at hx
        | none =>
          rw [hpx] at hx
          split_ifs at hx with hxheap
          · exact absurd (by rw [← some.inj hx]) hne
          · rw [if_neg, hx]
            -- otherwise the owner stands before the heap area
            intro hin
            rw [contains_iff] at hxheap hin
            simp only at hin
            have hvpre := hroom (by omega) (by omega) (by omega) v rfl
            have hnone := List.find?_eq_none.mp hpx v hvpre
            exact hnone (vmaOwner_eq_some hx).2
      · have hzero := hs.noPage hlt heap' hh p hp hp'
        exact ⟨hzero, fun hpresent => by rw [hzero] at hpresent; cases hpresent⟩

end Call

/-- `mm_init_brk` accepts the base of the heap. -/
def InitAccepts (heapBase stackBase : Nat) : Prop :=
  0x1000 ≤ heapBase ∧ heapBase < taskSize ∧
    (stackBase ≠ 0 → wrap (heapBase + 0x1000) < stackBase)

lemma brkReady_initBrk {s : Vm} {m heapBase stackBase : Nat}
    (hn : ((s.mm m).mmap.map VmArea.node).Nodup) (h : InitAccepts heapBase stackBase) :
    (s.initBrk m heapBase stackBase).BrkReady m ∧
      ((s.initBrk m heapBase stackBase).mm m).startBrk = heapBase := by
  obtain ⟨hlow, hhigh, hstack⟩ := h
  have hmm : (s.initBrk m heapBase stackBase).mm m =
      { s.mm m with startBrk := heapBase, brk := heapBase } := by
    unfold initBrk putVma mmInitBrk
    rw [if_neg (by omega), if_neg (by omega), if_neg (by omega)]
    simp only [Function.update_self]
    split
    · rfl
    · simp [vmaAdd]
  have hne : heapBase ≠ 0 := by omega
  exact ⟨⟨by rw [hmm]; exact hn, by rw [hmm]; exact hne, by simp [hmm]⟩, by rw [hmm]⟩

/--
After `mm_init_brk` has set up the heap, the calls of a sequence of `do_brk` serve the program
exactly when each accepted one meets the condition in the state it starts from.
-/
theorem brk_run_iff {s : Vm} {m : Nat} (hn : ((s.mm m).mmap.map VmArea.node).Nodup)
    {heapBase stackBase : UInt32} (h : InitAccepts heapBase.toNat stackBase.toNat)
    (ends : List UInt32) :
    RunOk (fun s e => (doBrk s m e.toNat).2) (fun s e => BrkServes s m e.toNat)
        (s.initBrk m heapBase.toNat stackBase.toNat) ends ↔
      RunOk (fun s e => (doBrk s m e.toNat).2)
        (fun s e => ¬ doBrkRejects (s.mm m) e.toNat → BrkFree s m e.toNat)
        (s.initBrk m heapBase.toNat stackBase.toNat) ends :=
  runOk_congr (fun s => s.BrkReady m) (fun _ e hs => hs.step e.toNat)
    (fun _ _ hs => brkServes_iff hs) (brkReady_initBrk hn h).1

/-- A machine without mapped pages whose process has these areas. -/
def heapVm (l : List VmArea) : Vm where
  page := fun _ => ⟨0, 0, none, 0, []⟩
  free := fun _ => true
  dir := fun _ _ => Pte.zero
  table := fun _ _ => Pte.zero
  data := fun _ _ => 0
  slot := fun _ => none
  live := ∅
  mm := fun _ => { emptyVmaState.mm with mmap := l }
  kernelDir := 0
  pageDirectory := 0
  ctx := emptyVmaState.ctx
  calls := 0
  failures := 0
  env := ⟨fun _ => none, fun _ => .done, fun _ => .done⟩

/-- A heap page at `start_brk` and nothing behind it: the heap grows and shrinks. -/
theorem heapVm_serves :
    InitAccepts 0x10000 0xBFFF8000 ∧
      RunOk (fun s (e : UInt32) => (doBrk s 0 e.toNat).2) (fun s e => BrkServes s 0 e.toNat)
        ((heapVm [⟨0, 0x10000, 0x11000, VmFlags.rw, 1⟩]).initBrk 0 0x10000 0xBFFF8000)
        [0x12000, 0x10000] := by
  have hacc : InitAccepts 0x10000 0xBFFF8000 := by unfold InitAccepts; decide
  have hacc' : InitAccepts (0x10000 : UInt32).toNat (0xBFFF8000 : UInt32).toNat := hacc
  refine ⟨hacc, (brk_run_iff (by decide) hacc' _).mpr
    ⟨fun _ => ⟨fun _ => .inl (by decide), ?_, fun hlt => absurd hlt (by decide)⟩,
      fun _ => ⟨fun _ => .inl (by decide), ?_, fun _ heap _ p _ _ => rfl⟩, trivial⟩⟩
  · -- no area has an address behind the heap page
    intro heap hheap x _ hend _ v hv
    obtain rfl : heap = ⟨0, 0x10000, 0x11000, VmFlags.rw, 1⟩ :=
      some.inj (hheap.symm.trans (by decide))
    obtain ⟨hmem, hin⟩ := vmaOwner_eq_some hv
    obtain rfl : v = ⟨0, 0x10000, 0x11000, VmFlags.rw, 1⟩ := mem_singleton.mp hmem
    simp only [contains_iff] at hin hend
    omega
  · intro heap hheap x _ hend hhigh
    obtain rfl : heap = ⟨0, 0x10000, 0x12000, VmFlags.rw, 1⟩ :=
      some.inj (hheap.symm.trans (by decide +kernel))
    have hceil : pageCeil (0x10000 : UInt32).toNat = 0x10000 := by decide
    simp only at hend
    omega

/-- Without a heap area `do_brk` reports a heap that is not there. -/
theorem heapVm_not_serves :
    InitAccepts 0x10000 0xBFFF8000 ∧
      ¬ BrkServes ((heapVm []).initBrk 0 0x10000 0xBFFF8000) 0 0x12000 := by
  refine ⟨by unfold InitAccepts; decide, fun h => ?_⟩
  obtain ⟨v, hv, -⟩ := h.usable (by decide) (by decide) 0x10000 (by decide) (by decide)
  have hempty : ((((heapVm []).initBrk 0 0x10000 0xBFFF8000).doBrk 0 0x12000).2.mm 0).mmap = [] := by
    decide
  rw [hempty] at hv
  cases hv

end Vm

end LiteKernel.Mm
