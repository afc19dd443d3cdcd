import LiteKernel.Mm.MmapPlacement

/-!
# What the memory calls do to each address

`do_munmap`, `do_mprotect` and `do_mremap` cut, split and merge list nodes in place. None of them
looks at a failed allocation, and `do_mremap` moves the end of the area it finds, even if that
area goes on behind the range that is resized.

Main results:

- Theorem `munmap_mprotect_pointwise`: with memory for the nodes they split off, the first two do
  to each address what their names say.
- Theorem `mremap_tail_iff`: when a resized range is an end of its area.
- Theorem `vma_calls_atomic_iff`: when a failed call changes nothing.
-/

namespace LiteKernel.Mm

open Lib List

/-- A list of areas in order of address, of which no two have an address in common. -/
structure VmaOrdered (l : List VmArea) : Prop where
  intervals : Intervals l
  sorted : l.Pairwise fun a b => a.vmStart ≤ b.vmStart
  apart : Apart l

/-- The arguments of a call are not a non-empty range of pages above the first one. -/
def Malformed (addr length : Nat) : Prop :=
  length = 0 ∨ addr < 0x1000 ∨ ¬ PageAligned addr ∨ 4294967296 ≤ addr + pageCeil length

instance (addr length : Nat) : Decidable (Malformed addr length) :=
  inferInstanceAs (Decidable (_ ∨ _ ∨ _ ∨ _))

/-- The second list is the first one without the addresses of the range. -/
def Unmaps (l l' : List VmArea) (start stop : Nat) : Prop :=
  ∀ x f, FlagsAt l' x f ↔ FlagsAt l x f ∧ ¬ (start ≤ x ∧ x < stop)

/-- The addresses of the range have the flags, and the others are as before. -/
def Protects (l l' : List VmArea) (start stop : Nat) (flags : VmFlags) : Prop :=
  ∀ x f, FlagsAt l' x f ↔
    if start ≤ x ∧ x < stop then f = flags else FlagsAt l x f

section Ranges

variable {l : List VmArea} {v : VmArea} {addr length x : Nat} {f : VmFlags}
variable {stop : Nat}

lemma checkedRange_iff (haddr : addr < 4294967296) (hlength : length < 4294967296) :
    checkedRange addr length =
      if Malformed addr length then none else some (addr + pageCeil length) := by
  have hceil : pageCeil length = 0 ↔ length = 0 := by
    unfold pageCeil
    omega
  unfold checkedRange Malformed
  by_cases hword : pageCeil length < 4294967296
  · rw [alignUp_eq_pageCeil hword]
    by_cases hover : 4294967296 ≤ addr + pageCeil length
    · have hwrap : wrap (addr + pageCeil length) ≤ addr := by
        unfold wrap
        omega
      simp [hover, hwrap]
    · have hwrap : wrap (addr + pageCeil length) = addr + pageCeil length := wrap_of_lt (by omega)
      rw [hwrap]
      grind
  · rw [alignUp_eq_zero hlength (by omega)]
    have hover : 4294967296 ≤ addr + pageCeil length := by omega
    simp [hover]

lemma Apart.eq (h : Apart l) {a b : VmArea} (ha : a ∈ l) (hb : b ∈ l)
    (hax : a.contains x = true) (hbx : b.contains x = true) : a = b := by
  induction h with
  | nil => cases ha
  | @cons c l hc _ ih =>
    rcases mem_cons.mp ha with rfl | ha'
    · rcases mem_cons.mp hb with rfl | hb'
      · rfl
      · exact absurd ⟨hax, hbx⟩ (hc b hb' x)
    · rcases mem_cons.mp hb with rfl | hb'
      · exact absurd ⟨hbx, hax⟩ (hc a ha' x)
      · exact ih ha' hb'

lemma Apart.eq_of_covers (h : Apart l) {w : VmArea} (hv : v ∈ l) (hw : w ∈ l) (hlt : addr < stop)
    (hvr : v.vmStart ≤ addr ∧ stop ≤ v.vmEnd) (hwr : w.vmStart ≤ addr ∧ stop ≤ w.vmEnd) :
    w = v := by
  refine h.eq hw hv (x := addr) ?_ ?_
  · simp only [contains_iff]
    omega
  · simp only [contains_iff]
    omega

lemma Apart.not_flagsAt_others (h : Apart l) (hv : v ∈ l) (hx : v.contains x = true) :
    ¬ FlagsAt (l.filter (·.node ≠ v.node)) x f := by
  rintro ⟨w, hw, hwx, -⟩
  obtain ⟨hwl, hne⟩ := mem_filter.mp hw
  exact of_decide_eq_true hne (congrArg VmArea.node (h.eq hwl hv hwx hx))

lemma flagsAt_iff_of_mem (h : (l.map VmArea.node).Nodup) (hv : v ∈ l) :
    FlagsAt l x f ↔ (v.contains x = true ∧ v.vmFlags = f) ∨
      FlagsAt (l.filter (·.node ≠ v.node)) x f := by
  have hset : vmaSet v.node id l = l := by simp [vmaSet]
  have hflags := flagsAt_vmaSet (x := x) (f := f) (g := id) h hv
  rwa [hset] at hflags

lemma vmaFindCovering_eq_none :
    vmaFindCovering l addr stop = none ↔ ¬ ∃ v ∈ l, v.vmStart ≤ addr ∧ stop ≤ v.vmEnd := by
  simp [vmaFindCovering, VmArea.covers]

end Ranges

/-! ## Unmapping and protection -/

section

variable {c : VmaCtx} {mm : MmStruct} {addr length : Nat}

lemma lt_add_pageCeil (hr : ¬ Malformed addr length) : addr < addr + pageCeil length := by
  unfold Malformed at hr
  unfold pageCeil
  omega

section

variable (haddr : addr < 4294967296) (hlength : length < 4294967296)
variable (hr : ¬ Malformed addr length)
include haddr hlength hr

/-- `do_munmap` of a range needs memory if an area goes on at both ends. -/
lemma doMunmapVma_unmaps_iff (h : VmaOrdered mm.mmap) :
    ∃ mm' c', doMunmapVma c mm addr length = some (mm', c') ∧
      (Unmaps mm.mmap mm'.mmap addr (addr + pageCeil length) ↔
        ((∃ v ∈ mm.mmap, v.vmStart < addr ∧ addr + pageCeil length < v.vmEnd) →
          c.heap.ok c.heap.next = true)) := by
  have hlt := lt_add_pageCeil hr
  have hflags := fun x f => flagsAt_munmapList (x := x) (f := f) hlt h.apart c
  rw [doMunmapVma, checkedRange_iff haddr hlength, if_neg hr]
  refine ⟨_, _, rfl, ?_⟩
  have hintervals : Intervals (munmapList addr (addr + pageCeil length) c mm.mmap).1 :=
    intervals_munmapList h.intervals c
  have hmerged := fun x f => (vmaMergeAdjacent_fuses _).flagsAt (x := x) (f := f) hintervals
  simp only [Unmaps, hmerged, hflags, contains_iff]
  constructor
  · rintro hall ⟨v, hv, hlow, hhigh⟩
    have hat : FlagsAt mm.mmap (addr + pageCeil length) v.vmFlags :=
      ⟨v, hv, by simp only [contains_iff]; omega, rfl⟩
    exact ((hall _ _).mpr ⟨hat, by omega⟩).2.2 le_rfl ⟨v, hv, by omega, hlow⟩
  · intro hok x f
    refine and_congr_right fun _ => and_iff_left ?_
    rintro hx ⟨v, hv, hvx, hlow⟩
    exact hok ⟨v, hv, hlow, by omega⟩

lemma doMprotectVma_of_not_covered (prot : Nat)
    (hcov : ¬ ∃ v ∈ mm.mmap, v.vmStart ≤ addr ∧ addr + pageCeil length ≤ v.vmEnd) :
    doMprotectVma c mm addr length prot = none := by
  rw [doMprotectVma, checkedRange_iff haddr hlength, if_neg hr]
  simp only [vmaFindCovering_eq_none.mpr hcov]

/-- `do_mprotect` of a range needs memory for each end at which the area goes on. -/
lemma doMprotectVma_protects_iff (hn : NodesOk c mm.mmap) (h : VmaOrdered mm.mmap)
    (prot : Nat) {v : VmArea} (hv : v ∈ mm.mmap) (hstart : v.vmStart ≤ addr)
    (hend : addr + pageCeil length ≤ v.vmEnd) :
    ∃ mm' c', doMprotectVma c mm addr length prot = some (mm', c') ∧
      (Protects mm.mmap mm'.mmap addr (addr + pageCeil length) (protFlags prot) ↔
        (v.vmStart < addr → c.heap.ok c.heap.next = true) ∧
        (addr + pageCeil length < v.vmEnd →
          c.heap.ok (c.heap.next + if v.vmStart < addr then 1 else 0) = true)) := by
  have hlt := lt_add_pageCeil hr
  have hfind : vmaFindCovering mm.mmap addr (addr + pageCeil length) = some v := by
    cases hf : vmaFindCovering mm.mmap addr (addr + pageCeil length) with
    | none => exact absurd ⟨v, hv, hstart, hend⟩ (vmaFindCovering_eq_none.mp hf)
    | some w =>
      obtain ⟨hw, -⟩ := vmaFindCovering_split hf
      rw [h.apart.eq_of_covers hv (mem_of_find?_eq_some hf) hlt ⟨hstart, hend⟩ hw]
  rw [doMprotectVma, checkedRange_iff haddr hlength, if_neg hr]
  simp only [hfind]
  refine ⟨_, _, rfl, ?_⟩
  obtain ⟨hint, hflags⟩ := flagsAt_mprotectList hn h.intervals hv hstart hlt hend (protFlags prot)
  have hmerged := fun x f => (vmaMergeAdjacent_fuses _).flagsAt (x := x) (f := f) hint
  have hothers := fun x f (hx : v.vmStart ≤ x ∧ x < v.vmEnd) =>
    h.apart.not_flagsAt_others (f := f) hv (contains_iff.mpr hx)
  have hbefore := fun x f => flagsAt_iff_of_mem (x := x) (f := f) hn.nodup hv
  simp only [Protects, hmerged, hflags, hbefore, contains_iff]
  constructor
  · intro hall
    refine ⟨fun hlow => ?_, fun hhigh => ?_⟩
    · have := (hall v.vmStart v.vmFlags).mpr (by rw [if_neg (by omega)]; left; simp; omega)
      grind
    · have := (hall (addr + pageCeil length) v.vmFlags).mpr
        (by rw [if_neg (by omega)]; left; simp; omega)
      grind
  · rintro ⟨hlow, hhigh⟩ x f
    grind

end

/--
Take a sorted list of disjoint areas and memory for every node. A `do_munmap` that succeeds takes
the addresses of its range away. A `do_mprotect` that succeeds gives its flags to the addresses
of its range, and it fails exactly when there is no such range or no single area covers it.
-/
theorem munmap_mprotect_pointwise (hok : ∀ n, c.heap.ok n = true) (hn : NodesOk c mm.mmap)
    (h : VmaOrdered mm.mmap) (haddr : addr < 4294967296) (hlength : length < 4294967296)
    (prot : Nat) :
    (∀ mm' c', doMunmapVma c mm addr length = some (mm', c') →
      Unmaps mm.mmap mm'.mmap addr (addr + pageCeil length)) ∧
    (∀ mm' c', doMprotectVma c mm addr length prot = some (mm', c') →
      Protects mm.mmap mm'.mmap addr (addr + pageCeil length) (protFlags prot)) ∧
    (doMprotectVma c mm addr length prot = none ↔ Malformed addr length ∨
      ¬ ∃ v ∈ mm.mmap, v.vmStart ≤ addr ∧ addr + pageCeil length ≤ v.vmEnd) := by
  by_cases hr : Malformed addr length
  · simp [doMunmapVma, doMprotectVma, checkedRange_iff haddr hlength, hr]
  · obtain ⟨mm1, c1, hm, hunmaps⟩ := doMunmapVma_unmaps_iff (c := c) haddr hlength hr h
    refine ⟨fun mm' c' heq => ?_, ?_⟩
    · rw [hm] at heq
      cases heq
      exact hunmaps.mpr fun _ => hok _
    by_cases hcov : ∃ v ∈ mm.mmap, v.vmStart ≤ addr ∧ addr + pageCeil length ≤ v.vmEnd
    · obtain ⟨v, hv, hstart, hend⟩ := hcov
      obtain ⟨mm2, c2, hp, hprotects⟩ :=
        doMprotectVma_protects_iff haddr hlength hr hn h prot hv hstart hend
      rw [hp]
      refine ⟨fun mm' c' heq => ?_, by simp [hr]; exact ⟨v, hv, hstart, hend⟩⟩
      cases heq
      exact hprotects.mpr ⟨fun _ => hok _, fun _ => hok _⟩
    · rw [doMprotectVma_of_not_covered haddr hlength hr prot hcov]
      refine ⟨fun mm' c' heq => ?_, by simp [hcov]⟩
      cases heq

end

theorem mappedVmaState_pointwise :
    mappedVmaState.mm.mmap = [⟨0, 0x400000, 0x402000, VmFlags.rw, 1⟩] ∧
      (∀ mm' c', doMunmapVma mappedVmaState.ctx mappedVmaState.mm 0x401000 0x1000 =
        some (mm', c') → Unmaps mappedVmaState.mm.mmap mm'.mmap 0x401000 0x402000) ∧
      doMprotectVma mappedVmaState.ctx mappedVmaState.mm 0x401000 0x2000 1 = none := by
  have hmm : mappedVmaState.mm.mmap = [⟨0, 0x400000, 0x402000, VmFlags.rw, 1⟩] := by decide
  have hn : NodesOk mappedVmaState.ctx mappedVmaState.mm.mmap := by
    rw [hmm]
    exact ⟨by simp, by decide⟩
  have ho : VmaOrdered mappedVmaState.mm.mmap := by
    rw [hmm]
    exact ⟨by simp [Intervals], by simp, by simp [Apart]⟩
  have hok : ∀ n, mappedVmaState.ctx.heap.ok n = true := fun _ => rfl
  have h1 := munmap_mprotect_pointwise hok hn ho (by decide : 0x401000 < 4294967296)
    (by decide : 0x1000 < 4294967296) 1
  have h2 := munmap_mprotect_pointwise hok hn ho (by decide : 0x401000 < 4294967296)
    (by decide : 0x2000 < 4294967296) 1
  refine ⟨hmm, h1.1, h2.2.2.mpr (.inr ?_)⟩
  simp [hmm, pageCeil]

/-! ## Moving the end of an area -/

/--
The effect of `do_mremap` that its callers expect: addresses between the old end and a greater new
one have the flags of the area, those between a smaller new end and the old one are gone, and the
others are as before.
-/
def Resizes (l l' : List VmArea) (flags : VmFlags) (oldEnd newEnd : Nat) : Prop :=
  ∀ x f, FlagsAt l' x f ↔
    if oldEnd ≤ x ∧ x < newEnd then f = flags
    else FlagsAt l x f ∧ ¬ (newEnd ≤ x ∧ x < oldEnd)

/--
The other areas have the addresses of `v` behind the old end, with the same flags, and none
of those between the ends.
-/
def CutsExactly (l : List VmArea) (v : VmArea) (oldEnd newEnd : Nat) : Prop :=
  (∀ x, oldEnd ≤ x → x < v.vmEnd → FlagsAt (l.filter (·.node ≠ v.node)) x v.vmFlags) ∧
    ∀ x f, newEnd ≤ x → x < oldEnd → ¬ FlagsAt (l.filter (·.node ≠ v.node)) x f

/--
A successful `do_mremap` found an area that covers the old range. Only the resized tail changes
exactly when the call does not shrink, or what it cuts off that area is the tail.
-/
theorem mremap_tail_iff {mm mm' : MmStruct} {addr oldLength newLength : Nat}
    {zap : Option (Nat × Nat)} (hn : (mm.mmap.map VmArea.node).Nodup) (hl : Intervals mm.mmap)
    (haddr : addr < 4294967296) (hold : oldLength < 4294967296) (hnew : newLength < 4294967296)
    (hr : doMremapVma mm addr oldLength newLength = some (mm', zap)) :
    ∃ v, vmaFindCovering mm.mmap addr (addr + pageCeil oldLength) = some v ∧
      (Resizes mm.mmap mm'.mmap v.vmFlags (addr + pageCeil oldLength)
          (addr + pageCeil newLength) ↔
        (pageCeil newLength < pageCeil oldLength → CutsExactly mm.mmap v
          (addr + pageCeil oldLength) (addr + pageCeil newLength))) := by
  unfold doMremapVma at hr
  rw [checkedRange_iff haddr hold, checkedRange_iff haddr hnew] at hr
  by_cases hmo : Malformed addr oldLength
  · simp [hmo] at hr
  by_cases hmn : Malformed addr newLength
  · simp [hmo, hmn] at hr
  simp only [if_neg hmo, if_neg hmn] at hr
  cases hf : vmaFindCovering mm.mmap addr (addr + pageCeil oldLength) with
  | none => simp [hf] at hr
  | some v =>
    refine ⟨v, rfl, ?_⟩
    obtain ⟨hcov, -⟩ := vmaFindCovering_split hf
    have hv : v ∈ mm.mmap := mem_of_find?_eq_some hf
    unfold Malformed at hmo hmn
    have hup1 : alignUp oldLength = pageCeil oldLength := alignUp_eq_pageCeil (by omega)
    have hup2 : alignUp newLength = pageCeil newLength := alignUp_eq_pageCeil (by omega)
    have hbefore := fun x f => flagsAt_iff_of_mem (x := x) (f := f) hn hv
    -- the list after the end of the area has been moved
    have hint : Intervals (vmaSet v.node
        (fun w => { w with vmEnd := addr + pageCeil newLength }) mm.mmap) := by
      intro a ha
      simp only [vmaSet, mem_map] at ha
      obtain ⟨w, hw, rfl⟩ := ha
      split
      · rename_i hwv
        rw [inj_on_of_nodup_map hn hw hv hwv]
        simp only
        omega
      · exact hl w hw
    have hset := fun x f => flagsAt_vmaSet (x := x) (f := f)
      (g := fun w => { w with vmEnd := addr + pageCeil newLength }) hn hv
    have hmerged := fun x f => (vmaMergeAdjacent_fuses _).flagsAt (x := x) (f := f) hint
    simp only [hf, hup1, hup2] at hr
    split_ifs at hr with hsame hshrink hlimit hfree
    · cases hr
      refine iff_of_true (fun x f => ?_) (by omega)
      rw [if_neg (by omega), and_iff_left (by omega)]
    · cases hr
      simp only [Resizes, CutsExactly, hmerged, hset, hbefore, contains_iff]
      constructor
      · intro hall _
        refine ⟨fun x hlow hhigh => ?_, fun x f hlow hhigh h => ?_⟩
        · have := (hall x v.vmFlags).mpr (by rw [if_neg (by omega)]; grind)
          grind
        · have := (hall x f).mp (.inr h)
          grind
      · intro hcut x f
        obtain ⟨hbehind, hbetween⟩ := hcut hshrink
        grind
    · cases hr
      refine iff_of_true (fun x f => ?_) (by omega)
      -- the range behind the old end was free, so that the area ends there
      rw [vmaRangeFree_eq_true] at hfree
      have hvend : v.vmEnd = addr + pageCeil oldLength := by
        by_contra hne
        exact hfree ⟨v, hv, by omega, by omega⟩
      have hnone : addr + pageCeil oldLength ≤ x → x < addr + pageCeil newLength →
          ¬ FlagsAt mm.mmap x f := not_flagsAt_of_not_meets hfree
      rw [hbefore] at hnone
      simp only [hmerged, hset, hbefore, contains_iff] at hnone ⊢
      grind

/-- A mapping of three pages, of which the first two are to become one. -/
def threePages : MmStruct :=
  { mappedVmaState.mm with mmap := [⟨0, 0x400000, 0x403000, VmFlags.rw, 1⟩] }

theorem threePages_grown :
    (doMremapVma threePages 0x400000 0x3000 0x4000).isSome = true ∧
      ∀ mm' zap, doMremapVma threePages 0x400000 0x3000 0x4000 = some (mm', zap) →
        Resizes threePages.mmap mm'.mmap VmFlags.rw 0x403000 0x404000 := by
  refine ⟨by decide, fun mm' zap hr => ?_⟩
  obtain ⟨v, hv, hiff⟩ := mremap_tail_iff (by decide) (by simp [threePages, Intervals])
    (by decide) (by decide) (by decide) hr
  obtain rfl : v = ⟨0, 0x400000, 0x403000, VmFlags.rw, 1⟩ :=
    Option.some.inj (hv.symm.trans (by decide))
  exact hiff.mpr fun h => absurd h (by decide)

/-- Shrinking the first two pages to one also takes the third page away. -/
theorem threePages_cut :
    ∃ mm' zap, doMremapVma threePages 0x400000 0x2000 0x1000 = some (mm', zap) ∧
      vmaFindCovering threePages.mmap 0x400000 0x402000 =
        some ⟨0, 0x400000, 0x403000, VmFlags.rw, 1⟩ ∧
      FlagsAt threePages.mmap 0x402000 VmFlags.rw ∧ ¬ FlagsAt mm'.mmap 0x402000 VmFlags.rw ∧
      ¬ Resizes threePages.mmap mm'.mmap VmFlags.rw 0x402000 0x401000 := by
  have hat : FlagsAt threePages.mmap 0x402000 VmFlags.rw := by simp [threePages]
  have hnot : ¬ FlagsAt [⟨0, 0x400000, 0x401000, VmFlags.rw, 1⟩] 0x402000 VmFlags.rw := by simp
  refine ⟨{ threePages with mmap := [⟨0, 0x400000, 0x401000, VmFlags.rw, 1⟩] },
    some (0x401000, 0x402000), by decide, by decide, hat, hnot, fun h => hnot ?_⟩
  exact (h 0x402000 VmFlags.rw).mpr (by simpa using hat)

/-! ## Failed allocations -/

/-- A call of `do_mmap` fails and changes no address, or it has its whole effect. -/
def MmapAtomic (c : VmaCtx) (mm : MmStruct) (addr length prot : Nat) : Prop :=
  ∃ a mm' c', doMmap c mm addr length prot = some (a, mm', c') ∧
    (a = 0 ∧ (∀ x f, FlagsAt mm'.mmap x f ↔ FlagsAt mm.mmap x f) ∨
      a ≠ 0 ∧ mm.Placed mm' a (pageCeil length) (protFlags prot) ∧ (addr ≠ 0 → a = addr))

/-- The same for `do_munmap`; a call that fails returns before it touches the list. -/
def MunmapAtomic (c : VmaCtx) (mm : MmStruct) (addr length : Nat) : Prop :=
  ∀ mm' c', doMunmapVma c mm addr length = some (mm', c') →
    Unmaps mm.mmap mm'.mmap addr (addr + pageCeil length)

/-- The same for `do_mprotect`. -/
def MprotectAtomic (c : VmaCtx) (mm : MmStruct) (addr length prot : Nat) : Prop :=
  ∀ mm' c', doMprotectVma c mm addr length prot = some (mm', c') →
    Protects mm.mmap mm'.mmap addr (addr + pageCeil length) (protFlags prot)

section Atomic

variable {c : VmaCtx} {mm : MmStruct} {addr length : Nat}

lemma vmaAdd_of_not_ok (hok : c.heap.ok c.heap.next = false) (l : List VmArea)
    (start stop : Nat) (flags : VmFlags) : (vmaAdd c l start stop flags).1 = l := by
  have hanon : ∀ (c : VmaCtx) (id : Nat), c.heap.ok c.heap.next = false →
      (vmaAddAnon c l start stop flags id).1 = l := by
    intro c id hok
    unfold vmaAddAnon
    rw [VmaCtx.kmalloc_of_not_ok hok]
    split <;> rfl
  unfold vmaAdd
  split
  · rfl
  · simp only
    split
    · exact hanon _ _ hok
    · exact hanon _ _ hok

lemma mmapAtomic_iff (hl : Intervals mm.mmap) (hstack : mm.startStack < 4294967296)
    (haddr : addr < 4294967296) (hlength : length < 4294967296) (prot : Nat) :
    MmapAtomic c mm addr length prot ↔ ¬ Overflows mm addr length ∧
      (HasPlace mm addr length → c.heap.ok c.heap.next = true) := by
  have hlimit := limit_lt hstack
  rcases mmapOutcome c hlimit haddr hlength prot with
    ⟨hov, a, mm', c', hr, hne, hhigh⟩ | ⟨hov, hplace, a, ha, hlow, hhigh, hfree, hsame⟩ |
    ⟨hov, hplace, hr⟩
  · refine iff_of_false ?_ fun h => h.1 hov
    rintro ⟨a', mm'', c'', hr', h⟩
    rw [hr] at hr'
    cases hr'
    rcases h with ⟨h, -⟩ | ⟨-, h⟩
    · exact hne h
    · exact absurd h.1.high (not_le.mpr hhigh)
  · have hpos : 0 < pageCeil length := by
      have := hplace.1
      unfold pageCeil
      omega
    cases hok : c.heap.ok c.heap.next
    · refine iff_of_false ?_ fun h => absurd (h.2 hplace) (by simp)
      obtain ⟨mm', c', hr, -, hmmap⟩ := doMmap_of_addr c prot hplace.1 (by omega) (by omega) ha
      rintro ⟨a', mm'', c'', hr', h⟩
      rw [hr] at hr'
      cases hr'
      rcases h with ⟨h, -⟩ | ⟨hne, h, -⟩
      · omega
      · -- the list is the old one, in which the address was free
        have hat := (h.mapped a le_rfl (by omega) _).mpr rfl
        rw [hmmap hne, vmaAdd_of_not_ok hok] at hat
        exact h.unmapped a le_rfl (by omega) _ hat
    · refine iff_of_true ?_ ⟨hov, fun _ => rfl⟩
      obtain ⟨a', mm', c', hr, hplaced, -⟩ :=
        mmapCorrect_of_free hok hl hlimit hplace.1 hlow hhigh hfree ha hsame
      obtain ⟨mm'', c'', hr', -⟩ := doMmap_of_addr c prot hplace.1 (by omega) (by omega) ha
      rw [hr] at hr'
      cases hr'
      exact ⟨a, mm', c', hr, Or.inr ⟨by omega, hplaced (by omega)⟩⟩
  · exact iff_of_true ⟨0, mm, c, hr, Or.inl ⟨rfl, fun _ _ => Iff.rfl⟩⟩
      ⟨hov, fun h => absurd h hplace⟩

/--
Take a sorted list of disjoint areas and let any allocations fail. `do_mmap` is atomic exactly
when no sum that decides it overflows and the node of a mapping it places can be allocated;
`do_munmap` when there is memory to split an area that goes on at both ends of the range; and
`do_mprotect` when there is memory for each part of the area beside the range.
-/
theorem vma_calls_atomic_iff (hn : NodesOk c mm.mmap) (h : VmaOrdered mm.mmap)
    (hstack : mm.startStack < 4294967296) (haddr : addr < 4294967296)
    (hlength : length < 4294967296) (prot : Nat) :
    (MmapAtomic c mm addr length prot ↔ ¬ Overflows mm addr length ∧
      (HasPlace mm addr length → c.heap.ok c.heap.next = true)) ∧
    (MunmapAtomic c mm addr length ↔ (¬ Malformed addr length →
      (∃ v ∈ mm.mmap, v.vmStart < addr ∧ addr + pageCeil length < v.vmEnd) →
        c.heap.ok c.heap.next = true)) ∧
    (MprotectAtomic c mm addr length prot ↔ (¬ Malformed addr length →
      ∀ v ∈ mm.mmap, v.vmStart ≤ addr → addr + pageCeil length ≤ v.vmEnd →
        (v.vmStart < addr → c.heap.ok c.heap.next = true) ∧
        (addr + pageCeil length < v.vmEnd →
          c.heap.ok (c.heap.next + if v.vmStart < addr then 1 else 0) = true))) := by
  refine ⟨mmapAtomic_iff h.intervals hstack haddr hlength prot, ?_, ?_⟩
  · unfold MunmapAtomic
    by_cases hr : Malformed addr length
    · simp [doMunmapVma, checkedRange_iff haddr hlength, hr]
    · obtain ⟨mm', c', hm, hiff⟩ := doMunmapVma_unmaps_iff (c := c) haddr hlength hr h
      simpa [hm, hr] using hiff
  · unfold MprotectAtomic
    by_cases hr : Malformed addr length
    · simp [doMprotectVma, checkedRange_iff haddr hlength, hr]
    · by_cases hcov : ∃ v ∈ mm.mmap, v.vmStart ≤ addr ∧ addr + pageCeil length ≤ v.vmEnd
      · obtain ⟨v, hv, hstart, hend⟩ := hcov
        obtain ⟨mm', c', hp, hiff⟩ :=
          doMprotectVma_protects_iff haddr hlength hr hn h prot hv hstart hend
        have hlt := lt_add_pageCeil hr
        simp only [hp, hr, not_false_eq_true, forall_const]
        constructor
        · intro hall w hw hws hwe
          rw [h.apart.eq_of_covers hv hw hlt ⟨hstart, hend⟩ ⟨hws, hwe⟩]
          exact hiff.mp (hall mm' c' rfl)
        · intro hall mm'' c'' heq
          cases heq
          exact hiff.mpr (hall v hv hstart hend)
      · refine iff_of_true ?_ fun _ v hv hstart hend => absurd ⟨v, hv, hstart, hend⟩ hcov
        intro mm' c' heq
        rw [doMprotectVma_of_not_covered haddr hlength hr prot hcov] at heq
        cases heq

end Atomic

/-- A heap that refuses every allocation. -/
def noMemory : VmaCtx :=
  { mappedVmaState.ctx with heap := ⟨1, fun _ => false⟩ }

lemma threePages_ordered (c : VmaCtx) (hc : 0 < c.heap.next) :
    NodesOk c threePages.mmap ∧ VmaOrdered threePages.mmap :=
  ⟨⟨by decide, by simpa [threePages] using hc⟩, by simp [threePages, Intervals],
    by simp [threePages], by simp [threePages, Apart]⟩

theorem threePages_atomic :
    MmapAtomic noMemory threePages 0x400000 0x1000 3 ∧
      MunmapAtomic noMemory threePages 0x402000 0x1000 ∧
      MprotectAtomic noMemory threePages 0x400000 0x3000 1 := by
  obtain ⟨hn, ho⟩ := threePages_ordered noMemory (by decide)
  have h1 := vma_calls_atomic_iff hn ho (by decide) (by decide : 0x400000 < 4294967296)
    (by decide : 0x1000 < 4294967296) 3
  have h2 := vma_calls_atomic_iff hn ho (by decide) (by decide : 0x402000 < 4294967296)
    (by decide : 0x1000 < 4294967296) 3
  have h3 := vma_calls_atomic_iff hn ho (by decide) (by decide : 0x400000 < 4294967296)
    (by decide : 0x3000 < 4294967296) 1
  refine ⟨h1.1.mpr ⟨fun h => ?_, fun h => ?_⟩, h2.2.1.mpr fun _ h => ?_, h3.2.2.mpr ?_⟩
  · rw [Overflows, if_pos (by decide)] at h
    exact absurd h.wraps (by decide)
  · rw [HasPlace, if_pos (by decide)] at h
    exact absurd ⟨_, mem_singleton_self _, by decide, by decide⟩ h.2.2.2.2
  · simp [threePages, pageCeil] at h
  · simp [threePages, pageCeil]

/--
Without memory `do_mmap` reports a mapping that is not there, and `do_munmap` and `do_mprotect` of
the middle page lose the pages beside it.
-/
theorem threePages_not_atomic :
    ¬ MmapAtomic noMemory threePages 0x500000 0x1000 3 ∧
      ¬ MunmapAtomic noMemory threePages 0x401000 0x1000 ∧
      ¬ MprotectAtomic noMemory threePages 0x401000 0x1000 1 := by
  have hat : FlagsAt threePages.mmap 0x402000 VmFlags.rw := by simp [threePages]
  refine ⟨?_, fun h => ?_, fun h => ?_⟩
  · have hval : doMmap noMemory threePages 0x500000 0x1000 3 = some (0x500000, threePages, _) := rfl
    rintro ⟨a, mm', c', hr, h⟩
    rw [hval] at hr
    cases hr
    rcases h with ⟨h, -⟩ | ⟨-, h, -⟩
    · exact absurd h (by decide)
    · exact h.unmapped 0x500000 le_rfl (by decide) _ ((h.mapped _ le_rfl (by decide) _).mpr rfl)
  · have := (h { threePages with mmap := [⟨0, 0x400000, 0x401000, VmFlags.rw, 1⟩] } _ rfl
      0x402000 VmFlags.rw).mpr ⟨hat, by decide⟩
    simp at this
  · have := (h { threePages with mmap := [⟨0, 0x401000, 0x402000, ⟨true, false, false⟩, 1⟩] } _ rfl
      0x402000 VmFlags.rw).mpr (by rw [if_neg (by decide)]; exact hat)
    simp at this

end LiteKernel.Mm
