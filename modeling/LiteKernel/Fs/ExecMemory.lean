import LiteKernel.Fs.Exec
import LiteKernel.Mm.OwnFrames

/-!
# Memory for the loader

With enough frames for the tables and the pages of a program no allocation of the loader fails,
whatever the program headers say.

Main results:

- Lemma `framesFor_segment`: how many frames suffice for a segment.
-/

namespace LiteKernel.Fs

open Function Lib Mm Mm.Vm

variable {step : Vm → Nat → Bool × Vm} {vs : List Nat} {p : Elf32Phdr} {segs : List Elf32Phdr}

/-- The range of pages of a segment. -/
def Elf32Phdr.range (p : Elf32Phdr) : Nat × Nat :=
  (p.segStart, p.segEnd)

/-- A number of frames that suffices for the tables and the pages of a list of ranges. -/
def framesFor (R : List (Nat × Nat)) : Nat :=
  (R.map fun r => (slotsIn r.1 r.2).length + 2 * (pagesIn r.1 r.2).length).sum

lemma framesFor_singleton (r : Nat × Nat) :
    framesFor [r] = (slotsIn r.1 r.2).length + 2 * (pagesIn r.1 r.2).length :=
  add_zero _

/-- The need of a list of ranges is the sum of their needs. -/
lemma framesFor_cons (r : Nat × Nat) (R : List (Nat × Nat)) :
    framesFor (r :: R) = framesFor [r] + framesFor R := by
  rw [framesFor_singleton]
  rfl

/-- The need of one segment, in the order of its allocations. -/
lemma framesFor_segment (k : Nat) (p : Elf32Phdr) : k + framesFor [p.range] =
    k + 2 * (pagesIn p.segStart p.segEnd).length + (slotsIn p.segStart p.segEnd).length := by
  rw [framesFor_singleton]
  unfold Elf32Phdr.range
  dsimp only
  omega

lemma framesFor_segments (k : Nat) (p : Elf32Phdr) (segs : List Elf32Phdr) :
    k + framesFor ((p :: segs).map Elf32Phdr.range) =
      k + framesFor (segs.map Elf32Phdr.range) + framesFor [p.range] := by
  rw [List.map_cons, framesFor_cons]
  omega

variable {s s' : Vm} {k m d v i : Nat}

/-! ## Tables -/

/-- A private table needs a frame at most. -/
lemma ample_ensurePrivateTable (ha : Ample (k + 1) s) (d i : Nat) :
    Ample k (ensurePrivateTable d s i) := by
  obtain ⟨t, -, -, halloc, ha1⟩ := ha.allocPage
  unfold ensurePrivateTable
  rw [halloc]
  split
  · exact ha1.of_eq rfl rfl rfl fun _ hf => hf
  · exact ha1.of_eq rfl rfl rfl fun _ hf => hf

/-- One frame for each directory entry, by induction on the entries. -/
lemma ample_ensurePrivateTables {is : List Nat} (ha : Ample (k + is.length) s) (d : Nat) :
    Ample k (is.foldl (ensurePrivateTable d) s) := by
  induction is generalizing s with
  | nil => exact ha
  | cons i rest ih => exact ih (ample_ensurePrivateTable ha d i)

/-! ## Pages -/

lemma ample_setPte (ha : Ample k s) (d v : Nat) (e : Pte) : Ample k (s.setPte d v e) :=
  ha.congr (quiet_setPte s d v e).fixed (quiet_setPte s d v e).calls fun _ hf => by
    rw [free_setPte]
    exact hf

/-- Mapping a page may need a frame for its table. -/
lemma ample_mapPageEx (ha : Ample (k + 1) s) (d f va : Nat) (flags : PteFlags) :
    Ample k (s.mapPageEx d f va flags) := by
  have ha0 := ha.mono (Nat.le_succ k)
  obtain ⟨t, -, -, halloc, ha1⟩ := ha.allocPage
  unfold mapPageEx ensureTable
  by_cases hp : (s.dir d (va / pageSize / ptrsPerPte)).present = true
  · rw [if_pos hp]
    simp only
    split
    · apply ample_setPte
      exact ha0.of_eq rfl rfl rfl fun _ hf => hf
    · exact ample_setPte ha0 d _ _
  · rw [if_neg hp, halloc]
    apply ample_setPte
    exact ha1.of_eq rfl rfl rfl fun _ hf => hf

/-- A reverse mapping needs no frame. -/
lemma ample_pageAddAnonRmap (ha : Ample k s) (m va f : Nat) :
    Ample k (s.pageAddAnonRmap m va f) := by
  have hadd := pageAddAnonRmap_of_calm ha.calm m va f
  refine ha.congr hadd.fixed (calls_pageAddAnonRmap ha.calm m va f) fun x hx => ?_
  rw [hadd.same.free]
  exact hx

/-- A new page succeeds with two frames: its own and one for its table. -/
lemma ample_mapFreshPage (ha : Ample (k + 2) s) (m d v : Nat) :
    (mapFreshPage m d s v).1 = true ∧ Ample k (mapFreshPage m d s v).2 := by
  obtain ⟨f, -, -, halloc, ha1⟩ := ha.allocPage
  unfold mapFreshPage
  rw [halloc]
  exact ⟨rfl, ample_pageAddAnonRmap (ample_mapPageEx ha1 _ _ _ _) _ _ _⟩

/-- So does a page of a segment, which may find a frame of another segment. -/
lemma ample_mapSegmentPage (ha : Ample (k + 2) s) (m d v : Nat) :
    (mapSegmentPage m d s v).1 = true ∧ Ample k (mapSegmentPage m d s v).2 := by
  have hfresh := ample_mapFreshPage ha m d v
  unfold mapSegmentPage
  split
  · split
    · exact ⟨rfl, ha.mono (by omega)⟩
    · exact hfresh
  · exact hfresh

lemma mapPages_cons (h : (step s v).1 = true) :
    mapPages step (v :: vs) s = mapPages step vs (step s v).2 := by
  rw [mapPages]
  rcases hs : step s v with ⟨b, s'⟩
  rw [hs] at h
  dsimp only at h
  rw [h]

/-- The loop over the pages, by induction on them: a round takes two frames at most. -/
lemma ample_mapPages
    (hstep : ∀ {k s} v, Ample (k + 2) s → (step s v).1 = true ∧ Ample k (step s v).2)
    (ha : Ample (k + 2 * vs.length) s) :
    (mapPages step vs s).1 = true ∧ Ample k (mapPages step vs s).2 := by
  induction vs generalizing s with
  | nil => exact ⟨rfl, ha⟩
  | cons v rest ih =>
    have hneed : k + 2 * (v :: rest).length = k + 2 * rest.length + 2 := by
      rw [List.length_cons]
      omega
    rw [hneed] at ha
    obtain ⟨ht, ha1⟩ := hstep v ha
    rw [mapPages_cons ht]
    exact ih ha1

/-! ## The loops -/

lemma heapOk_vmaAdd (c : VmaCtx) (l : List VmArea) (start stop : Nat) (flags : VmFlags) :
    (vmaAdd c l start stop flags).2.heap.ok = c.heap.ok := by
  have hanon : ∀ (c : VmaCtx) (id : Nat),
      (vmaAddAnon c l start stop flags id).2.heap.ok = c.heap.ok := by
    intro c id
    unfold vmaAddAnon
    split
    · rfl
    · rcases hk : c.kmalloc with ⟨p, c'⟩
      have hc' : c'.heap.ok = c.heap.ok := by
        rw [show c' = c.kmalloc.2 from by rw [hk]]
        rfl
      cases p <;> exact hc'
  unfold vmaAdd
  split
  · rfl
  · simp only
    split
    · exact hanon _ _
    · exact hanon _ _

lemma ample_mmAddVma (ha : Ample k s) (m start stop : Nat) (flags : VmFlags) :
    Ample k (mmAddVma s m start stop flags) := by
  rw [mmAddVma, Vm.commitVma_of_calm fun n => (ha.calm n).2]
  exact ha.of_eq rfl (heapOk_vmaAdd ..) rfl fun _ hf => hf

/-- A segment succeeds with the frames of its range. -/
lemma ample_buildSegment (ha : Ample (k + framesFor [p.range]) s) (m d : Nat) :
    (buildSegment m d s p).1 = true ∧ Ample k (buildSegment m d s p).2 := by
  rw [framesFor_segment] at ha
  have ha1 := ample_mmAddVma ha m p.segStart p.segEnd ⟨true, true, p.pfX⟩
  have ha2 := ample_ensurePrivateTables ha1 d
  exact ample_mapPages (fun v hA => ample_mapSegmentPage hA m d v) ha2

lemma buildSegments_cons (h : (buildSegment m d s p).1 = true) :
    buildSegments m d (p :: segs) s = buildSegments m d segs (buildSegment m d s p).2 := by
  rw [buildSegments]
  rcases hs : buildSegment m d s p with ⟨b, s'⟩
  rw [hs] at h
  dsimp only at h
  rw [h]

/-- The loop over the program headers, by induction on them. -/
lemma ample_buildSegments (ha : Ample (k + framesFor (segs.map Elf32Phdr.range)) s) (m d : Nat) :
    (buildSegments m d segs s).1 = true ∧ Ample k (buildSegments m d segs s).2 := by
  induction segs generalizing s with
  | nil => exact ⟨rfl, ha⟩
  | cons p rest ih =>
    rw [framesFor_segments] at ha
    obtain ⟨ht, ha1⟩ := ample_buildSegment ha m d
    rw [buildSegments_cons ht]
    exact ih ha1

/-- `mm_init_brk` adds no area: the empty heap area is refused. -/
lemma mmInitBrk_fields (c : VmaCtx) (mm : MmStruct) (heapBase stackBase : Nat) :
    (mmInitBrk c mm heapBase stackBase).1.mmap = mm.mmap ∧
      (mmInitBrk c mm heapBase stackBase).1.pgd = mm.pgd ∧
      (mmInitBrk c mm heapBase stackBase).2 = c := by
  have hadd : vmaAdd c mm.mmap heapBase heapBase VmFlags.rw = (mm.mmap, c) :=
    if_pos (le_refl heapBase)
  unfold mmInitBrk
  split_ifs
  · exact ⟨rfl, rfl, rfl⟩
  · exact ⟨rfl, rfl, rfl⟩
  · exact ⟨rfl, rfl, rfl⟩
  · dsimp only
    split
    · exact ⟨rfl, rfl, rfl⟩
    · rw [hadd]
      exact ⟨rfl, rfl, rfl⟩

lemma length_stackPages : (pagesIn userStackBase userStackTop).length = userStackPages := by
  decide

/-- The state of `mm_add_vma` and `mm_init_brk` for the stack. -/
def stackAreas (m heapBase : Nat) (s : Vm) : Vm :=
  let s := mmAddVma s m userStackBase userStackTop VmFlags.rw
  s.putVma m (mmInitBrk s.ctx (s.mm m) heapBase userStackBase).1 s.ctx

lemma buildStack_eq (m d heapBase : Nat) (s : Vm) :
    buildStack m d heapBase s = mapPages (mapFreshPage m d) (pagesIn userStackBase userStackTop)
      (stackAreas m heapBase s) := by
  unfold buildStack stackAreas
  simp only [(mmInitBrk_fields ..).2.2, Vm.commitVma_ctx]

lemma ample_stackAreas (ha : Ample k s) (m heapBase : Nat) :
    Ample k (stackAreas m heapBase s) :=
  (ample_mmAddVma ha m userStackBase userStackTop VmFlags.rw).of_eq rfl rfl rfl fun _ hf => hf

/-- The stack succeeds with two frames for each of its pages. -/
lemma ample_buildStack (ha : Ample (k + 2 * userStackPages) s) (m d heapBase : Nat) :
    (buildStack m d heapBase s).1 = true ∧ Ample k (buildStack m d heapBase s).2 := by
  have ha2 := ample_stackAreas ha m heapBase
  rw [← length_stackPages] at ha2
  rw [buildStack_eq]
  exact ample_mapPages (fun v hA => ample_mapFreshPage hA m d v) ha2

end LiteKernel.Fs
