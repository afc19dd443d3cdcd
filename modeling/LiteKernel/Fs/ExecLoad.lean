import LiteKernel.Fs.ExecCopy

/-!
# The whole load

The loader from the first allocation on, with enough memory. It cannot fail: it returns when the
stores of the third loop stay inside the pages of the program, and does not return otherwise.

Main results:

- Lemma `buildProgram_eq`: the directory and the areas of the program.
-/

namespace LiteKernel.Fs

open Function Lib Mm Mm.Vm List

variable {cur : Option Nat} {s0 : Vm}

/-- The segments that are loaded, and their ranges of pages. -/
def ProgramFile.segments (file : ProgramFile) : List Elf32Phdr :=
  file.phdrs.filter Elf32Phdr.loaded

def ProgramFile.ranges (file : ProgramFile) : List (Nat × Nat) :=
  file.segments.map Elf32Phdr.range

/-- The directory entries visited by `ensure_private_table`, in the order of the loader. -/
def ProgramFile.slots (file : ProgramFile) : List Nat :=
  slotsIn userStackBase userStackTop ++ slotsOf file.ranges

/-- The pages of the segments and of the stack. -/
def ProgramFile.pages (file : ProgramFile) : Set Nat :=
  pagesOf file.ranges ∪ { v | v ∈ pagesIn userStackBase userStackTop }

/-- Frames that suffice to load the program. -/
def ProgramFile.frames (file : ProgramFile) : Nat :=
  2 * userStackPages + framesFor file.ranges + (slotsIn userStackBase userStackTop).length + 1

/-- The stores of the loader stay inside the program. -/
def ProgramFile.Copyable (file : ProgramFile) : Prop :=
  ∀ p ∈ file.segments, p.Bounded ∧ Storable file.pages p

variable {T : Tally} {s s' : Vm} {M : Finset Nat} {D : Nat → Nat} {m k d lo hi : Nat}
  {file : ProgramFile}

lemma memsz_ne_zero {p : Elf32Phdr} (hp : p ∈ file.segments) : p.pMemsz ≠ 0 := by
  have hl := (mem_filter.mp hp).2
  simp only [Elf32Phdr.loaded, Bool.and_eq_true, decide_eq_true_eq] at hl
  exact hl.2

/-! ## The two halves of the loader -/

/-- The state after the second loop and the stack. -/
def built (file : ProgramFile) (m d hi : Nat) (s : Vm) : Vm :=
  (buildStack m d (alignUp hi) (buildSegments m d file.segments s).2).2

/-- What the loader returns. -/
def loadedProgram (file : ProgramFile) (d lo hi : Nat) : LoadedProgram :=
  ⟨file.ehdr.eEntry, userStackTop, d, alignDown lo, (alignUp hi - alignDown lo) / pageSize,
    userStackBase⟩

/-- The loader from the third loop on. -/
def finish (file : ProgramFile) (m d lo hi : Nat) (s : Vm) : LoadResult × Vm :=
  match file.segments.foldlM (copySegment file m) (s.switchPgd d) with
  | none => (.crashed, s)
  | some s' => (.loaded (loadedProgram file d lo hi), s'.switchPgd s.pageDirectory)

lemma finish_of_none
    (h : file.segments.foldlM (copySegment file m) (s.switchPgd d) = none) :
    finish file m d lo hi s = (.crashed, s) := by
  unfold finish
  rw [h]

lemma finish_of_some
    (h : file.segments.foldlM (copySegment file m) (s.switchPgd d) = some s') :
    finish file m d lo hi s =
      (.loaded (loadedProgram file d lo hi), s'.switchPgd s.pageDirectory) := by
  unfold finish
  rw [h]

lemma eq_mk_of_fst {x : Bool × Vm} (h : x.1 = true) : x = (true, x.2) :=
  Prod.ext h rfl

/-- With enough memory only the third loop decides. -/
lemma buildProgram_eq (ha : Ample (k + 2 * userStackPages + framesFor file.ranges) s)
    (m d lo hi : Nat) : buildProgram file m d lo hi s = finish file m d lo hi (built file m d hi s) ∧
      Ample k (built file m d hi s) := by
  obtain ⟨ht1, ha1⟩ := ample_buildSegments ha m d
  obtain ⟨ht2, ha2⟩ := ample_buildStack ha1 m d (alignUp hi)
  refine ⟨?_, ha2⟩
  have h1 : buildSegments m d (file.phdrs.filter Elf32Phdr.loaded) s =
      (true, (buildSegments m d file.segments s).2) := eq_mk_of_fst ht1
  have h2 : buildStack m d (alignUp hi) (buildSegments m d file.segments s).2 =
      (true, built file m d hi s) := eq_mk_of_fst ht2
  unfold buildProgram
  simp only [h1, h2]
  rfl

/-! ## The state before the second loop -/

lemma mm_setMm_self (s : Vm) (m : Nat) (g : MmStruct → MmStruct) :
    (s.setMm m g).mm m = g (s.mm m) :=
  update_self ..

lemma ctx_ensurePrivateTables {is : List Nat} (ha : Ample (k + is.length) s) (d : Nat) :
    (is.foldl (ensurePrivateTable d) s).ctx = s.ctx := by
  induction is generalizing s with
  | nil => rfl
  | cons i rest ih =>
    rw [foldl_cons, ih (ample_ensurePrivateTable ha d i)]
    obtain ⟨t, -, -, halloc, -⟩ := ha.allocPage
    unfold ensurePrivateTable
    rw [halloc]
    split <;> rfl

/-- The `mm_struct` is the one of the task, or the loader creates it. -/
def NewMm (s : Vm) (cur : Option Nat) (m : Nat) : Prop :=
  cur = some m ∧ (s.mm m).pgd = s.pageDirectory ∨ cur = none ∧ m = s.ctx.heap.next

/-- What is known before the second loop. -/
structure Prepared (T : Tally) (s0 : Vm) (M : Finset Nat) (D : Nat → Nat) (m : Nat) (s : Vm) :
    Prop where
  image : Image T s0 M D m (slotsIn userStackBase userStackTop) ∅ s
  mmap : (s.mm m).mmap = []
  pgd : (s.mm m).pgd = s0.pageDirectory
  kernelDir : s.kernelDir = s0.kernelDir
  pageDirectory : s.pageDirectory = s0.pageDirectory

lemma prepared (h : Wf T s M D) (hm : m ∉ M)
    (ha : Ample (k + (slotsIn userStackBase userStackTop).length + 1) s) (hcur : NewMm s cur m) :
    ∃ d sp, Prepared T s (insert m M) (update D m d) m sp ∧ Ample k sp ∧
      (cur = some m → Apart m s s sp) ∧
      ∀ file lo hi, loadProgram file s cur lo hi =
        ((buildProgram file m d lo hi sp).1, some m, (buildProgram file m d lo hi sp).2) := by
  obtain ⟨d, s1, hclone, h1, ha1, hc1⟩ := Image.pgdCloneKernel h hm ha
  have hctx1 : s1.ctx = s.ctx := by
    obtain ⟨f, -, -, halloc, -⟩ := ha.allocPage
    unfold Vm.pgdCloneKernel at hclone
    rw [halloc] at hclone
    cases hclone
    rfl
  have hmem : m ∈ insert m M := Finset.mem_insert_self m M
  have hD : update D m d m = d := update_self ..
  obtain ⟨h2, hc2⟩ := h1.ensurePrivateTables ha1 hmem fun i hi =>
    userRange_stack.lt_userPdes hi
  have ha2 := ample_ensurePrivateTables ha1 d
  have hctx2 := ctx_ensurePrivateTables ha1 d
  rw [hD] at h2 hc2
  set s2 := (slotsIn userStackBase userStackTop).foldl (ensurePrivateTable d) s1 with hs2
  have hfix := hc1.fixed.trans hc2.fixed
  have hrange : ensurePrivateTableRange d s1 userStackBase userStackTop = s2 := rfl
  rw [nil_append] at h2
  have hprep : ∀ t, SameTables s2 t → t.pageDirectory = s2.pageDirectory →
      (t.mm m).pgd = s.pageDirectory → Prepared T s (insert m M) (update D m d) m
        (t.setMm m fun mm => { mm with mmap := [] }) := by
    refine fun t hsame hcur hpgd => ⟨h2.of_same (hsame.trans ?_), ?_, ?_,
      hsame.kernelDir.trans hfix.kernelDir, hcur.trans hfix.pageDirectory⟩
    · exact ⟨rfl, rfl, rfl, rfl, fun _ => rfl⟩
    · rw [mm_setMm_self]
    · rw [mm_setMm_self]
      exact hpgd
  rcases hcur with ⟨rfl, hpgd⟩ | ⟨rfl, rfl⟩
  · refine ⟨d, _, hprep s2 (.refl s2) rfl (hfix.mm ▸ hpgd), ?_, fun _ => ?_, fun file lo hi => ?_⟩
    · exact ha2.of_eq rfl rfl rfl fun _ hf => hf
    · refine (apart_of_confined (hc1.trans hc2) m).trans
        ⟨fun _ _ => rfl, fun _ _ => rfl, rfl, rfl, ?_⟩
      rw [mm_setMm_self]
    · unfold loadProgram
      rw [hclone]
      rfl
  · -- the loader creates the `mm_struct`
    have hctx : s2.ctx = s.ctx := hctx2.trans hctx1
    set m := s.ctx.heap.next with hmdef
    set mm : MmStruct := ⟨s2.pageDirectory, 0, 0, 0, 0, 0, []⟩ with hmm
    set s3 : Vm := { s2 with
      ctx := s2.ctx.kmalloc.2, live := insert m s2.live, mm := update s2.mm m mm } with hs3
    have hkm : s2.ctx.kmalloc.1 = some m := by
      rw [hctx]
      exact if_pos (ha.heap _)
    have hcreate : s2.mmCreate = (some m, s3) := by
      unfold mmCreate
      rw [kmalloc_of_calm ha2.calm, hkm]
    have hpgd : s3.mm m = mm := update_self ..
    refine ⟨d, _, hprep s3 ⟨rfl, rfl, rfl, rfl, fun _ => rfl⟩ rfl
      ((congrArg MmStruct.pgd hpgd).trans hfix.pageDirectory), ?_, fun hc => ?_, fun file lo hi => ?_⟩
    · exact ha2.of_eq rfl rfl rfl fun _ hf => hf
    · cases hc
    · unfold loadProgram
      rw [hclone]
      simp only [hrange, hcreate]

/-! ## The state before the third loop -/

lemma userRange_of_mem (hb : ∀ p ∈ file.segments, p.Bounded) {r : Nat × Nat}
    (hr : r ∈ file.ranges ++ [(userStackBase, userStackTop)]) : UserRange r.1 r.2 := by
  rcases mem_append.mp hr with hr | hr
  · obtain ⟨p, hp, rfl⟩ := mem_map.mp hr
    exact userRange_of_bounded (hb p hp) (memsz_ne_zero hp)
  · rw [mem_singleton.mp hr]
    exact userRange_stack

lemma mem_pages {v : Nat} : v ∈ file.pages ↔
    ∃ r ∈ file.ranges ++ [(userStackBase, userStackTop)], v ∈ pagesIn r.1 r.2 := by
  simp only [ProgramFile.pages, pagesOf, Set.mem_union, Set.mem_ofPred_eq, mem_append,
    mem_singleton, or_and_right, exists_or, exists_eq_left]

lemma Image.switchPgd {visited : List Nat} {P : Set Nat}
    (h : Image T s0 M D m visited P s) (d : Nat) :
    Image T s0 M D m visited P (s.switchPgd d) :=
  h.of_same ⟨rfl, rfl, rfl, rfl, fun _ => rfl⟩

lemma copying (h : Prepared T s0 M D m s)
    (ha : Ample (k + 2 * userStackPages + framesFor file.ranges) s) (hm : m ∈ M)
    (hb : ∀ p ∈ file.segments, p.Bounded)
    (hd : s0.pageDirectory = s0.kernelDir ∨ ∃ m0 ∈ M, m0 ≠ m ∧ s0.pageDirectory = D m0) (hi : Nat) :
    Copying T s0 M D m file.slots file.pages ((built file m (D m) hi s).switchPgd (D m)) ∧
      Apart m s0 s (built file m (D m) hi s) ∧
      ∀ p ∈ file.segments, ∃ a ∈ ((built file m (D m) hi s).mm m).mmap,
        a.vmStart ≤ p.segStart ∧ p.segEnd ≤ a.vmEnd := by
  have hl : VmaLoose s.ctx (s.mm m).mmap := by
    rw [h.mmap]
    exact ⟨ha.heap, ⟨nodup_nil, fun v hv => absurd hv not_mem_nil⟩,
      fun v hv => absurd hv not_mem_nil⟩
  have hsegs : ∀ p ∈ file.segments, UserRange p.segStart p.segEnd := fun p hp =>
    userRange_of_bounded (hb p hp) (memsz_ne_zero hp)
  obtain ⟨h1, hap1, hout1⟩ := h.image.buildSegments ha hl hm hsegs
  obtain ⟨-, ha1⟩ := ample_buildSegments ha m (D m)
  obtain ⟨h2, hap2, hout2⟩ := h1.buildStack ha1 hout1.loose hm
    (fun i hi => mem_append_left _ hi) (alignUp hi)
  have hout := hout1.trans hout2
  have hap := hap1.trans hap2
  have hsb : (buildStack m (D m) (alignUp hi) (buildSegments m (D m) file.segments s).2).2 =
      built file m (D m) hi s := rfl
  rw [Set.empty_union, hsb] at h2
  rw [hsb] at hout hap
  generalize built file m (D m) hi s = sb at h2 hout hap
  have hcov : ∀ x, Covered (sb.mm m).mmap x ↔
      ∃ r ∈ file.ranges ++ [(userStackBase, userStackTop)], r.1 ≤ x ∧ x < r.2 := by
    intro x
    rw [hout.areas.covered x, h.mmap]
    refine or_iff_right ?_
    rintro ⟨a, ha, -⟩
    exact absurd ha not_mem_nil
  have hpgd : (sb.mm m).pgd = s0.pageDirectory := hap.pgd.trans h.pgd
  have hk : sb.kernelDir = s0.kernelDir := hap.kernelDir.trans h.kernelDir
  have himage : Image T s0 M D m file.slots file.pages (sb.switchPgd (D m)) :=
    Image.switchPgd h2 (D m)
  refine ⟨⟨himage, rfl, hout.loose, fun v => ?_, ?_⟩, hap, fun p hp => ?_⟩
  · refine (hcov (v * pageSize)).trans (Iff.trans ?_ mem_pages.symm)
    refine exists_congr fun r => and_congr_right fun hr => ?_
    exact (userRange_of_mem hb hr).mem_pagesIn.symm
  · show (sb.mm m).pgd = sb.kernelDir ∨ ∃ m0 ∈ M, m0 ≠ m ∧ (sb.mm m).pgd = D m0
    rw [hpgd, hk]
    exact hd
  · exact hout.areas.own p.range (mem_append_left _ (mem_map_of_mem hp))

/-! ## Loading -/

/--
The third loop of a load that started in `s`: from `sb`, with the directory `d`
finished, to `s'`.
-/
structure LoadRun (T : Tally) (s : Vm) (M : Finset Nat) (D : Nat → Nat) (m : Nat)
    (cur : Option Nat) (file : ProgramFile) (d : Nat) (sb s' : Vm) : Prop where
  start : Copying T s (insert m M) (update D m d) m file.slots file.pages (sb.switchPgd d)
  ample : Ample 0 (sb.switchPgd d)
  apart : cur = some m → Apart m s s sb
  areas : ∀ p ∈ file.segments, ∃ a ∈ (sb.mm m).mmap, a.vmStart ≤ p.segStart ∧ p.segEnd ≤ a.vmEnd
  copies : file.segments.foldlM (copySegment file m) (sb.switchPgd d) = some s'
  done : Copying T s (insert m M) (update D m d) m file.slots file.pages s'

lemma loadProgram_cases (h : Wf T s M D) (hm : m ∉ M) (ha : Ample (k + file.frames) s)
    (hcur : NewMm s cur m) (hd : s.pageDirectory = s.kernelDir ∨ ∃ m0 ∈ M, s.pageDirectory = D m0)
    (lo hi : Nat) :
    (¬ file.Copyable ∧ (loadProgram file s cur lo hi).1 = .crashed) ∨
    (file.Copyable ∧ ∃ d sb s', loadProgram file s cur lo hi =
        (.loaded (loadedProgram file d lo hi), some m, s'.switchPgd s.pageDirectory) ∧
      LoadRun T s M D m cur file d sb s' ∧ Ample k s') := by
  have ha' : Ample (k + 2 * userStackPages + framesFor file.ranges +
      (slotsIn userStackBase userStackTop).length + 1) s := ha.mono (by
    unfold ProgramFile.frames
    omega)
  obtain ⟨d, sp, hp, hap, hkept, hload⟩ := prepared h hm ha' hcur
  have hmem : m ∈ insert m M := Finset.mem_insert_self m M
  have hD : update D m d m = d := update_self ..
  obtain ⟨heq, hab⟩ := buildProgram_eq hap m d lo hi
  rw [hload file lo hi, heq]
  by_cases hb : ∀ p ∈ file.segments, p.Bounded
  swap
  · -- a segment that leaves user memory is never copied
    refine .inl ⟨fun hc => hb fun p hp => (hc p hp).1, ?_⟩
    cases hfold : file.segments.foldlM (copySegment file m)
        ((built file m d hi sp).switchPgd d) with
    | none => rw [finish_of_none hfold]
    | some s' => exact absurd (bounded_of_copySegments (fun p hp => memsz_ne_zero hp) hfold) hb
  have hd' : s.pageDirectory = s.kernelDir ∨ ∃ m0 ∈ insert m M, m0 ≠ m ∧
      s.pageDirectory = update D m d m0 := by
    refine hd.imp_right ?_
    rintro ⟨m0, hm0, heq0⟩
    have hne : m0 ≠ m := fun e => hm (e ▸ hm0)
    exact ⟨m0, Finset.mem_insert_of_mem hm0, hne, by rw [update_of_ne hne]; exact heq0⟩
  obtain ⟨hcopy, hapart, hareas⟩ := copying hp hap hmem hb hd' hi
  rw [hD] at hcopy hapart hareas
  generalize built file m d hi sp = sb at hab hcopy hapart hareas
  have hab' : Ample k (sb.switchPgd d) := hab.of_eq rfl rfl rfl fun _ hf => hf
  have hpd : sb.pageDirectory = s.pageDirectory := hapart.pageDirectory.trans hp.pageDirectory
  have hsegs : ∀ p ∈ file.segments, UserRange p.segStart p.segEnd := fun p hp =>
    userRange_of_bounded (hb p hp) (memsz_ne_zero hp)
  rcases hcopy.copySegments hab' hmem file hsegs with ⟨hall, s', hs', h', ha'', -⟩ | ⟨hnot, hs'⟩
  · rw [finish_of_some hs', hpd]
    exact .inr ⟨fun p hp => ⟨hb p hp, hall p hp⟩, d, sb, s', rfl,
      ⟨hcopy, hab'.mono (Nat.zero_le k), fun hc => (hkept hc).trans hapart, hareas, hs', h'⟩, ha''⟩
  · rw [finish_of_none hs']
    exact .inl ⟨fun hc => hnot fun p hp => (hc p hp).2, rfl⟩

end LiteKernel.Fs
