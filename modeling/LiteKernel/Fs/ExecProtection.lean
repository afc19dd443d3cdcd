import LiteKernel.Fs.ExecFrames

/-!
# The permissions of a loaded program

The loader maps all pages of a program writable and takes the write permission from the segments
without `PF_W` at the end, by `do_mprotect`. But the `mm_struct` it passes still has the
directory that was installed when `mm_create` was called. So the pages of the new directory stay
writable, and pages of the caller lose their write permission instead.

Main results:

- Lemma `readWrite_of_loaded`: every page of the new directory is writable.
- Lemma `caller_loses_write`: the first segment that `do_mprotect` accepts costs the caller its
  write permission.
- Theorem `permissions_enforced_iff`: the files for which the permissions are enforced.
- Theorem `text_stays_writable`: a program with a text segment of one page.
-/

namespace LiteKernel.Fs

open Function Lib Mm Mm.Vm List Option

variable {post pre segs : List Elf32Phdr} {q : Elf32Phdr} {visited : List Nat} {P : Set Nat}
  {s₀ : Vm}

/-- `sys_execve` up to the return of the loader: the new `mm_struct`, the state in which the
loader is called, what it returns, and the state after it. -/
structure ExecLoads (resolve : List Char → Option ProgramFile) (s : Vm) (name : List Char)
    (m : Nat) (s₁ : Vm) (p : LoadedProgram) (s₂ : Vm) : Prop where
  create : s.mmCreate = (some m, s₁)
  load : kernelLoadUserProgram resolve s₁ (some m) name = (.loaded p, some m, s₂)

/-- The page is in a segment without write permission and in none that has it. -/
def ProgramFile.ReadOnlyPage (file : ProgramFile) (v : Nat) : Prop :=
  (∃ p ∈ file.segments, p.pfW = false ∧ v ∈ pagesIn p.segStart p.segEnd) ∧
    ∀ q ∈ file.segments, q.pfW = true → v ∉ pagesIn q.segStart q.segEnd

/-- The permissions hold in the new directory, and no other directory was changed by the load. -/
structure Enforced (file : ProgramFile) (s : Vm) (m : Nat) (s₁ : Vm) (p : LoadedProgram)
    (s₂ : Vm) : Prop where
  readOnly : ∀ v, file.ReadOnlyPage v →
    ((enterProgram s₂ m p).pte p.dir v).present = true ∧
      ((enterProgram s₂ m p).pte p.dir v).readWrite = false
  others : ∀ d, (d = s.kernelDir ∨ ∃ m' ∈ s.live, d = (s.mm m').pgd) → ∀ v, v < 0x100000 →
    s₂.pte d v = s₁.pte d v

/-- Segments without write permission start in the first page and share each of their pages with
one that has it. -/
def ProgramFile.FirstPageOnly (file : ProgramFile) : Prop :=
  ∀ p ∈ file.segments, p.pfW = false → p.pVaddr < 0x1000 ∧
    ∀ v ∈ pagesIn p.segStart p.segEnd,
      ∃ q ∈ file.segments, q.pfW = true ∧ v ∈ pagesIn q.segStart q.segEnd

variable {T : Tally} {s s' s₁ s₂ : Vm} {M : Finset Nat} {D : Nat → Nat} {m k N d v : Nat}
  {resolve : List Char → Option ProgramFile} {name : List Char}
  {file : ProgramFile} {p : LoadedProgram}

lemma segStart_lt_iff (p : Elf32Phdr) : p.segStart < 0x1000 ↔ p.pVaddr < 0x1000 := by
  unfold Elf32Phdr.segStart alignDown
  omega

/-! ## The run of the loader -/

/-- A task with an address space of its own, and enough memory for the program. -/
structure Caller (T : Tally) (N : Nat) (file : ProgramFile) (s : Vm) : Prop
    extends Running T N s where
  own : ∃ m₀ ∈ s.live, s.pageDirectory = (s.mm m₀).pgd
  ample : Ample file.frames s

/-- The state in which the loader allocates its first frame. -/
def loadStart (s : Vm) : Vm :=
  { (started true s).2 with ctx := (started true s).2.ctx.kmalloc.2 }

lemma loadStart_eq (ha : Ample k s) : loadStart s =
    { s with
      ctx := s.ctx.kmalloc.2.kmalloc.2
      live := insert s.ctx.heap.next s.live
      mm := update s.mm s.ctx.heap.next ⟨s.pageDirectory, 0, 0, 0, 0, 0, []⟩ } := by
  unfold loadStart
  rw [started_true ha]

lemma sameTables_loadStart (ha : Ample k s) : SameTables s (loadStart s) := by
  rw [loadStart_eq ha]
  exact ⟨rfl, rfl, rfl, rfl, fun _ => rfl⟩

namespace Caller

section

variable (h : Caller T N file s)
include h

lemma notMem_live : s.ctx.heap.next ∉ s.live := fun hc =>
  lt_irrefl _ (h.ids _ hc)

lemma loadProgram_cases (lo hi : Nat) :
    (¬ file.Copyable ∧
      (loadProgram file (loadStart s) (some s.ctx.heap.next) lo hi).1 = .crashed) ∨
    (file.Copyable ∧ ∃ d sb s',
      loadProgram file (loadStart s) (some s.ctx.heap.next) lo hi =
        (.loaded (loadedProgram file d lo hi), some s.ctx.heap.next,
          s'.switchPgd s.pageDirectory) ∧
      LoadRun T (loadStart s) s.live (fun m => (s.mm m).pgd) s.ctx.heap.next
        (some s.ctx.heap.next) file d sb s') := by
  have hsame := sameTables_loadStart h.ample
  have heq := loadStart_eq h.ample
  have hwf := h.wf.of_same hsame
  have ha : Ample (0 + file.frames) (loadStart s) := by
    rw [heq, zero_add]
    exact h.ample.of_eq rfl rfl rfl fun _ hf => hf
  have hpd : (loadStart s).pageDirectory = s.pageDirectory := by rw [heq]
  have hnew : NewMm (loadStart s) (some s.ctx.heap.next) s.ctx.heap.next := by
    refine .inl ⟨rfl, ?_⟩
    rw [heq]
    dsimp only
    rw [update_self]
  have hcur : (loadStart s).pageDirectory = (loadStart s).kernelDir ∨
      ∃ m0 ∈ s.live, (loadStart s).pageDirectory = (s.mm m0).pgd := by
    rw [hpd]
    exact .inr h.own
  rcases Fs.loadProgram_cases hwf h.notMem_live ha hnew hcur lo hi with
    hno | ⟨hc, d, sb, s', hl, hrun, -⟩
  · exact .inl hno
  · rw [hpd] at hl
    exact .inr ⟨hc, d, sb, s', hl, hrun⟩

lemma kernelLoad_eq (hl : Loads resolve name file) :
    ∃ lo hi, kernelLoadUserProgram resolve (started true s).2 (some s.ctx.heap.next) name =
      loadProgram file (loadStart s) (some s.ctx.heap.next) lo hi := by
  have ha1 : Ample file.frames (started true s).2 := by
    rw [started_true h.ample]
    exact h.ample.of_eq rfl rfl rfl fun _ hf => hf
  rcases kernelLoad_cases ha1 (some s.ctx.heap.next) with
    ⟨file', lo, hi, hl', hload⟩ | ⟨hno, -⟩
  · have hsame := hl.1.symm.trans hl'.1
    cases hsame
    exact ⟨lo, hi, hload⟩
  · exact absurd ⟨file, hl⟩ hno

lemma loadRun (hl : Loads resolve name file)
    (hx : ExecLoads resolve s name m s₁ p s₂) : file.Copyable ∧ m = s.ctx.heap.next ∧
      SameTables s s₁ ∧ ∃ sb s', s₂ = s'.switchPgd s.pageDirectory ∧
      LoadRun T (loadStart s) s.live (fun m => (s.mm m).pgd) m (some m) file p.dir sb s' := by
  have hstart : s.mmCreate = started true s := rfl
  have hcreate := hx.create
  rw [hstart, started_true h.ample] at hcreate
  obtain ⟨rfl, rfl⟩ : s.ctx.heap.next = m ∧ (started true s).2 = s₁ := by
    rw [started_true h.ample]
    cases hcreate
    exact ⟨rfl, rfl⟩
  obtain ⟨lo, hi, hload⟩ := h.kernelLoad_eq hl
  have hres := hx.load
  rw [hload] at hres
  rcases h.loadProgram_cases lo hi with ⟨-, hno⟩ | ⟨hc, d, sb, s', hok, hrun⟩
  · rw [hres] at hno
    cases hno
  · rw [hres] at hok
    cases hok
    refine ⟨hc, rfl, ?_, sb, s', rfl, hrun⟩
    rw [started_true h.ample]
    exact ⟨rfl, rfl, rfl, rfl, fun _ => rfl⟩

lemma exists_execLoads (hl : Loads resolve name file)
    (hc : file.Copyable) : ∃ m s₁ p s₂, ExecLoads resolve s name m s₁ p s₂ := by
  obtain ⟨lo, hi, hload⟩ := h.kernelLoad_eq hl
  rcases h.loadProgram_cases lo hi with ⟨hno, -⟩ | ⟨-, d, sb, s', hok, -⟩
  · exact absurd hc hno
  · refine ⟨_, _, _, _, ⟨?_, hload.trans hok⟩⟩
    show started true s = _
    rw [started_true h.ample]

end

end Caller

/-! ## The new directory -/

lemma readWrite_of_loaded (h : Caller T N file s) (hl : Loads resolve name file)
    (hx : ExecLoads resolve s name m s₁ p s₂) {seg : Elf32Phdr} (hseg : seg ∈ file.segments)
    (hv : v ∈ pagesIn seg.segStart seg.segEnd) :
    ((enterProgram s₂ m p).pte p.dir v).readWrite = true := by
  obtain ⟨hc, -, -, sb, s', rfl, hrun⟩ := h.loadRun hl hx
  have hr := userRange_of_bounded (hc seg hseg).1 (memsz_ne_zero hseg)
  have hP : v ∈ file.pages :=
    mem_pages.mpr ⟨seg.range, mem_append_left _ (mem_map_of_mem hseg), hv⟩
  obtain ⟨f, hf⟩ := hrun.done.filled v (hr.lt_userPages hv) hP
  rw [update_self] at hf
  show (s'.pte p.dir v).readWrite = true
  rw [hf]
  rfl

/-! ## The other directories -/

lemma pte_eq_of_apart (h : Wf T s M D) (hap : Apart m s s s')
    (hd : d = s.kernelDir ∨ ∃ m' ∈ M, d = D m') (hv : v < 0x100000) :
    s'.pte d v = s.pte d v := by
  have hi : v / ptrsPerPte < ptrsPerPte := by
    unfold ptrsPerPte
    omega
  have hkernel : ∀ i, userPdes ≤ i → i < ptrsPerPte → (s.dir s.kernelDir i).present = true →
      s.free (s.dir s.kernelDir i).pfn = false := fun i hlo hhi hp =>
    (h.used (.kernelTable i) _ ((held_kernelTable hlo hhi).trans
      (Pte.frame_eq_some.mpr ⟨hp, rfl⟩))).1
  -- the directory and its tables are frames in use
  have hdir : s.free d = false := by
    rcases hd with rfl | ⟨m', hm', rfl⟩
    · exact (h.used .kernelDir _ rfl).1
    · exact (h.used (.dir m') _ (held_dir hm')).1
  have htable : (s.dir d (v / ptrsPerPte)).present = true →
      s.free (s.dir d (v / ptrsPerPte)).pfn = false := by
    intro hp
    rcases hd with rfl | ⟨m', hm', rfl⟩
    · by_cases hu : v / ptrsPerPte < userPdes
      · rw [h.kernelUser _ hu] at hp
        cases hp
      · exact hkernel _ (Nat.le_of_not_lt hu) hi hp
    · by_cases hu : v / ptrsPerPte < userPdes
      · exact (h.used (.table m' _) _ ((held_table hm' hu).trans
          (Pte.frame_eq_some.mpr ⟨hp, rfl⟩))).1
      · obtain ⟨hpk, hpfn⟩ := h.kernelHalf m' hm' _ (Nat.le_of_not_lt hu) hi hp
        rw [← hpfn]
        exact hkernel _ (Nat.le_of_not_lt hu) hi hpk
  unfold pte
  rw [hap.dir d hdir]
  split
  case isTrue hp => rw [hap.table _ (htable hp)]
  case isFalse => rfl

lemma onlyData_copySegments (h : Copying T s₀ M D m visited P s) (ha : Ample k s)
    (hm : m ∈ M) (hsegs : ∀ p ∈ segs, UserRange p.segStart p.segEnd)
    (hno : ∀ p ∈ segs, ¬ p.Protects) (hfold : segs.foldlM (copySegment file m) s = some s') :
    OnlyData s s' := by
  induction segs generalizing s with
  | nil =>
    rw [← Option.some.inj hfold]
    exact OnlyData.refl s
  | cons p rest ih =>
    rw [foldlM_cons] at hfold
    rcases h.copySegment ha hm file (hsegs p mem_cons_self) with
      ⟨-, s₁, hs1, h1, ha1, hc1⟩ | ⟨-, hs1⟩
    · rw [hs1, bind_eq_bind, bind_some] at hfold
      exact (hc1.quiet (hno p mem_cons_self)).trans
        (ih h1 ha1 (forall_mem_cons.mp hsegs).2 (forall_mem_cons.mp hno).2 hfold)
    · rw [hs1] at hfold
      cases hfold

/-- The first effective call of `do_mprotect` takes the write permission from a page. -/
lemma copySegments_protects (h : Copying T s₀ M D m visited P s) (ha : Ample k s)
    (hm : m ∈ M) (heq : segs = pre ++ q :: post) (hsegs : ∀ p ∈ segs, UserRange p.segStart p.segEnd)
    (hpre : ∀ p ∈ pre, ¬ p.Protects) (hq : q.Protects)
    (harea : ∃ a ∈ (s.mm m).mmap, a.vmStart ≤ q.segStart ∧ q.segEnd ≤ a.vmEnd) {m0 : Nat}
    (hm0 : m0 ∈ M) (hne : m0 ≠ m) (hpgd : (s.mm m).pgd = D m0)
    (hv : v ∈ pagesIn q.segStart q.segEnd) (hpr : (s.pte (D m0) v).present = true)
    (hfold : segs.foldlM (copySegment file m) s = some s') :
    (s'.pte (D m0) v).readWrite = false := by
  subst heq
  rw [foldlM_append] at hfold
  obtain ⟨hsegs1, hsegs2⟩ := forall_mem_append.mp hsegs
  obtain ⟨hrange, hsegs2⟩ := forall_mem_cons.mp hsegs2
  rcases h.copySegments ha hm file hsegs1 with ⟨-, s₁, hs1, h1, ha1, -⟩ | ⟨-, hs1⟩
  · obtain ⟨b, rfl⟩ := onlyData_copySegments h ha hm hsegs1 hpre hs1
    rw [hs1, bind_eq_bind, bind_some, foldlM_cons] at hfold
    rcases h1.copySegment ha1 hm file hrange with ⟨-, s₂, hs2, h2, ha2, hc2⟩ | ⟨-, hs2⟩
    · rw [hs2, bind_eq_bind, bind_some] at hfold
      have hro := hc2.protects hq harea m0 hm0 hpgd v hv hpr
      rcases h2.copySegments ha2 hm file hsegs2 with ⟨-, s3, hs3, -, -, hd⟩ | ⟨-, hs3⟩
      · rw [hs3] at hfold
        cases hfold
        exact hd.readOnly m0 hm0 hne v (hrange.lt_userPages hv) hro
      · rw [hs3] at hfold
        cases hfold
    · rw [hs2] at hfold
      cases hfold
  · rw [hs1] at hfold
    cases hfold

lemma LoadRun.pte_start (h : LoadRun T s M D m (some m) file d s₁ s') (hwf : Wf T s M D)
    {d' : Nat} (hd : d' = s.kernelDir ∨ ∃ m' ∈ M, d' = D m') (hv : v < 0x100000) :
    (s₁.switchPgd d).pte d' v = s.pte d' v :=
  (pte_eq_of_apart hwf (h.apart rfl) hd hv : s₁.pte d' v = s.pte d' v)

lemma LoadRun.userRange (h : LoadRun T s M D m (some m) file d s₁ s') :
    ∀ p ∈ file.segments, UserRange p.segStart p.segEnd := fun p hp =>
  userRange_of_bounded (bounded_of_copySegments (fun _ hq => memsz_ne_zero hq) h.copies p hp)
    (memsz_ne_zero hp)

section

variable (h : Caller T N file s) (hl : Loads resolve name file)
variable (hx : ExecLoads resolve s name m s₁ p s₂)
include h hl hx

lemma others_of_quiet (hno : ∀ q ∈ file.segments, ¬ q.Protects)
    (hd : d = s.kernelDir ∨ ∃ m' ∈ s.live, d = (s.mm m').pgd) (hv : v < 0x100000) :
    s₂.pte d v = s₁.pte d v := by
  obtain ⟨-, -, hsame1, sb, s', rfl, hrun⟩ := h.loadRun hl hx
  have hsame := sameTables_loadStart h.ample
  have hd' : d = (loadStart s).kernelDir ∨ ∃ m' ∈ s.live, d = (s.mm m').pgd := by
    rw [hsame.kernelDir]
    exact hd
  have hstart := hrun.pte_start (h.wf.of_same hsame) hd' hv
  obtain ⟨b, rfl⟩ := onlyData_copySegments hrun.start hrun.ample (Finset.mem_insert_self m s.live)
    hrun.userRange hno hrun.copies
  rw [hsame.pte] at hstart
  rw [hsame1.pte]
  exact hstart

/-- A writable page of the caller in the first segment that `do_mprotect` gets loses its write
permission. -/
lemma caller_loses_write (hsegs : file.segments = pre ++ q :: post)
    (hpre : ∀ r ∈ pre, ¬ r.Protects) (hq : q.Protects) (hv : v ∈ pagesIn q.segStart q.segEnd)
    (hpr : (s.pte s.pageDirectory v).present = true) :
    (s₂.pte s.pageDirectory v).readWrite = false := by
  obtain ⟨-, rfl, -, sb, s', rfl, hrun⟩ := h.loadRun hl hx
  obtain ⟨m0, hm0, hown⟩ := h.own
  have hsame := sameTables_loadStart h.ample
  have hne : m0 ≠ s.ctx.heap.next := fun e => h.notMem_live (e ▸ hm0)
  have hD : update (fun m => (s.mm m).pgd) s.ctx.heap.next p.dir m0 = s.pageDirectory := by
    rw [update_of_ne hne]
    exact hown.symm
  have hqmem : q ∈ file.segments := by
    rw [hsegs]
    exact mem_append_right _ mem_cons_self
  have hvlt : v < 0x100000 := ((hrun.userRange q hqmem).lt_userPages hv).trans (by decide)
  have hstart := hrun.pte_start (h.wf.of_same hsame) (.inr ⟨m0, hm0, hown⟩) hvlt
  rw [hsame.pte] at hstart
  have hpgd : ((sb.switchPgd p.dir).mm s.ctx.heap.next).pgd = s.pageDirectory := by
    refine (hrun.apart rfl).pgd.trans ?_
    rw [loadStart_eq h.ample]
    dsimp only
    rw [update_self]
  have hro := copySegments_protects hrun.start hrun.ample
    (Finset.mem_insert_self s.ctx.heap.next s.live) hsegs hrun.userRange hpre hq
    (hrun.areas q hqmem) (Finset.mem_insert_of_mem hm0) hne (hpgd.trans hD.symm) hv
    (by rw [hD, hstart]; exact hpr) hrun.copies
  rw [hD] at hro
  exact hro

end

/-! ## A caller -/

/-- A machine with one process that has a single page, which is writable. -/
def callerVm (N v : Nat) : Vm :=
  { (mapFreshPage 0 2 (ensurePrivateTable 2 (bootVm N).pgdCloneKernel.2 (v / ptrsPerPte)) v).2 with
    live := insert 0 ∅
    mm := update (bootVm N).mm 0 ⟨2, 0, 0, 0, 0, 0, []⟩
    pageDirectory := 2
    ctx := ⟨⟨1, fun _ => true⟩, 1⟩ }

lemma mm_callerVm (N v : Nat) : (callerVm N v).mm 0 = ⟨2, 0, 0, 0, 0, 0, []⟩ :=
  update_self 0 _ (bootVm N).mm

lemma pgd_callerVm (N v : Nat) :
    (fun m => ((callerVm N v).mm m).pgd) = update (fun m => ((bootVm N).mm m).pgd) 0 2 := by
  funext m
  by_cases hm : m = 0
  · rw [hm, update_self, mm_callerVm]
  · have hmm : (callerVm N v).mm m = (bootVm N).mm m := update_of_ne hm ..
    rw [update_of_ne hm, hmm]

lemma image_callerVm (T : Tally) (hN : k + 6 ≤ N) (hv : v < userPages) :
    Image T (bootVm N) (insert 0 ∅) (fun m => ((callerVm N v).mm m).pgd) 0 [v / ptrsPerPte] (insert v ∅) (callerVm N v) ∧ Ample k (callerVm N v) := by
  have ha : Ample (k + 2 + 1 + 1) (bootVm N) := ample_bootVm (by omega)
  obtain ⟨d, s₁, hclone, h1, ha1, -⟩ :=
    Image.pgdCloneKernel (m := 0) (running_bootVm T N).wf (Finset.notMem_empty 0) ha
  have hfree : (bootVm N).free 2 = true := decide_eq_true (by omega)
  have hfst : (bootVm N).pgdCloneKernel.1 = some 2 := by
    unfold pgdCloneKernel
    rw [allocPage_of_calm ha.calm]
    unfold nextFrame
    rw [show (bootVm N).env.frame (bootVm N).calls = some 2 from rfl]
    simp only [ne_eq, OfNat.ofNat_ne_zero, not_false_eq_true, hfree, and_self, if_true]
  obtain ⟨rfl, rfl⟩ : d = 2 ∧ s₁ = (bootVm N).pgdCloneKernel.2 := by
    rw [hclone] at hfst ⊢
    exact ⟨Option.some.inj hfst, rfl⟩
  rw [pgd_callerVm]
  have hD : update (fun m => ((bootVm N).mm m).pgd) 0 2 0 = 2 := update_self ..
  obtain ⟨h2, -⟩ := h1.ensurePrivateTable ha1 (Finset.mem_insert_self 0 ∅) (pde_lt hv)
  have ha2 := ample_ensurePrivateTable ha1 2 (v / ptrsPerPte)
  rw [hD] at h2
  obtain ⟨h3, -⟩ := h2.mapFreshPage ha2 (Finset.mem_insert_self 0 ∅) hv (mem_singleton_self _)
  have ha3 := (ample_mapFreshPage ha2 0 2 v).2
  rw [hD] at h3
  unfold callerVm
  generalize (mapFreshPage 0 2 (ensurePrivateTable 2 (bootVm N).pgdCloneKernel.2
    (v / ptrsPerPte)) v).2 = s at h3 ha3 ⊢
  exact ⟨h3.of_same ⟨rfl, rfl, rfl, rfl, fun _ => rfl⟩, ha3.calm, fun _ => rfl, ha3.frame, ha3.distinct⟩

lemma caller_callerVm (T : Tally) (hN : file.frames + 6 ≤ N) (hv : v < userPages) :
    Caller T N file (callerVm N v) := by
  obtain ⟨h, ha⟩ := image_callerVm T hN hv
  have hmem : 0 ∈ (callerVm N v).live := Finset.mem_insert_self 0 ∅
  have hzero : ∀ m ∈ (callerVm N v).live, m = 0 := fun m hm =>
    (Finset.mem_insert.mp hm).resolve_right (Finset.notMem_empty m)
  have hheld : (callerVm N v).held (insert 0 ∅) (fun m => ((callerVm N v).mm m).pgd) (.dir 0) =
      some ((callerVm N v).mm 0).pgd := held_dir hmem
  obtain ⟨hbase, hone⟩ := h.owned (.dir 0) _ rfl hheld
  have hpgd : ((callerVm N v).mm 0).pgd = 2 := congrArg MmStruct.pgd (mm_callerVm N v)
  refine ⟨⟨h.wf, fun m hm => ?_, Or.inr ⟨0, hmem, hpgd.symm⟩, fun m hm => ?_, fun f hf => ?_,
    fun m hm => ?_⟩, ⟨0, hmem, hpgd.symm⟩, ha⟩
  · rw [hzero m hm]
    exact zero_lt_one
  · rw [hzero m hm]
    exact hone
  · exact (of_decide_eq_true (h.free f hf)).2
  · rw [hzero m hm]
    exact (of_decide_eq_true hbase).2

lemma pte_callerVm (N : Nat) (hN : 6 ≤ N) (hv : v < userPages) :
    ((callerVm N v).pte (callerVm N v).pageDirectory v).present = true ∧
      ((callerVm N v).pte (callerVm N v).pageDirectory v).readWrite = true := by
  obtain ⟨h, -⟩ := image_callerVm (k := 0) .atLeast (by omega : 0 + 6 ≤ N) hv
  obtain ⟨f, hf⟩ := h.filled v hv (Set.mem_insert v ∅)
  have hpgd : ((callerVm N v).mm 0).pgd = (callerVm N v).pageDirectory :=
    congrArg MmStruct.pgd (mm_callerVm N v)
  rw [hpgd] at hf
  rw [hf]
  exact ⟨rfl, rfl⟩

/-! ## The result -/

/-- The list is split at its first effective call of `do_mprotect`. -/
lemma exists_first_protects (hq : q ∈ segs) (hp : q.Protects) :
    ∃ pre r post, segs = pre ++ r :: post ∧ (∀ x ∈ pre, ¬ x.Protects) ∧
      r.Protects := by
  induction segs with
  | nil => cases hq
  | cons x rest ih =>
    by_cases hx : x.Protects
    · exact ⟨[], x, rest, rfl, fun y hy => absurd hy not_mem_nil, hx⟩
    · have hrest : q ∈ rest := by
        refine (mem_cons.mp hq).resolve_left ?_
        rintro rfl
        exact hx hp
      obtain ⟨pre, r, post, heq, hpre, hr⟩ := ih hrest
      refine ⟨x :: pre, r, post, by rw [heq, cons_append], ?_, hr⟩
      exact forall_mem_cons.mpr ⟨hx, hpre⟩

lemma mem_pagesIn_segStart {start stop : Nat} (h : UserRange start stop) :
    start / pageSize ∈ pagesIn start stop := by
  have h1 := h.alignedStart
  have h2 := h.lt
  unfold PageAligned at h1
  rw [h.mem_pagesIn]
  unfold pageSize
  omega

/--
For all tasks that call `sys_execve` with enough memory, the permissions of the program that is
loaded under a name are enforced exactly when its read-only segments start in the first page and
share a page with a writable one.
-/
theorem permissions_enforced_iff (T : Tally) (resolve : List Char → Option ProgramFile)
    (name : List Char) :
    (∀ file N s m s₁ p s₂, Loads resolve name file → Caller T N file s →
      ExecLoads resolve s name m s₁ p s₂ → Enforced file s m s₁ p s₂) ↔
    ∀ file, Loads resolve name file → file.Copyable → file.FirstPageOnly := by
  constructor
  · intro hall file hl hc q hq hw
    have hr := userRange_of_bounded (hc q hq).1 (memsz_ne_zero hq)
    refine ⟨?_, ?_⟩
    · by_contra hlow
      have hprot : q.Protects := by
        refine ⟨hw, Nat.le_of_not_lt ?_⟩
        rw [segStart_lt_iff]
        exact hlow
      obtain ⟨pre, r, post, hsegs, hpre, hrp⟩ := exists_first_protects hq hprot
      have hrmem : r ∈ file.segments := by
        rw [hsegs]
        exact mem_append_right _ mem_cons_self
      have hrr := userRange_of_bounded (hc r hrmem).1 (memsz_ne_zero hrmem)
      have hv := mem_pagesIn_segStart hrr
      have hvlt := hrr.lt_userPages hv
      -- a caller with a writable page where the segment starts
      have hcall : Caller T (file.frames + 6) file _ := caller_callerVm T (le_refl _) hvlt
      obtain ⟨hpr, hrw⟩ := pte_callerVm (file.frames + 6) (Nat.le_add_left 6 _) hvlt
      obtain ⟨m, s₁, p, s₂, hx⟩ := hcall.exists_execLoads hl hc
      have hlost := caller_loses_write hcall hl hx hsegs hpre hrp hv hpr
      obtain ⟨m0, hm0, hown⟩ := hcall.own
      have hkept := (hall file _ _ m s₁ p s₂ hl hcall hx).others _ (.inr ⟨m0, hm0, hown⟩) _
        (hvlt.trans (by decide))
      obtain ⟨-, -, hsame, -⟩ := hcall.loadRun hl hx
      rw [hkept, hsame.pte, hrw] at hlost
      cases hlost
    · intro v hv
      by_contra hno
      have hcall : Caller T (file.frames + 6) file _ :=
        caller_callerVm T (le_refl _) (hr.lt_userPages hv)
      obtain ⟨m, s₁, p, s₂, hx⟩ := hcall.exists_execLoads hl hc
      have hpage : file.ReadOnlyPage v :=
        ⟨⟨q, hq, hw, hv⟩, fun w hwmem hww hv' => hno ⟨w, hwmem, hww, hv'⟩⟩
      have hro := ((hall file _ _ m s₁ p s₂ hl hcall hx).readOnly v hpage).2
      rw [readWrite_of_loaded hcall hl hx hq hv] at hro
      cases hro
  · intro hcond file N s m s₁ p s₂ hl hcall hx
    have hfirst := hcond file hl (hcall.loadRun hl hx).1
    refine ⟨?_, fun d hd v hv => ?_⟩
    · rintro v ⟨⟨q, hq, hqw, hv⟩, hno⟩
      obtain ⟨w, hw, hww, hv'⟩ := (hfirst q hq hqw).2 v hv
      exact absurd hv' (hno w hw hww)
    · refine others_of_quiet hcall hl hx (fun q hq hp => ?_) hd hv
      have hlow := (hfirst q hq hp.1).1
      rw [← segStart_lt_iff] at hlow
      exact absurd hp.2 (not_le.mpr hlow)

lemma triple_eq {α β γ : Type} {r : α × β × γ} {a : α} {b : β} (ha : r.1 = a) (hb : r.2.1 = b) :
    r = (a, b, r.2.2) := by
  subst ha hb
  rfl

/-- A read-only text segment of one page. -/
def textFile : ProgramFile :=
  elfFile 0x400000 [⟨1, 0, 0x400000, 52, 0x1000, 5⟩]

/-- The loader on behalf of a task with a writable page where the text starts. -/
def textLoad : LoadResult × Option Nat × Vm :=
  kernelLoadUserProgram (fun _ => some textFile) (callerVm 64 0x400).mmCreate.2 (some 1) ['a']

def textProgram : LoadedProgram :=
  ⟨0x400000, userStackTop, 5, 0x400000, 1, userStackBase⟩

/--
A program with a read-only text segment, run by a task with a writable page at the same address:
the text is writable in the new directory, and the page of the caller is read-only.
-/
theorem text_stays_writable :
    Caller .atLeast 64 textFile (callerVm 64 0x400) ∧
      Loads (fun _ => some textFile) ['a'] textFile ∧
      ∃ m s₁ p s₂, ExecLoads (fun _ => some textFile) (callerVm 64 0x400) ['a'] m s₁ p s₂ ∧
        ((enterProgram s₂ m p).pte p.dir 0x400).readWrite = true ∧
        (s₁.pte 2 0x400).readWrite = true ∧ (s₂.pte 2 0x400).readWrite = false ∧
        ¬ Enforced textFile (callerVm 64 0x400) m s₁ p s₂ := by
  have hcall : Caller .atLeast 64 textFile (callerVm 64 0x400) :=
    caller_callerVm .atLeast (by decide +kernel) (by decide)
  have hl : Loads (fun _ => some textFile) ['a'] textFile :=
    ⟨rfl, by decide +kernel, rfl, 0x400000, 0x401000, by decide +kernel⟩
  have hm : (callerVm 64 0x400).mmCreate.1 = some 1 := by
    decide +kernel
  have hres : textLoad.1 = .loaded textProgram := by
    decide +kernel
  have hmm : textLoad.2.1 = some 1 := by
    decide +kernel
  have hx : ExecLoads (fun _ => some textFile) (callerVm 64 0x400) ['a'] 1
      (callerVm 64 0x400).mmCreate.2 textProgram textLoad.2.2 :=
    ⟨Prod.ext hm rfl, triple_eq hres hmm⟩
  have hnew : ((enterProgram textLoad.2.2 1 textProgram).pte textProgram.dir 0x400).readWrite =
      true := by
    decide +kernel
  have hold : ((callerVm 64 0x400).mmCreate.2.pte 2 0x400).readWrite = true := by
    decide +kernel
  have hlost : (textLoad.2.2.pte 2 0x400).readWrite = false := by
    decide +kernel
  refine ⟨hcall, hl, 1, _, textProgram, textLoad.2.2, hx, hnew, hold, hlost, fun he => ?_⟩
  have hsegs : textFile.segments = [⟨1, 0, 0x400000, 52, 0x1000, 5⟩] := by
    decide +kernel
  have hpage : textFile.ReadOnlyPage 0x400 := by
    unfold ProgramFile.ReadOnlyPage
    rw [hsegs]
    refine ⟨⟨_, mem_singleton_self _, rfl, by decide +kernel⟩, fun q hq hw => ?_⟩
    rw [mem_singleton.mp hq] at hw
    cases hw
  have hro := (he.readOnly 0x400 hpage).2
  rw [hnew] at hro
  cases hro

end LiteKernel.Fs
