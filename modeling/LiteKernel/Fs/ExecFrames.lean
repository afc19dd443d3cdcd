import LiteKernel.Fs.ExecLoad

/-!
# The start of a load

The states in which a task calls the loader, and what the call does before it takes a frame.

Main results:

- Lemma `kernelLoad_cases`: the loader reads a file and goes on, or fails with nothing taken.
- Lemma `running_bootVm`: a machine without processes is such a state.
-/

namespace LiteKernel.Fs

open Finset Function Lib Mm Mm.Vm

variable {early : Bool} {p : LoadedProgram}

/-- The task runs the program that was loaded into `m`. -/
def enterProgram (s : Vm) (m : Nat) (p : LoadedProgram) : Vm :=
  (s.setMm m p.install).switchPgd p.dir

/-- The states in which a task calls the loader. -/
structure Running (T : Tally) (N : Nat) (s : Vm) : Prop where
  wf : Wf T s s.live fun m => (s.mm m).pgd
  ids : ∀ m ∈ s.live, m < s.ctx.heap.next
  current : s.pageDirectory = s.kernelDir ∨ ∃ m ∈ s.live, s.pageDirectory = (s.mm m).pgd
  counted : ∀ m ∈ s.live, (s.page (s.mm m).pgd).refcount = 1
  frames : ∀ f, s.free f = true → f < N
  dirs : ∀ m ∈ s.live, (s.mm m).pgd < N

/-- The file passes the checks of the loader. -/
def ProgramFile.Checked (file : ProgramFile) : Prop :=
  file.iSize ≠ 0 ∧ file.read = file.iSize ∧ ∃ lo hi, checkProgram file = .ok (lo, hi)

/-- The file that is loaded under a name. -/
def Loads (resolve : List Char → Option ProgramFile) (name : List Char) (file : ProgramFile) :
    Prop :=
  findProgram resolve name = some file ∧ file.Checked

variable {T : Tally} {s s' s0 : Vm} {M : Finset Nat} {D : Nat → Nat} {m k N : Nat}
  {resolve : List Char → Option ProgramFile} {name : List Char}
  {accesses : List Access} {file : ProgramFile}

/-! ## Before the load -/

/-- The `mm_struct` the loader is called with, and the state. -/
def started (early : Bool) (s : Vm) : Option Nat × Vm :=
  if early then s.mmCreate else (none, s)

lemma started_true (ha : Ample k s) : started true s = (some s.ctx.heap.next,
    { s with
      ctx := s.ctx.kmalloc.2
      live := insert s.ctx.heap.next s.live
      mm := update s.mm s.ctx.heap.next ⟨s.pageDirectory, 0, 0, 0, 0, 0, []⟩ }) := by
  have hk : s.ctx.kmalloc.1 = some s.ctx.heap.next := if_pos (ha.heap _)
  show s.mmCreate = _
  unfold mmCreate
  rw [kmalloc_of_calm ha.calm, hk]

/-- The loader reads the file, or fails before it takes a frame. -/
lemma kernelLoad_cases (ha : Ample k s) (cur : Option Nat) :
    (∃ file lo hi, Loads resolve name file ∧ kernelLoadUserProgram resolve s cur name =
        loadProgram file { s with ctx := s.ctx.kmalloc.2 } cur lo hi) ∨
      ((¬ ∃ file, Loads resolve name file) ∧ ∃ e c, kernelLoadUserProgram resolve s cur name =
        (.failed e, cur, { s with ctx := c })) := by
  unfold kernelLoadUserProgram Loads
  cases hfind : findProgram resolve name with
  | none =>
    refine .inr ⟨?_, .notFound, s.ctx, rfl⟩
    rintro ⟨file, hf, -⟩
    cases hf
  | some file =>
    have honly : (∃ file', some file = some file' ∧ file'.Checked) → file.Checked := by
      rintro ⟨file', hf, hc⟩
      cases hf
      exact hc
    have hk : s.kmalloc = (some s.ctx.heap.next, { s with ctx := s.ctx.kmalloc.2 }) := by
      rw [kmalloc_of_calm ha.calm, show s.ctx.kmalloc.1 = some s.ctx.heap.next from
        if_pos (ha.heap _)]
    dsimp only
    by_cases hsize : file.iSize = 0
    · rw [if_pos hsize]
      exact .inr ⟨fun hc => (honly hc).1 hsize, .empty, s.ctx, rfl⟩
    rw [if_neg hsize, hk]
    split_ifs with hread
    · exact .inr ⟨fun hc => hread (honly hc).2.1, .readFailed, _, rfl⟩
    cases hcheck : checkProgram file with
    | error e =>
      refine .inr ⟨fun hc => ?_, e, _, rfl⟩
      obtain ⟨lo, hi, hok⟩ := (honly hc).2.2
      rw [hcheck] at hok
      cases hok
    | ok r => exact .inl ⟨file, r.1, r.2, ⟨rfl, hsize, not_not.mp hread, r.1, r.2, hcheck⟩, rfl⟩

/-! ## A machine without processes -/

/-- Of `N` frames those from `2` on are free, and are handed out one after the other. -/
def bootVm (N : Nat) : Vm where
  page _ := ⟨0, 0, none, 0, []⟩
  free f := decide (2 ≤ f ∧ f < N)
  dir _ _ := Pte.zero
  table _ _ := Pte.zero
  data _ _ := 0
  slot _ := none
  live := ∅
  mm _ := ⟨0, 0, 0, 0, 0, 0, []⟩
  kernelDir := 1
  pageDirectory := 1
  ctx := ⟨⟨0, fun _ => true⟩, 1⟩
  calls := 0
  failures := 0
  env := ⟨fun n => some (2 + n), fun _ => .done, fun _ => .done⟩

lemma held_bootVm (D : Nat → Nat) {u : Use} {f : Nat} (hu : (bootVm N).held ∅ D u = some f) :
    u = .kernelDir ∧ f = 1 := by
  cases u with
  | kernelDir => exact ⟨rfl, (Option.some.inj hu).symm⟩
  | dir m => simp [held] at hu
  | kernelTable i => simp [held, bootVm] at hu
  | table m i => simp [held] at hu
  | page m v => simp [held] at hu

lemma running_bootVm (T : Tally) (N : Nat) : Running T N (bootVm N) where
  wf := by
    refine ⟨⟨fun u u' f hu hu' => ?_, fun u f hu => ?_, fun _ _ => rfl,
      fun m hm => absurd hm (notMem_empty m), fun i _ _ hp => (by cases hp),
      fun m hm => absurd hm (notMem_empty m)⟩, fun f hf => ?_⟩
    · exact .inl ((held_bootVm _ hu).1.trans (held_bootVm _ hu').1.symm)
    · rw [(held_bootVm _ hu).2]
      exact ⟨rfl, one_ne_zero⟩
    · exfalso
      obtain ⟨m, hm, -⟩ := refsTo_pos_iff.mp (Nat.pos_of_ne_zero hf)
      exact notMem_empty m hm
  ids m hm := absurd hm (notMem_empty m)
  current := Or.inl rfl
  counted m hm := absurd hm (notMem_empty m)
  frames f hf := (of_decide_eq_true hf).2
  dirs m hm := absurd hm (notMem_empty m)

lemma ample_bootVm (hk : k + 2 ≤ N) : Ample k (bootVm N) where
  calm _ := ⟨rfl, rfl⟩
  heap _ := rfl
  frame i hi := ⟨2 + (0 + i), rfl, by omega, decide_eq_true (by omega)⟩
  distinct i j _ _ heq := by
    have hij : 2 + (0 + i) = 2 + (0 + j) := Option.some.inj heq
    omega

/-- A little-endian word. -/
def wordBytes (n : Nat) : List UInt8 :=
  [UInt8.ofNat n, UInt8.ofNat (n / 0x100), UInt8.ofNat (n / 0x10000), UInt8.ofNat (n / 0x1000000)]

/-- An executable with the given segments. -/
def elfFile (entry : Nat) (segs : List Elf32Phdr) : ProgramFile :=
  let ehdr : List UInt8 :=
    [0x7F, 0x45, 0x4C, 0x46, 1, 1, 1, 0, 0, 0, 0, 0, 0, 0, 0, 0, 2, 0, 3, 0, 1, 0, 0, 0] ++
      wordBytes entry ++ wordBytes ehdrSize ++ wordBytes 0 ++ wordBytes 0 ++
      [UInt8.ofNat ehdrSize, 0, UInt8.ofNat phdrSize, 0, UInt8.ofNat segs.length, 0, 0, 0, 0, 0, 0, 0]
  let phdrs : List UInt8 := segs.flatMap fun p =>
    wordBytes p.pType ++ wordBytes p.pOffset ++ wordBytes p.pVaddr ++ wordBytes 0 ++
      wordBytes p.pFilesz ++ wordBytes p.pMemsz ++ wordBytes p.pFlags ++ wordBytes 0x1000
  let bytes := ehdr ++ phdrs
  ⟨bytes.length, bytes.length, fun i => bytes.getD i 0⟩

end LiteKernel.Fs
