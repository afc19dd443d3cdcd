import LiteKernel.Fs.ExecImage

/-!
# Copying the segments and protecting them

The third loop of the loader runs on the finished directory. Every page of the areas has a frame
by then, so a store that faults cannot be handled. The calls of `do_mprotect` act on the
directory that the new `mm_struct` got from `mm_create`, which is not the one under construction.

Main results:

- Lemma `checkedRange_segment`: the stores of a segment stay in its pages.
- Lemma `protectPages_kernelDir`: the protection does not reach the new directory.
-/

namespace LiteKernel.Fs

open Function Lib Mm Mm.Vm List Option

variable {start stop : Nat} {s1 s2 s3 : Vm} {vs : List Nat} {p : Elf32Phdr} {file : ProgramFile}

/-- The finished directory of `m` is installed, while its `mm_struct` has another one. -/
structure Copying (T : Tally) (s0 : Vm) (M : Finset Nat) (D : Nat → Nat) (m : Nat)
    (visited : List Nat) (P : Set Nat) (s : Vm) : Prop extends Image T s0 M D m visited P s where
  current : s.pageDirectory = D m
  loose : VmaLoose s.ctx (s.mm m).mmap
  covered : ∀ v, Covered (s.mm m).mmap (v * pageSize) ↔ v ∈ P
  pgd : (s.mm m).pgd = s.kernelDir ∨ ∃ m0 ∈ M, m0 ≠ m ∧ (s.mm m).pgd = D m0

variable {T : Tally} {s0 s s' : Vm} {M : Finset Nat} {D : Nat → Nat} {m k v : Nat}
  {visited : List Nat} {P : Set Nat}

/-! ## Stores -/

/-- The pages of a store. -/
def storedPages (va len : Nat) : List Nat :=
  List.range' (va / pageSize) ((va + len - 1) / pageSize + 1 - va / pageSize)

/-- The store stays inside the pages `P`. -/
def StoreOk (P : Set Nat) (va len : Nat) : Prop :=
  len = 0 ∨ va + len ≤ taskSize ∧ ∀ v ∈ storedPages va len, v ∈ P

/-- Only bytes differ. -/
def OnlyData (s s' : Vm) : Prop :=
  ∃ data, s' = { s with data := data }

lemma OnlyData.refl (s : Vm) : OnlyData s s :=
  ⟨s.data, rfl⟩

lemma OnlyData.trans (h1 : OnlyData s1 s2) (h2 : OnlyData s2 s3) : OnlyData s1 s3 := by
  obtain ⟨b, rfl⟩ := h1
  obtain ⟨c, rfl⟩ := h2
  exact ⟨c, rfl⟩

lemma lt_userPages_of_stored {va len : Nat} (hle : va + len ≤ taskSize)
    (hv : v ∈ storedPages va len) : v < userPages := by
  have hr := mem_range'_1.mp hv
  unfold pageSize at hr
  unfold taskSize at hle
  unfold userPages
  omega

namespace Copying

section

variable (h : Copying T s0 M D m visited P s)
include h

lemma of_onlyData (hs : OnlyData s s') : Copying T s0 M D m visited P s' := by
  obtain ⟨b, rfl⟩ := hs
  exact ⟨h.toImage.of_same ⟨rfl, rfl, rfl, rfl, fun _ => rfl⟩, h.current, h.loose, h.covered,
    h.pgd⟩

lemma touchPage (hv : v < userPages) (n : Nat) :
    (v ∈ P ∧ Fs.touchPage m (n + 1) s v = some s) ∨
      (v ∉ P ∧ Fs.touchPage m (n + 1) s v = none) := by
  rw [Fs.touchPage, h.current]
  by_cases hP : v ∈ P
  · exact .inl ⟨hP, if_pos ((h.present_iff hv).mpr hP)⟩
  · refine .inr ⟨hP, ?_⟩
    have hpr : ¬ (s.pte (D m) v).present = true := fun hc => hP ((h.present_iff hv).mp hc)
    rw [if_neg hpr]
    have hno : vmaAllows (s.mm m).mmap (v * pageSize) true false = false := by
      rw [← Bool.not_eq_true]
      exact fun hc => hP ((h.covered v).mp (covered_of_vmaAllows hc))
    have hlt : v * pageSize < taskSize := by
      unfold userPages at hv
      unfold pageSize taskSize
      omega
    have hfault : s.doPageFault (some m) (v * pageSize) ⟨false, true, false, false, false⟩ =
        (.killed, s) := by
      unfold doPageFault
      simp only [Bool.false_eq_true, if_false, isSome_some, Bool.true_and, Bool.false_or,
        hlt, decide_true, mul_div_pageSize, hno, not_false_eq_true, if_true, ge_iff_le,
        not_le.mpr hlt, ite_self]
    rw [hfault]

lemma storePages (va len : Nat) (b : Nat → UInt8)
    {vs : List Nat} (hlt : ∀ v ∈ vs, v < userPages) :
    ((∀ v ∈ vs, v ∈ P) ∧ ∃ s', vs.foldlM (storePage m va len b) s = some s' ∧ OnlyData s s') ∨
      (¬ (∀ v ∈ vs, v ∈ P) ∧ vs.foldlM (storePage m va len b) s = none) := by
  induction vs generalizing s with
  | nil => exact .inl ⟨fun v hv => absurd hv not_mem_nil, s, rfl, OnlyData.refl s⟩
  | cons v rest ih =>
    have hv := hlt v mem_cons_self
    rw [foldlM_cons]
    rcases h.touchPage hv 0xFFFFF with ⟨hP, heq⟩ | ⟨hP, heq⟩
    · have hstep : ∃ s1, storePage m va len b s v = some s1 ∧ OnlyData s s1 := by
        unfold storePage
        rw [show Fs.touchPage m maxFrames s v = some s from heq]
        exact ⟨_, rfl, _, rfl⟩
      obtain ⟨s1, hs1, hd1⟩ := hstep
      rw [hs1, bind_eq_bind, bind_some, forall_mem_cons]
      rcases ih (h.of_onlyData hd1) (forall_mem_cons.mp hlt).2 with
        ⟨hall, s2, hs2, hd2⟩ | ⟨hnot, hs2⟩
      · exact .inl ⟨⟨hP, hall⟩, s2, hs2, hd1.trans hd2⟩
      · exact .inr ⟨fun hc => hnot hc.2, hs2⟩
    · refine .inr ⟨fun hc => hP (hc v mem_cons_self), ?_⟩
      have hstep : storePage m va len b s v = none := by
        unfold storePage
        rw [show Fs.touchPage m maxFrames s v = none from heq]
      rw [hstep]
      rfl

lemma storeUser (va len : Nat) (b : Nat → UInt8) :
    (StoreOk P va len ∧ ∃ s', storeUser m s va len b = some s' ∧ OnlyData s s') ∨
      (¬ StoreOk P va len ∧ storeUser m s va len b = none) := by
  unfold Fs.storeUser StoreOk
  by_cases hlen : len = 0
  · rw [if_pos hlen]
    exact .inl ⟨.inl hlen, s, rfl, OnlyData.refl s⟩
  rw [if_neg hlen]
  by_cases hle : va + len ≤ taskSize
  · rw [if_neg (not_lt.mpr hle)]
    rcases h.storePages va len b fun v => lt_userPages_of_stored hle with
      ⟨hall, s', hs', hd⟩ | ⟨hnot, hs'⟩
    · exact .inl ⟨.inr ⟨hle, hall⟩, s', hs', hd⟩
    · refine .inr ⟨fun hc => ?_, hs'⟩
      rcases hc with hc | hc
      · exact hlen hc
      · exact hnot hc.2
  · rw [if_pos (Nat.lt_of_not_le hle)]
    refine .inr ⟨fun hc => ?_, rfl⟩
    rcases hc with hc | hc
    · exact hlen hc
    · exact hle hc.1

end

end Copying

/-! ## Protection -/

lemma mprotect_length (hr : UserRange start stop) :
    wrap (stop + (wordSize - start)) = stop - start := by
  have h1 := hr.lt
  have h2 := hr.le
  unfold taskSize at h2
  unfold wrap wordSize
  omega

lemma wrap_add_alignUp (hr : UserRange start stop) :
    alignUp (stop - start) = stop - start ∧ wrap (start + alignUp (stop - start)) = stop := by
  have h1 := hr.lt
  have h2 := hr.le
  have h3 := hr.alignedStart
  have h4 := hr.alignedStop
  unfold PageAligned at h3 h4
  unfold taskSize at h2
  have hal : alignUp (stop - start) = stop - start :=
    alignUp_of_pageAligned (by unfold PageAligned; omega) (by omega)
  rw [hal]
  refine ⟨rfl, ?_⟩
  rw [wrap_of_lt (by omega)]
  omega

/-- `do_mprotect` rejects the ranges that start in the first page. -/
lemma checkedRange_segment (hr : UserRange start stop) :
    checkedRange start (stop - start) = if start < 0x1000 then none else some stop := by
  have h1 := hr.lt
  obtain ⟨hal, hwrap⟩ := wrap_add_alignUp hr
  have hlen : stop - start ≠ 0 := by omega
  have hle : ¬ stop ≤ start := by omega
  rw [hal] at hwrap
  unfold checkedRange
  simp only [hal, hwrap, if_neg hlen, if_neg hle, if_neg (not_not_intro hr.alignedStart)]

lemma held_protectPages (h : Wf T s M D) (hm : m ∈ M) (hlt : ∀ v ∈ vs, v < userPages)
    (write : Bool) : (vs.foldl (protectPage write (D m)) s).held M D = s.held M D := by
  induction vs generalizing s with
  | nil => rfl
  | cons v rest ih =>
    have hv := hlt v mem_cons_self
    have hr := h.protectPage hm hv write
    rw [foldl_cons, ih hr.wf fun x hx => hlt x (mem_cons_of_mem v hx)]
    unfold protectPage getPteFlags
    rw [mul_div_pageSize]
    by_cases hpr : (s.pte (D m) v).present = true
    · simp only [if_pos hpr, if_neg (not_not_intro hpr)]
      exact h.held_setPteFlags hm hv hpr rfl rfl
    · have hz : ¬ Pte.zero.present = true := Bool.false_ne_true
      simp only [if_neg hpr, if_pos hz]

/-- The kernel's directory has no page to protect below `TASK_SIZE`. -/
lemma protectPages_kernelDir (h : Wf T s M D) (hlt : ∀ v ∈ vs, v < userPages) (write : Bool) :
    vs.foldl (protectPage write s.kernelDir) s = s := by
  refine foldlRecOn (motive := (· = s)) _ _ rfl fun t ht v hv => ?_
  have hpte : s.pte s.kernelDir v = Pte.zero := by
    unfold pte
    rw [h.kernelUser _ (pde_lt (hlt v hv))]
    rfl
  unfold protectPage getPteFlags
  rw [ht, mul_div_pageSize, hpte]
  rfl

/-- What the loop leaves of the pages of the other address spaces. -/
structure Dims (M : Finset Nat) (D : Nat → Nat) (m : Nat) (s s' : Vm) : Prop where
  readOnly : ∀ m' ∈ M, m' ≠ m → ∀ v, v < userPages → (s.pte (D m') v).readWrite = false →
    (s'.pte (D m') v).readWrite = false

lemma Dims.refl (M : Finset Nat) (D : Nat → Nat) (m : Nat) (s : Vm) : Dims M D m s s :=
  ⟨fun _ _ _ _ _ h => h⟩

lemma Dims.trans (h1 : Dims M D m s1 s2) (h2 : Dims M D m s2 s3) :
    Dims M D m s1 s3 where
  readOnly m' hm' hne v hv hro := h2.readOnly m' hm' hne v hv (h1.readOnly m' hm' hne v hv hro)

lemma OnlyData.dims (h : OnlyData s s') : Dims M D m s s' := by
  obtain ⟨b, rfl⟩ := h
  exact ⟨fun _ _ _ _ _ h => h⟩

namespace Copying

section

variable (h : Copying T s0 M D m visited P s)
include h

lemma putVma (ha : Ample k s) {mm : MmStruct}
    {c : VmaCtx} (hpgd : mm.pgd = (s.mm m).pgd) (hl : VmaLoose c mm.mmap)
    (hcov : ∀ x, Covered mm.mmap x ↔ Covered (s.mm m).mmap x) :
    Copying T s0 M D m visited P (s.putVma m mm c) ∧ Ample k (s.putVma m mm c) := by
  have hok : c.heap.ok = s.ctx.heap.ok := by
    funext n
    rw [hl.ok n, h.loose.ok n]
  obtain ⟨h1, hap1⟩ := h.toImage.putVma mm c hpgd
  have hmm : (s.putVma m mm c).mm m = mm := update_self ..
  refine ⟨⟨h1, h.current, ?_, fun v => ?_, ?_⟩, ha.of_eq rfl hok rfl fun _ hf => hf⟩
  · rw [hmm]
    exact hl
  · rw [hmm, hcov]
    exact h.covered v
  · rw [hap1.pgd]
    exact h.pgd

lemma protectPages (ha : Ample k s) (hm : m ∈ M)
    {m0 : Nat} (hm0 : m0 ∈ M) (hne : m0 ≠ m) {vs : List Nat} (hlt : ∀ v ∈ vs, v < userPages)
    (hnd : vs.Nodup) :
    Copying T s0 M D m visited P (vs.foldl (protectPage false (D m0)) s) ∧
      Ample k (vs.foldl (protectPage false (D m0)) s) ∧
      Dims M D m s (vs.foldl (protectPage false (D m0)) s) ∧
      ∀ v ∈ vs, (s.pte (D m0) v).present = true →
        ((vs.foldl (protectPage false (D m0)) s).pte (D m0) v).readWrite = false := by
  have hr := h.wf.protectPages hm0 hlt hnd false
  have hheld := held_protectPages h.wf hm0 hlt false
  set s' := vs.foldl (protectPage false (D m0)) s with hs'
  have hpte : ∀ v, v < userPages → s'.pte (D m) v = s.pte (D m) v := fun v hv =>
    hr.other m hm hne.symm v hv
  have hq := hr.quiet
  refine ⟨⟨⟨h.toOwnFrames.congr hr.wf hheld hr.free fun x => by rw [hr.page], fun i hi => ?_,
    fun v hv hP => ?_, fun v hv hP => ?_⟩, ?_, ?_, fun v => ?_, ?_⟩, ?_,
    ⟨fun m' hm' hne' v hv hro => ?_⟩, fun v hv hpr => ?_⟩
  · rw [hr.dir]
    exact h.slots i hi
  · rw [hpte v hv]
    exact h.filled v hv hP
  · rw [hpte v hv]
    exact h.blank v hv hP
  · rw [hq.pageDirectory]
    exact h.current
  · rw [hq.ctx, hq.mm]
    exact h.loose
  · rw [hq.mm]
    exact h.covered v
  · rw [hq.mm, hq.kernelDir]
    exact h.pgd
  · exact ha.congr hq.fixed hq.calls fun x hx => by rw [hr.free]; exact hx
  · by_cases hmm : m' = m0
    · subst hmm
      by_cases hc : v ∈ vs ∧ (s.pte (D m') v).present = true
      · rw [hr.changed v hv hc.1 hc.2]
        rfl
      · rw [hr.kept v hv hc]
        exact hro
    · rw [hr.other m' hm' hmm v hv]
      exact hro
  · rw [hr.changed v (hlt v hv) hv hpr]
    rfl

lemma doMprotect (ha : Ample k s) (hm : m ∈ M)
    {start stop prot : Nat} (hr : UserRange start stop) (hprot : (protFlags prot).write = false) :
    let s' := (s.doMprotect m start (stop - start) prot).2
    Copying T s0 M D m visited P s' ∧ Ample k s' ∧ Dims M D m s s' ∧
      (start < 0x1000 → s' = s) ∧
      (0x1000 ≤ start → (∃ a ∈ (s.mm m).mmap, a.vmStart ≤ start ∧ stop ≤ a.vmEnd) →
        ∀ m0 ∈ M, (s.mm m).pgd = D m0 → ∀ v ∈ pagesIn start stop,
          (s.pte (D m0) v).present = true → (s'.pte (D m0) v).readWrite = false) := by
  intro s'
  have hchecked := checkedRange_segment hr
  have hlt : ∀ v ∈ pagesIn start stop, v < userPages := fun v hv => hr.lt_userPages hv
  cases hvma : doMprotectVma s.ctx (s.mm m) start (stop - start) prot with
  | none =>
    have hs' : s' = s := by
      simp only [s', Vm.doMprotect, hvma]
    rw [hs']
    refine ⟨h, ha, Dims.refl M D m s, fun _ => rfl, fun hge hcover => ?_⟩
    -- a covering area makes the call succeed
    exfalso
    obtain ⟨a, hal, hlo, hhi⟩ := hcover
    rw [if_neg (not_lt.mpr hge)] at hchecked
    unfold doMprotectVma vmaFindCovering at hvma
    rw [hchecked] at hvma
    cases hfind : (s.mm m).mmap.find? fun v => v.covers start stop with
    | none =>
      have hno := List.find?_eq_none.mp hfind a hal
      simp only [VmArea.covers, ge_iff_le, hlo, hhi, decide_true, Bool.and_self] at hno
      exact hno trivial
    | some a' =>
      simp only [hfind] at hvma
      cases hvma
  | some r =>
    obtain ⟨mm', c'⟩ := r
    obtain ⟨hl', hcov', hpgd'⟩ := h.loose.doMprotect hvma
    obtain ⟨h1, ha1⟩ := h.putVma ha hpgd' hl' hcov'
    have hge : ¬ start < 0x1000 := by
      intro hc
      unfold doMprotectVma at hvma
      rw [hchecked, if_pos hc] at hvma
      cases hvma
    have hs' : s' = (pagesIn start stop).foldl (protectPage false (s.mm m).pgd)
        (s.putVma m mm' c') := by
      simp only [s', Vm.doMprotect, hvma, commitVma_of_calm fun n => (ha.calm n).2,
        updateMappedPageFlags, hprot, hpgd', (wrap_add_alignUp hr).2]
    have hd1 : Dims M D m s (s.putVma m mm' c') := ⟨fun _ _ _ _ _ hro => hro⟩
    rcases h.pgd with hk | ⟨m0, hm0, hne, hk⟩
    · have hsame : s' = s.putVma m mm' c' := by
        rw [hs', hk]
        exact protectPages_kernelDir h1.wf hlt false
      rw [hsame]
      refine ⟨h1, ha1, hd1, fun hc => absurd hc hge, fun _ _ m1 hm1 hm1k => ?_⟩
      exact absurd (hm1k.symm.trans hk) (h.wf.toSpace.dir_ne_kernelDir hm1)
    · obtain ⟨h2, ha2, hd2, hro⟩ := h1.protectPages ha1 hm hm0 hne hlt
        (UserRange.nodup_pagesIn start stop)
      rw [hk] at hs'
      rw [hs']
      refine ⟨h2, ha2, hd1.trans hd2, fun hc => absurd hc hge, fun _ _ m1 hm1 hm1k => ?_⟩
      have heq : m1 = m0 := h.wf.toSpace.dir_inj hm1 hm0 (hm1k.symm.trans hk)
      rw [heq]
      exact hro

end

end Copying

/-! ## The loop -/

/-- The stores for a segment stay inside the pages `P`. -/
def Storable (P : Set Nat) (p : Elf32Phdr) : Prop :=
  StoreOk P p.pVaddr p.pMemsz ∧ StoreOk P p.pVaddr p.pFilesz

/-- `do_mprotect` is called for the segment and does not reject its range. -/
def Elf32Phdr.Protects (p : Elf32Phdr) : Prop :=
  p.pfW = false ∧ 0x1000 ≤ p.segStart

/-- What copying a segment does. -/
structure CopiesSegment (M : Finset Nat) (D : Nat → Nat) (m : Nat) (p : Elf32Phdr) (s s' : Vm) :
    Prop extends Dims M D m s s' where
  quiet : ¬ p.Protects → OnlyData s s'
  protects : p.Protects → (∃ a ∈ (s.mm m).mmap, a.vmStart ≤ p.segStart ∧ p.segEnd ≤ a.vmEnd) →
    ∀ m0 ∈ M, (s.mm m).pgd = D m0 → ∀ v ∈ pagesIn p.segStart p.segEnd,
      (s.pte (D m0) v).present = true → (s'.pte (D m0) v).readWrite = false

lemma write_readOnlyProt (p : Elf32Phdr) : (protFlags (readOnlyProt p)).write = false := by
  unfold readOnlyProt
  split <;> decide

namespace Copying

section

variable (h : Copying T s0 M D m visited P s) (ha : Ample k s) (hm : m ∈ M)
include h ha hm

lemma copySegment (file : ProgramFile) {p : Elf32Phdr} (hp : UserRange p.segStart p.segEnd) :
    (Storable P p ∧ ∃ s', copySegment file m s p = some s' ∧
      Copying T s0 M D m visited P s' ∧ Ample k s' ∧ CopiesSegment M D m p s s') ∨
    (¬ Storable P p ∧ copySegment file m s p = none) := by
  unfold Fs.copySegment Storable
  rcases h.storeUser p.pVaddr p.pMemsz fun _ => 0 with ⟨hok1, s1, hs1, hd1⟩ | ⟨hno, hs1⟩
  swap
  · rw [hs1]
    exact .inr ⟨fun hc => hno hc.1, rfl⟩
  have h1 := h.of_onlyData hd1
  rw [hs1]
  simp only
  rcases h1.storeUser p.pVaddr p.pFilesz fun i => file.byte (wrap (p.pOffset + i)) with
    ⟨hok2, s2, hs2, hd2⟩ | ⟨hno, hs2⟩
  swap
  · rw [hs2]
    exact .inr ⟨fun hc => hno hc.2, rfl⟩
  have h2 := h1.of_onlyData hd2
  have hd := hd1.trans hd2
  have ha2 : Ample k s2 := by
    obtain ⟨b, rfl⟩ := hd
    exact ha.of_eq rfl rfl rfl fun _ hf => hf
  rw [hs2]
  simp only
  refine .inl ⟨⟨hok1, hok2⟩, ?_⟩
  split_ifs with hw
  · refine ⟨s2, rfl, h2, ha2, hd.dims, fun _ => hd, fun hc => ?_⟩
    rw [hc.1] at hw
    cases hw
  · rw [mprotect_length hp]
    obtain ⟨h3, ha3, hd3, hlow, hhigh⟩ := h2.doMprotect ha2 hm hp (write_readOnlyProt p)
    refine ⟨_, rfl, h3, ha3, hd.dims.trans hd3, fun hc => ?_, fun hc hcover => ?_⟩
    · rw [hlow]
      · exact hd
      · rw [Bool.not_eq_true] at hw
        exact Nat.lt_of_not_le fun hge => hc ⟨hw, hge⟩
    · obtain ⟨b, rfl⟩ := hd
      exact hhigh hc.2 hcover

lemma copySegments (file : ProgramFile) {segs : List Elf32Phdr}
    (hsegs : ∀ p ∈ segs, UserRange p.segStart p.segEnd) :
    ((∀ p ∈ segs, Storable P p) ∧ ∃ s', segs.foldlM (Fs.copySegment file m) s = some s' ∧
      Copying T s0 M D m visited P s' ∧ Ample k s' ∧ Dims M D m s s') ∨
    (¬ (∀ p ∈ segs, Storable P p) ∧ segs.foldlM (Fs.copySegment file m) s = none) := by
  induction segs generalizing s with
  | nil =>
    exact .inl ⟨fun p hp => absurd hp not_mem_nil, s, rfl, h, ha, Dims.refl M D m s⟩
  | cons p rest ih =>
    rw [foldlM_cons]
    rcases h.copySegment ha hm file (hsegs p mem_cons_self) with
      ⟨hok, s1, hs1, h1, ha1, hc1⟩ | ⟨hno, hs1⟩
    · rw [hs1, bind_eq_bind, bind_some, forall_mem_cons]
      rcases ih h1 ha1 (forall_mem_cons.mp hsegs).2 with
        ⟨hall, s2, hs2, h2, ha2, hd2⟩ | ⟨hnot, hs2⟩
      · exact .inl ⟨⟨hok, hall⟩, s2, hs2, h2, ha2, hc1.toDims.trans hd2⟩
      · exact .inr ⟨fun hc => hnot hc.2, hs2⟩
    · refine .inr ⟨fun hc => hno (hc p mem_cons_self), ?_⟩
      rw [hs1]
      rfl

end

end Copying

/-! ## Segments below `TASK_SIZE` -/

/-- The segment ends below `TASK_SIZE`, without overflow. -/
def Elf32Phdr.Bounded (p : Elf32Phdr) : Prop :=
  p.pVaddr + p.pMemsz ≤ taskSize

lemma userRange_of_bounded (h : p.Bounded) (hne : p.pMemsz ≠ 0) :
    UserRange p.segStart p.segEnd := by
  unfold Elf32Phdr.Bounded taskSize at h
  have hvend : p.vend = p.pVaddr + p.pMemsz := wrap_of_lt (by omega)
  have hup := alignUp_eq (v := p.vend) (by omega)
  have hal := pageAligned_alignUp p.vend
  have hlo := alignDown_le p.pVaddr
  unfold PageAligned at hal
  refine ⟨pageAligned_alignDown _, hal, ?_, ?_⟩
  · unfold Elf32Phdr.segStart Elf32Phdr.segEnd
    omega
  · unfold Elf32Phdr.segEnd taskSize
    omega

lemma bounded_of_copySegment (hne : p.pMemsz ≠ 0) (h : copySegment file m s p = some s') :
    p.Bounded := by
  by_contra hno
  have hnone : storeUser m s p.pVaddr p.pMemsz (fun _ => 0) = none := by
    unfold storeUser
    rw [if_neg hne, if_pos (Nat.lt_of_not_le hno)]
  unfold copySegment at h
  rw [hnone] at h
  cases h

lemma bounded_of_copySegments {segs : List Elf32Phdr} (hne : ∀ p ∈ segs, p.pMemsz ≠ 0)
    (h : segs.foldlM (copySegment file m) s = some s') : ∀ p ∈ segs, p.Bounded := by
  induction segs generalizing s with
  | nil => exact fun p hp => absurd hp not_mem_nil
  | cons p rest ih =>
    rw [foldlM_cons] at h
    cases hs : copySegment file m s p with
    | none =>
      rw [hs] at h
      cases h
    | some s1 =>
      rw [hs, bind_eq_bind, bind_some] at h
      refine forall_mem_cons.mpr ⟨bounded_of_copySegment (hne p mem_cons_self) hs, ?_⟩
      exact ih (forall_mem_cons.mp hne).2 h

end LiteKernel.Fs
