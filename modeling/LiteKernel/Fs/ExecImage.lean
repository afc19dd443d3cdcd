import LiteKernel.Fs.ExecMemory
import LiteKernel.Mm.Protect
import LiteKernel.Mm.OwnFrames
import LiteKernel.Mm.VmaCover

/-!
# The address space that the loader builds

The directory of a new program while the loader fills it: which directory entries have tables,
which pages have frames, and which areas the address space has.

Main results:

- Lemma `ensurePrivateTable`: a directory entry gets a table of its own.
- Lemma `buildSegments`: the segments of a file get tables, writable pages and areas.
- Lemma `buildStack`: the stack gets its pages and its area.
-/

namespace LiteKernel.Fs

open Function Lib Mm Mm.Vm List

variable {s1 s2 s3 : Vm} {R R' : List (Nat × Nat)}

/-! ## Ranges of user memory -/

/-- A non-empty range of pages below `TASK_SIZE`. -/
structure UserRange (start stop : Nat) : Prop where
  alignedStart : PageAligned start
  alignedStop : PageAligned stop
  lt : start < stop
  le : stop ≤ taskSize

namespace UserRange

variable {start stop v i x : Nat}

section

variable (h : UserRange start stop)
include h

lemma mem_pagesIn : v ∈ pagesIn start stop ↔ start ≤ v * pageSize ∧ v * pageSize < stop := by
  have h1 := h.alignedStart
  have h2 := h.alignedStop
  have h3 := h.le
  unfold PageAligned at h1 h2
  unfold taskSize at h3
  rw [Vm.mem_pagesIn, alignUp_of_pageAligned h.alignedStop (by omega)]
  unfold pageSize
  omega

lemma lt_userPages (hv : v ∈ pagesIn start stop) : v < userPages := by
  have hlt := (h.mem_pagesIn.mp hv).2.trans_le h.le
  unfold taskSize pageSize at hlt
  unfold userPages
  omega

lemma mem_slotsIn :
    i ∈ slotsIn start stop ↔
      start / (ptrsPerPte * pageSize) ≤ i ∧ i ≤ (stop - 1) / (ptrsPerPte * pageSize) := by
  have h1 := h.lt
  have h2 := h.le
  unfold taskSize at h2
  have hwrap : wrap (stop + (wordSize - 1)) = stop - 1 := by
    unfold wrap wordSize
    omega
  unfold slotsIn pgdIndex
  simp only [hwrap, mem_range'_1]
  omega

lemma lt_userPdes (hi : i ∈ slotsIn start stop) : i < userPdes := by
  have h2 := h.le
  have h3 := (h.mem_slotsIn.mp hi).2
  unfold taskSize at h2
  unfold ptrsPerPte pageSize at h3
  unfold userPdes
  omega

lemma slot_mem (hv : v ∈ pagesIn start stop) : v / ptrsPerPte ∈ slotsIn start stop := by
  have hv' := h.mem_pagesIn.mp hv
  rw [h.mem_slotsIn]
  unfold pageSize at hv'
  unfold ptrsPerPte pageSize
  omega

end

lemma nodup_pagesIn (start stop : Nat) : (pagesIn start stop).Nodup :=
  nodup_range'

end UserRange

lemma userRange_stack : UserRange userStackBase userStackTop :=
  ⟨by decide, by decide, by decide, by decide⟩

/-! ## What the construction leaves alone -/

/-- Building the address space `m` keeps the tables in use in `s0` and the directories. -/
structure Apart (m : Nat) (s0 s s' : Vm) : Prop where
  dir : ∀ x, s0.free x = false → s'.dir x = s.dir x
  table : ∀ x, s0.free x = false → s'.table x = s.table x
  kernelDir : s'.kernelDir = s.kernelDir
  pageDirectory : s'.pageDirectory = s.pageDirectory
  pgd : (s'.mm m).pgd = (s.mm m).pgd

variable {T : Tally} {s0 s s' : Vm} {M : Finset Nat} {D : Nat → Nat} {m k v i : Nat}

lemma Apart.refl (m : Nat) (s0 s : Vm) : Apart m s0 s s :=
  ⟨fun _ _ => rfl, fun _ _ => rfl, rfl, rfl, rfl⟩

lemma Apart.trans (h1 : Apart m s0 s1 s2) (h2 : Apart m s0 s2 s3) :
    Apart m s0 s1 s3 where
  dir x hx := (h2.dir x hx).trans (h1.dir x hx)
  table x hx := (h2.table x hx).trans (h1.table x hx)
  kernelDir := h2.kernelDir.trans h1.kernelDir
  pageDirectory := h2.pageDirectory.trans h1.pageDirectory
  pgd := h2.pgd.trans h1.pgd

lemma apart_of_confined (h : Confined s0 s s') (m : Nat) : Apart m s0 s s' where
  dir := h.dir
  table := h.table
  kernelDir := h.fixed.kernelDir
  pageDirectory := h.fixed.pageDirectory
  pgd := by rw [h.fixed.mm]

/-! ## Directories under construction -/

/-- The directory of `m` has tables for the entries `visited` and writable pages `P`. -/
structure Image (T : Tally) (s0 : Vm) (M : Finset Nat) (D : Nat → Nat) (m : Nat)
    (visited : List Nat) (P : Set Nat) (s : Vm) : Prop
    extends OwnFrames T s0 M D m s where
  slots : ∀ i, i < userPdes → ((s.dir (D m) i).present = true ↔ i ∈ visited)
  filled : ∀ v, v < userPages → v ∈ P → ∃ f, s.pte (D m) v = ⟨PteFlags.userPage true, f⟩
  blank : ∀ v, v < userPages → v ∉ P → s.pte (D m) v = Pte.zero

variable {visited : List Nat} {P : Set Nat}

lemma loose_of_fixed (h : VmaLoose s.ctx (s.mm m).mmap) (hf : Fixed s s') :
    VmaLoose s'.ctx (s'.mm m).mmap where
  ok n := by
    rw [hf.heapOk]
    exact h.ok n
  nodes := by
    rw [hf.mm]
    exact ⟨h.nodes.nodup, fun v hv => (h.nodes.old v hv).trans_le hf.heapNext⟩
  tidy := by
    rw [hf.mm]
    exact h.tidy

namespace Image

lemma of_same (h : Image T s0 M D m visited P s) (hs : SameTables s s') :
    Image T s0 M D m visited P s' where
  toOwnFrames := h.toOwnFrames.of_same hs
  slots := hs.dir ▸ h.slots
  filled v hv hP := hs.pte (D m) v ▸ h.filled v hv hP
  blank v hv hP := (hs.pte (D m) v).trans (h.blank v hv hP)

lemma present_iff (h : Image T s0 M D m visited P s) (hv : v < userPages) :
    (s.pte (D m) v).present = true ↔ v ∈ P := by
  by_cases hP : v ∈ P
  · obtain ⟨f, hf⟩ := h.filled v hv hP
    rw [hf]
    exact ⟨fun _ => hP, fun _ => rfl⟩
  · rw [h.blank v hv hP]
    exact iff_of_false Bool.false_ne_true hP

lemma pgdCloneKernel (h : Wf T s M D) (hm : m ∉ M) (ha : Ample (k + 1) s) :
    ∃ d s', s.pgdCloneKernel = (some d, s') ∧
      Image T s (insert m M) (update D m d) m [] ∅ s' ∧ Ample k s' ∧ Confined s s s' := by
  have hnone : ∀ u : Use, u.Of m → s.held M D u = none := by
    intro u hu
    cases u with
    | kernelDir => cases hu
    | kernelTable i => cases hu
    | dir m' =>
      cases hu
      exact if_neg hm
    | table m' i =>
      cases hu
      exact if_neg fun hc => hm hc.1
    | page m' v =>
      cases hu
      exact if_neg fun hc => hm hc.1
  have hb0 : OwnFrames T s M D m s := by
    refine ⟨h, fun _ hf => hf, fun u f hu hf => ?_⟩
    rw [hnone u hu] at hf
    cases hf
  obtain ⟨d, halloc, hd, hb1, hfr, ha1, hc1⟩ := hb0.allocPage ha
  set s1 : Vm := { s.takeFrame d with calls := s.calls + 1 } with hs1
  have hheld := hb1.wf.toSpace.held_cloneDir hm hfr.unheld
  have hown := hb1.place hd hfr.refcount (hb1.wf.cloneDir hm hfr) hheld rfl fun _ => rfl
  have hdir : (s1.cloneDir d).dir (update D m d m) = s1.dir s1.kernelDir := by
    rw [update_self]
    exact update_self ..
  refine ⟨d, s1.cloneDir d, ?_, ⟨hown, fun i hi => ?_,
    fun v _ hP => absurd hP (Set.notMem_empty v), fun v hv _ => ?_⟩, ?_, ?_⟩
  · unfold Vm.pgdCloneKernel
    rw [halloc]
  · rw [hdir, hb1.wf.kernelUser i hi]
    simp
  · rw [update_self]
    exact hb1.wf.toSpace.pte_cloneDir_new hv
  · exact ha1.of_eq rfl rfl rfl fun _ hf => hf
  · refine hc1.trans ⟨fun x hx => ?_, fun _ _ => rfl,
      ⟨rfl, rfl, rfl, rfl, rfl, rfl, le_refl _⟩⟩
    have hne : x ≠ d := by
      rintro rfl
      rw [hd] at hx
      cases hx
    exact update_of_ne hne ..

/-! ## Tables -/

section

variable (h : Image T s0 M D m visited P s)
include h

/-- A directory entry gets a table, also when it has one already. -/
lemma ensurePrivateTable (ha : Ample (k + 1) s) (hm : m ∈ M) (hi : i < userPdes) :
    Image T s0 M D m (visited ++ [i]) P (ensurePrivateTable (D m) s i) ∧
      Confined s0 s (Fs.ensurePrivateTable (D m) s i) := by
  obtain ⟨t, halloc, ht, hb1, hfr1, -, hc1⟩ := h.toOwnFrames.allocPage ha
  set s1 : Vm := { s.takeFrame t with calls := s.calls + 1 } with hs1
  -- both branches put a table with the entries of the old one in place
  obtain ⟨c, hstep, hc⟩ : ∃ c, Fs.ensurePrivateTable (D m) s i = s1.putTable (D m) i t c true ∧
      TableFor s1 (D m) i c := by
    unfold Fs.ensurePrivateTable
    split_ifs with hp
    · rw [halloc]
      exact ⟨s1.table (s.dir (D m) i).pfn, rfl, tableFor_self (s := s1) hp⟩
    · rw [halloc]
      rw [Bool.not_eq_true] at hp
      exact ⟨fun _ => Pte.zero, rfl, tableFor_empty (s := s1) hp⟩
  obtain ⟨hb2, hc2⟩ := hb1.putTable hm hi hc ht hfr1 true
  rw [← hstep] at hb2 hc2
  have hdir : ∀ j, (Fs.ensurePrivateTable (D m) s i).dir (D m) j =
      if j = i then ⟨⟨true, true, true, false, false⟩, t⟩ else s.dir (D m) j := by
    intro j
    rw [hstep, putTable, dir_setDirEntry]
    simp only [true_and]
    rfl
  have hpte : ∀ x, x < userPages →
      (Fs.ensurePrivateTable (D m) s i).pte (D m) x = s.pte (D m) x := by
    intro x hx
    rw [hstep]
    exact hb1.wf.toSpace.pte_putTable hm hc hfr1.unheld hm hx
  have hslots : ∀ j, j < userPdes →
      (((Fs.ensurePrivateTable (D m) s i).dir (D m) j).present = true ↔ j ∈ visited ++ [i]) := by
    intro j hj
    rw [hdir, mem_append, mem_singleton]
    split_ifs with hji
    · simp [hji]
    · rw [h.slots j hj]
      simp [hji]
  refine ⟨⟨hb2, hslots, fun x hx hP => ?_, fun x hx hP => ?_⟩, hc1.trans hc2⟩
  · rw [hpte x hx]
    exact h.filled x hx hP
  · rw [hpte x hx]
    exact h.blank x hx hP

lemma ensurePrivateTables {is : List Nat}
    (ha : Ample (k + is.length) s) (hm : m ∈ M) (his : ∀ i ∈ is, i < userPdes) :
    Image T s0 M D m (visited ++ is) P (is.foldl (Fs.ensurePrivateTable (D m)) s) ∧
      Confined s0 s (is.foldl (Fs.ensurePrivateTable (D m)) s) := by
  induction is generalizing visited s with
  | nil =>
    rw [append_nil]
    exact ⟨h, Confined.refl s0 s⟩
  | cons i rest ih =>
    have ha1 : Ample (k + rest.length) _ := ample_ensurePrivateTable ha (D m) i
    obtain ⟨h1, hc1⟩ := h.ensurePrivateTable (k := k + rest.length) ha hm
      (his i mem_cons_self)
    obtain ⟨h2, hc2⟩ := ih h1 ha1 (forall_mem_cons.mp his).2
    rw [append_assoc, singleton_append] at h2
    exact ⟨h2, hc1.trans hc2⟩

/-! ## Pages -/

section

variable (ha : Ample (k + 2) s) (hm : m ∈ M) (hv : v < userPages) (hslot : v / ptrsPerPte ∈ visited)
include ha hm hv hslot

lemma mapFreshPage :
    Image T s0 M D m visited (insert v P) (mapFreshPage m (D m) s v).2 ∧
      Confined s0 s (Fs.mapFreshPage m (D m) s v).2 := by
  obtain ⟨f, halloc, hf, hb1, hfr1, ha1, hc1⟩ := h.toOwnFrames.allocPage ha
  set s1 : Vm := { s.takeFrame f with calls := s.calls + 1 } with hs1
  have hp : (s1.dir (D m) (v / ptrsPerPte)).present = true := (h.slots _ (pde_lt hv)).mpr hslot
  obtain ⟨hb2, hmap⟩ := hb1.mapPage ha1.calm hm hv hp hf hfr1 true
  set s2 := (s1.mapPageEx (D m) f (v * pageSize) (PteFlags.userPage true)).pageAddAnonRmap m
    (v * pageSize) f with hs2
  have hstep : Fs.mapFreshPage m (D m) s v = (true, s2) := by
    unfold Fs.mapFreshPage
    rw [halloc]
  have hpte : ∀ x, x < userPages → s2.pte (D m) x =
      if x = v then ⟨PteFlags.userPage true, f⟩ else s.pte (D m) x := by
    intro x hx
    rw [hmap.pte m hm x hx]
    simp only [true_and]
    rfl
  rw [hstep]
  refine ⟨⟨hb2, fun j hj => ?_, fun x hx hP => ?_, fun x hx hP => ?_⟩,
    hc1.trans hmap.toConfined⟩
  · rw [hmap.present]
    exact h.slots j hj
  · rw [hpte x hx]
    split_ifs with hxv
    · exact ⟨f, rfl⟩
    · exact h.filled x hx ((Set.mem_insert_iff.mp hP).resolve_left hxv)
  · rw [Set.mem_insert_iff, not_or] at hP
    rw [hpte x hx, if_neg hP.1]
    exact h.blank x hx hP.2

lemma mapSegmentPage :
    Image T s0 M D m visited (insert v P) (mapSegmentPage m (D m) s v).2 ∧
      Confined s0 s (mapSegmentPage m (D m) s v).2 := by
  have hfresh := h.mapFreshPage ha hm hv hslot
  unfold Fs.mapSegmentPage virtToPfn
  rw [mul_div_pageSize]
  by_cases hP : v ∈ P
  · have hpr := (h.present_iff hv).mpr hP
    simp only [hpr, if_true]
    split
    · rw [Set.insert_eq_of_mem hP]
      exact ⟨h, Confined.refl s0 s⟩
    · exact hfresh
  · have hpr : (s.pte (D m) v).present = false := by
      rw [h.blank v hv hP]
      rfl
    simp only [hpr, Bool.false_eq_true, if_false]
    exact hfresh

end

end

/-- What a step does to one page. -/
structure StepsPage (T : Tally) (s0 : Vm) (M : Finset Nat) (D : Nat → Nat) (m : Nat)
    (visited : List Nat) (step : Vm → Nat → Bool × Vm) : Prop where
  image : ∀ {P : Set Nat} {s : Vm} {k v : Nat},
    Image T s0 M D m visited P s → Ample (k + 2) s → v < userPages →
    v / ptrsPerPte ∈ visited →
    Image T s0 M D m visited (insert v P) (step s v).2 ∧ Confined s0 s (step s v).2
  ample : ∀ {s : Vm} {k : Nat} (v : Nat), Ample (k + 2) s →
    (step s v).1 = true ∧ Ample k (step s v).2

lemma mapPages {step : Vm → Nat → Bool × Vm} (hstep : StepsPage T s0 M D m visited step)
    (h : Image T s0 M D m visited P s) {vs : List Nat} (ha : Ample (k + 2 * vs.length) s)
    (hlt : ∀ v ∈ vs, v < userPages) (hslot : ∀ v ∈ vs, v / ptrsPerPte ∈ visited) :
    Image T s0 M D m visited (P ∪ { v | v ∈ vs }) (Fs.mapPages step vs s).2 ∧
      Confined s0 s (Fs.mapPages step vs s).2 := by
  induction vs generalizing P s with
  | nil =>
    have hP : P ∪ { v | v ∈ ([] : List Nat) } = P := by simp
    rw [hP]
    exact ⟨h, Confined.refl s0 s⟩
  | cons v rest ih =>
    have hneed : k + 2 * (v :: rest).length = k + 2 * rest.length + 2 := by
      rw [length_cons]
      omega
    rw [hneed] at ha
    obtain ⟨ht, ha1⟩ := hstep.ample v ha
    obtain ⟨h1, hc1⟩ := hstep.image h ha (hlt v mem_cons_self) (hslot v mem_cons_self)
    obtain ⟨h2, hc2⟩ := ih h1 ha1 (forall_mem_cons.mp hlt).2 (forall_mem_cons.mp hslot).2
    have hP : P ∪ { x | x ∈ v :: rest } = insert v P ∪ { x | x ∈ rest } := by
      ext x
      simp only [Set.mem_union, Set.mem_insert_iff, Set.mem_ofPred_eq, mem_cons]
      tauto
    rw [mapPages_cons ht, hP]
    exact ⟨h2, hc1.trans hc2⟩

end Image

/-! ## Areas -/

/-- The areas cover the ranges `R` in addition, each of them with a single area. -/
structure Extends (l l' : List VmArea) (R : List (Nat × Nat)) : Prop where
  covered : ∀ x, Covered l' x ↔ Covered l x ∨ ∃ r ∈ R, r.1 ≤ x ∧ x < r.2
  within : ∀ a ∈ l, ∃ b ∈ l', a.Within b
  own : ∀ r ∈ R, ∃ b ∈ l', b.vmStart ≤ r.1 ∧ r.2 ≤ b.vmEnd

lemma Extends.refl (l : List VmArea) : Extends l l [] :=
  ⟨fun x => by simp, fun a ha => ⟨a, ha, VmArea.Within.refl a⟩, fun r hr => by cases hr⟩

lemma Extends.trans {l1 l2 l3 : List VmArea} (h1 : Extends l1 l2 R) (h2 : Extends l2 l3 R') :
    Extends l1 l3 (R ++ R') where
  covered x := by
    rw [h2.covered, h1.covered, or_assoc]
    simp only [mem_append, or_and_right, exists_or]
  within a ha := by
    obtain ⟨b, hb, hab⟩ := h1.within a ha
    obtain ⟨c, hc, hbc⟩ := h2.within b hb
    exact ⟨c, hc, hab.trans hbc⟩
  own r hr := by
    rcases mem_append.mp hr with hr | hr
    · obtain ⟨b, hb, hlo, hhi⟩ := h1.own r hr
      obtain ⟨c, hc, hbc⟩ := h2.within b hb
      exact ⟨c, hc, hbc.1.trans hlo, hhi.trans hbc.2⟩
    · exact h2.own r hr

/-- The areas of `m` after the ranges `R` have been added. -/
structure LaidOut (m : Nat) (s s' : Vm) (R : List (Nat × Nat)) : Prop where
  loose : VmaLoose s'.ctx (s'.mm m).mmap
  areas : Extends (s.mm m).mmap (s'.mm m).mmap R

lemma LaidOut.trans (h1 : LaidOut m s1 s2 R) (h2 : LaidOut m s2 s3 R') :
    LaidOut m s1 s3 (R ++ R') :=
  ⟨h2.loose, h1.areas.trans h2.areas⟩

lemma LaidOut.of_fixed (h : LaidOut m s1 s2 R) (hf : Fixed s2 s3) : LaidOut m s1 s3 R := by
  refine ⟨loose_of_fixed h.loose hf, ?_⟩
  rw [hf.mm]
  exact h.areas

/-- The directory entries and the pages of a list of ranges. -/
def slotsOf (R : List (Nat × Nat)) : List Nat :=
  R.flatMap fun r => slotsIn r.1 r.2

def pagesOf (R : List (Nat × Nat)) : Set Nat :=
  { v | ∃ r ∈ R, v ∈ pagesIn r.1 r.2 }

lemma pagesOf_cons (r : Nat × Nat) (R : List (Nat × Nat)) :
    pagesOf (r :: R) = { v | v ∈ pagesIn r.1 r.2 } ∪ pagesOf R := by
  ext v
  simp only [pagesOf, exists_mem_cons_iff, Set.mem_union, Set.mem_ofPred_eq]

namespace Image

section

variable (h : Image T s0 M D m visited P s)
include h

lemma putVma (mm : MmStruct) (c : VmaCtx) (hpgd : mm.pgd = (s.mm m).pgd) :
    Image T s0 M D m visited P (s.putVma m mm c) ∧ Apart m s0 s (s.putVma m mm c) := by
  have hmm : (s.putVma m mm c).mm m = mm := update_self ..
  exact ⟨h.of_same (sameTables_putVma ..),
    ⟨fun _ _ => rfl, fun _ _ => rfl, rfl, rfl, by rw [hmm, hpgd]⟩⟩

lemma mmAddVma (ha : Ample k s) (hl : VmaLoose s.ctx (s.mm m).mmap)
    {start stop : Nat} (hr : UserRange start stop) (flags : VmFlags) :
    Image T s0 M D m visited P (mmAddVma s m start stop flags) ∧
      Apart m s0 s (mmAddVma s m start stop flags) ∧
      LaidOut m s (mmAddVma s m start stop flags) [(start, stop)] := by
  have hbound : stop < wordSize := hr.le.trans_lt (by decide)
  obtain ⟨hl', hcov, hwithin, hown⟩ := hl.vmaAdd hr.alignedStart hr.alignedStop hbound flags
  set r := vmaAdd s.ctx (s.mm m).mmap start stop flags with hrdef
  have hs' : Fs.mmAddVma s m start stop flags = s.putVma m { s.mm m with mmap := r.1 } r.2 :=
    commitVma_of_calm (fun n => (ha.calm n).2) ..
  have hmm : ((s.putVma m { s.mm m with mmap := r.1 } r.2).mm m) = { s.mm m with mmap := r.1 } :=
    update_self ..
  obtain ⟨h1, hap1⟩ := h.putVma { s.mm m with mmap := r.1 } r.2 rfl
  rw [hs']
  refine ⟨h1, hap1, ?_, ⟨fun x => ?_, ?_, fun q hq => ?_⟩⟩
  · rw [hmm]
    exact hl'
  · rw [hmm, hcov]
    simp
  · rw [hmm]
    exact hwithin
  · rw [hmm, mem_singleton.mp hq]
    exact hown hr.lt

/-! ## The loops -/

lemma buildSegment {p : Elf32Phdr}
    (ha : Ample (k + framesFor [p.range]) s) (hl : VmaLoose s.ctx (s.mm m).mmap) (hm : m ∈ M)
    (hp : UserRange p.segStart p.segEnd) :
    Image T s0 M D m (visited ++ slotsIn p.segStart p.segEnd)
        (P ∪ { v | v ∈ pagesIn p.segStart p.segEnd }) (Fs.buildSegment m (D m) s p).2 ∧
      Apart m s0 s (Fs.buildSegment m (D m) s p).2 ∧
      LaidOut m s (Fs.buildSegment m (D m) s p).2 [p.range] := by
  rw [framesFor_segment] at ha
  have ha1 := ample_mmAddVma ha m p.segStart p.segEnd ⟨true, true, p.pfX⟩
  have ha2 := ample_ensurePrivateTables ha1 (D m)
  obtain ⟨h1, hap1, hout⟩ := h.mmAddVma ha hl hp ⟨true, true, p.pfX⟩
  obtain ⟨h2, hc2⟩ := h1.ensurePrivateTables ha1 hm fun i hi => hp.lt_userPdes hi
  have hstep : StepsPage T s0 M D m (visited ++ slotsIn p.segStart p.segEnd)
      (Fs.mapSegmentPage m (D m)) :=
    ⟨fun hI hA => hI.mapSegmentPage hA hm, fun v hA => ample_mapSegmentPage hA m (D m) v⟩
  obtain ⟨h3, hc3⟩ := mapPages hstep h2 ha2 (fun v hv => hp.lt_userPages hv)
    fun v hv => mem_append_right visited (hp.slot_mem hv)
  exact ⟨h3, hap1.trans (apart_of_confined (hc2.trans hc3) m),
    hout.of_fixed (hc2.trans hc3).fixed⟩

lemma buildSegments {segs : List Elf32Phdr}
    (ha : Ample (k + framesFor (segs.map Elf32Phdr.range)) s)
    (hl : VmaLoose s.ctx (s.mm m).mmap) (hm : m ∈ M)
    (hsegs : ∀ p ∈ segs, UserRange p.segStart p.segEnd) :
    Image T s0 M D m (visited ++ slotsOf (segs.map Elf32Phdr.range))
        (P ∪ pagesOf (segs.map Elf32Phdr.range)) (buildSegments m (D m) segs s).2 ∧
      Apart m s0 s (buildSegments m (D m) segs s).2 ∧
      LaidOut m s (buildSegments m (D m) segs s).2 (segs.map Elf32Phdr.range) := by
  induction segs generalizing visited P s with
  | nil =>
    have hP : P ∪ pagesOf [] = P := by simp [pagesOf]
    rw [map_nil, hP, slotsOf, flatMap_nil, append_nil]
    exact ⟨h, Apart.refl m s0 s, hl, Extends.refl _⟩
  | cons p rest ih =>
    rw [framesFor_segments] at ha
    obtain ⟨ht, ha1⟩ := ample_buildSegment ha m (D m)
    obtain ⟨h1, hap1, hout1⟩ := h.buildSegment ha hl hm (hsegs p mem_cons_self)
    obtain ⟨h2, hap2, hout2⟩ := ih h1 ha1 hout1.loose (forall_mem_cons.mp hsegs).2
    rw [buildSegments_cons ht, map_cons, pagesOf_cons, ← Set.union_assoc, slotsOf,
      flatMap_cons, ← append_assoc]
    exact ⟨h2, hap1.trans hap2, hout1.trans hout2⟩

lemma buildStack (ha : Ample (k + 2 * userStackPages) s) (hl : VmaLoose s.ctx (s.mm m).mmap)
    (hm : m ∈ M) (hslots : ∀ i ∈ slotsIn userStackBase userStackTop, i ∈ visited)
    (heapBase : Nat) :
    Image T s0 M D m visited (P ∪ { v | v ∈ pagesIn userStackBase userStackTop })
        (buildStack m (D m) heapBase s).2 ∧
      Apart m s0 s (buildStack m (D m) heapBase s).2 ∧
      LaidOut m s (Fs.buildStack m (D m) heapBase s).2 [(userStackBase, userStackTop)] := by
  have hr := userRange_stack
  have ha2 := ample_stackAreas ha m heapBase
  rw [← length_stackPages] at ha2
  obtain ⟨h1, hap1, hout⟩ := h.mmAddVma ha hl hr VmFlags.rw
  set s1 := Fs.mmAddVma s m userStackBase userStackTop VmFlags.rw with hs1
  obtain ⟨hmmap, hpgd, -⟩ := mmInitBrk_fields s1.ctx (s1.mm m) heapBase userStackBase
  set mm := (mmInitBrk s1.ctx (s1.mm m) heapBase userStackBase).1 with hmm
  have hs2 : stackAreas m heapBase s = s1.putVma m mm s1.ctx := rfl
  obtain ⟨h2, hap2⟩ := h1.putVma mm s1.ctx hpgd
  have hout2 : LaidOut m s (stackAreas m heapBase s) [(userStackBase, userStackTop)] := by
    have hmm2 : ((s1.putVma m mm s1.ctx).mm m).mmap = (s1.mm m).mmap :=
      (congrArg MmStruct.mmap (update_self ..)).trans hmmap
    rw [hs2]
    refine ⟨?_, ?_⟩
    · rw [hmm2]
      exact hout.loose
    · rw [hmm2]
      exact hout.areas
  rw [← hs2] at h2 hap2
  have hstep : StepsPage T s0 M D m visited (Fs.mapFreshPage m (D m)) :=
    ⟨fun hI hA => hI.mapFreshPage hA hm, fun v hA => ample_mapFreshPage hA m (D m) v⟩
  obtain ⟨h3, hc3⟩ := mapPages hstep h2 ha2 (fun v hv => hr.lt_userPages hv)
    fun v hv => hslots _ (hr.slot_mem hv)
  rw [buildStack_eq]
  exact ⟨h3, hap1.trans (hap2.trans (apart_of_confined hc3 m)), hout2.of_fixed hc3.fixed⟩

end

end Image

end LiteKernel.Fs
