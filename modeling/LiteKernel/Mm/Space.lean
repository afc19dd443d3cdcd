import LiteKernel.Mm.Mmap
import LiteKernel.Lib.Ownership
import Mathlib.Data.Finset.Prod

/-!
# Address spaces in physical memory

Which frame is used for what: the directories, the page tables and the user
pages of a set of address spaces are the keys of an ownership map. Only user
pages share frames. `Space` is the invariant that makes the page tables of
different address spaces independent of each other.

The address spaces are given by a finite set of `mm_struct`s and a map to their
directories. Between calls that map is the `pgd` field; while a program is being
loaded it is not, because the new `mm_struct` still names the directory of the
old one.

Main results:

- Lemma `Space.pte_setPte`: writing an entry of one table changes the translation of one page of
  one address space.
- Lemma `Space.setPte`: the invariant is kept.
-/

namespace LiteKernel.Mm

open Finset Function Lib

/-- The uses of a frame. -/
inductive Use where
  | kernelDir
  | dir (m : Nat)
  | kernelTable (i : Nat)
  | table (m i : Nat)
  | page (m v : Nat)
  deriving DecidableEq

/-- The use that may share its frame. -/
def Use.IsPage : Use → Prop
  | .page _ _ => True
  | _ => False

/-- The frame a present entry points to. -/
def Pte.frame (e : Pte) : Option Nat :=
  if e.present then some e.pfn else none

@[simp]
lemma Pte.frame_zero : Pte.zero.frame = none :=
  rfl

lemma Pte.frame_eq_some {e : Pte} {f : Nat} : e.frame = some f ↔ e.present = true ∧ e.pfn = f :=
    by
  unfold Pte.frame
  by_cases h : e.present = true
  · simp [h]
  · simp [h]

namespace Vm

variable {i m v : Nat}

/-- The frame of each use of the address spaces `M` with directories `D`. -/
def held (s : Vm) (M : Finset Nat) (D : Nat → Nat) : Use → Option Nat
  | .kernelDir => some s.kernelDir
  | .dir m => if m ∈ M then some (D m) else none
  | .kernelTable i =>
    if userPdes ≤ i ∧ i < ptrsPerPte then (s.dir s.kernelDir i).frame else none
  | .table m i => if m ∈ M ∧ i < userPdes then (s.dir (D m) i).frame else none
  | .page m v => if m ∈ M ∧ v < userPages then (s.pte (D m) v).frame else none

/-- The invariant of the page tables of a set of address spaces. -/
structure Space (s : Vm) (M : Finset Nat) (D : Nat → Nat) : Prop where
  /-- Only user pages share frames. -/
  exclusive : Exclusive Use.IsPage (s.held M D)
  /-- A frame in use is not free. -/
  used : ∀ u f, s.held M D u = some f → s.free f = false ∧ f ≠ 0
  /-- The kernel maps nothing below `TASK_SIZE`. -/
  kernelUser : ∀ i, i < userPdes → (s.dir s.kernelDir i).present = false
  /-- Above `TASK_SIZE` an address space has tables of the kernel. -/
  kernelHalf : ∀ m ∈ M, ∀ i, userPdes ≤ i → i < ptrsPerPte →
    (s.dir (D m) i).present = true →
      (s.dir s.kernelDir i).present = true ∧ (s.dir s.kernelDir i).pfn = (s.dir (D m) i).pfn
  /-- The tables of the kernel have neither user pages nor swap entries. -/
  kernelPte : ∀ i, userPdes ≤ i → i < ptrsPerPte → (s.dir s.kernelDir i).present = true →
    ∀ j, (s.table (s.dir s.kernelDir i).pfn j).user = false ∧
      swapPteDecode (s.table (s.dir s.kernelDir i).pfn j) = none
  /-- Pages below `TASK_SIZE` are user pages. -/
  userBit : ∀ m ∈ M, ∀ v, v < userPages → (s.pte (D m) v).present = true →
    (s.pte (D m) v).user = true

variable {s : Vm} {M : Finset Nat} {D : Nat → Nat}

lemma held_table (hm : m ∈ M) (hi : i < userPdes) :
    s.held M D (.table m i) = (s.dir (D m) i).frame :=
  if_pos ⟨hm, hi⟩

lemma held_table_of_present (hm : m ∈ M) (hi : i < userPdes)
    (hp : (s.dir (D m) i).present = true) :
    s.held M D (.table m i) = some (s.dir (D m) i).pfn :=
  (held_table hm hi).trans (Pte.frame_eq_some.mpr ⟨hp, rfl⟩)

lemma held_page (hm : m ∈ M) (hv : v < userPages) :
    s.held M D (.page m v) = (s.pte (D m) v).frame :=
  if_pos ⟨hm, hv⟩

lemma held_dir (hm : m ∈ M) : s.held M D (.dir m) = some (D m) :=
  if_pos hm

lemma held_kernelTable (hi : userPdes ≤ i) (hi' : i < ptrsPerPte) :
    s.held M D (.kernelTable i) = (s.dir s.kernelDir i).frame :=
  if_pos ⟨hi, hi'⟩

lemma pde_lt (hv : v < userPages) : v / ptrsPerPte < userPdes := by
  unfold userPages at hv
  unfold ptrsPerPte userPdes
  omega

lemma eq_of_div_mod {v' : Nat} (h1 : v / ptrsPerPte = v' / ptrsPerPte)
    (h2 : v % ptrsPerPte = v' % ptrsPerPte) : v = v' := by
  unfold ptrsPerPte at h1 h2
  omega

namespace Space

variable {i i' m m' : Nat}

section

variable (h : Space s M D)
include h

lemma dir_inj (hm : m ∈ M) (hm' : m' ∈ M) (he : D m = D m') : m = m' := by
  have hne : ¬ Use.IsPage (.dir m) := id
  have h' := h.exclusive.eq_of_not_shared hne (held_dir hm) ((held_dir hm').trans (congrArg some he.symm))
  exact (Use.dir.inj h').symm

lemma dir_ne_kernelDir (hm : m ∈ M) : D m ≠ s.kernelDir := by
  intro he
  have hne : ¬ Use.IsPage (.dir m) := id
  have hk : s.held M D .kernelDir = some (D m) := congrArg some he.symm
  cases h.exclusive.eq_of_not_shared hne (held_dir hm) hk

lemma eq_table (hm : m ∈ M) (hi : i < userPdes) {f : Nat} (hf : (s.dir (D m) i).frame = some f)
    {u : Use} (hu : s.held M D u = some f) : u = .table m i :=
  h.exclusive.eq_of_not_shared (k := .table m i) id ((held_table hm hi).trans hf) hu

lemma table_inj (hm : m ∈ M) (hm' : m' ∈ M) (hi : i < userPdes)
    (hi' : i' < userPdes) (hp : (s.dir (D m) i).present = true)
    (hp' : (s.dir (D m') i').present = true) (he : (s.dir (D m) i).pfn = (s.dir (D m') i').pfn) :
    m = m' ∧ i = i' := by
  have hf : (s.dir (D m) i).frame = some _ := Pte.frame_eq_some.mpr ⟨hp, he⟩
  have h' := h.eq_table hm hi hf (held_table_of_present hm' hi' hp')
  exact ⟨(Use.table.inj h').1.symm, (Use.table.inj h').2.symm⟩

lemma table_ne_kernelTable (hm : m ∈ M) (hi : i < userPdes)
    (hi' : userPdes ≤ i') (hlt : i' < ptrsPerPte) (hp : (s.dir (D m) i).present = true)
    (hp' : (s.dir s.kernelDir i').present = true) :
    (s.dir s.kernelDir i').pfn ≠ (s.dir (D m) i).pfn := by
  intro he
  have hk : s.held M D (.kernelTable i') = some (s.dir (D m) i).pfn :=
    (held_kernelTable hi' hlt).trans (Pte.frame_eq_some.mpr ⟨hp', he⟩)
  cases h.eq_table hm hi (Pte.frame_eq_some.mpr ⟨hp, rfl⟩) hk

lemma congr {s' : Vm}
    (hdir : ∀ d i, (s'.dir d i).present = (s.dir d i).present ∧ (s'.dir d i).pfn = (s.dir d i).pfn)
    (htable : s'.table = s.table) (hkernel : s'.kernelDir = s.kernelDir)
    (hfree : ∀ u f, s.held M D u = some f → s'.free f = false) : Space s' M D := by
  have hpte : ∀ d v, s'.pte d v = s.pte d v := fun d v => by
    simp only [pte, (hdir d _).1, (hdir d _).2, htable]
  have hheld : s'.held M D = s.held M D := by
    funext u
    cases u <;> simp only [held, hpte, hkernel, Pte.frame, (hdir _ _).1, (hdir _ _).2]
  refine ⟨?_, fun u f hu => ?_, ?_, ?_, ?_, ?_⟩
  · rw [hheld]
    exact h.exclusive
  · rw [hheld] at hu
    exact ⟨hfree u f hu, (h.used u f hu).2⟩
  · simp only [(hdir _ _).1, hkernel]
    exact h.kernelUser
  · simp only [(hdir _ _).1, (hdir _ _).2, hkernel]
    exact h.kernelHalf
  · simp only [(hdir _ _).1, (hdir _ _).2, hkernel, htable]
    exact h.kernelPte
  · simp only [hpte]
    exact h.userBit

end

end Space

/-! ## Writing an entry of a table -/

section

variable {m v : Nat} {e : Pte}

@[simp]
lemma dir_setPte (s : Vm) (d v : Nat) (e : Pte) : (s.setPte d v e).dir = s.dir := by
  unfold setPte
  split <;> rfl

@[simp]
lemma kernelDir_setPte (s : Vm) (d v : Nat) (e : Pte) :
    (s.setPte d v e).kernelDir = s.kernelDir := by
  unfold setPte
  split <;> rfl

@[simp]
lemma free_setPte (s : Vm) (d v : Nat) (e : Pte) : (s.setPte d v e).free = s.free := by
  unfold setPte
  split <;> rfl

lemma table_setPte {d : Nat} (hp : (s.dir d (v / ptrsPerPte)).present = true) (t j : Nat) :
    (s.setPte d v e).table t j =
      if t = (s.dir d (v / ptrsPerPte)).pfn ∧ j = v % ptrsPerPte then e else s.table t j := by
  rw [setPte, if_pos hp, setTableEntry]
  by_cases ht : t = (s.dir d (v / ptrsPerPte)).pfn
  · by_cases hj : j = v % ptrsPerPte
    · simp [ht, hj]
    · simp [ht, hj]
  · simp [ht]

section

variable (h : Space s M D) (hm : m ∈ M) (hv : v < userPages)
variable (hp : (s.dir (D m) (v / ptrsPerPte)).present = true)
include h hm hv hp

lemma Space.pte_setPte {m' v' : Nat} (hm' : m' ∈ M) (hv' : v' < userPages) :
    (s.setPte (D m) v e).pte (D m') v' = if m' = m ∧ v' = v then e else s.pte (D m') v' := by
  unfold pte
  rw [dir_setPte]
  by_cases hp' : (s.dir (D m') (v' / ptrsPerPte)).present = true
  · rw [if_pos hp', if_pos hp', table_setPte hp]
    by_cases hsame : m' = m ∧ v' = v
    · rw [if_pos hsame, hsame.1, hsame.2, if_pos ⟨rfl, rfl⟩]
    · rw [if_neg hsame, if_neg]
      rintro ⟨ht, hj⟩
      have heq := h.table_inj hm' hm (pde_lt hv') (pde_lt hv) hp' hp ht
      exact hsame ⟨heq.1, eq_of_div_mod heq.2 hj⟩
  · rw [if_neg hp', if_neg hp', if_neg]
    rintro ⟨rfl, rfl⟩
    exact hp' hp

lemma Space.held_setPte :
    (s.setPte (D m) v e).held M D = update (s.held M D) (.page m v) e.frame := by
  funext u
  cases u with
  | kernelDir => simp [held]
  | dir m' => simp [held]
  | kernelTable i => simp [held]
  | table m' i => simp [held]
  | page m' v' =>
    by_cases hmv : m' ∈ M ∧ v' < userPages
    · rw [held_page hmv.1 hmv.2, h.pte_setPte hm hv hp hmv.1 hmv.2]
      by_cases hsame : m' = m ∧ v' = v
      · rw [if_pos hsame, hsame.1, hsame.2, update_self]
      · have hne : Use.page m' v' ≠ .page m v := fun e => hsame ⟨(Use.page.inj e).1, (Use.page.inj e).2⟩
        rw [if_neg hsame, update_of_ne hne, held_page hmv.1 hmv.2]
    · have hne : Use.page m' v' ≠ .page m v := by
        rintro ⟨⟩
        exact hmv ⟨hm, hv⟩
      rw [update_of_ne hne]
      simp only [held, if_neg hmv]

/-- An entry may be replaced by one that points to no frame or to a frame of user pages. -/
lemma Space.setPte (he : e.present = true → e.user = true ∧ s.free e.pfn = false ∧ e.pfn ≠ 0 ∧
      ∀ u, s.held M D u = some e.pfn → u.IsPage) : Space (s.setPte (D m) v e) M D := by
  have hheld := h.held_setPte (e := e) hm hv hp
  refine ⟨?_, fun u f hu => ?_, ?_, ?_, fun i hi hlt hk j => ?_, fun m' hm' v' hv' hpr => ?_⟩
  · rw [hheld]
    cases hpe : e.present with
    | false =>
      apply h.exclusive.mono
      intro u f hu
      rw [update_apply] at hu
      split_ifs at hu with huv
      · simp [Pte.frame, hpe] at hu
      · exact hu
    | true =>
      have hf : e.frame = some e.pfn := Pte.frame_eq_some.mpr ⟨hpe, rfl⟩
      rw [hf]
      exact h.exclusive.update_shared trivial (he hpe).2.2.2
  · rw [hheld] at hu
    rw [free_setPte]
    rw [update_apply] at hu
    split_ifs at hu with huv
    · have hpe := Pte.frame_eq_some.mp hu
      rw [← hpe.2]
      exact ⟨(he hpe.1).2.1, (he hpe.1).2.2.1⟩
    · exact h.used u f hu
  · simpa using h.kernelUser
  · simpa using h.kernelHalf
  · simp only [dir_setPte, kernelDir_setPte] at hk ⊢
    rw [table_setPte hp, if_neg]
    · exact h.kernelPte i hi hlt hk j
    · exact fun hc => h.table_ne_kernelTable hm (pde_lt hv) hi hlt hp hk hc.1
  · rw [h.pte_setPte hm hv hp hm' hv'] at hpr ⊢
    split_ifs at hpr ⊢ with hsame
    · exact (he hpr).1
    · exact h.userBit m' hm' v' hv' hpr

end

end

/-! ## Changing the tables of a directory -/

section

variable {m i t d : Nat} {e : Pte}
variable {m' v' : Nat}

lemma dir_setDirEntry (s : Vm) (d i : Nat) (e : Pte) (d' i' : Nat) :
    (s.setDirEntry d i e).dir d' i' = if d' = d ∧ i' = i then e else s.dir d' i' := by
  unfold setDirEntry
  by_cases hd : d' = d
  · by_cases hi : i' = i
    · simp [hd, hi]
    · simp [hd, hi]
  · simp [hd]

@[simp]
lemma table_setDirEntry (s : Vm) (d i : Nat) (e : Pte) : (s.setDirEntry d i e).table = s.table :=
  rfl

@[simp]
lemma kernelDir_setDirEntry (s : Vm) (d i : Nat) (e : Pte) :
    (s.setDirEntry d i e).kernelDir = s.kernelDir :=
  rfl

lemma Space.kernel_setDirEntry (h : Space s M D) (hm : m ∈ M) (j : Nat) :
    (s.setDirEntry (D m) i e).dir s.kernelDir j = s.dir s.kernelDir j := by
  rw [dir_setDirEntry, if_neg]
  exact fun hc => h.dir_ne_kernelDir hm hc.1.symm

lemma Space.pte_setDirEntry (h : Space s M D) (hm : m ∈ M) (hm' : m' ∈ M) :
    (s.setDirEntry (D m) i e).pte (D m') v' =
      if m' = m ∧ v' / ptrsPerPte = i then
        if e.present then s.table e.pfn (v' % ptrsPerPte) else Pte.zero
      else s.pte (D m') v' := by
  unfold pte
  rw [dir_setDirEntry]
  by_cases hmm : m' = m
  · subst hmm
    by_cases hi : v' / ptrsPerPte = i
    · simp [hi, setDirEntry]
    · simp [hi, setDirEntry]
  · have hD : D m' ≠ D m := fun he => hmm (h.dir_inj hm' hm he)
    simp [hmm, hD, setDirEntry]

lemma Space.setPdeUser (h : Space s M D) (d v : Nat) : Space (s.setPdeUser d v) M D := by
  refine h.congr (fun d' i' => ?_) rfl rfl fun u f hu => (h.used u f hu).1
  unfold Vm.setPdeUser
  rw [dir_setDirEntry]
  split_ifs with hd
  · rw [hd.1, hd.2]
    exact ⟨rfl, rfl⟩
  · exact ⟨rfl, rfl⟩

@[simp]
lemma pte_setPdeUser (s : Vm) (d v d' v' : Nat) : (s.setPdeUser d v).pte d' v' = s.pte d' v' := by
  unfold pte setPdeUser
  rw [dir_setDirEntry]
  by_cases hd : d' = d ∧ v' / ptrsPerPte = v / ptrsPerPte
  · rw [if_pos hd, hd.1, hd.2]
    rfl
  · rw [if_neg hd]
    rfl

/-- A frame becomes the table `c` of a directory entry. -/
def putTable (s : Vm) (d i t : Nat) (c : Nat → Pte) (user : Bool) : Vm :=
  { s with table := update s.table t c }.setDirEntry d i
    { present := true, readWrite := true, user := user, cacheDisable := false, cow := false,
      pfn := t }

/-- The table has the entries that the directory entry had before. -/
def TableFor (s : Vm) (d i : Nat) (c : Nat → Pte) : Prop :=
  ∀ v, v / ptrsPerPte = i → c (v % ptrsPerPte) = s.pte d v

lemma tableFor_empty (hp : (s.dir d i).present = false) : TableFor s d i fun _ => Pte.zero := by
  intro v hv
  unfold pte
  rw [hv, hp]
  rfl

lemma tableFor_self (hp : (s.dir d i).present = true) :
    TableFor s d i (s.table (s.dir d i).pfn) := by
  intro v hv
  unfold pte
  rw [hv, if_pos hp]

section PutTable

variable {c : Nat → Pte}

lemma Space.pte_putTable (h : Space s M D) (hm : m ∈ M) (hc : TableFor s (D m) i c)
    (ht : ∀ u, s.held M D u ≠ some t) {user : Bool} {m' v' : Nat} (hm' : m' ∈ M)
    (hv' : v' < userPages) : (s.putTable (D m) i t c user).pte (D m') v' = s.pte (D m') v' := by
  by_cases hmi : m' = m ∧ v' / ptrsPerPte = i
  · have heq : s.pte (D m') v' = c (v' % ptrsPerPte) := by
      rw [hmi.1, hc v' hmi.2]
    have hD : D m' = D m ∧ v' / ptrsPerPte = i := ⟨congrArg D hmi.1, hmi.2⟩
    rw [heq]
    unfold pte putTable
    rw [dir_setDirEntry]
    simp [hD, setDirEntry]
  · have hD : ¬ (D m' = D m ∧ v' / ptrsPerPte = i) := fun hc =>
      hmi ⟨h.dir_inj hm' hm hc.1, hc.2⟩
    unfold pte putTable
    rw [dir_setDirEntry, if_neg hD]
    by_cases hp' : (s.dir (D m') (v' / ptrsPerPte)).present = true
    · have hne : (s.dir (D m') (v' / ptrsPerPte)).pfn ≠ t := fun he =>
        ht (.table m' (v' / ptrsPerPte)) ((held_table hm' (pde_lt hv')).trans
          (Pte.frame_eq_some.mpr ⟨hp', he⟩))
      simp [hp', hne, setDirEntry]
    · simp [hp']

section

variable (h : Space s M D) (hm : m ∈ M) (hi : i < userPdes) (hc : TableFor s (D m) i c)
variable (ht : ∀ u, s.held M D u ≠ some t)
include h hm hi hc ht

lemma Space.held_putTable (user : Bool) :
    (s.putTable (D m) i t c user).held M D = update (s.held M D) (.table m i) (some t) := by
  have hk := h.dir_ne_kernelDir hm
  funext u
  cases u with
  | kernelDir => simp [held, putTable, setDirEntry]
  | dir m' => simp [held]
  | kernelTable i' =>
    have hne : s.kernelDir ≠ D m := hk.symm
    simp [held, putTable, setDirEntry, hne]
  | table m' i' =>
    by_cases hmi : m' = m ∧ i' = i
    · rw [hmi.1, hmi.2, update_self, held_table hm hi]
      simp [putTable, setDirEntry, Pte.frame]
    · have hne : Use.table m' i' ≠ .table m i := fun e => hmi ⟨(Use.table.inj e).1, (Use.table.inj e).2⟩
      rw [update_of_ne hne]
      by_cases hm' : m' ∈ M ∧ i' < userPdes
      · have hD : ¬ (D m' = D m ∧ i' = i) := fun hc => hmi ⟨h.dir_inj hm'.1 hm hc.1, hc.2⟩
        rw [held_table hm'.1 hm'.2, held_table hm'.1 hm'.2, putTable, dir_setDirEntry, if_neg hD]
      · simp only [held, if_neg hm']
  | page m' v' =>
    have hne : Use.page m' v' ≠ .table m i := Use.noConfusion
    rw [update_of_ne hne]
    by_cases hm' : m' ∈ M ∧ v' < userPages
    · rw [held_page hm'.1 hm'.2, held_page hm'.1 hm'.2, h.pte_putTable hm hc ht hm'.1 hm'.2]
    · simp only [held, if_neg hm']

lemma Space.putTable (hfree : s.free t = false)
    (ht0 : t ≠ 0) (user : Bool) : Space (s.putTable (D m) i t c user) M D := by
  have hheld := h.held_putTable hm hi hc ht user
  have hkernel : ∀ j, (s.putTable (D m) i t c user).dir
      (s.putTable (D m) i t c user).kernelDir j = s.dir s.kernelDir j := fun j => by
    rw [Vm.putTable, kernelDir_setDirEntry, dir_setDirEntry, if_neg]
    exact fun hc => h.dir_ne_kernelDir hm hc.1.symm
  refine ⟨?_, fun u f hu => ?_, fun j hj => ?_, fun m' hm' j hj hlt hpr => ?_,
    fun j hj hlt hpr x => ?_, fun m' hm' v' hv' hpr => ?_⟩
  · rw [hheld]
    exact h.exclusive.update_fresh ht
  · rw [hheld] at hu
    rw [update_apply] at hu
    split_ifs at hu with hut
    · cases hu
      exact ⟨hfree, ht0⟩
    · exact h.used u f hu
  · rw [hkernel]
    exact h.kernelUser j hj
  · have hne : ¬ (D m' = D m ∧ j = i) := fun hc => by omega
    rw [hkernel]
    rw [Vm.putTable, dir_setDirEntry, if_neg hne] at hpr ⊢
    exact h.kernelHalf m' hm' j hj hlt hpr
  · rw [hkernel] at hpr ⊢
    have hne : (s.dir s.kernelDir j).pfn ≠ t := fun he =>
      ht (.kernelTable j) ((held_kernelTable hj hlt).trans (Pte.frame_eq_some.mpr ⟨hpr, he⟩))
    simpa [Vm.putTable, hne] using h.kernelPte j hj hlt hpr x
  · rw [h.pte_putTable hm hc ht hm' hv'] at hpr ⊢
    exact h.userBit m' hm' v' hv' hpr

end

end PutTable

section

variable (h : Space s M D) (hm : m ∈ M)
include h hm

lemma Space.pte_removeTable (hm' : m' ∈ M) (v' : Nat) :
    (s.setDirEntry (D m) i Pte.zero).pte (D m') v' =
      if m' = m ∧ v' / ptrsPerPte = i then Pte.zero else s.pte (D m') v' :=
  h.pte_setDirEntry hm hm'

/-- Without its table a directory entry holds nothing, and neither do its pages. -/
lemma Space.held_removeTable_le (u : Use) (f : Nat)
    (hu : (s.setDirEntry (D m) i Pte.zero).held M D u = some f) : s.held M D u = some f := by
  cases u with
  | kernelDir => exact hu
  | dir m' => exact hu
  | kernelTable i' =>
    simp only [held, kernelDir_setDirEntry, h.kernel_setDirEntry hm] at hu ⊢
    exact hu
  | table m' i' =>
    by_cases hm' : m' ∈ M ∧ i' < userPdes
    · rw [held_table hm'.1 hm'.2] at hu ⊢
      rw [dir_setDirEntry] at hu
      by_cases hD : D m' = D m ∧ i' = i
      · rw [if_pos hD] at hu
        cases hu
      · rwa [if_neg hD] at hu
    · simp only [held, if_neg hm'] at hu
      cases hu
  | page m' v' =>
    by_cases hm' : m' ∈ M ∧ v' < userPages
    · rw [held_page hm'.1 hm'.2] at hu ⊢
      rw [h.pte_removeTable hm hm'.1] at hu
      by_cases hsame : m' = m ∧ v' / ptrsPerPte = i
      · rw [if_pos hsame] at hu
        cases hu
      · rwa [if_neg hsame] at hu
    · simp only [held, if_neg hm'] at hu
      cases hu

lemma Space.removeTable (hi : i < userPdes) : Space (s.setDirEntry (D m) i Pte.zero) M D := by
  have hle := h.held_removeTable_le (i := i) hm
  refine ⟨h.exclusive.mono hle, fun u f hu => h.used u f (hle u f hu), fun j hj => ?_,
    fun m' hm' j hj hlt hpr => ?_, fun j hj hlt hpr x => ?_, fun m' hm' v' hv' hpr => ?_⟩
  · rw [kernelDir_setDirEntry, h.kernel_setDirEntry hm]
    exact h.kernelUser j hj
  · have hne : ¬ (D m' = D m ∧ j = i) := fun hc => by omega
    rw [kernelDir_setDirEntry, h.kernel_setDirEntry hm]
    rw [dir_setDirEntry, if_neg hne] at hpr ⊢
    exact h.kernelHalf m' hm' j hj hlt hpr
  · rw [kernelDir_setDirEntry, h.kernel_setDirEntry hm] at hpr ⊢
    exact h.kernelPte j hj hlt hpr x
  · rw [h.pte_removeTable hm hm'] at hpr ⊢
    by_cases hsame : m' = m ∧ v' / ptrsPerPte = i
    · rw [if_pos hsame] at hpr
      cases hpr
    · rw [if_neg hsame] at hpr ⊢
      exact h.userBit m' hm' v' hv' hpr

lemma Space.not_held_removeTable (hi : i < userPdes)
    (hp : (s.dir (D m) i).present = true) (u : Use) :
    (s.setDirEntry (D m) i Pte.zero).held M D u ≠ some (s.dir (D m) i).pfn := by
  intro hu
  have hu' := h.eq_table hm hi (Pte.frame_eq_some.mpr ⟨hp, rfl⟩) (h.held_removeTable_le hm u _ hu)
  rw [hu', held_table hm hi, dir_setDirEntry, if_pos ⟨rfl, rfl⟩] at hu
  cases hu

end

end

/-! ## Adding and removing an address space -/

section

variable {m d : Nat}

lemma Space.pte_cloneDir_new (h : Space s M D) {v : Nat} (hv : v < userPages) :
    (s.cloneDir d).pte d v = Pte.zero := by
  unfold pte cloneDir
  simp [h.kernelUser _ (pde_lt hv)]

lemma dir_cloneDir_of_ne {d' : Nat} (hd : d' ≠ d) (i : Nat) :
    (s.cloneDir d).dir d' i = s.dir d' i := by
  simp [cloneDir, hd]

lemma pte_cloneDir_of_ne {d' : Nat} (hd : d' ≠ d) (v : Nat) :
    (s.cloneDir d).pte d' v = s.pte d' v := by
  unfold pte
  rw [dir_cloneDir_of_ne hd]
  rfl

lemma Space.held_cloneDir (h : Space s M D) (hm : m ∉ M) (hd : ∀ u, s.held M D u ≠ some d) :
    (s.cloneDir d).held (insert m M) (update D m d) = update (s.held M D) (.dir m) (some d) := by
  have hk : s.kernelDir ≠ d := fun e => hd .kernelDir (congrArg some e)
  have hD : ∀ m' ∈ M, D m' ≠ d := fun m' hm' e => hd (.dir m') ((held_dir hm').trans (congrArg some e))
  funext u
  cases u with
  | kernelDir => rfl
  | dir m' =>
    by_cases hmm : m' = m
    · subst hmm
      simp [held]
    · have hne : Use.dir m' ≠ .dir m := fun e => hmm (Use.dir.inj e)
      rw [update_of_ne hne]
      simp [held, hmm]
  | kernelTable i =>
    have hkd : (s.cloneDir d).dir (s.cloneDir d).kernelDir i = s.dir s.kernelDir i :=
      dir_cloneDir_of_ne hk i
    have hne : Use.kernelTable i ≠ .dir m := Use.noConfusion
    rw [update_of_ne hne]
    simp only [held, hkd]
  | table m' i =>
    have hne : Use.table m' i ≠ .dir m := Use.noConfusion
    rw [update_of_ne hne]
    by_cases hi : i < userPdes
    · by_cases hmm : m' = m
      · subst hmm
        have hf : ((s.cloneDir d).dir d i).frame = none := by
          simp [cloneDir, Pte.frame, h.kernelUser i hi]
        simp [held, hm, hf]
      · by_cases hm' : m' ∈ M
        · rw [held_table (mem_insert_of_mem hm') hi, held_table hm' hi, update_of_ne hmm,
            dir_cloneDir_of_ne (hD m' hm')]
        · simp [held, hm', hmm]
    · simp [held, hi]
  | page m' v =>
    have hne : Use.page m' v ≠ .dir m := Use.noConfusion
    rw [update_of_ne hne]
    by_cases hv : v < userPages
    · by_cases hmm : m' = m
      · subst hmm
        rw [held_page (mem_insert_self m' M) hv, update_self, h.pte_cloneDir_new hv]
        simp [held, hm]
      · by_cases hm' : m' ∈ M
        · rw [held_page (mem_insert_of_mem hm') hv, held_page hm' hv, update_of_ne hmm,
            pte_cloneDir_of_ne (hD m' hm')]
        · simp [held, hm', hmm]
    · simp [held, hv]

lemma Space.cloneDir (h : Space s M D) (hm : m ∉ M) (hd : ∀ u, s.held M D u ≠ some d)
    (hfree : s.free d = false) (hd0 : d ≠ 0) :
    Space (s.cloneDir d) (insert m M) (update D m d) := by
  have hheld := h.held_cloneDir hm hd
  have hk : s.kernelDir ≠ d := fun e => hd .kernelDir (congrArg some e)
  have hD : ∀ m' ∈ M, D m' ≠ d := fun m' hm' e => hd (.dir m') ((held_dir hm').trans (congrArg some e))
  have hkd : ∀ i, (s.cloneDir d).dir (s.cloneDir d).kernelDir i = s.dir s.kernelDir i :=
    dir_cloneDir_of_ne hk
  refine ⟨?_, fun u f hu => ?_, fun i hi => ?_, fun m' hm' i hi hlt hpr => ?_,
    fun i hi hlt hpr j => ?_, fun m' hm' v hv hpr => ?_⟩
  · rw [hheld]
    exact h.exclusive.update_fresh hd
  · rw [hheld] at hu
    rw [update_apply] at hu
    split_ifs at hu with hum
    · cases hu
      exact ⟨hfree, hd0⟩
    · exact h.used u f hu
  · rw [hkd]
    exact h.kernelUser i hi
  · rw [hkd]
    rcases mem_insert.mp hm' with rfl | hm'
    · rw [update_self] at hpr ⊢
      simp only [cloneDir, update_self] at hpr ⊢
      exact ⟨hpr, trivial⟩
    · have hmm : m' ≠ m := fun e => hm (e ▸ hm')
      rw [update_of_ne hmm, dir_cloneDir_of_ne (hD m' hm')] at hpr ⊢
      exact h.kernelHalf m' hm' i hi hlt hpr
  · rw [hkd] at hpr ⊢
    exact h.kernelPte i hi hlt hpr j
  · rcases mem_insert.mp hm' with rfl | hm'
    · rw [update_self, h.pte_cloneDir_new hv] at hpr
      cases hpr
    · have hmm : m' ≠ m := fun e => hm (e ▸ hm')
      rw [update_of_ne hmm, pte_cloneDir_of_ne (hD m' hm')] at hpr ⊢
      exact h.userBit m' hm' v hv hpr

end

end Vm

end LiteKernel.Mm
