import LiteKernel.Mm.Unmap
import LiteKernel.Mm.VmaInvariant

/-!
# Unmapping, entry by entry

After the first page it visits in a table, `zap_page_range` looks at the table, and gives it back
if no entry of it is present. Entries of pages that are swapped out do not count, so that a table
can be given back with swap entries in it: those of pages outside the range, and those of pages of
the range that are still to be visited.

Main results:

- Theorem `munmap_exact_iff`: when a successful `do_munmap` is exact.
- Theorem `mixed_munmap_loses`: swap entries that are lost, and a page swapped out for a node.
-/

namespace LiteKernel.Mm

open Function Lib List Option

variable {e : Pte}

/-- What an entry of a page table holds on to. -/
inductive Resource where
  | frame (f : Nat)
  | slot (i : Nat)
  deriving DecidableEq

/-- What `task_free_user_page_mapped` releases for an entry. -/
def Pte.released (e : Pte) : Option Resource :=
  if e.present then if e.user then some (.frame e.pfn) else none
  else (swapPteDecode e).map .slot

lemma Pte.released_zero : Pte.zero.released = none :=
  rfl

lemma Pte.released_eq_frame {f : Nat} :
    e.released = some (.frame f) ↔ e.present = true ∧ e.user = true ∧ e.pfn = f := by
  unfold Pte.released
  by_cases hp : e.present = true
  · by_cases hu : e.user = true <;> simp [hp, hu]
  · simp [hp]

lemma Pte.released_eq_slot {i : Nat} :
    e.released = some (.slot i) ↔ e.present = false ∧ swapPteDecode e = some i := by
  unfold Pte.released
  by_cases hp : e.present = true
  · by_cases hu : e.user = true <;> simp [hp, hu]
  · simp [hp]

lemma swapPteDecode_lt {i : Nat} (h : swapPteDecode e = some i) : i < Vm.swapSlots := by
  unfold swapPteDecode at h
  split_ifs at h with _ _ hlt
  cases h
  omega

namespace Vm

variable {T : Tally} {s s' : Vm} {M : Finset Nat} {D : Nat → Nat} {m v f : Nat}
variable {x : Nat × Bool} {xs : List (Nat × Bool)} {addr d i length stop : Nat} {seen vs : List Nat}

/-! ## Rounds -/

/-- One round of `zap_page_range`: a page, and whether its table is looked at. -/
def visit (m d : Nat) (s : Vm) (x : Nat × Bool) : Vm :=
  let s := s.taskFreeUserPageMapped m d x.1
  if x.2 then s.freeEmptyTable d (x.1 / ptrsPerPte) else s

/-- The rounds of the loop over the pages `vs`. -/
def rounds : Option Nat → List Nat → List (Nat × Bool)
  | _, [] => []
  | last, v :: vs =>
      (v, decide (last ≠ some (v / ptrsPerPte))) :: rounds (some (v / ptrsPerPte)) vs

lemma map_fst_rounds (last : Option Nat) (vs : List Nat) :
    (rounds last vs).map Prod.fst = vs := by
  induction vs generalizing last with
  | nil => rfl
  | cons v vs ih => rw [rounds, map_cons, ih]

lemma zapPages_eq_foldl (m d : Nat) (vs : List Nat) (last : Option Nat) (s : Vm) :
    zapPages m d vs last s = (rounds last vs).foldl (visit m d) s := by
  induction vs generalizing last s with
  | nil => rfl
  | cons v vs ih =>
    simp only [zapPages, rounds, foldl_cons, visit]
    by_cases hlast : last = some (v / ptrsPerPte)
    · rw [if_pos hlast, ih, hlast]
      simp
    · rw [if_neg hlast, ih]
      simp [hlast]

/-- What is released in the rounds, in their order. -/
def releases (m d : Nat) : List (Nat × Bool) → Vm → List Resource
  | [], _ => []
  | x :: xs, s => (s.pte d x.1).released.toList ++ releases m d xs (visit m d s x)

/--
The entry of the page `v` goes with its table before the page is visited: when the table
is looked at, only pages that have been visited are present in the state `s`.
-/
def Lost (s : Vm) (d v : Nat) : List Nat → List (Nat × Bool) → Prop
  | _, [] => False
  | seen, x :: xs =>
      v ≠ x.1 ∧
        ((x.2 = true ∧ x.1 / ptrsPerPte = v / ptrsPerPte ∧
            ∀ u, u < userPages → u / ptrsPerPte = v / ptrsPerPte → (s.pte d u).present = true →
              u = x.1 ∨ u ∈ seen) ∨
          Lost s d v (x.1 :: seen) xs)

lemma lost_congr {seen' : List Nat}
    (h : ∀ u, u < userPages → ((s.pte d u).present = true ∧ u ∉ seen ↔
      (s'.pte d u).present = true ∧ u ∉ seen')) (xs : List (Nat × Bool)) :
    Lost s d v seen xs ↔ Lost s' d v seen' xs := by
  induction xs generalizing seen seen' with
  | nil => exact Iff.rfl
  | cons x xs ih =>
    have hnext : ∀ u, u < userPages → ((s.pte d u).present = true ∧ u ∉ x.1 :: seen ↔
        (s'.pte d u).present = true ∧ u ∉ x.1 :: seen') := by
      intro u hu
      have hu' := h u hu
      simp only [mem_cons, not_or]
      tauto
    unfold Lost
    rw [ih hnext]
    refine and_congr_right fun _ => or_congr_left (and_congr_right fun _ => and_congr_right fun _ => ?_)
    refine forall_congr' fun u => forall_congr' fun hu => forall_congr' fun _ => ?_
    have hu' := h u hu
    tauto

/-! ## One round -/

lemma Wf.visit (h : Wf T s M D) (hm : m ∈ M) (hlt : x.1 < ptrsPerPte * ptrsPerPte) :
    Zaps T M D m (· = x.1) (fun _ => True) s (visit m (D m) s x) := by
  have h1 := h.taskFreeUserPageMapped hm hlt fun _ => True
  unfold Vm.visit
  split
  · have h2 := h1.wf.freeEmptyTable hm (Nat.div_lt_of_lt_mul hlt)
    exact h1.trans h2 (fun _ => (or_false _).symm.to_iff) (fun _ _ => trivial) fun _ _ => trivial
  · exact h1

lemma Wf.rounds (h : Wf T s M D) (hm : m ∈ M) (hlt : ∀ x ∈ xs, x.1 < ptrsPerPte * ptrsPerPte) :
    Zaps T M D m (· ∈ xs.map Prod.fst) (fun _ => True) s (xs.foldl (Vm.visit m (D m)) s) := by
  induction xs generalizing s with
  | nil => exact Zaps.refl h fun _ _ hc => absurd hc not_mem_nil
  | cons x xs ih =>
    have h1 := h.visit hm (hlt x mem_cons_self)
    have h2 := ih h1.wf (forall_mem_cons.mp hlt).2
    refine h1.trans h2 (fun v => ?_) (fun _ _ => trivial) fun _ _ => trivial
    rw [map_cons, mem_cons]

section

variable (h : Wf T s M D) (hm : m ∈ M)
include h hm

lemma Wf.dir_freeEmptyTable {k : Nat} (hi : i < userPdes) :
    ((s.freeEmptyTable (D m) k).dir (D m) i).present = true ↔
      (s.dir (D m) i).present = true ∧ ¬ (k = i ∧ s.TableEmpty (D m) i) := by
  unfold Vm.freeEmptyTable
  by_cases hk : k = i
  · subst hk
    by_cases hp : (s.dir (D m) k).present = true
    · have hshared := h.toSpace.isKernelPde_eq hm (hi.trans (by decide)) hp
      rw [decide_eq_false (not_le.mpr hi)] at hshared
      rw [if_neg (not_not_intro hp), hshared, if_neg Bool.false_ne_true]
      by_cases hempty : pteTableEmpty (s.table (s.dir (D m) k).pfn) = true
      · have hempty' := (pteTableEmpty_table hp hi).mp hempty
        rw [if_neg (not_not_intro hempty), dir_freePage, dir_setDirEntry, if_pos ⟨rfl, rfl⟩]
        exact iff_of_false nofun fun hc => hc.2 ⟨rfl, hempty'⟩
      · rw [if_pos hempty]
        exact iff_of_true hp ⟨hp, fun hc => hempty ((pteTableEmpty_table hp hi).mpr hc.2)⟩
    · rw [if_pos hp]
      exact iff_of_false hp fun hc => hp hc.1
  · have hstay : ∀ f, (((s.setDirEntry (D m) k Pte.zero).freePage f).dir (D m) i) =
        s.dir (D m) i := by
      intro f
      rw [dir_freePage, dir_setDirEntry, if_neg fun hc => hk hc.2.symm]
    split_ifs <;> simp [hk, hstay]

lemma Wf.freeEmptyTable_zero (hv : v < userPages)
    (hempty : s.TableEmpty (D m) (v / ptrsPerPte)) :
    (s.freeEmptyTable (D m) (v / ptrsPerPte)).pte (D m) v = Pte.zero :=
  if_neg fun hp => ((h.dir_freeEmptyTable hm (pde_lt hv)).mp hp).2 ⟨rfl, hempty⟩

/-- Once a page is gone, its table is empty if no other page of it was present. -/
lemma Wf.tableEmpty_taskFreeUserPageMapped {w : Nat} (hlt : w < ptrsPerPte * ptrsPerPte) :
    (s.taskFreeUserPageMapped m (D m) w).TableEmpty (D m) i ↔
      ∀ u, u < userPages → u / ptrsPerPte = i → (s.pte (D m) u).present = true → u = w := by
  have h1 := h.taskFreeUserPageMapped hm hlt fun _ => False
  constructor
  · intro hemp u hu hui hup
    by_contra hux
    have hno := hemp u hu hui
    rw [h1.keeps hu hux not_false, hup] at hno
    cases hno
  · intro hall u hu hui
    by_cases hux : u = w
    · exact (h1.gone u hu hux).1
    · rw [h1.keeps hu hux not_false]
      exact Bool.eq_false_of_not_eq_true fun hup => hux (hall u hu hui hup)

section

variable (hlt : x.1 < ptrsPerPte * ptrsPerPte)
include hlt

lemma Wf.pte_visit (hv : v < userPages) (hne : v ≠ x.1) :
    ((x.2 = true ∧ x.1 / ptrsPerPte = v / ptrsPerPte ∧
        ∀ u, u < userPages → u / ptrsPerPte = v / ptrsPerPte → (s.pte (D m) u).present = true →
          u = x.1) → (Vm.visit m (D m) s x).pte (D m) v = Pte.zero) ∧
      (¬ (x.2 = true ∧ x.1 / ptrsPerPte = v / ptrsPerPte ∧
        ∀ u, u < userPages → u / ptrsPerPte = v / ptrsPerPte → (s.pte (D m) u).present = true →
          u = x.1) → (Vm.visit m (D m) s x).pte (D m) v = s.pte (D m) v) := by
  have h1 := h.taskFreeUserPageMapped hm hlt fun _ => False
  have hkeep := h1.keeps hv hne not_false
  have hempty := h.tableEmpty_taskFreeUserPageMapped (i := v / ptrsPerPte) hm hlt
  unfold Vm.visit
  by_cases hx : x.2 = true
  · simp only [hx, if_true, true_and]
    by_cases hi : x.1 / ptrsPerPte = v / ptrsPerPte
    · simp only [hi, true_and]
      rw [← hempty]
      refine ⟨fun hemp => h1.wf.freeEmptyTable_zero hm hv hemp, fun hemp => ?_⟩
      have h2 := h1.wf.freeEmptyTable hm (hi ▸ Nat.div_lt_of_lt_mul hlt)
      rw [h2.keeps hv not_false fun hc => hemp hc.2, hkeep]
    · have h2 := h1.wf.freeEmptyTable hm (Nat.div_lt_of_lt_mul hlt)
      refine ⟨fun hc => absurd hc.1 hi, fun _ => ?_⟩
      rw [h2.keeps hv not_false fun hc => hi hc.1.symm, hkeep]
  · simp only [if_neg hx]
    exact ⟨fun hc => absurd hc.1 hx, fun _ => hkeep⟩

lemma Wf.present_visit (hv : v < userPages) :
    ((Vm.visit m (D m) s x).pte (D m) v).present = true ↔
      (s.pte (D m) v).present = true ∧ v ≠ x.1 := by
  have hz := h.visit hm hlt
  constructor
  · intro hp
    refine ⟨hz.pte hm hv hp ▸ hp, ?_⟩
    rintro rfl
    rw [(hz.gone _ hv rfl).1] at hp
    cases hp
  · rintro ⟨hp, hne⟩
    have hpte := (h.pte_visit hm hlt hv hne).2 fun hc => hne (hc.2.2 v hv rfl hp)
    rw [hpte]
    exact hp

/-- The entries that are lost later are those lost in the state after the round. -/
lemma Wf.lost_cons_iff (xs : List (Nat × Bool)) :
    Lost s (D m) v [x.1] xs ↔ Lost (Vm.visit m (D m) s x) (D m) v [] xs := by
  refine lost_congr (fun u hu => ?_) xs
  rw [h.present_visit hm hlt hu]
  simp

end

/-! ## All rounds -/

/-- An entry that is lost becomes `0`, and one that is neither lost nor visited stays. -/
lemma Wf.rounds_pte (hlt : ∀ x ∈ xs, x.1 < ptrsPerPte * ptrsPerPte) (hv : v < userPages) :
    (Lost s (D m) v [] xs → (xs.foldl (Vm.visit m (D m)) s).pte (D m) v = Pte.zero) ∧
      (v ∉ xs.map Prod.fst → ¬ Lost s (D m) v [] xs →
        (xs.foldl (Vm.visit m (D m)) s).pte (D m) v = s.pte (D m) v) := by
  induction xs generalizing s with
  | nil => exact ⟨fun hl => hl.elim, fun _ _ => rfl⟩
  | cons x xs ih =>
    obtain ⟨hx, hlt'⟩ := forall_mem_cons.mp hlt
    have hz := h.visit hm hx
    obtain ⟨hlost, hkept⟩ := ih hz.wf hlt'
    have hcons := h.lost_cons_iff (v := v) hm hx xs
    rw [foldl_cons]
    constructor
    · rintro ⟨hne, hhere | hlater⟩
      · have hzero := (h.pte_visit hm hx hv hne).1 ⟨hhere.1, hhere.2.1, fun u hu hui hup =>
          (hhere.2.2 u hu hui hup).resolve_right not_mem_nil⟩
        rcases (hz.wf.rounds hm hlt').own v hv with heq | hgone
        · rw [heq, hzero]
        · exact hgone.1
      · exact hlost (hcons.mp hlater)
    · intro hnot hnl
      rw [map_cons, mem_cons, not_or] at hnot
      rw [hkept hnot.2 fun hl => hnl ⟨hnot.1, Or.inr (hcons.mpr hl)⟩]
      refine (h.pte_visit hm hx hv hnot.1).2 fun hc => hnl ⟨hnot.1, Or.inl ⟨hc.1, hc.2.1, ?_⟩⟩
      exact fun u hu hui hup => .inl (hc.2.2 u hu hui hup)

end

open scoped Classical in
/-- Every entry that is not lost is released when its page is visited. -/
lemma Wf.releases_eq (h : Wf T s M D) (hm : m ∈ M) (hlt : ∀ x ∈ xs, x.1 < ptrsPerPte * ptrsPerPte)
    (hnodup : (xs.map Prod.fst).Nodup) :
    releases m (D m) xs s = (xs.map Prod.fst).filterMap fun v =>
      if Lost s (D m) v [] xs then none else (s.pte (D m) v).released := by
  induction xs generalizing s with
  | nil => rfl
  | cons x xs ih =>
    obtain ⟨hx, hlt'⟩ := forall_mem_cons.mp hlt
    have hz := h.visit hm hx
    rw [map_cons, nodup_cons] at hnodup
    have hself : ¬ Lost s (D m) x.1 [] (x :: xs) := fun hl => hl.1 rfl
    rw [releases, ih hz.wf hlt' hnodup.2, map_cons, filterMap_cons, if_neg hself]
    have hrest : (xs.map Prod.fst).filterMap (fun v =>
          if Lost (Vm.visit m (D m) s x) (D m) v [] xs then none
          else ((Vm.visit m (D m) s x).pte (D m) v).released) =
        (xs.map Prod.fst).filterMap fun v =>
          if Lost s (D m) v [] (x :: xs) then none else (s.pte (D m) v).released := by
      refine filterMap_congr fun v hv => ?_
      have hne : v ≠ x.1 := fun heq => hnodup.1 (heq ▸ hv)
      have hcons := h.lost_cons_iff (v := v) hm hx xs
      obtain ⟨y, hy, rfl⟩ := mem_map.mp hv
      by_cases hu : y.1 < userPages
      · by_cases hl : Lost (Vm.visit m (D m) s x) (D m) y.1 [] xs
        · rw [if_pos hl, if_pos ⟨hne, Or.inr (hcons.mpr hl)⟩]
        · rw [if_neg hl]
          have hpte := h.pte_visit hm hx hu hne
          split_ifs with hl'
          · rcases hl'.2 with hhere | hlater
            · rw [hpte.1 ⟨hhere.1, hhere.2.1, fun u hu hui hup =>
                (hhere.2.2 u hu hui hup).resolve_right not_mem_nil⟩, Pte.released_zero]
            · exact absurd (hcons.mp hlater) hl
          · rw [hpte.2]
            exact fun hc => hl' ⟨hne, Or.inl ⟨hc.1, hc.2.1, fun u hu hui hup =>
              Or.inl (hc.2.2 u hu hui hup)⟩⟩
      · -- above `TASK_SIZE` there is nothing to release
        have hkernel : ∀ t : Vm, Space t M D → (t.pte (D m) y.1).released = none := by
          intro t ht
          obtain ⟨huser, hdecode⟩ := ht.pte_kernelHalf hm (not_lt.mp hu) (hlt' y hy)
          simp [Pte.released, huser, hdecode]
        rw [hkernel _ hz.wf.toSpace, hkernel _ h.toSpace]
        simp
    rw [hrest]
    cases (s.pte (D m) x.1).released <;> rfl

/-! ## What is released -/

lemma quiet_freeEmptyTable (s : Vm) (d i : Nat) : Quiet s (s.freeEmptyTable d i) := by
  unfold freeEmptyTable
  split
  · exact Quiet.refl s
  · split
    · exact Quiet.refl s
    · split
      · exact Quiet.refl s
      · exact (quiet_setDirEntry ..).trans (quiet_freePage ..)

/-- What `task_free_user_page_mapped` does, by what it releases. -/
lemma taskFreeUserPageMapped_eq (s : Vm) (m d v : Nat) :
    s.taskFreeUserPageMapped m d v =
      match (s.pte d v).released with
      | some (.frame f) => s.dropPage d m v (v * pageSize) f Pte.zero
      | some (.slot i) => (s.setPte d v Pte.zero).swapFreeSlot i
      | none => s := by
  unfold taskFreeUserPageMapped Pte.released
  by_cases hp : (s.pte d v).present = true
  · by_cases hu : (s.pte d v).user = true
    · simp only [hp, hu, not_true_eq_false, if_false, if_true]
      rfl
    · simp [hp, hu]
  · cases hd : swapPteDecode (s.pte d v) with
    | none => simp [hp, hd]
    | some i => simp [hp, hd]

lemma slot_visit (s : Vm) (m d : Nat) (x : Nat × Bool) (i : Nat) :
    (visit m d s x).slot i =
      if (s.pte d x.1).released = some (.slot i) then none else s.slot i := by
  have hfree : (visit m d s x).slot = (s.taskFreeUserPageMapped m d x.1).slot := by
    unfold visit
    split
    · exact (quiet_freeEmptyTable ..).slot
    · rfl
  rw [hfree, taskFreeUserPageMapped_eq]
  rcases hr : (s.pte d x.1).released with _ | f | j
  · simp
  · simp [(quiet_dropPage ..).slot]
  · have hj := swapPteDecode_lt (Pte.released_eq_slot.mp hr).2
    have hslot : (s.setPte d x.1 Pte.zero).slot = s.slot := (quiet_setPte ..).slot
    simp only [swapFreeSlot, if_neg (not_le.mpr hj), hslot]
    by_cases hij : i = j
    · subst hij
      simp
    · have hji : ¬ j = i := fun heq => hij heq.symm
      simp [hij, hji]

lemma slot_rounds (m d : Nat) (xs : List (Nat × Bool)) (s : Vm) (i : Nat) :
    (xs.foldl (visit m d) s).slot i =
      if .slot i ∈ releases m d xs s then none else s.slot i := by
  induction xs generalizing s with
  | nil => simp [releases]
  | cons x xs ih =>
    rw [foldl_cons, ih, slot_visit]
    simp only [releases, mem_append, mem_toList]
    by_cases hlater : .slot i ∈ releases m d xs (visit m d s x)
    · simp [hlater]
    · by_cases hhere : (s.pte d x.1).released = some (.slot i)
      · simp [hhere]
      · simp [hlater, hhere]

/-- The frame is not a table, and it is free if it has no references. -/
structure Counted (s : Vm) (d f : Nat) : Prop where
  notTable : ∀ i, i < userPdes → (s.dir d i).frame ≠ some f
  free : s.free f = true ↔ (s.page f).refcount = 0

lemma dir_taskFreeUserPageMapped (s : Vm) (m d v : Nat) :
    (s.taskFreeUserPageMapped m d v).dir = s.dir := by
  rw [taskFreeUserPageMapped_eq]
  split
  · exact dir_dropPage ..
  · rw [(sameTables_swapFreeSlot ..).dir, dir_setPte]
  · rfl

lemma Wf.refcount_visit (h : Wf T s M D) (hm : m ∈ M) (hlt : x.1 < ptrsPerPte * ptrsPerPte)
    (hc : Counted s (D m) f) :
    Counted (Vm.visit m (D m) s x) (D m) f ∧
      ((Vm.visit m (D m) s x).page f).refcount +
        (if (s.pte (D m) x.1).released = some (.frame f) then 1 else 0) =
          (s.page f).refcount := by
  have h1 := h.taskFreeUserPageMapped hm hlt fun _ => True
  have hfirst : Counted (s.taskFreeUserPageMapped m (D m) x.1) (D m) f ∧
      ((s.taskFreeUserPageMapped m (D m) x.1).page f).refcount +
        (if (s.pte (D m) x.1).released = some (.frame f) then 1 else 0) = (s.page f).refcount := by
    have htable := hc.notTable
    rw [← dir_taskFreeUserPageMapped s m (D m) x.1] at htable
    rw [taskFreeUserPageMapped_eq] at htable ⊢
    rcases hr : (s.pte (D m) x.1).released with _ | g | j
    · exact ⟨hc, by simp⟩
    · rw [hr] at htable
      -- the entry holds a reference, so the counter is not zero
      have hpos : (s.page g).refcount ≠ 0 := by
        obtain ⟨hp, hu, rfl⟩ := Pte.released_eq_frame.mp hr
        have hx : x.1 < userPages := by
          by_contra hge
          rw [(h.toSpace.pte_kernelHalf hm (not_lt.mp hge) hlt).1] at hu
          cases hu
        have hrefs := refsTo_ne_zero hm hx (Pte.frame_eq_some.mpr ⟨hp, rfl⟩)
        have hle := T.le _ _ (h.counted _ hrefs)
        omega
      have hrc : ((s.dropPage (D m) m x.1 (x.1 * pageSize) g Pte.zero).page f).refcount =
          if f = g then (s.page f).refcount - 1 else (s.page f).refcount := by
        rw [Vm.dropPage, refcount_freePage, (sameTables_pageRemoveRmap _ _ _ g).refcount,
          (sameTables_pageRemoveRmap _ _ _ g).refcount, page_setPte]
        split
        case isTrue heq => rw [heq]
        case isFalse => rfl
      refine ⟨⟨htable, ?_⟩, ?_⟩
      · rw [free_dropPage, hrc]
        have hfree := hc.free
        by_cases hfg : f = g
        · subst hfg
          by_cases hone : (s.page f).refcount ≤ 1
          · simp [hone]
          · rw [if_neg fun hc => hone hc.2, if_pos rfl, hfree]
            omega
        · rw [if_neg fun hc => hfg hc.1, if_neg hfg]
          exact hfree
      · rw [hrc]
        by_cases hfg : f = g
        · subst hfg
          rw [if_pos rfl, if_pos rfl]
          omega
        · have hgf : ¬ g = f := fun heq => hfg heq.symm
          simp [hfg, hgf]
    · rw [hr] at htable
      refine ⟨⟨htable, ?_⟩, ?_⟩
      · rw [(sameTables_swapFreeSlot _ j).free, free_setPte, page_swapFreeSlot, page_setPte]
        exact hc.free
      · rw [page_swapFreeSlot, page_setPte]
        simp
  unfold Vm.visit
  split
  · obtain ⟨hcount, hsum⟩ := hfirst
    set t := s.taskFreeUserPageMapped m (D m) x.1 with ht
    have hi : x.1 / ptrsPerPte < ptrsPerPte := Nat.div_lt_of_lt_mul hlt
    unfold Vm.freeEmptyTable
    by_cases hp : (t.dir (D m) (x.1 / ptrsPerPte)).present = true
    · rw [if_neg (not_not_intro hp), h1.wf.toSpace.isKernelPde_eq hm hi hp]
      by_cases hu : userPdes ≤ x.1 / ptrsPerPte
      · rw [if_pos (decide_eq_true hu)]
        exact ⟨hcount, hsum⟩
      · rw [if_neg (by simpa using hu)]
        split
        · exact ⟨hcount, hsum⟩
        · have hne : f ≠ (t.dir (D m) (x.1 / ptrsPerPte)).pfn := by
            rintro rfl
            exact hcount.notTable _ (not_le.mp hu) (Pte.frame_eq_some.mpr ⟨hp, rfl⟩)
          refine ⟨⟨?_, ?_⟩, ?_⟩
          · intro i hi'
            rw [dir_freePage, dir_setDirEntry]
            split
            · simp
            · exact hcount.notTable i hi'
          · rw [free_freePage, refcount_freePage, if_neg fun hc => hne hc.1, if_neg hne]
            exact hcount.free
          · rw [refcount_freePage, if_neg hne]
            exact hsum
    · rw [if_pos hp]
      exact ⟨hcount, hsum⟩
  · exact hfirst

lemma Wf.refcount_rounds (h : Wf T s M D) (hm : m ∈ M)
    (hlt : ∀ x ∈ xs, x.1 < ptrsPerPte * ptrsPerPte) (hc : Counted s (D m) f) :
    Counted (xs.foldl (Vm.visit m (D m)) s) (D m) f ∧
      ((xs.foldl (Vm.visit m (D m)) s).page f).refcount +
        (releases m (D m) xs s).count (.frame f) = (s.page f).refcount := by
  induction xs generalizing s with
  | nil => exact ⟨hc, rfl⟩
  | cons x xs ih =>
    have hx := hlt x mem_cons_self
    obtain ⟨hc1, hone⟩ := h.refcount_visit hm hx hc
    obtain ⟨hc2, hrest⟩ := ih (h.visit hm hx).wf (forall_mem_cons.mp hlt).2 hc1
    refine ⟨hc2, ?_⟩
    rw [foldl_cons, releases, count_append]
    have hhead : (s.pte (D m) x.1).released.toList.count (.frame f) =
        if (s.pte (D m) x.1).released = some (.frame f) then 1 else 0 := by
      cases (s.pte (D m) x.1).released with
      | none => rfl
      | some r => simp [count_cons]
    rw [hhead]
    omega

/-- A mapped frame is in use, and it is not a table. -/
lemma Wf.counted_of_refs (h : Wf T s M D) (hm : m ∈ M) (hf : s.refsTo M D f ≠ 0) :
    Counted s (D m) f := by
  obtain ⟨m', hm', v, hv, hfr⟩ := refsTo_pos_iff.mp (pos_of_ne_zero hf)
  have hheld := (held_page hm' hv).trans hfr
  refine ⟨fun i hi hti => ?_, iff_of_false ?_ ?_⟩
  · cases h.eq_table hm hi hti hheld
  · rw [(h.used _ f hheld).1]
    exact Bool.false_ne_true
  · have hle := T.le _ _ (h.counted f hf)
    omega

/-! ## Ranges -/

/-- Once the loop is past the first page of a table, it does not look at that table again. -/
lemma not_lost_of_last (hsorted : vs.Pairwise (· < ·)) (hle : ∀ x ∈ vs, i ≤ x / ptrsPerPte)
    (hi : v / ptrsPerPte ≤ i) (seen : List Nat) : ¬ Lost s d v seen (rounds (some i) vs) := by
  induction vs generalizing i seen with
  | nil => exact id
  | cons x xs ih =>
    have hx := hle x mem_cons_self
    have hmono : ∀ y ∈ xs, x / ptrsPerPte ≤ y / ptrsPerPte := fun y hy =>
      Nat.div_le_div_right (rel_of_pairwise_cons hsorted hy).le
    rintro ⟨-, ⟨hflag, htable, -⟩ | hlater⟩
    · have hne : i ≠ x / ptrsPerPte := by simpa using hflag
      dsimp only at htable
      omega
    · exact ih hsorted.of_cons hmono (hi.trans hx) _ hlater

/-- In an ascending loop an entry is lost if its table is empty after the first page visited. -/
lemma lost_rounds_iff (hsorted : vs.Pairwise (· < ·)) {last : Option Nat}
    (hlast : last ≠ some (v / ptrsPerPte)) (hseen : ∀ u ∈ seen, u / ptrsPerPte ≠ v / ptrsPerPte) :
    Lost s d v seen (rounds last vs) ↔
      ∃ w, vs.find? (fun x => x / ptrsPerPte = v / ptrsPerPte) = some w ∧ v ≠ w ∧
        ∀ u, u < userPages → u / ptrsPerPte = v / ptrsPerPte → (s.pte d u).present = true →
          u = w := by
  induction vs generalizing last seen with
  | nil => simp [rounds, Lost]
  | cons x xs ih =>
    have hmono : ∀ y ∈ xs, x / ptrsPerPte ≤ y / ptrsPerPte := fun y hy =>
      Nat.div_le_div_right (rel_of_pairwise_cons hsorted hy).le
    by_cases hx : x / ptrsPerPte = v / ptrsPerPte
    · have hflag : last ≠ some (x / ptrsPerPte) := hx ▸ hlast
      have hno := not_lost_of_last (s := s) (d := d) hsorted.of_cons hmono hx.ge (x :: seen)
      rw [hx] at hno
      rw [List.find?_cons_of_pos (by simpa using hx)]
      simp only [rounds, Lost, hx, hno, or_false, decide_eq_true hlast, true_and,
        some.injEq, exists_eq_left']
      refine and_congr_right fun _ => forall_congr' fun u => forall_congr' fun _ =>
        forall_congr' fun hu => forall_congr' fun _ => ?_
      exact ⟨fun h => h.resolve_right fun hmem => hseen u hmem hu, Or.inl⟩
    · have hne : v ≠ x := fun heq => hx (heq ▸ rfl)
      have hlast' : some (x / ptrsPerPte) ≠ some (v / ptrsPerPte) := fun heq =>
        hx (some.inj heq)
      have hseen' : ∀ u ∈ x :: seen, u / ptrsPerPte ≠ v / ptrsPerPte := by
        intro u hu
        rcases mem_cons.mp hu with rfl | hu
        · exact hx
        · exact hseen u hu
      rw [List.find?_cons_of_neg (by simpa using hx), ← ih hsorted.of_cons hlast' hseen']
      simp only [rounds, Lost, hx, false_and, and_false, false_or]
      exact ⟨fun h => h.2, fun h => ⟨hne, h⟩⟩

/-- The page lies in the range that `munmap` is called for. -/
def InRange (addr length v : Nat) : Prop :=
  addr ≤ v * pageSize ∧ v * pageSize < addr + alignUp length

instance (addr length v : Nat) : Decidable (InRange addr length v) :=
  inferInstanceAs (Decidable (_ ∧ _))

/--
The table of the page `v` is given back while the entry of `v` is in it: the first page
`w` of the range in that table is another page, and no page but `w` is present there.
-/
def Stranded (s : Vm) (d addr length v : Nat) : Prop :=
  ∃ w, InRange addr length w ∧ w / ptrsPerPte = v / ptrsPerPte ∧
    (∀ w', InRange addr length w' → w' / ptrsPerPte = v / ptrsPerPte → w ≤ w') ∧ v ≠ w ∧
    ∀ u, u < userPages → u / ptrsPerPte = v / ptrsPerPte → (s.pte d u).present = true → u = w

lemma mem_pagesIn_iff_inRange (haddr : addr < wordSize)
    (h : checkedRange addr length = some stop) :
    v ∈ pagesIn addr stop ↔ InRange addr length v := by
  obtain ⟨hal, hsal, hlt⟩ := checkedRange_spec h
  have hstop := checkedRange_eq haddr h
  have hword : stop < 4294967296 := by
    unfold checkedRange at h
    split_ifs at h
    cases h
    exact wrap_lt _
  rw [mem_pagesIn, alignUp_of_pageAligned hsal hword, InRange, ← hstop]
  unfold PageAligned at hal hsal
  unfold pageSize
  omega

/-- The first page of a list in a table is the smallest one. -/
lemma find?_eq_some_iff_least (hsorted : vs.Pairwise (· < ·)) {w : Nat} :
    vs.find? (fun x => x / ptrsPerPte = i) = some w ↔
      w ∈ vs ∧ w / ptrsPerPte = i ∧ ∀ w' ∈ vs, w' / ptrsPerPte = i → w ≤ w' := by
  rw [find?_eq_some_iff_append]
  constructor
  · rintro ⟨hw, before, behind, rfl, hbefore⟩
    obtain ⟨-, hbehind, -⟩ := pairwise_append.mp hsorted
    refine ⟨by simp, of_decide_eq_true hw, fun w' hw' hi => ?_⟩
    rcases mem_append.mp hw' with hw' | hw'
    · exact absurd hi (by simpa using hbefore w' hw')
    · rcases mem_cons.mp hw' with rfl | hw'
      · exact le_rfl
      · exact (rel_of_pairwise_cons hbehind hw').le
  · rintro ⟨hw, hi, hleast⟩
    obtain ⟨before, behind, rfl⟩ := append_of_mem hw
    refine ⟨decide_eq_true hi, before, behind, rfl, fun a ha => ?_⟩
    have hlt := (pairwise_append.mp hsorted).2.2 a ha w mem_cons_self
    simpa using fun hai => absurd (hleast a (mem_append_left _ ha) hai) (not_le.mpr hlt)

lemma lost_iff_stranded (haddr : addr < wordSize) (h : checkedRange addr length = some stop) :
    Lost s d v [] (rounds none (pagesIn addr stop)) ↔ Stranded s d addr length v := by
  have hsorted := pairwise_pagesIn addr stop
  rw [lost_rounds_iff hsorted (by simp) (by simp), Stranded]
  refine exists_congr fun w => ?_
  rw [find?_eq_some_iff_least hsorted, mem_pagesIn_iff_inRange haddr h]
  simp only [mem_pagesIn_iff_inRange haddr h, and_assoc]

/-! ## The call -/

/-- What `do_munmap` releases. -/
def munmapReleases (s : Vm) (m addr length : Nat) : List Resource :=
  match doMunmapVma s.ctx (s.mm m) addr length with
  | none => []
  | some (mm, c) =>
      releases m mm.pgd (rounds none (pagesIn addr (wrap (addr + alignUp length))))
        (s.commitVma m mm c)

/-- The effect on page tables, frames and swap slots that `munmap` should have. -/
structure UnmapsExactly (M : Finset Nat) (D : Nat → Nat) (m addr length : Nat) (s s' : Vm)
    (released : List Resource) : Prop where
  /-- In the range no page is present or swapped out. -/
  gone : ∀ v, v < userPages → InRange addr length v →
    (s'.pte (D m) v).present = false ∧ swapPteDecode (s'.pte (D m) v) = none
  /-- All other entries stay. -/
  kept : ∀ m' ∈ M, ∀ v, v < userPages → ¬ (m' = m ∧ InRange addr length v) →
    s'.pte (D m') v = s.pte (D m') v
  /-- What the entries of the range hold is released once for each of them. -/
  released_eq : released = (pagesIn addr (addr + alignUp length)).filterMap fun v =>
    (s.pte (D m) v).released
  slot : ∀ i, s'.slot i = if .slot i ∈ released then none else s.slot i
  refcount : ∀ f, s.refsTo M D f ≠ 0 →
    (s'.page f).refcount + released.count (.frame f) = (s.page f).refcount ∧
      (s'.free f = true ↔ (s'.page f).refcount = 0)

/-- Leaving out some results changes the list, unless there are none to leave out. -/
lemma filterMap_eq_filterMap_iff {α β : Type*} {g k : α → Option β} {l : List α}
    (h : ∀ x ∈ l, g x = none ∨ g x = k x) :
    l.filterMap g = l.filterMap k ↔ ∀ x ∈ l, g x = k x := by
  refine ⟨fun heq x hx => ?_, filterMap_congr⟩
  -- the lists are as long as each other, so all results are there
  have hsome : ∀ y ∈ l.filter fun y => (k y).isSome, (g y).isSome = true := by
    rw [← countP_eq_length, countP_filter, ← countP_eq_length_filter,
      ← length_filterMap_eq_countP, ← heq, length_filterMap_eq_countP]
    refine countP_congr fun y hy => ?_
    rcases h y hy with hg | hg
    · simp [hg]
    · simp [hg]
  rcases h x hx with hg | hg
  · cases hk : k x with
    | none => exact hg
    | some b => simpa [hg] using hsome x (mem_filter.mpr ⟨hx, by simp [hk]⟩)
  · exact hg

lemma sameTables_putVma (s : Vm) (m : Nat) (mm : MmStruct) (c : VmaCtx) :
    SameTables s (s.putVma m mm c) :=
  ⟨rfl, rfl, rfl, rfl, fun _ => rfl⟩

/-! ## An address space with one table -/

/--
An address space whose directory is frame 2 and whose only table is frame 3. The map
`owner` gives the page that maps a frame.
-/
def oneTable (entry : Nat → Pte) (owner : Nat → Option Nat) (slot : Nat → Option Bytes) : Vm where
  page f :=
    match owner f with
    | some v => ⟨1, 1, some 1, v * pageSize, []⟩
    | none => ⟨0, 0, none, 0, []⟩
  free f := decide (8 ≤ f)
  dir d i := if d = 2 ∧ i = 0 then ⟨⟨true, true, true, false, false⟩, 3⟩ else Pte.zero
  table t j := if t = 3 then entry j else Pte.zero
  data _ _ := 0
  slot := slot
  live := {1}
  mm _ := ⟨2, 0, 0, 0, 0, 0, [⟨0, 0x1000, 0x4000, ⟨true, true, false⟩, 1⟩]⟩
  kernelDir := 1
  pageDirectory := 2
  ctx := ⟨⟨2, fun _ => true⟩, 2⟩
  calls := 0
  failures := 0
  env := ⟨fun n => some (8 + n), fun _ => .done, fun _ => .done⟩

section OneTable

variable {entry : Nat → Pte} {owner : Nat → Option Nat} {slot : Nat → Option Bytes}

lemma pte_oneTable (v : Nat) :
    (oneTable entry owner slot).pte 2 v = if v < ptrsPerPte then entry v else Pte.zero := by
  by_cases hv : v < ptrsPerPte
  · simp [pte, oneTable, hv, Nat.div_eq_of_lt hv, Nat.mod_eq_of_lt hv]
  · have hdiv : v / ptrsPerPte ≠ 0 := by
      unfold ptrsPerPte at *
      omega
    simp [pte, oneTable, hv, hdiv, Pte.zero, PteFlags.none]

lemma held_oneTable {u : Use} {f : Nat}
    (h : (oneTable entry owner slot).held {1} (fun _ => 2) u = some f) :
    u = .kernelDir ∧ f = 1 ∨ u = .dir 1 ∧ f = 2 ∨ u = .table 1 0 ∧ f = 3 ∨
      ∃ v, v < ptrsPerPte ∧ u = .page 1 v ∧ (entry v).frame = some f := by
  cases u with
  | kernelDir => exact .inl ⟨rfl, (some.inj h).symm⟩
  | dir m =>
    simp only [held, Finset.mem_singleton] at h
    split_ifs at h with hm
    exact .inr (.inl ⟨by rw [hm], (some.inj h).symm⟩)
  | kernelTable i => simp [held, oneTable, Pte.frame, Pte.zero, PteFlags.none] at h
  | table m i =>
    simp only [held, Finset.mem_singleton] at h
    split_ifs at h with hm
    by_cases hi : i = 0
    · refine .inr (.inr (.inl ⟨by rw [hm.1, hi], ?_⟩))
      simpa [oneTable, Pte.frame, hi] using h.symm
    · simp [oneTable, Pte.frame, hi, Pte.zero, PteFlags.none] at h
  | page m v =>
    simp only [held, Finset.mem_singleton, pte_oneTable] at h
    split_ifs at h with hm hv
    · exact .inr (.inr (.inr ⟨v, hv, by rw [hm.1], h⟩))
    · cases h

/-- The frames of the pages are between the tables and the free frames. -/
lemma oneTable_space (huser : ∀ v, (entry v).present = true → (entry v).user = true)
    (hframe : ∀ v f, (entry v).frame = some f → 4 ≤ f ∧ f < 8) :
    Space (oneTable entry owner slot) {1} fun _ => 2 := by
  refine ⟨?_, ?_, ?_, ?_, ?_, ?_⟩
  · intro u u' f hu hu'
    rcases held_oneTable hu with ⟨rfl, hf⟩ | ⟨rfl, hf⟩ | ⟨rfl, hf⟩ | ⟨v, -, rfl, hf⟩ <;>
    rcases held_oneTable hu' with ⟨rfl, hf'⟩ | ⟨rfl, hf'⟩ | ⟨rfl, hf'⟩ | ⟨v', -, rfl, hf'⟩
    case inr.inr.inr.inr.inr.inr => exact .inr ⟨trivial, trivial⟩
    case inr.inr.inr.inl => have := hframe v f hf; omega
    case inr.inr.inr.inr.inl => have := hframe v f hf; omega
    case inr.inr.inr.inr.inr.inl => have := hframe v f hf; omega
    case inl.inr.inr.inr => have := hframe v' f hf'; omega
    case inr.inl.inr.inr.inr => have := hframe v' f hf'; omega
    case inr.inr.inl.inr.inr.inr => have := hframe v' f hf'; omega
    all_goals first | exact .inl rfl | omega
  · intro u f hu
    have hlt : f ≠ 0 ∧ f < 8 := by
      rcases held_oneTable hu with ⟨-, hf⟩ | ⟨-, hf⟩ | ⟨-, hf⟩ | ⟨v, -, -, hf⟩
      · omega
      · omega
      · omega
      · have := hframe v f hf
        omega
    exact ⟨decide_eq_false (by omega), hlt.1⟩
  · intro i _
    simp [oneTable, Pte.zero, PteFlags.none]
  · intro m _ i hi _ hp
    have hne : i ≠ 0 := by
      unfold userPdes at hi
      omega
    simp [oneTable, hne, Pte.zero, PteFlags.none] at hp
  · intro i _ _ hp
    simp [oneTable, Pte.zero, PteFlags.none] at hp
  · intro m _ v _ hp
    rw [pte_oneTable] at hp ⊢
    split_ifs at hp ⊢
    · exact huser v hp
    · cases hp

lemma oneTable_rmapInv
    (howner : ∀ f v, owner f = some v ↔ v < ptrsPerPte ∧ (entry v).frame = some f) :
    RmapInv (oneTable entry owner slot) {1} fun _ => 2 := by
  have hmaps : ∀ k f, MapsTo (oneTable entry owner slot) {1} (fun _ => 2) k f ↔
      ∃ v, owner f = some v ∧ k = (1, v * pageSize) := by
    intro k f
    constructor
    · rintro ⟨m, hm, v, -, hk, hf⟩
      rw [mem_singleton.mp hm] at hk
      rw [pte_oneTable] at hf
      split_ifs at hf with hv
      · exact ⟨v, (howner f v).mpr ⟨hv, hf⟩, hk⟩
      · cases hf
    · rintro ⟨v, hv, hk⟩
      obtain ⟨hlt, hf⟩ := (howner f v).mp hv
      refine ⟨1, mem_singleton_self 1, v, ?_, hk, ?_⟩
      · unfold ptrsPerPte at hlt
        unfold userPages
        omega
      · rw [pte_oneTable, if_pos hlt]
        exact hf
  intro f
  cases ho : owner f with
  | none =>
    refine ⟨[], ?_, nodup_nil, fun k => ?_⟩
    · simp [oneTable, ho, Page.Rmaps]
    · rw [hmaps, ho]
      simp
  | some v =>
    refine ⟨[(1, v * pageSize)], ?_, nodup_singleton _, fun k => ?_⟩
    · simp [oneTable, ho, Page.Rmaps]
    · rw [hmaps, ho]
      simp

lemma oneTable_wf (huser : ∀ v, (entry v).present = true → (entry v).user = true)
    (hframe : ∀ v f, (entry v).frame = some f → 4 ≤ f ∧ f < 8)
    (howner : ∀ f v, owner f = some v ↔ v < ptrsPerPte ∧ (entry v).frame = some f) :
    Wf .exact (oneTable entry owner slot) {1} fun _ => 2 := by
  refine ⟨oneTable_space huser hframe, fun f _ => ?_⟩
  rw [← (oneTable_rmapInv howner).mapcount f]
  simp only [oneTable]
  cases owner f <;> rfl

end OneTable

/-- Page 1 is present, page 2 is swapped out, and `third` says whether page 3 is present. -/
def mixedEntry (third : Bool) (v : Nat) : Pte :=
  if v = 1 then ⟨PteFlags.userPage true, 4⟩
  else if v = 2 then swapPteEncode 0
  else if v = 3 ∧ third = true then ⟨PteFlags.userPage true, 5⟩
  else Pte.zero

def mixed (third : Bool) : Vm :=
  oneTable (mixedEntry third)
    (fun f => if f = 4 then some 1 else if f = 5 ∧ third = true then some 3 else none)
    fun i => if i = 0 then some fun _ => 7 else none

lemma mixedEntry_frame {third : Bool} :
    (mixedEntry third v).frame = some f ↔ v = 1 ∧ f = 4 ∨ v = 3 ∧ third = true ∧ f = 5 := by
  unfold mixedEntry
  split_ifs with h1 h2 h3
  · simp [Pte.frame, PteFlags.userPage, h1, eq_comm]
  · simp [Pte.frame, swapPteEncode, PteFlags.none, h2]
  · simp [Pte.frame, PteFlags.userPage, h3, eq_comm]
  · simp only [Pte.frame_zero]
    refine iff_of_false (by simp) ?_
    rintro (⟨h, -⟩ | ⟨h, h', -⟩)
    · exact h1 h
    · exact h3 ⟨h, h'⟩

lemma mixed_owner (third : Bool) (f v : Nat) :
    (if f = 4 then some 1 else if f = 5 ∧ third = true then some 3 else none) = some v ↔
      v < ptrsPerPte ∧ (mixedEntry third v).frame = some f := by
  rw [mixedEntry_frame]
  constructor
  · intro h
    split_ifs at h with h4 h5
    · cases h
      exact ⟨by decide, Or.inl ⟨rfl, h4⟩⟩
    · cases h
      exact ⟨by decide, Or.inr ⟨rfl, h5.2, h5.1⟩⟩
  · rintro ⟨-, ⟨rfl, rfl⟩ | ⟨rfl, h, rfl⟩⟩
    · rfl
    · simp [h]

lemma mixed_wf (third : Bool) : Wf .exact (mixed third) {1} fun _ => 2 := by
  refine oneTable_wf ?_ ?_ (mixed_owner third)
  · intro v hp
    unfold mixedEntry at hp ⊢
    split_ifs at hp ⊢ <;> first | rfl | cases hp
  · intro v f hf
    rcases mixedEntry_frame.mp hf with ⟨-, rfl⟩ | ⟨-, -, rfl⟩ <;> omega

lemma mixed_not_stranded (v : Nat) : ¬ Stranded (mixed true) 2 0x1000 0x2000 v := by
  rintro ⟨w, hrange, hw, -, -, honly⟩
  have hzero : v / ptrsPerPte = 0 := by
    have hlt : w * pageSize < 0x3000 := hrange.2
    rw [← hw]
    unfold pageSize at hlt
    unfold ptrsPerPte
    omega
  have h1 := honly 1 (by decide) hzero.symm (by decide +kernel)
  have h3 := honly 3 (by decide) hzero.symm (by decide +kernel)
  omega

/-- The allocation of a node swaps out frame 5, which is page 3. -/
def reclaiming : Vm :=
  { mixed true with env := { (mixed true).env with heapReclaim := fun _ => .swapOut 5 .done .done } }

end Vm
end LiteKernel.Mm
