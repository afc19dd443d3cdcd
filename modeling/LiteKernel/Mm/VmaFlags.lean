import LiteKernel.Mm.VmaInvariant

/-!
# Addresses and their flags

What a process sees of its list of areas is which addresses are mapped and with which flags.
Areas may overlap: the loader makes such lists.

Main results:

- Lemmas `flagsAt_vmaInsert`, `flagsAt_munmapList`, `flagsAt_mprotectList`: what the surgery does to
  each address, whatever is merged on the way and whichever allocation fails.
-/

namespace LiteKernel.Mm

open Lib List VmaCtx

variable {addr start stop : Nat} {c : VmaCtx}

/-- The address lies in an area of the list with these flags. -/
def FlagsAt (l : List VmArea) (x : Nat) (f : VmFlags) : Prop :=
  ∃ v ∈ l, v.contains x = true ∧ v.vmFlags = f

/-- Some area of the list reaches into `[start, stop)`. -/
def Meets (l : List VmArea) (start stop : Nat) : Prop :=
  ∃ v ∈ l, v.vmStart < stop ∧ start < v.vmEnd

/-- Every area of the list is an interval. -/
def Intervals (l : List VmArea) : Prop :=
  ∀ v ∈ l, v.vmStart ≤ v.vmEnd

/-- The first area lies inside the second one. -/
def VmArea.Within (a b : VmArea) : Prop :=
  b.vmStart ≤ a.vmStart ∧ a.vmEnd ≤ b.vmEnd

variable {v n : VmArea} {l l' : List VmArea} {x : Nat} {f : VmFlags}

@[simp] lemma contains_iff : v.contains x = true ↔ v.vmStart ≤ x ∧ x < v.vmEnd := by
  simp [VmArea.contains]

@[simp] lemma flagsAt_nil : ¬ FlagsAt [] x f := by
  simp [FlagsAt]

@[simp] lemma flagsAt_cons :
    FlagsAt (v :: l) x f ↔ (v.contains x = true ∧ v.vmFlags = f) ∨ FlagsAt l x f := by
  simp [FlagsAt]

@[simp] lemma flagsAt_append : FlagsAt (l ++ l') x f ↔ FlagsAt l x f ∨ FlagsAt l' x f := by
  simp only [FlagsAt, List.mem_append, or_and_right, exists_or]

@[simp] lemma intervals_cons :
    Intervals (v :: l) ↔ v.vmStart ≤ v.vmEnd ∧ Intervals l := by
  simp [Intervals]

@[simp] lemma intervals_append : Intervals (l ++ l') ↔ Intervals l ∧ Intervals l' := by
  simp [Intervals, or_imp, forall_and]

lemma vmaRangeFree_eq_false :
    vmaRangeFree l start stop = false ↔ Meets l start stop := by
  simp [vmaRangeFree, Meets]

lemma vmaRangeFree_eq_true :
    vmaRangeFree l start stop = true ↔ ¬ Meets l start stop := by
  rw [← vmaRangeFree_eq_false, Bool.not_eq_false]

lemma not_flagsAt_of_not_meets (h : ¬ Meets l start stop) (hlow : start ≤ x) (hhigh : x < stop) :
    ¬ FlagsAt l x f := by
  rintro ⟨v, hv, hx, -⟩
  rw [contains_iff] at hx
  exact h ⟨v, hv, by omega, by omega⟩

/-! ## Merging and insertion -/

namespace Fuses

section

variable (h : Fuses l l') (hl : Intervals l)
include h hl

lemma intervals : Intervals l' := by
  induction h with
  | nil => exact hl
  | keep _ ih => exact intervals_cons.mpr ((intervals_cons.mp hl).imp_right ih)
  | merge hm _ ih =>
    simp only [vmaCanMerge, Bool.and_eq_true, beq_iff_eq] at hm
    simp only [intervals_cons] at hl ih
    exact ih ⟨by omega, hl.2.2⟩

lemma flagsAt : FlagsAt l' x f ↔ FlagsAt l x f := by
  induction h with
  | nil => rfl
  | keep _ ih => rw [flagsAt_cons, flagsAt_cons, ih (intervals_cons.mp hl).2]
  | merge hm _ ih =>
    simp only [vmaCanMerge, Bool.and_eq_true, beq_iff_eq] at hm
    obtain ⟨⟨hflags, -⟩, hend⟩ := hm
    simp only [intervals_cons] at hl ih
    rw [ih ⟨by omega, hl.2.2⟩]
    simp only [flagsAt_cons, contains_iff, ← hflags, ← or_assoc, ← or_and_right]
    refine or_congr_left (and_congr_left fun _ => ?_)
    omega

lemma within : ∀ a ∈ l, ∃ b ∈ l', a.Within b := by
  induction h with
  | nil => simp
  | keep _ ih =>
    intro a ha
    rcases mem_cons.mp ha with rfl | ha
    · exact ⟨a, by simp, le_refl _, le_refl _⟩
    · obtain ⟨b, hb, hab⟩ := ih (intervals_cons.mp hl).2 a ha
      exact ⟨b, by simp [hb], hab⟩
  | @merge v w l l' hm _ ih =>
    simp only [vmaCanMerge, Bool.and_eq_true, beq_iff_eq] at hm
    simp only [intervals_cons] at hl ih
    have hih := ih ⟨by omega, hl.2.2⟩
    obtain ⟨r, hr, hvr⟩ := hih { v with vmEnd := w.vmEnd } (by simp)
    simp only [VmArea.Within] at hvr
    intro a ha
    simp only [mem_cons] at ha
    rcases ha with rfl | rfl | ha
    · exact ⟨r, hr, hvr.1, by omega⟩
    · exact ⟨r, hr, by omega, hvr.2⟩
    · exact hih a (by simp [ha])

end

end Fuses

/-- What an insertion does, apart from the node `k` that it leaves alone. -/
lemma vmaInsert_others {k : Nat} (hn : n.vmStart ≤ n.vmEnd) (hl : Intervals l)
    (hnk : n.node ≠ k) (hk : ∀ a ∈ l, a.node = k → a.vmEnd ≠ n.vmStart ∧ a.vmStart < n.vmEnd) :
    (∀ a ∈ l, a.node = k → a ∈ vmaInsert n l) ∧
      ∀ x f, FlagsAt ((vmaInsert n l).filter (·.node ≠ k)) x f ↔
        (n.contains x = true ∧ n.vmFlags = f) ∨ FlagsAt (l.filter (·.node ≠ k)) x f := by
  obtain ⟨pre, ps, ms, post, r, rfl, heq, hf, hps, hms, -⟩ := vmaInsert_eq n l
  simp only [intervals_append] at hl
  have hps' : ∀ a ∈ ps, a.node ≠ k := fun a ha hak => (hk a (by simp [ha]) hak).1 (hps a ha)
  have hms' : ∀ a ∈ ms, a.node ≠ k := fun a ha hak => by
    have h1 := (hk a (by simp [ha]) hak).2
    have h2 := hms hl.2.1 a ha
    omega
  have hr : r.node ≠ k := by
    have hmem := hf.nodes.subset (mem_singleton_self r.node)
    simp only [map_append, map_cons, mem_append, mem_cons, mem_map] at hmem
    rcases hmem with ⟨a, ha, har⟩ | hrn | ⟨a, ha, har⟩
    · exact har ▸ hps' a ha
    · exact hrn ▸ hnk
    · exact har ▸ hms' a ha
  refine ⟨fun a ha hak => ?_, fun x f => ?_⟩
  · simp only [heq, mem_append, mem_cons] at ha ⊢
    tauto
  · have hrun : FlagsAt [r] x f ↔ FlagsAt (ps ++ n :: ms) x f :=
      hf.flagsAt (by simp [hl, hn])
    have hpsf : ps.filter (·.node ≠ k) = ps := by simpa [filter_eq_self] using hps'
    have hmsf : ms.filter (·.node ≠ k) = ms := by simpa [filter_eq_self] using hms'
    simp only [flagsAt_cons, flagsAt_nil, or_false, flagsAt_append] at hrun
    rw [heq, filter_append, filter_cons_of_pos (by simpa using hr)]
    simp only [filter_append, hpsf, hmsf, flagsAt_append, flagsAt_cons, hrun]
    tauto

/-- An insertion adds the addresses of the new area, whatever is merged. -/
lemma flagsAt_vmaInsert (hv : v.vmStart ≤ v.vmEnd) (hl : Intervals l) :
    FlagsAt (vmaInsert v l) x f ↔ (v.contains x = true ∧ v.vmFlags = f) ∨ FlagsAt l x f := by
  obtain ⟨pre, ps, ms, post, r, rfl, heq, hf, -⟩ := vmaInsert_eq v l
  simp only [intervals_append] at hl
  have hrun : FlagsAt [r] x f ↔ FlagsAt (ps ++ v :: ms) x f := hf.flagsAt (by simp [hl, hv])
  simp only [flagsAt_cons, flagsAt_nil, or_false, flagsAt_append] at hrun
  simp only [heq, flagsAt_append, flagsAt_cons, hrun]
  tauto

lemma intervals_vmaInsert (hv : v.vmStart ≤ v.vmEnd) (hl : Intervals l) :
    Intervals (vmaInsert v l) := by
  obtain ⟨pre, ps, ms, post, r, rfl, heq, hf, -⟩ := vmaInsert_eq v l
  simp only [intervals_append] at hl
  have hr : Intervals [r] := hf.intervals (by simp [hl, hv])
  simp only [intervals_cons] at hr
  rw [heq]
  simp [hl, hr.1]

/-! ## Unmapping -/

/-- No address lies in two areas. -/
def Apart (l : List VmArea) : Prop :=
  l.Pairwise fun a b => ∀ x, ¬ (a.contains x = true ∧ b.contains x = true)

lemma flagsAt_munmapPieces (hlt : addr < stop) (c : VmaCtx) :
    FlagsAt (munmapPieces addr stop c v).1 x f ↔
      (v.contains x = true ∧ v.vmFlags = f) ∧ ¬ (addr ≤ x ∧ x < stop) ∧
        (stop ≤ x → v.vmStart < addr → c.heap.ok c.heap.next = true) := by
  unfold munmapPieces
  by_cases hf : v.vmFlags = f
  · cases hok : c.heap.ok c.heap.next
    · rw [kmalloc_of_not_ok hok]
      split_ifs <;> simp [hf] <;> omega
    · rw [kmalloc_of_ok hok]
      split_ifs <;> simp [hf] <;> omega
  · cases hok : c.heap.ok c.heap.next
    · rw [kmalloc_of_not_ok hok]
      split_ifs <;> simp [hf]
    · rw [kmalloc_of_ok hok]
      split_ifs <;> simp [hf]

/--
The surgery of `do_munmap` on disjoint areas takes the range away, and the right half of an area
around the range if there is no memory for its node.
-/
lemma flagsAt_munmapList (hlt : addr < stop) (h : Apart l) (c : VmaCtx) :
    FlagsAt (munmapList addr stop c l).1 x f ↔
      FlagsAt l x f ∧ ¬ (addr ≤ x ∧ x < stop) ∧
        (stop ≤ x → (∃ v ∈ l, v.contains x = true ∧ v.vmStart < addr) →
          c.heap.ok c.heap.next = true) := by
  induction l generalizing c with
  | nil => simp [munmapList]
  | cons v rest ih =>
    obtain ⟨hv, hrest⟩ := pairwise_cons.mp h
    rw [munmapList_cons, flagsAt_append, flagsAt_munmapPieces hlt, ih hrest, flagsAt_cons]
    simp only [exists_mem_cons_iff]
    -- an address of the rest is not in the first area
    have hrest' : (∃ w ∈ rest, w.contains x = true ∧ w.vmStart < addr) ∨ FlagsAt rest x f →
        ¬ v.contains x = true := by
      rintro (⟨w, hw, hwx, -⟩ | ⟨w, hw, hwx, -⟩) hvx
      · exact hv w hw x ⟨hvx, hwx⟩
      · exact hv w hw x ⟨hvx, hwx⟩
    by_cases hsplit : v.vmStart < addr ∧ stop < v.vmEnd
    · have hnone : stop ≤ x → ¬ ∃ w ∈ rest, w.contains x = true ∧ w.vmStart < addr := by
        rintro hx ⟨w, hw, hwx, hlow⟩
        simp only [contains_iff] at hwx
        exact hv w hw addr ⟨by simp only [contains_iff]; omega, by simp only [contains_iff]; omega⟩
      grind
    · have hc : (munmapPieces addr stop c v).2 = c := by
        unfold munmapPieces
        split_ifs <;> first | rfl | omega
      rw [hc]
      grind

lemma intervals_munmapList (h : Intervals l) (c : VmaCtx) :
    Intervals (munmapList addr stop c l).1 := by
  induction l generalizing c with
  | nil => exact h
  | cons v rest ih =>
    obtain ⟨hv, hrest⟩ := intervals_cons.mp h
    rw [munmapList_cons]
    refine intervals_append.mpr ⟨?_, ih hrest _⟩
    unfold munmapPieces
    cases hok : c.heap.ok c.heap.next
    · rw [kmalloc_of_not_ok hok]
      split_ifs <;> simp [Intervals] <;> omega
    · rw [kmalloc_of_ok hok]
      split_ifs <;> simp [Intervals] <;> omega

/-! ## Changing the protection -/

/-- Assignment through a node pointer, seen from an address. -/
lemma flagsAt_vmaSet {g : VmArea → VmArea} (hn : (l.map VmArea.node).Nodup) (hv : v ∈ l) :
    FlagsAt (vmaSet v.node g l) x f ↔ ((g v).contains x = true ∧ (g v).vmFlags = f) ∨
      FlagsAt (l.filter (·.node ≠ v.node)) x f := by
  obtain ⟨pre, post, rfl⟩ := append_of_mem hv
  rw [vmaSet_append_cons hn]
  simp only [map_append, map_cons, nodup_append, nodup_cons] at hn
  obtain ⟨-, ⟨hpost, -⟩, hpre⟩ := hn
  have h1 : pre.filter (·.node ≠ v.node) = pre := by
    simp only [filter_eq_self, decide_eq_true_eq]
    exact fun a ha hav => hpre a.node (mem_map_of_mem ha) v.node (by simp) hav
  have h2 : post.filter (·.node ≠ v.node) = post := by
    simp only [filter_eq_self, decide_eq_true_eq]
    exact fun a ha hav => hpost (hav ▸ mem_map_of_mem ha)
  rw [filter_append, filter_cons_of_neg (by simp), h1, h2]
  simp only [flagsAt_append, flagsAt_cons]
  tauto

/-- A part of the area `v` becomes an area of its own, while `v` stays as it is. -/
lemma vmaAddAnon_part (hn : NodesOk c l) (hl : Intervals l) (hv : v ∈ l) (hle : v.vmStart ≤ start)
    (hge : stop ≤ v.vmEnd) :
    let r := vmaAddAnon c l start stop v.vmFlags v.anonVmaId
    Intervals r.1 ∧ v ∈ r.1 ∧
      ∀ x f, FlagsAt (r.1.filter (·.node ≠ v.node)) x f ↔
        (((start ≤ x ∧ x < stop) ∧ v.vmFlags = f) ∧ c.heap.ok c.heap.next = true) ∨
          FlagsAt (l.filter (·.node ≠ v.node)) x f := by
  intro r
  by_cases hempty : start ≥ stop
  · rw [show r = (l, c) from if_pos hempty]
    exact ⟨hl, hv, fun x f => (or_iff_right (by omega)).symm⟩
  · cases hok : c.heap.ok c.heap.next
    · have hr : r = (l, c.kmalloc.2) := by
        simp only [r, vmaAddAnon, if_neg hempty]
        rw [kmalloc_of_not_ok hok]
      rw [hr]
      exact ⟨hl, hv, fun x f => by simp⟩
    · have hr : r = (vmaInsert ⟨c.heap.next, start, stop, v.vmFlags, v.anonVmaId⟩ l,
          c.kmalloc.2) := by
        simp only [r, vmaAddAnon, if_neg hempty]
        rw [kmalloc_of_ok hok]
      have hk : ∀ a ∈ l, a.node = v.node → a.vmEnd ≠ start ∧ a.vmStart < stop := by
        intro a ha hav
        rw [inj_on_of_nodup_map hn.nodup ha hv hav]
        omega
      obtain ⟨hkeep, hothers⟩ := vmaInsert_others
        (n := ⟨c.heap.next, start, stop, v.vmFlags, v.anonVmaId⟩) (not_le.mp hempty).le hl
        (hn.old v hv).ne' hk
      rw [hr]
      exact ⟨intervals_vmaInsert (not_le.mp hempty).le hl, hkeep v hv rfl,
        fun x f => by simpa using hothers x f⟩

lemma vmaAddAnon_next (c : VmaCtx) (l : List VmArea) (start stop : Nat) (flags : VmFlags)
    (id : Nat) : (vmaAddAnon c l start stop flags id).2.heap.next =
      c.heap.next + if start < stop then 1 else 0 := by
  unfold vmaAddAnon
  by_cases hlt : start < stop
  · cases hok : c.heap.ok c.heap.next
    · rw [if_neg (by omega), if_pos hlt, kmalloc_of_not_ok hok, kmalloc_next]
    · rw [if_neg (by omega), if_pos hlt, kmalloc_of_ok hok, kmalloc_next]
  · rw [if_pos (by omega), if_neg hlt, add_zero]

/-- The two insertions of `do_mprotect`; an insertion of an empty range does nothing. -/
lemma mprotectList_eq (c : VmaCtx) (l : List VmArea) (v : VmArea) (addr stop : Nat)
    (flags : VmFlags) :
    mprotectList c l v addr stop flags =
      let r := vmaAddAnon c l v.vmStart addr v.vmFlags v.anonVmaId
      let r := vmaAddAnon r.2 r.1 stop v.vmEnd v.vmFlags v.anonVmaId
      (vmaSet v.node (fun w => { w with vmStart := addr, vmEnd := stop, vmFlags := flags }) r.1,
        r.2) := by
  have hif : ∀ (c : VmaCtx) (l : List VmArea) (start stop : Nat),
      (if start < stop then vmaAddAnon c l start stop v.vmFlags v.anonVmaId else (l, c)) =
        vmaAddAnon c l start stop v.vmFlags v.anonVmaId := by
    intro c l start stop
    by_cases hlt : start < stop
    · exact if_pos hlt
    · rw [if_neg hlt, vmaAddAnon, if_pos (not_lt.mp hlt)]
  simp only [mprotectList, gt_iff_lt, hif]

lemma NodesOk.mprotectList (hn : NodesOk c l) (v : VmArea) (addr stop : Nat) (flags : VmFlags) :
    NodesOk (mprotectList c l v addr stop flags).2 (mprotectList c l v addr stop flags).1 := by
  rw [mprotectList_eq]
  exact ((hn.addAnon _ _ _ _).addAnon _ _ _ _).set v.node fun _ => rfl

/--
The surgery of `do_mprotect` around the area `v`: the range gets the new flags, and the
parts of `v` beside it stay where there is memory for their nodes.
-/
lemma flagsAt_mprotectList (hn : NodesOk c l) (hl : Intervals l) (hv : v ∈ l)
    (hstart : v.vmStart ≤ addr) (hlt : addr < stop) (hend : stop ≤ v.vmEnd) (flags : VmFlags) :
    Intervals (mprotectList c l v addr stop flags).1 ∧
      ∀ x f, FlagsAt (mprotectList c l v addr stop flags).1 x f ↔
        ((addr ≤ x ∧ x < stop) ∧ flags = f) ∨
        (((stop ≤ x ∧ x < v.vmEnd) ∧ v.vmFlags = f) ∧
          c.heap.ok (c.heap.next + if v.vmStart < addr then 1 else 0) = true) ∨
        (((v.vmStart ≤ x ∧ x < addr) ∧ v.vmFlags = f) ∧ c.heap.ok c.heap.next = true) ∨
        FlagsAt (l.filter (·.node ≠ v.node)) x f := by
  rw [mprotectList_eq]
  set r1 := vmaAddAnon c l v.vmStart addr v.vmFlags v.anonVmaId with hr1
  set r2 := vmaAddAnon r1.2 r1.1 stop v.vmEnd v.vmFlags v.anonVmaId
  have hn1 : NodesOk r1.2 r1.1 := hn.addAnon _ _ _ _
  have hn2 : NodesOk r2.2 r2.1 := hn1.addAnon _ _ _ _
  obtain ⟨hl1, hv1, hf1⟩ := vmaAddAnon_part hn hl hv (le_refl v.vmStart) (hlt.le.trans hend)
  obtain ⟨hl2, hv2, hf2⟩ := vmaAddAnon_part hn1 hl1 hv1 (hstart.trans hlt.le) (le_refl v.vmEnd)
  refine ⟨?_, fun x f => ?_⟩
  · intro a ha
    simp only [vmaSet, mem_map] at ha
    obtain ⟨w, hw, rfl⟩ := ha
    split
    · exact hlt.le
    · exact hl2 w hw
  · rw [flagsAt_vmaSet hn2.nodup hv2, hf2, hf1]
    simp only [hr1, vmaAddAnon_ok, vmaAddAnon_next, contains_iff]

end LiteKernel.Mm
