import LiteKernel.Mm.Vma

/-!
# Chains of virtual memory areas

The list of a process is meant to be sorted by start address and to consist of
disjoint, non-empty page ranges. Both together say that every area ends before
the next one starts: `VmaChain`.

Main results:

- Lemma `VmaChain.munmap`: the cuts of `do_munmap` keep the chain.
- Lemma `mprotectList_chain`: so do the two insertions of `do_mprotect` around the node it holds.
-/

namespace LiteKernel.Mm

open Lib List VmaCtx

variable {n p v : VmArea} {A B l post pre : List VmArea} {addr stop : Nat} {c : VmaCtx}
  {f : VmArea → VmArea}

/-- The list invariant, in the words of its users. -/
structure VmaInv (l : List VmArea) : Prop where
  sorted : l.Pairwise fun a b => a.vmStart < b.vmStart
  disjoint : l.Pairwise fun a b => a.vmEnd ≤ b.vmStart ∨ b.vmEnd ≤ a.vmStart
  pages : ∀ v ∈ l, PageAligned v.vmStart ∧ PageAligned v.vmEnd ∧ v.vmStart < v.vmEnd

/-- The same invariant as one chain: every area ends before the next one starts. -/
structure VmaChain (l : List VmArea) : Prop where
  chain : l.Pairwise fun a b => a.vmEnd ≤ b.vmStart
  pages : ∀ v ∈ l, PageAligned v.vmStart ∧ PageAligned v.vmEnd ∧ v.vmStart < v.vmEnd

lemma vmaInv_iff_vmaChain : VmaInv l ↔ VmaChain l := by
  constructor
  · intro h
    refine ⟨?_, h.pages⟩
    refine (h.sorted.and h.disjoint).imp_of_mem ?_
    rintro a b ha hb ⟨hlt, hd⟩
    have hb' := (h.pages b hb).2.2
    omega
  · intro h
    refine ⟨?_, h.chain.imp fun hab => .inl hab, h.pages⟩
    refine h.chain.imp_of_mem ?_
    intro a b ha _ hab
    have ha' := (h.pages a ha).2.2
    omega

namespace VmaChain

variable {l : List VmArea}

lemma nil : VmaChain [] :=
  ⟨List.Pairwise.nil, by simp⟩

lemma cons_iff {v : VmArea} :
    VmaChain (v :: l) ↔
      (PageAligned v.vmStart ∧ PageAligned v.vmEnd ∧ v.vmStart < v.vmEnd) ∧
        (∀ w ∈ l, v.vmEnd ≤ w.vmStart) ∧ VmaChain l := by
  constructor
  · intro h
    obtain ⟨hv, hl⟩ := pairwise_cons.mp h.chain
    exact ⟨h.pages v (by simp), hv, hl, fun w hw => h.pages w (by simp [hw])⟩
  · rintro ⟨hp, hv, hl⟩
    refine ⟨pairwise_cons.mpr ⟨hv, hl.chain⟩, ?_⟩
    intro w hw
    rcases mem_cons.mp hw with rfl | hw
    · exact hp
    · exact hl.pages w hw

lemma append_iff {l1 l2 : List VmArea} :
    VmaChain (l1 ++ l2) ↔
      VmaChain l1 ∧ VmaChain l2 ∧ ∀ a ∈ l1, ∀ b ∈ l2, a.vmEnd ≤ b.vmStart := by
  constructor
  · intro h
    obtain ⟨h1, h2, h12⟩ := pairwise_append.mp h.chain
    exact ⟨⟨h1, fun v hv => h.pages v (by simp [hv])⟩,
      ⟨h2, fun v hv => h.pages v (by simp [hv])⟩, h12⟩
  · rintro ⟨h1, h2, h12⟩
    refine ⟨pairwise_append.mpr ⟨h1.chain, h2.chain, h12⟩, ?_⟩
    intro v hv
    rcases mem_append.mp hv with hv | hv
    · exact h1.pages v hv
    · exact h2.pages v hv

/-- Two chained neighbours of which the first ends where the second starts become one. -/
lemma fuse {v w : VmArea} (h : VmaChain (v :: w :: l)) :
    VmaChain ({ v with vmEnd := w.vmEnd } :: l) := by
  obtain ⟨hv, hvl, hwl⟩ := cons_iff.mp h
  obtain ⟨hw, hwl', hl⟩ := cons_iff.mp hwl
  refine cons_iff.mpr ⟨⟨hv.1, hw.2.1, ?_⟩, hwl', hl⟩
  have hvw := hvl w (by simp)
  show v.vmStart < w.vmEnd
  omega

end VmaChain

/-! ## Merging and insertion -/

/-- The second list comes from the first one by merging neighbours that may be merged. -/
inductive Fuses : List VmArea → List VmArea → Prop
  | nil : Fuses [] []
  | keep {v : VmArea} {l l' : List VmArea} : Fuses l l' → Fuses (v :: l) (v :: l')
  | merge {v w : VmArea} {l l' : List VmArea} : vmaCanMerge v w = true →
      Fuses ({ v with vmEnd := w.vmEnd } :: l) l' → Fuses (v :: w :: l) l'

namespace Fuses

variable {l l' : List VmArea}

lemma refl (l : List VmArea) : Fuses l l := by
  induction l with
  | nil => exact nil
  | cons v l ih => exact keep ih

lemma append_left (pre : List VmArea) (h : Fuses l l') : Fuses (pre ++ l) (pre ++ l') := by
  induction pre with
  | nil => exact h
  | cons v pre ih => exact keep ih

lemma append_right {m : List VmArea} (h : Fuses l l') : Fuses (l ++ m) (l' ++ m) := by
  induction h with
  | nil => exact refl m
  | keep _ ih => exact keep ih
  | merge hm _ ih => exact merge hm ih

lemma bounds (h : Fuses l l') :
    ∀ w ∈ l', (∃ a ∈ l, a.vmStart = w.vmStart) ∧ ∃ a ∈ l, a.vmEnd = w.vmEnd := by
  induction h with
  | nil => simp
  | keep _ ih =>
    intro w hw
    rcases mem_cons.mp hw with rfl | hw
    · simp
    · simp [ih w hw]
  | merge _ _ ih =>
    intro w hw
    have := ih w hw
    simp only [mem_cons, exists_eq_or_imp] at this ⊢
    tauto

lemma chain (h : Fuses l l') (hl : VmaChain l) : VmaChain l' := by
  induction h with
  | nil => exact hl
  | keep h ih =>
    obtain ⟨hv, hvl, hl⟩ := VmaChain.cons_iff.mp hl
    refine VmaChain.cons_iff.mpr ⟨hv, fun w hw => ?_, ih hl⟩
    obtain ⟨⟨a, ha, haw⟩, -⟩ := h.bounds w hw
    exact haw ▸ hvl a ha
  | merge _ _ ih => exact ih hl.fuse

lemma nodes (h : Fuses l l') : (l'.map VmArea.node).Sublist (l.map VmArea.node) := by
  induction h with
  | nil => exact List.Sublist.refl _
  | keep _ ih => exact ih.cons_cons _
  | merge _ _ ih => exact ih.trans ((sublist_cons_self _ _).cons_cons _)

end Fuses

lemma vmaMergeFrom_fuses (v : VmArea) (l : List VmArea) :
    Fuses (v :: l) (vmaMergeFrom v l) := by
  induction l generalizing v with
  | nil => exact Fuses.refl _
  | cons next rest ih =>
    unfold vmaMergeFrom
    split
    case isTrue hm => exact Fuses.merge hm (ih _)
    case isFalse => exact Fuses.keep (ih next)

lemma vmaMergeAdjacent_fuses (l : List VmArea) : Fuses l (vmaMergeAdjacent l) := by
  cases l with
  | nil => exact Fuses.nil
  | cons v rest => exact vmaMergeFrom_fuses v rest

/-- The areas absorbed by `v` are a run of its successors. -/
lemma vmaAbsorb_eq (v : VmArea) (l : List VmArea) :
    ∃ ms post r, l = ms ++ post ∧ vmaAbsorb v l = r :: post ∧ Fuses (v :: ms) [r] ∧
      ((∀ a ∈ ms, a.vmStart ≤ a.vmEnd) → ∀ a ∈ ms, v.vmEnd ≤ a.vmStart) := by
  induction l generalizing v with
  | nil => exact ⟨[], [], v, rfl, rfl, Fuses.refl _, by simp⟩
  | cons next rest ih =>
    unfold vmaAbsorb
    split
    case isTrue hm =>
      obtain ⟨ms, post, r, hl, heq, hf, hle⟩ := ih { v with vmEnd := next.vmEnd }
      refine ⟨next :: ms, post, r, by rw [hl]; rfl, heq, Fuses.merge hm hf, fun hi a ha => ?_⟩
      simp only [vmaCanMerge, Bool.and_eq_true, beq_iff_eq] at hm
      rcases mem_cons.mp ha with rfl | ha
      · exact hm.2.le
      · have h1 := hi next (by simp)
        have h2 := hle (fun b hb => hi b (by simp [hb])) a ha
        simp only at h2
        omega
    case isFalse => exact ⟨[], next :: rest, v, rfl, rfl, Fuses.refl _, by simp⟩

lemma vmaInsertAfter_append (q : VmArea) (hA : ∀ a ∈ A, a.vmStart < v.vmStart)
    (hp : p.vmStart < v.vmStart) (hB : ∀ b ∈ B.head?, v.vmStart ≤ b.vmStart) :
    vmaInsertAfter q v (A ++ p :: B) = q :: A ++ vmaLink p v B := by
  induction A generalizing q with
  | nil =>
    rw [nil_append, vmaInsertAfter, if_pos hp]
    cases B with
    | nil => rfl
    | cons b B => rw [vmaInsertAfter, if_neg (not_lt.mpr (hB b rfl))]; rfl
  | cons a A ih =>
    rw [cons_append, vmaInsertAfter, if_pos (hA a (by simp)), ih a fun b hb => hA b (by simp [hb])]
    rfl

lemma vmaInsert_head (hB : ∀ b ∈ B.head?, v.vmStart ≤ b.vmStart) :
    vmaInsert v B = vmaAbsorb v B := by
  cases B with
  | nil => rfl
  | cons b B => rw [vmaInsert, if_neg (not_lt.mpr (hB b rfl))]

lemma vmaInsert_append (hA : ∀ a ∈ A, a.vmStart < v.vmStart) (hp : p.vmStart < v.vmStart)
    (hB : ∀ b ∈ B.head?, v.vmStart ≤ b.vmStart) :
    vmaInsert v (A ++ p :: B) = A ++ vmaLink p v B := by
  cases A with
  | nil =>
    rw [nil_append, vmaInsert, if_pos hp]
    cases B with
    | nil => rfl
    | cons b B => rw [vmaInsertAfter, if_neg (not_lt.mpr (hB b rfl))]; rfl
  | cons a A =>
    rw [cons_append, vmaInsert, if_pos (hA a (by simp)),
      vmaInsertAfter_append a (fun b hb => hA b (by simp [hb])) hp hB]

/--
Insertion merges the new area with a run of neighbours: the areas `ps` end where it starts,
the areas `ms` continue it, and the others stay.
-/
lemma vmaInsert_eq (v : VmArea) (l : List VmArea) :
    ∃ pre ps ms post r, l = pre ++ ps ++ (ms ++ post) ∧ vmaInsert v l = pre ++ r :: post ∧
      Fuses (ps ++ v :: ms) [r] ∧ (∀ a ∈ ps, a.vmEnd = v.vmStart) ∧
      ((∀ a ∈ ms, a.vmStart ≤ a.vmEnd) → ∀ a ∈ ms, v.vmEnd ≤ a.vmStart) ∧
      (∀ a ∈ pre ++ ps, a.vmStart < v.vmStart) ∧
      ∀ b ∈ (ms ++ post).head?, v.vmStart ≤ b.vmStart := by
  have hsplit := takeWhile_append_dropWhile (p := fun a => decide (a.vmStart < v.vmStart)) (l := l)
  have hA : ∀ a ∈ l.takeWhile fun a => decide (a.vmStart < v.vmStart), a.vmStart < v.vmStart :=
    fun a ha => by simpa using all_eq_true.mp all_takeWhile a ha
  have hB : ∀ b ∈ (l.dropWhile fun a => decide (a.vmStart < v.vmStart)).head?,
      v.vmStart ≤ b.vmStart := by
    intro b hb
    have := head?_dropWhile_not (fun a : VmArea => decide (a.vmStart < v.vmStart)) l
    rw [Option.mem_def.mp hb] at this
    simpa using this
  generalize l.takeWhile (fun a => decide (a.vmStart < v.vmStart)) = A at hsplit hA
  generalize l.dropWhile (fun a => decide (a.vmStart < v.vmStart)) = B at hsplit hB
  subst hsplit
  rcases A.eq_nil_or_concat with rfl | ⟨A, p, rfl⟩
  · obtain ⟨ms, post, r, rfl, heq, hf, hle⟩ := vmaAbsorb_eq v B
    exact ⟨[], [], ms, post, r, rfl, (vmaInsert_head hB).trans heq, hf, by simp, hle, by simp, hB⟩
  · have hp := hA p (by simp)
    have hA' : ∀ a ∈ A, a.vmStart < v.vmStart := fun a ha => hA a (by simp [ha])
    have hins := vmaInsert_append hA' hp hB
    rw [concat_eq_append, append_assoc, singleton_append, hins]
    unfold vmaLink
    split
    case isTrue hm =>
      obtain ⟨ms, post, r, rfl, heq, hf, hle⟩ := vmaAbsorb_eq { p with vmEnd := v.vmEnd } B
      refine ⟨A, [p], ms, post, r, by simp, by rw [heq], Fuses.merge hm hf, ?_, hle,
        by simpa using hA, hB⟩
      simp only [vmaCanMerge, Bool.and_eq_true, beq_iff_eq] at hm
      simpa using hm.2
    case isFalse =>
      obtain ⟨ms, post, r, rfl, heq, hf, hle⟩ := vmaAbsorb_eq v B
      exact ⟨A ++ [p], [], ms, post, r, by simp, by simp [heq], hf, by simp, hle,
        by simpa using hA, hB⟩

/-- The area `v` overlaps no area of the list. -/
def VmArea.FreeIn (v : VmArea) (l : List VmArea) : Prop :=
  ∀ w ∈ l, v.vmEnd ≤ w.vmStart ∨ w.vmEnd ≤ v.vmStart

lemma VmaChain.insert (h : VmaChain l)
    (hv : PageAligned v.vmStart ∧ PageAligned v.vmEnd ∧ v.vmStart < v.vmEnd) (hfree : v.FreeIn l) :
    VmaChain (vmaInsert v l) := by
  obtain ⟨pre, ps, ms, post, r, rfl, heq, hf, -, -, hlow, hhigh⟩ := vmaInsert_eq v l
  obtain ⟨hl, hr, hlr⟩ := VmaChain.append_iff.mp h
  have hleft : ∀ a ∈ pre ++ ps, a.vmEnd ≤ v.vmStart := by
    intro a ha
    have h1 := hlow a ha
    rcases hfree a (mem_append_left _ ha) with h2 | h2 <;> omega
  have hright : ∀ b ∈ ms ++ post, v.vmEnd ≤ b.vmStart := by
    intro b hb
    -- the first area behind the new one bounds the others
    cases hms : ms ++ post with
    | nil => simp [hms] at hb
    | cons c cs =>
      rw [hms] at hb hhigh hr hfree
      have hc := hhigh c rfl
      have hcp := (hr.pages c (by simp)).2.2
      have hcf := hfree c (by simp)
      rcases mem_cons.mp hb with rfl | hb
      · omega
      · have := (VmaChain.cons_iff.mp hr).2.1 b hb
        omega
  have hplaced : VmaChain (pre ++ (ps ++ v :: ms) ++ post) := by
    have : VmaChain ((pre ++ ps) ++ v :: (ms ++ post)) := by
      refine VmaChain.append_iff.mpr ⟨hl, VmaChain.cons_iff.mpr ⟨hv, hright, hr⟩, ?_⟩
      intro a ha b hb
      rcases mem_cons.mp hb with rfl | hb
      · exact hleft a ha
      · exact hlr a ha b hb
    simpa using this
  rw [heq]
  have := ((hf.append_left pre).append_right (m := post)).chain hplaced
  simpa using this

lemma freeIn_of_vmaRangeFree (h : vmaRangeFree l v.vmStart v.vmEnd = true) : v.FreeIn l := by
  intro w hw
  have := all_eq_true.mp h w hw
  simpa using this

/-! ## Unmapping -/

/-- What the surgery of `do_munmap` leaves of the area `v`. -/
def munmapPieces (addr stop : Nat) (c : VmaCtx) (v : VmArea) : List VmArea × VmaCtx :=
  if stop ≤ v.vmStart ∨ addr ≥ v.vmEnd then ([v], c)
  else if addr ≤ v.vmStart ∧ stop ≥ v.vmEnd then ([], c)
  else if addr ≤ v.vmStart then ([{ v with vmStart := stop }], c)
  else if stop ≥ v.vmEnd then ([{ v with vmEnd := addr }], c)
  else
    match c.kmalloc with
    | (some p, c) => ([{ v with vmEnd := addr }, { v with node := p, vmStart := stop }], c)
    | (none, c) => ([{ v with vmEnd := addr }], c)

lemma munmapList_cons (addr stop : Nat) (c : VmaCtx) (v : VmArea) (l : List VmArea) :
    munmapList addr stop c (v :: l) =
      ((munmapPieces addr stop c v).1 ++
          (munmapList addr stop (munmapPieces addr stop c v).2 l).1,
        (munmapList addr stop (munmapPieces addr stop c v).2 l).2) := by
  unfold munmapPieces
  rw [munmapList]
  split_ifs
  · rfl
  · rfl
  · rfl
  · rfl
  · cases c.kmalloc with
    | mk p c' => cases p <;> rfl

lemma VmaChain.munmapPieces (haddr : PageAligned addr) (hstop : PageAligned stop)
    (hlt : addr < stop) (hv : PageAligned v.vmStart ∧ PageAligned v.vmEnd ∧ v.vmStart < v.vmEnd)
    (c : VmaCtx) :
    VmaChain (munmapPieces addr stop c v).1 ∧
      ∀ p ∈ (Mm.munmapPieces addr stop c v).1, v.vmStart ≤ p.vmStart ∧ p.vmEnd ≤ v.vmEnd := by
  have hone : ∀ p : VmArea, PageAligned p.vmStart → PageAligned p.vmEnd → p.vmStart < p.vmEnd →
      VmaChain [p] := fun p h1 h2 h3 => VmaChain.cons_iff.mpr ⟨⟨h1, h2, h3⟩, by simp, nil⟩
  unfold Mm.munmapPieces
  split_ifs
  · exact ⟨hone v hv.1 hv.2.1 hv.2.2, by simp⟩
  · exact ⟨nil, by simp⟩
  · exact ⟨hone _ hstop hv.2.1 (by simp only; omega), by simp; omega⟩
  · exact ⟨hone _ hv.1 haddr (by simp only; omega), by simp; omega⟩
  · split
    · refine ⟨VmaChain.cons_iff.mpr ⟨⟨hv.1, haddr, by simp only; omega⟩, ?_,
        hone _ hstop hv.2.1 (by simp only; omega)⟩, by simp; omega⟩
      simpa using hlt.le
    · exact ⟨hone _ hv.1 haddr (by simp only; omega), by simp; omega⟩

/-- The list surgery of `do_munmap` keeps the chain and stays inside the areas. -/
lemma VmaChain.munmap (haddr : PageAligned addr) (hstop : PageAligned stop) (hlt : addr < stop)
    (h : VmaChain l) (c : VmaCtx) :
    VmaChain (munmapList addr stop c l).1 ∧
      ∀ w ∈ (munmapList addr stop c l).1, ∃ v ∈ l, v.vmStart ≤ w.vmStart ∧ w.vmEnd ≤ v.vmEnd := by
  induction l generalizing c with
  | nil => exact ⟨h, by simp [munmapList]⟩
  | cons v rest ih =>
    obtain ⟨hv, hvl, hl⟩ := VmaChain.cons_iff.mp h
    obtain ⟨hp, hpin⟩ := VmaChain.munmapPieces haddr hstop hlt hv c
    obtain ⟨hm, hin⟩ := ih hl (Mm.munmapPieces addr stop c v).2
    rw [munmapList_cons]
    refine ⟨VmaChain.append_iff.mpr ⟨hp, hm, fun a ha b hb => ?_⟩, fun w hw => ?_⟩
    · obtain ⟨w, hw, hwb⟩ := hin b hb
      exact ((hpin a ha).2.trans (hvl w hw)).trans hwb.1
    · rcases mem_append.mp hw with hw | hw
      · exact ⟨v, by simp, hpin w hw⟩
      · obtain ⟨u, hu, huw⟩ := hin w hw
        exact ⟨u, by simp [hu], huw⟩

/-! ## Node identities -/

/-- The nodes of the list are distinct cells, all allocated before now. -/
structure NodesOk (c : VmaCtx) (l : List VmArea) : Prop where
  nodup : (l.map VmArea.node).Nodup
  old : ∀ v ∈ l, v.node < c.heap.next

lemma vmaInsert_nodes (v : VmArea) (l : List VmArea) :
    ((vmaInsert v l).map VmArea.node).Subperm (v.node :: l.map VmArea.node) := by
  obtain ⟨pre, ps, ms, post, r, rfl, heq, hf, -⟩ := vmaInsert_eq v l
  have hsub := ((hf.append_left pre).append_right (m := post)).nodes
  rw [heq]
  have hfused : ((pre ++ r :: post).map VmArea.node).Subperm
      ((pre ++ (ps ++ v :: ms) ++ post).map VmArea.node) := by
    simpa using hsub.subperm
  have hmiddle : (pre ++ ps ++ v :: (ms ++ post)).Perm (v :: (pre ++ ps ++ (ms ++ post))) :=
    perm_middle
  have hperm : (pre ++ (ps ++ v :: ms) ++ post).Perm (v :: (pre ++ ps ++ (ms ++ post))) := by
    simpa using hmiddle
  exact hfused.trans (hperm.map VmArea.node).subperm

@[simp]
lemma VmaCtx.kmalloc_next (c : VmaCtx) : c.kmalloc.2.heap.next = c.heap.next + 1 :=
  rfl

lemma VmaCtx.kmalloc_of_ok (h : c.heap.ok c.heap.next = true) :
    c.kmalloc = (some c.heap.next, c.kmalloc.2) :=
  Prod.ext (if_pos h) rfl

lemma VmaCtx.kmalloc_of_not_ok (h : c.heap.ok c.heap.next = false) :
    c.kmalloc = (none, c.kmalloc.2) :=
  Prod.ext (if_neg (Bool.eq_false_iff.mp h)) rfl

@[simp]
lemma VmaCtx.allocAnonVmaId_heap (c : VmaCtx) : c.allocAnonVmaId.2.heap = c.heap :=
  rfl

lemma vmaSet_nodes (node : Nat) (l : List VmArea) (hf : ∀ v, (f v).node = v.node) :
    (vmaSet node f l).map VmArea.node = l.map VmArea.node := by
  unfold vmaSet
  rw [map_map]
  apply map_congr_left
  intro v _
  simp only [Function.comp_apply]
  split
  · exact hf v
  · rfl

namespace NodesOk

variable {c : VmaCtx} {l : List VmArea}

lemma of_sublist {l' : List VmArea} (h : NodesOk c l)
    (hsub : (l'.map VmArea.node).Sublist (l.map VmArea.node)) : NodesOk c l' := by
  refine ⟨h.nodup.sublist hsub, ?_⟩
  intro v hv
  obtain ⟨w, hw, hwv⟩ := mem_map.mp (hsub.subset (mem_map_of_mem hv))
  exact hwv ▸ h.old w hw

lemma insert {c' : VmaCtx} (h : NodesOk c l) {v : VmArea} (hv : v.node = c.heap.next)
    (hc' : c'.heap.next = c.heap.next + 1) : NodesOk c' (vmaInsert v l) := by
  have hnodup : (v.node :: l.map VmArea.node).Nodup := by
    refine nodup_cons.mpr ⟨?_, h.nodup⟩
    intro hmem
    obtain ⟨w, hw, hwv⟩ := mem_map.mp hmem
    have := h.old w hw
    omega
  obtain ⟨l', hperm, hsub⟩ := vmaInsert_nodes v l
  refine ⟨hperm.nodup_iff.mp (hnodup.sublist hsub), ?_⟩
  intro w hw
  have hmem := hsub.subset (hperm.symm.subset (mem_map_of_mem (f := VmArea.node) hw))
  rcases mem_cons.mp hmem with hwv | hmem
  · omega
  · obtain ⟨u, hu, huw⟩ := mem_map.mp hmem
    have := h.old u hu
    omega

lemma addAnon (h : NodesOk c l) (start stop : Nat) (flags : VmFlags) (id : Nat) :
    NodesOk (vmaAddAnon c l start stop flags id).2 (vmaAddAnon c l start stop flags id).1 := by
  unfold vmaAddAnon
  split
  · exact h
  · cases hok : c.heap.ok c.heap.next
    · rw [kmalloc_of_not_ok hok]
      exact ⟨h.nodup, fun v hv => Nat.lt_succ_of_lt (h.old v hv)⟩
    · rw [kmalloc_of_ok hok]
      exact h.insert rfl rfl

lemma set (h : NodesOk c l) (node : Nat) {f : VmArea → VmArea} (hf : ∀ v, (f v).node = v.node) :
    NodesOk c (vmaSet node f l) :=
  h.of_sublist (vmaSet_nodes node l hf ▸ List.Sublist.refl _)

end NodesOk

lemma vmaSet_append_cons (h : ((pre ++ v :: post).map VmArea.node).Nodup) :
    vmaSet v.node f (pre ++ v :: post) = pre ++ f v :: post := by
  simp only [map_append, map_cons, nodup_append, nodup_cons] at h
  obtain ⟨_, ⟨hpost, _⟩, hpre⟩ := h
  have hmap : ∀ l : List VmArea, (∀ w ∈ l, w.node ≠ v.node) →
      l.map (fun w => if w.node = v.node then f w else w) = l := by
    intro l hl
    refine (map_congr_left ?_).trans (map_id l)
    intro w hw
    simp [hl w hw]
  unfold vmaSet
  rw [map_append, map_cons, hmap pre, hmap post, if_pos rfl]
  · intro w hw hwv
    exact hpost (hwv ▸ mem_map_of_mem hw)
  · intro w hw hwv
    exact hpre w.node (mem_map_of_mem hw) v.node (by simp) hwv

lemma munmapPieces_nodes (addr stop : Nat) (c : VmaCtx) (hv : v.node < c.heap.next) :
    c.heap.next ≤ (munmapPieces addr stop c v).2.heap.next ∧
      ((munmapPieces addr stop c v).1.map VmArea.node).Nodup ∧
      ∀ p ∈ (munmapPieces addr stop c v).1, p.node = v.node ∨
        (p.node = c.heap.next ∧ c.heap.next < (munmapPieces addr stop c v).2.heap.next) := by
  unfold munmapPieces
  cases hok : c.heap.ok c.heap.next
  · rw [kmalloc_of_not_ok hok]
    split_ifs <;> simp
  · rw [kmalloc_of_ok hok]
    split_ifs <;> simp [hv.ne]

lemma munmapList_nodes (addr stop : Nat) (h : NodesOk c l) :
    c.heap.next ≤ (munmapList addr stop c l).2.heap.next ∧
      NodesOk (munmapList addr stop c l).2 (munmapList addr stop c l).1 ∧
      ∀ v ∈ (munmapList addr stop c l).1,
        (∃ w ∈ l, v.node = w.node) ∨ c.heap.next ≤ v.node := by
  induction l generalizing c with
  | nil => exact ⟨le_rfl, ⟨by simp [munmapList], by simp [munmapList]⟩, by simp [munmapList]⟩
  | cons v rest ih =>
    have hv := h.old v (by simp)
    obtain ⟨hvrest, hrest⟩ := nodup_cons.mp h.nodup
    obtain ⟨hle, hnodup, hp⟩ := munmapPieces_nodes addr stop c hv
    have hold : ∀ w ∈ rest, w.node < c.heap.next ∧ w.node ≠ v.node := fun w hw =>
      ⟨h.old w (by simp [hw]), fun heq => hvrest (heq ▸ mem_map_of_mem hw)⟩
    obtain ⟨h1, h2, h3⟩ := ih (c := (munmapPieces addr stop c v).2)
      ⟨hrest, fun w hw => (hold w hw).1.trans_le hle⟩
    rw [munmapList_cons]
    refine ⟨hle.trans h1, ⟨?_, fun u hu => ?_⟩, fun u hu => ?_⟩
    · rw [map_append, nodup_append]
      refine ⟨hnodup, h2.nodup, ?_⟩
      simp only [mem_map]
      rintro _ ⟨p, hpm, rfl⟩ _ ⟨q, hqm, rfl⟩ heq
      have := hp p hpm
      rcases h3 q hqm with ⟨w, hw, hqw⟩ | hq
      · have := hold w hw
        omega
      · omega
    · rcases mem_append.mp hu with hu | hu
      · have := hp u hu
        exact lt_of_lt_of_le (by omega) h1
      · exact h2.old u hu
    · rcases mem_append.mp hu with hu | hu
      · rcases hp u hu with hu | hu
        · exact .inl ⟨v, by simp, hu⟩
        · exact .inr hu.1.ge
      · rcases h3 u hu with ⟨w, hw, huw⟩ | hu
        · exact .inl ⟨w, by simp [hw], huw⟩
        · exact .inr (hle.trans hu)

@[simp]
lemma munmapPieces_ok (addr stop : Nat) (c : VmaCtx) (v : VmArea) :
    (munmapPieces addr stop c v).2.heap.ok = c.heap.ok := by
  unfold munmapPieces
  cases hok : c.heap.ok c.heap.next
  · rw [kmalloc_of_not_ok hok]
    split_ifs <;> rfl
  · rw [kmalloc_of_ok hok]
    split_ifs <;> rfl

@[simp]
lemma munmapList_ok (addr stop : Nat) (c : VmaCtx) (l : List VmArea) :
    (munmapList addr stop c l).2.heap.ok = c.heap.ok := by
  induction l generalizing c with
  | nil => rfl
  | cons v rest ih => rw [munmapList_cons, ih, munmapPieces_ok]

/-! ## Changing the protection of a part of an area -/

lemma vmaInsert_before {w : VmArea} (hpre : ∀ a ∈ pre, a.vmStart < n.vmStart)
    (hw : n.vmStart ≤ w.vmStart) (hne : n.vmEnd ≠ w.vmStart) :
    vmaInsert n (pre ++ w :: post) = vmaInsert n pre ++ w :: post := by
  have habs : ∀ x : VmArea, x.vmEnd ≠ w.vmStart →
      vmaAbsorb x (w :: post) = vmaAbsorb x [] ++ w :: post := by
    intro x hx
    simp [vmaAbsorb, vmaCanMerge, hx]
  have hB : ∀ b ∈ (w :: post).head?, n.vmStart ≤ b.vmStart := by simpa using hw
  rcases pre.eq_nil_or_concat with rfl | ⟨A, p, rfl⟩
  · rw [nil_append, vmaInsert_head hB, habs n hne]
    rfl
  · have hp := hpre p (by simp)
    have hA : ∀ a ∈ A, a.vmStart < n.vmStart := fun a ha => hpre a (by simp [ha])
    simp only [concat_eq_append, append_assoc, singleton_append]
    rw [vmaInsert_append hA hp hB, vmaInsert_append hA hp (by simp), append_assoc]
    congr 1
    unfold vmaLink
    split
    · exact habs _ hne
    · rw [habs n hne]
      rfl

/-- Insertion behind an area that cannot be merged with the new one. -/
lemma vmaInsert_behind (hpre : ∀ a ∈ pre, a.vmStart < n.vmStart) (hv : v.vmStart < n.vmStart)
    (hne : v.vmEnd ≠ n.vmStart) (hpost : ∀ b ∈ post, n.vmStart ≤ b.vmStart) :
    vmaInsert n (pre ++ v :: post) = pre ++ v :: vmaAbsorb n post := by
  rw [vmaInsert_append hpre hv fun b hb => hpost b (mem_of_mem_head? hb)]
  simp [vmaLink, vmaCanMerge, hne]

/-- Every end of an area after an insertion was an end before, or is that of the new area. -/
lemma vmaInsert_vmEnd :
    ∀ x ∈ vmaInsert v l, x.vmEnd = v.vmEnd ∨ ∃ y ∈ l, x.vmEnd = y.vmEnd := by
  obtain ⟨pre, ps, ms, post, r, rfl, heq, hf, -⟩ := vmaInsert_eq v l
  intro x hx
  rw [heq] at hx
  obtain ⟨-, a, ha, hax⟩ := ((hf.append_left pre).append_right (m := post)).bounds x
    (by simpa using hx)
  simp only [mem_append, mem_cons] at ha ⊢
  by_cases hav : a = v
  · exact .inl (hav ▸ hax.symm)
  · exact .inr ⟨a, by tauto, hax.symm⟩

lemma vmaAbsorb_chain (h : VmaChain (v :: l)) :
    VmaChain (vmaAbsorb v l) ∧ ∀ w ∈ vmaAbsorb v l, v.vmStart ≤ w.vmStart := by
  obtain ⟨ms, post, r, rfl, heq, hf, -⟩ := vmaAbsorb_eq v l
  have hf' : Fuses (v :: (ms ++ post)) (r :: post) := hf.append_right
  rw [heq]
  refine ⟨hf'.chain h, fun w hw => ?_⟩
  obtain ⟨⟨a, ha, haw⟩, -⟩ := hf'.bounds w hw
  obtain ⟨hv, hvl, -⟩ := VmaChain.cons_iff.mp h
  rcases mem_cons.mp ha with rfl | ha
  · exact haw.le
  · exact haw ▸ hv.2.2.le.trans (hvl a ha)

lemma vmaAddAnon_of_ok (hok : c.heap.ok c.heap.next = true) (l : List VmArea) {start : Nat}
    (hlt : start < stop) (flags : VmFlags) (id : Nat) :
    vmaAddAnon c l start stop flags id =
      (vmaInsert ⟨c.heap.next, start, stop, flags, id⟩ l, c.kmalloc.2) := by
  unfold vmaAddAnon
  rw [if_neg (by omega), kmalloc_of_ok hok]

/-- What `do_mprotect` makes of the list around the area `v` it found. -/
lemma mprotectList_chain (hok : ∀ n, c.heap.ok n = true) (flags : VmFlags)
    (hn : NodesOk c (pre ++ v :: post)) (h : VmaChain (pre ++ v :: post)) (haddr : PageAligned addr)
    (hstop : PageAligned stop) (hlt : addr < stop) (hstart : v.vmStart ≤ addr)
    (hend : stop ≤ v.vmEnd) :
    NodesOk (mprotectList c (pre ++ v :: post) v addr stop flags).2
        (mprotectList c (pre ++ v :: post) v addr stop flags).1 ∧
      VmaChain (mprotectList c (pre ++ v :: post) v addr stop flags).1 := by
  obtain ⟨hpre, hvpost, hsep⟩ := VmaChain.append_iff.mp h
  obtain ⟨hv, hvlt, hpost⟩ := VmaChain.cons_iff.mp hvpost
  have hprev : ∀ a ∈ pre, a.vmEnd ≤ v.vmStart := fun a ha => hsep a ha v (by simp)
  have hprelt : ∀ a ∈ pre, a.vmStart < v.vmStart := fun a ha =>
    lt_of_lt_of_le (hpre.pages a ha).2.2 (hprev a ha)
  -- first insertion: the part of `v` below `addr` goes in front of `v`
  have hleft : ∃ pre' c', NodesOk c' (pre' ++ v :: post) ∧ c'.heap.ok = c.heap.ok ∧
      VmaChain pre' ∧ (∀ a ∈ pre', a.vmEnd ≤ addr) ∧
      (if addr > v.vmStart then
          vmaAddAnon c (pre ++ v :: post) v.vmStart addr v.vmFlags v.anonVmaId
        else (pre ++ v :: post, c)) = (pre' ++ v :: post, c') := by
    by_cases hgt : addr > v.vmStart
    · let w : VmArea := ⟨c.heap.next, v.vmStart, addr, v.vmFlags, v.anonVmaId⟩
      have heq : vmaInsert w (pre ++ v :: post) = vmaInsert w pre ++ v :: post :=
        vmaInsert_before hprelt le_rfl (by simp only [w]; omega)
      refine ⟨vmaInsert w pre, c.kmalloc.2, ?_, rfl, ?_, ?_, ?_⟩
      · rw [← heq]
        exact hn.insert rfl rfl
      · exact hpre.insert ⟨hv.1, haddr, hgt⟩ fun a ha => .inr (hprev a ha)
      · intro a ha
        rcases vmaInsert_vmEnd a ha with h' | ⟨y, hy, h'⟩
        · exact h'.le
        · rw [h']
          exact (hprev y hy).trans hstart
      · rw [if_pos hgt, vmaAddAnon_of_ok (hok _) _ hgt, heq]
    · exact ⟨pre, c, hn, rfl, hpre, fun a ha => (hprev a ha).trans hstart, if_neg hgt⟩
  obtain ⟨pre', c', hn', hok', hpre', hpre'end, hl⟩ := hleft
  -- second insertion: the part of `v` above `stop` goes behind `v`
  have hright : ∃ post' c'', NodesOk c'' (pre' ++ v :: post') ∧
      VmaChain post' ∧ (∀ b ∈ post', stop ≤ b.vmStart) ∧
      (if stop < v.vmEnd then
          vmaAddAnon c' (pre' ++ v :: post) stop v.vmEnd v.vmFlags v.anonVmaId
        else (pre' ++ v :: post, c')) = (pre' ++ v :: post', c'') := by
    by_cases hgt : stop < v.vmEnd
    · let w : VmArea := ⟨c'.heap.next, stop, v.vmEnd, v.vmFlags, v.anonVmaId⟩
      have heq : vmaInsert w (pre' ++ v :: post) = pre' ++ v :: vmaAbsorb w post := by
        refine vmaInsert_behind ?_ (by simp only [w]; omega) (by simp only [w]; omega) ?_
        · intro a ha
          have h1 := hpre'end a ha
          have h2 := (hpre'.pages a ha).2.2
          simp only [w]
          omega
        · intro b hb
          have := hvlt b hb
          simp only [w]
          omega
      have hchain : VmaChain (w :: post) := VmaChain.cons_iff.mpr ⟨⟨hstop, hv.2.1, hgt⟩, hvlt, hpost⟩
      refine ⟨vmaAbsorb w post, c'.kmalloc.2, ?_, (vmaAbsorb_chain hchain).1,
        (vmaAbsorb_chain hchain).2, ?_⟩
      · rw [← heq]
        exact hn'.insert rfl rfl
      · rw [if_pos hgt, vmaAddAnon_of_ok (by rw [hok']; exact hok _) _ hgt, heq]
    · exact ⟨post, c', hn', hpost, fun b hb => hend.trans (hvlt b hb), if_neg hgt⟩
  obtain ⟨post', c'', hn'', hpost', hpost'start, hr⟩ := hright
  have hres : mprotectList c (pre ++ v :: post) v addr stop flags =
      (pre' ++ { v with vmStart := addr, vmEnd := stop, vmFlags := flags } :: post', c'') := by
    simp only [mprotectList, hl, hr]
    rw [vmaSet_append_cons hn''.nodup]
  constructor
  · rw [hres]
    refine hn''.of_sublist ?_
    simp
  · rw [hres]
    refine VmaChain.append_iff.mpr
      ⟨hpre', VmaChain.cons_iff.mpr ⟨⟨haddr, hstop, hlt⟩, hpost'start, hpost'⟩, ?_⟩
    intro a ha b hb
    have h1 := hpre'end a ha
    rcases mem_cons.mp hb with rfl | hb
    · exact h1
    · have h2 := hpost'start b hb
      omega

@[simp]
lemma vmaAddAnon_ok (c : VmaCtx) (l : List VmArea) (start stop : Nat) (flags : VmFlags)
    (id : Nat) : (vmaAddAnon c l start stop flags id).2.heap.ok = c.heap.ok := by
  unfold vmaAddAnon
  split
  · rfl
  · cases hok : c.heap.ok c.heap.next
    · rw [kmalloc_of_not_ok hok]
      rfl
    · rw [kmalloc_of_ok hok]
      rfl

@[simp]
lemma mprotectList_ok (c : VmaCtx) (l : List VmArea) (v : VmArea) (addr stop : Nat)
    (flags : VmFlags) : (mprotectList c l v addr stop flags).2.heap.ok = c.heap.ok := by
  unfold mprotectList
  split_ifs <;> simp

/-- Moving the end of one area keeps the chain while the next area starts behind it. -/
lemma VmaChain.setEnd (h : VmaChain (pre ++ v :: post)) (hstop : PageAligned stop)
    (hlt : v.vmStart < stop) (hpost : ∀ w ∈ post, stop ≤ w.vmStart) :
    VmaChain (pre ++ { v with vmEnd := stop } :: post) := by
  obtain ⟨hpre, hvpost, hsep⟩ := VmaChain.append_iff.mp h
  obtain ⟨hv, _, hpostc⟩ := VmaChain.cons_iff.mp hvpost
  refine VmaChain.append_iff.mpr
    ⟨hpre, VmaChain.cons_iff.mpr ⟨⟨hv.1, hstop, hlt⟩, hpost, hpostc⟩, ?_⟩
  intro a ha b hb
  rcases mem_cons.mp hb with rfl | hb
  · exact hsep a ha v (by simp)
  · exact hsep a ha b (by simp [hb])

end LiteKernel.Mm
