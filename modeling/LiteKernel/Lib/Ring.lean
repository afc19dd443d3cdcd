import Mathlib.Data.List.Chain
import Mathlib.Data.List.Nodup
import Mathlib.Logic.Function.Iterate
import Mathlib.Tactic

/-!
# Circular doubly linked lists

An intrusive list is a ring of nodes: a head node and the nodes embedded in the
elements, linked by two pointer fields. The operations below are the usual ones
on such rings, written as the pointer assignments they are. The predicate
`Links.Ring` says that a head and a list of nodes form a closed ring, and
`Rings` that a whole family of heads shares out a set of elements: every
element is on the ring of at most one head, and the others point to themselves.

Main results: `Links.Ring.reaches_iff`, `Rings.listAdd`, `Rings.listAddTail`,
`Rings.listDelInit`.
-/

namespace LiteKernel.Lib

open Function List

variable {ν ι ε : Type*}

/-- The two pointer fields of every node. -/
structure Links (ν : Type*) where
  next : ν → ν
  prev : ν → ν

namespace Links

variable {L : Links ν} {a b x : ν} {l : List ν}

section Operations

variable [DecidableEq ν]

/-- The node becomes a ring of its own. -/
def initListHead (L : Links ν) (a : ν) : Links ν where
  next := update L.next a a
  prev := update L.prev a a

/-- Put a node between two neighbours. -/
def insertBetween (L : Links ν) (new prev next : ν) : Links ν where
  next := update (update L.next new next) prev new
  prev := update (update L.prev next new) new prev

/-- Insert a node right after a head. -/
def listAdd (L : Links ν) (new head : ν) : Links ν :=
  L.insertBetween new head (L.next head)

/-- Insert a node right before a head. -/
def listAddTail (L : Links ν) (new head : ν) : Links ν :=
  L.insertBetween new (L.prev head) head

/-- Make two nodes neighbours. -/
def bridge (L : Links ν) (prev next : ν) : Links ν where
  next := update L.next prev next
  prev := update L.prev next prev

/-- Take a node out and leave it with null pointers. -/
def listDel (L : Links ν) (null a : ν) : Links ν where
  next := update (L.bridge (L.prev a) (L.next a)).next a null
  prev := update (L.bridge (L.prev a) (L.next a)).prev a null

/-- Take a node out, if it has not been taken out before, and make it a ring of its own. -/
def listDelInit (L : Links ν) (null a : ν) : Links ν :=
  if L.next a = null ∨ L.prev a = null then L.initListHead a
  else (L.bridge (L.prev a) (L.next a)).initListHead a

/-- The head is alone on its ring. -/
def ListEmpty (L : Links ν) (head : ν) : Prop :=
  L.next head = head

instance (L : Links ν) (head : ν) : Decidable (L.ListEmpty head) :=
  inferInstanceAs (Decidable (L.next head = head))

end Operations

/-! ## Chains and rings -/

/-- Two nodes point to each other. -/
def Adj (L : Links ν) (a b : ν) : Prop :=
  L.next a = b ∧ L.prev b = a

/-- The nodes of a list lie, in this order, between two nodes. -/
def Chain (L : Links ν) (a : ν) (l : List ν) (b : ν) : Prop :=
  List.IsChain L.Adj (a :: (l ++ [b]))

/-- A head and a list of further nodes form a closed ring. -/
structure Ring (L : Links ν) (head : ν) (l : List ν) : Prop where
  chain : L.Chain head l head
  nodup : (head :: l).Nodup

@[simp]
lemma chain_nil : L.Chain a [] b ↔ L.Adj a b := by
  simp [Chain]

@[simp]
lemma chain_cons :
    L.Chain a (x :: l) b ↔ L.Adj a x ∧ L.Chain x l b := by
  simp [Chain]

lemma chain_append_cons {l1 l2 : List ν} :
    L.Chain a (l1 ++ x :: l2) b ↔ L.Chain a l1 x ∧ L.Chain x l2 b := by
  induction l1 generalizing a with
  | nil => simp
  | cons y l1 ih => simp [ih, and_assoc]

section

variable (h : L.Chain a l b)
include h

lemma Chain.congr {L' : Links ν} (hnext : ∀ x ∈ a :: l, L'.next x = L.next x)
    (hprev : ∀ x, x ∈ l ∨ x = b → L'.prev x = L.prev x) : L'.Chain a l b := by
  induction l generalizing a with
  | nil =>
    rw [chain_nil] at h ⊢
    exact ⟨(hnext a mem_cons_self).trans h.1, (hprev b (.inr rfl)).trans h.2⟩
  | cons x l ih =>
    rw [chain_cons] at h ⊢
    have hax : L'.Adj a x :=
      ⟨(hnext a mem_cons_self).trans h.1.1, (hprev x (.inl mem_cons_self)).trans h.1.2⟩
    refine ⟨hax, ih h.2 (forall_mem_cons.mp hnext).2 ?_⟩
    intro y hy
    exact hprev y (hy.imp (mem_cons_of_mem _) id)

/-- The successor of a node of a chain is the next node or the end. -/
lemma Chain.next_mem (hx : x ∈ a :: l) : L.next x ∈ l ∨ L.next x = b := by
  induction l generalizing a with
  | nil =>
    rw [mem_singleton] at hx
    subst hx
    exact .inr (chain_nil.mp h).1
  | cons y l ih =>
    rw [chain_cons] at h
    rcases mem_cons.mp hx with rfl | hx
    · exact .inl (h.1.1 ▸ mem_cons_self)
    · exact (ih h.2 hx).imp (mem_cons_of_mem _) id

/-- The predecessor of a node of a chain is the node before it or the start. -/
lemma Chain.prev_mem (hx : x ∈ l ∨ x = b) : L.prev x ∈ a :: l := by
  induction l generalizing a with
  | nil =>
    have hxb : x = b := hx.resolve_left (not_mem_nil)
    rw [hxb, (chain_nil.mp h).2]
    exact mem_cons_self
  | cons y l ih =>
    rw [chain_cons] at h
    by_cases hxy : x = y
    · rw [hxy, h.1.2]
      exact mem_cons_self
    · have hx' : x ∈ l ∨ x = b := hx.imp_left fun hm => (mem_cons.mp hm).resolve_left hxy
      exact mem_cons_of_mem _ (ih h.2 hx')

/-- Following the pointers from the start of a chain reaches every node of it. -/
lemma Chain.exists_iterate (hx : x ∈ a :: l) : ∃ n, L.next^[n] a = x := by
  induction l generalizing a with
  | nil =>
    rw [mem_singleton] at hx
    exact ⟨0, hx.symm⟩
  | cons y l ih =>
    rw [chain_cons] at h
    rcases mem_cons.mp hx with rfl | hx
    · exact ⟨0, rfl⟩
    · rcases ih h.2 hx with ⟨n, hn⟩
      refine ⟨n + 1, ?_⟩
      rw [iterate_succ_apply, h.1.1, hn]

end

/-- The node can be reached from the head along the forward pointers. -/
def Reaches (L : Links ν) (head x : ν) : Prop :=
  ∃ n, L.next^[n] head = x

namespace Ring

variable {L L' : Links ν} {h x : ν} {l : List ν}
variable {n new p : ν}

lemma next_mem (hr : L.Ring h l) (hx : x ∈ h :: l) : L.next x ∈ h :: l := by
  rcases hr.chain.next_mem hx with hm | hm
  · exact mem_cons_of_mem _ hm
  · exact hm ▸ mem_cons_self

lemma prev_mem (hr : L.Ring h l) (hx : x ∈ h :: l) : L.prev x ∈ h :: l :=
  hr.chain.prev_mem ((mem_cons.mp hx).symm)

lemma congr (hr : L.Ring h l) (hnext : ∀ y ∈ h :: l, L'.next y = L.next y)
    (hprev : ∀ y ∈ h :: l, L'.prev y = L.prev y) : L'.Ring h l where
  chain := hr.chain.congr hnext fun y hy => hprev y (mem_cons.mpr hy.symm)
  nodup := hr.nodup

/-- What is reached from a head is what is on its ring. -/
lemma reaches_iff (hr : L.Ring h l) : L.Reaches h x ↔ x ∈ h :: l := by
  constructor
  · rintro ⟨n, rfl⟩
    induction n with
    | zero => exact mem_cons_self
    | succ n ih =>
      rw [iterate_succ_apply']
      exact hr.next_mem ih
  · exact hr.chain.exists_iterate

/-- A ring may be read from any of its nodes. -/
lemma rotate {l1 l2 : List ν} (hr : L.Ring h (l1 ++ x :: l2)) : L.Ring x (l2 ++ h :: l1) where
  chain := chain_append_cons.mpr (chain_append_cons.mp hr.chain).symm
  nodup := (nodup_append_comm : (h :: l1 ++ x :: l2).Nodup ↔ (x :: l2 ++ h :: l1).Nodup).mp hr.nodup

lemma next_head_nil (hr : L.Ring h []) : L.next h = h :=
  (chain_nil.mp hr.chain).1

lemma next_head_cons (hr : L.Ring h (x :: l)) : L.next h = x :=
  (chain_cons.mp hr.chain).1.1

variable [DecidableEq ν]

lemma of_initListHead (L : Links ν) (a : ν) : (L.initListHead a).Ring a [] where
  chain := by simp [Adj, initListHead]
  nodup := nodup_singleton a

lemma initListHead_of_not_mem {a : ν} (hr : L.Ring h l) (ha : a ∉ h :: l) :
    (L.initListHead a).Ring h l := by
  have hne : ∀ y ∈ h :: l, y ≠ a := fun y hy hya => ha (hya ▸ hy)
  exact hr.congr (fun y hy => update_of_ne (hne y hy) _ _) fun y hy => update_of_ne (hne y hy) _ _

lemma initListHead_eq (hr : L.Ring h []) : L.initListHead h = L := by
  have ha := chain_nil.mp hr.chain
  have hn : update L.next h h = L.next := by
    rw [update_eq_self_iff]
    exact ha.1.symm
  have hp : update L.prev h h = L.prev := by
    rw [update_eq_self_iff]
    exact ha.2.symm
  rw [initListHead, hn, hp]

/-- A ring is unchanged by an insertion between nodes of another one. -/
lemma insertBetween_of_not_mem (hr : L.Ring h l) (hnew : new ∉ h :: l) (hp : p ∉ h :: l)
    (hn : n ∉ h :: l) : (L.insertBetween new p n).Ring h l := by
  refine hr.congr (fun y hy => ?_) fun y hy => ?_
  · have h1 : y ≠ p := fun e => hp (e ▸ hy)
    have h2 : y ≠ new := fun e => hnew (e ▸ hy)
    simp [insertBetween, h1, h2]
  · have h1 : y ≠ n := fun e => hn (e ▸ hy)
    have h2 : y ≠ new := fun e => hnew (e ▸ hy)
    simp [insertBetween, h1, h2]

/-- A ring is unchanged when a node between nodes of another one is taken out. -/
lemma bridge_of_not_mem (hr : L.Ring h l) (hp : p ∉ h :: l) (hn : n ∉ h :: l) :
    (L.bridge p n).Ring h l := by
  refine hr.congr (fun y hy => ?_) fun y hy => ?_
  · have hyp : y ≠ p := fun e => hp (e ▸ hy)
    exact update_of_ne hyp _ _
  · have hyn : y ≠ n := fun e => hn (e ▸ hy)
    exact update_of_ne hyn _ _

lemma listAdd (hr : L.Ring h l) (hnew : new ∉ h :: l) : (L.listAdd new h).Ring h (new :: l) := by
  obtain ⟨hnh, hnl⟩ := ne_and_not_mem_of_not_mem_cons hnew
  have hhl : h ∉ l := (nodup_cons.mp hr.nodup).1
  refine ⟨?_, ?_⟩
  · cases l with
    | nil =>
      have hn : L.next h = h := hr.next_head_nil
      simp [Links.listAdd, insertBetween, Adj, hn, hnh, hnh.symm]
    | cons x l =>
      have hn : L.next h = x := hr.next_head_cons
      have hx := (chain_cons.mp hr.chain).2
      have hxn : x ≠ new := fun e => hnl (e ▸ mem_cons_self)
      have hxl : x ∉ l := (nodup_cons.mp (nodup_cons.mp hr.nodup).2).1
      have hxh : h ≠ x := fun e => hhl (e ▸ mem_cons_self)
      rw [chain_cons, chain_cons]
      refine ⟨?_, ?_, hx.congr (fun y hy => ?_) fun y hy => ?_⟩
      · simp [Links.listAdd, insertBetween, Adj]
      · simp [Links.listAdd, insertBetween, Adj, hn, hnh, hxn]
      · have h1 : y ≠ h := fun e => hhl (e ▸ hy)
        have h2 : y ≠ new := fun e => hnl (e ▸ hy)
        simp [Links.listAdd, insertBetween, h1, h2]
      · have h1 : y ≠ x := fun e => hy.elim (fun hm => hxl (e ▸ hm)) fun e' => hxh (e'.symm.trans e)
        have h2 : y ≠ new := fun e =>
          hy.elim (fun hm => hnl (e ▸ mem_cons_of_mem _ hm)) fun e' => hnh (e.symm.trans e')
        simp [Links.listAdd, insertBetween, hn, h1, h2]
  · exact nodup_cons.mpr ⟨by simp [hhl, hnh.symm], nodup_cons.mpr ⟨hnl, (nodup_cons.mp hr.nodup).2⟩⟩

lemma listAddTail (hr : L.Ring h l) (hnew : new ∉ h :: l) :
    (L.listAddTail new h).Ring h (l ++ [new]) := by
  rcases eq_nil_or_concat' l with rfl | ⟨r, x, rfl⟩
  · have hadd := hr.listAdd hnew
    rw [Links.listAdd, hr.next_head_nil] at hadd
    rwa [Links.listAddTail, (chain_nil.mp hr.chain).2]
  · -- the node goes behind the last one, which is as good a head
    have hx : L.Ring x (h :: r) := hr.rotate
    have hsame : L.listAddTail new h = L.listAdd new x := by
      rw [Links.listAddTail, Links.listAdd, hx.next_head_cons, (chain_cons.mp hx.chain).1.2]
    have hadd : (L.listAdd new x).Ring x ([new] ++ h :: r) :=
      hx.listAdd (by simpa [or_left_comm, or_comm] using hnew)
    rw [hsame, append_assoc]
    exact hadd.rotate

end Ring

section Removal

variable [DecidableEq ν] {L : Links ν}
variable {a h null x : ν} {l1 l2 : List ν}

lemma Ring.bridge_head {l : List ν} (hr : L.Ring h (x :: l)) :
    (L.bridge (L.prev x) (L.next x)).Ring h l := by
  obtain ⟨hchain, hnd⟩ := hr
  have hhl : h ∉ l := fun hm => (nodup_cons.mp hnd).1 (mem_cons_of_mem x hm)
  refine ⟨?_, nodup_cons.mpr ⟨hhl, hnd.of_cons.of_cons⟩⟩
  rw [chain_cons] at hchain
  have hpx : L.prev x = h := hchain.1.2
  cases l with
  | nil =>
    have hnx : L.next x = h := (chain_nil.mp hchain.2).1
    simp [Links.bridge, Adj, hpx, hnx]
  | cons n r =>
    simp only [chain_cons, mem_cons, not_or, nodup_cons] at hchain hhl hnd ⊢
    have hnx : L.next x = n := hchain.2.1.1
    refine ⟨by simp [Links.bridge, Adj, hpx, hnx], hchain.2.2.congr (fun y hy => ?_) fun y hy => ?_⟩
    · have hyh : y ≠ h := fun e => by
        rcases mem_cons.mp hy with hyn | hyr
        · exact hhl.1 (e.symm.trans hyn)
        · exact hhl.2 (e ▸ hyr)
      simp [Links.bridge, hpx, hyh]
    · have hyn : y ≠ n := fun e => by
        rcases hy with hyr | hyh
        · exact hnd.2.2.1 (e ▸ hyr)
        · exact hhl.1 (hyh.symm.trans e)
      simp [Links.bridge, hnx, hyn]

/-- Bridging over a node of a ring leaves the ring of the others. -/
lemma Ring.bridge (hr : L.Ring h (l1 ++ x :: l2)) :
    (L.bridge (L.prev x) (L.next x)).Ring h (l1 ++ l2) := by
  rcases eq_nil_or_concat' l1 with rfl | ⟨r, p, rfl⟩
  · exact hr.bridge_head
  · rw [append_assoc] at hr ⊢
    have hp : L.Ring p (x :: (l2 ++ h :: r)) := hr.rotate
    exact hp.bridge_head.rotate

lemma Ring.listDelInit (hr : L.Ring h (l1 ++ x :: l2)) (hnull : null ∉ h :: (l1 ++ x :: l2)) :
    (L.listDelInit null x).Ring h (l1 ++ l2) := by
  have hx : x ∈ h :: (l1 ++ x :: l2) := by simp
  have hne : ¬ (L.next x = null ∨ L.prev x = null) := by
    rintro (e | e)
    · exact hnull (e ▸ hr.next_mem hx)
    · exact hnull (e ▸ hr.prev_mem hx)
  have hnot : x ∉ h :: (l1 ++ l2) := by
    have hx := (nodup_cons.mp hr.rotate.nodup).1
    simp only [mem_append, mem_cons, not_or] at hx ⊢
    exact ⟨hx.2.1, hx.2.2, hx.1⟩
  rw [Links.listDelInit, if_neg hne]
  exact hr.bridge.initListHead_of_not_mem hnot

lemma ring_nil_listDelInit (L : Links ν) (null x : ν) : (L.listDelInit null x).Ring x [] := by
  unfold Links.listDelInit
  split
  · exact Ring.of_initListHead _ _
  · exact Ring.of_initListHead _ _

/-- A ring is unchanged when a node of another ring is taken out. -/
lemma Ring.listDelInit_of_disjoint {h' : ν} {l l' : List ν} (hr : L.Ring h l) (hr' : L.Ring h' l')
    (hx : x ∈ h' :: l') (hd : List.Disjoint (h :: l) (h' :: l')) :
    (L.listDelInit null x).Ring h l := by
  have hxl : x ∉ h :: l := fun hm => hd hm hx
  unfold Links.listDelInit
  split
  · exact hr.initListHead_of_not_mem hxl
  · have hp : L.prev x ∉ h :: l := fun hm => hd hm (hr'.prev_mem hx)
    have hn : L.next x ∉ h :: l := fun hm => hd hm (hr'.next_mem hx)
    exact (hr.bridge_of_not_mem hp hn).initListHead_of_not_mem hxl

/-- A node that is inserted again may have been left with null pointers. -/
lemma listAddTail_listDel (hn : L.next a ≠ null) (hp : L.prev a ≠ null) (hah : h ≠ a) :
    (L.listDel null a).listAddTail a h = (L.listDelInit null a).listAddTail a h := by
  have hne : ¬ (L.next a = null ∨ L.prev a = null) := not_or.mpr ⟨hn, hp⟩
  simp only [Links.listDelInit, if_neg hne, Links.listAddTail, Links.listDel, Links.initListHead,
    insertBetween, update_of_ne hah]
  simp [update_comm hah]

end Removal

end Links

/-! ## Families of rings -/

/-- Where the nodes of a family of rings lie: one for each head and one for each element. -/
structure Layout (ν ι ε : Type*) where
  null : ν
  head : ι → ν
  entry : ε → ν
  head_injective : Injective head
  entry_injective : Injective entry
  head_ne_entry : ∀ i e, head i ≠ entry e
  head_ne_null : ∀ i, head i ≠ null
  entry_ne_null : ∀ e, entry e ≠ null

/-- The node that follows a head, or an element in front of the list, on a ring. -/
def Layout.first (Λ : Layout ν ι ε) (i : ι) : List ε → ν
  | [] => Λ.head i
  | e :: _ => Λ.entry e

/-- The heads share out the elements, and the elements of no head point to themselves. -/
structure Rings (Λ : Layout ν ι ε) (L : Links ν) (w : ι → List ε) : Prop where
  ring : ∀ i, L.Ring (Λ.head i) ((w i).map Λ.entry)
  free : ∀ e, (∀ i, e ∉ w i) → L.Ring (Λ.entry e) []
  unique : ∀ {e i j}, e ∈ w i → e ∈ w j → i = j

namespace Rings

variable {Λ : Layout ν ι ε} {L : Links ν} {w : ι → List ε}
variable {e : ε} {i : ι} {l : List ε}

lemma nodup (R : Rings Λ L w) (i : ι) : (w i).Nodup :=
  (nodup_cons.mp (R.ring i).nodup).2.of_map

lemma entry_mem_ring : Λ.entry e ∈ Λ.head i :: (w i).map Λ.entry ↔ e ∈ w i := by
  rw [mem_cons, mem_map_of_injective Λ.entry_injective]
  exact or_iff_right (Λ.head_ne_entry i e).symm

/-- An element is reached from a head exactly if it is on the list of that head. -/
lemma reaches_entry_iff (R : Rings Λ L w) :
    L.Reaches (Λ.head i) (Λ.entry e) ↔ e ∈ w i :=
  (R.ring i).reaches_iff.trans entry_mem_ring

lemma disjoint (R : Rings Λ L w) {j : ι} (hij : i ≠ j) :
    List.Disjoint (Λ.head i :: (w i).map Λ.entry) (Λ.head j :: (w j).map Λ.entry) := by
  intro x hi hj
  rcases mem_cons.mp hi with rfl | hi
  · rcases mem_cons.mp hj with hj | hj
    · exact hij (Λ.head_injective hj)
    · rcases mem_map.mp hj with ⟨e, -, he⟩
      exact Λ.head_ne_entry i e he.symm
  · rcases mem_map.mp hi with ⟨e, he, rfl⟩
    exact hij (R.unique he (entry_mem_ring.mp hj))

lemma disjoint_free (he : e ∉ w i) :
    List.Disjoint [Λ.entry e] (Λ.head i :: (w i).map Λ.entry) := by
  intro x hx hi
  rw [mem_singleton.mp hx] at hi
  exact he (entry_mem_ring.mp hi)

lemma next_head (R : Rings Λ L w) (i : ι) : L.next (Λ.head i) = Λ.first i (w i) := by
  have hr := R.ring i
  cases hw : w i with
  | nil =>
    rw [hw] at hr
    exact hr.next_head_nil
  | cons e l =>
    rw [hw] at hr
    exact hr.next_head_cons

lemma next_of_append {l1 l2 : List ε} (R : Rings Λ L w) (hw : w i = l1 ++ e :: l2) :
    L.next (Λ.entry e) = Λ.first i l2 := by
  have hc := (R.ring i).chain
  rw [hw, map_append, map_cons, Links.chain_append_cons] at hc
  cases l2 with
  | nil => exact (Links.chain_nil.mp hc.2).1
  | cons e' l2 => exact (Links.chain_cons.mp hc.2).1.1

lemma next_entry (R : Rings Λ L w) (hw : w i = e :: l) : L.next (Λ.entry e) = Λ.first i l :=
  R.next_of_append (hw.trans (nil_append _).symm)

lemma next_mem (R : Rings Λ L w) (he : e ∈ w i) :
    L.next (Λ.entry e) = Λ.head i ∨ ∃ e' ∈ w i, e' ≠ e ∧ L.next (Λ.entry e) = Λ.entry e' := by
  rcases append_of_mem he with ⟨l1, l2, hw⟩
  have hnext := R.next_of_append hw
  cases l2 with
  | nil => exact .inl hnext
  | cons e' l2 =>
    have hnd := R.nodup i
    rw [hw] at hnd
    have hne : e' ≠ e := fun h =>
      (nodup_cons.mp (nodup_append.mp hnd).2.1).1 (h ▸ mem_cons_self)
    exact .inr ⟨e', by simp [hw], hne, hnext⟩

lemma null_not_mem (i : ι) : Λ.null ∉ Λ.head i :: (w i).map Λ.entry := by
  intro hm
  rcases mem_cons.mp hm with h | h
  · exact Λ.head_ne_null i h.symm
  · rcases mem_map.mp h with ⟨e, -, he⟩
    exact Λ.entry_ne_null e he

lemma links_ne_null (R : Rings Λ L w) (he : e ∈ w i) :
    L.next (Λ.entry e) ≠ Λ.null ∧ L.prev (Λ.entry e) ≠ Λ.null := by
  have hm := entry_mem_ring (Λ := Λ).mpr he
  exact ⟨fun h => null_not_mem i (h ▸ (R.ring i).next_mem hm),
    fun h => null_not_mem i (h ▸ (R.ring i).prev_mem hm)⟩

variable [DecidableEq ι]

/-- Changing the list of one head, when the elements it gains were on no list. -/
lemma of_update {L' : Links ν} (R : Rings Λ L w) (hring : L'.Ring (Λ.head i) (l.map Λ.entry))
    (hother : ∀ j, j ≠ i → L'.Ring (Λ.head j) ((w j).map Λ.entry))
    (hfree : ∀ e, e ∉ l → (∀ j, j ≠ i → e ∉ w j) → L'.Ring (Λ.entry e) [])
    (hnew : ∀ e ∈ l, ∀ j, j ≠ i → e ∉ w j) : Rings Λ L' (update w i l) where
  ring j := by
    by_cases hj : j = i
    · subst hj
      rwa [update_self]
    · rw [update_of_ne hj]
      exact hother j hj
  free e he := by
    refine hfree e ?_ fun j hj => ?_
    · simpa using he i
    · simpa [hj] using he j
  unique {e j k} hj hk := by
    by_cases hji : j = i <;> by_cases hki : k = i
    · exact hji.trans hki.symm
    · rw [hji, update_self] at hj
      rw [update_of_ne hki] at hk
      exact absurd hk (hnew e hj k hki)
    · rw [hki, update_self] at hk
      rw [update_of_ne hji] at hj
      exact absurd hj (hnew e hk j hji)
    · rw [update_of_ne hji] at hj
      rw [update_of_ne hki] at hk
      exact R.unique hj hk

variable [DecidableEq ν]

/-- An insertion of a free element between nodes of one ring leaves the others alone. -/
lemma insertBetween {p n : ν} (R : Rings Λ L w) (he : ∀ j, e ∉ w j)
    (hp : p ∈ Λ.head i :: (w i).map Λ.entry) (hn : n ∈ Λ.head i :: (w i).map Λ.entry)
    (hring : (L.insertBetween (Λ.entry e) p n).Ring (Λ.head i) (l.map Λ.entry))
    (hl : ∀ e', e' ∈ l ↔ e' = e ∨ e' ∈ w i) :
    Rings Λ (L.insertBetween (Λ.entry e) p n) (update w i l) := by
  refine R.of_update hring (fun j hj => ?_) (fun e' he' hj => ?_) fun e' he' j hj => ?_
  · exact (R.ring j).insertBetween_of_not_mem (fun hm => he j (entry_mem_ring.mp hm))
      (fun hm => R.disjoint hj hm hp) fun hm => R.disjoint hj hm hn
  · have hee : e' ≠ e ∧ e' ∉ w i := not_or.mp fun h => he' ((hl e').mpr h)
    have hall : ∀ j, e' ∉ w j := fun j => if h : j = i then h ▸ hee.2 else hj j h
    have hd := disjoint_free (Λ := Λ) hee.2
    have hne : Λ.entry e ∉ [Λ.entry e'] := fun hm =>
      hee.1 (Λ.entry_injective (mem_singleton.mp hm)).symm
    exact (R.free e' hall).insertBetween_of_not_mem hne (fun hm => hd hm hp) fun hm => hd hm hn
  · rcases (hl e').mp he' with rfl | hm
    · exact he j
    · exact fun hm' => hj (R.unique hm' hm)

lemma listAdd (R : Rings Λ L w) (i : ι) (he : ∀ j, e ∉ w j) :
    Rings Λ (L.listAdd (Λ.entry e) (Λ.head i)) (update w i (e :: w i)) := by
  have hm : Λ.entry e ∉ Λ.head i :: (w i).map Λ.entry := fun h => he i (entry_mem_ring.mp h)
  refine R.insertBetween he mem_cons_self ((R.ring i).next_mem mem_cons_self) ?_ ?_
  · exact (R.ring i).listAdd hm
  · exact fun e' => mem_cons

lemma listAddTail (R : Rings Λ L w) (i : ι) (he : ∀ j, e ∉ w j) :
    Rings Λ (L.listAddTail (Λ.entry e) (Λ.head i)) (update w i (w i ++ [e])) := by
  have hm : Λ.entry e ∉ Λ.head i :: (w i).map Λ.entry := fun h => he i (entry_mem_ring.mp h)
  refine R.insertBetween he ((R.ring i).prev_mem mem_cons_self) mem_cons_self ?_ ?_
  · rw [map_append]
    exact (R.ring i).listAddTail hm
  · intro e'
    rw [mem_append, mem_singleton, or_comm]

variable [DecidableEq ε]

lemma listDelInit (R : Rings Λ L w) (he : e ∈ w i) :
    Rings Λ (L.listDelInit Λ.null (Λ.entry e)) (update w i ((w i).erase e)) := by
  have hnd := R.nodup i
  have hm := entry_mem_ring (Λ := Λ).mpr he
  refine R.of_update ?_ (fun j hj => ?_) (fun e' he' hj => ?_) fun e' he' j hj hm' => ?_
  · rcases append_of_mem he with ⟨l1, l2, hw⟩
    have hr := R.ring i
    have hnull := null_not_mem (Λ := Λ) (w := w) i
    rw [hw] at hnd
    have hel : e ∉ l1 := fun h => (nodup_append.mp hnd).2.2 e h e mem_cons_self rfl
    rw [hw, map_append, map_cons] at hr hnull
    rw [hw, erase_append_right _ hel, erase_cons_head, map_append]
    exact hr.listDelInit hnull
  · exact (R.ring j).listDelInit_of_disjoint (R.ring i) hm (R.disjoint hj)
  · by_cases hee : e' = e
    · subst hee
      exact L.ring_nil_listDelInit _ _
    · have hei : e' ∉ w i := fun h => he' ((mem_erase_of_ne hee).mpr h)
      have hall : ∀ j, e' ∉ w j := fun j => if h : j = i then h ▸ hei else hj j h
      exact (R.free e' hall).listDelInit_of_disjoint (R.ring i) hm (disjoint_free hei)
  · exact hj (R.unique hm' (mem_of_mem_erase he'))

end Rings

end LiteKernel.Lib
