import LiteKernel.Mm.UnmapExact

/-!
# The frames of one address space

An address space that is built from a state `s0` on: its directory, its tables and its pages
are frames that were free in `s0`, and no other address space has them. `OwnFrames` says
this together with the invariant of the page tables.

Main results:

- Lemma `OwnFrames.mapPage`: a frame is mapped.
- Lemma `Ample.allocPage`: with enough memory an allocation succeeds.
-/

namespace LiteKernel.Mm

open Function Lib List

/-- The uses of one address space. -/
def Use.Of (m : Nat) : Use → Prop
  | .dir m' => m' = m
  | .table m' _ => m' = m
  | .page m' _ => m' = m
  | _ => False

namespace Vm

variable {d i x : Nat}

/-- The page tables are well-formed, and `m` has frames of its own that were free in `s0`. -/
structure OwnFrames (T : Tally) (s0 : Vm) (M : Finset Nat) (D : Nat → Nat) (m : Nat) (s : Vm) :
    Prop where
  wf : Wf T s M D
  free : ∀ f, s.free f = true → s0.free f = true
  owned : ∀ u f, Use.Of m u → s.held M D u = some f →
    s0.free f = true ∧ (s.page f).refcount = 1

variable {T : Tally} {s0 s s' : Vm} {M : Finset Nat} {D : Nat → Nat} {m v f : Nat} {e : Pte}
  {u : Use}

namespace OwnFrames

section

variable (h : OwnFrames T s0 M D m s)
include h

lemma congr (hwf : Wf T s' M D) (hheld : s'.held M D = s.held M D) (hfree : s'.free = s.free)
    (hrc : ∀ f, (s'.page f).refcount = (s.page f).refcount) : OwnFrames T s0 M D m s' where
  wf := hwf
  free := hfree ▸ h.free
  owned u f hu hf := by
    rw [hheld] at hf
    rw [hrc]
    exact h.owned u f hu hf

lemma of_same (hs : SameTables s s') : OwnFrames T s0 M D m s' :=
  h.congr (h.wf.of_same hs) hs.held hs.free hs.refcount

/-- A use of `m` gets a frame that was free in `s0`; it may lose the one it had. -/
lemma place {M' : Finset Nat} {D' : Nat → Nat} (hf : s0.free f = true)
    (hone : (s.page f).refcount = 1) (hwf : Wf T s' M' D')
    (hheld : s'.held M' D' = update (s.held M D) u (some f)) (hfree : s'.free = s.free)
    (hrc : ∀ x, (s'.page x).refcount = (s.page x).refcount) : OwnFrames T s0 M' D' m s' where
  wf := hwf
  free := hfree ▸ h.free
  owned u' x hu' hx := by
    rw [hheld, update_apply] at hx
    rw [hrc]
    split_ifs at hx
    · rw [← Option.some.inj hx]
      exact ⟨hf, hone⟩
    · exact h.owned u' x hu' hx

end

end OwnFrames

/-! ## Taking frames -/

/-- The next `k` allocations of frames succeed, so do all of the heap, and nothing is
reclaimed. -/
structure Ample (k : Nat) (s : Vm) : Prop where
  calm : s.env.Calm
  heap : ∀ n, s.ctx.heap.ok n = true
  frame : ∀ i, i < k → ∃ f, s.env.frame (s.calls + i) = some f ∧ f ≠ 0 ∧ s.free f = true
  distinct : ∀ i j, i < k → j < k → s.env.frame (s.calls + i) = s.env.frame (s.calls + j) → i = j

variable {k : Nat}

lemma Ample.mono {k' : Nat} (h : Ample k s) (hle : k' ≤ k) : Ample k' s where
  calm := h.calm
  heap := h.heap
  frame i hi := h.frame i (hi.trans_le hle)
  distinct i j hi hj := h.distinct i j (hi.trans_le hle) (hj.trans_le hle)

lemma Ample.of_eq (h : Ample k s) (henv : s'.env = s.env)
    (hok : s'.ctx.heap.ok = s.ctx.heap.ok) (hcalls : s'.calls = s.calls)
    (hfree : ∀ f, s.free f = true → s'.free f = true) : Ample k s' where
  calm := by
    rw [henv]
    exact h.calm
  heap n := by
    rw [hok]
    exact h.heap n
  frame i hi := by
    rw [henv, hcalls]
    obtain ⟨f, hf, h0, hfr⟩ := h.frame i hi
    exact ⟨f, hf, h0, hfree f hfr⟩
  distinct i j hi hj heq := by
    rw [henv, hcalls] at heq
    exact h.distinct i j hi hj heq

lemma Ample.congr (h : Ample k s) (hfixed : Fixed s s') (hcalls : s'.calls = s.calls)
    (hfree : ∀ f, s.free f = true → s'.free f = true) : Ample k s' :=
  h.of_eq hfixed.env hfixed.heapOk hcalls hfree

lemma Ample.allocPage (h : Ample (k + 1) s) : ∃ f, f ≠ 0 ∧ s.free f = true ∧
    s.allocPage = (some f, { s.takeFrame f with calls := s.calls + 1 }) ∧
    Ample k { s.takeFrame f with calls := s.calls + 1 } := by
  obtain ⟨f, hf, h0, hfree⟩ := h.frame 0 (Nat.succ_pos k)
  rw [add_zero] at hf
  refine ⟨f, h0, hfree, ?_, h.calm, h.heap, fun i hi => ?_, fun i j hi hj heq => ?_⟩
  · rw [allocPage_of_calm h.calm, nextFrame, hf]
    simp only [ne_eq, h0, not_false_eq_true, hfree, and_self, if_true]
  · obtain ⟨g, hg, hg0, hgf⟩ := h.frame (i + 1) (Nat.succ_lt_succ hi)
    have hidx : s.calls + 1 + i = s.calls + (i + 1) := by omega
    refine ⟨g, ?_, hg0, ?_⟩
    · rw [hidx]
      exact hg
    · rw [free_takeFrame, if_neg]
      · exact hgf
      · -- the answers are distinct
        rintro rfl
        have heq : s.env.frame (s.calls + (i + 1)) = s.env.frame (s.calls + 0) :=
          hg.trans hf.symm
        exact absurd (h.distinct (i + 1) 0 (Nat.succ_lt_succ hi) (Nat.succ_pos k) heq)
          (Nat.succ_ne_zero i)
  · have hi' : s.calls + 1 + i = s.calls + (i + 1) := by omega
    have hj' : s.calls + 1 + j = s.calls + (j + 1) := by omega
    have heq' : s.env.frame (s.calls + 1 + i) = s.env.frame (s.calls + 1 + j) := heq
    rw [hi', hj'] at heq'
    have := h.distinct (i + 1) (j + 1) (Nat.succ_lt_succ hi) (Nat.succ_lt_succ hj) heq'
    omega

/-- The directories and the tables that were in use in `s0` keep their entries. -/
structure Confined (s0 s s' : Vm) : Prop where
  dir : ∀ x, s0.free x = false → s'.dir x = s.dir x
  table : ∀ x, s0.free x = false → s'.table x = s.table x
  fixed : Fixed s s'

lemma Confined.refl (s0 s : Vm) : Confined s0 s s :=
  ⟨fun _ _ => rfl, fun _ _ => rfl, (Quiet.refl s).fixed⟩

lemma Confined.trans {s1 s2 s3 : Vm} (h1 : Confined s0 s1 s2) (h2 : Confined s0 s2 s3) :
    Confined s0 s1 s3 where
  dir x hx := (h2.dir x hx).trans (h1.dir x hx)
  table x hx := (h2.table x hx).trans (h1.table x hx)
  fixed := h1.fixed.trans h2.fixed

section

variable (h : OwnFrames T s0 M D m s)
include h

lemma OwnFrames.base_of_held (hu : u.Of m)
    (hf : s.held M D u = some f) (hx : s0.free x = false) : x ≠ f := by
  rintro rfl
  rw [(h.owned u x hu hf).1] at hx
  cases hx

lemma OwnFrames.allocPage (ha : Ample (k + 1) s) :
    ∃ f, s.allocPage = (some f, { s.takeFrame f with calls := s.calls + 1 }) ∧
      s0.free f = true ∧ OwnFrames T s0 M D m { s.takeFrame f with calls := s.calls + 1 } ∧
      Fresh { s.takeFrame f with calls := s.calls + 1 } M D f ∧
      Ample k { s.takeFrame f with calls := s.calls + 1 } ∧
      Confined s0 s { s.takeFrame f with calls := s.calls + 1 } := by
  obtain ⟨f, h0, hfree, heq, ha'⟩ := ha.allocPage
  obtain ⟨hset, hfresh⟩ := h.wf.takeFrame hfree h0 (s.calls + 1)
  refine ⟨f, heq, h.free f hfree, ⟨hset.wf, fun x hx => ?_, fun u x hu hx => ?_⟩, hfresh, ha',
    fun _ _ => rfl, fun _ _ => rfl, hset.fixed⟩
  · rw [free_takeFrame] at hx
    split_ifs at hx
    exact h.free x hx
  · rw [held_takeFrame] at hx
    have hne : x ≠ f := fun hc => h.wf.toSpace.unheld_of_free hfree u (hc ▸ hx)
    rw [page_takeFrame, if_neg hne]
    exact h.owned u x hu hx

lemma OwnFrames.putTable (hm : m ∈ M) {c : Nat → Pte}
    (hi : i < userPdes) (hc : TableFor s (D m) i c) (hf : s0.free f = true) (hfr : Fresh s M D f)
    (user : Bool) :
    OwnFrames T s0 M D m (s.putTable (D m) i f c user) ∧
      Confined s0 s (s.putTable (D m) i f c user) := by
  have hheld := h.wf.toSpace.held_putTable hm hi hc hfr.unheld user
  have hplace := h.place hf hfr.refcount (h.wf.putTable hm hi hc hfr user) hheld rfl
    fun _ => rfl
  refine ⟨hplace, fun x hx => ?_, fun x hx => ?_,
    ⟨rfl, rfl, rfl, rfl, rfl, rfl, le_refl _⟩⟩
  · have hne : x ≠ D m := h.base_of_held (u := .dir m) rfl (held_dir hm) hx
    simp [Vm.putTable, setDirEntry, hne]
  · have hne : x ≠ f := by
      rintro rfl
      rw [hf] at hx
      cases hx
    simp [Vm.putTable, setDirEntry, hne]

end

/-- A fresh frame replaces the one of a page, which had one reference at most. -/
lemma Wf.remap (h : Wf T s M D) (hm : m ∈ M) (hv : v < userPages)
    (hp : (s.dir (D m) (v / ptrsPerPte)).present = true)
    (hold : ∀ g, (s.pte (D m) v).frame = some g → (s.page g).refcount ≤ 1)
    (hu : e.user = true) (hf : Fresh s M D e.pfn) : Wf T (s.setPte (D m) v e) M D := by
  refine ⟨h.toSpace.setPte hm hv hp fun _ => ⟨hu, hf.free, hf.ne_zero,
    fun u hc => absurd hc (hf.unheld u)⟩, fun g hg => ?_⟩
  have hrefs := h.toSpace.refsTo_setPte (e := e) hm hv hp g
  rw [page_setPte]
  by_cases hef : e.frame = some g
  · have hpf := (Pte.frame_eq_some.mp hef).2
    have hne : (s.pte (D m) v).frame ≠ some g := by
      rw [← hpf]
      exact fun hc => hf.unheld (.page m v) ((held_page hm hv).trans hc)
    rw [if_pos hef, if_neg hne, ← hpf, refsTo_eq_zero_of_unheld hf.unheld] at hrefs
    rw [← hpf, hf.refcount, show (s.setPte (D m) v e).refsTo M D e.pfn = 1 by omega]
    exact T.one
  · rw [if_neg hef, add_zero] at hrefs
    by_cases hog : (s.pte (D m) v).frame = some g
    · -- the old frame has no other mapping
      have hle := T.le _ _ (h.counted g (refsTo_ne_zero hm hv hog))
      have hone := hold g hog
      rw [if_pos hog] at hrefs
      omega
    · rw [if_neg hog, add_zero] at hrefs
      rw [hrefs] at hg ⊢
      exact h.counted g hg

/-- What is known after a page has got a frame. -/
structure MapsPage (s0 : Vm) (M : Finset Nat) (D : Nat → Nat) (m v : Nat) (e : Pte) (s s' : Vm) :
    Prop extends Confined s0 s s' where
  pte : ∀ m' ∈ M, ∀ v', v' < userPages → s'.pte (D m') v' =
    if m' = m ∧ v' = v then e else s.pte (D m') v'
  present : ∀ i, (s'.dir (D m) i).present = (s.dir (D m) i).present

lemma calls_pageAddAnonRmap (hc : s.env.Calm) (m va f : Nat) :
    (s.pageAddAnonRmap m va f).calls = s.calls := by
  unfold pageAddAnonRmap
  rw [kmalloc_of_calm hc]
  split
  · rfl
  · split
    · rfl
    · cases s.ctx.kmalloc.1 <;> rfl

lemma OwnFrames.mapPage (h : OwnFrames T s0 M D m s) (hc : s.env.Calm) (hm : m ∈ M)
    (hv : v < userPages) (hp : (s.dir (D m) (v / ptrsPerPte)).present = true)
    (hf : s0.free f = true) (hfr : Fresh s M D f) (w : Bool) :
    let s' := (s.mapPageEx (D m) f (v * pageSize) (PteFlags.userPage w)).pageAddAnonRmap m
      (v * pageSize) f
    OwnFrames T s0 M D m s' ∧
      MapsPage s0 M D m v ⟨PteFlags.userPage w, f⟩ s s' := by
  intro s'
  set t := s.setPdeUser (D m) v with ht
  have hset := h.wf.setPdeUser (D m) v
  have hpresent : ∀ d i, (t.dir d i).present = (s.dir d i).present := fun d i =>
    (dir_setPdeUser s (D m) v d i).1
  have hheld_t : t.held M D = s.held M D := held_setPdeUser s (D m) v
  have hbt : OwnFrames T s0 M D m t := h.congr hset.wf hheld_t rfl fun _ => rfl
  have hpt : (t.dir (D m) (v / ptrsPerPte)).present = true := by
    rw [hpresent]
    exact hp
  have hft := hset.fresh f hfr
  set e : Pte := { PteFlags.userPage w with pfn := f } with he
  have hwf : Wf T (t.setPte (D m) v e) M D := by
    refine hset.wf.remap hm hv hpt (fun g hg => ?_) rfl hft
    exact (hbt.owned (.page m v) g rfl ((held_page hm hv).trans hg)).2.le
  have hplace := hbt.place hf hft.refcount hwf
    (hset.wf.toSpace.held_setPte (e := e) hm hv hpt) (free_setPte ..)
    fun x => by rw [page_setPte]
  have hmap : s.mapPageEx (D m) f (v * pageSize) (PteFlags.userPage w) = t.setPte (D m) v e :=
    mapPageEx_of_table hp f rfl
  have hcalm : (t.setPte (D m) v e).env.Calm := by
    rw [(quiet_setPte ..).env]
    exact hc
  have hadd := pageAddAnonRmap_of_calm hcalm m (v * pageSize) f
  have hs' : s' = (t.setPte (D m) v e).pageAddAnonRmap m (v * pageSize) f := by
    simp only [s', hmap]
  rw [← hs'] at hadd
  have htable := held_table_of_present hm (pde_lt hv) hpt
  refine ⟨hplace.of_same hadd.same, ⟨fun x hx => ?_, fun x hx => ?_, ?_⟩,
    fun m' hm' v' hv' => ?_, fun i => ?_⟩
  · have hne : x ≠ D m := h.base_of_held (u := .dir m) rfl (held_dir hm) hx
    rw [hadd.same.dir, dir_setPte, ht, setPdeUser]
    simp [setDirEntry, hne]
  · have hne := hbt.base_of_held (u := .table m _) rfl htable hx
    funext j
    rw [hadd.same.table, table_setPte hpt, if_neg fun hc => hne hc.1]
    rfl
  · exact ((quiet_setDirEntry ..).fixed.trans (quiet_setPte ..).fixed).trans hadd.fixed
  · rw [hadd.same.pte, hset.wf.toSpace.pte_setPte hm hv hpt hm' hv', pte_setPdeUser]
  · rw [hadd.same.dir, dir_setPte, hpresent]

end Vm
end LiteKernel.Mm
