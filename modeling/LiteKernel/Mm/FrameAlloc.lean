import LiteKernel.Mm.Rmap

/-!
# Allocation without reclaim

What an allocation does to the address spaces if nothing is reclaimed for it: it may
take a frame from the allocator, and it may give that frame to a directory as a
table. The tables stay well-formed: `Settles`.

Main results:

- Lemma `Wf.takeFrame`: a frame is taken from the allocator.
- Lemmas `Wf.putTable`, `Wf.setPdeUser`: it becomes a table of an address space.
-/

namespace LiteKernel.Mm

open Function Lib

/-- No allocation reclaims memory. -/
def Env.Calm (env : Env) : Prop :=
  ∀ n, env.reclaim n = .done ∧ env.heapReclaim n = .done

namespace Vm

variable {i t : Nat}

/-! ## What an allocation can do -/

/-- The fields that no allocation changes, and the heap that only moves on. -/
structure Fixed (s s' : Vm) : Prop where
  live : s'.live = s.live
  mm : s'.mm = s.mm
  kernelDir : s'.kernelDir = s.kernelDir
  pageDirectory : s'.pageDirectory = s.pageDirectory
  env : s'.env = s.env
  heapOk : s'.ctx.heap.ok = s.ctx.heap.ok
  heapNext : s.ctx.heap.next ≤ s'.ctx.heap.next

lemma Fixed.trans {s1 s2 s3 : Vm} (h1 : Fixed s1 s2) (h2 : Fixed s2 s3) : Fixed s1 s3 where
  live := h2.live.trans h1.live
  mm := h2.mm.trans h1.mm
  kernelDir := h2.kernelDir.trans h1.kernelDir
  pageDirectory := h2.pageDirectory.trans h1.pageDirectory
  env := h2.env.trans h1.env
  heapOk := h2.heapOk.trans h1.heapOk
  heapNext := h1.heapNext.trans h2.heapNext

/-- What only changes frames and tables keeps the other fields. -/
lemma Quiet.fixed {s s' : Vm} (h : Quiet s s') : Fixed s s' where
  live := h.live
  mm := h.mm
  kernelDir := h.kernelDir
  pageDirectory := h.pageDirectory
  env := h.env
  heapOk := by rw [h.ctx]
  heapNext := by rw [h.ctx]

/-- The tables stay well-formed, and the frames that are new stay so. -/
structure Settles (T : Tally) (M : Finset Nat) (D : Nat → Nat) (s s' : Vm) : Prop where
  wf : Wf T s' M D
  fresh : ∀ f, Fresh s M D f → Fresh s' M D f
  fixed : Fixed s s'

variable {T : Tally} {s s' : Vm} {M : Finset Nat} {D : Nat → Nat} {m v va f : Nat} {e : Pte}

lemma mul_div_pageSize (v : Nat) : v * pageSize / pageSize = v :=
  Nat.mul_div_cancel v (by decide)

/-! ## Frames and heap objects -/

/-- Taking a frame gives it no use yet. -/
lemma held_takeFrame (s : Vm) (f n : Nat) :
    ({ s.takeFrame f with calls := n } : Vm).held M D = s.held M D := by
  funext u
  cases u <;> rfl

lemma free_takeFrame (s : Vm) (f n f' : Nat) :
    ({ s.takeFrame f with calls := n } : Vm).free f' = if f' = f then false else s.free f' := by
  by_cases hf : f' = f
  · simp [takeFrame, hf]
  · simp [takeFrame, hf]

lemma page_takeFrame (s : Vm) (f n f' : Nat) :
    ({ s.takeFrame f with calls := n } : Vm).page f' =
      if f' = f then { s.page f with refcount := 1 } else s.page f' := by
  by_cases hf : f' = f
  · simp [takeFrame, setPage, hf]
  · simp [takeFrame, setPage, hf]

/-- A free frame is in no use, so it can be handed out as a new one. -/
lemma Wf.takeFrame (h : Wf T s M D) (hf : s.free f = true) (h0 : f ≠ 0) (n : Nat) :
    Settles T M D s { s.takeFrame f with calls := n } ∧
      Fresh { s.takeFrame f with calls := n } M D f := by
  have hun := h.toSpace.unheld_of_free hf
  have hrefs : ∀ f', ({ s.takeFrame f with calls := n } : Vm).refsTo M D f' = s.refsTo M D f' := by
    intro f'
    unfold refsTo mapped
    rw [held_takeFrame]
  have hused : ∀ f', s.free f' = false → f' ≠ f := by
    rintro f' hf' rfl
    rw [hf] at hf'
    cases hf'
  have hwf : Wf T { s.takeFrame f with calls := n } M D := by
    refine ⟨h.toSpace.congr (fun _ _ => ⟨rfl, rfl⟩) rfl rfl fun u f' hu => ?_, fun f' hf' => ?_⟩
    · have hfr := (h.used u f' hu).1
      rw [free_takeFrame, if_neg (hused f' hfr)]
      exact hfr
    · rw [hrefs] at hf' ⊢
      have hne : f' ≠ f := fun e => hf' (e ▸ refsTo_eq_zero_of_unheld hun)
      rw [page_takeFrame, if_neg hne]
      exact h.counted f' hf'
  refine ⟨⟨hwf, fun f' hf' => ⟨fun u => ?_, ?_, hf'.ne_zero, ?_⟩,
    ⟨rfl, rfl, rfl, rfl, rfl, rfl, le_refl _⟩⟩, ⟨fun u => ?_, ?_, h0, ?_⟩⟩
  · rw [held_takeFrame]
    exact hf'.unheld u
  · rw [free_takeFrame, if_neg (hused f' hf'.free)]
    exact hf'.free
  · rw [page_takeFrame, if_neg (hused f' hf'.free)]
    exact hf'.refcount
  · rw [held_takeFrame]
    exact hun u
  · rw [free_takeFrame, if_pos rfl]
  · rw [page_takeFrame, if_pos rfl]

/-- Without reclaim `alloc_page` is the answer of the allocator. -/
lemma allocPage_of_calm (hc : s.env.Calm) : s.allocPage = s.nextFrame := by
  unfold allocPage
  rw [(hc s.calls).1]
  rfl

/-! ## Tables -/

/-- A new frame becomes a table with the entries that its pages had before. -/
lemma Wf.putTable (h : Wf T s M D) (hm : m ∈ M) {c : Nat → Pte} (hi : i < userPdes)
    (hc : TableFor s (D m) i c) (ht : Fresh s M D t) (user : Bool) :
    Wf T (s.putTable (D m) i t c user) M D := by
  refine ⟨h.toSpace.putTable hm hi hc ht.unheld ht.free ht.ne_zero user, fun f hf => ?_⟩
  have hrefs : (s.putTable (D m) i t c user).refsTo M D f = s.refsTo M D f := by
    apply refs_congr
    intro k hk
    have hmv := mem_pageKeys.mp hk
    rw [mapped_of_mem hmv.1 hmv.2, mapped_of_mem hmv.1 hmv.2,
      h.toSpace.pte_putTable hm hc ht.unheld hmv.1 hmv.2]
  rw [hrefs] at hf ⊢
  exact h.counted f hf

lemma dir_setPdeUser (s : Vm) (d v d' i' : Nat) :
    ((s.setPdeUser d v).dir d' i').present = (s.dir d' i').present ∧
      ((s.setPdeUser d v).dir d' i').pfn = (s.dir d' i').pfn := by
  rw [setPdeUser, dir_setDirEntry]
  split
  · next heq =>
    rw [heq.1, heq.2]
    exact ⟨rfl, rfl⟩
  · exact ⟨rfl, rfl⟩

/-- The user bit of a directory entry has no part in which frames are used. -/
lemma held_setPdeUser (s : Vm) (d v : Nat) : (s.setPdeUser d v).held M D = s.held M D := by
  have hk : (s.setPdeUser d v).kernelDir = s.kernelDir := rfl
  funext u
  cases u <;> simp only [held, pte_setPdeUser, hk, Pte.frame, (dir_setPdeUser s d v _ _).1,
    (dir_setPdeUser s d v _ _).2]

lemma Wf.setPdeUser (h : Wf T s M D) (d v : Nat) : Settles T M D s (s.setPdeUser d v) := by
  have hrefs : ∀ f, (s.setPdeUser d v).refsTo M D f = s.refsTo M D f := fun f => by
    unfold refsTo mapped
    rw [held_setPdeUser]
  refine ⟨⟨h.toSpace.setPdeUser d v, fun f hf => ?_⟩,
    fun f hf => ⟨fun u => ?_, hf.free, hf.ne_zero, hf.refcount⟩, (quiet_setDirEntry ..).fixed⟩
  · rw [hrefs] at hf ⊢
    exact h.counted f hf
  · rw [held_setPdeUser]
    exact hf.unheld u

/-- With its table in place, mapping a user page allocates nothing. -/
lemma mapPageEx_of_table {d : Nat} (hp : (s.dir d (v / ptrsPerPte)).present = true) (f : Nat)
    {flags : PteFlags} (hu : flags.user = true) :
    s.mapPageEx d f (v * pageSize) flags =
      (s.setPdeUser d v).setPte d v { flags with pfn := f } := by
  unfold mapPageEx ensureTable
  rw [mul_div_pageSize, if_pos hp]
  simp only [hu, if_true]

/-! ## New reverse mappings -/

lemma refcount_pushRmap (m va : Nat) (pg : Page) : (Page.pushRmap m va pg).refcount = pg.refcount :=
  rfl

/-- What `page_add_anon_rmap` leaves alone when nothing is reclaimed. -/
structure AddsRmap (s s' : Vm) : Prop where
  same : SameTables s s'
  fixed : Fixed s s'

/-- Without reclaim `kmalloc` only asks the heap. -/
lemma kmalloc_of_calm (hc : s.env.Calm) :
    s.kmalloc = (s.ctx.kmalloc.1, { s with ctx := s.ctx.kmalloc.2 }) := by
  unfold kmalloc
  rw [(hc s.ctx.heap.next).2]
  rfl

/-- A reverse mapping may need a list node; a failed allocation of one is not reported. -/
lemma pageAddAnonRmap_of_calm (hc : s.env.Calm) (m va f : Nat) :
    AddsRmap s (s.pageAddAnonRmap m va f) := by
  unfold pageAddAnonRmap
  rw [kmalloc_of_calm hc]
  split_ifs with h0 hhas
  · exact ⟨sameTables_setPage s rfl, (quiet_setPage ..).fixed⟩
  · exact ⟨SameTables.refl s, (Quiet.refl s).fixed⟩
  · have hctx : Fixed s { s with ctx := s.ctx.kmalloc.2 } :=
      ⟨rfl, rfl, rfl, rfl, rfl, rfl, Nat.le_succ _⟩
    have hsame : SameTables s { s with ctx := s.ctx.kmalloc.2 } :=
      ⟨rfl, rfl, rfl, rfl, fun _ => rfl⟩
    cases hk : s.ctx.kmalloc.1 with
    | none => exact ⟨hsame, hctx⟩
    | some p =>
      have hpush : SameTables { s with ctx := s.ctx.kmalloc.2 }
          ({ s with ctx := s.ctx.kmalloc.2 }.setPage f (Page.pushRmap m va)) :=
        sameTables_setPage _ (refcount_pushRmap m va _)
      exact ⟨hsame.trans hpush, hctx.trans (quiet_setPage _ f (Page.pushRmap m va)).fixed⟩

end Vm

end LiteKernel.Mm
