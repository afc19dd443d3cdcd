import LiteKernel.Lib.Run
import LiteKernel.Lib.Word

/-!
# The areas of `mm/vmalloc.c`

`vmalloc` and `ioremap` take the first gap that is large enough between the blocks of one list,
which is sorted by address. Sizes are rounded up to pages in 32 bits: close to four gigabytes the
rounded size is zero, and a block without addresses is linked in.

What the allocators answer is an argument of each call: whether `kmalloc` has a descriptor, and how
many pages `alloc_page` has. The page tables, which no decision about the list depends on, are left
out.

Main results:

- Theorem `vmalloc_layout`: blocks are sorted and apart if no rounded size is zero.
- Theorem `vmalloc_rounds_to_zero`: a block without addresses.
-/

namespace LiteKernel.Mm.Vmalloc

open Lib List

/-- `struct vmalloc_block` without its link and the fields that only the page tables depend on. -/
structure Block where
  vaddr : Nat
  size : Nat
  pageOff : Nat
  isIoremap : Bool
  deriving DecidableEq, Repr

/-- What `bootmem_init` leaves of low memory. -/
structure Layout where
  lowmemEnd : Nat
  lowmemEnd_le : lowmemEnd ≤ 0x38000000

/-- `memlayout_vmalloc_start`. -/
def Layout.start (m : Layout) : Nat :=
  let directmapEnd := 0xC0000000 + wrap (m.lowmemEnd + 0x3FFFFF) / 0x400000 * 0x400000
  alignUp (if wrap (directmapEnd + 0x800000) ≥ directmapEnd then wrap (directmapEnd + 0x800000)
    else directmapEnd)

/-- `memlayout_vmalloc_end`. -/
abbrev vmallocEnd : Nat := 0xFF000000

/-- What the allocators answer to one call. -/
structure Answer where
  descriptor : Bool
  pages : Nat

/-! ## The list of blocks -/

/-- The loop of `vmalloc_find_gap`; `0` when there is no gap. -/
def findGapFrom (size : Nat) : Nat → List Block → Nat
  | addr, [] => if wrap (addr + size) < addr ∨ wrap (addr + size) > vmallocEnd then 0 else addr
  | addr, b :: l =>
    if b.vaddr ≥ addr ∧ b.vaddr - addr ≥ size then addr
    else
      findGapFrom size (if wrap (b.vaddr + b.size) > addr then wrap (b.vaddr + b.size) else addr) l

def vmallocFindGap (m : Layout) (size : Nat) (l : List Block) : Nat :=
  findGapFrom size m.start l

/-- The `while` loop of `vmalloc_list_insert`. -/
def insertAfter (blk : Block) : List Block → List Block
  | [] => [blk]
  | c :: l => if c.vaddr < blk.vaddr then c :: insertAfter blk l else blk :: c :: l

def vmallocListInsert (blk : Block) : List Block → List Block
  | [] => [blk]
  | c :: l => if blk.vaddr < c.vaddr then blk :: c :: l else c :: insertAfter blk l

/-- `vmalloc_alloc_block`: the address of the new block. -/
def vmallocAllocBlock (m : Layout) (a : Answer) (size pageOff : Nat) (isIoremap : Bool)
    (l : List Block) : Option Nat × List Block :=
  let vaddr := vmallocFindGap m size l
  if vaddr = 0 ∨ a.descriptor = false then (none, l)
  else (some vaddr, vmallocListInsert ⟨vaddr, size, pageOff, isIoremap⟩ l)

/-- `vmalloc`; when a page is missing, the block is taken off the list again. -/
def vmalloc (m : Layout) (a : Answer) (size : Nat) (l : List Block) : Option Nat × List Block :=
  if size = 0 then (none, l)
  else
    match vmallocAllocBlock m a (alignUp size) 0 false l with
    | (none, l) => (none, l)
    | (some vaddr, l) =>
      if alignUp size / pageSize ≤ a.pages then (some vaddr, l)
      else (none, l.eraseP fun b => decide (b.vaddr = vaddr))

def ioremap (m : Layout) (a : Answer) (phys size : Nat) (l : List Block) :
    Option Nat × List Block :=
  if size = 0 then (none, l)
  else
    let pageOff := phys % pageSize
    let span := wrap (size + pageOff)
    if span < size then (none, l)
    else
      match vmallocAllocBlock m a (alignUp span) pageOff true l with
      | (none, l) => (none, l)
      | (some vaddr, l) => (some (wrap (vaddr + pageOff)), l)

def vfree (addr : Nat) (l : List Block) : List Block :=
  if addr = 0 then l
  else
    match l.find? fun b => decide (b.vaddr = addr) with
    | none => l
    | some b => if b.isIoremap then l else l.eraseP fun b => decide (b.vaddr = addr)

def iounmap (addr : Nat) (l : List Block) : List Block :=
  if addr = 0 then l
  else l.eraseP fun b => b.isIoremap && decide (addr ≥ wrap (b.vaddr + b.pageOff)) &&
    decide (addr < wrap (b.vaddr + b.size))

/-! ## The layout -/

variable {m : Layout} {size : Nat} {l : List Block}

/-- The range and the block have no address in common. -/
def Apart (addr size : Nat) (b : Block) : Prop :=
  b.vaddr + b.size ≤ addr ∨ addr + size ≤ b.vaddr

/-- The blocks are not empty, lie in the area, and each ends before the next begins. -/
structure Laid (m : Layout) (l : List Block) : Prop where
  sorted : l.Pairwise fun a b => a.vaddr + a.size ≤ b.vaddr
  size_pos : ∀ b ∈ l, 0 < b.size
  inside : ∀ b ∈ l, m.start ≤ b.vaddr ∧ b.vaddr + b.size ≤ vmallocEnd

/-- The area has room for the range, and no block meets it. -/
def Gap (m : Layout) (size : Nat) (l : List Block) (addr : Nat) : Prop :=
  m.start ≤ addr ∧ addr + size ≤ vmallocEnd ∧ ∀ b ∈ l, Apart addr size b

lemma Layout.start_bounds (m : Layout) : 0 < m.start ∧ m.start ≤ 0xF8800000 := by
  have hle := m.lowmemEnd_le
  unfold Layout.start alignUp alignDown wrap
  dsimp only
  split_ifs
  · omega
  · omega

lemma Laid.sublist {l' : List Block} (h : Laid m l) (hs : l'.Sublist l) : Laid m l' where
  sorted := h.sorted.sublist hs
  size_pos b hb := h.size_pos b (hs.subset hb)
  inside b hb := h.inside b (hs.subset hb)

/-- From an address below all blocks on, the search finds the first gap, or there is none. -/
lemma findGapFrom_spec {addr : Nat} (haddr : 0 < addr ∧ addr ≤ vmallocEnd)
    (hsize : size < wordSize)
    (hsorted : l.Pairwise fun a b => a.vaddr + a.size ≤ b.vaddr)
    (hl : ∀ b ∈ l, addr ≤ b.vaddr ∧ 0 < b.size ∧ b.vaddr + b.size ≤ vmallocEnd) :
    (findGapFrom size addr l ≠ 0 → addr ≤ findGapFrom size addr l ∧
      findGapFrom size addr l + size ≤ vmallocEnd ∧
      ∀ b ∈ l, Apart (findGapFrom size addr l) size b) ∧
    (findGapFrom size addr l = 0 →
      ∀ x, addr ≤ x → x + size ≤ vmallocEnd → ∃ b ∈ l, ¬ Apart x size b) := by
  induction l generalizing addr with
  | nil =>
    have hcases : findGapFrom size addr [] = if addr + size ≤ vmallocEnd then addr else 0 := by
      unfold findGapFrom wrap
      split_ifs <;> unfold vmallocEnd wordSize at * <;> omega
    rw [hcases]
    split_ifs with hfit
    · exact ⟨fun _ => ⟨le_rfl, hfit, fun _ h => absurd h not_mem_nil⟩, fun h => by omega⟩
    · exact ⟨fun h => absurd rfl h, fun _ x hx hend => by omega⟩
  | cons b l ih =>
    obtain ⟨⟨hle, hpos, hend⟩, hrest⟩ := forall_mem_cons.mp hl
    obtain ⟨hb, hsorted⟩ := pairwise_cons.mp hsorted
    have hword : wrap (b.vaddr + b.size) = b.vaddr + b.size :=
      wrap_of_lt (by unfold vmallocEnd at hend; omega)
    unfold findGapFrom
    rw [hword, if_pos (by omega : b.vaddr + b.size > addr)]
    split_ifs with hgap
    · refine ⟨fun _ => ⟨le_rfl, by omega, forall_mem_cons.mpr ⟨.inr (by omega), ?_⟩⟩,
        fun h => by omega⟩
      intro c hc
      have hlt := hb c hc
      exact .inr (by omega)
    · obtain ⟨hfound, hnone⟩ := ih ⟨by omega, hend⟩ hsorted fun c hc => ⟨hb c hc, (hrest c hc).2⟩
      refine ⟨fun h => ?_, fun h x hx hxe => ?_⟩
      · obtain ⟨h1, h2, h3⟩ := hfound h
        exact ⟨by omega, h2, forall_mem_cons.mpr ⟨.inl h1, h3⟩⟩
      · by_cases hbx : b.vaddr + b.size ≤ x
        · obtain ⟨c, hc, hmeets⟩ := hnone h x hbx hxe
          exact ⟨c, mem_cons_of_mem _ hc, hmeets⟩
        · refine ⟨b, mem_cons_self, fun hapart => ?_⟩
          unfold Apart at hapart
          omega

lemma Laid.findGap (h : Laid m l) (hsize : size < wordSize) :
    (vmallocFindGap m size l ≠ 0 → Gap m size l (vmallocFindGap m size l)) ∧
      (vmallocFindGap m size l = 0 → ∀ x, ¬ Gap m size l x) := by
  have hstart := m.start_bounds
  obtain ⟨hfound, hnone⟩ := findGapFrom_spec
    ⟨hstart.1, by unfold vmallocEnd; omega⟩ hsize h.sorted
    fun b hb => ⟨(h.inside b hb).1, h.size_pos b hb, (h.inside b hb).2⟩
  refine ⟨hfound, fun hzero x hx => ?_⟩
  obtain ⟨b, hb, hmeets⟩ := hnone hzero x hx.1 hx.2.1
  exact hmeets (hx.2.2 b hb)

lemma mem_insertAfter {b blk : Block} : b ∈ insertAfter blk l ↔ b = blk ∨ b ∈ l := by
  induction l with
  | nil => simp [insertAfter]
  | cons c l ih =>
    unfold insertAfter
    split
    · rw [mem_cons, ih, mem_cons]
      exact or_left_comm
    · exact mem_cons

lemma mem_vmallocListInsert {b blk : Block} :
    b ∈ vmallocListInsert blk l ↔ b = blk ∨ b ∈ l := by
  cases l with
  | nil => simp [vmallocListInsert]
  | cons c l =>
    unfold vmallocListInsert
    dsimp only
    split
    · exact mem_cons
    · rw [mem_cons, mem_insertAfter, mem_cons]
      exact or_left_comm

lemma insertAfter_sorted {blk : Block} (hpos : 0 < blk.size)
    (hsorted : l.Pairwise fun a b => a.vaddr + a.size ≤ b.vaddr)
    (hl : ∀ b ∈ l, 0 < b.size ∧ Apart blk.vaddr blk.size b) :
    (insertAfter blk l).Pairwise fun a b => a.vaddr + a.size ≤ b.vaddr := by
  induction l with
  | nil => exact pairwise_singleton _ _
  | cons c l ih =>
    obtain ⟨⟨hcpos, hc⟩, hrest⟩ := forall_mem_cons.mp hl
    obtain ⟨hcl, hsorted'⟩ := pairwise_cons.mp hsorted
    unfold Apart at hc
    unfold insertAfter
    split
    · refine pairwise_cons.mpr ⟨fun b hb => ?_, ih hsorted' hrest⟩
      rcases mem_insertAfter.mp hb with rfl | hb
      · omega
      · exact hcl b hb
    · refine pairwise_cons.mpr ⟨forall_mem_cons.mpr ⟨by omega, fun b hb => ?_⟩, hsorted⟩
      have hlt := hcl b hb
      omega

lemma Laid.insert (h : Laid m l) {blk : Block} (hpos : 0 < blk.size)
    (hgap : Gap m blk.size l blk.vaddr) : Laid m (vmallocListInsert blk l) where
  sorted := by
    cases l with
    | nil => exact pairwise_singleton _ _
    | cons c l =>
      -- Beyond the test of the first block, the first case is a step of the loop.
      have hc := hgap.2.2 c mem_cons_self
      have hcpos := h.size_pos c mem_cons_self
      have hins := insertAfter_sorted hpos h.sorted fun b hb => ⟨h.size_pos b hb, hgap.2.2 b hb⟩
      unfold Apart at hc
      unfold insertAfter at hins
      unfold vmallocListInsert
      dsimp only
      split at hins
      · rwa [if_neg (by omega)]
      · rwa [if_pos (by omega)]
  size_pos b hb := by
    rcases mem_vmallocListInsert.mp hb with rfl | hb
    · exact hpos
    · exact h.size_pos b hb
  inside b hb := by
    rcases mem_vmallocListInsert.mp hb with rfl | hb
    · exact ⟨hgap.1, hgap.2.1⟩
    · exact h.inside b hb

lemma Laid.allocBlock (h : Laid m l) (a : Answer) {pageOff : Nat} {isIoremap : Bool}
    {r : Option Nat} {l' : List Block} (hsize : 0 < size) (hword : size < wordSize)
    (heq : vmallocAllocBlock m a size pageOff isIoremap l = (r, l')) :
    Laid m l' ∧ ∀ vaddr, r = some vaddr →
      ⟨vaddr, size, pageOff, isIoremap⟩ ∈ l' ∧ vaddr + size ≤ vmallocEnd := by
  unfold vmallocAllocBlock at heq
  dsimp only at heq
  split at heq
  · obtain ⟨rfl, rfl⟩ := Prod.mk.inj heq
    exact ⟨h, fun _ h => nomatch h⟩
  · rename_i hok
    obtain ⟨rfl, rfl⟩ := Prod.mk.inj heq
    have hgap := (h.findGap hword).1 fun h0 => hok (.inl h0)
    refine ⟨h.insert hsize hgap, fun vaddr hv => ?_⟩
    obtain rfl := Option.some.inj hv
    exact ⟨mem_vmallocListInsert.mpr (.inl rfl), hgap.2.1⟩

/-! ## Runs -/

/-- One call, with what the allocators answer to it. -/
inductive Call where
  | vmalloc (a : Answer) (size : Nat)
  | ioremap (a : Answer) (phys size : Nat)
  | vfree (addr : Nat)
  | iounmap (addr : Nat)

def step (m : Layout) (l : List Block) : Call → List Block
  | .vmalloc a size => (vmalloc m a size l).2
  | .ioremap a phys size => (ioremap m a phys size l).2
  | .vfree addr => vfree addr l
  | .iounmap addr => iounmap addr l

/-- The sizes are machine words, and no size that is looked for is rounded up to zero. -/
def Rounds : Call → Prop
  | .vmalloc _ size => size + 4095 < wordSize
  | .ioremap _ phys size => size < wordSize ∧
      (size + phys % pageSize + 4095 < wordSize ∨ wordSize ≤ size + phys % pageSize)
  | .vfree _ | .iounmap _ => True

/-- The bytes from the result on lie in one live block. -/
def Holds (size : Nat) (result : Option Nat × List Block) : Prop :=
  ∀ r, result.1 = some r → ∃ b ∈ result.2, b.vaddr ≤ r ∧ r + size ≤ b.vaddr + b.size

/-- The results lie in live blocks, and the search fails only when there is no gap. -/
def Serves (m : Layout) (l : List Block) : Call → Prop
  | .vmalloc a size => Holds size (vmalloc m a size l) ∧
      (vmallocFindGap m (alignUp size) l = 0 → ∀ x, ¬ Gap m (alignUp size) l x)
  | .ioremap a phys size => Holds size (ioremap m a phys size l) ∧
      (vmallocFindGap m (alignUp (wrap (size + phys % pageSize))) l = 0 →
        ∀ x, ¬ Gap m (alignUp (wrap (size + phys % pageSize))) l x)
  | .vfree _ | .iounmap _ => True

lemma Laid.vmalloc (h : Laid m l) (a : Answer) (hsize : size + 4095 < wordSize) :
    Laid m (vmalloc m a size l).2 ∧ Holds size (vmalloc m a size l) := by
  unfold Vmalloc.vmalloc
  split
  · exact ⟨h, fun _ hr => nomatch hr⟩
  · rename_i hne
    have hround := alignUp_eq hsize
    rcases heq : vmallocAllocBlock m a (alignUp size) 0 false l with ⟨_ | vaddr, l'⟩
    · exact ⟨(h.allocBlock a (by omega) (alignUp_lt size) heq).1, fun _ hr => nomatch hr⟩
    · obtain ⟨hlaid, hnew⟩ := h.allocBlock a (by omega) (alignUp_lt size) heq
      dsimp only
      split
      · refine ⟨hlaid, fun r hr => ?_⟩
        obtain rfl := Option.some.inj hr
        exact ⟨_, (hnew _ rfl).1, le_rfl, by dsimp only; omega⟩
      · exact ⟨hlaid.sublist eraseP_sublist, fun _ hr => nomatch hr⟩

lemma Laid.ioremap (h : Laid m l) (a : Answer) {phys : Nat}
    (hsize : Rounds (.ioremap a phys size)) :
    Laid m (ioremap m a phys size l).2 ∧ Holds size (ioremap m a phys size l) := by
  have hoff : phys % pageSize < 4096 := Nat.mod_lt _ (by decide)
  obtain ⟨hword, hsize⟩ := hsize
  unfold Vmalloc.ioremap
  dsimp only
  split_ifs with hne hspan
  · exact ⟨h, fun _ hr => nomatch hr⟩
  · exact ⟨h, fun _ hr => nomatch hr⟩
  · -- The sum has not wrapped, since it is not below the size.
    have hfit : size + phys % pageSize + 4095 < wordSize := by
      refine hsize.resolve_right fun hbig => hspan ?_
      unfold wrap wordSize at *
      omega
    have hsum : wrap (size + phys % pageSize) = size + phys % pageSize :=
      wrap_of_lt (by unfold wordSize at hfit; omega)
    rw [hsum]
    have hround := alignUp_eq hfit
    rcases heq : vmallocAllocBlock m a (alignUp (size + phys % pageSize)) (phys % pageSize) true l
      with ⟨_ | vaddr, l'⟩
    · exact ⟨(h.allocBlock a (by omega) (alignUp_lt _) heq).1, fun _ hr => nomatch hr⟩
    · obtain ⟨hlaid, hnew⟩ := h.allocBlock a (by omega) (alignUp_lt _) heq
      obtain ⟨hmem, hend⟩ := hnew _ rfl
      refine ⟨hlaid, fun r hr => ⟨_, hmem, ?_⟩⟩
      obtain rfl := Option.some.inj hr
      rw [wrap_of_lt (by unfold vmallocEnd at hend; omega)]
      exact ⟨Nat.le_add_right _ _, by dsimp only; omega⟩

/-- A call with a rounded size that is not zero keeps the layout and serves its caller. -/
lemma Laid.step (h : Laid m l) {c : Call} (hc : Rounds c) :
    Laid m (step m l c) ∧ Serves m l c := by
  cases c with
  | vmalloc a size =>
    obtain ⟨hlaid, hholds⟩ := h.vmalloc a hc
    exact ⟨hlaid, hholds, (h.findGap (alignUp_lt size)).2⟩
  | ioremap a phys size =>
    obtain ⟨hlaid, hholds⟩ := h.ioremap a hc
    exact ⟨hlaid, hholds, (h.findGap (alignUp_lt _)).2⟩
  | vfree addr =>
    refine ⟨?_, trivial⟩
    simp only [Vmalloc.step, vfree]
    split
    · exact h
    · split
      · exact h
      · split
        · exact h
        · exact h.sublist eraseP_sublist
  | iounmap addr =>
    refine ⟨?_, trivial⟩
    simp only [Vmalloc.step, iounmap]
    split
    · exact h
    · exact h.sublist eraseP_sublist

/--
As long as no size is rounded up to zero, the blocks are laid out at every moment, every result lies
in a live block, and a search fails only when there is no gap.
-/
theorem vmalloc_layout (m : Layout) {calls : List Call} (hcalls : ∀ c ∈ calls, Rounds c) :
    (∀ n, Laid m (run (step m) [] (calls.take n))) ∧ RunOk (step m) (Serves m) [] calls := by
  have hnil : Laid m [] :=
    ⟨List.Pairwise.nil, fun _ h => absurd h not_mem_nil, fun _ h => absurd h not_mem_nil⟩
  have hok : RunOk (step m) (fun _ c => Rounds c) [] calls :=
    runOk_of_forall_mem (fun c hc _ => hcalls c hc) []
  have hstep : ∀ l c, Laid m l → Rounds c → Laid m (step m l c) := fun l c hl hc => (hl.step hc).1
  exact ⟨fun n => run_invariant (Laid m) hstep hnil (hok.take n),
    hok.imp (Laid m) hstep (fun l c hl hc => (hl.step hc).2) hnil⟩

/-- A machine with 64 MiB maps one page, and frees it. -/
theorem vmalloc_layout_one :
    (∀ n, Laid ⟨0x4000000, by decide⟩ (run (step ⟨0x4000000, by decide⟩) []
      ([.vmalloc ⟨true, 8⟩ 4096, .vfree 0xC4800000].take n))) ∧
    RunOk (step ⟨0x4000000, by decide⟩) (Serves ⟨0x4000000, by decide⟩) []
      [.vmalloc ⟨true, 8⟩ 4096, .vfree 0xC4800000] :=
  vmalloc_layout ⟨0x4000000, by decide⟩ (forall_mem_cons.mpr
    ⟨show 4096 + 4095 < wordSize by decide, forall_mem_cons.mpr
      ⟨trivial, fun _ h => absurd h not_mem_nil⟩⟩)

/-- A request of `0xFFFFFFFF` bytes is served with a block of no byte at all. -/
theorem vmalloc_rounds_to_zero :
    vmalloc ⟨0x4000000, by decide⟩ ⟨true, 0⟩ 0xFFFFFFFF [] =
      (some 0xC4800000, [⟨0xC4800000, 0, 0, false⟩]) := by
  decide

end LiteKernel.Mm.Vmalloc
