import LiteKernel.Mm.Vma
import Mathlib.Data.Finset.Insert
import Mathlib.Logic.Function.Basic

/-!
# Page tables, page references and swap slots

The model of the page-table accessors of `mm/memory.c`, of the reference counts
of `mm/page_alloc.c`, of the reverse mappings of `mm/rmap.c` and of the swap
slots of `mm/swap.c`.

Physical memory is typed: a frame has its contents as a page directory, as a
page table and as a page of bytes side by side, and every function uses the
contents its C counterpart casts the frame to. Frames and virtual pages are
numbers, so a physical address is a frame number times the page size. An entry
of a directory or of a table is the record of its frame number and of the bits
the kernel gives a meaning to.

Which frame the page allocator hands out is left open: the state carries the
answers to all future calls, and an answer is only accepted if the frame is free
at that moment. An allocation may first reclaim memory, that is swap out pages;
which ones is part of the answer. The state also counts the calls that had no
answer, so that it can be said that all allocations of a run succeed.

Main results:

- Definitions `mapPageEx`, `swapOutPage`, `pageAddAnonRmap`: the functions.
-/

namespace LiteKernel.Mm

open Function Lib

/-! ## Entries -/

/-- The bits `PTE_PRESENT`, `PTE_READ_WRITE`, `PTE_USER`, `PTE_CACHE_DISABLE` and `PTE_COW`. -/
structure PteFlags where
  present : Bool
  readWrite : Bool
  user : Bool
  cacheDisable : Bool
  cow : Bool
  deriving DecidableEq, Repr

/-- An entry of a page directory or of a page table. -/
structure Pte extends PteFlags where
  pfn : Nat
  deriving DecidableEq, Repr

/-- No bit is set. -/
def PteFlags.none : PteFlags := ⟨false, false, false, false, false⟩

/-- `PTE_PRESENT | PTE_USER`, and `PTE_READ_WRITE` on demand. -/
def PteFlags.userPage (write : Bool) : PteFlags := ⟨true, write, true, false, false⟩

/-- The entry `0`. -/
def Pte.zero : Pte := { PteFlags.none with pfn := 0 }

/-- The number of entries of a directory or of a table. -/
abbrev ptrsPerPte : Nat := 1024

/-- The directory entries, and the pages, below `TASK_SIZE`. -/
abbrev userPdes : Nat := 768
abbrev userPages : Nat := 0xC0000

/-! ## The state -/

/-- The fields of `struct page` that count and find the mappings of a frame. -/
structure Page where
  refcount : Nat
  mapcount : Nat
  mapMm : Option Nat
  mapVaddr : Nat
  rmapList : List (Nat × Nat)

/--
What the reclaim of one allocation does: the frames it swaps out, one after the
other, and for each of them what the reclaim of the allocation in
`swap_out_page` does.
-/
inductive Reclaim where
  | done
  | swapOut (pfn : Nat) (nested rest : Reclaim)
  deriving DecidableEq

/-- The answers of the page allocator, by the number of the call. -/
structure Env where
  frame : Nat → Option Nat
  reclaim : Nat → Reclaim
  heapReclaim : Nat → Reclaim

/-- A page of bytes. -/
abbrev Bytes : Type := Nat → UInt8

/-- The memory management state; an `mm_struct` is named by the `kmalloc` call it comes from. -/
structure Vm where
  page : Nat → Page
  free : Nat → Bool
  dir : Nat → Nat → Pte
  table : Nat → Nat → Pte
  data : Nat → Bytes
  slot : Nat → Option Bytes
  live : Finset Nat
  mm : Nat → MmStruct
  kernelDir : Nat
  pageDirectory : Nat
  ctx : VmaCtx
  calls : Nat
  failures : Nat
  env : Env

namespace Vm

def setPage (s : Vm) (f : Nat) (g : Page → Page) : Vm :=
  { s with page := update s.page f (g (s.page f)) }

def setDirEntry (s : Vm) (d i : Nat) (e : Pte) : Vm :=
  { s with dir := update s.dir d (update (s.dir d) i e) }

def setTableEntry (s : Vm) (t j : Nat) (e : Pte) : Vm :=
  { s with table := update s.table t (update (s.table t) j e) }

def setData (s : Vm) (f : Nat) (b : Bytes) : Vm :=
  { s with data := update s.data f b }

def setMm (s : Vm) (m : Nat) (g : MmStruct → MmStruct) : Vm :=
  { s with mm := update s.mm m (g (s.mm m)) }

/-! ## References to frames -/

/-- `free_page`; the frame goes back to the allocator with its last reference. -/
def freePage (s : Vm) (f : Nat) : Vm :=
  if (s.page f).refcount > 1 then
    s.setPage f fun pg => { pg with refcount := pg.refcount - 1 }
  else
    { s.setPage f fun pg => { pg with refcount := 0 } with free := update s.free f true }

/-! ## Walking the tables -/

/-- `get_pte_raw` for a page number: the entry `0` where there is no table. -/
def pte (s : Vm) (d v : Nat) : Pte :=
  if (s.dir d (v / ptrsPerPte)).present then
    s.table (s.dir d (v / ptrsPerPte)).pfn (v % ptrsPerPte)
  else Pte.zero

def getPteRaw (s : Vm) (d va : Nat) : Pte :=
  s.pte d (va / pageSize)

/-- The entry if it is present and `0` otherwise. -/
def getPteFlags (s : Vm) (d va : Nat) : Pte :=
  if (s.pte d (va / pageSize)).present then s.pte d (va / pageSize) else Pte.zero

/-- `set_pte_raw` for a page number. -/
def setPte (s : Vm) (d v : Nat) (e : Pte) : Vm :=
  if (s.dir d (v / ptrsPerPte)).present then
    s.setTableEntry (s.dir d (v / ptrsPerPte)).pfn (v % ptrsPerPte) e
  else s

def setPteRaw (s : Vm) (d va : Nat) (e : Pte) : Vm :=
  s.setPte d (va / pageSize) e

/-- Set the user bit of the directory entry for a page. -/
def setPdeUser (s : Vm) (d v : Nat) : Vm :=
  s.setDirEntry d (v / ptrsPerPte) { s.dir d (v / ptrsPerPte) with user := true }

def setPteFlags (s : Vm) (d va : Nat) (flags : PteFlags) : Vm :=
  let v := va / pageSize
  if (s.dir d (v / ptrsPerPte)).present then
    let s := if flags.user then s.setPdeUser d v else s
    if (s.pte d v).present then s.setPte d v { flags with pfn := (s.pte d v).pfn } else s
  else s

def unmapPagePgd (s : Vm) (d va : Nat) : Vm :=
  if (s.pte d (va / pageSize)).present then s.setPte d (va / pageSize) Pte.zero else s

/-- The frame a page of a directory is mapped to: `virt_to_phys_pgd` without the offset. -/
def virtToPfn (s : Vm) (d va : Nat) : Option Nat :=
  if (s.pte d (va / pageSize)).present then some (s.pte d (va / pageSize)).pfn else none

/-! ## Swap slots -/

/-- `SWAP_SLOTS`. -/
abbrev swapSlots : Nat := 64

end Vm

def swapPteEncode (slot : Nat) : Pte :=
  { PteFlags.none with pfn := slot + 1 }

def swapPteDecode (e : Pte) : Option Nat :=
  if e.present then none
  else if e.pfn = 0 then none
  else if e.pfn - 1 ≥ Vm.swapSlots then none
  else some (e.pfn - 1)

namespace Vm

def swapFreeSlot (s : Vm) (slot : Nat) : Vm :=
  if slot ≥ swapSlots then s else { s with slot := update s.slot slot none }

/-- The first slot that is not used. -/
def findSlot (s : Vm) : Option Nat :=
  (List.range swapSlots).find? fun i => (s.slot i).isNone

end Vm

/-! ## Reverse mappings -/

namespace Page

/-- The page has a reverse mapping for an address of an `mm_struct`. -/
def HasRmap (pg : Page) (m va : Nat) : Prop :=
  (pg.mapMm = some m ∧ pg.mapVaddr = va) ∨ (m, va) ∈ pg.rmapList

instance (pg : Page) (m va : Nat) : Decidable (pg.HasRmap m va) :=
  inferInstanceAs (Decidable (_ ∨ _))

/-- The first reverse mapping of a page. -/
def firstRmap (m va : Nat) (pg : Page) : Page :=
  { pg with mapMm := some m, mapVaddr := va, mapcount := 1 }

/-- A further reverse mapping in a list node. -/
def pushRmap (m va : Nat) (pg : Page) : Page :=
  { pg with
    rmapList := (m, va) :: pg.rmapList
    mapcount := if pg.mapcount < 0xFFFF then pg.mapcount + 1 else pg.mapcount }

/-- What `page_remove_rmap` does to the page. -/
def removeRmap (m va : Nat) (pg : Page) : Page :=
  if pg.mapcount = 0 then pg
  else if pg.mapMm = some m ∧ pg.mapVaddr = va then
    if pg.mapcount = 1 then { pg with mapMm := none, mapVaddr := 0, mapcount := 0 }
    else
      match pg.rmapList with
      | node :: rest =>
        { pg with
          rmapList := rest
          mapMm := some node.1
          mapVaddr := node.2
          mapcount := pg.mapcount - 1 }
      | [] => { pg with mapMm := none, mapVaddr := 0, mapcount := pg.mapcount - 1 }
  else if (m, va) ∈ pg.rmapList then
    { pg with rmapList := pg.rmapList.erase (m, va), mapcount := pg.mapcount - 1 }
  else pg

end Page

namespace Vm

def pageRemoveRmap (s : Vm) (m va f : Nat) : Vm :=
  s.setPage f (Page.removeRmap m va)

/-! ## Swapping out -/

/--
`swap_out_page` on the frame `p`: whether it succeeded, and the state after
it. The argument `nested` is what its `kmalloc` reclaims.
-/
def swapOutPage (nested : Vm → Vm) (s : Vm) (p : Nat) : Bool × Vm :=
  if (s.page p).mapcount ≠ 1 then (false, s)
  else
    match (s.page p).mapMm with
    | none => (false, s)
    | some m =>
      if (s.page p).mapVaddr ≥ taskSize then (false, s)
      else if (s.page p).rmapList ≠ [] then (false, s)
      else
        match s.findSlot with
        | none => (false, s)
        | some slot =>
          let pte := s.getPteFlags (s.mm m).pgd (s.page p).mapVaddr
          if ¬ pte.present then (false, s)
          else
            let s := nested s
            match s.ctx.kmalloc with
            | (none, c) => (false, { s with ctx := c })
            | (some _, c) =>
              let s := { s with ctx := c }
              let buf := s.data pte.pfn
              -- the fields of the page are read again after the allocation
              match (s.page p).mapMm with
              | none => (false, s)
              | some m =>
                let va := (s.page p).mapVaddr
                let s := s.setPteRaw (s.mm m).pgd va (swapPteEncode slot)
                let s := s.pageRemoveRmap m va pte.pfn
                let s := s.freePage pte.pfn
                (true, { s with slot := update s.slot slot (some buf) })

/-- The reclaim of an allocation: the pages swapped out by `shrink_zone`. -/
def runReclaim : Reclaim → Vm → Vm
  | .done, s => s
  | .swapOut p nested rest, s => runReclaim rest (s.swapOutPage (runReclaim nested) p).2

/-! ## Allocation -/

/-- The frame leaves the allocator with one reference. -/
def takeFrame (s : Vm) (f : Nat) : Vm :=
  { s.setPage f fun pg => { pg with refcount := 1 } with free := update s.free f false }

/-- The answer of the allocator to the next call; frame `0` is never handed out. -/
def nextFrame (s : Vm) : Option Nat × Vm :=
  match s.env.frame s.calls with
  | some f =>
    if f ≠ 0 ∧ s.free f then (some f, { s.takeFrame f with calls := s.calls + 1 })
    else (none, { s with calls := s.calls + 1, failures := s.failures + 1 })
  | none => (none, { s with calls := s.calls + 1, failures := s.failures + 1 })

def allocPage (s : Vm) : Option Nat × Vm :=
  (s.runReclaim (s.env.reclaim s.calls)).nextFrame

/--
`kmalloc` on behalf of the page-table code. A frame that it takes for a slab stays marked as free,
so that `nextFrame` has more answers than the allocator, never fewer.
-/
def kmalloc (s : Vm) : Option Nat × Vm :=
  let s := s.runReclaim (s.env.heapReclaim s.ctx.heap.next)
  let r := s.ctx.kmalloc
  (r.1, { s with ctx := r.2 })

def pageAddAnonRmap (s : Vm) (m va f : Nat) : Vm :=
  if (s.page f).mapcount = 0 then s.setPage f (Page.firstRmap m va)
  else if (s.page f).HasRmap m va then s
  else
    match s.kmalloc with
    | (none, s) => s
    | (some _, s) => s.setPage f (Page.pushRmap m va)

/-! ## Mapping -/

/-- An empty table for a directory entry. -/
def installTable (s : Vm) (d i t : Nat) (user : Bool) : Vm :=
  { s with table := update s.table t fun _ => Pte.zero }.setDirEntry d i
    { present := true, readWrite := true, user := user, cacheDisable := false, cow := false,
      pfn := t }

/-- The first half of `map_page_ex`: whether there is a table for the page. -/
def ensureTable (s : Vm) (d v : Nat) (user : Bool) : Bool × Vm :=
  if (s.dir d (v / ptrsPerPte)).present then (true, if user then s.setPdeUser d v else s)
  else
    match s.allocPage with
    | (none, s) => (false, s)
    | (some t, s) => (true, s.installTable d (v / ptrsPerPte) t user)

/-- `map_page_ex` on a directory; without memory for a table nothing is mapped. -/
def mapPageEx (s : Vm) (d f va : Nat) (flags : PteFlags) : Vm :=
  match s.ensureTable d (va / pageSize) flags.user with
  | (false, s) => s
  | (true, s) => s.setPte d (va / pageSize) { flags with pfn := f }

/-- A frame becomes a copy of the kernel's directory. -/
def cloneDir (s : Vm) (d : Nat) : Vm :=
  { s with dir := update s.dir d (s.dir s.kernelDir) }

/-- The new directory, if there is memory for it. -/
def pgdCloneKernel (s : Vm) : Option Nat × Vm :=
  match s.allocPage with
  | (none, s) => (none, s)
  | (some d, s) => (some d, s.cloneDir d)

def switchPgd (s : Vm) (d : Nat) : Vm :=
  { s with pageDirectory := d }

/-- A store of the kernel to a whole page through the current directory. -/
def fillPage (s : Vm) (va : Nat) (b : Bytes) : Vm :=
  match s.virtToPfn s.pageDirectory va with
  | some f => s.setData f b
  | none => s

/-! ## Swapping in -/

/-- The outcome of `swap_in_mm` and of the fault handlers: `1`, `0` and `-1`. -/
inductive Outcome where
  | handled
  | notHandled
  | failed
  deriving DecidableEq, Repr

def swapInMm (s : Vm) (m va : Nat) : Outcome × Vm :=
  if va ≥ taskSize then (.notHandled, s)
  else
    match swapPteDecode (s.getPteRaw (s.mm m).pgd va) with
    | none => (.notHandled, s)
    | some slot =>
      match s.slot slot with
      | none => (.notHandled, s)
      | some _ =>
        match s.allocPage with
        | (none, s) => (.failed, s)
        | (some f, s) =>
          let flags := PteFlags.userPage (vmaAllows (s.mm m).mmap va true false)
          let s := s.mapPageEx (s.mm m).pgd f va flags
          -- the slot is read when the bytes are copied
          let s := s.fillPage va ((s.slot slot).getD fun _ => 0)
          let s := s.pageAddAnonRmap m va f
          (.handled, s.swapFreeSlot slot)

end Vm

end LiteKernel.Mm
