import LiteKernel.Lib.IndexList
import LiteKernel.Lib.Tiling
import LiteKernel.Lib.Word
import LiteKernel.Mm.Bootmem

/-!
# The page allocator of `mm/page_alloc.c` and `mm/mmzone.c`

The two zones keep one free list per order. The lists are threaded through the
array `buddy_next`, their heads and lengths are in `free_area`, and the page
descriptor of the first frame of a free block carries `PG_BUDDY` and the order.
All functions on these data are embedded as they stand, from `init_zones` and
`mem_init` to `alloc_pages` and `free_pages`, with the three passes of
`__alloc_pages_nodemask` over the zone list.

Frame numbers stay below `0x38000`, the page count of low memory, so the sums of
the source do not overflow and are written as sums of natural numbers. Reclaim,
which `__alloc_pages_nodemask` enters when a zone is below its lowest watermark,
is an argument: any sequence of further calls of this file.

Main results:

- Definitions `memInit`, `allocPages`, `freePages`: the calls.
-/

namespace LiteKernel.Mm.PageAlloc

open Lib

/-- `enum zone_type`. -/
inductive ZoneType where
  | dma
  | normal
  deriving DecidableEq, Repr

/-- `enum zone_watermarks`. -/
inductive Watermark where
  | min
  | low
  | high
  deriving DecidableEq, Repr

/-- `MAX_ORDER`, the number of free lists of a zone. -/
abbrev maxOrder : Nat := 11

/-- `MAX_DMA_PFN`. -/
abbrev maxDmaPfn : Nat := 4096

/-- `struct free_area`. -/
structure FreeArea where
  freeList : Int
  nrFree : Nat
  deriving DecidableEq, Repr

/-- `struct zone`. -/
structure Zone where
  startPfn : Nat
  spannedPages : Nat
  managedPages : Nat
  watermark : Watermark → Nat
  freeArea : Nat → FreeArea
  inactiveList : List Nat
  nrInactive : Nat

/-- The end of a zone, `zone->start_pfn + zone->spanned_pages`. -/
def Zone.endPfn (z : Zone) : Nat :=
  z.startPfn + z.spannedPages

/-- `struct page` with the bits of `flags` spelled out. -/
structure Page where
  buddy : Bool
  reserved : Bool
  lru : Bool
  isolated : Bool
  order : Nat
  refcount : Nat
  deriving DecidableEq, Repr

/--
The static data of `mm/page_alloc.c` and `mm/mmzone.c`. No function of the source
reads `owned`: it records the blocks that callers hold.
-/
structure State where
  totalPages : Nat
  buddyMaxOrder : Nat
  buddyNext : Nat → Int
  memMap : Nat → Page
  zone : ZoneType → Zone
  owned : List Block

namespace State

/-- The free list of an order of a zone. -/
def area (s : State) (z : ZoneType) (order : Nat) : FreeArea :=
  (s.zone z).freeArea order

/-- Assignment to the fields of a zone. -/
def setZone (s : State) (z : ZoneType) (f : Zone → Zone) : State :=
  { s with zone := Function.update s.zone z (f (s.zone z)) }

/-- Assignment to the fields of `zone->free_area[order]`. -/
def setArea (s : State) (z : ZoneType) (order : Nat) (f : FreeArea → FreeArea) : State :=
  s.setZone z fun zn =>
    { zn with freeArea := Function.update zn.freeArea order (f (zn.freeArea order)) }

/-- Assignment to `buddy_next[i]`. -/
def setNext (s : State) (i : Nat) (v : Int) : State :=
  { s with buddyNext := Function.update s.buddyNext i v }

/-- Assignment through `pfn_to_page(pfn)`, which is `NULL` beyond the last page. -/
def setPage (s : State) (pfn : Nat) (f : Page → Page) : State :=
  if pfn < s.totalPages then
    { s with memMap := Function.update s.memMap pfn (f (s.memMap pfn)) }
  else s

/-- `pfn_to_zone`. -/
def pfnToZone (s : State) (pfn : Nat) : ZoneType :=
  if (s.zone .dma).spannedPages ≠ 0 ∧ pfn < maxDmaPfn then .dma else .normal

end State

/-! ## Free lists -/

/-- `buddy_list_add`. -/
def buddyListAdd (s : State) (z : ZoneType) (order page : Nat) : State :=
  if page = 0 then s
  else
    let s := s.setNext page (s.area z order).freeList
    let s := s.setArea z order fun a => { freeList := page, nrFree := a.nrFree + 1 }
    s.setPage page fun pg => { pg with buddy := true, order := order }

/--
`buddy_list_remove`. A list without repetition is not longer than the array, so
a walk of more steps than `total_pages` would never end.
-/
def buddyListRemove (s : State) (z : ZoneType) (order page : Nat) : State :=
  match findPrev s.buddyNext page (s.totalPages + 1) (-1) (s.area z order).freeList with
  | none => s
  | some prev =>
      let after := s.buddyNext page
      let s :=
        if prev < 0 then s.setArea z order fun a => { a with freeList := after }
        else s.setNext prev.toNat after
      let s := s.setNext page (-1)
      let s := s.setArea z order fun a => { a with nrFree := a.nrFree - 1 }
      s.setPage page fun pg => { pg with buddy := false }

/-- The assignments with which `buddy_alloc` takes the head of a list. -/
def buddyPop (s : State) (z : ZoneType) (order page : Nat) : State :=
  let after := s.buddyNext page
  let s := s.setArea z order fun a => { freeList := after, nrFree := a.nrFree - 1 }
  let s := s.setNext page (-1)
  s.setPage page fun pg => { pg with buddy := false }

/-- The loop `while (o > order)` of `buddy_alloc`, which gives back upper halves. -/
def buddySplit (z : ZoneType) (page order : Nat) : Nat → State → State
  | 0, s => s
  | o + 1, s =>
      if o + 1 > order then
        buddySplit z page order o (buddyListAdd s z o (page + 2 ^ o))
      else s

/-- The loop of `buddy_alloc` over the orders from `o` on. -/
def buddyAllocFrom (z : ZoneType) (order : Nat) : Nat → Nat → State → Option Nat × State
  | 0, _, s => (none, s)
  | n + 1, o, s =>
      let page := (s.area z o).freeList
      if page < 0 then
        buddyAllocFrom z order n (o + 1) s
      else
        let s := buddyPop s z o page.toNat
        if page = 0 then
          buddyAllocFrom z order n (o + 1) s
        else
          let s := buddySplit z page.toNat order o s
          (some page.toNat,
            s.setPage page.toNat fun pg => { pg with buddy := false, order := order })

/-- `buddy_alloc`. -/
def buddyAlloc (s : State) (z : ZoneType) (order : Nat) : Option Nat × State :=
  buddyAllocFrom z order (s.buddyMaxOrder + 1 - order) order s

/-- The merging loop of `buddy_free_block`, with the number of orders that are left. -/
def buddyMerge (z : ZoneType) : Nat → Nat → Nat → State → Nat × Nat × State
  | 0, page, order, s => (page, order, s)
  | n + 1, page, order, s =>
      let buddy := page ^^^ 2 ^ order
      let newBase := if buddy < page then buddy else page
      if buddy < (s.zone z).startPfn ∨ buddy ≥ (s.zone z).endPfn then (page, order, s)
      else if newBase + 2 ^ (order + 1) > (s.zone z).endPfn then (page, order, s)
      else if ¬ (buddy < s.totalPages ∧ (s.memMap buddy).buddy = true ∧
          (s.memMap buddy).order = order) then (page, order, s)
      else buddyMerge z n newBase (order + 1) (buddyListRemove s z order buddy)

/-- The loop `while (order > 0 && page + (1u << order) > zone_end)`. -/
def buddyShrink (zoneEnd page : Nat) : Nat → Nat
  | 0 => 0
  | order + 1 => if page + 2 ^ (order + 1) > zoneEnd then buddyShrink zoneEnd page order else order + 1

/-- `buddy_free_block`. -/
def buddyFreeBlock (s : State) (z : ZoneType) (page order : Nat) : State :=
  let r := buddyMerge z (s.buddyMaxOrder - order) page order s
  buddyListAdd r.2.2 z (buddyShrink (s.zone z).endPfn r.1 r.2.1) r.1

/-! ## Allocation -/

/-- `zone_free_pages`. -/
def zoneFreePages (s : State) (z : ZoneType) : Nat :=
  ((List.range maxOrder).map fun order => (s.area z order).nrFree * 2 ^ order).sum

/-- `zone_watermark_ok`. -/
def zoneWatermarkOk (s : State) (z : ZoneType) (order : Nat) (mark : Watermark) : Bool :=
  if zoneFreePages s z < 2 ^ order then false
  else decide (zoneFreePages s z - 2 ^ order > (s.zone z).watermark mark)

/-- The loop that gives every frame of a new block its first reference. -/
def setRefcounts : Nat → Nat → State → State
  | 0, _, s => s
  | n + 1, frame, s => setRefcounts n (frame + 1) (s.setPage frame fun pg => { pg with refcount := 1 })

/--
One round of the loop over the zones. The pass is named by the watermark it
checks; only the last one, for `WMARK_MIN`, reclaims.
-/
def allocZone (reclaim : ZoneType → State → State) (order : Nat) (mark : Watermark)
    (z : ZoneType) (s : State) : Option Nat × State :=
  if zoneWatermarkOk s z order mark then
    match buddyAlloc s z order with
    | (none, s) => (none, s)
    | (some frame, s) => (some frame, setRefcounts (2 ^ order) frame s)
  else
    (none, if mark = .min then reclaim z s else s)

/-- The rounds of `__alloc_pages_nodemask`, up to the first that finds a block. -/
def allocRounds (reclaim : ZoneType → State → State) (order : Nat) :
    List (Watermark × ZoneType) → State → Option Nat × State
  | [], s => (none, s)
  | (mark, z) :: rounds, s =>
      match allocZone reclaim order mark z s with
      | (some frame, s) => (some frame, s)
      | (none, s) => allocRounds reclaim order rounds s

/-- `default_zonelist_for_gfp` on the lists made by `build_all_zonelists`. -/
def zonelist (s : State) (gfp : Nat) : List ZoneType :=
  let dma := if (s.zone .dma).spannedPages ≠ 0 then [ZoneType.dma] else []
  let normal := if (s.zone .normal).spannedPages ≠ 0 then [ZoneType.normal] else []
  if gfp.testBit 0 then dma else dma ++ normal

/-- `__alloc_pages_nodemask` with the default zone list, once `buddy_ready` is set. -/
def allocPagesNodemask (reclaim : ZoneType → State → State) (gfp order : Nat) (s : State) :
    Option Nat × State :=
  let rounds := [Watermark.high, .low, .min].flatMap fun mark =>
    (zonelist s gfp).map fun z => (mark, z)
  allocRounds reclaim order rounds s

/-- The retries of `alloc_pages`. -/
def allocPagesTries (reclaim : ZoneType → State → State) (gfp order : Nat) :
    Nat → State → Option Nat × State
  | 0, s => (none, s)
  | tries + 1, s =>
      match allocPagesNodemask reclaim gfp order s with
      | (none, s) => (none, s)
      | (some pfn, s) =>
          if pfn = 0 then
            allocPagesTries reclaim gfp order tries
              (s.setPage 0 fun pg => { pg with reserved := true, refcount := 1 })
          else (some (pfn * pageSize), s)

/-- `alloc_pages`: the physical address of the block, or nothing. -/
def allocPages (reclaim : ZoneType → State → State) (gfp order : Nat) (s : State) :
    Option Nat × State :=
  allocPagesTries reclaim gfp order 4 s

/-! ## Release -/

/-- `lru_add_inactive`. -/
def lruAddInactive (s : State) (pfn : Nat) : State :=
  if ¬ pfn < s.totalPages then s
  else
    let pg := s.memMap pfn
    if pg.buddy || pg.reserved || pg.lru || pg.isolated then s
    else
      let s := s.setZone (s.pfnToZone pfn) fun z =>
        { z with inactiveList := z.inactiveList ++ [pfn], nrInactive := z.nrInactive + 1 }
      s.setPage pfn fun pg => { pg with lru := true }

/-- `lru_del`. -/
def lruDel (s : State) (pfn : Nat) : State :=
  if ¬ (s.memMap pfn).lru then s
  else
    let s := s.setZone (s.pfnToZone pfn) fun z =>
      { z with inactiveList := z.inactiveList.erase pfn, nrInactive := z.nrInactive - 1 }
    s.setPage pfn fun pg => { pg with lru := false }

/-- One round of the loop of `free_pages`: drop a reference, and say whether it was the last. -/
def putFrame (s : State) (idx : Nat) : Bool × State :=
  if ¬ idx < s.totalPages then (true, s)
  else
    let s := lruDel s idx
    if (s.memMap idx).refcount > 1 then
      (false, s.setPage idx fun pg => { pg with refcount := pg.refcount - 1 })
    else if (s.memMap idx).refcount = 1 then
      (true, s.setPage idx fun pg => { pg with refcount := 0 })
    else (true, s)

/-- The loop of `free_pages` over the frames of the block. -/
def putFrames : Nat → Nat → State → Bool × State
  | 0, _, s => (true, s)
  | n + 1, idx, s =>
      let r := putFrame s idx
      let rest := putFrames n (idx + 1) r.2
      (r.1 && rest.1, rest.2)

/-- `free_pages`; an error is a panic with its message. -/
def freePages (s : State) (addr order : Nat) : Except String State :=
  if addr ≥ 0xC0000000 then
    .error "PAGE_ALLOC PANIC: free_pages expects phys address (got vaddr)"
  else if ¬ PageAligned addr then
    .error "PAGE_ALLOC PANIC: free_pages expects page-aligned phys address"
  else
    let frame := addr / pageSize
    if s.totalPages ≠ 0 ∧ frame ≥ s.totalPages then
      .error "PAGE_ALLOC PANIC: free_pages frame out of range"
    else
      let r := putFrames (2 ^ order) frame s
      if r.1 then .ok (buddyFreeBlock r.2 (r.2.pfnToZone frame) frame order) else .ok r.2

/-! ## Boot -/

/-- An entry of the memory map of the boot loader. -/
structure MmapEntry where
  available : Bool
  addrLow : UInt32
  lenLow : UInt32

/--
What `mem_init` finds: the page count of low memory, which is positive and at most
`0x38000`, the memory map and the regions reserved by the boot allocator.
-/
structure BootInfo where
  totalPages : Nat
  mmap : List MmapEntry
  reserved : List Bootmem.Region
  totalPages_pos : 0 < totalPages
  totalPages_le : totalPages ≤ 0x38000

/-- `init_zones` for one zone of `n` pages from `start` on. -/
def initZone (start n : Nat) : Zone where
  startPfn := start
  spannedPages := n
  managedPages := 0
  watermark
    | .min => n / 64
    | .low => n / 32
    | .high => n / 16
  freeArea _ := { freeList := -1, nrFree := 0 }
  inactiveList := []
  nrInactive := 0

/-- The loop of `free_area_init_core` that lowers `buddy_max_order`. -/
def lowerMaxOrder (total : Nat) : Nat → Nat
  | 0 => 0
  | k + 1 => if 2 ^ (k + 1) > total then lowerMaxOrder total k else k + 1

/-- The state that `init_zones` and `free_area_init_core` leave. -/
def initZones (b : BootInfo) : State where
  totalPages := b.totalPages
  buddyMaxOrder := lowerMaxOrder b.totalPages (maxOrder - 1)
  buddyNext _ := -1
  memMap _ := { buddy := false, reserved := true, lru := false, isolated := false,
                order := 0, refcount := 0 }
  zone
    | .dma => initZone 0 (min b.totalPages maxDmaPfn)
    | .normal => initZone (min b.totalPages maxDmaPfn) (b.totalPages - min b.totalPages maxDmaPfn)
  owned := []

/-- The loop of `mem_init` over the pages of one entry of the memory map. -/
def unreservePages (regions : List Bootmem.Region) : Nat → Nat → State → State
  | 0, _, s => s
  | n + 1, pfn, s =>
      if pfn ≥ s.totalPages then s
      else if Bootmem.bootmemIsReserved regions (pfn * pageSize) pageSize then
        unreservePages regions n (pfn + 1) s
      else
        unreservePages regions n (pfn + 1) (s.setPage pfn fun pg => { pg with reserved := false })

/-- The loop of `mem_init` over the memory map. -/
def unreserve (regions : List Bootmem.Region) : List MmapEntry → State → State
  | [], s => s
  | e :: entries, s =>
      if e.available ∧ ¬ e.addrLow.toNat < 0x100000 then
        unreserve regions entries
          (unreservePages regions (e.lenLow.toNat / pageSize) (e.addrLow.toNat / pageSize) s)
      else unreserve regions entries s

/-- The loop of `mem_init` that hands the frames to their zones. -/
def handFrames : Nat → Nat → State → State
  | 0, _, s => s
  | n + 1, i, s =>
      if (s.memMap i).reserved then handFrames n (i + 1) s
      else
        let z := s.pfnToZone i
        let s := s.setZone z fun zn => { zn with managedPages := zn.managedPages + 1 }
        if (s.memMap i).buddy then handFrames n (i + 1) s
        else handFrames n (i + 1) (buddyFreeBlock s z i 0)

/-- `setup_per_zone_wmarks` for one zone. -/
def setupWmarks (z : Zone) : Zone :=
  { z with
    watermark := fun
      | .min => z.managedPages / 64
      | .low => z.managedPages / 32
      | .high => z.managedPages / 16 }

/-- `mem_init` after `init_zones` and `free_area_init_core`. -/
def memInit (b : BootInfo) : State :=
  let s := unreserve b.reserved b.mmap (initZones b)
  let s := s.setZone .dma fun z => { z with managedPages := 0 }
  let s := s.setZone .normal fun z => { z with managedPages := 0 }
  let s := handFrames s.totalPages 0 s
  (s.setZone .dma setupWmarks).setZone .normal setupWmarks

/-! ## Sequences of calls -/

/--
A call of the allocator by the rest of the kernel. An allocation says what reclaim
does in each zone if it is entered; `free i` is issued by the owner of the
`i`-th block that is held.
-/
inductive Call where
  | alloc (gfp order : Nat) (reclaim : ZoneType → List Call)
  | free (i : Nat)
  | lruAdd (pfn : Nat)

/-- Record the block that an allocation returned. -/
def own (order : Nat) : Option Nat × State → State
  | (none, s) => s
  | (some addr, s) => { s with owned := ⟨addr / pageSize, order⟩ :: s.owned }

/-- The owner of a block gives it back; after a panic nothing happens any more. -/
def disown (s : State) (i : Nat) : State :=
  match s.owned[i]? with
  | none => s
  | some b =>
      match freePages s (b.base * pageSize) b.order with
      | .error _ => s
      | .ok s => { s with owned := s.owned.eraseIdx i }

mutual

/-- The effect of one call, with the calls that reclaim makes inside it. -/
def call : Call → State → State
  | .alloc gfp order reclaim, s => own order (allocPages (fun z s => calls (reclaim z) s) gfp order s)
  | .free i, s => disown s i
  | .lruAdd pfn, s => lruAddInactive s pfn

/-- The effect of a sequence of calls. -/
def calls : List Call → State → State
  | [], s => s
  | c :: cs, s => calls cs (call c s)

end

end LiteKernel.Mm.PageAlloc
