import LiteKernel.Lib.IndexList
import LiteKernel.Lib.Run
import LiteKernel.Lib.Word
import Mathlib.Data.List.ReduceOption

/-!
# The kernel heap of `mm/slab.c`

Small objects come from nine caches. A slab is a page that one cache has cut into objects of its
size; the free ones are linked through their first words. Slabs have their descriptors in a
static pool, and `slab_map` finds the slab of an address. Larger requests are served by blocks of
pages with a header.

The list of the slabs of a cache and the list of free descriptors, which the source links through
`next`, are lists of descriptor numbers, and `slabMap` is the part of `slab_map` below
`slab_pages`. Memory is a function from addresses to words. What the page allocator answers is an
argument of each call: how many slabs its reclaim takes back first, and which block it hands out,
if any. It never hands out a page that the heap still holds.

Main results:

- Definitions `kmalloc`, `kfree`, `slabReclaimOne`: the calls.
-/

namespace LiteKernel.Mm.Slab

open Function Lib

/-- `SLAB_MAX_PAGES`, `SLAB_MAX_CACHE`, `LARGE_MAGIC` and `sizeof(struct large_hdr)`. -/
abbrev slabMaxPages : Nat := 4096
abbrev slabMaxCache : Nat := 9
abbrev largeMagic : Nat := 0x4C415247
abbrev largeHdrSize : Nat := 16

/-- `PAGE_OFFSET`, and the number of pages of low memory that are mapped there. -/
abbrev pageOffset : Nat := 0xC0000000
abbrev lowPages : Nat := 0x38000

/-- `cache_sizes`. -/
def cacheSize (i : Nat) : Nat :=
  2 ^ (i + 3)

/-- `struct slab` without its link; the address `0` is `NULL`. -/
structure Desc where
  freelist : Nat
  inuse : Nat
  total : Nat
  vaddr : Nat
  cache : Option Nat
  deriving DecidableEq, Repr

/--
The static data of `mm/slab.c` and the memory. No function of the source reads `held`, the
frames that the heap has from the page allocator, or `live`, the pointers that callers have
with the sizes they asked for.
-/
structure State where
  slabPool : Nat → Desc
  slabFreeList : List Nat
  slabs : Nat → List Nat
  slabMap : List (Option Nat)
  mem : Nat → Nat
  held : Nat → Bool
  live : List (Nat × Nat)

/--
The answer of the page allocator to one call, with the number of slabs that its reclaim takes
back. A reclaim that calls `kmalloc` itself, for the buffer of `swap_out_page`, is left out.
-/
structure Answer where
  reclaims : Nat
  frame : Option Nat

namespace State

def setSlab (s : State) (d : Nat) (g : Desc → Desc) : State :=
  { s with slabPool := update s.slabPool d (g (s.slabPool d)) }

def setWord (s : State) (addr v : Nat) : State :=
  { s with mem := update s.mem addr v }

/-- The block of `2 ^ order` frames from `f` on is handed out, or comes back. -/
def setHeld (s : State) (f order : Nat) (b : Bool) : State :=
  { s with held := fun g => if f ≤ g ∧ g < f + 2 ^ order then b else s.held g }

end State

/-! ## Reclaim -/

/-- The test of `slab_reclaim_one` on a slab. -/
def State.reclaimable (s : State) (d : Nat) : Bool :=
  decide ((s.slabPool d).inuse = 0) && decide ((s.slabPool d).vaddr ≠ 0)

/-- The first slab without objects in use, and its cache. -/
def findEmpty (s : State) : Option (Nat × Nat) :=
  (List.range slabMaxCache).findSome? fun i => ((s.slabs i).find? s.reclaimable).map fun d => (i, d)

/-- The page of a slab and its descriptor are given back; its entry of `slab_map` becomes `NULL`. -/
def reclaimSlab (s : State) (i d : Nat) : State :=
  let s := { s with
    slabs := update s.slabs i ((s.slabs i).erase d)
    slabMap := s.slabMap.replace (some d) none }
  let s := s.setHeld (((s.slabPool d).vaddr - pageOffset) / pageSize) 0 false
  let s := s.setSlab d fun x => { x with vaddr := 0, cache := none }
  { s with slabFreeList := d :: s.slabFreeList }

/-- `slab_reclaim_one`. -/
def slabReclaimOne (s : State) : Bool × State :=
  match findEmpty s with
  | none => (false, s)
  | some (i, d) => (true, reclaimSlab s i d)

/-! ## Allocation -/

/-- `alloc_pages`, whose reclaim takes back slabs; the physical address of the block. -/
def allocPages (a : Answer) (order : Nat) (s : State) : Option Nat × State :=
  let s := (fun s => (slabReclaimOne s).2)^[a.reclaims] s
  match a.frame with
  | none => (none, s)
  | some f =>
    if 0 < f ∧ f + 2 ^ order ≤ lowPages ∧ ∀ g < f + 2 ^ order, f ≤ g → s.held g = false then
      (some (f * pageSize), s.setHeld f order true)
    else (none, s)

def slabAllocMeta (s : State) : Option Nat × State :=
  match s.slabFreeList with
  | [] => (none, s)
  | d :: rest =>
    (some d, { s with slabFreeList := rest }.setSlab d fun _ => ⟨0, 0, 0, 0, none⟩)

def slabAllocPage (a : Answer) (s : State) (d : Nat) : Option Nat × State :=
  if s.slabMap.length ≥ slabMaxPages then (none, s)
  else
    match allocPages a 0 s with
    | (none, s) => (none, s)
    | (some phys, s) =>
      let s := s.setSlab d fun x => { x with vaddr := phys + pageOffset }
      (some (phys + pageOffset), { s with slabMap := s.slabMap ++ [some d] })

/-- One round of the loop of `slab_init_objects`. -/
def initObject (d size : Nat) (s : State) (i : Nat) : State :=
  let obj := (s.slabPool d).vaddr + i * size
  (s.setWord obj (s.slabPool d).freelist).setSlab d fun x => { x with freelist := obj }

def slabInitObjects (s : State) (d size : Nat) : State :=
  let total := pageSize / size
  let s := s.setSlab d fun x => { x with total := total, inuse := 0, freelist := 0 }
  (List.range total).foldl (initObject d size) s

/-- The end of `kmem_cache_alloc`: the first free object of a slab. -/
def takeObject (s : State) (d : Nat) : Option Nat × State :=
  let obj := (s.slabPool d).freelist
  if obj = 0 then (none, s)
  else (some obj, s.setSlab d fun x => { x with freelist := s.mem obj, inuse := x.inuse + 1 })

/-- `kmem_cache_alloc` on the cache number `i`, without a `kmalloc` inside its `alloc_pages`. -/
def kmemCacheAlloc (a : Answer) (i : Nat) (s : State) : Option Nat × State :=
  match (s.slabs i).find? fun d => decide ((s.slabPool d).freelist ≠ 0) with
  | some d => takeObject s d
  | none =>
    match slabAllocMeta s with
    | (none, s) => (none, s)
    | (some d, s) =>
      match slabAllocPage a (s.setSlab d fun x => { x with cache := some i }) d with
      | (none, s) => (none, s)
      | (some _, s) =>
        let s := slabInitObjects s d (cacheSize i)
        takeObject { s with slabs := update s.slabs i (d :: s.slabs i) } d

/--
The loop of `size_to_order` from the order `k` on. The shift drops the bits above 32, so
that `bytes` is zero from order 20 on: a loop that outlives 21 rounds never ends.
-/
def sizeToOrderFrom (size : Nat) : Nat → Nat → Nat → Option Nat
  | 0, _, _ => none
  | fuel + 1, bytes, k =>
    if bytes < size then sizeToOrderFrom size fuel (wrap (bytes * 2)) (k + 1) else some k

/-- `size_to_order`; `none` when it does not return. -/
def sizeToOrder (size : Nat) : Option Nat :=
  sizeToOrderFrom size 21 pageSize 0

/-- `kmalloc_large`; `none` when it does not return. -/
def kmallocLarge (a : Answer) (size : Nat) (s : State) : Option (Option Nat × State) :=
  match sizeToOrder (wrap (size + largeHdrSize)) with
  | none => none
  | some order =>
    match allocPages a order s with
    | (none, s) => some (none, s)
    | (some phys, s) =>
      let hdr := phys + pageOffset
      let s := ((s.setWord hdr largeMagic).setWord (hdr + 4) order).setWord (hdr + 8) phys
      some (some (hdr + largeHdrSize), s)

/-- `kmalloc`; `none` when it does not return. -/
def kmalloc (a : Answer) (size : Nat) (s : State) : Option (Option Nat × State) :=
  if size = 0 then some (none, s)
  else
    match (List.range slabMaxCache).find? fun i => decide (size ≤ cacheSize i) with
    | some i => some (kmemCacheAlloc a i s)
    | none => kmallocLarge a size s

/-! ## Release -/

/-- `slab_from_ptr`. -/
def slabFromPtr (s : State) (ptr : Nat) : Option Nat :=
  if ptr = 0 then none
  else s.slabMap.reduceOption.find? fun d => decide ((s.slabPool d).vaddr = alignDown ptr)

/-- `kmem_cache_free` on the cache number `i`. -/
def kmemCacheFree (s : State) (i ptr : Nat) : State :=
  match slabFromPtr s ptr with
  | none => s
  | some d =>
    if (s.slabPool d).cache ≠ some i then s
    else (s.setWord ptr (s.slabPool d).freelist).setSlab d fun x =>
      { x with freelist := ptr, inuse := x.inuse - 1 }

/-- The cache of the slab of an address. -/
def cacheOf (s : State) (ptr : Nat) : Option Nat :=
  (slabFromPtr s ptr).bind fun d => (s.slabPool d).cache

def kfree (s : State) (ptr : Nat) : State :=
  if ptr = 0 then s
  else
    match cacheOf s ptr with
    | some i => kmemCacheFree s i ptr
    | none =>
      let hdr := ptr - largeHdrSize
      if s.mem hdr ≠ largeMagic then s
      else s.setHeld (s.mem (hdr + 8) / pageSize) (s.mem (hdr + 4)) false

def ksize (s : State) (ptr : Nat) : Nat :=
  if ptr = 0 then 0
  else
    match cacheOf s ptr with
    | some i => cacheSize i
    | none =>
      let hdr := ptr - largeHdrSize
      if s.mem hdr ≠ largeMagic then 0
      else wrap (wrap (pageSize * 2 ^ s.mem (hdr + 4)) + (wordSize - largeHdrSize))

/-! ## Runs -/

/-- `kmem_cache_init`, with any contents of the memory. -/
def kmemCacheInit (mem : Nat → Nat) : State where
  slabPool _ := ⟨0, 0, 0, 0, none⟩
  slabFreeList := List.range slabMaxPages
  slabs _ := []
  slabMap := []
  mem := mem
  held _ := false
  live := []

/-- What the rest of the kernel does: it calls the heap, or stores a word. -/
inductive Call where
  | kmalloc (size : Nat) (a : Answer)
  | kfree (ptr : Nat)
  | reclaim
  | store (addr v : Nat)

/-- Record the pointer that `kmalloc` returned; after a call that does not return nothing happens. -/
def record (s : State) (size : Nat) : Option (Option Nat × State) → State
  | none => s
  | some (none, s) => s
  | some (some p, s) => { s with live := (p, size) :: s.live }

/-- The effect of a call. -/
def step (s : State) : Call → State
  | .kmalloc size a => record s size (Slab.kmalloc a size s)
  | .kfree p => { Slab.kfree s p with live := s.live.filter fun e => decide (e.1 ≠ p) }
  | .reclaim => (slabReclaimOne s).2
  | .store addr v => s.setWord addr v

/--
What callers do: they ask for sizes that `kmalloc_large` can add its header to, free what is live,
and store to their objects and to pages that the heap does not hold.
-/
def Allowed (s : State) : Call → Prop
  | .kmalloc size _ => 1 ≤ size ∧ size ≤ 2 ^ 31 - 4096
  | .kfree p => p ∈ s.live.map Prod.fst
  | .reclaim => True
  | .store addr _ => (∃ e ∈ s.live, e.1 ≤ addr ∧ addr < e.1 + ksize s e.1) ∨
      s.held ((addr - pageOffset) / pageSize) = false

end LiteKernel.Mm.Slab
