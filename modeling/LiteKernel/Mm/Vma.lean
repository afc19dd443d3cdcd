import LiteKernel.Lib.Word

/-!
# The VMA half of `mm/mmap.c`

This file embeds the part of `mm/mmap.c` that works on the list of virtual
memory areas of an `mm_struct`: insertion with merging, the searches, and the
list surgery of the calls. The page-table half of the same calls is added in
`LiteKernel.Mm.Mmap`.

The singly linked list `mm->mmap` is a Lean list. A node keeps the number of
the `kmalloc` call that produced it, because `do_mprotect` holds a pointer to a
node across two insertions; everything else of a node is its four fields.
Quantities are unsigned 32-bit words, so additions are reduced by `wrap`.

Main results:

- Definitions `vmaInsert`, `doMmap`, `doMunmapVma`, `doMprotectVma`, `doBrk`: the calls.
-/

namespace LiteKernel.Mm

open Lib

/-- The permission bits `VMA_READ`, `VMA_WRITE` and `VMA_EXEC`. -/
structure VmFlags where
  read : Bool
  write : Bool
  exec : Bool
  deriving DecidableEq, Repr

/-- The three bits that `do_mmap` and `do_mprotect` keep of a `prot` argument. -/
def protFlags (prot : Nat) : VmFlags where
  read := prot.testBit 0
  write := prot.testBit 1
  exec := prot.testBit 2

/-- `VMA_READ | VMA_WRITE`. -/
def VmFlags.rw : VmFlags := ⟨true, true, false⟩

/-- `struct vm_area_struct`; `node` is the address of the list node. -/
structure VmArea where
  node : Nat
  vmStart : Nat
  vmEnd : Nat
  vmFlags : VmFlags
  anonVmaId : Nat
  deriving DecidableEq, Repr

/-- `struct mm_struct`; `pgd` is the frame of the page directory. -/
structure MmStruct where
  pgd : Nat
  startCode : Nat
  endCode : Nat
  startStack : Nat
  startBrk : Nat
  brk : Nat
  mmap : List VmArea
  deriving DecidableEq, Repr

/-- `TASK_SIZE`, the first kernel address. -/
abbrev taskSize : Nat := 0xC0000000

/--
The kernel heap as its callers see it. Call number `next` is answered with
memory when `ok next` holds, and the call number stands for the address.
-/
structure Kheap where
  next : Nat
  ok : Nat → Bool

/-- `kmalloc`: the address of a fresh object, or nothing. -/
def Kheap.kmalloc (k : Kheap) : Option Nat × Kheap :=
  (if k.ok k.next then some k.next else none, { k with next := k.next + 1 })

/-- The static data of `mm/mmap.c` together with the heap it allocates from. -/
structure VmaCtx where
  heap : Kheap
  nextAnonVmaId : Nat

/-- `alloc_anon_vma_id`. -/
def VmaCtx.allocAnonVmaId (c : VmaCtx) : Nat × VmaCtx :=
  let id := if c.nextAnonVmaId = 0 then 1 else c.nextAnonVmaId
  (id, { c with nextAnonVmaId := wrap (id + 1) })

/-- `kmalloc` on behalf of the VMA code. -/
def VmaCtx.kmalloc (c : VmaCtx) : Option Nat × VmaCtx :=
  let r := c.heap.kmalloc
  (r.1, { c with heap := r.2 })

/-! ## Insertion and merging -/

/-- `vma_can_merge`. -/
def vmaCanMerge (a b : VmArea) : Bool :=
  a.vmFlags == b.vmFlags && a.anonVmaId == b.anonVmaId && a.vmEnd == b.vmStart

/-- `vma_merge_adjacent` from the node `v` on. -/
def vmaMergeFrom (v : VmArea) : List VmArea → List VmArea
  | [] => [v]
  | next :: rest =>
      if vmaCanMerge v next then
        vmaMergeFrom { v with vmEnd := next.vmEnd } rest
      else
        v :: vmaMergeFrom next rest

/-- `vma_merge_adjacent`. -/
def vmaMergeAdjacent : List VmArea → List VmArea
  | [] => []
  | v :: rest => vmaMergeFrom v rest

/-- The loop of `vma_add_anon` that merges the new node with its successors. -/
def vmaAbsorb (v : VmArea) : List VmArea → List VmArea
  | [] => [v]
  | next :: rest =>
      if vmaCanMerge v next then
        vmaAbsorb { v with vmEnd := next.vmEnd } rest
      else
        v :: next :: rest

/-- Link the node `v` between `prev` and `rest`, merging on both sides. -/
def vmaLink (prev v : VmArea) (rest : List VmArea) : List VmArea :=
  if vmaCanMerge prev v then
    vmaAbsorb { prev with vmEnd := v.vmEnd } rest
  else
    prev :: vmaAbsorb v rest

/-- The search of `vma_add_anon` for the insertion point, past the node `prev`. -/
def vmaInsertAfter (prev v : VmArea) : List VmArea → List VmArea
  | [] => vmaLink prev v []
  | cur :: rest =>
      if cur.vmStart < v.vmStart then
        prev :: vmaInsertAfter cur v rest
      else
        vmaLink prev v (cur :: rest)

/-- `vma_add_anon` once the node `v` is allocated. -/
def vmaInsert (v : VmArea) : List VmArea → List VmArea
  | [] => [v]
  | cur :: rest =>
      if cur.vmStart < v.vmStart then
        vmaInsertAfter cur v rest
      else
        vmaAbsorb v (cur :: rest)

/-- `vma_add_anon`. -/
def vmaAddAnon (c : VmaCtx) (l : List VmArea) (start stop : Nat) (flags : VmFlags)
    (anonVmaId : Nat) : List VmArea × VmaCtx :=
  if start ≥ stop then
    (l, c)
  else
    match c.kmalloc with
    | (none, c) => (l, c)
    | (some p, c) => (vmaInsert ⟨p, start, stop, flags, anonVmaId⟩ l, c)

/-- The anonymous lineage that `vma_add` reuses from a neighbour, or `0`. -/
def vmaNeighbourId (start stop : Nat) (flags : VmFlags) :
    Option VmArea → List VmArea → Nat
  | prev, [] =>
      match prev with
      | some p => if p.vmEnd = start ∧ p.vmFlags = flags then p.anonVmaId else 0
      | none => 0
  | prev, cur :: rest =>
      if cur.vmStart < start then
        vmaNeighbourId start stop flags (some cur) rest
      else
        match prev with
        | some p =>
            if p.vmEnd = start ∧ p.vmFlags = flags then p.anonVmaId
            else if cur.vmStart = stop ∧ cur.vmFlags = flags then cur.anonVmaId
            else 0
        | none =>
            if cur.vmStart = stop ∧ cur.vmFlags = flags then cur.anonVmaId else 0

/-- `vma_add`. -/
def vmaAdd (c : VmaCtx) (l : List VmArea) (start stop : Nat) (flags : VmFlags) :
    List VmArea × VmaCtx :=
  if start ≥ stop then
    (l, c)
  else
    let id := vmaNeighbourId start stop flags none l
    if id = 0 then
      let (id, c) := c.allocAnonVmaId
      vmaAddAnon c l start stop flags id
    else
      vmaAddAnon c l start stop flags id

/-! ## Searches -/

/-- `vma_range_free`. -/
def vmaRangeFree (l : List VmArea) (start stop : Nat) : Bool :=
  l.all fun v => decide (stop ≤ v.vmStart) || decide (start ≥ v.vmEnd)

/-- The test of `vma_find_covering`. -/
def VmArea.covers (v : VmArea) (start stop : Nat) : Bool :=
  decide (start ≥ v.vmStart) && decide (stop ≤ v.vmEnd)

/-- `vma_find_covering`. -/
def vmaFindCovering (l : List VmArea) (start stop : Nat) : Option VmArea :=
  l.find? fun v => v.covers start stop

/--
The scan of `vma_find_gap`. Its start address moves in steps of one page, so
`2 ^ 20` rounds visit every value it can take: a scan that outlives this many
rounds never ends, which is reported by `none`.
-/
def vmaFindGapFrom (l : List VmArea) (size limit : Nat) : Nat → Nat → Option Nat
  | 0, _ => none
  | fuel + 1, start =>
      if wrap (start + size) ≤ limit then
        if vmaRangeFree l start (wrap (start + size)) then
          some start
        else
          vmaFindGapFrom l size limit fuel (wrap (start + 0x1000))
      else
        some 0

/-- The address at which `vma_find_gap` starts to look. -/
def vmaGapStart (mm : MmStruct) : Nat :=
  let start := if mm.brk ≠ 0 then alignUp mm.brk else 0x400000
  let start :=
    if mm.startCode ≠ 0 ∧ mm.endCode ≠ 0 ∧ start < mm.endCode then
      alignUp mm.endCode
    else start
  if start < 0x1000 then 0x1000 else start

/-- `vma_find_gap`; the answer `some 0` is the failure code of the source. -/
def vmaFindGap (mm : MmStruct) (size limit : Nat) : Option Nat :=
  if size = 0 then some 0
  else if limit ≤ vmaGapStart mm then some 0
  else vmaFindGapFrom mm.mmap size limit 0x100000 (vmaGapStart mm)

/-- The test of `vma_find_heap`. -/
def VmArea.isHeap (startBrk : Nat) (v : VmArea) : Bool :=
  decide (v.vmStart = startBrk) && v.vmFlags.read && v.vmFlags.write

/-- `vma_find_heap`. -/
def vmaFindHeap (mm : MmStruct) : Option VmArea :=
  if mm.startBrk = 0 then none
  else mm.mmap.find? (VmArea.isHeap mm.startBrk)

/-- The address test of `vma_allows`. -/
def VmArea.contains (v : VmArea) (addr : Nat) : Bool :=
  decide (addr ≥ v.vmStart) && decide (addr < v.vmEnd)

/-- The permission test of `vma_allows` on the area that contains the address. -/
def VmFlags.allows (f : VmFlags) (isWrite isExec : Bool) : Bool :=
  if isExec && !f.exec then false
  else if isWrite && !f.write then false
  else if !isWrite && !f.read then false
  else true

/-- `vma_allows`. -/
def vmaAllows (l : List VmArea) (addr : Nat) (isWrite isExec : Bool) : Bool :=
  match l.find? (fun v => v.contains addr) with
  | some v => v.vmFlags.allows isWrite isExec
  | none => false

/-- Assignment through a pointer to the node `node` of the list. -/
def vmaSet (node : Nat) (f : VmArea → VmArea) (l : List VmArea) : List VmArea :=
  l.map fun v => if v.node = node then f v else v

/-! ## The calls -/

/-- `mm->start_stack ? mm->start_stack : TASK_SIZE`. -/
def MmStruct.limit (mm : MmStruct) : Nat :=
  if mm.startStack ≠ 0 then mm.startStack else taskSize

/-- The address chosen by `do_mmap`; `some 0` is its failure code. -/
def doMmapAddr (mm : MmStruct) (addr len : Nat) : Option Nat :=
  if addr ≠ 0 then
    if addr < 0x1000 then some 0
    else if ¬ PageAligned addr then some 0
    else if wrap (addr + len) > mm.limit then some 0
    else if vmaRangeFree mm.mmap addr (wrap (addr + len)) then some addr
    else some 0
  else
    vmaFindGap mm len mm.limit

/-- `do_mmap`; `none` when its search for a gap never ends. -/
def doMmap (c : VmaCtx) (mm : MmStruct) (addr length prot : Nat) :
    Option (Nat × MmStruct × VmaCtx) :=
  if length = 0 then some (0, mm, c)
  else
    let len := alignUp length
    if len = 0 then some (0, mm, c)
    else if mm.limit ≤ 0x1000 then some (0, mm, c)
    else
      match doMmapAddr mm addr len with
      | none => none
      | some a =>
          if a = 0 then some (0, mm, c)
          else
            let r := vmaAdd c mm.mmap a (wrap (a + len)) (protFlags prot)
            some (a, { mm with mmap := r.1 }, r.2)

/-- The list surgery of `do_munmap` on `[addr, end)`. -/
def munmapList (addr stop : Nat) (c : VmaCtx) : List VmArea → List VmArea × VmaCtx
  | [] => ([], c)
  | v :: rest =>
      if stop ≤ v.vmStart ∨ addr ≥ v.vmEnd then
        let r := munmapList addr stop c rest
        (v :: r.1, r.2)
      else if addr ≤ v.vmStart ∧ stop ≥ v.vmEnd then
        munmapList addr stop c rest
      else if addr ≤ v.vmStart then
        let r := munmapList addr stop c rest
        ({ v with vmStart := stop } :: r.1, r.2)
      else if stop ≥ v.vmEnd then
        let r := munmapList addr stop c rest
        ({ v with vmEnd := addr } :: r.1, r.2)
      else
        match c.kmalloc with
        | (some p, c) =>
            -- the walk goes on at the right half, which starts at `end` and is skipped
            let r := munmapList addr stop c rest
            ({ v with vmEnd := addr } :: { v with node := p, vmStart := stop } :: r.1, r.2)
        | (none, c) =>
            let r := munmapList addr stop c rest
            ({ v with vmEnd := addr } :: r.1, r.2)

/-- The argument checks shared by `do_munmap` and `do_mprotect`: the end of the range. -/
def checkedRange (addr length : Nat) : Option Nat :=
  if length = 0 then none
  else if addr < 0x1000 then none
  else if ¬ PageAligned addr then none
  else if alignUp length = 0 then none
  else if wrap (addr + alignUp length) ≤ addr then none
  else some (wrap (addr + alignUp length))

/-- `do_munmap` on the list: `none` is the return code `-1`. -/
def doMunmapVma (c : VmaCtx) (mm : MmStruct) (addr length : Nat) :
    Option (MmStruct × VmaCtx) :=
  match checkedRange addr length with
  | none => none
  | some stop =>
      let r := munmapList addr stop c mm.mmap
      some ({ mm with mmap := vmaMergeAdjacent r.1 }, r.2)

/-- The two insertions and the assignments of `do_mprotect` around the node `v`. -/
def mprotectList (c : VmaCtx) (l : List VmArea) (v : VmArea) (addr stop : Nat)
    (flags : VmFlags) : List VmArea × VmaCtx :=
  let (l, c) :=
    if addr > v.vmStart then vmaAddAnon c l v.vmStart addr v.vmFlags v.anonVmaId else (l, c)
  let (l, c) :=
    if stop < v.vmEnd then vmaAddAnon c l stop v.vmEnd v.vmFlags v.anonVmaId else (l, c)
  (vmaSet v.node (fun w => { w with vmStart := addr, vmEnd := stop, vmFlags := flags }) l, c)

/-- `do_mprotect` on the list: `none` is the return code `0`. -/
def doMprotectVma (c : VmaCtx) (mm : MmStruct) (addr length prot : Nat) :
    Option (MmStruct × VmaCtx) :=
  match checkedRange addr length with
  | none => none
  | some stop =>
      match vmaFindCovering mm.mmap addr stop with
      | none => none
      | some v =>
          let r := mprotectList c mm.mmap v addr stop (protFlags prot)
          some ({ mm with mmap := vmaMergeAdjacent r.1 }, r.2)

/--
`do_mremap` on the list. `none` is the return code `0`; otherwise the call
returns `addr`, and the second component is the range handed to
`zap_page_range`, if any.
-/
def doMremapVma (mm : MmStruct) (addr oldLength newLength : Nat) :
    Option (MmStruct × Option (Nat × Nat)) :=
  match checkedRange addr oldLength, checkedRange addr newLength with
  | some oldEnd, some newEnd =>
      match vmaFindCovering mm.mmap addr oldEnd with
      | none => none
      | some v =>
          let oldLen := alignUp oldLength
          let newLen := alignUp newLength
          let resize := vmaMergeAdjacent (vmaSet v.node (fun w => { w with vmEnd := newEnd }) mm.mmap)
          if newLen = oldLen then some (mm, none)
          else if newLen < oldLen then
            some ({ mm with mmap := resize }, some (newEnd, oldEnd))
          else if newEnd > mm.limit then none
          else if ¬ vmaRangeFree mm.mmap oldEnd newEnd then none
          else some ({ mm with mmap := resize }, none)
  | _, _ => none

/-- `mm_init_brk`. -/
def mmInitBrk (c : VmaCtx) (mm : MmStruct) (heapBase stackBase : Nat) : MmStruct × VmaCtx :=
  if heapBase < 0x1000 then (mm, c)
  else if heapBase ≥ taskSize then (mm, c)
  else if stackBase ≠ 0 ∧ wrap (heapBase + 0x1000) ≥ stackBase then (mm, c)
  else
    let mm := { mm with startBrk := heapBase, brk := heapBase }
    match vmaFindHeap mm with
    | some _ => (mm, c)
    | none =>
        let r := vmaAdd c mm.mmap heapBase heapBase VmFlags.rw
        ({ mm with mmap := r.1 }, r.2)

/-- The early returns of `do_brk`, which leave the heap alone. -/
def doBrkRejects (mm : MmStruct) (newEnd : Nat) : Prop :=
  mm.startBrk = 0 ∨ newEnd = 0 ∨ newEnd < mm.startBrk ∨ newEnd ≥ taskSize ∨
    (mm.startStack ≠ 0 ∧ wrap (alignUp newEnd + 0x1000) > mm.startStack)

instance (mm : MmStruct) (newEnd : Nat) : Decidable (doBrkRejects mm newEnd) :=
  inferInstanceAs (Decidable (_ ∨ _ ∨ _ ∨ _ ∨ _))

/-- The end that `do_brk` gives to the heap area `heap`. -/
def brkEnd (heap : VmArea) (newEnd : Nat) : Nat :=
  if alignUp newEnd < heap.vmStart then heap.vmStart else alignUp newEnd

/-- `do_brk`: the value returned and the new `mm_struct`. -/
def doBrk (mm : MmStruct) (newEnd : Nat) : Nat × MmStruct :=
  if doBrkRejects mm newEnd then
    (if mm.startBrk = 0 then 0 else mm.brk, mm)
  else
    let mm := { mm with brk := newEnd }
    match vmaFindHeap mm with
    | none => (mm.brk, mm)
    | some heap =>
        (mm.brk,
          { mm with mmap := vmaSet heap.node (fun w => { w with vmEnd := brkEnd heap newEnd }) mm.mmap })

end LiteKernel.Mm
