import LiteKernel.Mm.Paging

/-!
# The page-table half of `mm/mmap.c` and the fault handlers

The first part is the model of the functions of `mm/mmap.c` that change page tables: unmapping,
protection changes, and the calls of `LiteKernel.Mm.Vma` completed by their page-table
work. The second part is the model of the fault handlers of `mm/memory.c`.

Main results:

- Definitions `doMmap`, `doMunmap`, `doMprotect`, `doPageFault`: the calls.
-/

namespace LiteKernel.Mm

open Function Lib

/-- The numbers of the pages visited by a loop from `start & ~0xFFF` to `align_up(end)`. -/
def pagesIn (start stop : Nat) : List Nat :=
  List.range' (start / pageSize) (alignUp stop / pageSize - start / pageSize)

namespace Vm

/-! ## Unmapping -/

/-- `task_free_user_page_mapped` for a page number. -/
def taskFreeUserPageMapped (s : Vm) (m d v : Nat) : Vm :=
  let pte := s.pte d v
  if ¬ pte.present then
    match swapPteDecode pte with
    | some slot => (s.setPte d v Pte.zero).swapFreeSlot slot
    | none => s
  else if ¬ pte.user then s
  else
    let s := s.setPte d v Pte.zero
    let s := s.pageRemoveRmap m (v * pageSize) pte.pfn
    s.freePage pte.pfn

/-- No entry of a table is present. -/
def pteTableEmpty (table : Nat → Pte) : Bool :=
  (List.range ptrsPerPte).all fun j => !(table j).present

/-- The directory entry shares its table with the kernel. -/
def isKernelPde (s : Vm) (d i : Nat) : Bool :=
  (s.dir s.kernelDir i).present && decide ((s.dir s.kernelDir i).pfn ≠ 0) &&
    decide ((s.dir s.kernelDir i).pfn = (s.dir d i).pfn)

/-- The second part of the loop of `zap_page_range`: an empty table is given back. -/
def freeEmptyTable (s : Vm) (d i : Nat) : Vm :=
  if ¬ (s.dir d i).present then s
  else if s.isKernelPde d i then s
  else if ¬ pteTableEmpty (s.table (s.dir d i).pfn) then s
  else (s.setDirEntry d i Pte.zero).freePage (s.dir d i).pfn

/-- The loop of `zap_page_range`; `last` is the directory entry it looked at last. -/
def zapPages (m d : Nat) : List Nat → Option Nat → Vm → Vm
  | [], _, s => s
  | v :: vs, last, s =>
    let s := s.taskFreeUserPageMapped m d v
    if last = some (v / ptrsPerPte) then zapPages m d vs last s
    else zapPages m d vs (some (v / ptrsPerPte)) (s.freeEmptyTable d (v / ptrsPerPte))

def zapPageRange (s : Vm) (m d start stop : Nat) : Vm :=
  zapPages m d (pagesIn start stop) none s

/-! ## Protection changes -/

/-- The bits that `update_mapped_page_flags` gives to a present entry. -/
def protectFlags (write : Bool) (old : PteFlags) : PteFlags :=
  { old with
    present := true
    user := true
    readWrite := write
    cow := write && old.cow }

/-- One round of `update_mapped_page_flags`. -/
def protectPage (write : Bool) (d : Nat) (s : Vm) (v : Nat) : Vm :=
  let pte := s.getPteFlags d (v * pageSize)
  if ¬ pte.present then s
  else s.setPteFlags d (v * pageSize) (protectFlags write pte.toPteFlags)

def updateMappedPageFlags (s : Vm) (d start stop : Nat) (write : Bool) : Vm :=
  (pagesIn start stop).foldl (protectPage write d) s

/-! ## Creation -/

/-- The new `mm_struct` has the directory that is installed. -/
def mmCreate (s : Vm) : Option Nat × Vm :=
  match s.kmalloc with
  | (none, s) => (none, s)
  | (some m, s) =>
    let mm : MmStruct := ⟨s.pageDirectory, 0, 0, 0, 0, 0, []⟩
    (some m, { s with live := insert m s.live, mm := update s.mm m mm })

/-! ## The calls -/

def putVma (s : Vm) (m : Nat) (mm : MmStruct) (c : VmaCtx) : Vm :=
  { s with mm := update s.mm m mm, ctx := c }

/--
The areas of an address space after a call. The reclaims inside the `kmalloc` calls for its new
nodes have been run, which the lists do not depend on.
-/
def commitVma (s : Vm) (m : Nat) (mm : MmStruct) (c : VmaCtx) : Vm :=
  let nodes := List.range' s.ctx.heap.next (c.heap.next - s.ctx.heap.next)
  (nodes.foldl (fun s n => s.runReclaim (s.env.heapReclaim n)) s).putVma m mm c

lemma commitVma_of_calm {s : Vm} (h : ∀ n, s.env.heapReclaim n = .done) (m : Nat) (mm : MmStruct)
    (c : VmaCtx) : s.commitVma m mm c = s.putVma m mm c := by
  have hrun : ∀ nodes : List Nat,
      nodes.foldl (fun s n => s.runReclaim (s.env.heapReclaim n)) s = s := by
    intro nodes
    induction nodes with
    | nil => rfl
    | cons n nodes ih => rw [List.foldl_cons, h, runReclaim, ih]
  rw [commitVma, hrun]

lemma commitVma_ctx (s : Vm) (m : Nat) (mm : MmStruct) :
    s.commitVma m mm s.ctx = s.putVma m mm s.ctx := by
  rw [commitVma, Nat.sub_self]
  rfl

/-- `none` when the search for a gap never ends. -/
def doMmap (s : Vm) (m addr length prot : Nat) : Option (Nat × Vm) :=
  match Mm.doMmap s.ctx (s.mm m) addr length prot with
  | none => none
  | some (a, mm, c) => some (a, s.commitVma m mm c)

/-- Whether the call succeeded, and the state after it. -/
def doMunmap (s : Vm) (m addr length : Nat) : Bool × Vm :=
  match doMunmapVma s.ctx (s.mm m) addr length with
  | none => (false, s)
  | some (mm, c) =>
    (true, (s.commitVma m mm c).zapPageRange m mm.pgd addr (wrap (addr + alignUp length)))

def doMprotect (s : Vm) (m addr length prot : Nat) : Bool × Vm :=
  match doMprotectVma s.ctx (s.mm m) addr length prot with
  | none => (false, s)
  | some (mm, c) =>
    (true, (s.commitVma m mm c).updateMappedPageFlags mm.pgd addr (wrap (addr + alignUp length))
      (protFlags prot).write)

def doMremap (s : Vm) (m addr oldLength newLength : Nat) : Bool × Vm :=
  match doMremapVma (s.mm m) addr oldLength newLength with
  | none => (false, s)
  | some (mm, none) => (true, s.putVma m mm s.ctx)
  | some (mm, some (start, stop)) =>
    (true, (s.putVma m mm s.ctx).zapPageRange m mm.pgd start stop)

def doBrk (s : Vm) (m newEnd : Nat) : Nat × Vm :=
  ((Mm.doBrk (s.mm m) newEnd).1, s.putVma m (Mm.doBrk (s.mm m) newEnd).2 s.ctx)

/-! ## Page faults -/

/-- The bytes the kernel reads from a page through the current directory. -/
def readPage (s : Vm) (va : Nat) : Bytes :=
  match s.virtToPfn s.pageDirectory va with
  | some f => s.data f
  | none => fun _ => 0

/-- `resolve_cow` for a task whose `mm_struct` is `m`. -/
def resolveCow (s : Vm) (m va : Nat) : Outcome × Vm :=
  let pte := s.getPteFlags s.pageDirectory va
  if ¬ pte.cow then (.notHandled, s)
  else if (s.page pte.pfn).refcount ≤ 1 then
    (.handled, s.setPteFlags s.pageDirectory va
      { pte.toPteFlags with readWrite := true, cow := false })
  else
    match s.allocPage with
    | (none, s) => (.failed, s)
    | (some f, s) =>
      match s.kmalloc with
      | (none, s) => (.failed, s.freePage f)
      | (some _, s) =>
        let tmp := s.readPage va
        let s := s.mapPageEx s.pageDirectory f va (PteFlags.userPage true)
        let s := s.pageRemoveRmap m va pte.pfn
        let s := s.pageAddAnonRmap m va f
        let s := s.fillPage va tmp
        (.handled, s.freePage pte.pfn)

/-- The write-protect fault on a page that is not copy-on-write. -/
def upgradePage (s : Vm) (m va : Nat) : Outcome × Vm :=
  if vmaAllows (s.mm m).mmap va true false then
    let pte := s.getPteFlags s.pageDirectory va
    if pte.present ∧ pte.user ∧ ¬ pte.readWrite ∧ ¬ pte.cow then
      (.handled, s.setPteFlags s.pageDirectory va { pte.toPteFlags with readWrite := true })
    else (.notHandled, s)
  else (.notHandled, s)

/-- A fresh page of zeros. -/
def zeroFillPage (s : Vm) (m va : Nat) : Outcome × Vm :=
  match s.allocPage with
  | (none, s) => (.failed, s)
  | (some f, s) =>
    let flags := PteFlags.userPage (vmaAllows (s.mm m).mmap va true false)
    let s := s.mapPageEx s.pageDirectory f va flags
    let s := s.pageAddAnonRmap m va f
    -- where no table could be allocated, the store faults again
    (.handled, s.fillPage va fun _ => 0)

def handleMmFault (s : Vm) (m va : Nat) (isPresent isWrite isExec : Bool) : Outcome × Vm :=
  if ¬ vmaAllows (s.mm m).mmap va isWrite isExec then (.notHandled, s)
  else if isPresent then
    if ¬ isWrite then (.notHandled, s)
    else
      match s.resolveCow m va with
      | (.handled, s) => (.handled, s)
      | (.failed, s) => (.failed, s)
      | (.notHandled, s) => s.upgradePage m va
  else
    match s.swapInMm m va with
    | (.handled, s) => (.handled, s)
    | (_, s) => s.zeroFillPage m va

/-- The bits of the error code of a page fault. -/
structure FaultError where
  present : Bool
  write : Bool
  user : Bool
  reserved : Bool
  fetch : Bool

/-- How `do_page_fault` ends: the access is repeated, the task is killed, the kernel panics. -/
inductive FaultResult where
  | resumed
  | killed
  | panicked
  deriving DecidableEq, Repr

/-- The reaction to the outcome of `handle_mm_fault`. -/
def faultResult : Outcome → FaultResult
  | .handled => .resumed
  | .notHandled => .killed
  | .failed => .panicked

/-- The last part of `do_page_fault`: a kernel access to an address that is not mapped. -/
def kernelFault (s : Vm) (base : Nat) : FaultResult × Vm :=
  match s.allocPage with
  | (none, s) => (.panicked, s)
  | (some f, s) =>
    let flags : PteFlags := ⟨true, true, false, false, false⟩
    let s := s.mapPageEx s.pageDirectory f base flags
    (.resumed, s.fillPage base fun _ => 0)

/-- `do_page_fault` at `addr` in a task whose `mm_struct`, if it has one, is `cur`. -/
def doPageFault (s : Vm) (cur : Option Nat) (addr : Nat) (err : FaultError) : FaultResult × Vm :=
  let base := addr / pageSize * pageSize
  if err.reserved then (.panicked, s)
  else
    let userAccess := err.user || (cur.isSome && decide (addr < taskSize))
    match cur, userAccess with
    | none, true => (.killed, s)
    | none, false =>
      if err.present then (.panicked, s)
      else if addr < pageSize then (.panicked, s)
      else s.kernelFault base
    | some m, true =>
      if err.present then
        let r := s.handleMmFault m base true err.write err.fetch
        (faultResult r.1, r.2)
      else if addr < pageSize then (.killed, s)
      else if addr ≥ taskSize then (.killed, s)
      else if ¬ vmaAllows (s.mm m).mmap base err.write err.fetch then (.killed, s)
      else
        let r := s.handleMmFault m base false err.write err.fetch
        (faultResult r.1, r.2)
    | some _, false =>
      if err.present then (.panicked, s)
      else if addr < pageSize then (.panicked, s)
      else s.kernelFault base

end Vm

end LiteKernel.Mm
