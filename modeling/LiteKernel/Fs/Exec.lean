import LiteKernel.Mm.Mmap

/-!
# Loading programs: `fs/exec.c`

The model of `kernel_load_user_program` on the memory management state. The loader checks the
headers of an ELF file, builds a new page directory for its segments and the stack, switches to
that directory to copy the segments, and takes the write permission from the segments without
`PF_W` at the end.

The file is given by what `read_fs` leaves in the buffer; offsets into the buffer are words, so
the function of bytes is also defined behind the end of the file. Stores of the loader to user
addresses go through the directory that is installed, and fault where it maps nothing. A load
whose fault cannot be handled does not return.

Main results:

- Definition `kernelLoadUserProgram`: the load.
-/

namespace LiteKernel.Fs

open Function Lib Mm

/-! ## ELF files -/

/-- A file as the loader sees it: its size, the answer of `read_fs`, and the bytes of the buffer. -/
structure ProgramFile where
  iSize : Nat
  read : Nat
  byte : Nat → UInt8

namespace ProgramFile

/-- The 16-bit and 32-bit fields at an offset into the buffer. -/
def half (file : ProgramFile) (off : Nat) : Nat :=
  (file.byte (wrap off)).toNat + 0x100 * (file.byte (wrap (off + 1))).toNat

def word (file : ProgramFile) (off : Nat) : Nat :=
  file.half off + 0x10000 * file.half (off + 2)

end ProgramFile

/-- The fields of `Elf32_Ehdr` that the loader reads. -/
structure Elf32Ehdr where
  eIdent : Nat → UInt8
  eType : Nat
  eMachine : Nat
  eVersion : Nat
  eEntry : Nat
  ePhoff : Nat
  eEhsize : Nat
  ePhentsize : Nat
  ePhnum : Nat

/-- The fields of `Elf32_Phdr` that the loader reads. -/
structure Elf32Phdr where
  pType : Nat
  pOffset : Nat
  pVaddr : Nat
  pFilesz : Nat
  pMemsz : Nat
  pFlags : Nat
  deriving DecidableEq, Repr

/-- `sizeof(Elf32_Ehdr)` and `sizeof(Elf32_Phdr)`. -/
abbrev ehdrSize : Nat := 52
abbrev phdrSize : Nat := 32

namespace ProgramFile

def ehdr (file : ProgramFile) : Elf32Ehdr where
  eIdent := file.byte
  eType := file.half 16
  eMachine := file.half 18
  eVersion := file.word 20
  eEntry := file.word 24
  ePhoff := file.word 28
  eEhsize := file.half 40
  ePhentsize := file.half 42
  ePhnum := file.half 44

/-- The program header at an offset into the buffer. -/
def phdrAt (file : ProgramFile) (off : Nat) : Elf32Phdr where
  pType := file.word off
  pOffset := file.word (off + 4)
  pVaddr := file.word (off + 8)
  pFilesz := file.word (off + 16)
  pMemsz := file.word (off + 20)
  pFlags := file.word (off + 24)

/-- The program headers in the order of the loops. -/
def phdrs (file : ProgramFile) : List Elf32Phdr :=
  (List.range file.ehdr.ePhnum).map fun i =>
    file.phdrAt (file.ehdr.ePhoff + i * file.ehdr.ePhentsize)

end ProgramFile

namespace Elf32Phdr

/-- `p_type` is `PT_LOAD`. -/
def isLoad (p : Elf32Phdr) : Bool :=
  decide (p.pType = 1)

/-- The bits `PF_X` and `PF_W`. -/
def pfX (p : Elf32Phdr) : Bool :=
  p.pFlags.testBit 0

def pfW (p : Elf32Phdr) : Bool :=
  p.pFlags.testBit 1

/-- `p_vaddr + p_memsz`. -/
def vend (p : Elf32Phdr) : Nat :=
  wrap (p.pVaddr + p.pMemsz)

def segStart (p : Elf32Phdr) : Nat :=
  alignDown p.pVaddr

def segEnd (p : Elf32Phdr) : Nat :=
  alignUp p.vend

/-- The segments that the loops do not skip. -/
def loaded (p : Elf32Phdr) : Bool :=
  p.isLoad && decide (p.pMemsz ≠ 0)

end Elf32Phdr

/-- The failures of the loader, one for each message it prints. -/
inductive LoadError where
  | notFound
  | empty
  | bufferAllocFailed
  | readFailed
  | tooSmall
  | notElf
  | formatUnsupported
  | headerSizeMismatch
  | phdrSizeMismatch
  | headerInvalid
  | headerOutOfRange
  | vaddrOutOfRange
  | segmentOutOfRange
  | noLoadableSegments
  | entryOutOfRange
  | directoryAllocFailed
  | mmAllocFailed
  | pageAllocFailed
  | stackAllocFailed
  deriving DecidableEq, Repr

/-- The first loop over the program headers, which collects `min_vaddr` and `max_vaddr`. -/
def scanPhdrs (iSize : Nat) : List Elf32Phdr → Nat → Nat → Except LoadError (Nat × Nat)
  | [], minVaddr, maxVaddr => .ok (minVaddr, maxVaddr)
  | p :: rest, minVaddr, maxVaddr =>
    if ¬ p.isLoad then scanPhdrs iSize rest minVaddr maxVaddr
    else if p.pVaddr ≥ taskSize ∨ p.vend ≥ taskSize then .error .vaddrOutOfRange
    else if p.pFilesz > 0 ∧ wrap (p.pOffset + p.pFilesz) > iSize then .error .segmentOutOfRange
    else
      scanPhdrs iSize rest (if p.pVaddr < minVaddr then p.pVaddr else minVaddr)
        (if p.vend > maxVaddr then p.vend else maxVaddr)

/-- The checks between `read_fs` and the first allocation: `min_vaddr` and `max_vaddr`. -/
def checkProgram (file : ProgramFile) : Except LoadError (Nat × Nat) :=
  let ehdr := file.ehdr
  if file.iSize < ehdrSize then .error .tooSmall
  else if ¬ (ehdr.eIdent 0 = 0x7F ∧ ehdr.eIdent 1 = 0x45 ∧ ehdr.eIdent 2 = 0x4C ∧
      ehdr.eIdent 3 = 0x46) then .error .notElf
  else if ehdr.eIdent 4 ≠ 1 ∨ ehdr.eIdent 5 ≠ 1 then .error .formatUnsupported
  else if ehdr.eEhsize ≠ ehdrSize then .error .headerSizeMismatch
  else if ehdr.ePhentsize ≠ phdrSize then .error .phdrSizeMismatch
  else if ehdr.eType ≠ 2 ∨ ehdr.eMachine ≠ 3 ∨ ehdr.eVersion ≠ 1 then .error .headerInvalid
  else if wrap (ehdr.ePhoff + ehdr.ePhnum * ehdr.ePhentsize) > file.iSize then
    .error .headerOutOfRange
  else
    match scanPhdrs file.iSize file.phdrs 0xFFFFFFFF 0 with
    | .error e => .error e
    | .ok (minVaddr, maxVaddr) =>
      if minVaddr = 0xFFFFFFFF then .error .noLoadableSegments
      else if ehdr.eEntry < minVaddr ∨ ehdr.eEntry ≥ maxVaddr then .error .entryOutOfRange
      else .ok (minVaddr, maxVaddr)

/-- The part of a name behind its last slash. -/
def basename (name : List Char) : List Char :=
  (name.reverse.takeWhile (· ≠ '/')).reverse

/-- The file of a program: the name itself, its base name in `/bin`, its base name. -/
def findProgram (resolve : List Char → Option ProgramFile) (name : List Char) :
    Option ProgramFile :=
  match resolve name with
  | some file => some file
  | none =>
    match resolve ("/bin/".toList ++ basename name) with
    | some file => some file
    | none => resolve (basename name)

/-! ## Building the directory -/

/-- `USER_STACK_PAGES`, `USER_STACK_BASE` and `USER_STACK_TOP`. -/
abbrev userStackPages : Nat := 8
abbrev userStackTop : Nat := taskSize
abbrev userStackBase : Nat := userStackTop - userStackPages * pageSize

/-- A frame becomes a copy of a table, and takes its place in the directory. -/
def copyTable (s : Vm) (d i old t : Nat) : Vm :=
  { s with table := update s.table t (s.table old) }.setDirEntry d i
    { present := true, readWrite := true, user := true, cacheDisable := false, cow := false,
      pfn := t }

/-- `ensure_private_table`; without memory for the table nothing changes. -/
def ensurePrivateTable (d : Nat) (s : Vm) (i : Nat) : Vm :=
  if (s.dir d i).present then
    match s.allocPage with
    | (none, s') => s'
    | (some t, s') => copyTable s' d i (s.dir d i).pfn t
  else
    match s.allocPage with
    | (none, s') => s'
    | (some t, s') => s'.installTable d i t true

/-- `pgd_index`. -/
def pgdIndex (va : Nat) : Nat :=
  va / (ptrsPerPte * pageSize)

/-- The directory entries visited by `ensure_private_table_range`; `stop - 1` may wrap. -/
def slotsIn (start stop : Nat) : List Nat :=
  let first := pgdIndex start
  let last := pgdIndex (wrap (stop + (wordSize - 1)))
  List.range' first (last + 1 - first)

def ensurePrivateTableRange (d : Nat) (s : Vm) (start stop : Nat) : Vm :=
  (slotsIn start stop).foldl (ensurePrivateTable d) s

/-- `mm_add_vma`. -/
def mmAddVma (s : Vm) (m start stop : Nat) (flags : VmFlags) : Vm :=
  let r := vmaAdd s.ctx (s.mm m).mmap start stop flags
  s.commitVma m { s.mm m with mmap := r.1 } r.2

/-- A fresh writable page at a page number; `false` when there is no memory for it. -/
def mapFreshPage (m d : Nat) (s : Vm) (v : Nat) : Bool × Vm :=
  match s.allocPage with
  | (none, s) => (false, s)
  | (some f, s) =>
    let s := s.mapPageEx d f (v * pageSize) (PteFlags.userPage true)
    (true, s.pageAddAnonRmap m (v * pageSize) f)

/-- One round of the loop over the pages of a segment: a page that has a frame keeps it. -/
def mapSegmentPage (m d : Nat) (s : Vm) (v : Nat) : Bool × Vm :=
  match s.virtToPfn d (v * pageSize) with
  | some old => if old ≠ v then (true, s) else mapFreshPage m d s v
  | none => mapFreshPage m d s v

/-- A loop over page numbers that ends at the first page without memory. -/
def mapPages (step : Vm → Nat → Bool × Vm) : List Nat → Vm → Bool × Vm
  | [], s => (true, s)
  | v :: vs, s =>
    match step s v with
    | (false, s) => (false, s)
    | (true, s) => mapPages step vs s

/-- The body of the second loop over the program headers. -/
def buildSegment (m d : Nat) (s : Vm) (p : Elf32Phdr) : Bool × Vm :=
  let s := mmAddVma s m p.segStart p.segEnd ⟨true, true, p.pfX⟩
  let s := ensurePrivateTableRange d s p.segStart p.segEnd
  mapPages (mapSegmentPage m d) (pagesIn p.segStart p.segEnd) s

def buildSegments (m d : Nat) : List Elf32Phdr → Vm → Bool × Vm
  | [], s => (true, s)
  | p :: rest, s =>
    match buildSegment m d s p with
    | (false, s) => (false, s)
    | (true, s) => buildSegments m d rest s

/-- The stack and the break, and the pages of the stack. -/
def buildStack (m d heapBase : Nat) (s : Vm) : Bool × Vm :=
  let s := mmAddVma s m userStackBase userStackTop VmFlags.rw
  let r := mmInitBrk s.ctx (s.mm m) heapBase userStackBase
  let s := s.commitVma m r.1 r.2
  mapPages (mapFreshPage m d) (pagesIn userStackBase userStackTop) s

/-! ## Copying the segments -/

/--
A store of the loader to a page of the directory that is installed. The processor checks no
write permission in kernel mode. A handled fault repeats the store; each repetition takes a
frame, so that `fuel` rounds suffice where it is the number of frames of the machine.
-/
def touchPage (m : Nat) : Nat → Vm → Nat → Option Vm
  | 0, _, _ => none
  | fuel + 1, s, v =>
    if (s.pte s.pageDirectory v).present then some s
    else
      match s.doPageFault (some m) (v * pageSize) ⟨false, true, false, false, false⟩ with
      | (.resumed, s) => touchPage m fuel s v
      | _ => none

/-- The number of frames of a machine with four gigabytes. -/
abbrev maxFrames : Nat := 0x100000

/-- The bytes of page `v` after `len` bytes have been stored at `va`. -/
def storeBytes (va len : Nat) (b : Nat → UInt8) (v : Nat) (old : Bytes) : Bytes := fun o =>
  if va ≤ v * pageSize + o ∧ v * pageSize + o < va + len then b (v * pageSize + o - va) else old o

def storePage (m va len : Nat) (b : Nat → UInt8) (s : Vm) (v : Nat) : Option Vm :=
  match touchPage m maxFrames s v with
  | none => none
  | some s =>
    let f := (s.pte s.pageDirectory v).pfn
    some (s.setData f (storeBytes va len b v (s.data f)))

/-- `memset` and `memcpy` to user memory; a range that reaches the kernel destroys it. -/
def storeUser (m : Nat) (s : Vm) (va len : Nat) (b : Nat → UInt8) : Option Vm :=
  if len = 0 then some s
  else if va + len > taskSize then none
  else (List.range' (va / pageSize) ((va + len - 1) / pageSize + 1 - va / pageSize)).foldlM
    (storePage m va len b) s

/-- The permissions of a segment without `PF_W`, as an argument of `do_mprotect`. -/
def readOnlyProt (p : Elf32Phdr) : Nat :=
  if p.pfX then 5 else 1

/-- The body of the third loop over the program headers; `none` does not return. -/
def copySegment (file : ProgramFile) (m : Nat) (s : Vm) (p : Elf32Phdr) : Option Vm :=
  match storeUser m s p.pVaddr p.pMemsz fun _ => 0 with
  | none => none
  | some s =>
    match storeUser m s p.pVaddr p.pFilesz fun i => file.byte (wrap (p.pOffset + i)) with
    | none => none
    | some s =>
      if p.pfW then some s
      else some (s.doMprotect m p.segStart (wrap (p.segEnd + (wordSize - p.segStart)))
        (readOnlyProt p)).2

/-! ## The calls -/

/-- What the loader returns through its pointer arguments. -/
structure LoadedProgram where
  entry : Nat
  userStack : Nat
  dir : Nat
  base : Nat
  pages : Nat
  stackBase : Nat
  deriving DecidableEq, Repr

inductive LoadResult where
  | failed (e : LoadError)
  | crashed
  | loaded (p : LoadedProgram)
  deriving DecidableEq, Repr

/-- The loader from the second loop over the program headers on. -/
def buildProgram (file : ProgramFile) (m d minVaddr maxVaddr : Nat) (s : Vm) : LoadResult × Vm :=
  let segs := file.phdrs.filter Elf32Phdr.loaded
  let userEnd := alignUp maxVaddr
  match buildSegments m d segs s with
  | (false, s) => (.failed .pageAllocFailed, s)
  | (true, s) =>
    match buildStack m d userEnd s with
    | (false, s) => (.failed .stackAllocFailed, s)
    | (true, s) =>
      let oldDir := s.pageDirectory
      match segs.foldlM (copySegment file m) (s.switchPgd d) with
      | none => (.crashed, s)
      | some s =>
        (.loaded ⟨file.ehdr.eEntry, userStackTop, d, alignDown minVaddr,
          (userEnd - alignDown minVaddr) / pageSize, userStackBase⟩, s.switchPgd oldDir)

/-- The loader from the first allocation on, for a task with the `mm_struct` `cur`. -/
def loadProgram (file : ProgramFile) (s : Vm) (cur : Option Nat) (minVaddr maxVaddr : Nat) :
    LoadResult × Option Nat × Vm :=
  match s.pgdCloneKernel with
  | (none, s) => (.failed .directoryAllocFailed, cur, s)
  | (some d, s) =>
    let s := ensurePrivateTableRange d s userStackBase userStackTop
    let r : Option Nat × Vm :=
      match cur with
      | some m => (some m, s)
      | none => s.mmCreate
    match r with
    | (none, s) => (.failed .mmAllocFailed, none, s)
    | (some m, s) =>
      let s := s.setMm m fun mm => { mm with mmap := [] }
      let r := buildProgram file m d minVaddr maxVaddr s
      (r.1, some m, r.2)

/-- `kernel_load_user_program`: the result, the `mm_struct` of the task, and the state. -/
def kernelLoadUserProgram (resolve : List Char → Option ProgramFile) (s : Vm) (cur : Option Nat)
    (name : List Char) : LoadResult × Option Nat × Vm :=
  match findProgram resolve name with
  | none => (.failed .notFound, cur, s)
  | some file =>
    if file.iSize = 0 then (.failed .empty, cur, s)
    else
      match s.kmalloc with
      | (none, s) => (.failed .bufferAllocFailed, cur, s)
      | (some _, s) =>
        if file.read ≠ file.iSize then (.failed .readFailed, cur, s)
        else
          match checkProgram file with
          | .error e => (.failed e, cur, s)
          | .ok (minVaddr, maxVaddr) => loadProgram file s cur minVaddr maxVaddr

/-- The fields of the `mm_struct` that the callers of the loader set. -/
def LoadedProgram.install (p : LoadedProgram) (mm : MmStruct) : MmStruct :=
  { mm with
    pgd := p.dir
    startCode := p.base
    endCode := wrap (p.base + p.pages * pageSize)
    startStack := p.stackBase }

end LiteKernel.Fs
