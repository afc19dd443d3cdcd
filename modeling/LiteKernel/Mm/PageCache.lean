import LiteKernel.Lib.Word

/-!
# The page cache of `mm/filemap.c` and `mm/page-writeback.c`

A mapping caches the pages of one inode. An entry of the cache is reached in two
ways: through the hash chain of its index, for lookups, and through the list of
clean or of dirty pages, for write-back and reclaim. Entries are named by the
number of the allocation that made them, so that both ways lead to the same entry;
its frame belongs to it alone and is kept as its `data`.

A mapping with `a_ops` has a block device behind it, which `readpage` and `writepage`
access page by page; the mappings of ramfs have none. A read may fail, and a write may
store only some of its bytes; `fs/block_dev.c` ignores both. Allocations succeed and do
not reclaim by themselves: reclaim is a step of its own. Buffers of the block
layer appear only through the number that `sync_dirty_buffers_all` writes.

Main results:

- Definitions `genericFileWrite`, `writebackFlushAll`, `tryToFreePages`: the calls.
-/

namespace LiteKernel.Mm.PageCache

open Lib

/-- The bytes of a page, by their offset. -/
abbrev PageData := Nat → UInt8

/-- `PAGECACHE_HASH_SIZE`. -/
abbrev hashSize : Nat := 64

/-- `WB_DIRTY_LIMIT`. -/
abbrev wbDirtyLimit : Nat := 64

/-- `struct page_cache_entry` with the frame at `phys_addr`. -/
structure Entry where
  index : Nat
  data : PageData
  dirty : Bool

/--
The block device behind `a_ops`. It delivers some pages when they are read, and of each
write that comes it stores some bytes; the bytes of a page are given by their offset.
-/
structure Device where
  size : Nat
  content : Nat → UInt8
  delivers : Nat → Bool
  stores : Nat → Nat → Bool

/-- A page that was marked clean, with the device as it was then. -/
structure Cleaning where
  index : Nat
  data : PageData
  device : Device

/-- `struct address_space` with the size of its host inode. -/
structure AddressSpace where
  iSize : Nat
  aOps : Option Device
  nrpages : Nat
  nrpagesClean : Nat
  nrpagesDirty : Nat
  cleanPages : List Nat
  dirtyPages : List Nat
  pageHash : Nat → List Nat

/-- The static data of the page cache and of write-back. -/
structure State where
  entry : Nat → Entry
  nextEntry : Nat
  mapping : Nat → AddressSpace
  mappingList : List Nat
  wbDirtyPages : Nat
  /-- The buffer heads with `BH_Dirty`. -/
  dirtyBuffers : Finset Nat
  /-- Whether the block write of a buffer succeeds, pass by pass. -/
  bufferStores : Nat → Nat → Bool
  /-- The pages of devices that write-back has marked clean. -/
  cleaned : List Cleaning
  /-- The pages that reclaim has dropped. -/
  reclaimed : List Entry

namespace State

/-- Assignment to the fields of a mapping. -/
def setMapping (s : State) (m : Nat) (f : AddressSpace → AddressSpace) : State :=
  { s with mapping := Function.update s.mapping m (f (s.mapping m)) }

/-- Assignment to the fields of an entry. -/
def setEntry (s : State) (p : Nat) (f : Entry → Entry) : State :=
  { s with entry := Function.update s.entry p (f (s.entry p)) }

/-- The chain of an index. -/
def chain (s : State) (m index : Nat) : List Nat :=
  (s.mapping m).pageHash (index % hashSize)

end State

/-- `address_space_init` for an inode of size zero. -/
def addressSpaceInit (aOps : Option Device) : AddressSpace where
  iSize := 0
  aOps := aOps
  nrpages := 0
  nrpagesClean := 0
  nrpagesDirty := 0
  cleanPages := []
  dirtyPages := []
  pageHash _ := []

/-! ## Entries -/

/-- `find_get_page`. -/
def findGetPage (s : State) (m index : Nat) : Option Nat :=
  (s.chain m index).find? fun p => (s.entry p).index == index

/-- `page_cache_hash_add`. -/
def pageCacheHashAdd (s : State) (m p : Nat) : State :=
  let b := (s.entry p).index % hashSize
  s.setMapping m fun a => { a with pageHash := Function.update a.pageHash b (p :: a.pageHash b) }

/-- `page_cache_hash_del`. -/
def pageCacheHashDel (s : State) (m p : Nat) : State :=
  let b := (s.entry p).index % hashSize
  s.setMapping m fun a => { a with pageHash := Function.update a.pageHash b ((a.pageHash b).erase p) }

/-- `list_del(&p->lru)`: the entry leaves the list it is on. -/
def lruDel (s : State) (m p : Nat) : State :=
  s.setMapping m fun a =>
    { a with cleanPages := a.cleanPages.erase p, dirtyPages := a.dirtyPages.erase p }

/--
`add_to_page_cache`: a zeroed, clean page. Both allocations succeed; a reclaim that they start
in the source is a step before the call here.
-/
def addToPageCache (s : State) (m index : Nat) : Nat × State :=
  let p := s.nextEntry
  let s := { s with nextEntry := p + 1 }
  let s := s.setEntry p fun _ => { index := index, data := fun _ => 0, dirty := false }
  let s := s.setMapping m fun a =>
    { a with nrpages := a.nrpages + 1, nrpagesClean := a.nrpagesClean + 1,
             cleanPages := a.cleanPages ++ [p] }
  (p, pageCacheHashAdd s m p)

/-- What reading a page into a zeroed frame leaves there. -/
def Device.page (dev : Device) (index : Nat) : PageData :=
  fun k =>
    if dev.delivers index ∧ index * pageSize + k < dev.size then dev.content (index * pageSize + k)
    else 0

/-- `blkdev_readpage`, which succeeds also when the device does not deliver. -/
def readpage (dev : Device) (s : State) (p : Nat) : State :=
  s.setEntry p fun e => { e with data := dev.page e.index }

/-! ## Reading -/

/-- The bytes `[pageOffset, pageOffset + bytes)` of an entry. -/
def pageBytes (s : State) (p pageOffset bytes : Nat) : List UInt8 :=
  (List.range bytes).map fun k => (s.entry p).data (pageOffset + k)

/-- The part of one page in the loop of `generic_file_read`. -/
def readPart (s : State) (m index pageOffset bytes : Nat) : List UInt8 × State :=
  match findGetPage s m index with
  | some p => (pageBytes s p pageOffset bytes, s)
  | none =>
      match (s.mapping m).aOps with
      | some dev =>
          let (p, s) := addToPageCache s m index
          let s := readpage dev s p
          (pageBytes s p pageOffset bytes, s)
      | none => (List.replicate bytes 0, s)

/-- The loop of `generic_file_read`; every round consumes at least one byte. -/
def readLoop (m : Nat) : Nat → Nat → Nat → State → List UInt8 × State
  | 0, _, _, s => ([], s)
  | fuel + 1, offset, size, s =>
      if size = 0 then ([], s)
      else
        let bytes := min (pageSize - offset % pageSize) size
        let r := readPart s m (offset / pageSize) (offset % pageSize) bytes
        let rest := readLoop m fuel (wrap (offset + bytes)) (size - bytes) r.2
        (r.1 ++ rest.1, rest.2)

/-- `generic_file_read`: the bytes it puts into the buffer. -/
def genericFileRead (s : State) (m offset size : Nat) : List UInt8 × State :=
  if size = 0 then ([], s)
  else if offset ≥ (s.mapping m).iSize then ([], s)
  else
    let size := min size ((s.mapping m).iSize - offset)
    readLoop m size offset size s

/-! ## Write-back -/

/-- `writeback_account_cleaned` and `writeback_account_discarded`. -/
def accountCleaned (s : State) : State :=
  { s with wbDirtyPages := s.wbDirtyPages - 1 }

/-- `block_device_write` of a page: the device stores what it does of the bytes it has. -/
def Device.write (dev : Device) (index : Nat) (data : PageData) : Device :=
  if dev.size ≤ index * pageSize then dev
  else
    { dev with
      content := fun o =>
        if index * pageSize ≤ o ∧ o < index * pageSize + pageSize ∧ o < dev.size ∧
            dev.stores 0 (o - index * pageSize) then
          data (o - index * pageSize)
        else dev.content o
      stores := fun n => dev.stores (n + 1) }

/-- `blkdev_writepage`, which succeeds whatever the device stores. -/
def writepage (dev : Device) (s : State) (m p : Nat) : State :=
  let e := s.entry p
  let dev := dev.write e.index e.data
  { s.setMapping m fun a => { a with aOps := some dev } with
    cleaned := ⟨e.index, e.data, dev⟩ :: s.cleaned }

/-- Write-back of one page of the list of dirty pages: the number of pages flushed. -/
def flushPage (m : Nat) (r : Nat × State) (p : Nat) : Nat × State :=
  let (flushed, s) := r
  let (flushed, s) :=
    if (s.entry p).dirty then
      let s :=
        match (s.mapping m).aOps with
        | some dev => writepage dev s m p
        | none => s
      (flushed + 1, accountCleaned (s.setEntry p fun e => { e with dirty := false }))
    else (flushed, s)
  let s := lruDel s m p
  (flushed, s.setMapping m fun a =>
    { a with cleanPages := a.cleanPages ++ [p], nrpagesDirty := a.nrpagesDirty - 1,
             nrpagesClean := a.nrpagesClean + 1 })

/-- Write-back of one mapping. -/
def flushMapping (r : Nat × State) (m : Nat) : Nat × State :=
  (r.2.mapping m).dirtyPages.foldl (flushPage m) r

/-- `sync_dirty_buffers_all`: a buffer whose block write fails stays dirty. -/
def syncDirtyBuffersAll (s : State) : Nat × State :=
  let synced := s.dirtyBuffers.filter fun b => s.bufferStores 0 b
  (synced.card,
    { s with
      dirtyBuffers := s.dirtyBuffers \ synced
      wbDirtyPages := s.wbDirtyPages - synced.card
      bufferStores := fun n => s.bufferStores (n + 1) })

/-- `writeback_flush_all`. -/
def writebackFlushAll (s : State) : Nat × State :=
  let r := s.mappingList.foldl flushMapping (0, s)
  let b := syncDirtyBuffersAll r.2
  (r.1 + b.1, b.2)

/-- `balance_dirty_pages_ratelimited`. -/
def balanceDirtyPages (s : State) : State :=
  if s.wbDirtyPages > wbDirtyLimit then (writebackFlushAll s).2 else s

/-! ## Writing -/

/-- `memcpy` of the bytes `buf` to the offset `pageOffset` of a page. -/
def copyIn (data : PageData) (pageOffset : Nat) (buf : List UInt8) : PageData :=
  fun k => if pageOffset ≤ k ∧ k < pageOffset + buf.length then buf.getD (k - pageOffset) 0 else data k

/-- The entry for a write: the cached one, or a new one, read in if the write is partial. -/
def writeEntry (s : State) (m index pageOffset bytes : Nat) : Nat × State :=
  match findGetPage s m index with
  | some p => (p, s)
  | none =>
      let (p, s) := addToPageCache s m index
      match (s.mapping m).aOps with
      | some dev => if pageOffset ≠ 0 ∨ bytes < pageSize then (p, readpage dev s p) else (p, s)
      | none => (p, s)

/-- The transition of a clean entry to the list of dirty pages. -/
def markDirty (s : State) (m p : Nat) : State :=
  if (s.entry p).dirty then s
  else
    let s := s.setEntry p fun e => { e with dirty := true }
    let s := { s with wbDirtyPages := s.wbDirtyPages + 1 }
    let s := lruDel s m p
    s.setMapping m fun a =>
      { a with nrpagesClean := a.nrpagesClean - 1, nrpagesDirty := a.nrpagesDirty + 1,
               dirtyPages := a.dirtyPages ++ [p] }

/-- The part of one page in the loop of `generic_file_write`. -/
def writePart (s : State) (m index pageOffset : Nat) (buf : List UInt8) : State :=
  let (p, s) := writeEntry s m index pageOffset buf.length
  let s := s.setEntry p fun e => { e with data := copyIn e.data pageOffset buf }
  balanceDirtyPages (markDirty s m p)

/-- The loop of `generic_file_write`: the offset behind the last byte, and the state. -/
def writeLoop (m : Nat) : Nat → Nat → List UInt8 → State → Nat × State
  | 0, offset, _, s => (offset, s)
  | fuel + 1, offset, buf, s =>
      if buf.length = 0 then (offset, s)
      else
        let bytes := min (pageSize - offset % pageSize) buf.length
        let s := writePart s m (offset / pageSize) (offset % pageSize) (buf.take bytes)
        writeLoop m fuel (wrap (offset + bytes)) (buf.drop bytes) s

/-- `generic_file_write`: the number of bytes written. -/
def genericFileWrite (s : State) (m offset : Nat) (buf : List UInt8) : Nat × State :=
  if buf.length = 0 then (0, s)
  else
    match (s.mapping m).aOps with
    | some _ =>
        if offset ≥ (s.mapping m).iSize then (0, s)
        else
          let buf :=
            if wrap (offset + buf.length) > (s.mapping m).iSize then
              buf.take ((s.mapping m).iSize - offset)
            else buf
          (buf.length, (writeLoop m buf.length offset buf s).2)
    | none =>
        let r := writeLoop m buf.length offset buf s
        (buf.length,
          if r.1 > (r.2.mapping m).iSize then r.2.setMapping m fun a => { a with iSize := r.1 }
          else r.2)

/-! ## Truncation and reclaim -/

/-- `truncate_inode_pages` drops one entry of the list of dirty pages. -/
def dropDirty (m : Nat) (s : State) (p : Nat) : State :=
  let s := lruDel s m p
  let s := if (s.entry p).dirty then accountCleaned (s.setEntry p fun e => { e with dirty := false }) else s
  let s := pageCacheHashDel s m p
  s.setMapping m fun a => { a with nrpages := a.nrpages - 1, nrpagesDirty := a.nrpagesDirty - 1 }

/-- An entry of the list of clean pages is dropped, by truncation or by reclaim. -/
def dropClean (m : Nat) (s : State) (p : Nat) : State :=
  let s := lruDel s m p
  let s := pageCacheHashDel s m p
  s.setMapping m fun a => { a with nrpages := a.nrpages - 1, nrpagesClean := a.nrpagesClean - 1 }

/-- `truncate_inode_pages`, which only acts on whole files. -/
def truncateInodePages (s : State) (m lstart : Nat) : State :=
  if lstart = 0 then
    let s := (s.mapping m).dirtyPages.foldl (dropDirty m) s
    (s.mapping m).cleanPages.foldl (dropClean m) s
  else s

/-- `vfs_open` with `O_TRUNC` on a regular file. -/
def openTrunc (s : State) (m : Nat) : State :=
  truncateInodePages (s.setMapping m fun a => { a with iSize := 0 }) m 0

/-- The first mapping of the list with a clean page, and that page. -/
def firstClean (s : State) : List Nat → Option (Nat × Nat)
  | [] => none
  | m :: rest =>
      if (s.mapping m).nrpagesClean ≠ 0 then
        match (s.mapping m).cleanPages with
        | p :: _ => some (m, p)
        | [] => firstClean s rest
      else firstClean s rest

/-- `page_cache_reclaim_one`: whether a page was dropped. -/
def pageCacheReclaimOne (s : State) : Bool × State :=
  match firstClean s s.mappingList with
  | some (m, p) => (true, { dropClean m s p with reclaimed := s.entry p :: s.reclaimed })
  | none => (false, s)

/-- `shrink_zone` as far as file pages are concerned: whether a page was dropped. -/
def shrinkZone (mayWritepage mayUnmap : Bool) (s : State) : Bool × State :=
  if mayUnmap then
    match pageCacheReclaimOne s with
    | (true, s) => (true, s)
    | (false, s) =>
        if mayWritepage then
          let r := writebackFlushAll s
          if r.1 > 0 then pageCacheReclaimOne r.2 else (false, r.2)
        else (false, s)
  else (false, s)

/-- `try_to_free_pages`. -/
def tryToFreePages (s : State) : Bool × State :=
  shrinkZone true true s

end LiteKernel.Mm.PageCache
