import LiteKernel.Mm.PageCacheDurability

/-!
# What write-back marks clean

`writeback_flush_all` marks a page clean after `writepage` has been called for it, and
reclaim drops only pages of the clean lists. `writepage` does not report what
`block_device_write` could not store.

Main results:

- Theorem `cleaned_stored`: the device has the bytes of clean pages if it stores every write.
- Theorem `failed_write_cleaned`: a byte that is lost.
-/

namespace LiteKernel.Mm.PageCache

open Lib State

variable {s t : State} {m : Nat} {dev : Device}

/-- The device held the whole page when the page was marked clean, up to the device size. -/
def Cleaning.Stored (c : Cleaning) : Prop :=
  ∀ k < pageSize, c.index * pageSize + k < c.device.size →
    c.device.content (c.index * pageSize + k) = c.data k

/-- The device stores every byte of every write. -/
def Device.Whole (dev : Device) : Prop :=
  ∀ n k, dev.stores n k = true

/-- The devices store what they are given, and the history is as it should be. -/
structure Honest (s : State) : Prop extends Listed s where
  whole : ∀ m dev, (s.mapping m).aOps = some dev → dev.Whole
  stored : ∀ c ∈ s.cleaned, c.Stored
  reclaimed : ∀ e ∈ s.reclaimed, e.dirty = false

/-! ## Write-back -/

/-- A device that stores all it is given has the page after the write. -/
lemma Device.Whole.stored (h : dev.Whole) (index : Nat) (data : PageData) :
    Cleaning.Stored ⟨index, data, dev.write index data⟩ := by
  intro k hk hsize
  have hsz : (dev.write index data).size = dev.size := by
    unfold Device.write
    split <;> rfl
  simp only [hsz] at hsize
  simp only [Device.write, if_neg (by omega : ¬ dev.size ≤ index * pageSize)]
  rw [if_pos ⟨by omega, by omega, hsize, h 0 _⟩, Nat.add_sub_cancel_left]

lemma Device.Whole.write (h : dev.Whole) (index : Nat) (data : PageData) :
    (dev.write index data).Whole := by
  unfold Device.write
  split
  · exact h
  · exact fun n k => h (n + 1) k

/-! ## The changes of the cache -/

lemma Honest.of_ops (h : Honest s) (ht : Listed t)
    (hops : ∀ i, (t.mapping i).aOps = (s.mapping i).aOps) (hlog : t.cleaned = s.cleaned)
    (hlog' : t.reclaimed = s.reclaimed) : Honest t where
  toListed := ht
  whole i dev hi := h.whole i dev (hops i ▸ hi)
  stored c hc := h.stored c (hlog ▸ hc)
  reclaimed e he := h.reclaimed e (hlog' ▸ he)

/-- What is kept by one mapping and all others is kept by all. -/
lemma aOps_eq (hother : ∀ i, i ≠ m → t.mapping i = s.mapping i)
    (hm : (t.mapping m).aOps = (s.mapping m).aOps) (i : Nat) :
    (t.mapping i).aOps = (s.mapping i).aOps := by
  rcases eq_or_ne i m with rfl | hi
  · exact hm
  · rw [hother i hi]

/-- Every change of the cache keeps this: a page is stored before it is marked clean. -/
lemma closed_honest : Closed Honest where
  listed h := h.toListed
  setData p f h := h.of_ops (closed_listed.setData p f h.toListed) (fun _ => rfl) rfl rfl
  syncBuffers h := h.of_ops (closed_listed.syncBuffers h.toListed) (fun _ => rfl) rfl rfl
  setSize m n h := by
    refine h.of_ops (closed_listed.setSize m n h.toListed) (aOps_eq (m := m) ?_ ?_) rfl rfl
    · intro i hi
      simp [setMapping, hi]
    · simp [setMapping]
  add {s m index} h _ := by
    obtain ⟨-, hother, hmap⟩ := addToPageCache_fields s m index
    exact h.of_ops (h.toListed.add m index) (aOps_eq hother (by rw [hmap])) rfl rfl
  markDirty {s m p} h hp := by
    by_cases hd : (s.entry p).dirty = true
    · rw [markDirty, if_pos hd]
      exact h
    · obtain ⟨hmove, -, hmap⟩ := markDirty_moves hd m
      refine h.of_ops (hmove.listed h.toListed hp) (aOps_eq hmove.other (by rw [hmap])) ?_ ?_
      · simp [markDirty, hd, lruDel, setMapping, setEntry]
      · simp [markDirty, hd, lruDel, setMapping, setEntry]
  flushPage {s m p} n h hp := by
    obtain ⟨-, hother, hmap, -, -, hdropped, hlog⟩ := flushPage_fields m n s p
    refine ⟨closed_listed.flushPage n h.toListed hp, fun i dev hi => ?_, fun c hc => ?_, ?_⟩
    · rcases eq_or_ne i m with rfl | him
      · rw [hmap] at hi
        obtain ⟨dev', hdev, rfl⟩ := Option.map_eq_some_iff.mp hi
        split
        · exact (h.whole i dev' hdev).write _ _
        · exact h.whole i dev' hdev
      · exact h.whole i dev (hother i him ▸ hi)
    · rcases hlog with hlog | ⟨dev, hdev, hlog⟩ <;> rw [hlog] at hc
      · exact h.stored c hc
      · rcases List.mem_cons.mp hc with rfl | hc
        · exact (h.whole m dev hdev).stored _ _
        · exact h.stored c hc
    · rw [hdropped]
      exact h.reclaimed
  dropClean {s m p} h hp := by
    have hd := dropClean_drops m s p
    exact h.of_ops (closed_listed.dropClean h.toListed hp) (aOps_eq hd.other hd.aOps) rfl rfl
  dropDirty {s m p} h hp := by
    obtain ⟨hd, -, hlog, hlog'⟩ := dropDirty_drops m s p
    exact h.of_ops (closed_listed.dropDirty h.toListed hp) (aOps_eq hd.other hd.aOps) hlog hlog'
  reclaim {s m p} h hp := by
    have hd := dropClean_drops m s p
    have hops := aOps_eq hd.other hd.aOps
    refine ⟨closed_listed.reclaim h.toListed hp, fun i dev hi => h.whole i dev (hops i ▸ hi),
      h.stored, fun e he => ?_⟩
    rcases List.mem_cons.mp he with rfl | he
    · exact (h.pages m).clean p hp
    · exact h.reclaimed e he

/-! ## Runs -/

/-- An empty cache over inodes of the given sizes. -/
def emptyCache (aOps : Nat → Option Device) (iSize : Nat → Nat) (files : List Nat) : State :=
  { initial aOps files with mapping := fun m => { addressSpaceInit (aOps m) with iSize := iSize m } }

lemma emptyCache_honest {aOps : Nat → Option Device} (iSize : Nat → Nat) (files : List Nat)
    (hwhole : ∀ m dev, aOps m = some dev → dev.Whole) : Honest (emptyCache aOps iSize files) where
  toListed := listed_of_empty fun _ => ⟨rfl, rfl, fun _ => rfl⟩
  whole := hwhole
  stored _ hc := absurd hc List.not_mem_nil
  reclaimed _ he := absurd he List.not_mem_nil

/--
If the devices store every byte of every write, then in every run a page is marked clean
only when its device has the page, and only clean pages are reclaimed. Reclaim runs between the
calls, not inside the allocations of a write.
-/
theorem cleaned_stored (aOps : Nat → Option Device) (iSize : Nat → Nat) (files : List Nat)
    (hwhole : ∀ m dev, aOps m = some dev → dev.Whole) (ops : List Op) :
    (∀ c ∈ (run step (emptyCache aOps iSize files) ops).cleaned, c.Stored) ∧
      ∀ e ∈ (run step (emptyCache aOps iSize files) ops).reclaimed, e.dirty = false := by
  have hrun : Honest (run step (emptyCache aOps iSize files) ops) :=
    run_invariant Honest (fun _ op hs (_ : True) => closed_honest.step hs op)
      (emptyCache_honest iSize files hwhole)
      (runOk_of_forall_mem (fun _ _ _ => trivial) _)
  exact ⟨hrun.stored, hrun.reclaimed⟩

/-- A disk of one page of zeros; `ok` says whether its writes succeed. -/
def disk (ok : Bool) : Device where
  size := pageSize
  content _ := 0
  delivers _ := true
  stores _ _ := ok

/-- One byte is written to the device, write-back runs, and one page is reclaimed. -/
def writeOut (ok : Bool) : State :=
  run step (emptyCache (fun _ => some (disk ok)) (fun _ => pageSize) [0])
    [.write 0 0 [65], .flushAll, .reclaimOne]

theorem writeOut_stored :
    (writeOut true).cleaned.length = 1 ∧ (writeOut true).reclaimed.length = 1 ∧
      (∀ c ∈ (writeOut true).cleaned, c.Stored) ∧
      ∀ e ∈ (writeOut true).reclaimed, e.dirty = false := by
  refine ⟨rfl, rfl, ?_⟩
  refine cleaned_stored _ _ _ ?_ _
  intro m dev hdev
  cases hdev
  exact fun _ _ => rfl

/-- The write to the device fails; the page is marked clean and dropped, and the byte is lost. -/
theorem failed_write_cleaned :
    (∃ c ∈ (writeOut false).cleaned, c.index = 0 ∧ c.data 0 = 65 ∧ c.device.content 0 = 0 ∧
        ¬ c.Stored) ∧
      (writeOut false).reclaimed.length = 1 ∧
      (genericFileRead (writeOut false) 0 0 1).1 = [0] := by
  have hhead : (writeOut false).cleaned.head?.map
      (fun c => (c.index, c.data 0, c.device.size, c.device.content 0)) =
      some (0, 65, pageSize, 0) := by
    decide +kernel
  obtain ⟨c, hc, hfields⟩ := Option.map_eq_some_iff.mp hhead
  obtain ⟨hindex, hdata, hsize, hcontent⟩ : c.index = 0 ∧ c.data 0 = 65 ∧
      c.device.size = pageSize ∧ c.device.content 0 = 0 := by
    simpa using hfields
  refine ⟨⟨c, List.mem_of_head? hc, hindex, hdata, hcontent, ?_⟩, rfl, by decide +kernel⟩
  intro hstored
  have hbyte := hstored 0 (by decide)
  rw [hindex, hsize, hdata, Nat.zero_mul, zero_add, hcontent] at hbyte
  exact absurd (hbyte (by decide)) (by decide)

end LiteKernel.Mm.PageCache
