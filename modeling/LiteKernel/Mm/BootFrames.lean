import LiteKernel.Mm.BuddyCanonical

/-!
# The frames that `mem_init` hands out

The boot loader describes memory with 64-bit bases and lengths. `mem_init` reads the low words
only and rounds the base down to a page, so an entry above four gigabytes is taken for memory below
it, and the first page of an unaligned entry is handed out although part of it is outside.

Main results:

- Theorem `real_ram_iff`: for which maps only memory is handed out.
- Theorem `highEntry_frame_free`: a frame without memory.
-/

namespace LiteKernel.Mm

open Lib

/-- The region and the frame have a byte in common. -/
def Bootmem.Region.Meets (r : Bootmem.Region) (f : Nat) : Prop :=
  ∃ x, r.base ≤ x ∧ x < r.base + r.size ∧ f * pageSize ≤ x ∧ x < f * pageSize + pageSize

namespace PageAlloc

/-- An entry of the memory map with all its words. -/
structure MapEntry where
  available : Bool
  base : UInt64
  length : UInt64

/-- What `mem_init` reads of an entry. -/
def MapEntry.low (e : MapEntry) : MmapEntry :=
  ⟨e.available, e.base.toUInt32, e.length.toUInt32⟩

/-- What `mem_init` finds, with the memory map as the boot loader wrote it. -/
structure BootMap where
  totalPages : Nat
  map : List MapEntry
  reserved : List Bootmem.Region
  totalPages_pos : 0 < totalPages
  totalPages_le : totalPages ≤ 0x38000

def BootMap.info (m : BootMap) : BootInfo where
  totalPages := m.totalPages
  mmap := m.map.map MapEntry.low
  reserved := m.reserved
  totalPages_pos := m.totalPages_pos
  totalPages_le := m.totalPages_le

/-- The frame lies in an available entry at or above one megabyte. -/
def MapEntry.Holds (e : MapEntry) (f : Nat) : Prop :=
  e.available = true ∧ 0x100000 ≤ e.base.toNat ∧ e.base.toNat ≤ f * pageSize ∧
    f * pageSize + pageSize ≤ e.base.toNat + e.length.toNat

/-- The frame is memory, and no reserved region meets it. -/
def BootMap.RealRam (m : BootMap) (f : Nat) : Prop :=
  (∃ e ∈ m.map, e.Holds f) ∧ ∀ r ∈ m.reserved, ¬ r.Meets f

/-- The low words of the entry offer the frame, and `bootmem_is_reserved` does not refuse it. -/
def BootMap.Takes (m : BootMap) (e : MapEntry) (f : Nat) : Prop :=
  f < m.totalPages ∧ e.low.Offers f ∧
    Bootmem.bootmemIsReserved m.reserved (f * pageSize) pageSize = false

lemma frameFree_memInit_iff (b : BootInfo) (z : ZoneType) (f : Nat) :
    (memInit b).FrameFree z f ↔ f ∈ handed b z := by
  obtain ⟨free, h⟩ := memInit_handing b
  have htiles := h.inv.tiles_of_owned_nil (z := z) h.owned
  unfold State.FrameFree
  simp only [h.inv.isFree_iff]
  exact htiles.mem_iff.symm

lemma exists_frameFree_iff (m : BootMap) (f : Nat) :
    (∃ z, (memInit m.info).FrameFree z f) ↔ ∃ e ∈ m.map, m.Takes e f := by
  simp only [frameFree_memInit_iff, mem_handed_iff]
  constructor
  · rintro ⟨z, hlt, -, ⟨e, he, hoffers⟩, hres⟩
    obtain ⟨e, hmem, rfl⟩ := List.mem_map.mp he
    exact ⟨e, hmem, hlt, hoffers, hres⟩
  · rintro ⟨e, he, hlt, hoffers, hres⟩
    exact ⟨_, hlt, rfl, ⟨e.low, List.mem_map_of_mem he, hoffers⟩, hres⟩

/-- An entry below four gigabytes holds the frames that it offers from its base on. -/
lemma MapEntry.holds_of_offers {e : MapEntry} {f : Nat} (h : e.low.Offers f)
    (hlow : e.base.toNat < 4294967296) (hbase : e.base.toNat ≤ f * pageSize) : e.Holds f := by
  obtain ⟨havail, hmega, -, hlt⟩ := h
  have hb : e.low.addrLow.toNat = e.base.toNat % 4294967296 := UInt64.toNat_toUInt32 _
  have hl : e.low.lenLow.toNat = e.length.toNat % 4294967296 := UInt64.toNat_toUInt32 _
  rw [hb] at hmega hlt
  rw [hl] at hlt
  unfold pageSize at hlt hbase
  refine ⟨havail, by omega, hbase, ?_⟩
  unfold pageSize
  omega

/-- A region that does not wrap around is seen by `bootmem_is_reserved`. -/
lemma not_meets_of_not_reserved {regions : List Bootmem.Region} {r : Bootmem.Region} {f : Nat}
    (hr : r ∈ regions) (hf : f < 0x38000) (hwrap : r.base + r.size < 4294967296)
    (h : Bootmem.bootmemIsReserved regions (f * pageSize) pageSize = false) : ¬ r.Meets f := by
  rintro ⟨x, hlo, hhi, hfx, hxf⟩
  have hnot := List.any_eq_false.mp h r hr
  simp only [Bootmem.Region.overlaps, Bool.not_eq_true, Bool.not_eq_false', Bool.or_eq_true,
    decide_eq_true_eq] at hnot
  unfold wrap pageSize at *
  omega

/-- Which memory maps and reserved regions let `mem_init` hand out memory only. -/
theorem real_ram_iff (m : BootMap) :
    (∀ z f, (memInit m.info).FrameFree z f → m.RealRam f) ↔
      ∀ e ∈ m.map, ∀ f, m.Takes e f →
        (4294967296 ≤ e.base.toNat ∨ f * pageSize < e.base.toNat → ∃ e' ∈ m.map, e'.Holds f) ∧
        ∀ r ∈ m.reserved, 4294967296 ≤ r.base + r.size → ¬ r.Meets f := by
  constructor
  · intro h e he f htakes
    obtain ⟨z, hz⟩ := (exists_frameFree_iff m f).mpr ⟨e, he, htakes⟩
    obtain ⟨hholds, hmeets⟩ := h z f hz
    exact ⟨fun _ => hholds, fun r hr _ => hmeets r hr⟩
  · intro h z f hfree
    obtain ⟨e, he, htakes⟩ := (exists_frameFree_iff m f).mp ⟨z, hfree⟩
    obtain ⟨hholds, hmeets⟩ := h e he f htakes
    constructor
    · by_cases hbad : 4294967296 ≤ e.base.toNat ∨ f * pageSize < e.base.toNat
      · exact hholds hbad
      · rw [not_or, not_le, not_lt] at hbad
        exact ⟨e, he, MapEntry.holds_of_offers htakes.2.1 hbad.1 hbad.2⟩
    · intro r hr
      by_cases hwrap : 4294967296 ≤ r.base + r.size
      · exact hmeets r hr hwrap
      · exact not_meets_of_not_reserved hr (lt_of_lt_of_le htakes.1 m.totalPages_le)
          (not_le.mp hwrap) htakes.2.2

/-- One page of memory two megabytes above four gigabytes. -/
def highEntry : BootMap where
  totalPages := 0x201
  map := [⟨true, 0x100200000, 0x1000⟩]
  reserved := [⟨0, 0x100000⟩]
  totalPages_pos := by decide
  totalPages_le := by decide

/-- The frame two megabytes above zero is free, and there is no memory. -/
theorem highEntry_frame_free :
    (∃ z, (memInit highEntry.info).FrameFree z 0x200) ∧ ¬ highEntry.RealRam 0x200 := by
  constructor
  · refine (exists_frameFree_iff highEntry 0x200).mpr
      ⟨_, List.mem_singleton.mpr rfl, by decide, ?_, by decide⟩
    unfold MmapEntry.Offers
    decide
  · rintro ⟨⟨e, he, -, -, hbase, -⟩, -⟩
    rw [List.mem_singleton.mp he] at hbase
    exact absurd hbase (by decide)

end PageAlloc

end LiteKernel.Mm
