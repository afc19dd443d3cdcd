import LiteKernel.Fs.ExecFrames

/-!
# The header checks of the loader

The loader compares 32-bit sums of header fields with the size of the file and with the end of
user memory, and it never compares `p_filesz` with `p_memsz`.

Main results:

- Theorem `headers_sound_iff`: which accepted headers are sound.
- Theorem `long_segment_accepted`: a segment with more bytes in the file than in memory.
-/

namespace LiteKernel.Fs

open Lib Mm

variable {r : Nat × Nat}

/-- The bounds on the headers, with sums as integers, and what they mean for the copied bytes. -/
structure ProgramFile.SoundHeaders (file : ProgramFile) : Prop where
  table : file.ehdr.ePhoff + file.ehdr.ePhnum * file.ehdr.ePhentsize ≤ file.iSize
  segments : ∀ p ∈ file.phdrs, p.isLoad = true → p.pFilesz ≤ p.pMemsz ∧
    (0 < p.pFilesz → p.pOffset + p.pFilesz ≤ file.iSize) ∧ p.pVaddr + p.pMemsz ≤ taskSize
  copied : ∀ p ∈ file.phdrs, p.loaded = true → ∀ i < p.pFilesz,
    wrap (p.pOffset + i) < file.iSize ∧ (p.pVaddr + i) / pageSize ∈ pagesIn p.segStart p.segEnd

/-- No sum of header fields overflows, and no segment has more bytes in the file than in memory. -/
structure ProgramFile.PlainHeaders (file : ProgramFile) : Prop where
  table : file.ehdr.ePhoff + file.ehdr.ePhnum * file.ehdr.ePhentsize < wordSize
  segments : ∀ p ∈ file.phdrs, p.isLoad = true → p.pFilesz ≤ p.pMemsz ∧
    (0 < p.pFilesz → p.pOffset + p.pFilesz < wordSize) ∧ p.pVaddr + p.pMemsz < wordSize

lemma scanPhdrs_ok {iSize lo hi : Nat} {l : List Elf32Phdr} (h : scanPhdrs iSize l lo hi = .ok r) :
    ∀ p ∈ l, p.isLoad = true →
      p.pVaddr < taskSize ∧ p.vend < taskSize ∧
        (0 < p.pFilesz → wrap (p.pOffset + p.pFilesz) ≤ iSize) := by
  induction l generalizing lo hi with
  | nil => simp
  | cons q l ih =>
    intro p hp hload
    have hrest : ∃ lo hi, scanPhdrs iSize l lo hi = .ok r ∧ (q.isLoad = true →
        ¬ (q.pVaddr ≥ taskSize ∨ q.vend ≥ taskSize) ∧
          ¬ (q.pFilesz > 0 ∧ wrap (q.pOffset + q.pFilesz) > iSize)) := by
      unfold scanPhdrs at h
      split_ifs at h with h1 h2 h3
      all_goals exact ⟨_, _, h, fun hq => by simp_all⟩
    obtain ⟨lo', hi', hscan, hq⟩ := hrest
    rcases List.mem_cons.mp hp with rfl | hp
    · have := hq hload
      omega
    · exact ih hscan p hp hload

lemma checkProgram_ok {file : ProgramFile} (h : checkProgram file = .ok r) :
    wrap (file.ehdr.ePhoff + file.ehdr.ePhnum * file.ehdr.ePhentsize) ≤ file.iSize ∧
      ∀ p ∈ file.phdrs, p.isLoad = true → p.pVaddr < taskSize ∧ p.vend < taskSize ∧
        (0 < p.pFilesz → wrap (p.pOffset + p.pFilesz) ≤ file.iSize) := by
  unfold checkProgram at h
  simp only at h
  split_ifs at h with _ _ _ _ _ _ htable
  cases hs : scanPhdrs file.iSize file.phdrs 0xFFFFFFFF 0 with
  | error e => simp [hs] at h
  | ok r => exact ⟨not_lt.mp htable, scanPhdrs_ok hs⟩

/-- The headers of an accepted file are sound exactly when its sums are exact. -/
theorem headers_sound_iff {file : ProgramFile} {r : Nat × Nat} (hsize : file.iSize < wordSize)
    (hr : checkProgram file = .ok r) : file.SoundHeaders ↔ file.PlainHeaders := by
  obtain ⟨htable, hsegs⟩ := checkProgram_ok hr
  constructor
  · intro h
    refine ⟨h.table.trans_lt hsize, fun p hp hload => ?_⟩
    obtain ⟨hmem, hoff, hend⟩ := h.segments p hp hload
    exact ⟨hmem, fun hpos => (hoff hpos).trans_lt hsize, hend.trans_lt (by decide)⟩
  · intro h
    have hexact : ∀ p ∈ file.phdrs, p.isLoad = true → p.pFilesz ≤ p.pMemsz ∧
        (0 < p.pFilesz → p.pOffset + p.pFilesz ≤ file.iSize) ∧
        p.pVaddr + p.pMemsz < taskSize := by
      intro p hp hload
      obtain ⟨hmem, hoff, hend⟩ := h.segments p hp hload
      obtain ⟨-, hvend, hfile⟩ := hsegs p hp hload
      rw [Elf32Phdr.vend, wrap_of_lt hend] at hvend
      exact ⟨hmem, fun hpos => wrap_of_lt (hoff hpos) ▸ hfile hpos, hvend⟩
    refine ⟨wrap_of_lt h.table ▸ htable, fun p hp hload => ?_, fun p hp hload i hi => ?_⟩
    · obtain ⟨hmem, hoff, hend⟩ := hexact p hp hload
      exact ⟨hmem, hoff, hend.le⟩
    · have hload' : p.isLoad = true := by
        simp only [Elf32Phdr.loaded, Bool.and_eq_true] at hload
        exact hload.1
      obtain ⟨hmem, hoff, hend⟩ := hexact p hp hload'
      -- the page of a copied byte lies between the rounded ends of the segment
      have hvend : p.vend = p.pVaddr + p.pMemsz := wrap_of_lt (hend.trans (by decide))
      have hup := (alignUp_eq (v := p.vend) (by rw [hvend]; unfold taskSize at hend; omega))
      have hupal := pageAligned_alignUp p.vend
      have hlt := alignUp_lt p.vend
      rw [wrap_of_lt (show p.pOffset + i < 2 ^ 32 from by unfold wordSize at hsize; omega)]
      refine ⟨by omega, Mm.Vm.mem_pagesIn.mpr ?_⟩
      unfold Elf32Phdr.segStart Elf32Phdr.segEnd alignDown
      rw [alignUp_of_pageAligned hupal hlt]
      unfold PageAligned at hupal
      unfold pageSize
      omega

/-- A segment that fits the checks and the memory it asks for. -/
theorem one_segment_sound :
    let file := elfFile 0x400000 [⟨1, 0, 0x400000, 52, 0x1000, 5⟩]
    checkProgram file = .ok (0x400000, 0x401000) ∧ file.SoundHeaders := by
  intro file
  have hr : checkProgram file = .ok (0x400000, 0x401000) := by decide +kernel
  refine ⟨hr, (headers_sound_iff (by decide +kernel) hr).mpr ?_⟩
  have hphdrs : file.phdrs = [⟨1, 0, 0x400000, 52, 0x1000, 5⟩] := by decide +kernel
  exact ⟨by decide +kernel, by rw [hphdrs]; decide⟩

/-- A segment with 80 bytes in the file and 16 in memory: the rest is copied to the next page. -/
theorem long_segment_accepted :
    let file := elfFile 0x400FF0 [⟨1, 0, 0x400FF0, 80, 16, 5⟩]
    file.iSize < wordSize ∧ checkProgram file = .ok (0x400FF0, 0x401000) ∧
      ¬ file.SoundHeaders ∧ ∃ p ∈ file.phdrs, p.loaded = true ∧ 16 < p.pFilesz ∧
        (p.pVaddr + 16) / pageSize ∉ pagesIn p.segStart p.segEnd := by
  intro file
  have hphdrs : file.phdrs = [⟨1, 0, 0x400FF0, 80, 16, 5⟩] := by decide +kernel
  have hmem : ⟨1, 0, 0x400FF0, 80, 16, 5⟩ ∈ file.phdrs := by
    rw [hphdrs]
    exact List.mem_singleton_self _
  refine ⟨by decide +kernel, by decide +kernel, fun h => ?_, _, hmem, by decide, by decide,
    by decide⟩
  exact absurd (h.segments _ hmem (by decide)).1 (by decide)

end LiteKernel.Fs
