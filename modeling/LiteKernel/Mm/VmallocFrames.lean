import Mathlib.Data.Finset.Basic
import Mathlib.Logic.Function.Basic

/-!
# The frames of a vmalloc block

`vmalloc` maps its frames into `kernel_directory`. `vfree`, and a `vmalloc` that runs out of
frames, look each frame up with `virt_to_phys` again, which reads the directory that is current. A
process directory that was cloned before the kernel's table was installed has no such table, and a
page whose table could not be allocated was never mapped: its frame is not found and stays taken.

A directory gives the frame of each table and a table the frame of each page. The scheduler is the
directory that is current at each lookup. What `alloc_page` answers is part of the state.

Main results:

- Theorem `vmalloc_gives_back_iff`: when the frames come back.
- Theorem `vfree_loses_frame`: a frame that is lost.
-/

namespace LiteKernel.Mm

open Finset Function Option

/-- The frame of the table at each index of a page directory. -/
abbrev Directory := Nat → Option Nat

/-- The free frames, `kernel_directory` and the page tables. -/
structure KernelMap where
  free : Finset Nat
  /-- The answers of `alloc_page` in turn; a frame that is not free stands for a failure. -/
  answer : Nat → Option Nat
  calls : Nat
  kernelPde : Directory
  pte : Nat → Nat → Option Nat

namespace KernelMap

/-! ## The functions of the source -/

/-- `alloc_page`. -/
def allocPage (s : KernelMap) : Option Nat × KernelMap :=
  match s.answer s.calls with
  | some f =>
    if f ∈ s.free then (some f, { s with free := s.free.erase f, calls := s.calls + 1 })
    else (none, { s with calls := s.calls + 1 })
  | none => (none, { s with calls := s.calls + 1 })

/-- `free_page` for a frame with one user. -/
def freePage (f : Nat) (s : KernelMap) : KernelMap :=
  { s with free := insert f s.free }

/-- Writes entry `i` of the table in frame `t`. -/
def setPte (t i : Nat) (e : Option Nat) (s : KernelMap) : KernelMap :=
  { s with pte := Function.update s.pte t (Function.update (s.pte t) i e) }

/-- Installs an empty table in frame `t` at index `p` of `kernel_directory`. -/
def addTable (p t : Nat) (s : KernelMap) : KernelMap :=
  { s with
    kernelPde := Function.update s.kernelPde p (some t)
    pte := Function.update s.pte t fun _ => none }

/-- `map_page_ex` on `kernel_directory`. -/
def mapPageEx (f v : Nat) (s : KernelMap) : KernelMap :=
  match s.kernelPde (v / 1024) with
  | some t => s.setPte t (v % 1024) (some f)
  | none =>
    match s.allocPage with
    | (none, s) => s -- only a message is printed; the caller is not told
    | (some t, s) => (s.addTable (v / 1024) t).setPte t (v % 1024) (some f)

/-- `virt_to_phys` while the current directory is `d`. -/
def virtToPhys (d : Directory) (v : Nat) (s : KernelMap) : Option Nat :=
  (d (v / 1024)).bind fun t => s.pte t (v % 1024)

/-- `unmap_page_pgd` on `kernel_directory`. -/
def unmapPagePgd (v : Nat) (s : KernelMap) : KernelMap :=
  match s.kernelPde (v / 1024) with
  | some t => s.setPte t (v % 1024) none
  | none => s

/-- One round of the loop of `vmalloc_unmap_block`. -/
def unmapPage (d : Directory) (v : Nat) (s : KernelMap) : KernelMap :=
  match s.virtToPhys d v with
  | some f => (s.unmapPagePgd v).freePage f
  | none => s.unmapPagePgd v

/-- The loop of `vmalloc_unmap_block` and of a failing `vmalloc`: `n` rounds from page `k` of the
block at `v₀` on. -/
def unmapPages (cur : Nat → Directory) (v₀ : Nat) : Nat → Nat → KernelMap → KernelMap
  | _, 0, s => s
  | k, n + 1, s => unmapPages cur v₀ (k + 1) n (s.unmapPage (cur k) (v₀ + k))

/-- The mapping loop of `vmalloc` with `n` rounds left, and how many pages it came to. -/
def mapPages (v₀ : Nat) : Nat → Nat → KernelMap → Nat × KernelMap
  | i, 0, s => (i, s)
  | i, n + 1, s =>
    match s.allocPage with
    | (none, s) => (i, s)
    | (some f, s) => mapPages v₀ (i + 1) n (s.mapPageEx f (v₀ + i))

/-- `vmalloc` of `n` pages at `v₀` up to the clean-up; `full` says that `kmalloc` needs a frame for
the descriptor, which `kfree` will leave in its cache. -/
def vmalloc (full : Bool) (v₀ n : Nat) (s : KernelMap) : Nat × KernelMap :=
  if full then
    match s.allocPage with
    | (none, s) => (0, s)
    | (some _, s) => mapPages v₀ 0 n s
  else mapPages v₀ 0 n s

/-- `vmalloc`, and then its clean-up or `vfree`, which run the same loop over the mapped pages. -/
def vmallocVfree (full : Bool) (v₀ n : Nat) (cur : Nat → Directory) (s : KernelMap) : KernelMap :=
  unmapPages cur v₀ 0 (s.vmalloc full v₀ n).1 (s.vmalloc full v₀ n).2

/-! ## Reading a page after a write -/

/-- No table is installed twice. -/
def Distinct (d : Directory) : Prop :=
  ∀ {p q t}, d p = some t → d q = some t → p = q

/-- The kernel's tables are not free, and none is installed twice. -/
structure Sound (s : KernelMap) : Prop where
  taken : ∀ {p t}, s.kernelPde p = some t → t ∉ s.free
  distinct : Distinct s.kernelPde

/-- For page `v`, directory `d` has the kernel's table or none, as an earlier clone does. -/
def Shares (s : KernelMap) (d : Directory) (v : Nat) : Prop :=
  d (v / 1024) = none ∨ d (v / 1024) = s.kernelPde (v / 1024)

variable {s0 s : KernelMap} {cur : Nat → Directory} {fs : Nat → Nat} {v₀ i f : Nat}

lemma virtToPhys_setPte_of_ne {d : Directory} {v w t : Nat} {e : Option Nat}
    (hs : Distinct s.kernelPde) (hd : s.Shares d w) (ht : s.kernelPde (v / 1024) = some t)
    (hne : w ≠ v) :
    (s.setPte t (v % 1024) e).virtToPhys d w = s.virtToPhys d w := by
  unfold virtToPhys
  rcases hd with hw | hw
  · rw [hw]
    rfl
  rw [hw]
  cases hk : s.kernelPde (w / 1024) with
  | none => rfl
  | some u =>
    show update s.pte t _ u (w % 1024) = s.pte u (w % 1024)
    by_cases hu : u = t
    · subst hu
      -- one table holds both pages, so they differ in their index
      have hp : w / 1024 = v / 1024 := hs hk ht
      have hi : w % 1024 ≠ v % 1024 := by omega
      rw [update_self, update_of_ne hi]
    · rw [update_of_ne hu]

lemma virtToPhys_setPte_self {v t : Nat} {e : Option Nat}
    (ht : s.kernelPde (v / 1024) = some t) :
    (s.setPte t (v % 1024) e).virtToPhys (s.setPte t (v % 1024) e).kernelPde v = e := by
  show (s.kernelPde (v / 1024)).bind _ = e
  rw [ht]
  show update s.pte t _ t (v % 1024) = e
  rw [update_self, update_self]

lemma shares_kernelPde (s : KernelMap) (v : Nat) : s.Shares s.kernelPde v :=
  .inr rfl

/-! ## Allocating and mapping -/

lemma allocPage_cases (s : KernelMap) :
    s.allocPage = (none, { s with calls := s.calls + 1 }) ∨
      ∃ f ∈ s.free, s.allocPage =
        (some f, { s with free := s.free.erase f, calls := s.calls + 1 }) := by
  unfold allocPage
  cases s.answer s.calls with
  | none => exact .inl rfl
  | some f =>
    by_cases hf : f ∈ s.free
    · exact .inr ⟨f, hf, if_pos hf⟩
    · exact .inl (if_neg hf)

lemma Sound.take (h : s.Sound) (f c : Nat) :
    Sound { s with free := s.free.erase f, calls := c } where
  taken := fun ht hm => h.taken ht (mem_of_mem_erase hm)
  distinct := h.distinct

/-- A frame that was free holds no table. -/
lemma Sound.ne_table (h : s.Sound) (hf : f ∈ s.free) (p : Nat) : s.kernelPde p ≠ some f :=
  fun ht => h.taken ht hf

/-- What mapping frame `f` at page `v` makes of the state `s`. -/
structure MapEffect (f v : Nat) (s r : KernelMap) : Prop where
  sound : r.Sound
  free_sub : r.free ⊆ s.free
  gone : ∀ g ∈ s.free, g ∉ r.free → ∃ p, r.kernelPde p = some g
  keeps : ∀ {p t}, s.kernelPde p = some t → r.kernelPde p = some t
  table : ∀ {p t}, r.kernelPde p = some t → s.kernelPde p = some t ∨ t ∈ s.free
  self : r.virtToPhys r.kernelPde v = none ∨ r.virtToPhys r.kernelPde v = some f
  other : ∀ w, w ≠ v → r.virtToPhys r.kernelPde w = s.virtToPhys s.kernelPde w

lemma Sound.addTable (h : s.Sound) {t : Nat} (ht : t ∈ s.free) (p c : Nat) :
    Sound (KernelMap.addTable p t { s with free := s.free.erase t, calls := c }) where
  taken := by
    intro q u hq hm
    have hq' : update s.kernelPde p (some t) q = some u := hq
    rw [update_apply] at hq'
    split_ifs at hq' with hqp
    · exact notMem_erase t s.free (some.inj hq' ▸ hm)
    · exact h.taken hq' (mem_of_mem_erase hm)
  distinct := by
    intro q q' u hq hq'
    have hu : update s.kernelPde p (some t) q = some u := hq
    have hu' : update s.kernelPde p (some t) q' = some u := hq'
    by_cases hqp : q = p <;> by_cases hqp' : q' = p
    · rw [hqp, hqp']
    · rw [hqp, update_self] at hu
      rw [update_of_ne hqp', ← hu] at hu'
      exact absurd hu' (h.ne_table ht q')
    · rw [hqp', update_self] at hu'
      rw [update_of_ne hqp, ← hu'] at hu
      exact absurd hu (h.ne_table ht q)
    · rw [update_of_ne hqp] at hu
      rw [update_of_ne hqp'] at hu'
      exact h.distinct hu hu'

/-- A new table maps nothing, and the other tables map what they mapped. -/
lemma Sound.virtToPhys_addTable (h : s.Sound) {p t : Nat} (ht : t ∈ s.free)
    (hp : s.kernelPde p = none) (c w : Nat) :
    (KernelMap.addTable p t { s with free := s.free.erase t, calls := c }).virtToPhys
      (Function.update s.kernelPde p (some t)) w = s.virtToPhys s.kernelPde w := by
  unfold virtToPhys
  by_cases hw : w / 1024 = p
  · rw [hw, update_self, hp]
    show update s.pte t (fun _ => none) t (w % 1024) = none
    rw [update_self]
  · rw [update_of_ne hw]
    cases hk : s.kernelPde (w / 1024) with
    | none => rfl
    | some u =>
      have hu : u ≠ t := fun e => h.ne_table ht _ (e ▸ hk)
      show update s.pte t (fun _ => none) u (w % 1024) = s.pte u (w % 1024)
      rw [update_of_ne hu]

/-- `map_page_ex` maps the page, or nothing at all, and takes at most the frame of a table. -/
lemma mapPageEx_spec (h : s.Sound) (f v : Nat) : MapEffect f v s (s.mapPageEx f v) := by
  unfold mapPageEx
  cases hp : s.kernelPde (v / 1024) with
  | some t =>
    exact ⟨⟨h.taken, h.distinct⟩, fun _ hg => hg, fun g hg hn => absurd hg hn, id, Or.inl,
      Or.inr (virtToPhys_setPte_self hp),
      fun w hw => virtToPhys_setPte_of_ne h.distinct (shares_kernelPde s w) hp hw⟩
  | none =>
    rcases s.allocPage_cases with ha | ⟨t, ht, ha⟩
    · rw [ha]
      refine ⟨⟨h.taken, h.distinct⟩, fun _ hg => hg, fun g hg hn => absurd hg hn, id, Or.inl,
        Or.inl ?_, fun w _ => rfl⟩
      show (s.kernelPde (v / 1024)).bind _ = none
      rw [hp]
      rfl
    · rw [ha]
      have hsound := h.addTable ht (v / 1024) (s.calls + 1)
      have hpde : update s.kernelPde (v / 1024) (some t) (v / 1024) = some t :=
        update_self ..
      refine ⟨⟨hsound.taken, hsound.distinct⟩, fun g hg => mem_of_mem_erase hg, ?_, ?_, ?_,
        Or.inr (virtToPhys_setPte_self hpde), fun w hw => ?_⟩
      · intro g hg hn
        have hgt : g = t := by
          by_contra hne
          exact hn (mem_erase.2 ⟨hne, hg⟩)
        exact ⟨v / 1024, hgt ▸ hpde⟩
      · intro q u hq
        have hne : q ≠ v / 1024 := by
          rintro rfl
          rw [hp] at hq
          cases hq
        exact (update_of_ne hne ..).trans hq
      · intro q u hq
        have hq' : update s.kernelPde (v / 1024) (some t) q = some u := hq
        by_cases hqv : q = v / 1024
        · rw [hqv, update_self] at hq'
          exact .inr (some.inj hq' ▸ ht)
        · exact .inl ((update_of_ne hqv ..).symm.trans hq')
      · rw [← h.virtToPhys_addTable ht hp (s.calls + 1) w]
        exact virtToPhys_setPte_of_ne hsound.distinct (shares_kernelPde _ _) hpde hw

/-! ## The mapping loop -/

/-- State `s` after `i` rounds from `s0`, of which round `j` took the frame `fs j`. -/
structure Mapped (s0 : KernelMap) (v₀ i : Nat) (fs : Nat → Nat) (s : KernelMap) : Prop where
  sound : s.Sound
  free_sub : s.free ⊆ s0.free
  table : ∀ {p t}, s.kernelPde p = some t → s0.kernelPde p = some t ∨ t ∈ s0.free
  frame_mem : ∀ j < i, fs j ∈ s0.free
  frame_taken : ∀ j < i, fs j ∉ s.free
  frame_table : ∀ j < i, ∀ p, s.kernelPde p ≠ some (fs j)
  frame_inj : ∀ j < i, ∀ l < i, fs j = fs l → j = l
  gone : ∀ f ∈ s0.free, f ∉ s.free → (∃ j < i, fs j = f) ∨ ∃ p, s.kernelPde p = some f
  page : ∀ j < i, s.virtToPhys s.kernelPde (v₀ + j) = none ∨
    s.virtToPhys s.kernelPde (v₀ + j) = some (fs j)

lemma Mapped.start (h : s.Sound) (v₀ : Nat) (fs : Nat → Nat) : Mapped s v₀ 0 fs s :=
  ⟨h, fun _ hf => hf, Or.inl, nofun, nofun, nofun, nofun, fun _ hf hn => absurd hf hn, nofun⟩

/-- A call of `alloc_page` that fails changes nothing that the loop depends on. -/
lemma Mapped.fail (h : Mapped s0 v₀ i fs s) (c : Nat) : Mapped s0 v₀ i fs { s with calls := c }:=
  ⟨⟨h.sound.taken, h.sound.distinct⟩, h.free_sub, h.table, h.frame_mem, h.frame_taken,
    h.frame_table, h.frame_inj, h.gone, h.page⟩

lemma Mapped.round {v₀ i f : Nat} (h : Mapped s0 v₀ i fs s) (hf : f ∈ s.free) (c : Nat) :
    Mapped s0 v₀ (i + 1) (Function.update fs i f)
      (KernelMap.mapPageEx f (v₀ + i) { s with free := s.free.erase f, calls := c }) := by
  have hm := mapPageEx_spec (h.sound.take f c) f (v₀ + i)
  set r := KernelMap.mapPageEx f (v₀ + i) { s with free := s.free.erase f, calls := c }
  have hnew : update fs i f i = f := update_self ..
  have hold : ∀ j < i, update fs i f j = fs j := fun j hj =>
    update_of_ne (by omega) ..
  have hne : ∀ j < i, fs j ≠ f := fun j hj e => h.frame_taken j hj (e ▸ hf)
  have hsub : r.free ⊆ s.free := hm.free_sub.trans (erase_subset f s.free)
  -- each fact is the old one for the earlier rounds and a fact about `f` for this one
  have hcases : ∀ {P : Nat → Nat → Prop}, (∀ j < i, P j (fs j)) → P i f →
      ∀ j < i + 1, P j (update fs i f j) := by
    intro P hP hPi j hj
    rcases Nat.lt_succ_iff_lt_or_eq.1 hj with hj | rfl
    · rw [hold j hj]
      exact hP j hj
    · rw [hnew]
      exact hPi
  refine ⟨hm.sound, hsub.trans h.free_sub, ?_, ?_, ?_, ?_, ?_, ?_, ?_⟩
  · intro p t hp
    rcases hm.table hp with hp | ht
    · exact h.table hp
    · exact .inr (h.free_sub (mem_of_mem_erase ht))
  · exact hcases (P := fun _ g => g ∈ s0.free) h.frame_mem (h.free_sub hf)
  · exact hcases (P := fun _ g => g ∉ r.free) (fun j hj hg => h.frame_taken j hj (hsub hg))
      (fun hg => notMem_erase f s.free (hm.free_sub hg))
  · refine hcases (P := fun _ g => ∀ p, r.kernelPde p ≠ some g) ?_ ?_
    · intro j hj p hp
      rcases hm.table hp with hp | hg
      · exact h.frame_table j hj p hp
      · exact h.frame_taken j hj (mem_of_mem_erase hg)
    · intro p hp
      rcases hm.table hp with hp | hg
      · exact h.sound.ne_table hf p hp
      · exact notMem_erase f s.free hg
  · intro j hj l hl e
    rcases Nat.lt_succ_iff_lt_or_eq.1 hj with hj | rfl <;>
      rcases Nat.lt_succ_iff_lt_or_eq.1 hl with hl | rfl
    · rw [hold j hj, hold l hl] at e
      exact h.frame_inj j hj l hl e
    · rw [hold j hj, hnew] at e
      exact absurd e (hne j hj)
    · rw [hold l hl, hnew] at e
      exact absurd e.symm (hne l hl)
    · rfl
  · intro g hg hn
    by_cases hgf : g = f
    · exact .inl ⟨i, i.lt_succ_self, hnew.trans hgf.symm⟩
    by_cases hgs : g ∈ s.free
    · exact .inr (hm.gone g (mem_erase.2 ⟨hgf, hgs⟩) hn)
    rcases h.gone g hg hgs with ⟨j, hj, rfl⟩ | ⟨p, hp⟩
    · exact .inl ⟨j, by omega, hold j hj⟩
    · exact .inr ⟨p, hm.keeps hp⟩
  · refine hcases (P := fun j g => r.virtToPhys r.kernelPde (v₀ + j) = none ∨
      r.virtToPhys r.kernelPde (v₀ + j) = some g) ?_ hm.self
    intro j hj
    rw [hm.other (v₀ + j) (by omega)]
    exact h.page j hj

/-- The mapping loop leaves what its rounds leave, wherever it stops. -/
lemma Mapped.mapPages (n : Nat) :
    ∀ {i : Nat} {fs : Nat → Nat} {s : KernelMap}, Mapped s0 v₀ i fs s →
      ∃ fs', Mapped s0 v₀ (s.mapPages v₀ i n).1 fs' (s.mapPages v₀ i n).2 := by
  induction n with
  | zero => exact fun h => ⟨_, h⟩
  | succ n ih =>
    intro i fs s h
    rw [KernelMap.mapPages]
    rcases s.allocPage_cases with ha | ⟨f, hf, ha⟩
    · rw [ha]
      exact ⟨fs, h.fail _⟩
    · rw [ha]
      exact ih (h.round hf _)

/-! ## The unmapping loop -/

lemma kernelPde_unmapPage (d : Directory) (v : Nat) (s : KernelMap) :
    (s.unmapPage d v).kernelPde = s.kernelPde := by
  unfold unmapPage unmapPagePgd
  cases s.virtToPhys d v <;> cases s.kernelPde (v / 1024) <;> rfl

lemma mem_free_unmapPage (d : Directory) (v f : Nat) (s : KernelMap) :
    f ∈ (s.unmapPage d v).free ↔ f ∈ s.free ∨ s.virtToPhys d v = some f := by
  have hfree : (s.unmapPagePgd v).free = s.free := by
    unfold unmapPagePgd
    cases s.kernelPde (v / 1024) <;> rfl
  unfold unmapPage
  cases s.virtToPhys d v with
  | none =>
    rw [hfree]
    simp
  | some g =>
    show f ∈ insert g (s.unmapPagePgd v).free ↔ _
    rw [hfree, mem_insert, some.injEq, or_comm, eq_comm]

lemma virtToPhys_unmapPage_of_ne {d d' : Directory} {v w : Nat}
    (hs : Distinct s.kernelPde) (hd : s.Shares d w) (hne : w ≠ v) :
    (s.unmapPage d' v).virtToPhys d w = s.virtToPhys d w := by
  have hone : (s.unmapPagePgd v).virtToPhys d w = s.virtToPhys d w := by
    unfold unmapPagePgd
    cases ht : s.kernelPde (v / 1024) with
    | none => rfl
    | some t => exact virtToPhys_setPte_of_ne hs hd ht hne
  unfold unmapPage
  cases s.virtToPhys d' v <;> exact hone

lemma kernelPde_unmapPages (cur : Nat → Directory) (v₀ n : Nat) :
    ∀ (k : Nat) (s : KernelMap), (unmapPages cur v₀ k n s).kernelPde = s.kernelPde := by
  induction n with
  | zero => exact fun _ _ => rfl
  | succ n ih =>
    intro k s
    rw [unmapPages, ih, kernelPde_unmapPage]

/-- The loop frees what the directories that are current map its pages to. -/
lemma mem_free_unmapPages {v₀ f : Nat} (n : Nat) :
    ∀ (k : Nat) {s : KernelMap}, Distinct s.kernelPde →
      (∀ j, k ≤ j → j < k + n → s.Shares (cur j) (v₀ + j)) →
      (f ∈ (unmapPages cur v₀ k n s).free ↔
        f ∈ s.free ∨ ∃ j, k ≤ j ∧ j < k + n ∧ s.virtToPhys (cur j) (v₀ + j) = some f) := by
  induction n with
  | zero =>
    intro k s _ _
    refine ⟨Or.inl, ?_⟩
    rintro (hf | ⟨j, hk, hj, _⟩)
    · exact hf
    · omega
  | succ n ih =>
    intro k s hs hcur
    have hpde := kernelPde_unmapPage (cur k) (v₀ + k) s
    have hs' : Distinct (s.unmapPage (cur k) (v₀ + k)).kernelPde := by
      rw [hpde]
      exact hs
    have hcur' : ∀ j, k + 1 ≤ j → j < k + 1 + n →
        (s.unmapPage (cur k) (v₀ + k)).Shares (cur j) (v₀ + j) := by
      intro j hk hj
      rw [Shares, hpde]
      exact hcur j (by omega) (by omega)
    have hpage : ∀ j, k + 1 ≤ j → j < k + 1 + n →
        (s.unmapPage (cur k) (v₀ + k)).virtToPhys (cur j) (v₀ + j) =
          s.virtToPhys (cur j) (v₀ + j) :=
      fun j hk hj => virtToPhys_unmapPage_of_ne hs (hcur j (by omega) (by omega)) (by omega)
    rw [unmapPages, ih (k + 1) hs' hcur', mem_free_unmapPage]
    constructor
    · rintro ((hf | hf) | ⟨j, hk, hj, hf⟩)
      · exact .inl hf
      · exact .inr ⟨k, le_rfl, by omega, hf⟩
      · exact .inr ⟨j, by omega, by omega, hpage j hk hj ▸ hf⟩
    · rintro (hf | ⟨j, hk, hj, hf⟩)
      · exact .inl (.inl hf)
      rcases Nat.eq_or_lt_of_le hk with rfl | hk
      · exact .inl (.inr hf)
      · exact .inr ⟨j, hk, by omega, (hpage j hk (by omega)).trans hf⟩

/-! ## Giving the frames back -/

/-- Every frame that is missing from the free ones holds a table of `kernel_directory`. -/
def GivesBack (s t : KernelMap) : Prop :=
  ∀ f ∈ s.free, f ∉ t.free → ∃ p, t.kernelPde p = some f

/-- A directory that shares the kernel's tables maps a page of the block to its own frame or to
nothing. -/
lemma Mapped.page_of_shares (h : Mapped s0 v₀ i fs s) {d : Directory} {j f : Nat}
    (hd : s.Shares d (v₀ + j)) (hj : j < i)
    (hf : s.virtToPhys d (v₀ + j) = some f) : f = fs j := by
  have hk : s.virtToPhys s.kernelPde (v₀ + j) = some f := by
    rcases hd with hn | he
    · unfold virtToPhys at hf
      rw [hn] at hf
      cases hf
    · unfold virtToPhys at hf ⊢
      rw [← he]
      exact hf
  rcases h.page j hj with hn | he
  · rw [hn] at hk
    cases hk
  · exact (some.inj (he.symm.trans hk)).symm

/-- After the mapping loop the unmapping loop frees frames of the block only. -/
lemma Mapped.free_unmapPages_subset (h : Mapped s0 v₀ i fs s)
    (hcur : ∀ j < i, s.Shares (cur j) (v₀ + j)) :
    (unmapPages cur v₀ 0 i s).free ⊆ s0.free := by
  intro f hf
  have hcur' : ∀ j, 0 ≤ j → j < 0 + i → s.Shares (cur j) (v₀ + j) :=
    fun j _ hj => hcur j (by omega)
  rcases (mem_free_unmapPages i 0 h.sound.distinct hcur').1 hf with hf | ⟨j, _, hj, hf⟩
  · exact h.free_sub hf
  · have hji : j < i := by omega
    exact h.page_of_shares (hcur j hji) hji hf ▸ h.frame_mem j hji

/-- The unmapping loop gives the frames back when every page is found, and only then. -/
lemma Mapped.givesBack_iff (h : Mapped s0 v₀ i fs s)
    (hcur : ∀ j < i, s.Shares (cur j) (v₀ + j)) :
    GivesBack s0 (unmapPages cur v₀ 0 i s) ↔
      ∀ j < i, (s.virtToPhys (cur j) (v₀ + j)).isSome := by
  have hmem : ∀ f, f ∈ (unmapPages cur v₀ 0 i s).free ↔ _ := fun f =>
    mem_free_unmapPages i 0 h.sound.distinct fun j _ hj => hcur j (by omega)
  have hpde := kernelPde_unmapPages cur v₀ i 0 s
  constructor
  · intro hback j hj
    by_contra hnone
    -- the frame of page `j` is in no table, so it must be free, and only page `j` gives it back
    have hfree : fs j ∈ (unmapPages cur v₀ 0 i s).free := by
      by_contra hn
      obtain ⟨p, hp⟩ := hback (fs j) (h.frame_mem j hj) hn
      rw [hpde] at hp
      exact h.frame_table j hj p hp
    rcases (hmem _).1 hfree with hf | ⟨l, _, hl, hf⟩
    · exact h.frame_taken j hj hf
    · have hli : l < i := by omega
      have hjl : j = l := h.frame_inj j hj l hli (h.page_of_shares (hcur l hli) hli hf)
      subst hjl
      rw [hf] at hnone
      exact hnone rfl
  · intro hall f hf hn
    have hfs : f ∉ s.free := fun hs => hn ((hmem f).2 (.inl hs))
    rw [hpde]
    rcases h.gone f hf hfs with ⟨j, hj, rfl⟩ | hp
    · obtain ⟨g, hg⟩ := isSome_iff_exists.1 (hall j hj)
      have hgj : g = fs j := h.page_of_shares (hcur j hj) hj hg
      exact absurd ((hmem _).2 (.inr ⟨j, j.zero_le, by omega, hgj ▸ hg⟩)) hn
    · exact hp

/-- Whatever directories are current, if they have no other tables than the kernel's for the pages
of the block, no foreign frame is freed; and every frame that holds no kernel table is given back
exactly when the descriptor takes no new slab and each page of the block is mapped in the directory
that is current when it is looked up. -/
theorem vmalloc_gives_back_iff (s : KernelMap) (hs : s.Sound) (full : Bool) (v₀ n : Nat)
    (cur : Nat → Directory)
    (hcur : ∀ j < (s.vmalloc full v₀ n).1, (s.vmalloc full v₀ n).2.Shares (cur j) (v₀ + j)) :
    (s.vmallocVfree full v₀ n cur).free ⊆ s.free ∧
    (s.GivesBack (s.vmallocVfree full v₀ n cur) ↔
      (full = true → s.allocPage.1 = none) ∧
      ∀ j < (s.vmalloc full v₀ n).1,
        ((s.vmalloc full v₀ n).2.virtToPhys (cur j) (v₀ + j)).isSome) := by
  unfold vmallocVfree
  cases full with
  | false =>
    have hv : s.vmalloc false v₀ n = s.mapPages v₀ 0 n := rfl
    obtain ⟨fs, hm⟩ := (Mapped.start hs v₀ id).mapPages n
    rw [hv] at hcur ⊢
    refine ⟨hm.free_unmapPages_subset hcur, (hm.givesBack_iff hcur).trans ?_⟩
    simp
  | true =>
    rcases s.allocPage_cases with ha | ⟨f, hf, ha⟩
    · have hv : s.vmalloc true v₀ n = (0, { s with calls := s.calls + 1 }) := by
        unfold vmalloc
        rw [ha]
        rfl
      have hm := (Mapped.start hs v₀ id).fail (s.calls + 1)
      rw [hv] at hcur ⊢
      refine ⟨hm.free_unmapPages_subset hcur, (hm.givesBack_iff hcur).trans ?_⟩
      simp [ha]
    · have hv : s.vmalloc true v₀ n =
          KernelMap.mapPages v₀ 0 n
            { s with free := s.free.erase f, calls := s.calls + 1 } := by
        unfold vmalloc
        rw [ha]
        rfl
      obtain ⟨fs, hm⟩ := (Mapped.start (hs.take f (s.calls + 1)) v₀ id).mapPages n
      rw [hv] at hcur ⊢
      have hsub := hm.free_unmapPages_subset hcur
      refine ⟨hsub.trans (erase_subset f s.free), ?_⟩
      -- the slab keeps `f`, which holds no table
      have hkeep : f ∉ (unmapPages cur v₀ 0 _ _).free := fun hm' =>
        notMem_erase f s.free (hsub hm')
      constructor
      · intro hback
        obtain ⟨p, hp⟩ := hback f hf hkeep
        rw [kernelPde_unmapPages] at hp
        rcases hm.table hp with hp | hm'
        · exact absurd hp (hs.ne_table hf p)
        · exact absurd hm' (notMem_erase f s.free)
      · rintro ⟨hnone, _⟩
        rw [ha] at hnone
        cases hnone rfl

/-- An empty vmalloc area and two free frames: one for a page and one for its table. -/
def twoFrames : KernelMap where
  free := {10, 11}
  answer := fun k => [some 10, some 11].getD k none
  calls := 0
  kernelPde := fun _ => none
  pte := fun _ _ => none

lemma sound_twoFrames : twoFrames.Sound :=
  ⟨nofun, nofun⟩

/-- Under the kernel's own directory the page is given back. -/
theorem vmalloc_gives_back_one :
    twoFrames.GivesBack (twoFrames.vmallocVfree false 0xE0000 1
      fun _ => (twoFrames.vmalloc false 0xE0000 1).2.kernelPde) :=
  (vmalloc_gives_back_iff twoFrames sound_twoFrames false 0xE0000 1 _
    fun _ _ => shares_kernelPde _ _).2.2 ⟨nofun, by decide +kernel⟩

/-- Under a process directory that was cloned before, frame 10 is lost: no entry of the kernel's
directory, whose only table is in frame 11, leads to it. -/
theorem vfree_loses_frame :
    (∀ v, (twoFrames.vmalloc false 0xE0000 1).2.Shares (fun _ => none) v) ∧
    10 ∈ twoFrames.free ∧
    (twoFrames.vmallocVfree false 0xE0000 1 fun _ _ => none).free = ∅ ∧
    (twoFrames.vmallocVfree false 0xE0000 1 fun _ _ => none).kernelPde 0x380 = some 11 ∧
    ¬ twoFrames.GivesBack (twoFrames.vmallocVfree false 0xE0000 1 fun _ _ => none) := by
  refine ⟨fun _ => .inl rfl, by decide, by decide +kernel, by decide +kernel, ?_⟩
  intro h
  obtain ⟨p, hp⟩ := h 10 (by decide) (by decide +kernel)
  have hone : (twoFrames.vmallocVfree false 0xE0000 1 fun _ _ => none).kernelPde =
      update (fun _ => none) 0x380 (some 11) := rfl
  rw [hone] at hp
  by_cases hp' : p = 0x380
  · rw [hp', update_self] at hp
    exact absurd hp (by decide)
  · rw [update_of_ne hp'] at hp
    cases hp

end KernelMap
end LiteKernel.Mm
