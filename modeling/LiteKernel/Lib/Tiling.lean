import Mathlib.Data.Finset.Basic
import Mathlib.Data.Multiset.Bind
import Mathlib.Data.Multiset.Range
import Mathlib.Data.Nat.Bitwise
import Mathlib.Tactic

/-!
# Tilings by blocks of a power of two

A block of order `k` is a run of `2 ^ k` consecutive frames. A multiset
of blocks *tiles* a finite set of frames when its blocks, counted with
multiplicity, have exactly these frames; so the blocks are disjoint and cover the
set. Splitting a block into its two halves and fusing two buddies are equations
between multisets of frames, hence keep every tiling.

Main results: `Tiles.split_iff`, `buddy_cases`, `Tiles.fuse`, `Tiles.not_mem_of_cons`,
`Tiles.sum_eq_card`, `Canonical.unique`.
-/

namespace LiteKernel.Lib

open Multiset

/-- The run of `2 ^ order` frames from `base` on. -/
@[ext]
structure Block where
  base : Nat
  order : Nat
  deriving DecidableEq, Repr

variable {f k p : Nat} {b c : Block}

namespace Block

/-- The frames of a block. -/
def frames (b : Block) : Multiset Nat :=
  (Multiset.range (2 ^ b.order)).map (b.base + ·)

/-- The two blocks have no frame in common. -/
def Disjoint (b c : Block) : Prop :=
  ∀ f ∈ b.frames, f ∉ c.frames

@[simp]
lemma mem_frames {b : Block} {f : Nat} :
    f ∈ b.frames ↔ b.base ≤ f ∧ f < b.base + 2 ^ b.order := by
  simp only [frames, mem_map, mem_range]
  constructor
  · rintro ⟨i, hi, rfl⟩
    omega
  · intro h
    exact ⟨f - b.base, by omega, by omega⟩

lemma base_mem_frames (b : Block) : b.base ∈ b.frames := by
  have hpos : 0 < 2 ^ b.order := Nat.two_pow_pos _
  rw [mem_frames]
  omega

lemma frames_zero (p : Nat) : (Block.mk p 0).frames = {p} :=
  rfl

lemma frames_succ (p k : Nat) :
    (Block.mk p (k + 1)).frames = (Block.mk p k).frames + (Block.mk (p + 2 ^ k) k).frames := by
  have hpow : 2 ^ (k + 1) = 2 ^ k + 2 ^ k := by ring
  simp only [frames, hpow, range_add, map_add, map_map]
  congr 1
  apply map_congr rfl
  intro i _
  simp only [Function.comp_apply]
  ring

end Block

/-! ## Tilings -/

/-- The blocks of `bs` are disjoint and cover exactly the frames of `F`. -/
def Tiles (bs : Multiset Block) (F : Finset Nat) : Prop :=
  bs.bind Block.frames = F.val

namespace Tiles

variable {bs : Multiset Block} {F : Finset Nat}
variable {b c : Block}

lemma empty : Tiles 0 ∅ := by
  simp [Tiles]

lemma mem_iff (h : Tiles bs F) {f : Nat} : f ∈ F ↔ ∃ b ∈ bs, f ∈ b.frames := by
  rw [← Finset.mem_val, ← h, mem_bind]

lemma base_mem (h : Tiles bs F) (hb : b ∈ bs) : b.base ∈ F :=
  h.mem_iff.mpr ⟨b, hb, b.base_mem_frames⟩

lemma last_mem (h : Tiles bs F) (hb : b ∈ bs) : b.base + 2 ^ b.order - 1 ∈ F := by
  have hpos : 0 < 2 ^ b.order := Nat.two_pow_pos _
  refine h.mem_iff.mpr ⟨b, hb, ?_⟩
  rw [Block.mem_frames]
  omega

lemma split_iff {p k : Nat} :
    Tiles (⟨p, k + 1⟩ ::ₘ bs) F ↔ Tiles (⟨p, k⟩ ::ₘ ⟨p + 2 ^ k, k⟩ ::ₘ bs) F := by
  simp only [Tiles, cons_bind, Block.frames_succ, add_assoc]

lemma not_mem_of_cons (h : Tiles (b ::ₘ bs) F) (hc : c ∈ bs) : b.Disjoint c := by
  intro f hb hf
  have hnodup : (b.frames + bs.bind Block.frames).Nodup := by
    rw [← cons_bind, h]
    exact F.nodup
  have hdisj := (nodup_add.mp hnodup).2.2
  exact disjoint_left.mp hdisj hb (mem_bind.mpr ⟨c, hc, hf⟩)

/-- No block of a tiling occurs twice, and no other block has the same first frame. -/
lemma ne_base_of_cons (h : Tiles (b ::ₘ bs) F) (hc : c ∈ bs) : c.base ≠ b.base := by
  intro heq
  have hmem : b.base ∈ c.frames := heq ▸ c.base_mem_frames
  exact h.not_mem_of_cons hc b.base b.base_mem_frames hmem

/-- A frame outside the tiled set is added as a block of order zero. -/
lemma insert_frame (h : Tiles bs F) {f : Nat} (hf : f ∉ F) :
    Tiles (⟨f, 0⟩ ::ₘ bs) (insert f F) := by
  rw [Tiles, cons_bind, h, Block.frames_zero, Finset.insert_val_of_notMem hf]
  rfl

/-- The blocks of a tiling, as a list, are pairwise disjoint. -/
lemma pairwise_disjoint {l : List Block} (h : Tiles ((l : Multiset Block) + bs) F) :
    l.Pairwise Block.Disjoint := by
  induction l generalizing bs with
  | nil => exact List.Pairwise.nil
  | cons b l ih =>
    have hcons : Tiles (b ::ₘ ((l : Multiset Block) + bs)) F := by
      rw [← cons_add, cons_coe]
      exact h
    have htail : Tiles ((l : Multiset Block) + (b ::ₘ bs)) F := by
      rw [add_cons]
      exact hcons
    refine List.pairwise_cons.mpr ⟨?_, ih htail⟩
    intro c hc
    exact hcons.not_mem_of_cons (mem_add.mpr (.inl (mem_coe.mpr hc)))

/-- The sizes of the blocks of a tiling add up to the number of frames. -/
lemma sum_eq_card (h : Tiles bs F) : (bs.map fun b => 2 ^ b.order).sum = F.card := by
  have hcard := congrArg Multiset.card h
  rw [Multiset.card_bind, Finset.card_val] at hcard
  rw [← hcard]
  congr 1
  refine Multiset.map_congr rfl fun b _ => ?_
  simp [Block.frames]

end Tiles

/-! ## Buddies -/

/--
The exclusive or of an aligned base with the block size is the base of the other
half of the enclosing block of the next order.
-/
lemma buddy_cases (h : 2 ^ k ∣ p) :
    (2 ^ (k + 1) ∣ p ∧ p ^^^ 2 ^ k = p + 2 ^ k) ∨
      (2 ^ (k + 1) ∣ p ^^^ 2 ^ k ∧ p = (p ^^^ 2 ^ k) + 2 ^ k) := by
  obtain ⟨q, rfl⟩ := h
  have hxor : 2 ^ k * q ^^^ 2 ^ k = 2 ^ k * (q ^^^ 1) := by
    have hone : 2 ^ k = 1 <<< k := by simp [Nat.shiftLeft_eq]
    have hq : 2 ^ k * q = q <<< k := by rw [Nat.shiftLeft_eq, Nat.mul_comm]
    have hq' : 2 ^ k * (q ^^^ 1) = (q ^^^ 1) <<< k := by rw [Nat.shiftLeft_eq, Nat.mul_comm]
    rw [hq, hq', Nat.shiftLeft_xor_distrib, ← hone]
  rcases Nat.even_or_odd q with he | ho
  · left
    obtain ⟨r, hr⟩ := he
    refine ⟨⟨r, ?_⟩, ?_⟩
    · rw [hr]
      ring
    · rw [hxor, Nat.xor_one_of_even ⟨r, hr⟩]
      ring
  · right
    obtain ⟨r, hr⟩ := ho
    have hsub : q ^^^ 1 = 2 * r := by
      rw [Nat.xor_one_of_odd ⟨r, hr⟩]
      omega
    refine ⟨⟨r, ?_⟩, ?_⟩
    · rw [hxor, hsub]
      ring
    · rw [hxor, hsub, hr]
      ring

lemma buddy_of_aligned (h : 2 ^ (k + 1) ∣ p) : p ^^^ 2 ^ k = p + 2 ^ k := by
  rcases buddy_cases ((pow_dvd_pow 2 (Nat.le_succ k)).trans h) with ⟨_, heq⟩ | ⟨hdvd, heq⟩
  · exact heq
  · rw [heq] at h
    exact absurd ((Nat.dvd_add_right hdvd).mp h)
      (Nat.not_dvd_of_pos_of_lt (Nat.two_pow_pos k) (Nat.pow_lt_pow_succ (by decide)))

lemma aligned_min_buddy (h : 2 ^ k ∣ p) : 2 ^ (k + 1) ∣ min p (p ^^^ 2 ^ k) := by
  rcases buddy_cases h with ⟨hd, heq⟩ | ⟨hd, heq⟩
  · rw [min_eq_left (by omega)]
    exact hd
  · rw [min_eq_right (by omega)]
    exact hd

/-- Two buddies of a tiling may be exchanged for the block they form. -/
lemma Tiles.fuse {bs : Multiset Block} {F : Finset Nat} (hal : 2 ^ k ∣ p)
    (h : Tiles (⟨p, k⟩ ::ₘ ⟨p ^^^ 2 ^ k, k⟩ ::ₘ bs) F) :
    Tiles (⟨min p (p ^^^ 2 ^ k), k + 1⟩ ::ₘ bs) F := by
  rw [Tiles.split_iff]
  rcases buddy_cases hal with ⟨_, heq⟩ | ⟨_, heq⟩
  · rw [min_eq_left (by omega), ← heq]
    exact h
  · rw [min_eq_right (by omega), ← heq, cons_swap]
    exact h

/-! ## Canonical tilings -/

namespace Tiles

variable {bs : Multiset Block} {F : Finset Nat}

lemma eq_of_mem (h : Tiles bs F) {b c : Block} (hb : b ∈ bs) (hc : c ∈ bs) {f : Nat}
    (hfb : f ∈ b.frames) (hfc : f ∈ c.frames) : b = c := by
  by_contra hne
  rw [← cons_erase hb] at h
  exact h.not_mem_of_cons ((mem_erase_of_ne (Ne.symm hne)).mpr hc) f hfb hfc

lemma nodup (h : Tiles bs F) : bs.Nodup := by
  rw [nodup_iff_ne_cons_cons]
  rintro b bs' rfl
  exact h.ne_base_of_cons (mem_cons_self b bs') rfl

/-- Some of the blocks of a tiling tile their own frames. -/
lemma of_add {cs : Multiset Block} (h : Tiles (cs + bs) F) :
    Tiles bs (bs.bind Block.frames).toFinset := by
  have hnodup : (cs.bind Block.frames + bs.bind Block.frames).Nodup := by
    rw [← add_bind, h]
    exact F.nodup
  exact ((nodup_add.mp hnodup).2.1.dedup).symm

end Tiles

/-- The frames of an aligned block are those with the same leading bits. -/
lemma Block.mem_frames_of_aligned (hal : 2 ^ b.order ∣ b.base) :
    f ∈ b.frames ↔ f / 2 ^ b.order = b.base / 2 ^ b.order := by
  have hpos : 0 < 2 ^ b.order := Nat.two_pow_pos _
  rw [mem_frames, Nat.div_eq_iff hpos, Nat.div_mul_cancel hal]
  omega

/-- Of two aligned blocks with a common frame one lies in the other. -/
lemma Block.subset_of_mem (hb : 2 ^ b.order ∣ b.base) (hc : 2 ^ c.order ∣ c.base)
    (hle : b.order ≤ c.order) (hfb : f ∈ b.frames) (hfc : f ∈ c.frames) : b.frames ⊆ c.frames := by
  intro g hg
  rw [mem_frames_of_aligned hb] at hfb hg
  rw [mem_frames_of_aligned hc] at hfc ⊢
  have hpow : 2 ^ c.order = 2 ^ b.order * 2 ^ (c.order - b.order) := by
    rw [← pow_add, Nat.add_sub_cancel' hle]
  rw [← hfc, hpow, ← Nat.div_div_eq_div_mul, ← Nat.div_div_eq_div_mul, hg, hfb]

lemma Block.eq_of_aligned (hb : 2 ^ b.order ∣ b.base) (hc : 2 ^ c.order ∣ c.base)
    (heq : b.order = c.order) (hfb : f ∈ b.frames) (hfc : f ∈ c.frames) : b = c := by
  rw [mem_frames_of_aligned hb] at hfb
  rw [mem_frames_of_aligned hc, ← heq] at hfc
  rw [← heq] at hc
  refine Block.ext ?_ heq
  rw [← Nat.div_mul_cancel hb, ← Nat.div_mul_cancel hc, ← hfb, hfc]

/-- A tiling by aligned blocks of order at most `m` in which no buddies are left apart. -/
structure Canonical (m : Nat) (bs : Multiset Block) (F : Finset Nat) : Prop where
  tiles : Tiles bs F
  aligned : ∀ b ∈ bs, 2 ^ b.order ∣ b.base
  order_le : ∀ b ∈ bs, b.order ≤ m
  apart : ∀ b ∈ bs, b.order < m → ⟨b.base ^^^ 2 ^ b.order, b.order⟩ ∉ bs

namespace Canonical

variable {m : Nat} {bs cs : Multiset Block} {F : Finset Nat}

/-- An aligned block of tiled frames lies in one block of the tiling. -/
lemma exists_cover (h : Canonical m bs F) {p k : Nat} (hk : k ≤ m) (hal : 2 ^ k ∣ p)
    (hF : ∀ f ∈ (Block.mk p k).frames, f ∈ F) : ∃ c ∈ bs, k ≤ c.order ∧ p ∈ c.frames := by
  induction k generalizing p with
  | zero =>
    obtain ⟨c, hc, hf⟩ := h.tiles.mem_iff.mp (hF p (Block.base_mem_frames _))
    exact ⟨c, hc, Nat.zero_le _, hf⟩
  | succ k ih =>
    have hpow : 2 ^ (k + 1) = 2 ^ k + 2 ^ k := by ring
    have hlow : 2 ^ k ∣ p := (pow_dvd_pow 2 (Nat.le_succ k)).trans hal
    have hhigh : 2 ^ k ∣ p + 2 ^ k := hlow.add dvd_rfl
    simp only [Block.mem_frames, hpow] at hF
    have hhalf : ∀ q, p ≤ q → q ≤ p + 2 ^ k → ∀ f ∈ (Block.mk q k).frames, f ∈ F := by
      intro q h1 h2 f hf
      simp only [Block.mem_frames] at hf
      exact hF f (by omega)
    obtain ⟨c, hc, hck, hpc⟩ := ih (by omega) hlow (hhalf p le_rfl (by omega))
    obtain ⟨d, hd, hdk, hpd⟩ := ih (by omega) hhigh (hhalf _ (by omega) le_rfl)
    -- a block that is larger than a half has the whole, and two halves would be buddies
    have hself : p ∈ (Block.mk p (k + 1)).frames := Block.base_mem_frames _
    have hupper : p + 2 ^ k ∈ (Block.mk p (k + 1)).frames := by
      simp only [Block.mem_frames, hpow]
      omega
    rcases hck.lt_or_eq with hck | hck
    · exact ⟨c, hc, hck, hpc⟩
    rcases hdk.lt_or_eq with hdk | hdk
    · exact ⟨d, hd, hdk,
        Block.subset_of_mem (b := ⟨p, k + 1⟩) hal (h.aligned d hd) hdk hupper hpd hself⟩
    · have hceq : ⟨p, k⟩ = c := Block.eq_of_aligned hlow (h.aligned c hc) hck
        (Block.base_mem_frames _) hpc
      have hdeq : ⟨p + 2 ^ k, k⟩ = d := Block.eq_of_aligned hhigh (h.aligned d hd) hdk
        (Block.base_mem_frames _) hpd
      rw [← hceq] at hc
      rw [← hdeq] at hd
      exact absurd (buddy_of_aligned hal ▸ hd) (h.apart _ hc (by simp only; omega))

lemma subset (h : Canonical m bs F) (h' : Canonical m cs F) : bs ⊆ cs := by
  intro b hb
  have hF : ∀ {ds : Multiset Block}, Canonical m ds F → ∀ d ∈ ds, ∀ f ∈ d.frames, f ∈ F :=
    fun hds d hd f hf => hds.tiles.mem_iff.mpr ⟨d, hd, hf⟩
  obtain ⟨c, hc, hbc, hpc⟩ := h'.exists_cover (h.order_le b hb) (h.aligned b hb) (hF h b hb)
  obtain ⟨d, hd, hcd, hpd⟩ := h.exists_cover (h'.order_le c hc) (h'.aligned c hc) (hF h' c hc)
  have hsub := Block.subset_of_mem (h'.aligned c hc) (h.aligned d hd) hcd c.base_mem_frames hpd
  have hbd : b = d := h.tiles.eq_of_mem hb hd b.base_mem_frames (hsub hpc)
  subst hbd
  have hbc' : b = c := Block.eq_of_aligned (h.aligned b hb) (h'.aligned c hc)
    (le_antisymm hbc hcd) b.base_mem_frames hpc
  exact hbc' ▸ hc

/-- A set of frames has at most one canonical tiling. -/
lemma unique (h : Canonical m bs F) (h' : Canonical m cs F) : bs = cs :=
  (h.tiles.nodup.ext h'.tiles.nodup).mpr fun _ => ⟨fun hb => h.subset h' hb, fun hb => h'.subset h hb⟩

end Canonical

end LiteKernel.Lib
