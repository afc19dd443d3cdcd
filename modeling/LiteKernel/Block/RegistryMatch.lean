import LiteKernel.Block.Registry

/-!
# The registries and the disks that are there

In a run whose calls meet `Disks.OpOk` each device number has at most one entry in
either registry, a disk that has been added is found under its number until it is
deleted, and a disk that has been deleted is in neither registry.

The conditions are those that the calls do not check: `add_disk` succeeds under a number
that another disk has, `del_gendisk` takes out the entry of the number whoever it
belongs to, and `bdget_disk` makes a block device for a disk that is not registered.
The last one is what `brd_free` does after `del_gendisk`, and what devtmpfs does for the
node of a disk whose `device_add` then fails.

Main results:

- Lemma `Registry.Sound.addDisk`: adding a disk, with what devtmpfs does for its node.
- Lemma `Registry.Sound.delGendisk`: deleting a disk, or refusing to while it is open.
- Theorem `Disks.matches_run`: the registries match in every state of a run.
- Theorem `Disks.brdFree_not_matches`: `brd_free` leaves a block device of the freed disk.
-/

namespace LiteKernel.Block

open Function Lib List Option

namespace Registry

variable {s : Registry} {added deleted : Nat → Bool} {b d v : Nat} {mem : Option Nat}

/-- The block device has an entry. -/
def Registered (s : Registry) (b : Nat) : Prop :=
  ∃ e ∈ s.bdevMap, e.2 = b

/--
The registries match the disks that have been added and deleted, and every block
device that has an entry is in memory, with a reference for the entry and one for its
inode.
-/
structure Sound (added deleted : Nat → Bool) (s : Registry) : Prop where
  diskKeys : KeysNodup s.diskMap
  bdevKeys : KeysNodup s.bdevMap
  diskDevt : ∀ e ∈ s.diskMap, s.devt e.2 = e.1
  bdevDevt : ∀ e ∈ s.bdevMap, s.devt (s.bdev e.2).disk = e.1
  held : ∀ e ∈ s.bdevMap, s.allocated e.2 = true ∧ (s.bdev e.2).inode.toNat < (s.bdev e.2).refcnt
  added : ∀ d, added d = true → (s.devt d, d) ∈ s.diskMap
  deleted : ∀ d, deleted d = true →
    (∀ e ∈ s.diskMap, e.2 ≠ d) ∧ ∀ e ∈ s.bdevMap, (s.bdev e.2).disk ≠ d

/-- What an entry says about its block device. -/
def EntryOk (deleted : Nat → Bool) (s : Registry) (e : Nat × Nat) : Prop :=
  s.devt (s.bdev e.2).disk = e.1 ∧
    (s.allocated e.2 = true ∧ (s.bdev e.2).inode.toNat < (s.bdev e.2).refcnt) ∧
    deleted (s.bdev e.2).disk = false

/-! ## References -/

section

variable (hs : s.Sound added deleted)
include hs

lemma Sound.entryOk {e : Nat × Nat} (he : e ∈ s.bdevMap) : s.EntryOk deleted e :=
  ⟨hs.bdevDevt e he, hs.held e he,
    Bool.eq_false_iff.mpr fun hd => (hs.deleted _ hd).2 e he rfl⟩

/-- The disks stay, and the block devices change together with their entries. -/
lemma Sound.change {t : Registry} (hdevt : t.devt = s.devt) (hdisk : t.diskMap = s.diskMap)
    (hkeys : KeysNodup t.bdevMap) (ht : ∀ e ∈ t.bdevMap, t.EntryOk deleted e) :
    t.Sound added deleted := by
  refine ⟨hdisk ▸ hs.diskKeys, hkeys, ?_, fun e he => (ht e he).1, fun e he => (ht e he).2.1, ?_,
    fun d hd => ⟨hdisk ▸ (hs.deleted d hd).1, fun e he heq => ?_⟩⟩
  · rw [hdevt, hdisk]
    exact hs.diskDevt
  · rw [hdevt, hdisk]
    exact hs.added
  · have hnot := (ht e he).2.2
    rw [heq, hd] at hnot
    cases hnot

lemma Sound.setBdev {f : BlockDev → BlockDev} (hdisk : (f (s.bdev b)).disk = (s.bdev b).disk)
    (hheld : s.Registered b → (f (s.bdev b)).inode.toNat < (f (s.bdev b)).refcnt) :
    (s.setBdev b f).Sound added deleted := by
  refine hs.change rfl rfl hs.bdevKeys fun e he => ?_
  have hok := hs.entryOk he
  simp only [EntryOk, Registry.setBdev, update_apply]
  split_ifs with ha
  · subst ha
    rw [hdisk]
    exact ⟨hok.1, ⟨hok.2.1.1, hheld ⟨e, he, rfl⟩⟩, hok.2.2⟩
  · exact hok

lemma Sound.free (hb : ¬ s.Registered b) :
    ({ s with allocated := update s.allocated b false } : Registry).Sound added deleted := by
  refine ⟨hs.diskKeys, hs.bdevKeys, hs.diskDevt, hs.bdevDevt, fun e he => ⟨?_, (hs.held e he).2⟩,
    hs.added, hs.deleted⟩
  show update s.allocated b false e.2 = true
  rw [update_of_ne fun h => hb ⟨e, he, h⟩]
  exact (hs.held e he).1

lemma Sound.bdgrab (hfit : s.Registered b → (s.bdev b).refcnt + 1 < 2 ^ 32) :
    (s.bdgrab b).Sound added deleted := by
  refine hs.setBdev rfl fun hb => ?_
  obtain ⟨e, he, rfl⟩ := hb
  have hheld := (hs.held e he).2
  rw [Nat.mod_eq_of_lt (hfit ⟨e, he, rfl⟩)]
  exact Nat.lt_succ_of_lt hheld

lemma Sound.bdput (hput : s.Registered b → (s.bdev b).inode.toNat + 1 < (s.bdev b).refcnt) :
    (s.bdput b).Sound added deleted := by
  unfold Registry.bdput
  split
  · exact hs
  have hset : (s.setBdev b fun x => { x with refcnt := x.refcnt - 1 }).Sound added deleted :=
    hs.setBdev rfl fun hb => by
      have := hput hb
      show (s.bdev b).inode.toNat < (s.bdev b).refcnt - 1
      omega
  have hcnt : ((s.setBdev b fun x => { x with refcnt := x.refcnt - 1 }).bdev b).refcnt =
      (s.bdev b).refcnt - 1 := by
    show (update s.bdev b _ b).refcnt = _
    rw [update_self]
  dsimp only
  split_ifs with h1 h2
  · exact hset
  · exact hset
  · refine hset.free fun hb => ?_
    have := hput hb
    omega

end

lemma bdput_fields (s : Registry) (b : Nat) :
    (s.bdput b).devt = s.devt ∧ (s.bdput b).diskMap = s.diskMap ∧
      (s.bdput b).bdevMap = s.bdevMap ∧ ∀ a, ((s.bdput b).bdev a).openers = (s.bdev a).openers := by
  unfold Registry.bdput
  split_ifs with h0
  · exact ⟨rfl, rfl, rfl, fun _ => rfl⟩
  · have hopen : ∀ a, ((s.setBdev b fun x => { x with refcnt := x.refcnt - 1 }).bdev a).openers =
        (s.bdev a).openers := by
      intro a
      show (update s.bdev b _ a).openers = _
      by_cases ha : a = b
      · rw [ha, update_self]
      · rw [update_of_ne ha]
    dsimp only
    split_ifs with h1 h2
    · exact ⟨rfl, rfl, rfl, hopen⟩
    · exact ⟨rfl, rfl, rfl, hopen⟩
    · exact ⟨rfl, rfl, rfl, hopen⟩

/-! ## Getting a block device -/

/-- No count of a block device with an entry comes to its limit with two more references. -/
def Fits (s : Registry) : Prop :=
  ∀ e ∈ s.bdevMap, (s.bdev e.2).refcnt + 2 < 2 ^ 32

/-- The memory that `kmalloc` gives is not in use. -/
def Fresh (s : Registry) (mem : Option Nat) : Prop :=
  ∀ a ∈ mem, s.allocated a = false

lemma Sound.not_registered (hs : s.Sound added deleted) (hb : s.allocated b = false) :
    ¬ s.Registered b := by
  rintro ⟨e, he, rfl⟩
  rw [(hs.held e he).1] at hb
  cases hb

lemma Sound.write (hs : s.Sound added deleted) (hb : s.allocated b = false) (x : BlockDev)
    (y : Bool) :
    ({ s with bdev := update s.bdev b x, allocated := update s.allocated b y } :
      Registry).Sound added deleted := by
  refine hs.change rfl rfl hs.bdevKeys fun e he => ?_
  have hne : e.2 ≠ b := fun h => hs.not_registered hb ⟨e, he, h⟩
  simp only [EntryOk, update_of_ne hne]
  exact hs.entryOk he

lemma Sound.enter (hs : s.Sound added deleted) (hv : lookup s.bdevMap v = none)
    (hdisk : s.devt (s.bdev b).disk = v) (hdel : deleted (s.bdev b).disk = false)
    (hheld : s.allocated b = true ∧ (s.bdev b).inode.toNat < (s.bdev b).refcnt) :
    ({ s with bdevMap := s.bdevMap ++ [(v, b)] } : Registry).Sound added deleted := by
  refine hs.change rfl rfl (hs.bdevKeys.append hv) fun e he => ?_
  rcases mem_append.mp he with he | he
  · exact hs.entryOk he
  · rw [mem_singleton.mp he]
    exact ⟨hdisk, hheld, hdel⟩

/-- What a call that gets the block device of a number leaves and gives. -/
structure Gets (added deleted : Nat → Bool) (s : Registry) (v : Nat) (r : Option Nat × Registry) :
    Prop where
  sound : r.2.Sound added deleted
  devt : r.2.devt = s.devt
  diskMap : r.2.diskMap = s.diskMap
  lookup : r.2.bdevLookup v = r.1
  held : ∀ a ∈ r.1, (r.2.bdev a).inode.toNat + 1 < (r.2.bdev a).refcnt ∧
    (r.2.bdev a).refcnt + 1 < 2 ^ 32
  busy : ∀ a ∈ r.1, (r.2.bdev a).openers ≠ 0 →
    s.bdevLookup v = some a ∧ (s.bdev a).openers ≠ 0

lemma Sound.gets_none (hs : s.Sound added deleted) (hv : s.bdevLookup v = none) :
    Gets added deleted s v (none, s) :=
  ⟨hs, rfl, rfl, hv, fun a ha => absurd ha (not_mem_none a),
    fun a ha => absurd ha (not_mem_none a)⟩

lemma lookup_append_self {m : List (Nat × Nat)} (hm : KeysNodup m) (hv : lookup m v = none) :
    lookup (m ++ [(v, b)]) v = some b :=
  (lookup_eq_some_iff (hm.append hv)).mpr (mem_append_right m mem_cons_self)

lemma Sound.gets_of_found (hs : s.Sound added deleted) (hfit : s.Fits)
    (hv : s.bdevLookup v = some b) : Gets added deleted s v (some b, s.bdgrab b) := by
  have hmem : (v, b) ∈ s.bdevMap := mem_of_lookup_eq_some hv
  refine ⟨hs.bdgrab fun ⟨e, he, h⟩ => h ▸ Nat.lt_of_succ_lt (hfit e he), rfl, rfl, hv, fun a ha => ?_,
    fun a ha hopen => ?_⟩
  · cases ha
    show (update s.bdev b _ b).inode.toNat + 1 < (update s.bdev b _ b).refcnt ∧
      (update s.bdev b _ b).refcnt + 1 < 2 ^ 32
    rw [update_self]
    rw [Nat.mod_eq_of_lt (Nat.lt_of_succ_lt (hfit (v, b) hmem))]
    exact ⟨Nat.succ_lt_succ (hs.held (v, b) hmem).2, hfit (v, b) hmem⟩
  · cases ha
    refine ⟨hv, ?_⟩
    rwa [show (s.bdgrab b).bdev b = _ from update_self _ _ _] at hopen

lemma bdevAllocForDisk_of_full {a : Nat} (hfull : mapSize ≤ s.bdevMap.length) :
    s.bdevAllocForDisk d (some a) =
      (none, { s with
        bdev := update s.bdev a
          { devt := s.devt d, disk := d, refcnt := 1, openers := 0, inode := false }
        allocated := update (update s.allocated a true) a false }) := by
  have hreg : register mapSize s.bdevMap (s.devt d) a = none := if_pos hfull
  unfold bdevAllocForDisk
  dsimp only
  rw [hreg]

lemma bdevAllocForDisk_of_room {a : Nat} (hroom : s.bdevMap.length < mapSize)
    (hv : lookup s.bdevMap (s.devt d) = none) :
    s.bdevAllocForDisk d (some a) =
      (some a, { s with
        bdev := update s.bdev a
          { devt := s.devt d, disk := d, refcnt := 1, openers := 0, inode := false }
        allocated := update s.allocated a true
        bdevMap := s.bdevMap ++ [(s.devt d, a)] }) := by
  have hreg : register mapSize s.bdevMap (s.devt d) a = some (s.bdevMap ++ [(s.devt d, a)]) := by
    rw [register, if_neg (not_le.mpr hroom), hv]
    rfl
  unfold bdevAllocForDisk
  dsimp only
  rw [hreg]

lemma Sound.gets_of_new (hs : s.Sound added deleted) (hfresh : s.Fresh mem)
    (hv : s.bdevLookup (s.devt d) = none) (hdel : deleted d = false) :
    Gets added deleted s (s.devt d) (s.grabOrAlloc none (some d) mem) := by
  unfold grabOrAlloc
  dsimp only
  cases mem with
  | none => exact hs.gets_none hv
  | some a =>
    have hfree : s.allocated a = false := hfresh a rfl
    by_cases hfull : mapSize ≤ s.bdevMap.length
    · rw [bdevAllocForDisk_of_full hfull]
      refine ⟨?_, rfl, rfl, hv, fun a ha => absurd ha (not_mem_none a),
        fun a ha => absurd ha (not_mem_none a)⟩
      rw [update_idem]
      exact hs.write hfree _ _
    · rw [bdevAllocForDisk_of_room (Nat.lt_of_not_le hfull) hv]
      have hwrite := hs.write hfree
        { devt := s.devt d, disk := d, refcnt := 1, openers := 0, inode := false } true
      have henter := @Sound.enter _ _ _ a (s.devt d) hwrite hv
        (by show s.devt (update s.bdev a _ a).disk = _; rw [update_self])
        (by show deleted (update s.bdev a _ a).disk = false; rw [update_self]; exact hdel)
        ⟨update_self _ _ _, by
          show (update s.bdev a _ a).inode.toNat < (update s.bdev a _ a).refcnt
          rw [update_self]
          exact Nat.one_pos⟩
      refine ⟨henter.bdgrab fun _ => ?_, rfl, rfl, lookup_append_self hs.bdevKeys hv,
        fun a' ha' => ?_, fun a' ha' hopen => ?_⟩
      · show (update s.bdev a _ a).refcnt + 1 < 2 ^ 32
        rw [update_self]
        exact (by decide : 1 + 1 < 2 ^ 32)
      · cases ha'
        show (update (update s.bdev a _) a _ a).inode.toNat + 1 <
          (update (update s.bdev a _) a _ a).refcnt ∧
            (update (update s.bdev a _) a _ a).refcnt + 1 < 2 ^ 32
        rw [update_self]
        show (update s.bdev a _ a).inode.toNat + 1 < ((update s.bdev a _ a).refcnt + 1) % 2 ^ 32 ∧
          ((update s.bdev a _ a).refcnt + 1) % 2 ^ 32 + 1 < 2 ^ 32
        rw [update_self]
        exact (by decide : 0 + 1 < (1 + 1) % 2 ^ 32 ∧ (1 + 1) % 2 ^ 32 + 1 < 2 ^ 32)
      · cases ha'
        refine absurd ?_ hopen
        show (update (update s.bdev a _) a _ a).openers = 0
        rw [update_self]
        show (update s.bdev a _ a).openers = 0
        rw [update_self]

lemma Sound.bdget (hs : s.Sound added deleted) (hfit : s.Fits) (hfresh : s.Fresh mem) (v : Nat) :
    Gets added deleted s v (s.bdget v mem) := by
  unfold Registry.bdget
  cases hb : s.bdevLookup v with
  | some b => exact hs.gets_of_found hfit hb
  | none =>
    cases hd : s.getGendisk v with
    | none => exact hs.gets_none hb
    | some d =>
      have hmem : (v, d) ∈ s.diskMap := mem_of_lookup_eq_some hd
      have hdevt : s.devt d = v := hs.diskDevt (v, d) hmem
      have hdel : deleted d = false := by
        rw [← Bool.not_eq_true]
        exact fun h => (hs.deleted d h).1 (v, d) hmem rfl
      rw [← hdevt] at hb ⊢
      exact hs.gets_of_new hfresh hb hdel

lemma Sound.bdgetDisk (hs : s.Sound added deleted) (hfit : s.Fits) (hfresh : s.Fresh mem)
    (hdel : deleted d = false) :
    Gets added deleted s (s.devt d) (s.bdgetDisk d 0 mem) := by
  rw [Registry.bdgetDisk, if_neg (not_not.mpr rfl)]
  cases hb : s.bdevLookup (s.devt d) with
  | some b => exact hs.gets_of_found hfit hb
  | none => exact hs.gets_of_new hfresh hb hdel

lemma Gets.bdputOpt {r : Option Nat × Registry} (hr : Gets added deleted s v r) :
    (r.2.bdputOpt r.1).Sound added deleted := by
  obtain ⟨o, s'⟩ := r
  cases o with
  | none => exact hr.sound
  | some b => exact hr.sound.bdput fun _ => (hr.held b rfl).1

lemma bdputOpt_fields (s : Registry) (o : Option Nat) :
    (s.bdputOpt o).devt = s.devt ∧ (s.bdputOpt o).diskMap = s.diskMap ∧
      (s.bdputOpt o).bdevMap = s.bdevMap ∧
      ∀ a, ((s.bdputOpt o).bdev a).openers = (s.bdev a).openers := by
  cases o with
  | none => exact ⟨rfl, rfl, rfl, fun _ => rfl⟩
  | some b => exact s.bdput_fields b

/-- An inode takes a reference, or gives it back when it cannot be allocated. -/
lemma Sound.inodeCreate (hs : s.Sound added deleted) (hfit : s.Fits) (b : Nat) (mem : Bool) :
    (s.blockdevInodeCreate b mem).Sound added deleted := by
  have hgrab : (s.bdgrab b).Sound added deleted :=
    hs.bdgrab fun ⟨e, he, h⟩ => h ▸ Nat.lt_of_succ_lt (hfit e he)
  have hheld : (s.bdgrab b).Registered b →
      ((s.bdgrab b).bdev b).inode.toNat + 1 < ((s.bdgrab b).bdev b).refcnt := by
    rintro ⟨e, he, rfl⟩
    rw [show (s.bdgrab e.2).bdev e.2 = _ from update_self _ _ _]
    rw [Nat.mod_eq_of_lt (Nat.lt_of_succ_lt (hfit e he))]
    exact Nat.succ_lt_succ (hs.held e he).2
  unfold blockdevInodeCreate
  split_ifs with hi hmem
  · exact hs
  · refine hgrab.setBdev rfl fun hb => ?_
    exact lt_of_le_of_lt (Nat.le_add_left 1 _) (hheld hb)
  · exact hgrab.bdput hheld

/-! ## Taking entries out -/

lemma Sound.inodeDestroy (hs : s.Sound added deleted) (b : Nat) :
    (s.blockdevInodeDestroy b).Sound added deleted := by
  unfold blockdevInodeDestroy
  split_ifs with hi
  · have hset : (s.setBdev b fun x => { x with inode := false }).Sound added deleted :=
      hs.setBdev rfl fun ⟨e, he, h⟩ => Nat.zero_lt_of_lt (h ▸ (hs.held e he).2)
    refine hset.bdput fun ⟨e, he, h⟩ => ?_
    have hheld := (hs.held e he).2
    rw [h, hi] at hheld
    show (update s.bdev b _ b).inode.toNat + 1 < (update s.bdev b _ b).refcnt
    rw [update_self]
    exact hheld
  · exact hs

lemma inodeDestroy_fields (s : Registry) (b : Nat) :
    (s.blockdevInodeDestroy b).devt = s.devt ∧ (s.blockdevInodeDestroy b).diskMap = s.diskMap ∧
      (s.blockdevInodeDestroy b).bdevMap = s.bdevMap ∧
      ∀ a, ((s.blockdevInodeDestroy b).bdev a).openers = (s.bdev a).openers := by
  unfold blockdevInodeDestroy
  split_ifs with hi
  · obtain ⟨hdevt, hdisks, hbdevs, hopeners⟩ :=
      (s.setBdev b fun x => { x with inode := false }).bdput_fields b
    refine ⟨hdevt, hdisks, hbdevs, fun a => (hopeners a).trans ?_⟩
    show (update s.bdev b _ a).openers = _
    by_cases ha : a = b
    · rw [ha, update_self]
    · rw [update_of_ne ha]
  · exact ⟨rfl, rfl, rfl, fun _ => rfl⟩

/-! ## The node of a disk -/

/-- A caller has a reference to the block device besides those of its entry and its inode. -/
def HasCaller (s : Registry) (b : Nat) : Prop :=
  (s.bdev b).inode.toNat + 1 < (s.bdev b).refcnt ∧
    (s.bdev b).refcnt + 1 < 2 ^ 32 + (s.bdev b).inode.toNat

/-- At most the inode of `b` comes or goes, with its reference. -/
def Recounts (b : Nat) (s t : Registry) : Prop :=
  ∃ x : BlockDev, t = s.setBdev b (fun _ => x) ∧ x.disk = (s.bdev b).disk ∧
    x.refcnt + (s.bdev b).inode.toNat = (s.bdev b).refcnt + x.inode.toNat

lemma setBdev_self (s : Registry) (b : Nat) : s.setBdev b (fun _ => s.bdev b) = s := by
  rw [setBdev, update_eq_self]

lemma setBdev_setBdev (s : Registry) (b : Nat) (f g : BlockDev → BlockDev) :
    (s.setBdev b f).setBdev b g = s.setBdev b fun x => g (f x) := by
  simp only [setBdev, update_self, update_idem]

lemma bdev_setBdev_self (s : Registry) (b : Nat) (f : BlockDev → BlockDev) :
    (s.setBdev b f).bdev b = f (s.bdev b) :=
  update_self ..

lemma Recounts.refl (b : Nat) (s : Registry) : Recounts b s s :=
  ⟨s.bdev b, (s.setBdev_self b).symm, rfl, rfl⟩

lemma Recounts.trans {t u : Registry} (h : Recounts b s t) (h' : Recounts b t u) :
    Recounts b s u := by
  obtain ⟨x, rfl, hdisk, hcnt⟩ := h
  obtain ⟨y, rfl, hdisk', hcnt'⟩ := h'
  rw [bdev_setBdev_self] at hdisk' hcnt'
  exact ⟨y, s.setBdev_setBdev b _ _, hdisk'.trans hdisk, by omega⟩

lemma Recounts.hasCaller {t : Registry} (h : Recounts b s t) (hb : s.HasCaller b) :
    t.HasCaller b := by
  obtain ⟨x, rfl, -, hcnt⟩ := h
  unfold HasCaller at hb ⊢
  rw [bdev_setBdev_self]
  omega

/-- A reference that is not the last one is dropped. -/
lemma bdput_of_lt (h : 1 < (s.bdev b).refcnt) :
    s.bdput b = s.setBdev b fun x => { x with refcnt := x.refcnt - 1 } := by
  have hcnt : ((s.setBdev b fun x => { x with refcnt := x.refcnt - 1 }).bdev b).refcnt ≠ 0 := by
    rw [bdev_setBdev_self]
    exact Nat.sub_ne_zero_of_lt h
  unfold Registry.bdput
  rw [if_neg (by omega)]
  exact if_pos hcnt

lemma recounts_inodeCreate (hb : s.HasCaller b) (mem : Bool) :
    Recounts b s (s.blockdevInodeCreate b mem) := by
  obtain ⟨htwo, hmax⟩ := hb
  unfold blockdevInodeCreate
  split_ifs with hi hmem
  · exact Recounts.refl b s
  · rw [Bool.not_eq_true] at hi
    replace hmax : (s.bdev b).refcnt + 1 < 2 ^ 32 := by simpa [hi] using hmax
    refine ⟨_, s.setBdev_setBdev b _ _, rfl, ?_⟩
    rw [hi]
    show ((s.bdev b).refcnt + 1) % 2 ^ 32 + 0 = (s.bdev b).refcnt + 1
    rw [Nat.mod_eq_of_lt hmax]
  · rw [Bool.not_eq_true] at hi
    replace hmax : (s.bdev b).refcnt + 1 < 2 ^ 32 := by simpa [hi] using hmax
    have hgrab : ((s.bdgrab b).bdev b).refcnt = (s.bdev b).refcnt + 1 := by
      rw [Registry.bdgrab, bdev_setBdev_self]
      exact Nat.mod_eq_of_lt hmax
    rw [bdput_of_lt (by omega)]
    refine ⟨_, s.setBdev_setBdev b _ _, rfl, ?_⟩
    show ((s.bdev b).refcnt + 1) % 2 ^ 32 - 1 + _ = (s.bdev b).refcnt + _
    rw [Nat.mod_eq_of_lt hmax]
    rfl

lemma recounts_inodeDestroy (hb : s.HasCaller b) : Recounts b s (s.blockdevInodeDestroy b) := by
  obtain ⟨htwo, hmax⟩ := hb
  unfold blockdevInodeDestroy
  split_ifs with hi
  · rw [hi, Bool.toNat_true] at htwo
    rw [bdput_of_lt (by rw [bdev_setBdev_self]; exact Nat.lt_of_succ_lt htwo)]
    refine ⟨_, s.setBdev_setBdev b _ _, rfl, ?_⟩
    rw [hi]
    show (s.bdev b).refcnt - 1 + 1 = (s.bdev b).refcnt + 0
    omega
  · exact Recounts.refl b s

lemma recounts_vfsMknodAt (hb : s.HasCaller b) (mem attached : Bool) :
    Recounts b s (s.vfsMknodAt b mem attached).2 := by
  have hcreate := recounts_inodeCreate hb mem
  unfold vfsMknodAt
  dsimp only
  split_ifs
  · exact hcreate
  · exact hcreate
  · exact hcreate.trans (recounts_inodeDestroy (hcreate.hasCaller hb))

lemma recounts_handleCreate (hb : s.HasCaller b) (node : DevNode) :
    Recounts b s (s.handleCreate b node).2 := by
  cases node with
  | idle => exact Recounts.refl b s
  | found _ _ => exact Recounts.refl b s
  | make _ inode attached path inode' attached' =>
    have hfirst := recounts_vfsMknodAt hb inode attached
    unfold handleCreate
    dsimp only
    generalize s.vfsMknodAt b inode attached = r at hfirst
    obtain ⟨_ | _, t⟩ := r
    · dsimp only
      split_ifs
      · exact hfirst.trans (recounts_vfsMknodAt (hfirst.hasCaller hb) inode' attached')
      · exact hfirst
    · exact hfirst

/-- A caller makes the node and drops its reference. -/
lemma Gets.handleCreate {r : Option Nat × Registry} (hr : Gets added deleted s v r)
    (hb : b ∈ r.1) (node : DevNode) :
    ((r.2.handleCreate b node).2.bdput b).Sound added deleted ∧
      ((r.2.handleCreate b node).2.bdput b).devt = s.devt ∧
      ((r.2.handleCreate b node).2.bdput b).diskMap = s.diskMap := by
  have hcaller : r.2.HasCaller b := by
    obtain ⟨htwo, hmax⟩ := hr.held b hb
    exact ⟨htwo, by omega⟩
  have hnode := recounts_handleCreate hcaller node
  have hkept := hnode.hasCaller hcaller
  generalize (r.2.handleCreate b node).2 = t at hnode hkept
  have hput := t.bdput_fields b
  obtain ⟨x, rfl, hdisk, hcnt⟩ := hnode
  have hsound : (r.2.setBdev b fun _ => x).Sound added deleted :=
    hr.sound.setBdev hdisk fun _ => by
      have := hcaller.1
      omega
  exact ⟨hsound.bdput fun _ => hkept.1, hput.1.trans hr.devt, hput.2.1.trans hr.diskMap⟩

/-- There is a block device for the node of a disk, or it can be made. -/
def HasBdev (s : Registry) (d : Nat) (mem : Option Nat) : Prop :=
  s.bdevLookup (s.devt d) ≠ none ∨ mem ≠ none ∧ s.bdevMap.length < mapSize

/-- `device_add` succeeds: devtmpfs has nothing to do, or finds the node or makes it. -/
def NodeMade (s : Registry) (d : Nat) : DevNode → Prop
  | .idle => True
  | .found mem same => s.HasBdev d mem ∧ same = true
  | .make mem inode attached path inode' attached' => s.HasBdev d mem ∧
    (inode = true ∧ attached = true ∨ path = true ∧ inode' = true ∧ attached' = true)

lemma vfsMknodAt_made (s : Registry) (b : Nat) : (s.vfsMknodAt b true true).1 = true := by
  have hinode : ((s.blockdevInodeCreate b true).bdev b).inode = true := by
    unfold blockdevInodeCreate
    split_ifs with hi
    · exact hi
    · rw [bdev_setBdev_self]
    · contradiction
  unfold vfsMknodAt
  dsimp only
  rw [hinode]
  rfl

lemma exists_bdgetDisk (h : s.HasBdev d mem) : ∃ b t, s.bdgetDisk d 0 mem = (some b, t) := by
  rw [Registry.bdgetDisk, if_neg (not_not.mpr rfl)]
  cases hv : s.bdevLookup (s.devt d) with
  | some b => exact ⟨b, _, rfl⟩
  | none =>
    obtain ⟨hmem, hroom⟩ := h.resolve_left (not_not.mpr hv)
    obtain ⟨a, rfl⟩ := Option.ne_none_iff_exists'.mp hmem
    unfold grabOrAlloc
    dsimp only
    rw [bdevAllocForDisk_of_room hroom hv]
    exact ⟨a, _, rfl⟩

lemma devtmpfsCreateNode_of_made {node : DevNode} (h : s.NodeMade d node) :
    (s.devtmpfsCreateNode d node).1 = true := by
  unfold Registry.devtmpfsCreateNode
  cases node with
  | idle => rfl
  | found mem same =>
    obtain ⟨b, t, ht⟩ := exists_bdgetDisk h.1
    dsimp only [DevNode.mem]
    rw [ht]
    exact h.2
  | make mem inode attached path inode' attached' =>
    obtain ⟨b, t, ht⟩ := exists_bdgetDisk h.1
    dsimp only [DevNode.mem]
    rw [ht]
    unfold Registry.handleCreate
    dsimp only
    rcases hfirst : t.vfsMknodAt b inode attached with ⟨_ | _, u⟩
    · rcases h.2 with ⟨rfl, rfl⟩ | ⟨rfl, rfl, rfl⟩
      · have hmade := t.vfsMknodAt_made b
        rw [hfirst] at hmade
        cases hmade
      · exact u.vfsMknodAt_made b
    · rfl

/-- Making the node leaves the registries matching, also where it fails. -/
lemma Sound.devtmpfsCreateNode {node : DevNode} (hs : s.Sound added deleted) (hfit : s.Fits)
    (hfresh : s.Fresh node.mem) (hdel : deleted d = false) :
    (s.devtmpfsCreateNode d node).2.Sound added deleted ∧
      (s.devtmpfsCreateNode d node).2.devt = s.devt ∧
      (s.devtmpfsCreateNode d node).2.diskMap = s.diskMap := by
  have hget := hs.bdgetDisk hfit hfresh hdel
  unfold Registry.devtmpfsCreateNode
  generalize hr : s.bdgetDisk d 0 node.mem = r at hget
  split
  · exact ⟨hs, rfl, rfl⟩
  · rw [hr]
    obtain ⟨_ | b, t⟩ := r
    · exact ⟨hget.sound, hget.devt, hget.diskMap⟩
    · exact hget.handleCreate rfl node

lemma devtmpfsDeleteNode_fields (s : Registry) (node : Option Nat) :
    (s.devtmpfsDeleteNode node).devt = s.devt ∧ (s.devtmpfsDeleteNode node).diskMap = s.diskMap ∧
      (s.devtmpfsDeleteNode node).bdevMap = s.bdevMap ∧
      ∀ a, ((s.devtmpfsDeleteNode node).bdev a).openers = (s.bdev a).openers := by
  cases node with
  | none => exact ⟨rfl, rfl, rfl, fun _ => rfl⟩
  | some b => exact s.inodeDestroy_fields b

section

variable (hs : s.Sound added deleted)
include hs

lemma Sound.devtmpfsDeleteNode (node : Option Nat) :
    (s.devtmpfsDeleteNode node).Sound added deleted := by
  cases node with
  | none => exact hs
  | some b => exact hs.inodeDestroy b

lemma Sound.leave (v : Nat) :
    ({ s with bdevMap := unregister s.bdevMap v } : Registry).Sound added deleted :=
  hs.change rfl rfl (hs.bdevKeys.unregister v) fun _ he =>
    hs.entryOk ((mem_unregister_iff hs.bdevKeys).mp he).1

lemma Sound.bdRemove (hopen : ∀ b, s.bdevLookup v = some b → (s.bdev b).openers = 0) :
    (s.bdRemove v).2.Sound added deleted ∧ (s.bdRemove v).2.devt = s.devt ∧
      (s.bdRemove v).2.diskMap = s.diskMap ∧ (s.bdRemove v).2.bdevLookup v = none ∧
      (s.bdevLookup v = none → (s.bdRemove v).2 = s) := by
  unfold Registry.bdRemove
  cases hb : s.bdevLookup v with
  | none => exact ⟨hs, rfl, rfl, hb, fun _ => rfl⟩
  | some b =>
    have hmem : (v, b) ∈ s.bdevMap := mem_of_lookup_eq_some hb
    have hdestroy := hs.inodeDestroy b
    obtain ⟨hdevt, hdisks, hbdevs, -⟩ := s.inodeDestroy_fields b
    have hleave := hdestroy.leave v
    have hput := ({ s.blockdevInodeDestroy b with
      bdevMap := unregister (s.blockdevInodeDestroy b).bdevMap v } : Registry).bdput_fields b
    dsimp only
    rw [if_neg (not_not.mpr (hopen b hb))]
    refine ⟨hleave.bdput ?_, hput.1.trans hdevt, hput.2.1.trans hdisks, ?_, fun h => ?_⟩
    · -- Its number was the only one it had an entry under.
      rintro ⟨e, he, h⟩
      obtain ⟨hin, hne⟩ := (mem_unregister_iff hdestroy.bdevKeys).mp he
      have hv : s.devt _ = v := hs.bdevDevt (v, b) hmem
      have he' : s.devt _ = e.1 := hs.bdevDevt e (hbdevs ▸ hin)
      rw [h] at he'
      exact absurd (he'.symm.trans hv) hne
    · refine lookup_eq_none_iff.mpr fun e he => ?_
      rw [hput.2.2.1] at he
      exact ((mem_unregister_iff hdestroy.bdevKeys).mp he).2
    · cases h

/-- The number of a disk loses its entry, which no other disk has. -/
lemma Sound.drop (hown : s.getGendisk (s.devt d) = none ∨ s.getGendisk (s.devt d) = some d) :
    ({ s with diskMap := unregister s.diskMap (s.devt d) } : Registry).Sound
      (update added d false) deleted := by
  have hsub : ∀ e ∈ unregister s.diskMap (s.devt d), e ∈ s.diskMap :=
    fun e he => ((mem_unregister_iff hs.diskKeys).mp he).1
  refine ⟨hs.diskKeys.unregister _, hs.bdevKeys, fun e he => hs.diskDevt e (hsub e he),
    hs.bdevDevt, hs.held, fun d' hd' => ?_,
    fun d' hd' => ⟨fun e he => (hs.deleted d' hd').1 e (hsub e he), (hs.deleted d' hd').2⟩⟩
  rw [update_apply] at hd'
  split_ifs at hd' with hdd
  have hmem := hs.added d' hd'
  refine (mem_unregister_iff hs.diskKeys).mpr ⟨hmem, fun heq => ?_⟩
  have hfound : s.getGendisk (s.devt d) = some d' :=
    (lookup_eq_some_iff hs.diskKeys).mpr (heq ▸ hmem)
  rw [hfound] at hown
  rcases hown with h | h
  · cases h
  · exact hdd (Option.some.inj h)

lemma Sound.markDeleted (hdisk : s.getGendisk (s.devt d) = none)
    (hbdev : s.bdevLookup (s.devt d) = none) : s.Sound added (update deleted d true) := by
  refine ⟨hs.diskKeys, hs.bdevKeys, hs.diskDevt, hs.bdevDevt, hs.held, hs.added, fun d' hd' => ?_⟩
  by_cases hdd : d' = d
  · rw [hdd]
    constructor
    · rintro e he rfl
      exact lookup_eq_none_iff.mp hdisk e he (hs.diskDevt e he).symm
    · rintro e he rfl
      exact lookup_eq_none_iff.mp hbdev e he (hs.bdevDevt e he).symm
  · rw [update_of_ne hdd] at hd'
    exact hs.deleted d' hd'

/-! ## Deleting and adding a disk -/

/--
A disk that no other disk hides is deleted, unless its block device is open; then the
call fails.
-/
lemma Sound.delGendisk (node : Option Nat) (hfit : s.Fits) (hfresh : s.Fresh mem)
    (hown : s.getGendisk (s.devt d) = none ∨ s.getGendisk (s.devt d) = some d) :
    ((s.delGendisk d mem node).1 = 0 ∧
      (s.delGendisk d mem node).2.Sound (update added d false) (update deleted d true) ∧
      (s.delGendisk d mem node).2.devt = s.devt ∧
      (s.delGendisk d mem node).2.bdevLookup (s.devt d) = none) ∨
    ((s.delGendisk d mem node).1 ≠ 0 ∧ (s.delGendisk d mem node).2.Sound added deleted ∧
      s.Busy (s.bdevLookup (s.devt d))) := by
  have hget := hs.bdget hfit hfresh (s.devt d)
  unfold Registry.delGendisk
  generalize hr : s.bdget (s.devt d) mem = r at hget
  obtain ⟨o, s1⟩ := r
  dsimp only at hget ⊢
  have hput := hget.bdputOpt
  obtain ⟨hdevt, hdisks, hbdevs, hopeners⟩ := s1.bdputOpt_fields o
  rw [hget.devt] at hdevt
  split_ifs with hbusy
  · obtain ⟨a, ha, hopen⟩ := hbusy
    have hfound := hget.busy a ha hopen
    exact .inr ⟨(by decide : (-1 : Int) ≠ 0), hput, a, hfound.1, hfound.2⟩
  · have hnode := hput.devtmpfsDeleteNode node
    obtain ⟨hdevt1, hdisks1, hbdevs1, hopeners1⟩ := (s1.bdputOpt o).devtmpfsDeleteNode_fields node
    generalize hs2 : (s1.bdputOpt o).devtmpfsDeleteNode node = s2 at *
    rw [hdevt] at hdevt1
    have hlookup : s2.bdevLookup (s.devt d) = o := by
      rw [bdevLookup, hbdevs1, hbdevs]
      exact hget.lookup
    have hown' : s2.getGendisk (s2.devt d) = none ∨ s2.getGendisk (s2.devt d) = some d := by
      rw [getGendisk, hdisks1, hdisks, hdevt1, hget.diskMap]
      exact hown
    have hdrop := Sound.drop hnode hown'
    have hremove := hdrop.bdRemove (v := s.devt d) fun b hb => by
      have hbo : o = some b := hlookup.symm.trans hb
      by_contra hne
      exact hbusy ⟨b, hbo, fun h => hne (((hopeners1 b).trans (hopeners b)).trans h)⟩
    rw [hdevt1] at hdrop hremove
    obtain ⟨hsound, hdevt', hdisks', hnone, -⟩ := hremove
    rw [hdevt1]
    refine .inl ⟨rfl, Sound.markDeleted hsound ?_ ?_, hdevt', hnone⟩
    · rw [hdevt', getGendisk, hdisks']
      exact lookup_eq_none_iff.mpr fun e he => ((mem_unregister_iff hnode.diskKeys).mp he).2
    · rw [hdevt']
      exact hnone

lemma Sound.enterDisk (hd : lookup s.diskMap (s.devt d) = none) :
    ({ s with diskMap := s.diskMap ++ [(s.devt d, d)] } : Registry).Sound
      (update added d true) (update deleted d false) := by
  have hmem : ∀ e, e ∈ s.diskMap ++ [(s.devt d, d)] ↔ e ∈ s.diskMap ∨ e = (s.devt d, d) := by
    intro e
    rw [mem_append, mem_singleton]
  refine ⟨hs.diskKeys.append hd, hs.bdevKeys, fun e he => ?_, hs.bdevDevt, hs.held,
    fun d' hd' => ?_, fun d' hd' => ?_⟩
  · rcases (hmem e).mp he with he | rfl
    · exact hs.diskDevt e he
    · rfl
  · by_cases hdd : d' = d
    · rw [hdd]
      exact (hmem _).mpr (.inr rfl)
    · rw [update_of_ne hdd] at hd'
      exact (hmem _).mpr (.inl (hs.added d' hd'))
  · rw [update_apply] at hd'
    split_ifs at hd' with hdd
    refine ⟨fun e he => ?_, (hs.deleted d' hd').2⟩
    rcases (hmem e).mp he with he | rfl
    · exact (hs.deleted d' hd').1 e he
    · exact fun h => hdd h.symm

lemma Sound.markAdded (hd : s.getGendisk (s.devt d) = some d) :
    s.Sound (update added d true) (update deleted d false) := by
  refine ⟨hs.diskKeys, hs.bdevKeys, hs.diskDevt, hs.bdevDevt, hs.held, fun d' hd' => ?_,
    fun d' hd' => ?_⟩
  · by_cases hdd : d' = d
    · rw [hdd]
      exact mem_of_lookup_eq_some hd
    · rw [update_of_ne hdd] at hd'
      exact hs.added d' hd'
  · rw [update_apply] at hd'
    split_ifs at hd' with hdd
    exact hs.deleted d' hd'

/-- A disk is added under a number that is free, or once more; a failed call has no effect. -/
lemma Sound.addDisk {mem : Bool} {node : DevNode} (hfit : s.Fits) (hfresh : s.Fresh node.mem)
    (hown : s.getGendisk (s.devt d) = none ∧ (deleted d = false ∨ s.NodeMade d node) ∨
      s.getGendisk (s.devt d) = some d ∧ s.NodeMade d node) :
    ((s.addDisk d mem node).1 = 0 ∧
      (s.addDisk d mem node).2.Sound (update added d true) (update deleted d false)) ∨
    ((s.addDisk d mem node).1 ≠ 0 ∧ (s.addDisk d mem node).2.Sound added deleted) := by
  have herr : (-1 : Int) ≠ 0 := by decide
  unfold Registry.addDisk
  split
  · exact .inr ⟨herr, hs⟩
  rcases register_cases mapSize s.diskMap (s.devt d) d with
    ⟨-, hreg⟩ | ⟨-, ⟨y, hy⟩, hreg⟩ | ⟨-, hnone, hreg⟩
  · rw [hreg]
    exact .inr ⟨herr, hs⟩
  · rw [getGendisk, hy] at hown
    obtain ⟨hyd, hmade⟩ := hown.resolve_left fun hc => some_ne_none y hc.1
    have hnode := (hs.markAdded (hy.trans hyd)).devtmpfsCreateNode hfit hfresh (update_self d _ _)
    have htrue := devtmpfsCreateNode_of_made hmade
    rw [hreg]
    dsimp only
    generalize s.devtmpfsCreateNode d node = r at htrue hnode
    obtain ⟨ok, t⟩ := r
    obtain rfl : ok = true := htrue
    exact .inl ⟨rfl, hnode.1⟩
  · have hnode := (hs.enterDisk hnone).devtmpfsCreateNode (d := d) hfit hfresh (update_self d _ _)
    have htrue : deleted d = false ∨ (Registry.devtmpfsCreateNode
        { s with diskMap := s.diskMap ++ [(s.devt d, d)] } d node).1 = true := by
      rcases hown with ⟨-, hdel | hmade⟩ | ⟨hsome, -⟩
      · exact .inl hdel
      · exact .inr (devtmpfsCreateNode_of_made (s := { s with diskMap := _ }) hmade)
      · rw [getGendisk, hnone] at hsome
        cases hsome
    rw [hreg]
    dsimp only
    generalize Registry.devtmpfsCreateNode _ d node = r at htrue hnode
    obtain ⟨_ | _, t⟩ := r
    · -- the number is given back, and what devtmpfs registered stays
      obtain ⟨ht, hdevt, hmap⟩ := hnode
      have hdel : deleted d = false := htrue.resolve_right Bool.false_ne_true
      have hadd : added d = false := by
        rw [← Bool.not_eq_true]
        intro hd
        rw [(lookup_eq_some_iff hs.diskKeys).mpr (hs.added d hd)] at hnone
        cases hnone
      have hfound : t.getGendisk (t.devt d) = some d := by
        rw [getGendisk, hmap, hdevt]
        exact lookup_append_self hs.diskKeys hnone
      have hback := ht.drop (.inr hfound)
      have hadded : update (update added d true) d false = added := by
        rw [update_idem, ← hadd, update_eq_self]
      have hdeleted : update deleted d false = deleted := by
        rw [← hdel, update_eq_self]
      rw [hadded, hdeleted] at hback
      exact .inr ⟨herr, hback⟩
    · exact .inl ⟨rfl, hnode.1⟩

end

end Registry

/-! ## Runs -/

namespace Disks

open Registry

variable {s : Disks}

/--
The registries match the disks: no number has two entries, a disk that has been added
is found, and a disk that has been deleted is in neither registry.
-/
def Matches (s : Disks) : Prop :=
  (s.reg.diskMap.map Prod.fst).Nodup ∧ (s.reg.bdevMap.map Prod.fst).Nodup ∧
    (∀ d, s.added d = true → s.reg.getGendisk (s.reg.devt d) = some d) ∧
    ∀ d, s.deleted d = true →
      (∀ e ∈ s.reg.diskMap, e.2 ≠ d) ∧ ∀ e ∈ s.reg.bdevMap, (s.reg.bdev e.2).disk ≠ d

/-- The number of the disk is not taken by another disk. -/
def Owns (s : Disks) (d : Nat) : Prop :=
  s.reg.getGendisk (s.reg.devt d) = none ∨ s.reg.getGendisk (s.reg.devt d) = some d

/--
What the callers have to see to. A disk is added under a number that is free, or again
when `device_add` succeeds, as it also has to for a disk that was deleted, since the
block device of its node stays; it is deleted under a number that is its own; a block
device is not made for a deleted disk, which for `brd_free` means that its last allocation
has to fail; a caller drops its own references only; and `kmalloc` gives memory that is
free.
-/
def OpOk (s : Disks) : DiskOp → Prop
  | .addDisk d _ node => s.reg.Fits ∧ s.reg.Fresh node.mem ∧
    (s.reg.getGendisk (s.reg.devt d) = none ∧ (s.deleted d = false ∨ s.reg.NodeMade d node) ∨
      s.reg.getGendisk (s.reg.devt d) = some d ∧ s.reg.NodeMade d node)
  | .bdget _ mem => s.reg.Fits ∧ s.reg.Fresh mem
  | .bdgetDisk d _ mem => s.reg.Fits ∧ s.reg.Fresh mem ∧ s.deleted d = false
  | .bdput b =>
    ∀ e ∈ s.reg.bdevMap, e.2 = b → (s.reg.bdev b).inode.toNat + 1 < (s.reg.bdev b).refcnt
  | .blkdevGet _ | .blkdevPut _ => True
  | .inodeCreate _ _ => s.reg.Fits
  | .delGendisk d mem _ => s.reg.Fits ∧ s.reg.Fresh mem ∧ s.Owns d
  | .brdFree d mem _ mem' =>
    s.reg.Fits ∧ s.reg.Fresh mem ∧ s.Owns d ∧ ¬ s.reg.Busy (s.reg.bdevLookup (s.reg.devt d)) ∧
      mem' = none

/-- The invariant of the runs. -/
def Sound (s : Disks) : Prop :=
  s.reg.Sound s.added s.deleted

lemma Sound.matches (hs : s.Sound) : s.Matches :=
  ⟨hs.diskKeys, hs.bdevKeys, fun d hd => (lookup_eq_some_iff hs.diskKeys).mpr (hs.added d hd),
    hs.deleted⟩

lemma sound_boot (devt : Nat → Nat) : (boot devt).Sound where
  diskKeys := nodup_nil
  bdevKeys := nodup_nil
  diskDevt _ he := absurd he not_mem_nil
  bdevDevt _ he := absurd he not_mem_nil
  held _ he := absurd he not_mem_nil
  added _ hd := Bool.noConfusion hd
  deleted _ hd := Bool.noConfusion hd

lemma Sound.step {op : DiskOp} (hs : s.Sound) (hok : s.OpOk op) : (s.step op).Sound := by
  cases op with
  | addDisk d mem node =>
    have hstep : s.step (.addDisk d mem node) =
        if (s.reg.addDisk d mem node).1 = 0 then
          { s with reg := (s.reg.addDisk d mem node).2 }.markAdded d
        else { s with reg := (s.reg.addDisk d mem node).2 } := rfl
    rw [hstep]
    rcases Registry.Sound.addDisk hs hok.1 hok.2.1 hok.2.2 with ⟨h0, hadd⟩ | ⟨hne, hsame⟩
    · rw [if_pos h0]
      exact hadd
    · rw [if_neg hne]
      exact hsame
  | bdget devt mem => exact (Registry.Sound.bdget hs hok.1 hok.2 devt).sound
  | bdgetDisk d index mem =>
    show (s.reg.bdgetDisk d index mem).2.Sound s.added s.deleted
    by_cases hi : index = 0
    · rw [hi]
      exact (Registry.Sound.bdgetDisk hs hok.1 hok.2.1 hok.2.2).sound
    · rw [Registry.bdgetDisk, if_pos hi]
      exact hs
  | bdput b => exact Registry.Sound.bdput hs fun ⟨e, he, h⟩ => hok e he h
  | blkdevGet b =>
    show (s.reg.blkdevGet b).Sound s.added s.deleted
    exact Registry.Sound.setBdev hs rfl fun ⟨e, he, h⟩ => h ▸ (hs.held e he).2
  | blkdevPut b =>
    show (s.reg.blkdevPut b).Sound s.added s.deleted
    unfold Registry.blkdevPut
    split_ifs
    · exact hs
    · exact Registry.Sound.setBdev hs rfl fun ⟨e, he, h⟩ => h ▸ (hs.held e he).2
  | inodeCreate b mem => exact Registry.Sound.inodeCreate hs hok b mem
  | delGendisk d mem node =>
    have hstep : s.step (.delGendisk d mem node) =
        if (s.reg.delGendisk d mem node).1 = 0 then
          { s with reg := (s.reg.delGendisk d mem node).2 }.markDeleted d
        else { s with reg := (s.reg.delGendisk d mem node).2 } := rfl
    rw [hstep]
    rcases Registry.Sound.delGendisk hs node hok.1 hok.2.1 hok.2.2 with ⟨h0, hdel, -⟩ | ⟨hne, hsame, -⟩
    · rw [if_pos h0]
      exact hdel
    · rw [if_neg hne]
      exact hsame
  | brdFree d mem node mem' =>
    obtain ⟨hfit, hfresh, hown, hidle, rfl⟩ := hok
    rcases Registry.Sound.delGendisk hs node hfit hfresh hown with
      ⟨-, hdel, hdevt, hnone⟩ | ⟨-, -, hbusy⟩
    · show (s.reg.brdFree d mem node none).Sound (update s.added d false) (update s.deleted d true)
      have hget : (s.reg.delGendisk d mem node).2.bdgetDisk d 0 none =
          (none, (s.reg.delGendisk d mem node).2) := by
        rw [Registry.bdgetDisk, if_neg (not_not.mpr rfl), hdevt, hnone]
        rfl
      rw [Registry.brdFree, hget]
      exact hdel
    · exact absurd hbusy hidle

/--
In every state of a run whose calls meet the conditions the registries match the disks:
each number occurs at most once in each registry, a disk that has been added is found
under its number until it is deleted, and a deleted disk is in neither of them.
-/
theorem matches_run (devt : Nat → Nat) (ops : List DiskOp)
    (hok : RunOk step OpOk (boot devt) ops) (n : Nat) :
    (run step (boot devt) (ops.take n)).Matches :=
  (run_invariant Sound (fun _ _ hs hop => hs.step hop) (sound_boot devt) (hok.take n)).matches

/--
A disk is added, with a node in devtmpfs, opened, closed and deleted; the first deletion
is refused because the disk is open.
-/
def useDisk : List DiskOp :=
  [.addDisk 3 true (.make (some 40) true true false false false), .bdget 3 none, .blkdevGet 40,
    .delGendisk 3 none none, .blkdevPut 40, .bdput 40, .delGendisk 3 none (some 40)]

theorem useDisk_matches : (run step (boot id) (useDisk.take 7)).Matches := by
  refine matches_run id useDisk ?_ 7
  refine ⟨⟨?_, ?_, .inl ⟨rfl, .inl rfl⟩⟩, ⟨?_, ?_⟩, trivial, ⟨?_, ?_, .inr rfl⟩, trivial, ?_,
    ⟨?_, ?_, .inr rfl⟩, trivial⟩
  · unfold Registry.Fits
    decide
  · unfold Registry.Fresh
    decide
  · unfold Registry.Fits
    decide
  · unfold Registry.Fresh
    decide
  · unfold Registry.Fits
    decide
  · unfold Registry.Fresh
    decide
  · dsimp only [OpOk]
    decide
  · unfold Registry.Fits
    decide
  · unfold Registry.Fresh
    decide

/--
Freeing the ramdisk of disk 3 leaves a block device that refers to it, and the second of
two disks with one number is added without being found.
-/
theorem brdFree_not_matches :
    ¬ (run step (boot id) [.addDisk 3 true .idle, .brdFree 3 (some 40) none (some 40)]).Matches ∧
    ¬ (run step (boot fun _ => 9) [.addDisk 3 true .idle, .addDisk 4 true .idle]).Matches := by
  constructor
  · rintro ⟨-, -, -, hdel⟩
    have hentry := (hdel 3 rfl).2 (3, 40) (by decide)
    exact hentry rfl
  · rintro ⟨-, -, hadd, -⟩
    have hfound := hadd 4 rfl
    exact absurd hfound (by decide)

end Disks
end LiteKernel.Block
