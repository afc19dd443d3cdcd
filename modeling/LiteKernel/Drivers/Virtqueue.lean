import LiteKernel.Lib.IndexList

/-!
# The virtqueues of `drivers/virtio/virtio_ring.c`

A virtqueue has a table of descriptors that the device reads. The driver keeps the free ones on
a list threaded through `descNext`; those of a request are chained in the table itself, through
the field `next` and the flag `VRING_DESC_F_NEXT`. Requests go to the device through the ring
`avail` and come back through the ring `used`.

Main results:

- Lemma `addLoop_spec`: a request gets a chain of free descriptors.
- Lemma `freeChain_spec`: `free_chain` gives a chain back.
-/

namespace LiteKernel.Drivers

open Lib List

/-- `VQ_DESC_CHAIN_END`. -/
abbrev chainEnd : UInt16 := 0xFFFF

/-- `VRING_DESC_F_NEXT`. -/
abbrev descFNext : UInt16 := 1

/-- `VRING_DESC_F_WRITE`. -/
abbrev descFWrite : UInt16 := 2

/-- `struct vring_desc`. -/
structure VringDesc where
  addr : Nat
  len : UInt32
  flags : UInt16
  next : UInt16

/-- `struct virtqueue_buf`. -/
structure VirtqueueBuf where
  addr : Nat
  len : UInt32
  write : Bool

/-- `struct virtqueue` with its rings; arrays are given by their contents. -/
structure Virtqueue where
  num : UInt16
  desc : UInt16 → VringDesc
  availIdx : UInt16
  availRing : UInt16 → UInt16
  usedIdx : UInt16
  usedRing : UInt16 → UInt32
  lastUsedIdx : UInt16
  freeHead : UInt16
  numFree : UInt16
  descNext : UInt16 → UInt16

namespace Virtqueue

variable {vq : Virtqueue} {free ids : List UInt16} {first head id j n num prev : UInt16}

/-- `vring_new_virtqueue` over zeroed pages. -/
def vringNew (num : UInt16) : Virtqueue where
  num := num
  desc _ := { addr := 0, len := 0, flags := 0, next := 0 }
  availIdx := 0
  availRing _ := 0
  usedIdx := 0
  usedRing _ := 0
  lastUsedIdx := 0
  freeHead := 0
  numFree := num
  descNext d := if d < num - 1 then d + 1 else chainEnd

/-- `vq_alloc_desc`. -/
def allocDesc (vq : Virtqueue) : Option (UInt16 × Virtqueue) :=
  if vq.numFree = 0 then none
  else
    some (vq.freeHead,
      { vq with freeHead := vq.descNext vq.freeHead, numFree := vq.numFree - 1 })

/-- `vq_free_desc`. -/
def freeDesc (vq : Virtqueue) (id : UInt16) : Virtqueue :=
  { vq with
    descNext := Function.update vq.descNext id vq.freeHead
    freeHead := id
    numFree := vq.numFree + 1 }

/-- The descriptor that follows in a chain. -/
def chainNext (vq : Virtqueue) (i : UInt16) : UInt16 :=
  if (vq.desc i).flags &&& descFNext ≠ 0 then (vq.desc i).next else chainEnd

/-- The loop of `virtqueue_free_chain`. -/
def freeLoop : Nat → Virtqueue → UInt16 → Option Virtqueue
  | 0, _, _ => none
  | fuel + 1, vq, i =>
      let next := vq.chainNext i
      let vq := vq.freeDesc i
      if next = chainEnd then some vq else freeLoop fuel vq next

/--
`virtqueue_free_chain`; `none` when it does not return. It changes no descriptor,
so a walk of more than `2^16` of them goes round for ever.
-/
def freeChain (vq : Virtqueue) (head : UInt16) : Option Virtqueue :=
  freeLoop 65536 vq head

/-- Assignment to a descriptor. -/
def setDesc (vq : Virtqueue) (id : UInt16) (d : VringDesc) : Virtqueue :=
  { vq with desc := Function.update vq.desc id d }

/-- The descriptor that `virtqueue_add_buf` fills, and the link from the one before. -/
def linkDesc (vq : Virtqueue) (prev id : UInt16) (buf : VirtqueueBuf) : Virtqueue :=
  let vq := vq.setDesc id
    { addr := buf.addr, len := buf.len, flags := if buf.write then descFWrite else 0, next := 0 }
  if prev ≠ chainEnd then
    vq.setDesc prev { vq.desc prev with flags := (vq.desc prev).flags ||| descFNext, next := id }
  else vq

/-- The loop of `virtqueue_add_buf`: the head of the chain, if it could be built. -/
def addLoop : List VirtqueueBuf → UInt16 → UInt16 → Virtqueue → Option (Option UInt16 × Virtqueue)
  | [], first, _, vq => some (some first, vq)
  | buf :: bufs, first, prev, vq =>
      match vq.allocDesc with
      | none =>
          if first ≠ chainEnd then (vq.freeChain first).map fun vq => (none, vq)
          else some (none, vq)
      | some (id, vq) =>
          addLoop bufs (if first = chainEnd then id else first) id (vq.linkDesc prev id buf)

/-- The last part of `virtqueue_add_buf`: the chain is made available. -/
def publish (vq : Virtqueue) (first : UInt16) : Virtqueue :=
  { vq with
    availRing := Function.update vq.availRing (vq.availIdx % vq.num) first
    availIdx := vq.availIdx + 1 }

/-- `virtqueue_add_buf`; `none` when it does not return. -/
def addBuf (vq : Virtqueue) (bufs : List VirtqueueBuf) : Option (Option UInt16 × Virtqueue) :=
  if bufs.length = 0 then some (none, vq)
  else if vq.numFree.toNat < bufs.length then some (none, vq)
  else
    match addLoop bufs chainEnd chainEnd vq with
    | some (some first, vq) => some (some first, vq.publish first)
    | r => r

/-- `virtqueue_get_buf`. -/
def getBuf (vq : Virtqueue) : Option (UInt16 × Virtqueue) :=
  if vq.lastUsedIdx = vq.usedIdx then none
  else
    some ((vq.usedRing (vq.lastUsedIdx % vq.num)).toUInt16,
      { vq with lastUsedIdx := vq.lastUsedIdx + 1 })

/-- The device returns the chain `head`. -/
def pushUsed (vq : Virtqueue) (head : UInt16) : Virtqueue :=
  { vq with
    usedRing := Function.update vq.usedRing (vq.usedIdx % vq.num) head.toUInt32
    usedIdx := vq.usedIdx + 1 }

/-! ## The two lists -/

/-- The free list is `free`, and `numFree` is its length. -/
structure Free (vq : Virtqueue) (free : List UInt16) : Prop where
  linked : Linked vq.descNext chainEnd vq.freeHead free
  length : free.length = vq.numFree.toNat

/-- The descriptors `ids` are chained in the table. -/
def Chained (vq : Virtqueue) (head : UInt16) (ids : List UInt16) : Prop :=
  Linked vq.chainNext chainEnd head ids

/-- What the lists of the driver do not touch. -/
structure SameRings (vq vq' : Virtqueue) : Prop where
  num : vq'.num = vq.num
  usedIdx : vq'.usedIdx = vq.usedIdx
  usedRing : vq'.usedRing = vq.usedRing
  lastUsedIdx : vq'.lastUsedIdx = vq.lastUsedIdx

lemma SameRings.refl (vq : Virtqueue) : SameRings vq vq :=
  ⟨rfl, rfl, rfl, rfl⟩

lemma SameRings.trans {vq' vq'' : Virtqueue} (h : SameRings vq vq') (h' : SameRings vq' vq'') :
    SameRings vq vq'' :=
  ⟨h'.num.trans h.num, h'.usedIdx.trans h.usedIdx, h'.usedRing.trans h.usedRing,
    h'.lastUsedIdx.trans h.lastUsedIdx⟩

lemma Free.unique {free' : List UInt16} (h : vq.Free free) (h' : vq.Free free') : free = free' :=
  h.linked.unique h'.linked

lemma toNat_add_one (h : n.toNat + 1 < 65536) : (n + 1).toNat = n.toNat + 1 := by
  rw [UInt16.toNat_add]
  simp only [UInt16.reduceToNat]
  omega

lemma toNat_sub_one (h : n ≠ 0) : (n - 1).toNat = n.toNat - 1 := by
  have hpos : 0 < n.toNat := by
    rw [Nat.pos_iff_ne_zero]
    intro hzero
    exact h (UInt16.toNat_inj.mp hzero)
  have hle : (1 : UInt16) ≤ n := by
    rw [UInt16.le_iff_toNat_le]
    exact hpos
  rw [UInt16.toNat_sub_of_le _ _ hle]
  rfl

/-! ## Freeing a chain -/

lemma Free.freeDesc (h : vq.Free free) (hid : id ∉ free) (hne : id ≠ chainEnd)
    (hlen : free.length + 1 < 65536) : (vq.freeDesc id).Free (id :: free) := by
  refine ⟨h.linked.push hid hne, ?_⟩
  have hcount := h.length
  show free.length + 1 = (vq.numFree + 1).toNat
  rw [toNat_add_one (by omega)]
  omega

lemma freeLoop_spec {fuel : Nat} (hchain : vq.Chained head ids) (hne : ids ≠ [])
    (hfuel : ids.length ≤ fuel) (hfree : vq.Free free) (hnodup : (ids ++ free).Nodup)
    (hlen : (ids ++ free).length < 65536) :
    ∃ vq', freeLoop fuel vq head = some vq' ∧ vq'.Free (ids.reverse ++ free) ∧ SameRings vq vq' := by
  induction ids generalizing vq head free fuel with
  | nil => exact absurd rfl hne
  | cons id ids ih =>
    obtain ⟨rfl, hid, hrest⟩ := hchain
    simp only [cons_append, nodup_cons, mem_append, not_or, length_cons,
      length_append] at hnodup hlen
    cases fuel with
    | zero => simp at hfuel
    | succ fuel =>
      have hfree' : (vq.freeDesc head).Free (head :: free) :=
        hfree.freeDesc hnodup.1.2 hid (by omega)
      rw [freeLoop]
      by_cases hnil : ids = []
      · subst hnil
        rw [linked_nil] at hrest
        rw [if_pos hrest]
        exact ⟨_, rfl, hfree', ⟨rfl, rfl, rfl, rfl⟩⟩
      · have hnext : ¬ vq.chainNext head = chainEnd := fun heq => hnil ((hrest.eq_nil_iff).mpr heq)
        rw [if_neg hnext]
        have hchain' : (vq.freeDesc head).Chained (vq.chainNext head) ids := hrest
        have hnodup' : (ids ++ head :: free).Nodup := by
          rw [nodup_middle, nodup_cons, mem_append, not_or]
          exact ⟨hnodup.1, hnodup.2⟩
        obtain ⟨vq', hloop, hfree'', hsame⟩ := ih hchain' hnil (by simpa using hfuel) hfree' hnodup'
          (by simp only [length_append, length_cons]; omega)
        refine ⟨vq', hloop, ?_, ⟨hsame.num, hsame.usedIdx, hsame.usedRing, hsame.lastUsedIdx⟩⟩
        rw [reverse_cons, append_assoc]
        exact hfree''

/-- A chain goes back to the front of the free list, its last descriptor first. -/
lemma freeChain_spec (hchain : vq.Chained head ids) (hne : ids ≠ []) (hfree : vq.Free free)
    (hnodup : (ids ++ free).Nodup) (hlen : (ids ++ free).length < 65536) :
    ∃ vq', vq.freeChain head = some vq' ∧ vq'.Free (ids.reverse ++ free) ∧ SameRings vq vq' := by
  have hfuel : ids.length ≤ 65536 := by
    rw [length_append] at hlen
    omega
  exact freeLoop_spec hchain hne hfuel hfree hnodup hlen

/-! ## Building a chain -/

lemma Free.allocDesc (h : vq.Free (id :: free)) :
    ∃ vq', vq.allocDesc = some (id, vq') ∧ vq'.Free free ∧ vq'.desc = vq.desc ∧
      SameRings vq vq' := by
  obtain ⟨hhead, _, hrest⟩ := h.linked
  have hlen := h.length
  rw [length_cons] at hlen
  have hpos : vq.numFree ≠ 0 := by
    intro hzero
    rw [hzero] at hlen
    simp at hlen
  unfold Virtqueue.allocDesc
  rw [if_neg hpos, hhead]
  refine ⟨_, rfl, ⟨hrest, ?_⟩, rfl, ⟨rfl, rfl, rfl, rfl⟩⟩
  rw [toNat_sub_one hpos]
  omega

lemma flags_last (w : Bool) : (if w then descFWrite else (0 : UInt16)) &&& descFNext = 0 := by
  cases w <;> decide

lemma or_descFNext (x : UInt16) : (x ||| descFNext) &&& descFNext ≠ 0 := by
  have hone : (x ||| descFNext) &&& descFNext = descFNext := by
    apply UInt16.toBitVec_inj.mp
    ext i
    simp
    tauto
  rw [hone]
  decide

section

variable (vq)

lemma chainNext_setDesc_of_ne (h : j ≠ id) (d : VringDesc) :
    (vq.setDesc id d).chainNext j = vq.chainNext j := by
  simp [chainNext, setDesc, h]

lemma chainNext_setDesc_self (id : UInt16) (d : VringDesc) :
    (vq.setDesc id d).chainNext id = if d.flags &&& descFNext ≠ 0 then d.next else chainEnd := by
  simp [chainNext, setDesc]

lemma chainNext_linkDesc_self (h : id ≠ prev) (buf : VirtqueueBuf) :
    (vq.linkDesc prev id buf).chainNext id = chainEnd := by
  have hlast := flags_last buf.write
  unfold linkDesc
  simp only
  split
  · rw [chainNext_setDesc_of_ne _ h, chainNext_setDesc_self, if_neg (not_not.mpr hlast)]
  · rw [chainNext_setDesc_self, if_neg (not_not.mpr hlast)]

lemma chainNext_linkDesc_prev (h : prev ≠ chainEnd) (id : UInt16)
    (buf : VirtqueueBuf) : (vq.linkDesc prev id buf).chainNext prev = id := by
  unfold linkDesc
  simp only
  rw [if_pos h, chainNext_setDesc_self, if_pos (or_descFNext _)]

lemma chainNext_linkDesc_of_ne (hprev : j ≠ prev) (hid : j ≠ id)
    (buf : VirtqueueBuf) : (vq.linkDesc prev id buf).chainNext j = vq.chainNext j := by
  unfold linkDesc
  simp only
  split
  · rw [chainNext_setDesc_of_ne _ hprev, chainNext_setDesc_of_ne _ hid]
  · rw [chainNext_setDesc_of_ne _ hid]

end

/-- A descriptor that is filled and linked becomes the last one of the chain. -/
lemma Chained.linkDesc (h : vq.Chained first ids) (hprev : prev = ids.getLastD chainEnd)
    (hnodup : ids.Nodup) (hid : id ∉ ids) (hne : id ≠ chainEnd) (buf : VirtqueueBuf) :
    (vq.linkDesc prev id buf).Chained (if first = chainEnd then id else first) (ids ++ [id]) := by
  have hlast : ∀ j, ids.getLast? = some j → prev = j ∧ j ∈ ids ∧ j ∉ ids.dropLast := by
    intro j hj
    have hsplit := dropLast_append_getLast? j hj
    rw [← hsplit, nodup_append_comm] at hnodup
    refine ⟨?_, mem_of_getLast? hj, (nodup_cons.mp hnodup).1⟩
    rw [hprev, getLastD_eq_getLast?, hj]
    rfl
  refine Linked.concat h hne ?_ ?_ ?_
  · intro j hj
    have hmem := mem_of_mem_dropLast hj
    have hjid : j ≠ id := fun heq => hid (heq ▸ hmem)
    refine chainNext_linkDesc_of_ne vq ?_ hjid buf
    rintro rfl
    cases hids : ids.getLast? with
    | none =>
      rw [getLast?_eq_none_iff] at hids
      rw [hids] at hmem
      exact not_mem_nil hmem
    | some k =>
      obtain ⟨hk, _, hdrop⟩ := hlast k hids
      exact hdrop (hk ▸ hj)
  · intro j hj
    obtain ⟨rfl, hmem, _⟩ := hlast j hj
    exact chainNext_linkDesc_prev vq (Linked.ne_stop h hmem) id buf
  · refine chainNext_linkDesc_self vq ?_ buf
    rintro rfl
    cases hids : ids.getLast? with
    | none =>
      rw [getLastD_eq_getLast?, hids] at hprev
      exact hne hprev
    | some k =>
      obtain ⟨hk, hmem, _⟩ := hlast k hids
      exact hid (hk ▸ hmem)

lemma linkDesc_free (h : vq.Free free) (prev id : UInt16) (buf : VirtqueueBuf) :
    (vq.linkDesc prev id buf).Free free := by
  unfold linkDesc
  simp only
  split
  · exact ⟨h.linked, h.length⟩
  · exact ⟨h.linked, h.length⟩

lemma linkDesc_sameRings (vq : Virtqueue) (prev id : UInt16) (buf : VirtqueueBuf) :
    SameRings vq (vq.linkDesc prev id buf) := by
  unfold linkDesc
  simp only
  split
  · exact ⟨rfl, rfl, rfl, rfl⟩
  · exact ⟨rfl, rfl, rfl, rfl⟩

/-- The loop appends the descriptors `ids` of the free list to the chain `done`. -/
lemma addLoop_spec {bufs : List VirtqueueBuf} {done : List UInt16}
    (hlen : ids.length = bufs.length) (hchain : vq.Chained first done)
    (hprev : prev = done.getLastD chainEnd) (hfree : vq.Free (ids ++ free))
    (hnodup : (done ++ ids).Nodup) :
    ∃ head vq', addLoop bufs first prev vq = some (some head, vq') ∧
      vq'.Chained head (done ++ ids) ∧ vq'.Free free ∧ SameRings vq vq' := by
  induction bufs generalizing ids done first prev vq with
  | nil =>
    have hnil : ids = [] := length_eq_zero_iff.mp hlen
    subst hnil
    rw [append_nil]
    exact ⟨first, vq, rfl, hchain, hfree, SameRings.refl vq⟩
  | cons buf bufs ih =>
    cases ids with
    | nil => simp at hlen
    | cons id ids =>
      have hne : id ≠ chainEnd := Linked.ne_stop hfree.linked mem_cons_self
      obtain ⟨vq1, halloc, hfree1, hdesc, hsame1⟩ := hfree.allocDesc
      rw [nodup_middle, nodup_cons, mem_append, not_or] at hnodup
      obtain ⟨⟨hid, hids⟩, hrest⟩ := hnodup
      -- the descriptor that was taken is not on the chain yet
      have hchain1 : vq1.Chained first done := by
        refine Linked.congr hchain ?_
        intro j _
        rw [chainNext, chainNext, hdesc]
      have hchain2 := hchain1.linkDesc hprev (List.Nodup.of_append_left hrest) hid hne buf
      have hnodup2 : ((done ++ [id]) ++ ids).Nodup := by
        rw [append_assoc, singleton_append, nodup_middle, nodup_cons, mem_append, not_or]
        exact ⟨⟨hid, hids⟩, hrest⟩
      have hprev2 : id = (done ++ [id]).getLastD chainEnd := by
        rw [getLastD_eq_getLast?, getLast?_concat]
        rfl
      obtain ⟨head, vq', hloop, hchain', hfree', hsame'⟩ :=
        ih (by simpa using hlen) hchain2 hprev2 (linkDesc_free hfree1 prev id buf) hnodup2
      refine ⟨head, vq', ?_, ?_, hfree', ?_⟩
      · rw [addLoop, halloc]
        exact hloop
      · rw [append_assoc, singleton_append] at hchain'
        exact hchain'
      · exact (hsame1.trans (linkDesc_sameRings vq1 prev id buf)).trans hsame'

lemma addBuf_spec (hfree : vq.Free free) (hnodup : free.Nodup) (bufs : List VirtqueueBuf) :
    vq.addBuf bufs = some (none, vq) ∨
      ∃ ids rest head vq', free = ids ++ rest ∧ ids ≠ [] ∧
        vq.addBuf bufs = some (some head, vq') ∧ vq'.Chained head ids ∧ vq'.Free rest ∧
        SameRings vq vq' := by
  unfold addBuf
  by_cases hzero : bufs.length = 0
  · left
    rw [if_pos hzero]
  · rw [if_neg hzero]
    by_cases hfew : vq.numFree.toNat < bufs.length
    · left
      rw [if_pos hfew]
    · right
      rw [if_neg hfew]
      have hlen := hfree.length
      have htake : (free.take bufs.length).length = bufs.length := by
        rw [length_take]
        omega
      have hsplit := take_append_drop bufs.length free
      have hempty : vq.Chained chainEnd [] := rfl
      have hfree' : vq.Free (free.take bufs.length ++ free.drop bufs.length) := hsplit.symm ▸ hfree
      have hnodup' : ([] ++ free.take bufs.length).Nodup := hnodup.sublist (take_sublist _ _)
      have hlast : chainEnd = ([] : List UInt16).getLastD chainEnd := rfl
      obtain ⟨head, vq', hloop, hchain, hrest, hsame⟩ :=
        addLoop_spec htake hempty hlast hfree' hnodup'
      refine ⟨free.take bufs.length, free.drop bufs.length, head, vq'.publish head, hsplit.symm,
        ?_, ?_, hchain, ⟨hrest.linked, hrest.length⟩,
        ⟨hsame.num, hsame.usedIdx, hsame.usedRing, hsame.lastUsedIdx⟩⟩
      · intro hnil
        rw [hnil] at htake
        exact hzero htake.symm
      · rw [hloop]

/-! ## A new queue -/

lemma toNat_ofNat_of_lt_num {k : Nat} (h : k < num.toNat) : (UInt16.ofNat k).toNat = k :=
  UInt16.toNat_ofNat_of_lt' (Nat.lt_trans h num.toNat_lt)

lemma ne_chainEnd_of_lt_num {i : UInt16} (h : i.toNat < num.toNat) : i ≠ chainEnd := by
  rintro rfl
  have hnum := num.toNat_lt
  have hend : chainEnd.toNat = 65535 := rfl
  omega

lemma vringNew_linked {n k : Nat} (hn : k + n = num.toNat) (hpos : 0 < n) :
    Linked (vringNew num).descNext chainEnd (UInt16.ofNat k)
      ((List.range' k n).map UInt16.ofNat) := by
  have hlast : (num - 1).toNat = num.toNat - 1 := by
    apply toNat_sub_one
    rintro rfl
    have hzero : (0 : UInt16).toNat = 0 := rfl
    omega
  induction n generalizing k with
  | zero => omega
  | succ n ih =>
    have hk : (UInt16.ofNat k).toNat = k := toNat_ofNat_of_lt_num (show k < num.toNat by omega)
    rw [List.range'_succ, map_cons]
    refine ⟨rfl, ne_chainEnd_of_lt_num (by omega : (UInt16.ofNat k).toNat < num.toNat), ?_⟩
    show Linked _ _ (if UInt16.ofNat k < num - 1 then UInt16.ofNat k + 1 else chainEnd) _
    by_cases hn0 : n = 0
    · subst hn0
      have hge : ¬ UInt16.ofNat k < num - 1 := by
        rw [UInt16.lt_iff_toNat_lt, hk, hlast]
        omega
      rw [if_neg hge]
      rfl
    · have hlt : UInt16.ofNat k < num - 1 := by
        rw [UInt16.lt_iff_toNat_lt, hk, hlast]
        omega
      have hsucc : UInt16.ofNat k + 1 = UInt16.ofNat (k + 1) := by
        rw [UInt16.ofNat_add]
        rfl
      rw [if_pos hlt, hsucc]
      exact ih (by omega) (by omega)

lemma vringNew_free (hnum : 0 < num.toNat) :
    ∃ free, (vringNew num).Free free ∧ free.Nodup ∧
      ∀ i : UInt16, i ∈ free ↔ i.toNat < num.toNat := by
  refine ⟨(List.range' 0 num.toNat).map UInt16.ofNat, ⟨?_, ?_⟩, ?_, ?_⟩
  · exact vringNew_linked (zero_add _) hnum
  · rw [length_map, length_range']
    rfl
  · refine List.Nodup.map_on ?_ nodup_range'
    intro a ha b hb heq
    rw [mem_range'_1, zero_add] at ha hb
    have hval := congrArg UInt16.toNat heq
    rwa [toNat_ofNat_of_lt_num ha.2, toNat_ofNat_of_lt_num hb.2] at hval
  · intro i
    rw [mem_map]
    constructor
    · rintro ⟨a, ha, rfl⟩
      rw [mem_range'_1, zero_add] at ha
      rw [toNat_ofNat_of_lt_num ha.2]
      exact ha.2
    · intro hi
      exact ⟨i.toNat, mem_range'_1.mpr ⟨Nat.zero_le _, by omega⟩, UInt16.ofNat_toNat⟩

end Virtqueue
end LiteKernel.Drivers
