import LiteKernel.Drivers.VirtioScsi
import LiteKernel.Lib.Run

/-!
# Who has the descriptors of a request queue

A descriptor is free, or it belongs to a chain that the device has or has returned.
When the time is over, the driver frees a chain that the device still has.

Main results:

- Theorem `partition_iff`: the descriptors are partitioned in a run exactly if no command runs
  out of time.
- Theorem `timeout_overlaps`: a free descriptor that the device has.
-/

namespace LiteKernel.Drivers

open Lib Virtqueue List Function

/-- The descriptors of a queue, each once, are those of two lists. -/
structure Covers (num : UInt16) (free ids : List UInt16) : Prop where
  nodup : (free ++ ids).Nodup
  mem : ∀ i : UInt16, i ∈ free ++ ids ↔ i.toNat < num.toNat

namespace Covers

variable {num : UInt16} {free ids : List UInt16}

lemma length_lt (h : Covers num free ids) : (free ++ ids).length < 65536 := by
  have hnodup : ((free ++ ids).map UInt16.toNat).Nodup :=
    h.nodup.map fun a b hab => UInt16.toNat_inj.mp hab
  have hsubset : (free ++ ids).map UInt16.toNat ⊆ List.range num.toNat := by
    intro n hn
    obtain ⟨i, hi, rfl⟩ := mem_map.mp hn
    exact mem_range.mpr ((h.mem i).mp hi)
  have hle := (hnodup.subperm hsubset).length_le
  rw [length_map, length_range] at hle
  exact lt_of_le_of_lt hle num.toNat_lt

lemma of_perm {free' ids' : List UInt16} (h : Covers num free ids)
    (hperm : (free ++ ids).Perm (free' ++ ids')) : Covers num free' ids' :=
  ⟨hperm.nodup_iff.mp h.nodup, fun i => (hperm.mem_iff).symm.trans (h.mem i)⟩

end Covers

namespace Scsi

variable {s : Scsi} {num : UInt16} {free : List UInt16} {r : Request}

/-- The device has the request. -/
structure InFlight (s : Scsi) (r : Request) : Prop where
  empty : s.vq.lastUsedIdx = s.vq.usedIdx
  returned : s.returned = []
  pending : r ∈ s.pending

/-- The device has completed the request, and its entry is in the used ring. -/
structure Back (s : Scsi) (r : Request) : Prop where
  entry : s.vq.usedIdx = s.vq.lastUsedIdx + 1
  head : (s.vq.usedRing (s.vq.lastUsedIdx % s.vq.num)).toUInt16 = r.head
  returned : s.returned = [r]
  done : ∀ q ∈ s.pending, q.tag ≠ r.tag
  completed : ⟨r.tag, (s.resp r.resp).status⟩ ∈ s.completions

/-- What is known in each phase, with the free list `free`. -/
def PhaseOk (num : UInt16) (s : Scsi) (free : List UInt16) : Phase → Prop
  | .idle => Covers num free [] ∧ s.vq.lastUsedIdx = s.vq.usedIdx ∧ s.returned = []
  | .waiting r =>
      Covers num free r.ids ∧ r.ids ≠ [] ∧ s.vq.Chained r.head r.ids ∧ (InFlight s r ∨ Back s r)
  | .stuck => False

/-- The lists of the driver are in order, and what it has told the commands is true. -/
structure Sane (num : UInt16) (s : Scsi) (free : List UInt16) : Prop where
  num_eq : s.vq.num = num
  freeList : s.vq.Free free
  fresh : ∀ q ∈ s.pending, q.tag < s.nextTag
  distinct : (s.pending.map Request.tag).Nodup
  told : ∀ p ∈ s.reports, p.result = statusGood → ⟨p.tag, statusGood⟩ ∈ s.completions
  phase : PhaseOk num s free s.phase

lemma start_sane (hnum : 0 < num.toNat) : ∃ free, Sane num (start num) free := by
  obtain ⟨free, hfree, hnodup, hmem⟩ := vringNew_free hnum
  refine ⟨free, rfl, hfree, ?_, nodup_nil, ?_, ⟨?_, ?_⟩, rfl, rfl⟩
  · exact fun _ hq => absurd hq not_mem_nil
  · exact fun _ hp => absurd hp not_mem_nil
  · rw [append_nil]
    exact hnodup
  · intro i
    rw [append_nil]
    exact hmem i

/-! ## The steps -/

lemma walk_eq {vq : Virtqueue} {head : UInt16} {ids : List UInt16} {fuel : Nat}
    (h : vq.Chained head ids) (hfuel : ids.length < fuel) : walk vq fuel head = ids := by
  induction ids generalizing head fuel with
  | nil =>
    cases fuel with
    | zero => simp at hfuel
    | succ fuel =>
      have hend : head = chainEnd := h
      rw [walk, if_pos hend]
  | cons id ids ih =>
    obtain ⟨rfl, hne, hrest⟩ := h
    cases fuel with
    | zero => simp at hfuel
    | succ fuel =>
      rw [walk, if_neg hne, ih hrest (by simpa using hfuel)]

lemma Sane.submit (h : Sane num s free) (sc : ScsiCmnd) (req resp : Option Nat) :
    ∃ free', Sane num (s.submit sc req resp) free' := by
  unfold Scsi.submit
  cases hphase : s.phase with
  | waiting r => exact ⟨free, h⟩
  | stuck => exact ⟨free, h⟩
  | idle =>
    have hok := h.phase
    rw [hphase] at hok
    obtain ⟨hcover, hempty, hreturned⟩ := hok
    have hnodup : free.Nodup := by
      have hall := hcover.nodup
      rwa [append_nil] at hall
    simp only
    split
    · exact ⟨free, h⟩
    · split
      case h_1 req resp =>
        rcases addBuf_spec h.freeList hnodup (buffers sc req resp) with
          hfail | ⟨ids, rest, head, vq, hsplit, hids, hadd, hchain, hrest, hsame⟩
        · rw [hfail]
          exact ⟨free, h.num_eq, h.freeList, h.fresh, h.distinct, h.told, hcover, hempty, hreturned⟩
        · rw [hadd]
          have hcover' : Covers num rest ids := by
            refine hcover.of_perm ?_
            rw [append_nil, hsplit]
            exact perm_append_comm
          have hwalk : walk vq 65536 head = ids := by
            refine walk_eq hchain ?_
            have hlen := hcover'.length_lt
            rw [length_append] at hlen
            omega
          refine ⟨rest, hsame.num.trans h.num_eq, hrest, ?_, ?_, h.told, ?_⟩
          · intro q hq
            rcases mem_append.mp hq with hq | hq
            · exact Nat.lt_succ_of_lt (h.fresh q hq)
            · rw [mem_singleton.mp hq]
              exact Nat.lt_succ_self _
          · simp only [map_append, map_cons, map_nil]
            rw [nodup_append_comm]
            refine nodup_cons.mpr ⟨?_, h.distinct⟩
            intro hmem
            obtain ⟨q, hq, htag⟩ := mem_map.mp hmem
            exact absurd (h.fresh q hq) (by omega)
          · refine ⟨?_, ?_, ?_, Or.inl ⟨?_, hreturned, mem_append_right _ mem_cons_self⟩⟩
            · simp only [hwalk]
              exact hcover'
            · simp only [hwalk]
              exact hids
            · simp only [hwalk]
              exact hchain
            · show vq.lastUsedIdx = vq.usedIdx
              rw [hsame.lastUsedIdx, hsame.usedIdx, hempty]
      case h_2 => exact ⟨free, h⟩

/-- The device completes only the command in progress, if it completes one. -/
def OnTime (s : Scsi) : Action → Prop
  | .complete tag _ => (∃ q ∈ s.pending, q.tag = tag) → ∃ r, s.phase = .waiting r ∧ r.tag = tag
  | _ => True

lemma Sane.complete (h : Sane num s free) (tag : Nat) (c : CmdResp)
    (hok : OnTime s (.complete tag c)) : Sane num (s.complete tag c) free := by
  unfold Scsi.complete
  cases hfind : s.pending.find? fun r => r.tag == tag with
  | none => exact h
  | some q =>
    have hq : q ∈ s.pending := mem_of_find?_eq_some hfind
    have htag : q.tag = tag := by
      have := List.find?_some hfind
      simpa using this
    obtain ⟨r, hphase, hr⟩ := hok ⟨q, hq, htag⟩
    have hph := h.phase
    rw [hphase] at hph
    obtain ⟨hcover, hids, hchain, hstate⟩ := hph
    rcases hstate with hfly | hback
    · -- the request that is found is the one that the driver waits for
      have hqr : q = r :=
        inj_on_of_nodup_map h.distinct hq hfly.pending (htag.trans hr.symm)
      subst hqr
      have hsub : ∀ p ∈ s.pending.filter fun p => p.tag != tag, p ∈ s.pending := by
        intro p hp
        exact (mem_filter.mp hp).1
      refine ⟨h.num_eq, ⟨h.freeList.linked, h.freeList.length⟩, ?_, ?_, ?_, ?_⟩
      · exact fun p hp => h.fresh p (hsub p hp)
      · exact h.distinct.sublist (filter_sublist.map _)
      · intro p hp hgood
        exact mem_cons_of_mem _ (h.told p hp hgood)
      · simp only [hphase]
        refine ⟨hcover, hids, hchain, Or.inr ⟨?_, ?_, ?_, ?_, ?_⟩⟩
        · show s.vq.usedIdx + 1 = s.vq.lastUsedIdx + 1
          rw [hfly.empty]
        · show (update s.vq.usedRing (s.vq.usedIdx % s.vq.num) q.head.toUInt32
            (s.vq.lastUsedIdx % s.vq.num)).toUInt16 = q.head
          rw [hfly.empty, update_self]
          exact UInt16.toUInt16_toUInt32 q.head
        · show s.returned ++ [q] = [q]
          rw [hfly.returned]
          rfl
        · intro p hp
          have hne := (mem_filter.mp hp).2
          rw [hr]
          simpa using hne
        · show Completion.mk q.tag (update s.resp q.resp c q.resp).status ∈ _
          rw [update_self, htag]
          exact mem_cons_self
    · exact absurd (htag.trans hr.symm) (hback.done q hq)

lemma Sane.finish (hnum : s.vq.num = num) (hfree : s.vq.Free free)
    (hfresh : ∀ q ∈ s.pending, q.tag < s.nextTag) (hdistinct : (s.pending.map Request.tag).Nodup)
    (htold : ∀ p ∈ s.reports, p.result = statusGood → ⟨p.tag, statusGood⟩ ∈ s.completions)
    (hcover : Covers num free r.ids) (hids : r.ids ≠ []) (hchain : s.vq.Chained r.head r.ids)
    (hempty : s.vq.lastUsedIdx = s.vq.usedIdx) (hreturned : s.returned = []) {p : Report}
    (hp : p.result = statusGood → ⟨p.tag, statusGood⟩ ∈ s.completions) :
    Sane num (s.finish r.head p) (r.ids.reverse ++ free) ∧ (s.finish r.head p).phase = .idle ∧
      (s.finish r.head p).pending = s.pending ∧ (s.finish r.head p).returned = [] := by
  have hperm : (free ++ r.ids).Perm (r.ids ++ free) := perm_append_comm
  have hnodup : (r.ids ++ free).Nodup := hperm.nodup_iff.mp hcover.nodup
  have hlen : (r.ids ++ free).length < 65536 := by
    rw [← hperm.length_eq]
    exact hcover.length_lt
  obtain ⟨vq, hchainFree, hfree', hsame⟩ := freeChain_spec hchain hids hfree hnodup hlen
  unfold Scsi.finish
  rw [hchainFree]
  refine ⟨⟨hsame.num.trans hnum, hfree', hfresh, hdistinct, ?_, ?_, ?_, hreturned⟩, rfl, rfl,
    hreturned⟩
  · intro q hq hgood
    rcases mem_cons.mp hq with rfl | hq
    · exact hp hgood
    · exact htold q hq hgood
  · refine hcover.of_perm ?_
    rw [append_nil]
    exact hperm.trans ((reverse_perm r.ids).symm.append_right free)
  · show vq.lastUsedIdx = vq.usedIdx
    rw [hsame.lastUsedIdx, hsame.usedIdx, hempty]

section

variable (h : Sane num s free)
include h

lemma Sane.poll_inFlight (hphase : s.phase = .waiting r) (hfly : InFlight s r) :
    s.poll false = s ∧ Sane num (s.poll true) (r.ids.reverse ++ free) ∧
      (s.poll true).phase = .idle ∧ (s.poll true).pending = s.pending := by
  have hph := h.phase
  rw [hphase] at hph
  obtain ⟨hcover, hids, hchain, _⟩ := hph
  have hget : s.vq.getBuf = none := by
    rw [getBuf, if_pos hfly.empty]
  have hcheck : statusCheckCondition = statusGood →
      Completion.mk r.tag statusGood ∈ s.completions := fun heq => absurd heq (by decide)
  have hfinish := Sane.finish h.num_eq h.freeList h.fresh h.distinct h.told hcover hids hchain hfly.empty
    hfly.returned (p := ⟨r.tag, statusCheckCondition, []⟩) hcheck
  unfold Scsi.poll
  rw [hphase, hget]
  exact ⟨rfl, hfinish.1, hfinish.2.1, hfinish.2.2.1⟩

lemma Sane.poll_back (hphase : s.phase = .waiting r) (hback : Back s r) (expired : Bool) :
    Sane num (s.poll expired) (r.ids.reverse ++ free) ∧ (s.poll expired).phase = .idle ∧
      (s.poll expired).pending = s.pending := by
  have hph := h.phase
  rw [hphase] at hph
  obtain ⟨hcover, hids, hchain, _⟩ := hph
  have hne : s.vq.lastUsedIdx ≠ s.vq.usedIdx := by
    rw [hback.entry]
    intro heq
    have hval := congrArg UInt16.toNat heq
    have hone : (1 : UInt16).toNat = 1 := rfl
    rw [UInt16.toNat_add, hone] at hval
    omega
  have hget : s.vq.getBuf = some (r.head, { s.vq with lastUsedIdx := s.vq.lastUsedIdx + 1 }) := by
    rw [getBuf, if_neg hne, hback.head]
  have hfinish := Sane.finish
    (s := { s with vq := { s.vq with lastUsedIdx := s.vq.lastUsedIdx + 1 }, returned := s.returned.tail })
    h.num_eq ⟨h.freeList.linked, h.freeList.length⟩ h.fresh h.distinct h.told hcover hids hchain
    hback.entry.symm (by rw [hback.returned]; rfl)
    (p := ⟨r.tag, (s.resp r.resp).status, CmdResp.senseData (s.resp r.resp)⟩)
    (fun hgood => hgood ▸ hback.completed)
  unfold Scsi.poll
  rw [hphase, hget]
  exact ⟨hfinish.1, hfinish.2.1, hfinish.2.2.1⟩

lemma Sane.poll (expired : Bool) : ∃ free', Sane num (s.poll expired) free' := by
  cases hphase : s.phase with
  | idle =>
    refine ⟨free, ?_⟩
    rwa [Scsi.poll, hphase]
  | stuck =>
    refine ⟨free, ?_⟩
    rwa [Scsi.poll, hphase]
  | waiting r =>
    have hph := h.phase
    rw [hphase] at hph
    rcases hph.2.2.2 with hfly | hback
    · obtain ⟨hfalse, htrue, _⟩ := h.poll_inFlight hphase hfly
      cases expired with
      | false => exact ⟨free, hfalse.symm ▸ h⟩
      | true => exact ⟨_, htrue⟩
    · exact ⟨_, (h.poll_back hphase hback expired).1⟩

lemma Sane.step (a : Action) (hok : OnTime s a) : ∃ free', Sane num (s.step a) free' := by
  cases a with
  | submit sc req resp => exact h.submit sc req resp
  | complete tag c => exact ⟨free, h.complete tag c hok⟩
  | poll expired => exact h.poll expired

end

/-! ## Free descriptors and chains of the device -/

/-- The free list and the chains that the driver has not got back partition the descriptors. -/
def Partitioned (num : UInt16) (s : Scsi) : Prop :=
  ∃ free, s.vq.Free free ∧ Covers num free ((s.pending ++ s.returned).flatMap Request.ids)

/-- The device has no other request than the one in progress. -/
def Prompt (s : Scsi) : Phase → Prop
  | .idle => s.pending = []
  | .waiting r => s.pending = [r] ∨ s.pending = []
  | .stuck => True

/-- When the time of a command is over, its chain is back. -/
def InTime (s : Scsi) : Action → Prop
  | .poll true => ∀ r, s.phase = .waiting r → s.vq.lastUsedIdx ≠ s.vq.usedIdx
  | _ => True

/-- The invariant of runs in which no command runs out of time. -/
def Orderly (num : UInt16) (s : Scsi) : Prop :=
  (∃ free, Sane num s free) ∧ Prompt s s.phase

lemma Orderly.partitioned (h : Orderly num s) : Partitioned num s := by
  obtain ⟨⟨free, hs⟩, hprompt⟩ := h
  have hph := hs.phase
  refine ⟨free, hs.freeList, ?_⟩
  cases hphase : s.phase with
  | idle =>
    rw [hphase] at hph hprompt
    obtain ⟨hcover, _, hreturned⟩ := hph
    have hpending : s.pending = [] := hprompt
    rw [hpending, hreturned]
    exact hcover
  | stuck =>
    rw [hphase] at hph
    exact absurd hph id
  | waiting r =>
    rw [hphase] at hph hprompt
    obtain ⟨hcover, _, _, hfly | hback⟩ := hph
    · have hpending : s.pending = [r] := by
        refine hprompt.resolve_right ?_
        intro hnil
        have hmem := hfly.pending
        rw [hnil] at hmem
        exact not_mem_nil hmem
      rw [hpending, hfly.returned]
      simpa using hcover
    · have hpending : s.pending = [] := by
        refine hprompt.resolve_left ?_
        intro hone
        exact hback.done r (hone ▸ mem_cons_self) rfl
      rw [hpending, hback.returned]
      simpa using hcover

/-- What the device completes is the command in progress. -/
lemma Orderly.onTime (h : Orderly num s) (a : Action) : OnTime s a := by
  obtain ⟨⟨free, hs⟩, hprompt⟩ := h
  have hph := hs.phase
  cases a with
  | submit sc req resp => trivial
  | poll expired => trivial
  | complete tag c =>
    rintro ⟨q, hq, htag⟩
    cases hphase : s.phase with
    | idle =>
      rw [hphase] at hprompt
      have hpending : s.pending = [] := hprompt
      rw [hpending] at hq
      exact absurd hq not_mem_nil
    | stuck =>
      rw [hphase] at hph
      exact absurd hph id
    | waiting r =>
      rw [hphase] at hprompt
      rcases hprompt with hone | hnil
      · rw [hone, mem_singleton] at hq
        exact ⟨r, rfl, hq ▸ htag⟩
      · rw [hnil] at hq
        exact absurd hq not_mem_nil

/-- A failed submission leaves the driver idle; another one makes its request the only one. -/
lemma prompt_submit (h : Prompt s s.phase) (sc : ScsiCmnd) (req resp : Option Nat) :
    Prompt (s.submit sc req resp) (s.submit sc req resp).phase := by
  unfold Scsi.submit
  cases hphase : s.phase with
  | waiting r =>
    simp only [hphase]
    rwa [hphase] at h
  | stuck =>
    simp only [hphase]
    trivial
  | idle =>
    rw [hphase] at h
    have hpending : s.pending = [] := h
    simp only
    split
    · rw [hphase]
      exact hpending
    · split
      · split
        · trivial
        · exact hpending
        · left
          rw [hpending]
          rfl
      · rw [hphase]
        exact hpending

lemma prompt_complete (h : Prompt s s.phase) (tag : Nat) (c : CmdResp) :
    Prompt (s.complete tag c) (s.complete tag c).phase := by
  unfold Scsi.complete
  split
  · exact h
  · cases hphase : s.phase with
    | idle =>
      rw [hphase] at h
      have hpending : s.pending = [] := h
      rw [hpending]
      rfl
    | stuck => trivial
    | waiting r =>
      rw [hphase] at h
      rcases h with hone | hnil
      · rw [hone, filter_cons]
        split
        · exact .inl rfl
        · exact .inr rfl
      · rw [hnil]
        exact .inr rfl

lemma Orderly.step (h : Orderly num s) (a : Action) (hok : InTime s a) :
    Orderly num (s.step a) := by
  have hon := h.onTime a
  obtain ⟨⟨free, hs⟩, hprompt⟩ := h
  refine ⟨hs.step a hon, ?_⟩
  cases a with
  | submit sc req resp => exact prompt_submit hprompt sc req resp
  | complete tag c => exact prompt_complete hprompt tag c
  | poll expired =>
    show Prompt (s.poll expired) (s.poll expired).phase
    have hph := hs.phase
    cases hphase : s.phase with
    | idle =>
      rw [Scsi.poll, hphase]
      simpa only [hphase] using hprompt
    | stuck =>
      rw [hphase] at hph
      exact absurd hph id
    | waiting r =>
      rw [hphase] at hph
      rcases hph.2.2.2 with hfly | hback
      · cases expired with
        | false =>
          rw [(hs.poll_inFlight hphase hfly).1]
          exact hprompt
        | true => exact absurd hfly.empty (hok r hphase)
      · obtain ⟨_, hidle, hpending⟩ := hs.poll_back hphase hback expired
        rw [hphase] at hprompt
        rw [hidle]
        show (s.poll expired).pending = []
        rw [hpending]
        refine hprompt.resolve_left ?_
        intro hone
        exact hback.done r (hone ▸ mem_cons_self) rfl

/-- A command that runs out of time leaves its chain with the device and on the free list. -/
lemma Orderly.inTime (h : Orderly num s) (a : Action) (hpart : Partitioned num (s.step a)) :
    InTime s a := by
  obtain ⟨⟨free, hs⟩, hprompt⟩ := h
  cases a with
  | submit sc req resp => trivial
  | complete tag c => trivial
  | poll expired =>
    cases expired with
    | false => trivial
    | true =>
      intro r hphase hempty
      have hph := hs.phase
      rw [hphase] at hph
      obtain ⟨_, hids, _, hfly | hback⟩ := hph
      · obtain ⟨_, hsane, _, hpending⟩ := hs.poll_inFlight hphase hfly
        obtain ⟨free', hfree', hcover⟩ := hpart
        have hfree : free' = r.ids.reverse ++ free := hfree'.unique hsane.freeList
        obtain ⟨i, hi⟩ := exists_mem_of_ne_nil _ hids
        have hleft : i ∈ free' := by
          rw [hfree]
          exact mem_append_left _ (mem_reverse.mpr hi)
        have hright : i ∈ ((s.poll true).pending ++ (s.poll true).returned).flatMap Request.ids := by
          rw [mem_flatMap]
          refine ⟨r, mem_append_left _ ?_, hi⟩
          rw [hpending]
          exact hfly.pending
        exact (nodup_append.mp hcover.nodup).2.2 i hleft i hright rfl
      · have hentry := hback.entry
        rw [← hempty] at hentry
        have hval := congrArg UInt16.toNat hentry
        have hone : (1 : UInt16).toNat = 1 := rfl
        rw [UInt16.toNat_add, hone] at hval
        omega

/-- Along a run free list and chains partition the descriptors just when no command times out. -/
theorem partition_iff {num : UInt16} (hnum : 0 < num.toNat) (ops : List Action) :
    (∀ n, Partitioned num (run Scsi.step (start num) (ops.take n))) ↔
      RunOk Scsi.step InTime (start num) ops := by
  have hstart : Orderly num (start num) := ⟨start_sane hnum, rfl⟩
  have hstep : ∀ s a, Orderly num s → InTime s a → Orderly num (s.step a) :=
    fun s a hs hok => hs.step a hok
  constructor
  · exact runOk_of_forall_take (Orderly num) (Partitioned num) hstep
      (fun s a hs hp => hs.inTime a hp) hstart
  · intro hok n
    exact (run_invariant (Orderly num) hstep hstart (hok.take n)).partitioned

/-- A command without data. -/
def testUnitReady : ScsiCmnd where
  hasDevice := true
  cmdLen := 6
  dataDirection := .none
  requestBuffer := 0
  requestBufflen := 0

/-- The device completes a command in time. -/
def answered : List Action :=
  [.submit testUnitReady (some 4096) (some 8192), .complete 0 CmdResp.zero, .poll true]

theorem answered_partitioned : Partitioned 2 (run Scsi.step (start 2) answered) := by
  refine (partition_iff (by decide) answered).mpr ?_ 3
  refine ⟨trivial, trivial, ?_, trivial⟩
  intro r _
  decide

/-- The time of a command is over before the device completes it. -/
def unanswered : List Action :=
  [.submit testUnitReady (some 4096) (some 8192), .poll true]

/-- Both descriptors are free, and the device has the chain that is made of them. -/
theorem timeout_overlaps :
    (run Scsi.step (start 2) unanswered).vq.Free [1, 0] ∧
      (run Scsi.step (start 2) unanswered).pending.flatMap Request.ids = [0, 1] ∧
      ¬ Partitioned 2 (run Scsi.step (start 2) unanswered) := by
  have hfree : (run Scsi.step (start 2) unanswered).vq.Free [1, 0] :=
    ⟨⟨by decide, by decide, by decide, by decide, rfl⟩, by decide⟩
  have hpending : (run Scsi.step (start 2) unanswered).pending.flatMap Request.ids = [0, 1] := by
    decide
  refine ⟨hfree, hpending, ?_⟩
  rintro ⟨free, hfree', hcover⟩
  have heq : free = [1, 0] := hfree'.unique hfree
  have hnodup := hcover.nodup
  rw [heq, flatMap_append, hpending] at hnodup
  exact absurd hnodup (by decide)

end Scsi
end LiteKernel.Drivers
