import LiteKernel.Drivers.DeviceCore
import LiteKernel.Lib.IndexList

/-!
# What a failed `device_add` leaves behind

When the request for the device node fails, `device_add` takes the device out of the devices
kset first, and with the kset the device loses the parent it had by default; so a device
without a parent of its own stays the first child of the kset, and its cleared `next` cuts
the other children off. A device that was a child of its parent before is none after the call.

Main results:

- Theorem `deviceAdd_noTrace_iff`: when a failed call leaves no trace.
- Lemma `Initialised.trace_of_no_parent`: the trace of a device without a parent.
-/

namespace LiteKernel.Drivers

open Function Lib List Option

namespace DeviceCore

variable {s : DeviceCore} {fuel d k p : Nat} {l : List Nat}
variable {C N : Nat → Nat} {c q : Nat}

/-- The children of an object, from the first one on. -/
def ChildList (s : DeviceCore) (k : Nat) (l : List Nat) : Prop :=
  Linked s.next 0 (s.children k) l

/-! ## References -/

/-- The count that `kref_get` leaves. -/
def raise (c : Nat) : Nat :=
  if c < krefMax then c + 1 else c

lemma kobjectGet_eq (s : DeviceCore) (k : Nat) :
    s.kobjectGet k = { s with refcount := update s.refcount k (raise (s.refcount k)) } := by
  unfold kobjectGet raise
  split_ifs
  · rfl
  · rw [update_eq_self]

lemma kobjectPut_eq (h : 1 < s.refcount k) :
    s.kobjectPut k = { s with refcount := update s.refcount k (s.refcount k - 1) } := by
  have hpos : 0 < update s.refcount k (s.refcount k - 1) k := by
    rw [update_self]
    omega
  unfold kobjectPut
  rw [if_neg (by omega)]
  exact if_pos hpos

lemma one_lt_raise (h : 1 ≤ c) : 1 < raise c := by
  unfold raise krefMax
  split_ifs <;> omega

lemma raise_sub_one_eq_iff (h : 1 ≤ c) : raise c - 1 = c ↔ c < krefMax := by
  unfold raise
  split_ifs <;> omega

lemma raise_raise_sub_two_eq_iff (h : 1 ≤ c) : raise (raise c) - 1 - 1 = c ↔ c + 1 < krefMax := by
  unfold raise krefMax
  split_ifs <;> omega

/-! ## The list of children -/

lemma kobjectParent_of_parent (hp : s.parent k ≠ 0) : s.kobjectParent k = s.parent k :=
  if_pos hp

lemma kobjectParent_of_kset (hp : s.parent k = 0) (hk : s.kset k ≠ 0) (hne : s.kset k ≠ k) :
    s.kobjectParent k = s.kset k := by
  rw [kobjectParent, if_neg (not_not.mpr hp), if_pos ⟨hk, hne⟩]

lemma kobjectParent_of_null (hp : s.parent k = 0) (hk : s.kset k = 0) : s.kobjectParent k = 0 :=
    by
  rw [kobjectParent, if_neg (not_not.mpr hp), if_neg fun h => h.1 hk]

lemma childLinkedFrom_eq {cur : Nat} (h : Linked s.next 0 cur l) (hfuel : l.length < fuel) :
    childLinkedFrom fuel s cur d = some (decide (d ∈ l)) := by
  induction l generalizing cur fuel with
  | nil =>
    obtain ⟨fuel, rfl⟩ := Nat.exists_eq_add_one.mpr (Nat.zero_lt_of_lt hfuel)
    exact if_pos h
  | cons c l ih =>
    obtain ⟨fuel, rfl⟩ := Nat.exists_eq_add_one.mpr (Nat.zero_lt_of_lt hfuel)
    obtain ⟨rfl, hc, hl⟩ := h
    rw [childLinkedFrom, if_neg hc]
    split_ifs with hd
    · rw [decide_eq_true (hd ▸ mem_cons_self)]
    · rw [ih hl (Nat.lt_of_succ_lt_succ hfuel)]
      congr 1
      rw [decide_eq_decide, mem_cons, or_iff_right (Ne.symm hd)]

lemma kobjectChildUnlink_of_ne (hp : p ≠ 0) (hd : d ≠ 0) :
    s.kobjectChildUnlink fuel p d = childUnlinkFrom fuel s (.children p) d :=
  if_neg (not_or.mpr ⟨hp, hd⟩)

/-- The walk of `kobject_child_unlink` takes an object off the list it is on. -/
lemma childUnlinkFrom_of_mem {link : LinkAt} (h : Linked s.next 0 (s.readLink link) l)
    (hd : d ∈ l) (hfuel : l.length < fuel) (hlink : ∀ k, link = .next k → k ∉ l) :
    ∃ N C l', childUnlinkFrom fuel s link d = some { s with next := N, children := C } ∧
      d ∉ l' ∧ Linked N 0 (readLink { s with next := N, children := C } link) l' ∧
      (∀ j, j ∉ l → link ≠ .next j → N j = s.next j) ∧
      ∀ k, link ≠ .children k → C k = s.children k := by
  induction l generalizing link fuel with
  | nil => exact absurd hd not_mem_nil
  | cons c l ih =>
    obtain ⟨fuel, rfl⟩ := Nat.exists_eq_add_one.mpr (Nat.zero_lt_of_lt hfuel)
    have hnodup := h.nodup
    obtain ⟨hhead, hc, hl⟩ := h
    have hcl : c ∉ l := (nodup_cons.mp hnodup).1
    rw [childUnlinkFrom, hhead, if_neg hc]
    by_cases hcd : c = d
    · subst hcd
      rw [if_pos rfl]
      -- The pointer that led to the object now leads to the rest of the list.
      cases link with
      | children k =>
        refine ⟨update s.next c 0, update s.children k (s.next c), l, rfl, hcl, ?_, ?_, ?_⟩
        · show Linked _ 0 (update s.children k (s.next c) k) l
          rw [update_self]
          exact hl.congr fun j hj => update_of_ne (ne_of_mem_of_not_mem hj hcl) _ _
        · intro j hj _
          exact update_of_ne (ne_of_not_mem_cons hj) _ _
        · intro j hj
          have hjk : j ≠ k := fun h => hj (congrArg LinkAt.children h.symm)
          exact update_of_ne hjk _ _
      | next k =>
        have hk := hlink k rfl
        have hkc : k ≠ c := ne_of_not_mem_cons hk
        refine ⟨update (update s.next k (s.next c)) c 0, s.children, l, rfl, hcl, ?_, ?_,
          fun _ _ => rfl⟩
        · show Linked _ 0 (update (update s.next k (s.next c)) c 0 k) l
          rw [update_of_ne hkc, update_self]
          refine hl.congr fun j hj => ?_
          have hjk : j ≠ k := ne_of_mem_of_not_mem (mem_cons_of_mem c hj) hk
          rw [update_of_ne (ne_of_mem_of_not_mem hj hcl), update_of_ne hjk]
        · intro j hj hjlink
          have hjk : j ≠ k := fun h => hjlink (congrArg LinkAt.next h.symm)
          rw [update_of_ne (ne_of_not_mem_cons hj), update_of_ne hjk]
    · rw [if_neg hcd]
      have hdl : d ∈ l := (mem_cons.mp hd).resolve_left fun h => hcd h.symm
      have hnext : ∀ k, LinkAt.next c = .next k → k ∉ l := by
        rintro k hk
        cases hk
        exact hcl
      obtain ⟨N, C, l', heq, hdl', hlinked, hN, hC⟩ :=
        @ih _ (.next c) hl hdl (Nat.lt_of_succ_lt_succ hfuel) hnext
      refine ⟨N, C, c :: l', heq, ?_, ⟨?_, hc, hlinked⟩, fun j hj hjlink => ?_, fun k _ => ?_⟩
      · exact fun h => (mem_cons.mp h).elim (fun h => hcd h.symm) hdl'
      · -- The pointer that led here is not on the rest of the walk.
        cases link with
        | children k => exact (hC k (by simp)).trans hhead
        | next k =>
          have hk := hlink k rfl
          refine (hN k (fun h => hk (mem_cons_of_mem c h)) ?_).trans hhead
          exact fun h => hk (LinkAt.next.inj h ▸ mem_cons_self)
      · refine hN j (fun h => hj (mem_cons_of_mem c h)) ?_
        exact fun h => hj (LinkAt.next.inj h ▸ mem_cons_self)
      · exact hC k (by simp)

/-! ## The two halves of the call -/

/--
The device has been initialised and not been added: it has a reference and is on none
of the lists, except perhaps on that of its parent.
-/
structure Initialised (s : DeviceCore) (d : Nat) : Prop where
  ne_null : d ≠ 0
  kset_ne_null : s.devicesKset ≠ 0
  ne_kset : d ≠ s.devicesKset
  ne_parent : s.parent d ≠ d
  no_kset : s.kset d = 0
  count : 1 ≤ s.refcount d
  ksetCount : 1 ≤ s.refcount s.devicesKset
  off_kset : d ∉ s.ksetList
  off_bus : ∀ b, d ∉ s.busDevices b
  off_class : ∀ c, d ∉ s.classDevices c
  ends : ∀ k, ∃ l, s.ChildList k l
  child : ∀ k l, s.ChildList k l → d ∈ l → k = s.parent d

/-- The count of a device that is on the lists, held by the call and by its bus. -/
def heldCount (s : DeviceCore) (d : Nat) : Nat :=
  if (s.busKlist d).isSome then raise (raise (s.refcount d)) else raise (s.refcount d)

/-- A device is put on one of the lists of a kind. -/
def putOn (lists : Nat → List Nat) (which : Option Nat) (d : Nat) : Nat → List Nat :=
  which.elim lists fun b => update lists b (lists b ++ [d])

/-- The state before the request for the device node, with the children as they are then. -/
def linkedState (s : DeviceCore) (d : Nat) (C N : Nat → Nat) : DeviceCore :=
  { s with
    children := C
    next := N
    kset := update s.kset d s.devicesKset
    ksetList := s.ksetList ++ [d]
    knodeBus := update s.knodeBus d (s.busKlist d)
    busDevices := putOn s.busDevices (s.busKlist d) d
    classDevices := putOn s.classDevices (s.cls d) d
    refcount := update (update s.refcount s.devicesKset (raise (s.refcount s.devicesKset))) d
      (s.heldCount d) }

/-- The parent of the device while it is in the kset. -/
def defaultParent (s : DeviceCore) (d : Nat) : Nat :=
  if s.parent d ≠ 0 then s.parent d else s.devicesKset

section

variable (hq : s.kobjectParent d = q) (hne : q ≠ 0) (hl : s.ChildList q l) (hfuel : l.length < fuel)
include hq hne hl hfuel

lemma kobjectAdd_of_mem (hd : d ∈ l) : s.kobjectAdd fuel d = some s := by
  rw [kobjectAdd, hq, if_neg hne, childLinkedFrom_eq hl hfuel, decide_eq_true hd]
  rfl

lemma kobjectAdd_of_not_mem (hd : d ∉ l) : s.kobjectAdd fuel d = some (s.pushChild q d) := by
  rw [kobjectAdd, hq, if_neg hne, childLinkedFrom_eq hl hfuel, decide_eq_false hd]
  rfl

end

/-- The state in which the kset adds the object to the tree. -/
def enteredKset (s : DeviceCore) (d : Nat) : DeviceCore :=
  { s with
    kset := update s.kset d s.devicesKset
    ksetList := s.ksetList ++ [d]
    refcount := update (update s.refcount s.devicesKset (raise (s.refcount s.devicesKset))) d
      (raise (s.refcount d)) }

lemma Initialised.ksetAdd_eq (hi : s.Initialised d) :
    (s.kobjectGet d).ksetAdd fuel d = (s.enteredKset d).kobjectAdd fuel d := by
  have hkset : ¬ (s.kset d = s.devicesKset ∧ d ∈ s.ksetList) := fun h => hi.off_kset h.2
  rw [kobjectGet_eq]
  unfold ksetAdd
  rw [if_neg hkset]
  rw [kobjectGet_eq]
  dsimp only
  rw [update_of_ne hi.ne_kset.symm, update_comm hi.ne_kset]
  rfl

lemma Initialised.kobjectParent_enteredKset (hi : s.Initialised d) :
    (s.enteredKset d).kobjectParent d = s.defaultParent d := by
  have hkset : (s.enteredKset d).kset d = s.devicesKset := update_self _ _ _
  unfold defaultParent
  split_ifs with hp
  · exact kobjectParent_of_parent hp
  · have hp0 : (s.enteredKset d).parent d = 0 := not_not.mp hp
    have hpar := kobjectParent_of_kset hp0 (hkset ▸ hi.kset_ne_null) (hkset ▸ hi.ne_kset.symm)
    exact hpar.trans hkset

lemma Initialised.defaultParent_ne_null (hi : s.Initialised d) : s.defaultParent d ≠ 0 := by
  unfold defaultParent
  split_ifs with hp
  · exact hp
  · exact hi.kset_ne_null

lemma link_rest (C N : Nat → Nat) :
    ({ s.enteredKset d with
        children := C, next := N, knodeBus := update s.knodeBus d none }.busAdd d).classAdd d =
      s.linkedState d C N := by
  have hk : ({ s.enteredKset d with
      children := C, next := N, knodeBus := update s.knodeBus d none } : DeviceCore).busKlist d =
        s.busKlist d := rfl
  rw [busAdd, hk]
  unfold classAdd linkedState enteredKset heldCount putOn
  cases hb : s.busKlist d with
  | none =>
    cases hc : s.cls d with
    | none => rfl
    | some c => rfl
  | some b =>
    dsimp only
    rw [kobjectGet_eq]
    dsimp only
    rw [update_self, update_idem, update_idem]
    cases hc : s.cls d with
    | none => rfl
    | some c => rfl

section

variable (hi : s.Initialised d) (hl : s.ChildList (s.defaultParent d) l) (hfuel : l.length < fuel)
include hi hl hfuel

/-- The call puts the device on the lists, in front of the other children of its parent. -/
lemma Initialised.deviceLink_of_not_mem (hd : d ∉ l) :
    s.deviceLink fuel d = some (s.linkedState d (update s.children (s.defaultParent d) d)
      (update s.next d (s.children (s.defaultParent d)))) := by
  have hadd := kobjectAdd_of_not_mem hi.kobjectParent_enteredKset hi.defaultParent_ne_null hl hfuel
    hd
  rw [deviceLink, hi.ksetAdd_eq, hadd, ← link_rest]
  rfl

lemma Initialised.deviceLink_of_mem (hd : d ∈ l) :
    s.deviceLink fuel d = some (s.linkedState d s.children s.next) := by
  have hadd := kobjectAdd_of_mem hi.kobjectParent_enteredKset hi.defaultParent_ne_null hl hfuel hd
  rw [deviceLink, hi.ksetAdd_eq, hadd, ← link_rest]
  rfl

end

lemma erase_append_self (hd : d ∉ l) : (l ++ [d]).erase d = l := by
  rw [erase_append_right _ hd, erase_cons_head, append_nil]

lemma update_putOn_erase {lists : Nat → List Nat} {b : Nat} (hd : d ∉ lists b) :
    update (putOn lists (some b) d) b ((putOn lists (some b) d b).erase d) = lists := by
  show update (update lists b (lists b ++ [d])) b ((update lists b (lists b ++ [d]) b).erase d) = _
  rw [update_self, erase_append_self hd, update_idem, update_eq_self]

/-- The state in which `kobject_del` is called, with the children as they are then. -/
def leftState (s : DeviceCore) (d : Nat) (C N : Nat → Nat) : DeviceCore :=
  { s with
    children := C
    next := N
    knodeBus := update s.knodeBus d none
    refcount := update
      (update s.refcount s.devicesKset (raise (s.refcount s.devicesKset) - 1)) d
      (if (s.busKlist d).isSome then raise (raise (s.refcount d)) - 1 else raise (s.refcount d)) }

lemma Initialised.classDel_linkedState (hi : s.Initialised d) (C N : Nat → Nat) :
    (s.linkedState d C N).classDel d =
      { s.linkedState d C N with classDevices := s.classDevices } := by
  unfold classDel linkedState
  cases hc : s.cls d with
  | none => rfl
  | some c =>
    dsimp only
    rw [update_putOn_erase (hi.off_class c)]

lemma one_lt_heldCount (hi : s.Initialised d) : 1 < s.heldCount d := by
  unfold heldCount
  split_ifs
  · exact one_lt_raise (le_of_lt (one_lt_raise hi.count))
  · exact one_lt_raise hi.count

lemma Initialised.busDel_linkedState (hi : s.Initialised d) (C N : Nat → Nat) :
    ({ s.linkedState d C N with classDevices := s.classDevices } : DeviceCore).busDel d =
      { s.linkedState d C N with
        classDevices := s.classDevices
        busDevices := s.busDevices
        knodeBus := update s.knodeBus d none
        refcount := update
          (update s.refcount s.devicesKset (raise (s.refcount s.devicesKset))) d
          (if (s.busKlist d).isSome then raise (raise (s.refcount d)) - 1
            else raise (s.refcount d)) } := by
  have hcount := one_lt_heldCount hi
  unfold busDel
  unfold linkedState heldCount at *
  dsimp only
  rw [update_self]
  cases hb : s.busKlist d with
  | none => cases s.bus d <;> rfl
  | some b =>
    have hbus : s.bus d = some b := (filter_eq_some_iff.mp hb).1
    rw [hb, isSome_some, if_pos rfl] at hcount
    simp only [hbus]
    rw [kobjectPut_eq (by dsimp only; rwa [update_self, isSome_some, if_pos rfl]),
      update_putOn_erase (hi.off_bus b)]
    dsimp only
    rw [update_self, update_idem, update_idem]
    rfl

lemma ksetRemove_of_eq (hk : s.kset k = s.devicesKset) :
    s.ksetRemove k =
      { s with ksetList := s.ksetList.erase k, kset := update s.kset k 0 }.kobjectPut
        s.devicesKset :=
  if_neg (not_not.mpr hk)

lemma Initialised.ksetRemove_eq (hi : s.Initialised d) (C N : Nat → Nat) :
    (((s.linkedState d C N).classDel d).busDel d).ksetRemove d = s.leftState d C N := by
  have hone : 1 < update (update s.refcount s.devicesKset (raise (s.refcount s.devicesKset))) d
      (if (s.busKlist d).isSome then raise (raise (s.refcount d)) - 1 else raise (s.refcount d))
      s.devicesKset := by
    rw [update_of_ne hi.ne_kset.symm, update_self]
    exact one_lt_raise hi.ksetCount
  rw [hi.classDel_linkedState, hi.busDel_linkedState, ksetRemove_of_eq (update_self _ _ _),
    kobjectPut_eq hone]
  unfold linkedState leftState
  dsimp only
  rw [update_of_ne hi.ne_kset.symm, update_self, erase_append_self hi.off_kset, update_idem,
    update_comm hi.ne_kset, update_idem]
  congr 1
  rw [← hi.no_kset, update_eq_self]

/-- The count of a device after a failed call. -/
def finalCount (s : DeviceCore) (d : Nat) : Nat :=
  if (s.busKlist d).isSome then raise (raise (s.refcount d)) - 1 - 1 else raise (s.refcount d) - 1

/-- The state after a failed call, with the children as `kobject_child_unlink` leaves them. -/
def endState (s : DeviceCore) (d : Nat) (C N : Nat → Nat) : DeviceCore :=
  { s with
    children := C
    next := update N d 0
    parent := update s.parent d 0
    knodeBus := update s.knodeBus d none
    refcount := update
      (update s.refcount s.devicesKset (raise (s.refcount s.devicesKset) - 1)) d
      (s.finalCount d) }

lemma Initialised.kobjectParent_leftState (hi : s.Initialised d) (C N : Nat → Nat) :
    (s.leftState d C N).kobjectParent d = s.parent d := by
  by_cases hp : s.parent d = 0
  · rw [hp]
    exact kobjectParent_of_null hp hi.no_kset
  · exact kobjectParent_of_parent hp

lemma Initialised.deviceUnlink_eq (hi : s.Initialised d) {C' N' : Nat → Nat}
    (hunlink : (s.leftState d C N).kobjectChildUnlink fuel (s.parent d) d =
      some { s.leftState d C N with children := C', next := N' }) :
    (s.linkedState d C N).deviceUnlink fuel d = some (s.endState d C' N') := by
  have hone : 1 < (if (s.busKlist d).isSome then raise (raise (s.refcount d)) - 1
      else raise (s.refcount d)) := by
    have hc := one_lt_raise hi.count
    have hcc : raise (s.refcount d) < raise (raise (s.refcount d)) ∨
        krefMax ≤ raise (raise (s.refcount d)) := by
      unfold raise
      split_ifs <;> omega
    unfold krefMax at hcc
    split_ifs <;> omega
  unfold deviceUnlink
  rw [hi.ksetRemove_eq, kobjectDel, hi.kobjectParent_leftState, hunlink, map_some, map_some]
  rw [kobjectPut_eq (by dsimp only [leftState]; rwa [update_self])]
  unfold leftState endState finalCount
  dsimp only
  rw [update_self, update_idem, apply_ite (· - 1)]

/-! ## What is left -/

/-- Nothing that other code can see of the device has changed. -/
structure NoTrace (s s' : DeviceCore) (d : Nat) : Prop where
  children : ∀ k l, s'.ChildList k l ↔ s.ChildList k l
  ksetList : s'.ksetList = s.ksetList
  busDevices : s'.busDevices = s.busDevices
  classDevices : s'.classDevices = s.classDevices
  refcount : ∀ k, k = d ∨ k = s.parent d ∨ k = s.devicesKset → s'.refcount k = s.refcount k

/-- The counts can take the references of the call. -/
def CountsFit (s : DeviceCore) (d : Nat) : Prop :=
  s.refcount d + (s.busKlist d).isSome.toNat < krefMax ∧ s.refcount s.devicesKset < krefMax

lemma Initialised.finalCount_eq_iff (hi : s.Initialised d) :
    s.finalCount d = s.refcount d ↔ s.refcount d + (s.busKlist d).isSome.toNat < krefMax := by
  unfold finalCount
  cases (s.busKlist d).isSome with
  | false => exact raise_sub_one_eq_iff hi.count
  | true => exact raise_raise_sub_two_eq_iff hi.count

lemma Initialised.noTrace_endState_iff (hi : s.Initialised d) :
    NoTrace s (s.endState d C N) d ↔
      (∀ k l, (s.endState d C N).ChildList k l ↔ s.ChildList k l) ∧ s.CountsFit d := by
  have hd : (s.endState d C N).refcount d = s.finalCount d := update_self _ _ _
  have hk : (s.endState d C N).refcount s.devicesKset = raise (s.refcount s.devicesKset) - 1 := by
    show update (update s.refcount _ _) d _ s.devicesKset = _
    rw [update_of_ne hi.ne_kset.symm, update_self]
  constructor
  · intro h
    refine ⟨h.children, hi.finalCount_eq_iff.mp ?_, (raise_sub_one_eq_iff hi.ksetCount).mp ?_⟩
    · exact hd.symm.trans (h.refcount d (.inl rfl))
    · exact hk.symm.trans (h.refcount _ (.inr (.inr rfl)))
  · rintro ⟨hchildren, hfit, hksetFit⟩
    have hd' := hd.trans (hi.finalCount_eq_iff.mpr hfit)
    have hk' := hk.trans ((raise_sub_one_eq_iff hi.ksetCount).mpr hksetFit)
    refine ⟨hchildren, rfl, rfl, rfl, fun k hcase => ?_⟩
    by_cases hkd : k = d
    · rw [hkd]
      exact hd'
    by_cases hkk : k = s.devicesKset
    · rw [hkk]
      exact hk'
    · show update (update s.refcount _ _) d _ k = _
      rw [update_of_ne hkd, update_of_ne hkk]

lemma childList_iff {s' : DeviceCore} (hends : ∀ k, ∃ l, s.ChildList k l)
    (hkeep : ∀ k l, s.ChildList k l → s'.ChildList k l) (k : Nat) (l : List Nat) :
    s'.ChildList k l ↔ s.ChildList k l := by
  refine ⟨fun h => ?_, hkeep k l⟩
  obtain ⟨l0, hl0⟩ := hends k
  rw [Linked.unique h (hkeep k l0 hl0)]
  exact hl0

/-- A device without a parent stays the only child of the kset. -/
lemma Initialised.trace_of_no_parent (hi : s.Initialised d) (hp : s.parent d = 0) :
    ¬ ∀ k l, (s.endState d (update s.children s.devicesKset d) N).ChildList k l ↔
      s.ChildList k l := by
  intro h
  have honly : (s.endState d (update s.children s.devicesKset d) N).ChildList s.devicesKset [d] := by
    refine ⟨update_self _ _ _, hi.ne_null, ?_⟩
    exact update_self _ _ _
  have hbefore := (h _ _).mp honly
  have hkset := hi.child _ _ hbefore mem_cons_self
  exact hi.kset_ne_null (hkset.trans hp)

lemma childUnlink_of_no_parent (hp : s.parent d = 0) :
    (s.leftState d C N).kobjectChildUnlink fuel (s.parent d) d =
      some { s.leftState d C N with children := C, next := N } := by
  rw [kobjectChildUnlink, if_pos (.inl hp)]
  rfl

lemma Initialised.childUnlink_pushed (hi : s.Initialised d) (hp : s.parent d ≠ 0) :
    (s.leftState d (update s.children (s.parent d) d)
        (update s.next d (s.children (s.parent d)))).kobjectChildUnlink (fuel + 1) (s.parent d) d =
      some { s.leftState d (update s.children (s.parent d) d)
          (update s.next d (s.children (s.parent d))) with
        children := s.children, next := update s.next d 0 } := by
  have hread : (s.leftState d (update s.children (s.parent d) d)
      (update s.next d (s.children (s.parent d)))).readLink (.children (s.parent d)) = d :=
    update_self _ _ _
  rw [kobjectChildUnlink_of_ne hp hi.ne_null, childUnlinkFrom, hread, if_neg hi.ne_null, if_pos rfl]
  unfold writeLink setNext leftState
  dsimp only
  rw [update_self, update_idem, update_idem, update_eq_self]

lemma Initialised.noTrace_children (hi : s.Initialised d)
    (hd : ∀ l, s.ChildList (s.parent d) l → d ∉ l) (k : Nat) (l : List Nat) :
    (s.endState d s.children (update s.next d 0)).ChildList k l ↔ s.ChildList k l := by
  refine childList_iff hi.ends (fun k l hl => ?_) k l
  have hdl : d ∉ l := by
    intro hmem
    have hk := hi.child k l hl hmem
    rw [hk] at hl
    exact hd l hl hmem
  show Linked (update (update s.next d 0) d 0) 0 (s.children k) l
  rw [update_idem]
  exact Linked.congr hl fun j hj => update_of_ne (ne_of_mem_of_not_mem hj hdl) _ _

/--
A failed `device_add` of an initialised device returns, and it leaves the lists and the
counts as they were exactly if the device has a parent whose child it is not yet, and the
counts can take the references of the call.
-/
theorem deviceAdd_noTrace_iff (s : DeviceCore) (d : Nat) (hi : s.Initialised d)
    (attach : DeviceCore → DeviceCore) (ret : Int) (hret : ret ≠ 0) :
    ∃ bound, ∀ fuel, bound < fuel → ∃ s', s.deviceAdd fuel attach d ret = some (ret, s') ∧
      (NoTrace s s' d ↔
        s.parent d ≠ 0 ∧ (∀ l, s.ChildList (s.parent d) l → d ∉ l) ∧ s.CountsFit d) := by
  obtain ⟨l, hl⟩ := hi.ends (s.defaultParent d)
  refine ⟨l.length, fun fuel hfuel => ?_⟩
  have hfail : ∀ s1 s2, s.deviceLink fuel d = some s1 → s1.deviceUnlink fuel d = some s2 →
      s.deviceAdd fuel attach d ret = some (ret, s2) := by
    intro s1 s2 h1 h2
    rw [deviceAdd, h1, bind_some, if_neg hret, h2, map_some]
  by_cases hp : s.parent d = 0
  · -- The kset is the parent by default, and is forgotten before the child is.
    have hkset : s.defaultParent d = s.devicesKset := if_neg (not_not.mpr hp)
    have hd : d ∉ l := fun hmem => hi.defaultParent_ne_null ((hi.child _ l hl hmem).trans hp)
    have hlink := hi.deviceLink_of_not_mem hl hfuel hd
    rw [hkset] at hlink
    refine ⟨_, hfail _ _ hlink (hi.deviceUnlink_eq (childUnlink_of_no_parent hp)), ?_⟩
    rw [hi.noTrace_endState_iff]
    exact iff_of_false (fun h => hi.trace_of_no_parent hp h.1) fun h => h.1 hp
  · have hdef : s.defaultParent d = s.parent d := if_pos hp
    rw [hdef] at hl
    obtain ⟨fuel, rfl⟩ := Nat.exists_eq_add_one.mpr (Nat.zero_lt_of_lt hfuel)
    by_cases hd : d ∈ l
    · have hlink := hi.deviceLink_of_mem (hdef ▸ hl) hfuel hd
      have hwalk : Linked (s.leftState d s.children s.next).next 0
          ((s.leftState d s.children s.next).readLink (.children (s.parent d))) l := hl
      obtain ⟨N, C, l', hunlink, hdl', hl', -, -⟩ :=
        childUnlinkFrom_of_mem hwalk hd hfuel fun k hk => by cases hk
      have hchild := (kobjectChildUnlink_of_ne hp hi.ne_null).trans hunlink
      refine ⟨_, hfail _ _ hlink (hi.deviceUnlink_eq hchild), ?_⟩
      rw [hi.noTrace_endState_iff]
      refine iff_of_false (fun h => ?_) fun h => h.2.1 l hl hd
      have hafter : (s.endState d C N).ChildList (s.parent d) l' :=
        Linked.congr hl' fun j hj => update_of_ne (ne_of_mem_of_not_mem hj hdl') _ _
      have hbefore := (h.1 _ _).mp hafter
      exact hdl' (Linked.unique hl hbefore ▸ hd)
    · have hlink := hi.deviceLink_of_not_mem (hdef ▸ hl) hfuel hd
      rw [hdef] at hlink
      refine ⟨_, hfail _ _ hlink (hi.deviceUnlink_eq (hi.childUnlink_pushed hp)), ?_⟩
      have hnot : ∀ l', s.ChildList (s.parent d) l' → d ∉ l' := fun l' hl' =>
        Linked.unique hl hl' ▸ hd
      rw [hi.noTrace_endState_iff]
      exact ⟨fun h => ⟨hp, hnot, h.2⟩, fun h => ⟨hi.noTrace_children h.2.1, h.2.2⟩⟩

/--
Object 1 is the kset of the devices, with device 3 as its child; device 2 is initialised,
with the given parent.
-/
def sampleCore (parent : Nat) : DeviceCore where
  parent := update (fun _ => 0) 2 parent
  children k := if k = 1 then 3 else 0
  next _ := 0
  kset _ := 0
  refcount _ := 1
  released _ := false
  devicesKset := 1
  ksetList := [3]
  bus _ := some 7
  busPrivate _ := true
  cls _ := none
  busDevices _ := [3]
  classDevices _ := []
  knodeBus _ := none

lemma sampleCore_initialised (hp : p ≠ 2) : (sampleCore p).Initialised 2 where
  ne_null := by decide
  kset_ne_null := Nat.one_ne_zero
  ne_kset := (by decide : 2 ≠ 1)
  ne_parent := hp
  no_kset := rfl
  count := le_refl 1
  ksetCount := le_refl 1
  off_kset := (by decide : 2 ∉ [3])
  off_bus _ := (by decide : 2 ∉ [3])
  off_class _ := not_mem_nil
  ends k := by
    by_cases hk : k = 1
    · exact ⟨[3], if_pos hk, by decide, rfl⟩
    · exact ⟨[], if_neg hk⟩
  child k l hl hmem := by
    by_cases hk : k = 1
    · have hthree : (sampleCore p).ChildList k [3] := ⟨if_pos hk, by decide, rfl⟩
      rw [Linked.unique hl hthree] at hmem
      exact absurd hmem (by decide)
    · have hnil : (sampleCore p).ChildList k [] := if_neg hk
      rw [Linked.unique hl hnil] at hmem
      exact absurd hmem not_mem_nil

theorem sampleCore_noTrace : ∃ bound, ∀ fuel, bound < fuel → ∃ s',
    (sampleCore 5).deviceAdd fuel id 2 (-1) = some (-1, s') ∧ NoTrace (sampleCore 5) s' 2 := by
  obtain ⟨bound, h⟩ := deviceAdd_noTrace_iff (sampleCore 5) 2 (sampleCore_initialised (by decide)) id
    (-1) (by decide)
  refine ⟨bound, fun fuel hfuel => ?_⟩
  obtain ⟨s', hadd, hiff⟩ := h fuel hfuel
  refine ⟨s', hadd, hiff.mpr ⟨by decide, fun l hl => ?_, by decide, by decide⟩⟩
  have hnil : (sampleCore 5).ChildList 5 [] := rfl
  have hl5 : (sampleCore 5).ChildList 5 l := hl
  rw [Linked.unique hl5 hnil]
  exact not_mem_nil

/-- Without a parent the device stays the only child of the kset, in front of nothing. -/
theorem sampleCore_trace : (sampleCore 0).Initialised 2 ∧
    ∃ s', (sampleCore 0).deviceAdd 4 id 2 (-1) = some (-1, s') ∧ ¬ NoTrace (sampleCore 0) s' 2 := by
  refine ⟨sampleCore_initialised (by decide), _, rfl, fun h => ?_⟩
  have hbefore : (sampleCore 0).ChildList 1 [3] := ⟨rfl, by decide, rfl⟩
  have hafter := ((h.children 1 [3]).mpr hbefore).1
  exact absurd hafter (by decide)

end DeviceCore
end LiteKernel.Drivers
