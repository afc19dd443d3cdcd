import LiteKernel.Fs.FileRefs
import LiteKernel.Fs.LookupFrame
import LiteKernel.Fs.LookupPurity

/-!
# What is seen of a mounted file system

An entry has one pointer for mounts: at the mountpoint it leads to the root that covers
it, and at that root it leads back to the mountpoint. The walk crosses one mount at
each component and none at its start.

Main results:

- Theorem `mount_transparent`: a mount is seen as it should be if nothing is mounted on the
  directory, the directory is not the root of a mount, and the path is one of names that are there.
- Theorem `second_mount_hidden`: a second mount on a directory is not seen.
-/

namespace LiteKernel.Fs

open Function Lib List Option

namespace Vfs

variable {s s' : Vfs} {curr d r root t : Nat} {path w : CString}

/-! ## Walks that start alike -/

section

variable {s : Vfs}
variable {cur cur' : CString}

/--
A walk does not depend on the turns that are left if they are enough, nor on the path
as a whole if it is relative.
-/
lemma walkParts_congr {root : Nat} (hcur : cur.head? ≠ some '/') (hcur' : cur'.head? ≠ some '/')
    {fuel fuel' : Nat} {curr : Nat} {p : CString} (hf : p.length ≤ fuel) (hf' : p.length ≤ fuel') :
    walkParts root cur fuel s curr p = walkParts root cur' fuel' s curr p := by
  induction fuel generalizing s curr p fuel' with
  | zero =>
    obtain rfl : p = [] := length_eq_zero_iff.mp (Nat.le_zero.mp hf)
    cases fuel' with
    | zero => rfl
    | succ fuel' => simp only [walkParts, if_true]
  | succ fuel ih =>
    by_cases hp : p = []
    · subst hp
      cases fuel' with
      | zero => simp only [walkParts, if_true]
      | succ fuel' => simp only [walkParts, if_true]
    · have hlt := length_rest_lt hp
      cases fuel' with
      | zero => exact absurd (length_eq_zero_iff.mp (Nat.le_zero.mp hf')) hp
      | succ fuel' =>
        simp only [walkParts, if_neg hp]
        split
        · rfl
        · rcases s.walkComponent curr (part p) with ⟨found, s'⟩
          cases found with
          | none => rfl
          | some next =>
            simp only
            cases s'.readLink (s'.crossMount next) with
            | none => exact ih (by omega) (by omega)
            | some target => simp only [followLink, if_neg hcur, if_neg hcur']

lemma walkFrom_congr {root start start' : Nat} (depth : Nat)
    (h : walkParts root cur cur.length s start (skipSlashes cur) =
      walkParts root cur' cur'.length s start' (skipSlashes cur')) :
    walkFrom root (depth + 1) s start cur = walkFrom root (depth + 1) s start' cur' := by
  simp only [walkFrom, h]

end

/-! ## Where a path leads -/

/-- One component of a walk that makes no entry. -/
def stepTo (s : Vfs) (curr : Nat) (part : CString) : Option Nat :=
  if part = dot then some curr
  else if part = dotDot then some (s.followDotDot curr)
  else
    (s.dLookup curr part).filter fun next =>
      !(decide ((s.dentry next).negative = true ∧ (s.dentry next).mount = none))

lemma walkComponent_of_stepTo {next : Nat} {part : CString} (h : s.stepTo curr part = some next) :
    s.walkComponent curr part = (some next, s) := by
  unfold stepTo at h
  unfold walkComponent
  by_cases hdot : part = dot
  · rw [if_pos hdot] at h ⊢
    rw [h]
  · rw [if_neg hdot] at h ⊢
    split_ifs at h ⊢ with hdotDot
    · rw [h]
    · obtain ⟨hl, hneg⟩ := filter_eq_some_iff.mp h
      rw [hl]
      refine if_neg fun hboth => ?_
      simp [hboth.1, hboth.2] at hneg

/--
From the first entry the path leads to `d` through names that are there. It meets
no symbolic link and not the entry `r`, and leaves `d` at no step.
-/
inductive Leads (s : Vfs) (d r : Nat) : Nat → CString → Prop
  | here : Leads s d r d []
  | step {curr next : Nat} {p : CString} (hp : p ≠ []) (hlen : (part p).length < 128)
      (hr : curr ≠ r) (hd : curr = d → part p = dot) (hstep : s.stepTo curr (part p) = some next)
      (hnext : next ≠ r) (hlink : s.readLink (s.crossMount next) = none)
      (hrest : Leads s d r (s.crossMount next) (skipSlashes (afterPart p))) : Leads s d r curr p

/-- In the second state the same steps are taken, with `t` in the place of `d`. -/
structure Follows (s s' : Vfs) (d r t : Nat) : Prop where
  step : ∀ {curr curr' next : Nat} {part : CString}, curr ≠ r → (curr = d → part = dot) →
    (if curr = d then curr' = d ∨ curr' = t else curr' = curr) →
    s.stepTo curr part = some next → next ≠ r →
    ∃ next', s'.stepTo curr' part = some next' ∧
      s'.crossMount next' = if s.crossMount next = d then t else s.crossMount next
  link : ∀ e, s.readLink e = none → s'.readLink (if e = d then t else e) = none

lemma Leads.walkParts (hf : Follows s s' d r t) {p : CString} (h : s.Leads d r curr p)
    (hp : p ≠ []) {cur : CString} (hcur : cur.head? ≠ some '/') (hw : Behind w) {curr' : Nat}
    (hcurr : if curr = d then curr' = d ∨ curr' = t else curr' = curr) {fuel : Nat}
    (hfuel : (p ++ w).length ≤ fuel) :
    walkParts root cur fuel s' curr' (p ++ w) =
      walkParts root cur fuel s' t (skipSlashes w) := by
  induction h generalizing curr' fuel with
  | here => exact absurd rfl hp
  | @step curr next p hne hlen hr hd hstep hnext hlink hrest ih =>
    have hne' : p ++ w ≠ [] := append_ne_nil_of_left_ne_nil hne w
    obtain ⟨next', hstep', hcross⟩ := hf.step hr hd hcurr hstep hnext
    have hlink' : s'.readLink (s'.crossMount next') = none := by
      rw [hcross]
      exact hf.link _ hlink
    cases fuel with
    | zero => exact absurd (length_eq_zero_iff.mp (Nat.le_zero.mp hfuel)) hne'
    | succ fuel =>
      have hlt := length_rest_lt hne'
      have hrest' := @skipSlashes_append (afterPart p) w
      rw [← afterPart_append hw] at hrest'
      have hwalk : Vfs.walkParts root cur (fuel + 1) s' curr' (p ++ w) =
          Vfs.walkParts root cur fuel s' (s'.crossMount next')
            (skipSlashes (afterPart (p ++ w))) := by
        rw [Vfs.walkParts, if_neg hne', part_append hw, if_neg (Nat.not_le_of_lt hlen),
          walkComponent_of_stepTo hstep']
        simp only [hlink']
      rw [hwalk]
      split_ifs at hrest' with hnil
      · rw [hnil] at hrest
        have hend : s.crossMount next = d := by
          generalize s.crossMount next = e at hrest
          cases hrest with
          | here => rfl
          | step hne => exact absurd rfl hne
        rw [hrest', hcross, if_pos hend]
        rw [hrest'] at hlt
        exact walkParts_congr hcur hcur (by omega) (by omega)
      · rw [hrest'] at hlt ⊢
        have hcurr' : if s.crossMount next = d then s'.crossMount next' = d ∨ s'.crossMount next' = t
            else s'.crossMount next' = s.crossMount next := by
          rw [hcross]
          split
          · exact .inr rfl
          · rfl
        rw [ih hnil hcurr' (by omega)]
        have hle : (skipSlashes w).length ≤ fuel := by
          rw [length_append] at hlt
          have := length_skipSlashes_le w
          omega
        exact walkParts_congr hcur hcur hle (Nat.le_succ_of_le hle)

/-- The path leads to `d` from where its lookup starts, in at least one step. -/
structure Names (s : Vfs) (path : CString) (d r : Nat) : Prop where
  ne_nil : path ≠ []
  walk_ne_nil : (s.pathInit path).2 ≠ []
  length_lt : path.length < 512
  leads : s.Leads d r (s.pathInit path).1 (s.pathInit path).2

lemma pathInit_head (s : Vfs) (path : CString) : (s.pathInit path).2.head? ≠ some '/' := by
  unfold pathInit
  split_ifs with hhead
  · exact skipSlashes_head path
  · exact hhead

lemma length_pathInit_le (s : Vfs) (path : CString) :
    (s.pathInit path).2.length ≤ path.length := by
  unfold pathInit
  split
  · exact length_skipSlashes_le path
  · exact le_refl _

lemma pathInit_append (hpath : path ≠ []) (hwalk : (s.pathInit path).2 ≠ []) (w : CString) :
    s.pathInit (path ++ w) = ((s.pathInit path).1, (s.pathInit path).2 ++ w) := by
  have hhead : (path ++ w).head? = path.head? := by
    cases path with
    | nil => exact absurd rfl hpath
    | cons c path => rfl
  unfold pathInit at hwalk ⊢
  rw [hhead]
  by_cases hslash : path.head? = some '/'
  · rw [if_pos hslash] at hwalk ⊢
    rw [if_pos hslash, skipSlashes_append, if_neg hwalk]
  · rw [if_neg hslash, if_neg hslash]

/-- A lookup behind a path goes on where the path leads. -/
lemma Names.kernPath (h : s.Names path d r) (hf : Follows s s' d r t)
    (hroot : s'.fsRoot = s.fsRoot) (hpwd : s'.fsPwd = s.fsPwd) (hw : Behind w)
    (hlen : (path ++ w).length < 512) :
    s'.kernPath (path ++ w) false = s'.linkPathWalk s'.fsRoot t (skipSlashes w) := by
  have hinit : s'.pathInit path = s.pathInit path := by
    unfold pathInit
    rw [hroot, hpwd]
  have hinit' : s'.pathInit (path ++ w) = ((s.pathInit path).1, (s.pathInit path).2 ++ w) := by
    rw [pathInit_append h.ne_nil (by rw [hinit]; exact h.walk_ne_nil), hinit]
  have hwalk : (s.pathInit path).2 ++ w ≠ [] :=
    append_ne_nil_of_left_ne_nil h.walk_ne_nil w
  have hlen' : ((s.pathInit path).2 ++ w).length < 512 := by
    have hle := length_pathInit_le s path
    rw [length_append] at hlen ⊢
    omega
  have hskip : (skipSlashes w).length < 512 := by
    have hle := length_skipSlashes_le w
    rw [length_append] at hlen
    omega
  have hhead : ((s.pathInit path).2 ++ w).head? ≠ some '/' := by
    have hhead := pathInit_head s path
    rcases hp : (s.pathInit path).2 with _ | ⟨c, p⟩
    · exact absurd hp h.walk_ne_nil
    · rw [hp] at hhead
      exact hhead
  have hparts : walkParts s'.fsRoot ((s.pathInit path).2 ++ w) ((s.pathInit path).2 ++ w).length s'
        (s.pathInit path).1 (skipSlashes ((s.pathInit path).2 ++ w)) =
      walkParts s'.fsRoot (skipSlashes w) (skipSlashes w).length s' t
        (skipSlashes (skipSlashes w)) := by
    rw [skipSlashes_eq_self hhead, skipSlashes_eq_self (skipSlashes_head w),
      h.leads.walkParts hf h.walk_ne_nil hhead hw ?_ (le_refl _)]
    · refine walkParts_congr hhead (skipSlashes_head w) ?_ (le_refl _)
      have hle := length_skipSlashes_le w
      rw [length_append]
      omega
    · split
      · exact .inl ‹_›
      · rfl
  have hpath : path ++ w ≠ [] := append_ne_nil_of_left_ne_nil h.ne_nil w
  rw [Vfs.kernPath, if_neg hpath, pathLookupat_eq]
  have heq : s'.walkPath (path ++ w) = s'.linkPathWalk s'.fsRoot t (skipSlashes w) := by
    unfold walkPath
    rw [hinit', if_neg hwalk]
    unfold linkPathWalk
    rw [if_neg (Nat.not_le_of_lt hlen'), if_neg (Nat.not_le_of_lt hskip)]
    exact walkFrom_congr 7 hparts
  rw [heq]
  simp

/-! ## The walk after a mount -/

section

variable {s : Vfs} {d r : Nat}
variable {e : Nat}

lemma addMount_of_ne (hd : e ≠ d) (hr : e ≠ r) : (s.addMount r d).dentry e = s.dentry e := by
  simp only [addMount, setDentry, update_of_ne hr, update_of_ne hd]

lemma addMount_mount_mountpoint :
    ((s.addMount r d).dentry d).mount = some s.mountCount := by
  simp only [addMount, setDentry]
  by_cases hdr : d = r
  · subst hdr
    rw [update_self]
  · rw [update_of_ne hdr, update_self]

lemma addMount_mount_root : ((s.addMount r d).dentry r).mount = some s.mountCount := by
  simp only [addMount, setDentry, update_self]

lemma addMount_mount_new : (s.addMount r d).mount s.mountCount = ⟨r, some d⟩ :=
  update_self ..

lemma addMount_mount_of_ne {m : Nat} (hm : m ≠ s.mountCount) :
    (s.addMount r d).mount m = s.mount m :=
  update_of_ne hm ..

/-- Every mount that an entry points to has been allocated. -/
def MountsAllocated (s : Vfs) : Prop :=
  ∀ e m, (s.dentry e).mount = some m → m < s.mountCount

lemma crossMount_addMount (hs : s.MountsAllocated) (hd : e ≠ d) (hr : e ≠ r) :
    (s.addMount r d).crossMount e = s.crossMount e := by
  unfold crossMount
  rw [addMount_of_ne hd hr]
  cases hm : (s.dentry e).mount with
  | none => rfl
  | some m => simp only [addMount_mount_of_ne (ne_of_lt (hs e m hm))]

lemma crossMount_addMount_mountpoint : (s.addMount r d).crossMount d = r := by
  unfold crossMount
  rw [addMount_mount_mountpoint]
  simp only [addMount_mount_new]

lemma crossMount_addMount_root : (s.addMount r d).crossMount r = r := by
  unfold crossMount
  rw [addMount_mount_root]
  simp only [addMount_mount_new]

lemma mountedOn_addMount (hs : s.MountsAllocated) (hd : e ≠ d) (hr : e ≠ r) :
    (s.addMount r d).mountedOn e = s.mountedOn e := by
  unfold mountedOn
  rw [addMount_of_ne hd hr]
  cases hm : (s.dentry e).mount with
  | none => rfl
  | some m => simp only [bind_some, addMount_mount_of_ne (ne_of_lt (hs e m hm))]

lemma addMount_dentry (s : Vfs) (root mountpoint e : Nat) :
    ∃ m, (s.addMount root mountpoint).dentry e = { s.dentry e with mount := m } ∧
      (m = some s.mountCount ∨ (m = (s.dentry e).mount ∧ e ≠ root)) := by
  unfold addMount setDentry
  by_cases her : e = root
  · refine ⟨some s.mountCount, ?_, Or.inl rfl⟩
    by_cases hem : e = mountpoint
    · simp [← her, ← hem]
    · simp [← her, hem]
  · by_cases hem : e = mountpoint
    · refine ⟨some s.mountCount, ?_, Or.inl rfl⟩
      subst hem
      simp [her]
    · refine ⟨(s.dentry e).mount, ?_, Or.inr ⟨rfl, her⟩⟩
      simp [her, hem]

lemma sameTree_addMount (s : Vfs) (root mountpoint : Nat) :
    SameTree s (s.addMount root mountpoint) where
  dentry d := by
    obtain ⟨m, hm, -⟩ := addMount_dentry s root mountpoint d
    exact ⟨(s.dentry d).refcount, m, hm⟩
  dentryCount := rfl
  root := rfl
  answers := rfl
  inodeCount := le_refl _

lemma addMount_parent (e : Nat) : ((s.addMount r d).dentry e).parent = (s.dentry e).parent :=
  (sameTree_addMount s r d).parent e

lemma followDotDot_addMount (hs : s.MountsAllocated) (hd : e ≠ d) (hr : e ≠ r) :
    (s.addMount r d).followDotDot e = s.followDotDot e := by
  unfold followDotDot
  rw [mountedOn_addMount hs hd hr]
  simp only [addMount_parent]

lemma followDotDot_addMount_root :
    (s.addMount r d).followDotDot r = (s.dentry d).parent.getD d := by
  have hmounted : (s.addMount r d).mountedOn r = some d := by
    unfold mountedOn
    rw [addMount_mount_root, bind_some, addMount_mount_new, if_pos rfl]
  unfold followDotDot
  simp only [hmounted, addMount_parent]

lemma dLookup_addMount (e : Nat) (name : CString) :
    (s.addMount r d).dLookup e name = s.dLookup e name := by
  have hnamed : ∀ c, (s.addMount r d).Named name c ↔ s.Named name c := by
    intro c
    obtain ⟨m, hm, -⟩ := addMount_dentry s r d c
    unfold Named
    rw [hm]
  obtain ⟨m, hm, -⟩ := addMount_dentry s r d e
  unfold dLookup
  rw [hm]
  simp only [hnamed]

lemma readLink_addMount (e : Nat) : (s.addMount r d).readLink e = s.readLink e := by
  obtain ⟨m, hm, -⟩ := addMount_dentry s r d e
  unfold readLink
  rw [hm]
  rfl

lemma follows_refl (s : Vfs) (d r : Nat) : Follows s s d r d where
  step {curr curr' next part} _ _ hcurr hstep _ := by
    have hcurr' : curr' = curr := by
      split at hcurr
      · rename_i hd
        exact hcurr.elim (fun h => h.trans hd.symm) fun h => h.trans hd.symm
      · exact hcurr
    refine ⟨next, hcurr' ▸ hstep, ?_⟩
    split
    · assumption
    · rfl
  link e he := by
    split
    · rename_i hd
      exact hd ▸ he
    · exact he

lemma stepTo_addMount (hs : s.MountsAllocated) (hfree : (s.dentry d).mount = none) {curr next : Nat}
    {part : CString} (hd : curr ≠ d) (hr : curr ≠ r) (h : s.stepTo curr part = some next)
    (hnext : next ≠ r) : (s.addMount r d).stepTo curr part = some next := by
  unfold stepTo at h ⊢
  by_cases hdot : part = dot
  · rw [if_pos hdot] at h ⊢
    exact h
  · rw [if_neg hdot] at h ⊢
    split_ifs at h ⊢ with hdotDot
    · rwa [followDotDot_addMount hs hd hr]
    · obtain ⟨hl, hkeep⟩ := filter_eq_some_iff.mp h
      rw [dLookup_addMount]
      refine filter_eq_some_iff.mpr ⟨hl, ?_⟩
      by_cases hnd : next = d
      · subst hnd
        rw [addMount_mount_mountpoint]
        simp
      · rwa [addMount_of_ne hnd hnext]

/-- After the mount a walk is at the root where it was at the mountpoint. -/
lemma follows_addMount (hs : s.MountsAllocated) (hfree : (s.dentry d).mount = none)
    (hroot : ∀ m < s.mountCount, (s.mount m).root ≠ d) (hlink : s.readLink r = none) :
    Follows s (s.addMount r d) d r r where
  step {curr curr' next part} hr hdot hcurr hstep hnext := by
    have hcross : s.crossMount d = d := by
      unfold crossMount
      rw [hfree]
    by_cases hd : curr = d
    · subst hd
      rw [if_pos rfl] at hcurr
      rw [hdot rfl, stepTo, if_pos rfl, some_inj] at hstep
      subst hstep
      refine ⟨curr', by rw [hdot rfl, stepTo, if_pos rfl], ?_⟩
      rw [hcross, if_pos rfl]
      rcases hcurr with rfl | rfl
      · exact crossMount_addMount_mountpoint
      · exact crossMount_addMount_root
    · rw [if_neg hd] at hcurr
      subst hcurr
      refine ⟨next, stepTo_addMount hs hfree hd hr hstep hnext, ?_⟩
      by_cases hnd : next = d
      · subst hnd
        rw [hcross, if_pos rfl]
        exact crossMount_addMount_mountpoint
      · rw [crossMount_addMount hs hnd hnext, if_neg]
        -- The mountpoint is not the root of an older mount.
        unfold crossMount
        cases hm : (s.dentry next).mount with
        | none => exact hnd
        | some m => exact hroot m (hs next m hm)
  link e he := by
    rw [readLink_addMount]
    split
    · exact hlink
    · exact he

end

/-! ## Mounts -/

/-- The state in which `vfs_mount` finds the mountpoint: the directory was made if it was missing. -/
def prepared (s : Vfs) (path : CString) : Vfs :=
  match s.kernPath path true with
  | (some _, _) => s
  | (none, s) => (s.vfsMkdir path).2

/--
The path leads to a directory on which nothing is mounted and which is not the root of a
mount, and its parent is not a link. The root of the file system that is to be mounted
is another directory, which is not on the path.
-/
structure MountsAt (s : Vfs) (path : CString) (d r : Nat) : Prop where
  names : s.Names path d r
  isDir : s.IsDir d
  free : (s.dentry d).mount = none
  not_root : ∀ m < s.mountCount, (s.mount m).root ≠ d
  root_isDir : s.IsDir r
  parent : ∃ q, (s.dentry d).parent = some q ∧ q ≠ d ∧ q ≠ r ∧ s.readLink (s.crossMount q) = none

/--
A directory that exists is judged in the state before the call, and one that is missing as
`vfs_mkdir` leaves it. The names that lead there must still be found then: a parent that gets its
first hash table loses the children that it had before.
-/
def MountOk (s : Vfs) (path : CString) (r : Nat) : Prop :=
  ∃ d, (s.prepared path).MountsAt path d r

/-- What is looked up after the mount of the file system of `r` on a path. -/
structure Transparent (s s' : Vfs) (path : CString) (r : Nat) : Prop where
  root : s'.kernPath path false = (some r, s')
  /-- A lookup behind the path is a lookup from the root of the mounted file system. -/
  below : ∀ x, (path ++ '/' :: x).length < 512 →
    s'.kernPath (path ++ '/' :: x) false = s'.linkPathWalk s'.fsRoot r (skipSlashes x)
  /-- The parent is that of the path before the mount. -/
  up : (path ++ '/' :: dotDot).length < 512 →
    ∃ q, (s.kernPath (path ++ '/' :: dotDot) false).1 = some q ∧
      (s'.kernPath (path ++ '/' :: dotDot) false).1 = some q

lemma readLink_of_isDir (h : s.IsDir d) : s.readLink d = none := by
  obtain ⟨i, hi, htype⟩ := map_eq_some_iff.mp h
  unfold readLink
  rw [hi, bind_some, if_neg]
  rw [htype]
  exact nofun

lemma linkPathWalk_dotDot {start : Nat}
    (h : s.readLink (s.crossMount (s.followDotDot start)) = none) :
    s.linkPathWalk root start dotDot = (some (s.crossMount (s.followDotDot start)), s) := by
  have hstep : s.walkComponent start (part dotDot) = (some (s.followDotDot start), s) := rfl
  have hparts : walkParts root dotDot 2 s start dotDot =
      (.arrived (s.crossMount (s.followDotDot start)), s) := by
    rw [walkParts, if_neg (by decide), if_neg (by decide), hstep]
    simp only [h]
    rfl
  have hwalk : walkParts root dotDot dotDot.length s start (skipSlashes dotDot) =
      (.arrived (s.crossMount (s.followDotDot start)), s) := hparts
  unfold linkPathWalk
  rw [if_neg (by decide), walkFrom, hwalk]

lemma MountsAt.kernPath (h : s.MountsAt path d r) : s.kernPath path true = (some d, s) := by
  have hlook := h.names.kernPath (follows_refl s d r) rfl rfl (.inl rfl)
    (by rw [append_nil]; exact h.names.length_lt)
  rw [append_nil] at hlook
  have hlook' : s.kernPath path false = (some d, s) := hlook
  unfold Vfs.kernPath at hlook' ⊢
  rw [if_neg h.names.ne_nil, pathLookupat_eq] at hlook' ⊢
  obtain ⟨hfst, hsnd⟩ := Prod.mk.inj hlook'
  rw [hsnd] at hfst ⊢
  have hfound : (s.walkPath path).1 = some d := by
    obtain ⟨e, he, hed⟩ := bind_eq_some_iff.mp hfst
    rw [if_neg (fun hboth => nomatch hboth.1)] at hed
    exact he.trans hed
  rw [hfound, bind_some, if_neg (fun hboth => hboth.2 h.isDir)]

lemma vfsMount_of_ok (hmount : (s.vfsMount path r).1 = true)
    (h : (s.prepared path).MountsAt path d r) :
    ∃ answers, (s.vfsMount path r).2 =
      { (s.prepared path).addMount r d with answers := answers } := by
  have hpoint : s.mountpointOf path = (none, (s.mountpointOf path).2) ∨
      s.mountpointOf path = (some d, s.prepared path) := by
    unfold mountpointOf
    unfold prepared at h ⊢
    rcases hk : s.kernPath path true with ⟨found, s1⟩
    rw [hk] at h
    cases found with
    | some e =>
      have hlook := h.kernPath
      rw [hk] at hlook
      obtain ⟨hfst, hsnd⟩ := Prod.mk.inj hlook
      exact .inr (by rw [hfst, hsnd])
    | none =>
      simp only at h ⊢
      rcases hd : s1.vfsMkdir path with ⟨made, s2⟩
      rw [hd] at h
      cases made with
      | false => exact .inl rfl
      | true => exact .inr h.kernPath
  unfold vfsMount at hmount ⊢
  rcases hpoint with hpoint | hpoint
  · rw [hpoint] at hmount
    exact nomatch hmount
  · rw [hpoint] at hmount ⊢
    generalize s.prepared path = s2 at hmount ⊢
    simp only at hmount ⊢
    split at hmount
    · rename_i hok
      rw [if_pos hok]
      exact ⟨s2.kmalloc.2.kmalloc.2.answers, rfl⟩
    · exact nomatch hmount

lemma Follows.answers (h : Follows s s' d r t) (answers : Nat → Bool) :
    Follows s { s' with answers := answers } d r t :=
  ⟨fun hr hd hcurr hstep hnext => h.step hr hd hcurr hstep hnext, h.link⟩

lemma MountsAt.transparent (h : s.MountsAt path d r) (hs : s.MountsAllocated)
    (answers : Nat → Bool) : Transparent s { s.addMount r d with answers := answers } path r := by
  have hfollows := (follows_addMount hs h.free h.not_root
    (readLink_of_isDir h.root_isDir)).answers answers
  generalize hs' : { s.addMount r d with answers := answers } = s' at hfollows
  have hfsRoot : s'.fsRoot = s.fsRoot := by rw [← hs']; rfl
  have hfsPwd : s'.fsPwd = s.fsPwd := by rw [← hs']; rfl
  obtain ⟨q, hq, hqd, hqr, hlink⟩ := h.parent
  refine ⟨?_, fun x hlen => ?_, fun hlen => ⟨s.crossMount q, ?_, ?_⟩⟩
  · have hlook := h.names.kernPath hfollows hfsRoot hfsPwd (.inl rfl)
      (by rw [append_nil]; exact h.names.length_lt)
    rwa [append_nil] at hlook
  · exact h.names.kernPath hfollows hfsRoot hfsPwd (.inr ⟨x, rfl⟩) hlen
  · have hup : s.followDotDot d = q := by
      unfold followDotDot mountedOn
      rw [h.free, bind_none, hq]
      rfl
    have hlook := h.names.kernPath (follows_refl s d r) rfl rfl (.inr ⟨dotDot, rfl⟩) hlen
    have hend : s.linkPathWalk s.fsRoot d dotDot = (some (s.crossMount q), s) := by
      rw [linkPathWalk_dotDot (by rwa [hup]), hup]
    exact congrArg Prod.fst (hlook.trans hend)
  · have hup : s'.followDotDot r = q := by
      rw [← hs']
      exact followDotDot_addMount_root.trans (by rw [hq]; rfl)
    have hcross : s'.crossMount q = s.crossMount q := by
      rw [← hs']
      exact crossMount_addMount hs hqd hqr
    have hlink' : s'.readLink (s'.crossMount (s'.followDotDot r)) = none := by
      rw [hup, hcross, ← hs']
      exact (readLink_addMount _).trans hlink
    have hlook := h.names.kernPath hfollows hfsRoot hfsPwd (.inr ⟨dotDot, rfl⟩) hlen
    have hend : s'.linkPathWalk s'.fsRoot r dotDot = (some (s.crossMount q), s') := by
      rw [linkPathWalk_dotDot hlink', hup, hcross]
    exact congrArg Prod.fst (hlook.trans hend)

/-! ## Runs of mounts -/

/-- No call but `vfs_mount` lets an entry point to a mount. -/
structure SameMounts (s s' : Vfs) : Prop where
  mountCount : s'.mountCount = s.mountCount
  mount : ∀ e m, (s'.dentry e).mount = some m → (s.dentry e).mount = some m

lemma SameMounts.lookupFrame : LookupFrame SameMounts where
  refl _ := ⟨rfl, fun _ _ h => h⟩
  trans h h' := ⟨h'.mountCount.trans h.mountCount, fun e m he => h.mount e m (h'.mount e m he)⟩
  kmalloc _ := ⟨rfl, fun _ _ h => h⟩
  setDentry s d f hf := by
    refine ⟨rfl, fun e m he => ?_⟩
    change (update s.dentry d (f (s.dentry d)) e).mount = some m at he
    by_cases hed : e = d
    · subst hed
      rwa [update_self, hf] at he
    · rwa [update_of_ne hed] at he
  newDentry s new hnew := by
    refine ⟨rfl, fun e m he => ?_⟩
    change (update s.dentry s.dentryCount new e).mount = some m at he
    by_cases hed : e = s.dentryCount
    · subst hed
      rw [update_self, hnew] at he
      exact nomatch he
    · rwa [update_of_ne hed] at he
  inodes _ _ _ _ _ := ⟨rfl, fun _ _ h => h⟩

lemma SameMounts.allocated (h : SameMounts s s') (hs : s.MountsAllocated) :
    s'.MountsAllocated := by
  intro e m he
  rw [h.mountCount]
  exact hs e m (h.mount e m he)

lemma MountsAllocated.prepared (hs : s.MountsAllocated) (path : CString) :
    (s.prepared path).MountsAllocated := by
  have hlook := SameMounts.lookupFrame.kernPath s path true
  unfold Vfs.prepared
  rcases hk : s.kernPath path true with ⟨found, s'⟩
  rw [hk] at hlook
  cases found with
  | some e => exact hs
  | none => exact (SameMounts.lookupFrame.vfsMkdir s' path).allocated (hlook.allocated hs)

lemma MountsAllocated.addMount (hs : s.MountsAllocated) (r d : Nat) :
    (s.addMount r d).MountsAllocated := by
  intro e m he
  show m < s.mountCount + 1
  by_cases her : e = r
  · rw [her, addMount_mount_root, some_inj] at he
    omega
  · by_cases hed : e = d
    · rw [hed, addMount_mount_mountpoint, some_inj] at he
      omega
    · rw [addMount_of_ne hed her] at he
      exact Nat.lt_succ_of_lt (hs e m he)

/-- One call of `vfs_mount`. -/
def mountStep (s : Vfs) (op : CString × Nat) : Vfs :=
  (s.vfsMount op.1 op.2).2

lemma MountsAllocated.mountStep (hs : s.MountsAllocated) (op : CString × Nat) :
    (s.mountStep op).MountsAllocated := by
  have hpoint : (s.mountpointOf op.1).2.MountsAllocated := by
    have hlook := SameMounts.lookupFrame.kernPath s op.1 true
    unfold mountpointOf
    rcases hk : s.kernPath op.1 true with ⟨found, s1⟩
    rw [hk] at hlook
    have hs1 := hlook.allocated hs
    cases found with
    | some e => exact hs1
    | none =>
      have hmade := (SameMounts.lookupFrame.vfsMkdir s1 op.1).allocated hs1
      simp only
      rcases hd : s1.vfsMkdir op.1 with ⟨made, s2⟩
      rw [hd] at hmade
      cases made with
      | false => exact hmade
      | true => exact (SameMounts.lookupFrame.kernPath s2 op.1 true).allocated hmade
  unfold Vfs.mountStep vfsMount
  rcases hp : s.mountpointOf op.1 with ⟨found, s'⟩
  rw [hp] at hpoint
  cases found with
  | none => exact hpoint
  | some d =>
    simp only
    split
    · exact MountsAllocated.addMount (s := s'.kmalloc.2.kmalloc.2) hpoint op.2 d
    · exact hpoint

/--
After any run of mounts, a mount on a path that meets `MountOk` is transparent.
-/
theorem mount_transparent {s : Vfs} (hs : s.MountsAllocated) (ops : List (CString × Nat))
    {path : CString} {r : Nat} (hmount : ((run mountStep s ops).vfsMount path r).1 = true)
    (hok : (run mountStep s ops).MountOk path r) :
    Transparent ((run mountStep s ops).prepared path) ((run mountStep s ops).vfsMount path r).2
      path r := by
  have hs' : (run mountStep s ops).MountsAllocated :=
    List.foldlRecOn _ _ hs fun _ ht op _ => ht.mountStep op
  generalize run mountStep s ops = s' at *
  obtain ⟨d, hd⟩ := hok
  obtain ⟨answers, heq⟩ := vfsMount_of_ok hmount hd
  rw [heq]
  exact hd.transparent (hs'.prepared path) answers

/-! ## Mounts on a directory and on the root -/

/-- A directory `/a` and two file systems, with the roots 2 and 3, that are not mounted. -/
def unmounted : Vfs :=
  (bootTree.vfsMkdir ['/', 'a']).2.ramfsFillSuper.2.ramfsFillSuper.2

lemma unmounted_allocated : unmounted.MountsAllocated := by
  have hboot : bootTree.MountsAllocated := by
    intro e m he
    by_cases hzero : e = 0
    · subst hzero
      cases he
      exact Nat.zero_lt_one
    · rw [bootTree_dentry hzero] at he
      exact nomatch he
  have hsuper : ∀ s : Vfs, s.MountsAllocated → s.ramfsFillSuper.2.MountsAllocated := by
    intro s hs
    have hnode := SameMounts.lookupFrame.ramfsGetInode s .directory 0o755
    unfold ramfsFillSuper
    rcases hg : s.ramfsGetInode .directory 0o755 with ⟨found, s1⟩
    rw [hg] at hnode
    have hs1 := hnode.allocated hs
    cases found with
    | none => exact hs1
    | some i =>
      simp only
      have halloc := SameMounts.lookupFrame.dAlloc
        { s1 with inode := update s1.inode i { s1.inode i with ino := 1, uid := 0, gid := 0 } }
        none ['/']
      rcases hd : dAlloc { s1 with
        inode := update s1.inode i { s1.inode i with ino := 1, uid := 0, gid := 0 } }
        none ['/'] with ⟨root, s2⟩
      rw [hd] at halloc
      have hs2 : s2.MountsAllocated := halloc.allocated hs1
      cases root with
      | none => exact hs2
      | some d =>
        dsimp only
        refine (SameMounts.lookupFrame.setDentry s2 d _ ?_).allocated hs2
        exact fun _ => rfl
  exact hsuper _ (hsuper _ ((SameMounts.lookupFrame.vfsMkdir _ _).allocated hboot))

/-- After a mount on `/a`, the second file system is mounted on `/b`, which is made for it. -/
theorem mount_transparent_made :
    Transparent ((run mountStep unmounted [(['/', 'a'], 2)]).prepared ['/', 'b'])
      ((run mountStep unmounted [(['/', 'a'], 2)]).vfsMount ['/', 'b'] 3).2 ['/', 'b'] 3 := by
  refine mount_transparent unmounted_allocated [(['/', 'a'], 2)] (by decide +kernel) ⟨4, ?_⟩
  have hstart : ((run mountStep unmounted [(['/', 'a'], 2)]).prepared ['/', 'b']).pathInit
      ['/', 'b'] = (0, ['b']) := by decide +kernel
  have hcross : ((run mountStep unmounted [(['/', 'a'], 2)]).prepared ['/', 'b']).crossMount 4 = 4 := by
    decide +kernel
  refine ⟨⟨by decide, ?_, by decide, ?_⟩, by decide +kernel, by decide +kernel, by decide +kernel,
    by decide +kernel, 0, by decide +kernel, by decide, by decide, by decide +kernel⟩
  · rw [hstart]
    decide
  · rw [hstart]
    refine @Leads.step _ _ _ _ 4 _ (by decide) (by decide) (by decide) nofun (by decide +kernel)
      (by decide) (by decide +kernel) ?_
    rw [hcross]
    exact .here

/--
After a second mount on `/a` the first is still found there, and `/a/..` leads into the
second instead of to `/`. After a mount on `/` the old root is still found there.
-/
theorem second_mount_hidden :
    (((unmounted.mountStep (['/', 'a'], 2)).vfsMount ['/', 'a'] 3).1 = true ∧
      (((unmounted.mountStep (['/', 'a'], 2)).mountStep (['/', 'a'], 3)).kernPath
        ['/', 'a'] false).1 = some 2 ∧
      ((unmounted.mountStep (['/', 'a'], 2)).kernPath ['/', 'a', '/', '.', '.'] false).1 = some 0 ∧
      (((unmounted.mountStep (['/', 'a'], 2)).mountStep (['/', 'a'], 3)).kernPath
        ['/', 'a', '/', '.', '.'] false).1 = some 3) ∧
    (unmounted.vfsMount ['/'] 2).1 = true ∧
      ((unmounted.mountStep (['/'], 2)).kernPath ['/'] false).1 = some 0 := by
  decide +kernel

end Vfs
end LiteKernel.Fs
