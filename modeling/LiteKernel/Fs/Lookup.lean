import LiteKernel.Fs.TreeView

/-!
# Lookups are pure

The walk of `link_path_walk` adds negative entries and nothing else. Where a path takes `..` from
a name that is not there, the first walk continues from the negative entry it has just made, and
the second fails at it.

Main results:

- Lemma `walkPath_sees`: other paths are found as the lookup in the tree that is seen finds them,
  and that tree stays as it is.
-/

namespace LiteKernel.Fs

open Function Option

namespace Vfs

variable {s : Vfs}
variable {curr d fuel root : Nat} {rootPos x y : Pos} {name : CString}

/-! ## One component -/

lemma walkComponent_of_findChild (hs : RamfsTree s) {c : Nat} (hdot : name ≠ dot)
    (hdotDot : name ≠ dotDot) (hc : s.findChild curr name = some c) :
    s.walkComponent curr name = (if (s.dentry c).inode = none then none else some c, s) := by
  have hmem := (hs.findChild_eq_some.mp hc).1
  have hchild := hs.child curr c hmem
  have hmount : (s.dentry c).mount = none := by
    cases hm : (s.dentry c).mount with
    | none => rfl
    | some m =>
      have hroot := hs.rootParent
      rw [← (hs.mounted c m hm).1, hchild.2.2.1] at hroot
      exact nomatch hroot
  unfold walkComponent
  rw [if_neg hdot, if_neg hdotDot, hs.dLookup_eq, hc]
  simp only [hmount, and_true, hs.negative c hchild.2.1]
  cases (s.dentry c).inode <;> rfl

lemma RamfsTree.at_fsRoot (hs : RamfsTree s) : s.At s.view.fsRoot s.fsRoot := by
  unfold fsRoot FileTree.fsRoot view
  simp only
  cases s.current with
  | none => exact hs.at_root
  | some t =>
    simp only [bind_some]
    cases hroot : (s.task t).root with
    | none => exact hs.at_root
    | some d =>
      obtain ⟨x, hx⟩ := hs.held t d (.inr hroot)
      rw [map_some, getD_some, getD_some, hs.posOf_eq hx.1]
      exact hx

lemma RamfsTree.at_fsPwd (hs : RamfsTree s) : s.At s.view.fsPwd s.fsPwd := by
  have hroot := hs.at_fsRoot
  unfold fsPwd FileTree.fsPwd
  show s.At ((s.current.bind s.view.pwd).getD s.view.fsRoot) _
  cases s.current with
  | none => exact hroot
  | some t =>
    show s.At (((s.task t).pwd.map s.posOf).getD s.view.fsRoot) ((s.task t).pwd.getD s.fsRoot)
    cases hpwd : (s.task t).pwd with
    | none => exact hroot
    | some d =>
      obtain ⟨x, hx⟩ := hs.held t d (.inl hpwd)
      rw [map_some, getD_some, getD_some, hs.posOf_eq hx.1]
      exact hx

lemma walkInv_probed (s : Vfs) : WalkInv (Probed s) Located where
  wf h := h.tree.toWf
  lt h hd := h.tree.located_lt hd
  child h hd hc := by
    obtain ⟨x, hx⟩ := hd
    obtain ⟨name, hn⟩ := ne_none_iff_exists'.mp (h.tree.child _ _ hc).2.2.2
    exact ⟨name :: x, (locate_cons_eq_some h.tree.toWf).mpr ⟨_, hx, hc, hn⟩⟩
  parent h hd := by
    obtain ⟨x, hx⟩ := hd
    exact (h.tree.parent_getD hx).located
  up h hd := by
    obtain ⟨x, hx⟩ := hd
    rw [h.tree.followDotDot_eq]
    exact (h.tree.parent_getD hx).located
  cross h hd := by
    rw [h.tree.crossMount_eq]
    exact hd
  start h := ⟨h.tree.at_fsRoot.located, h.tree.at_fsPwd.located⟩
  probe _ _ h hp hnode hfree := by
    obtain ⟨x, hx⟩ := hp
    have hprobed := h.tree.probed_newChild ⟨hx, hnode⟩ hfree
    exact ⟨h.trans hprobed, fun _ hd => hprobed.isLocated hd⟩

/-- From an entry that is seen a component leads where it leads in the tree that is seen. -/
lemma walkComponent_sees (hs : RamfsTree s) (hx : s.At x curr)
    (hy : s.view.component x name = some y) :
    ∃ next, s.walkComponent curr name = (some next, s) ∧ s.At y next := by
  unfold FileTree.component at hy
  by_cases hdot : name = dot
  · rw [if_pos hdot, some_inj] at hy
    rw [walkComponent, if_pos hdot]
    exact ⟨curr, rfl, hy ▸ hx⟩
  · by_cases hdotDot : name = dotDot
    · rw [if_neg hdot, if_pos hdotDot, some_inj] at hy
      rw [walkComponent, if_neg hdot, if_pos hdotDot, hs.followDotDot_eq]
      exact ⟨_, rfl, hy ▸ hs.parent_getD hx.1⟩
    · rw [if_neg hdot, if_neg hdotDot] at hy
      by_cases hsome : (s.view.node (name :: x)).isSome
      · rw [if_pos hsome, some_inj] at hy
        subst hy
        obtain ⟨i, hi⟩ := isSome_iff_exists.mp hsome
        obtain ⟨c, hc, hnode⟩ := view_node_eq_some.mp hi
        have hnone : (s.dentry c).inode ≠ none := by
          rw [hnode]
          exact some_ne_none i
        have hfind : s.findChild curr name = some c := by
          rw [← locate_cons_of_eq_some hx.1, hc]
        rw [walkComponent_of_findChild hs hdot hdotDot hfind, if_neg hnone]
        exact ⟨c, rfl, hc, hnone⟩
      · rw [if_neg hsome] at hy
        cases hy

/-- Where the tree that is seen has nothing, the walk fails or is at a negative entry. -/
lemma walkComponent_misses (hs : RamfsTree s) (hx : s.At x curr)
    (hy : s.view.component x name = none) (next : Nat)
    (hnext : (s.walkComponent curr name).1 = some next) :
    ((s.walkComponent curr name).2.dentry next).inode = none := by
  unfold FileTree.component at hy
  by_cases hdot : name = dot
  · rw [if_pos hdot] at hy
    exact nomatch hy
  · by_cases hdotDot : name = dotDot
    · rw [if_neg hdot, if_pos hdotDot] at hy
      exact nomatch hy
    · rw [if_neg hdot, if_neg hdotDot] at hy
      by_cases hsome : (s.view.node (name :: x)).isSome
      · rw [if_pos hsome] at hy
        exact nomatch hy
      · cases hc : s.findChild curr name with
        | some c =>
          have hnode : s.view.node (name :: x) = (s.dentry c).inode := by
            apply view_node_of_locate
            rw [locate_cons_of_eq_some hx.1, hc]
          rw [not_isSome_iff_eq_none, hnode] at hsome
          rw [walkComponent_of_findChild hs hdot hdotDot hc, if_pos hsome] at hnext
          exact nomatch hnext
        | none =>
          have hlt := locate_lt hs.toWf hs.root_lt hx.1
          rw [walkComponent_of_not_findChild hs.toWf hlt hdot hdotDot hc, if_neg hx.2] at hnext ⊢
          rw [← some_inj.mp hnext, newChild_dentry_self]

/-! ## What the walk finds -/

lemma readLink_eq_view (h : s.At y d) : s.readLink d = s.view.readLink y := by
  rw [FileTree.readLink, h.node]
  rfl

/-- The path of an entry as a string is the path of its position. -/
lemma buildDentryPath_eq (hs : RamfsTree s) {cap : Nat} {out : CString}
    (hx : s.locate s.root x = some d) (hf : cap - out.length < fuel) :
    s.buildDentryPath cap fuel d out = FileTree.buildPath cap x out := by
  induction x generalizing d out fuel with
  | nil =>
    have hroot : s.root = d := some_inj.mp hx
    subst hroot
    cases fuel with
    | zero => omega
    | succ fuel => rw [buildDentryPath, hs.mountedOn_eq_none, hs.rootParent, FileTree.buildPath]
  | cons name x ih =>
    obtain ⟨e, he, hc, hn⟩ := (locate_cons_eq_some hs.toWf).mp hx
    have hchild := hs.child e d hc
    cases fuel with
    | zero => omega
    | succ fuel =>
      have hne : e ≠ d := ne_of_lt hchild.1
      rw [buildDentryPath, hs.mountedOn_eq_none, hchild.2.2.1, hn, FileTree.buildPath]
      simp only
      rw [if_neg hne]
      split_ifs with hfit
      · rfl
      · apply ih he
        have hlen : ('/' :: name ++ out).length = name.length + 1 + out.length := by
          simp [Nat.add_right_comm]
        rw [hlen]
        omega

/--
A pass of the walk from `s` ends as the pass over the tree that is
seen; a pass that finds all its names changes nothing at all.
-/
def Agrees (s : Vfs) : Pass → Walked × Vfs → Prop
  | .ended (.here y), r => ∃ d, r = (.arrived d, s) ∧ s.At y d
  | .ended .nowhere, (.arrived d, s') => (s'.dentry d).inode = none
  | .ended .nowhere, (.failed, _) => True
  | .ended .nowhere, (.restart _ _, _) => False
  | .ended .astray, _ => True
  | .restart path y, r => ∃ d, r = (.restart path d, s) ∧ s.At y d

lemma followLink_agrees (hs : RamfsTree s) (hroot : s.At rootPos root) (hcurr : s.At y curr)
    (cur p target : CString) :
    Agrees s (FileTree.followLink rootPos cur p y target)
      (s.followLink root cur p curr target, s) := by
  have hparent := hs.parent_getD hcurr.1
  have hbase : s.vfsBuildDentryPath ((s.dentry curr).parent.getD curr) 256 =
      FileTree.buildPath 256 y.tail [] :=
    buildDentryPath_eq hs hparent.1 (by decide)
  unfold FileTree.followLink followLink
  split
  · trivial
  · simp only [hbase]
    cases linkPath (if cur.head? = some '/' then basePath cur p
        else FileTree.buildPath 256 y.tail []) target (skipSlashes (afterPart p)) with
    | none => trivial
    | some path =>
      by_cases hhead : path.head? = some '/'
      · simp only [if_pos hhead]
        exact ⟨root, rfl, hroot⟩
      · simp only [if_neg hhead]
        exact ⟨_, rfl, hparent⟩

/-- From a negative entry a path that does not turn back leads nowhere. -/
lemma walkParts_negative {cur : CString} (hs : RamfsTree s) (hcurr : s.Located curr)
    (hnone : (s.dentry curr).inode = none) {p : CString} (hback : turnsBack fuel p = false) :
    walkParts root cur fuel s curr p = (.failed, s) ∨
      walkParts root cur fuel s curr p = (.arrived curr, s) := by
  induction fuel generalizing p with
  | zero => exact .inr rfl
  | succ fuel ih =>
    unfold walkParts
    by_cases hp : p = []
    · rw [if_pos hp]
      exact .inr rfl
    · rw [if_neg hp]
      split
      · exact .inl rfl
      · rw [turnsBack, if_neg hp] at hback
        split_ifs at hback with hdot
        · have hstep : s.walkComponent curr (part p) = (some curr, s) := by
            rw [walkComponent, if_pos hdot]
          have hlink : s.readLink curr = none := by rw [readLink, hnone, bind_none]
          rw [hstep]
          simp only [hs.crossMount_eq, hlink]
          exact ih hback
        · rw [decide_eq_false_iff_not] at hback
          have hfind : s.findChild curr (part p) = none := by
            rw [findChild, hs.leaf curr hnone, List.find?_nil]
          rw [walkComponent_of_not_findChild hs.toWf (hs.located_lt hcurr) hdot hback hfind,
            if_pos hnone]
          exact .inl rfl

lemma walkParts_agrees (cur : CString) (fuel : Nat) (hs : RamfsTree s) (hroot : s.At rootPos root)
    (hx : s.At x curr) (p : CString) :
    Agrees s (s.view.walkParts rootPos cur fuel x p) (walkParts root cur fuel s curr p) := by
  induction fuel generalizing curr x p with
  | zero => exact ⟨curr, rfl, hx⟩
  | succ fuel ih =>
    unfold walkParts FileTree.walkParts
    split
    · exact ⟨curr, rfl, hx⟩
    · split
      · trivial
      · cases hy : s.view.component x (part p) with
        | some y =>
          obtain ⟨next, hnext, hat⟩ := walkComponent_sees hs hx hy
          rw [hnext]
          simp only [hs.crossMount_eq, readLink_eq_view hat]
          cases s.view.readLink y with
          | some target => exact followLink_agrees hs hroot hat ..
          | none => exact ih hat (skipSlashes (afterPart p))
        | none =>
          cases hback : turnsBack fuel (skipSlashes (afterPart p)) with
          | true => trivial
          | false =>
            have hstep := (walkInv_probed s).walkComponent (Probed.refl hs) hx.located (part p)
            have hmiss := walkComponent_misses hs hx hy
            rcases hw : s.walkComponent curr (part p) with ⟨found, s'⟩
            rw [hw] at hstep hmiss
            cases found with
            | none => trivial
            | some next =>
              have hnone : (s'.dentry next).inode = none := hmiss next rfl
              have hlink : s'.readLink next = none := by rw [readLink, hnone, bind_none]
              simp only [hstep.1.tree.crossMount_eq, hlink]
              rcases walkParts_negative hstep.1.tree (hstep.2.2 next rfl) hnone hback with h | h
              · rw [h]
                trivial
              · rw [h]
                exact hnone

/-- A lookup gives what is seen, and changes nothing if it finds something. -/
def Sees (s : Vfs) : Found → Option Nat × Vfs → Prop
  | .here y, r => ∃ d, r = (some d, s) ∧ s.At y d
  | .nowhere, r => ∀ d, r.1 = some d → (r.2.dentry d).inode = none
  | .astray, _ => True

lemma walkFrom_sees (depth : Nat) (hs : RamfsTree s) (hroot : s.At rootPos root) {start : Nat}
    (hx : s.At x start) (cur : CString) :
    Sees s (s.view.walkFrom rootPos depth x cur) (walkFrom root depth s start cur) := by
  induction depth generalizing start x cur with
  | zero =>
    intro e he
    cases he
  | succ depth ih =>
    have hagree := walkParts_agrees cur cur.length hs hroot hx (skipSlashes cur)
    unfold walkFrom FileTree.walkFrom
    rcases ht : s.view.walkParts rootPos cur cur.length x (skipSlashes cur) with found | ⟨path, y⟩
    · rw [ht] at hagree
      cases found with
      | here y =>
        obtain ⟨d, hd, hat⟩ := hagree
        rw [hd]
        exact ⟨d, rfl, hat⟩
      | nowhere =>
        rcases hw : walkParts root cur cur.length s start (skipSlashes cur) with ⟨walked, s'⟩
        rw [hw] at hagree
        cases walked with
        | arrived d => exact fun e he => some_inj.mp he ▸ hagree
        | failed =>
          intro e he
          cases he
        | restart path d => exact hagree.elim
      | astray => trivial
    · rw [ht] at hagree
      obtain ⟨d, hd, hat⟩ := hagree
      rw [hd]
      exact ih hat path

/-! ## Lookups -/

lemma walkPath_probed (hs : RamfsTree s) (name : CString) : Probed s (s.walkPath name).2 :=
  ((walkInv_probed s).steps.walkPath (Probed.refl hs) name).1

/-- A lookup that does not turn back at a missing name finds what is seen. -/
lemma walkPath_sees (hs : RamfsTree s) (name : CString) :
    Sees s (s.view.lookup name) (s.walkPath name) := by
  have hinit : ∃ x, s.At x (s.pathInit name).1 ∧ s.view.lookup name =
      if (s.pathInit name).2 = [] then .here x
      else if 512 ≤ (s.pathInit name).2.length then .nowhere
      else s.view.walkFrom s.view.fsRoot 8 x (s.pathInit name).2 := by
    unfold pathInit FileTree.lookup
    split
    · exact ⟨s.view.fsRoot, hs.at_fsRoot, rfl⟩
    · exact ⟨s.view.fsPwd, hs.at_fsPwd, rfl⟩
  obtain ⟨x, hx, hlookup⟩ := hinit
  rw [hlookup]
  unfold walkPath
  split
  · exact ⟨_, rfl, hx⟩
  · unfold linkPathWalk
    split
    · exact nofun
    · exact walkFrom_sees 8 hs hs.at_fsRoot hx _

end Vfs
end LiteKernel.Fs
