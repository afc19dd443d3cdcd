import LiteKernel.Fs.Walk

/-!
# The cache shows a file tree

A ramfs tree in the cache is seen as a `FileTree`.

Main results:

- Definition `view`: a position has the inode of its entry, and a negative entry is not there.
-/

namespace LiteKernel.Fs

open Function Option

namespace Vfs

/-- The names on the way up from an entry. -/
def posUp (s : Vfs) : Nat → Nat → Pos
  | 0, _ => []
  | fuel + 1, d =>
    match (s.dentry d).parent, (s.dentry d).name with
    | some p, some name => name :: posUp s fuel p
    | _, _ => []

/-- The position of an entry; parents have smaller numbers than their children. -/
def posOf (s : Vfs) (d : Nat) : Pos :=
  s.posUp (d + 1) d

/-- What is seen of the cache. -/
def view (s : Vfs) : FileTree where
  node x := (s.locate s.root x).bind fun d => (s.dentry d).inode
  inode := s.inode
  inodeCount := s.inodeCount
  lastIno := s.lastIno
  pwd t := (s.task t).pwd.map s.posOf
  root t := (s.task t).root.map s.posOf
  cred t := (s.task t).cred
  current := s.current

/-- The entry is in the tree. -/
def Located (s : Vfs) (d : Nat) : Prop :=
  ∃ x, s.locate s.root x = some d

/-- The entry at the position has an inode. -/
def At (s : Vfs) (x : Pos) (d : Nat) : Prop :=
  s.locate s.root x = some d ∧ (s.dentry d).inode ≠ none

/-- The task works in the entry or has it as its root. -/
def Holds (s : Vfs) (t d : Nat) : Prop :=
  (s.task t).pwd = some d ∨ (s.task t).root = some d

/-- One ramfs tree, mounted as the root, in which every task works. -/
structure RamfsTree (s : Vfs) : Prop extends Wf s where
  rootParent : (s.dentry s.root).parent = none
  rootNode : (s.dentry s.root).inode ≠ none
  mounted : ∀ d m, (s.dentry d).mount = some m →
    d = s.root ∧ (s.mount m).root = s.root ∧ (s.mount m).mountpoint = none
  held : ∀ t d, s.Holds t d → ∃ x, s.At x d

section View

variable {s : Vfs}
variable {x : Pos} {d : Nat}

lemma posUp_eq (hs : Wf s) (hr : (s.dentry s.root).parent = none) {fuel : Nat}
    (hx : s.locate s.root x = some d) (hf : x.length < fuel) : s.posUp fuel d = x := by
  induction x generalizing d fuel with
  | nil =>
    rw [locate, some_inj] at hx
    subst hx
    cases fuel with
    | zero => rfl
    | succ fuel => rw [posUp, hr]
  | cons name x ih =>
    obtain ⟨e, he, hc, hn⟩ := (locate_cons_eq_some hs).mp hx
    rw [List.length_cons] at hf
    cases fuel with
    | zero => omega
    | succ fuel =>
      rw [posUp, (hs.child e d hc).2.2.1, hn]
      simp only
      rw [ih he (by omega)]

lemma RamfsTree.posOf_eq (hs : RamfsTree s) (hx : s.locate s.root x = some d) :
    s.posOf d = x := by
  have hle := locate_le hs.toWf hx
  exact posUp_eq hs.toWf hs.rootParent hx (by omega)

lemma At.node (h : s.At x d) : s.view.node x = (s.dentry d).inode := by
  show (s.locate s.root x).bind _ = _
  rw [h.1, bind_some]

lemma view_node_of_locate (h : s.locate s.root x = some d) :
    s.view.node x = (s.dentry d).inode := by
  show (s.locate s.root x).bind _ = _
  rw [h, bind_some]

lemma view_node_eq_some {i : Nat} :
    s.view.node x = some i ↔ ∃ d, s.locate s.root x = some d ∧ (s.dentry d).inode = some i :=
  bind_eq_some_iff

lemma At.located (h : s.At x d) : s.Located d :=
  ⟨x, h.1⟩

section

variable (hs : RamfsTree s)
include hs

lemma RamfsTree.located_lt (hd : s.Located d) : d < s.dentryCount := by
  obtain ⟨x, hx⟩ := hd
  exact locate_lt hs.toWf hs.root_lt hx

lemma RamfsTree.at_root : s.At [] s.root :=
  ⟨rfl, hs.rootNode⟩

/-- Only entries with an inode have children. -/
lemma RamfsTree.at_of_child {c : Nat} (hx : s.locate s.root x = some d)
    (hc : c ∈ (s.dentry d).children) : s.At x d := by
  refine ⟨hx, fun hnone => ?_⟩
  rw [hs.leaf d hnone] at hc
  exact nomatch hc

lemma RamfsTree.parent_getD (hx : s.locate s.root x = some d) :
    s.At x.tail ((s.dentry d).parent.getD d) := by
  cases x with
  | nil =>
    have hroot : s.root = d := some_inj.mp hx
    subst hroot
    rw [hs.rootParent]
    exact hs.at_root
  | cons name x =>
    obtain ⟨e, he, hc, -⟩ := (locate_cons_eq_some hs.toWf).mp hx
    rw [(hs.child e d hc).2.2.1]
    exact hs.at_of_child he hc

lemma RamfsTree.mountedOn_eq_none (d : Nat) : s.mountedOn d = none := by
  unfold mountedOn
  cases hm : (s.dentry d).mount with
  | none => rfl
  | some m =>
    rw [bind_some, (hs.mounted d m hm).2.2]
    exact ite_self none

lemma RamfsTree.crossMount_eq (d : Nat) : s.crossMount d = d := by
  unfold crossMount
  cases hm : (s.dentry d).mount with
  | none => rfl
  | some m =>
    obtain ⟨hd, hroot, -⟩ := hs.mounted d m hm
    exact hroot.trans hd.symm

lemma RamfsTree.followDotDot_eq (d : Nat) : s.followDotDot d = (s.dentry d).parent.getD d := by
  rw [followDotDot, hs.mountedOn_eq_none]

end

end View

lemma view_eq (s s' : Vfs) (htask : s'.task = s.task)
    (hpos : ∀ t d, s.Holds t d → s'.posOf d = s.posOf d) :
    s'.view = { s.view with
      node := s'.view.node
      inode := s'.inode
      inodeCount := s'.inodeCount
      lastIno := s'.lastIno
      current := s'.current } := by
  have hpwd : s'.view.pwd = s.view.pwd := by
    funext t
    show (s'.task t).pwd.map s'.posOf = (s.task t).pwd.map s.posOf
    rw [htask]
    cases h : (s.task t).pwd with
    | none => rfl
    | some d => rw [map_some, map_some, hpos t d (.inl h)]
  have hroot : s'.view.root = s.view.root := by
    funext t
    show (s'.task t).root.map s'.posOf = (s.task t).root.map s.posOf
    rw [htask]
    cases h : (s.task t).root with
    | none => rfl
    | some d => rw [map_some, map_some, hpos t d (.inr h)]
  have hcred : s'.view.cred = s.view.cred := by
    show (fun t => (s'.task t).cred) = fun t => (s.task t).cred
    rw [htask]
  exact FileTree.ext rfl rfl rfl rfl hpwd hroot hcred rfl

/-! ## Lookups change nothing that is seen -/

/-- The second state shows the same tree, and every entry is where it was. -/
structure Probed (s s' : Vfs) : Prop where
  tree : RamfsTree s'
  view : s'.view = s.view
  located : ∀ x d, s.locate s.root x = some d → s'.locate s'.root x = some d

namespace Probed

variable {s s' s'' : Vfs}

lemma refl (hs : RamfsTree s) : Probed s s :=
  ⟨hs, rfl, fun _ _ h => h⟩

lemma trans (h : Probed s s') (h' : Probed s' s'') : Probed s s'' :=
  ⟨h'.tree, h'.view.trans h.view, fun x d hx => h'.located x d (h.located x d hx)⟩

lemma isLocated (h : Probed s s') {d : Nat} (hd : s.Located d) : s'.Located d := by
  obtain ⟨x, hx⟩ := hd
  exact ⟨x, h.located x d hx⟩

end Probed

section Probe

variable {s : Vfs}
variable {p : Nat} {name : CString} {x : Pos} {inode : Option Nat} {negative : Bool}

lemma RamfsTree.newChild_node (hs : RamfsTree s) (hwf : Wf (s.newChild p name inode negative))
    (hx : s.locate s.root x = some p) :
    (s.newChild p name inode negative).view.node = update s.view.node (name :: x) inode := by
  have hp : p < s.dentryCount := locate_lt hs.toWf hs.root_lt hx
  have hloc : ∀ y e, s.locate s.root y = some e →
      (s.newChild p name inode negative).locate s.root y = some e :=
    fun y e hy => (locate_newChild hs.toWf hp hwf).mpr (.inl hy)
  have hself : (s.newChild p name inode negative).locate s.root (name :: x) =
      some s.dentryCount := by
    apply (locate_cons_eq_some hwf).mpr
    refine ⟨p, hloc x p hx, (mem_newChild_children hs.toWf hp).mpr (.inr ⟨rfl, rfl⟩), ?_⟩
    rw [newChild_dentry_self]
  funext y
  show ((s.newChild p name inode negative).locate s.root y).bind _ = _
  by_cases hy : y = name :: x
  · subst hy
    rw [hself, update_self, bind_some, newChild_dentry_self]
  · rw [update_of_ne hy]
    show _ = (s.locate s.root y).bind _
    cases h : (s.newChild p name inode negative).locate s.root y with
    | none =>
      cases hold : s.locate s.root y with
      | none => rfl
      | some e =>
        rw [hloc y e hold] at h
        exact nomatch h
    | some e =>
      rcases (locate_newChild hs.toWf hp hwf).mp h with hold | ⟨rfl, h⟩
      · have hne : e ≠ s.dentryCount := ne_of_lt (locate_lt hs.toWf hs.root_lt hold)
        rw [hold, bind_some, bind_some, newChild_inode hne]
      · have hroot : ((s.newChild p name inode negative).dentry s.root).parent = none := by
          rw [newChild_parent (ne_of_lt hs.root_lt)]
          exact hs.rootParent
        exact absurd (locate_inj hwf hroot h hself) hy

lemma RamfsTree.newChild (hs : RamfsTree s) (hp : p < s.dentryCount)
    (hwf : Wf (s.newChild p name inode negative)) :
    RamfsTree (s.newChild p name inode negative) where
  toWf := hwf
  rootParent := by
    show ((s.newChild p name inode negative).dentry s.root).parent = none
    rw [newChild_parent (ne_of_lt hs.root_lt)]
    exact hs.rootParent
  rootNode := by
    show ((s.newChild p name inode negative).dentry s.root).inode ≠ none
    rw [newChild_inode (ne_of_lt hs.root_lt)]
    exact hs.rootNode
  mounted d m hm := by
    by_cases hd : d = s.dentryCount
    · subst hd
      rw [newChild_dentry_self] at hm
      exact nomatch hm
    · obtain ⟨children, cache, h⟩ := newChild_fields hd
      rw [h] at hm
      exact hs.mounted d m hm
  held t d hd := by
    obtain ⟨x, hx⟩ := hs.held t d hd
    refine ⟨x, (locate_newChild hs.toWf hp hwf).mpr (.inl hx.1), ?_⟩
    rw [newChild_inode (ne_of_lt (locate_lt hs.toWf hs.root_lt hx.1))]
    exact hx.2

lemma RamfsTree.newChild_view (hs : RamfsTree s) (hwf : Wf (s.newChild p name inode negative))
    (hx : s.locate s.root x = some p) :
    (s.newChild p name inode negative).view =
      { s.view with node := update s.view.node (name :: x) inode } := by
  have hp : p < s.dentryCount := locate_lt hs.toWf hs.root_lt hx
  rw [← hs.newChild_node hwf hx]
  refine view_eq s (s.newChild p name inode negative) rfl ?_
  intro t d hd
  obtain ⟨y, hy⟩ := hs.held t d hd
  rw [hs.posOf_eq hy.1]
  exact (hs.newChild hp hwf).posOf_eq ((locate_newChild hs.toWf hp hwf).mpr (.inl hy.1))

lemma RamfsTree.probed_newChild (hs : RamfsTree s) (hx : s.At x p)
    (hfree : s.findChild p name = none) : Probed s (s.newChild p name none true) := by
  have hp : p < s.dentryCount := locate_lt hs.toWf hs.root_lt hx.1
  have hwf : Wf (s.newChild p name none true) := hs.toWf.newChild hp hx.2 hfree nofun
  refine ⟨hs.newChild hp hwf, ?_, fun y d hy => (locate_newChild hs.toWf hp hwf).mpr (.inl hy)⟩
  have hnode : s.view.node (name :: x) = none := by
    show (s.locate s.root (name :: x)).bind _ = none
    rw [locate_cons_of_eq_some hx.1, hfree, bind_none]
  rw [hs.newChild_view hwf hx.1, ← hnode, update_eq_self]

end Probe

end Vfs
end LiteKernel.Fs
