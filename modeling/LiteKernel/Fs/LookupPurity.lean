import LiteKernel.Fs.Calls
import LiteKernel.Lib.Run

/-!
# Failed lookups and later calls

Lookups that fail leave negative entries behind, and later calls meet them: a directory with a
negative entry cannot be removed, and a path that takes `..` from a missing name is found by the
first walk and not by the second.

Main results:

- Theorem `lookup_pure`: other calls return the same after failed lookups as without them.
- Theorem `vfs_refines_tree`: these calls refine a file tree without a cache.
-/

namespace LiteKernel.Fs

open Function Lib Option

namespace Vfs

/-- The state after a call. -/
def step (s : Vfs) (op : Op) : Vfs :=
  (s.exec op).2

/-- A lookup, or an open without create, that fails. -/
def FailedProbe (s : Vfs) (op : Op) : Prop :=
  (s.exec op).1 = .node none ∧
    match op with
    | .resolve _ | .resolveAt _ | .openFile _ false _ => True
    | _ => False

/-- The entries of a directory, as names and inode numbers. -/
def listing (s : Vfs) (x : Pos) : List (Option CString × Nat) :=
  ((s.locate s.root x).map s.genericReaddir).getD []

section

variable {s : Vfs}
variable {path : CString}

section

variable (hs : RamfsTree s)
include hs

lemma vfsOpen_probed {trunc : Bool}
    (hfail : (s.vfsOpen path false trunc).1.bind (s.vfsOpen path false trunc).2.fileInode = none) :
    Probed s (s.vfsOpen path false trunc).2 := by
  have hprobed := kernPath_probed hs path
  unfold vfsOpen openEntry at *
  rcases hk : s.kernPath path false with ⟨found, s'⟩
  rw [hk] at hfail hprobed
  simp only [if_true] at hfail ⊢
  have htree : RamfsTree s' := hprobed.tree
  cases he : found.bind fun d => (s'.dentry d).inode.map fun i => (d, i) with
  | none =>
    simp only [he] at hfail ⊢
    exact hprobed
  | some e =>
    obtain ⟨d, i⟩ := e
    obtain ⟨d', -, hd⟩ := bind_eq_some_iff.mp he
    obtain ⟨i', hi, heq⟩ := map_eq_some_iff.mp hd
    cases heq
    simp only [he, vfsOpenDentry_eq htree.memory hi] at hfail ⊢
    by_cases hmay : (s'.inode i).mayOpen s'.currentCred trunc = false
    · simp only [if_pos hmay]
      exact hprobed
    · simp only [if_neg hmay] at hfail
      have hsome := (addFile_fileInode (s := s') d).trans hi
      split at hfail
      · exact absurd (hsome.symm.trans hfail) (some_ne_none i)
      · exact absurd (hsome.symm.trans hfail) (some_ne_none i)

lemma FailedProbe.probed {op : Op} (h : s.FailedProbe op) : Probed s (s.step op) := by
  obtain ⟨hfail, hop⟩ := h
  cases op with
  | resolve path => exact vfsResolve_probed hs path
  | resolveAt path =>
    show Probed s (s.vfsResolveAt s.root path).2
    rw [vfsResolveAt_eq hs path]
    exact Probed.refl hs
  | openFile path creat trunc =>
    cases creat with
    | false => exact vfsOpen_probed hs (Reply.node.inj hfail)
    | true => exact hop.elim
  | mkdir path => exact hop.elim
  | symlink target path => exact hop.elim
  | unlink path => exact hop.elim
  | rmdir path => exact hop.elim
  | schedule next => exact hop.elim

lemma probes_probed {probes : List Op}
    (hprobes : RunOk step FailedProbe s probes) : Probed s (run step s probes) := by
  have hrefl := Probed.refl hs
  refine run_invariant (Probed s) ?_ hrefl hprobes
  intro s' op hprobed hop
  exact hprobed.trans (hop.probed hprobed.tree)

lemma mem_listing {x : Pos} {e : Option CString × Nat} :
    e ∈ s.listing x ↔
      ∃ name i, s.view.node (name :: x) = some i ∧ e = (some name, (s.view.inode i).ino) := by
  unfold listing
  cases hx : s.locate s.root x with
  | none =>
    constructor
    · exact nofun
    · rintro ⟨name, i, hi, -⟩
      obtain ⟨c, hc, -⟩ := view_node_eq_some.mp hi
      rw [locate_cons_of_eq_none hx] at hc
      exact nomatch hc
  | some d =>
    rw [map_some, getD_some, genericReaddir, List.mem_filterMap]
    constructor
    · rintro ⟨c, hc, he⟩
      obtain ⟨i, hi, rfl⟩ := map_eq_some_iff.mp he
      obtain ⟨name, hn⟩ := ne_none_iff_exists'.mp (hs.child d c hc).2.2.2
      refine ⟨name, i, view_node_eq_some.mpr ⟨c, ?_, hi⟩, by rw [hn]; rfl⟩
      exact (locate_cons_eq_some hs.toWf).mpr ⟨d, hx, hc, hn⟩
    · rintro ⟨name, i, hi, rfl⟩
      obtain ⟨c, hc, hinode⟩ := view_node_eq_some.mp hi
      rw [locate_cons_of_eq_some hx] at hc
      obtain ⟨hmem, hn⟩ := hs.findChild_eq_some.mp hc
      exact ⟨c, hmem, by rw [hinode, hn]; rfl⟩

/-- A run of calls replies and acts as a run on the tree that is seen. -/
lemma run_sees {ops : List Op} (hok : RunOk step OpOk s ops) :
    replies exec s ops = replies FileTree.exec s.view ops ∧
      RamfsTree (run step s ops) ∧
      (run step s ops).view = run (fun t op => (FileTree.exec t op).2) s.view ops := by
  refine replies_simulation (fun s t => RamfsTree s ∧ s.view = t) ?_ ⟨hs, rfl⟩ hok
  rintro s _ op ⟨hs, rfl⟩ hop
  have hmirrors := exec_sees hs hop
  exact ⟨hmirrors.reply, hmirrors.tree, hmirrors.view⟩

end

/-- An entry no call has used yet. -/
def blank : Dentry :=
  ⟨none, none, [], none, none, none, 0, false⟩

/-- The tree after `vfs_init`: a root directory, and a task without a working directory. -/
def bootTree : Vfs where
  dentry := update (fun _ => blank) 0 ⟨some ['/'], none, [], none, some 0, some 0, 1, false⟩
  dentryCount := 1
  dentryFreed := fun _ => false
  inode := fun _ => ⟨.directory, 1, 0o755, 0, 0, 0, none⟩
  inodeCount := 1
  inodeFreed := fun _ => false
  lastIno := 101
  mount := fun _ => ⟨0, none⟩
  mountCount := 1
  file := fun _ => ⟨0, 0⟩
  fileCount := 0
  task := fun _ => ⟨none, none, ⟨0, 0, 0o22⟩, []⟩
  current := some 0
  root := 0
  answers := fun _ => true

lemma bootTree_dentry {d : Nat} (hd : d ≠ 0) : bootTree.dentry d = blank := by
  show update (fun _ => blank) 0 _ d = blank
  rw [update_of_ne hd]

lemma bootTree_children (d : Nat) : (bootTree.dentry d).children = [] := by
  by_cases hd : d = 0
  · rw [hd]
    rfl
  · rw [bootTree_dentry hd]
    rfl

lemma bootTree_inode {d i : Nat} (h : (bootTree.dentry d).inode = some i) : d = 0 ∧ i = 0 := by
  by_cases hd : d = 0
  · subst hd
    exact ⟨rfl, (some_inj.mp h).symm⟩
  · rw [bootTree_dentry hd] at h
    exact nomatch h

lemma bootTree_ramfsTree : RamfsTree bootTree where
  memory := rfl
  root_lt := zero_lt_one
  child d c hc := by
    rw [bootTree_children] at hc
    cases hc
  distinct d := by
    rw [bootTree_children]
    exact List.nodup_nil
  chain d i := by
    rw [bootTree_children]
    by_cases hd : d = 0
    · rw [hd]
      rfl
    · rw [chain, bootTree_dentry hd]
      rfl
  leaf d _ := bootTree_children d
  negative d hd := by
    have hzero : d = 0 := Nat.lt_one_iff.mp hd
    rw [hzero]
    rfl
  unique d e i hd he := (bootTree_inode hd).1.trans (bootTree_inode he).1.symm
  bound d i hd := by
    obtain ⟨rfl, rfl⟩ := bootTree_inode hd
    exact ⟨zero_lt_one, zero_lt_one⟩
  rootParent := rfl
  rootNode h := by cases h
  mounted d m hm := by
    by_cases hd : d = 0
    · exact ⟨hd, rfl, rfl⟩
    · rw [bootTree_dentry hd] at hm
      cases hm
  held t d hd := by
    rcases hd with hd | hd <;> cases hd

lemma clear_of_split {t : FileTree} {split : Split} (hsplit : splitParent path = some split)
    (hpath : t.lookup path ≠ .astray) (hparent : t.lookup split.parent ≠ .astray) :
    t.Clear path := by
  refine ⟨hpath, fun split' h => ?_⟩
  rw [hsplit] at h
  exact some_inj.mp h ▸ hparent

/--
Two runs of the same calls, one of them after lookups that failed. If their calls
meet `OpOk`, the calls return the same in both runs, and at the end the same names
are in every directory.
-/
theorem lookup_pure (hs : RamfsTree s) {probes ops : List Op}
    (hprobes : RunOk step FailedProbe s probes) (hops : RunOk step OpOk s ops)
    (hops' : RunOk step OpOk (run step s probes) ops) :
    replies exec (run step s probes) ops = replies exec s ops ∧
      ∀ x e, e ∈ (run step (run step s probes) ops).listing x ↔ e ∈ (run step s ops).listing x := by
  have hprobed := probes_probed hs hprobes
  obtain ⟨hreplies, htree, hview⟩ := run_sees hs hops
  obtain ⟨hreplies', htree', hview'⟩ := run_sees hprobed.tree hops'
  rw [hprobed.view] at hreplies' hview'
  refine ⟨hreplies'.trans hreplies.symm, fun x e => ?_⟩
  rw [mem_listing htree', mem_listing htree, hview', hview]

/--
The calls refine the tree without a cache: in every admitted run they reply as it does, and at the
end every directory lists exactly the names that are in that tree.
-/
theorem vfs_refines_tree (hs : RamfsTree s) {ops : List Op} (hops : RunOk step OpOk s ops) :
    let t := run (fun t op => (FileTree.exec t op).2) s.view ops
    replies exec s ops = replies FileTree.exec s.view ops ∧
      ∀ x e, e ∈ (run step s ops).listing x ↔
        ∃ name i, t.node (name :: x) = some i ∧ e = (some name, (t.inode i).ino) := by
  obtain ⟨hreplies, htree, hview⟩ := run_sees hs hops
  refine ⟨hreplies, fun x e => ?_⟩
  rw [mem_listing htree, hview]

end

/-- The tree with one directory `/d`. -/
def oneDir : Vfs :=
  bootTree.step (.mkdir ['/', 'd'])

lemma oneDir_ramfsTree : RamfsTree oneDir := by
  have hok : bootTree.OpOk (.mkdir ['/', 'd']) :=
    @clear_of_split _ _ ⟨['/'], ['d'], .norm⟩ (by decide) (by decide) (by decide)
  exact (exec_sees bootTree_ramfsTree hok).tree

/-- Removing `/d` is admitted if it has no negative entries and no task is at work. -/
lemma removeDir_ok {s : Vfs} (hclear : s.view.Clear ['/', 'd'])
    (hparent : s.view.parentDir ['/', 'd'] = some ([], 0, ['d']))
    (htask : s.task = bootTree.task) (hd : s.locate s.root [['d']] = some 1)
    (hbare : (s.dentry 1).children = []) : s.OpOk (.rmdir ['/', 'd']) := by
  refine ⟨hclear, fun x hx => ?_⟩
  obtain ⟨y, i, name, hp, rfl⟩ := FileTree.removable_eq_some hx
  rw [hparent] at hp
  cases hp
  constructor
  · rintro ⟨k, z, hheld, -⟩
    have hpwd : s.view.pwd k = none := by
      show (s.task k).pwd.map s.posOf = none
      rw [htask]
      rfl
    have hroot : s.view.root k = none := by
      show (s.task k).root.map s.posOf = none
      rw [htask]
      rfl
    rw [hpwd, hroot] at hheld
    exact hheld.elim nofun nofun
  · intro d hloc
    rw [hd] at hloc
    exact some_inj.mp hloc ▸ hbare

/-- The lookup of `/x` fails, `/x` is made and `/d` is removed. -/
theorem oneDir_refines :
    let ops := [Op.resolve ['/', 'x'], .mkdir ['/', 'x'], .rmdir ['/', 'd']]
    replies exec oneDir ops = replies FileTree.exec oneDir.view ops ∧
      (run step oneDir ops).listing [] = [(some ['x'], 103)] := by
  intro ops
  have hx : splitParent ['/', 'x'] = some ⟨['/'], ['x'], .norm⟩ := by decide
  have hd : splitParent ['/', 'd'] = some ⟨['/'], ['d'], .norm⟩ := by decide
  have hok : RunOk step OpOk oneDir ops := by
    refine ⟨clear_of_split hx (by decide +kernel) (by decide +kernel),
      clear_of_split hx (by decide +kernel) (by decide +kernel), ?_, trivial⟩
    exact removeDir_ok (clear_of_split hd (by decide +kernel) (by decide +kernel)) rfl rfl rfl rfl
  exact ⟨(vfs_refines_tree oneDir_ramfsTree hok).1, by decide +kernel⟩

theorem probe_then_rmdir :
    replies exec (run step oneDir [.resolve ['/', 'x']]) [.mkdir ['/', 'x'], .rmdir ['/', 'd']] =
      replies exec oneDir [.mkdir ['/', 'x'], .rmdir ['/', 'd']] := by
  have hprobes : RunOk step FailedProbe oneDir [.resolve ['/', 'x']] :=
    ⟨⟨by decide +kernel, trivial⟩, trivial⟩
  have hx : splitParent ['/', 'x'] = some ⟨['/'], ['x'], .norm⟩ := by decide
  have hd : splitParent ['/', 'd'] = some ⟨['/'], ['d'], .norm⟩ := by decide
  -- the two runs are admitted for the same reasons
  refine (lookup_pure oneDir_ramfsTree hprobes ?_ ?_).1
  all_goals
    refine ⟨clear_of_split hx (by decide +kernel) (by decide +kernel), ?_, trivial⟩
    exact removeDir_ok (clear_of_split hd (by decide +kernel) (by decide +kernel)) rfl rfl rfl rfl

/-- A failed lookup below an empty directory keeps it from being removed. -/
theorem probe_blocks_rmdir :
    RamfsTree oneDir ∧ RunOk step FailedProbe oneDir [.resolve ['/', 'd', '/', 'x']] ∧
      replies exec oneDir [.rmdir ['/', 'd']] = [.status true] ∧
      replies exec (run step oneDir [.resolve ['/', 'd', '/', 'x']]) [.rmdir ['/', 'd']] =
        [.status false] := by
  refine ⟨oneDir_ramfsTree, ⟨⟨?_, trivial⟩, trivial⟩, ?_, ?_⟩
  · decide +kernel
  · decide +kernel
  · decide +kernel

end Vfs
end LiteKernel.Fs
