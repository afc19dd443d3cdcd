import LiteKernel.Fs.Lookup

/-!
# The calls act on the tree that is seen

Each call of `fs/namei.c` that creates or removes a name does to the cache what the
call of `FileTree` does to the tree that is seen, and returns the same, with one exception:
for `ramfs_rmdir` a directory with a negative entry is not empty.

Main results:

- Lemma `exec_sees`: a call that meets `OpOk` mirrors the call of the tree.
- Lemma `remove_mirrors`: the removal of a name.
-/

namespace LiteKernel.Fs

open Function Option

namespace Vfs

/-! ## Changes that keep the tree -/

/-- The entries are the same but for their counts. -/
structure Similar (s s' : Vfs) : Prop where
  dentry : ∀ d, ∃ r, s'.dentry d = { s.dentry d with refcount := r }
  dentryCount : s'.dentryCount = s.dentryCount
  root : s'.root = s.root
  mount : s'.mount = s.mount
  task : s'.task = s.task
  answers : s'.answers = s.answers
  inodeCount : s.inodeCount ≤ s'.inodeCount

namespace Similar

variable {s s' : Vfs}

section

variable (h : Similar s s')
include h

lemma sameTree : SameTree s s' where
  dentry d := by
    obtain ⟨r, hr⟩ := h.dentry d
    exact ⟨r, (s.dentry d).mount, hr⟩
  dentryCount := h.dentryCount
  root := h.root
  answers := h.answers
  inodeCount := h.inodeCount

lemma inode (d : Nat) : (s'.dentry d).inode = (s.dentry d).inode :=
  h.sameTree.inode d

lemma locate (r : Nat) (x : Pos) : s'.locate r x = s.locate r x := by
  induction x with
  | nil => rfl
  | cons name x ih =>
    have hnamed : ∀ c, s'.Named name c ↔ s.Named name c := by
      intro c
      unfold Named
      rw [h.sameTree.name]
    rw [Vfs.locate, ih, Vfs.locate]
    unfold findChild
    simp only [h.sameTree.children, hnamed]

lemma at_iff {x : Pos} {d : Nat} : s'.At x d ↔ s.At x d := by
  unfold At
  rw [h.root, h.locate, h.inode]

lemma tree (hs : RamfsTree s) : RamfsTree s' where
  toWf := h.sameTree.wf hs.toWf
  rootParent := by
    rw [h.root, h.sameTree.parent]
    exact hs.rootParent
  rootNode := by
    rw [h.root, h.inode]
    exact hs.rootNode
  mounted d m hm := by
    obtain ⟨r, hr⟩ := h.dentry d
    rw [hr] at hm
    rw [h.root, h.mount]
    exact hs.mounted d m hm
  held t d hd := by
    unfold Holds at hd
    rw [h.task] at hd
    obtain ⟨x, hx⟩ := hs.held t d hd
    exact ⟨x, h.at_iff.mpr hx⟩

lemma node : s'.view.node = s.view.node := by
  funext x
  show (s'.locate s'.root x).bind _ = (s.locate s.root x).bind _
  rw [h.root, h.locate]
  simp only [h.inode]

lemma view (hs : RamfsTree s) :
    s'.view = { s.view with
      inode := s'.inode
      inodeCount := s'.inodeCount
      lastIno := s'.lastIno
      current := s'.current } := by
  have hpos : ∀ t d, s.Holds t d → s'.posOf d = s.posOf d := by
    intro t d hd
    obtain ⟨x, hx⟩ := hs.held t d hd
    rw [hs.posOf_eq hx.1]
    exact (h.tree hs).posOf_eq (h.at_iff.mpr hx).1
  have hview := view_eq s s' h.task hpos
  rw [h.node] at hview
  exact hview

end

end Similar

variable {x : Pos} {path name : CString} {dir : Nat}

/-! ## Creating a name -/

section

variable {s : Vfs}

/-- The state with one more inode. -/
def addInode (s : Vfs) (node : Inode) : Vfs :=
  { s with
    inode := update s.inode s.inodeCount node
    inodeCount := s.inodeCount + 1
    lastIno := (s.lastIno + 1) % 2 ^ 32 }

lemma similar_addInode (s : Vfs) (node : Inode) : Similar s (s.addInode node) where
  dentry d := ⟨(s.dentry d).refcount, rfl⟩
  dentryCount := rfl
  root := rfl
  mount := rfl
  task := rfl
  answers := rfl
  inodeCount := Nat.le_succ _

section

variable (hm : s.answers = fun _ => true)
include hm

lemma ramfsGetInode_eq (type : FileType) (mode : Nat) :
    s.ramfsGetInode type mode =
      (some s.inodeCount,
        s.addInode (.fresh type ((s.lastIno + 1) % 2 ^ 32) mode s.currentCred)) := by
  have hm' : s.getNextIno.2.answers = fun _ => true := hm
  unfold ramfsGetInode
  rw [kmalloc_eq hm]
  simp only [if_true]
  split
  · rfl
  · rw [kmalloc_eq hm']
    rfl

lemma ramfsCreateFile_eq (hdir : (s.inode dir).type = .directory) :
    s.ramfsCreateFile dir name =
      if ramfsValidName name = false then (none, s)
      else (some s.inodeCount, s.addInode (s.view.fresh .file 0o666)) := by
  unfold ramfsCreateFile
  cases hv : ramfsValidName name with
  | false => simp
  | true =>
    rw [if_pos ⟨hdir, rfl⟩, ramfsGetInode_eq hm]
    rfl

lemma ramfsMkdirInode_eq (hdir : (s.inode dir).type = .directory) :
    s.ramfsMkdirInode dir name =
      if ramfsValidName name = false then (none, s)
      else (some s.inodeCount, s.addInode (s.view.fresh .directory 0o777)) := by
  unfold ramfsMkdirInode
  cases hv : ramfsValidName name with
  | false => simp
  | true =>
    rw [if_pos ⟨hdir, rfl⟩, ramfsGetInode_eq hm]
    rfl

lemma ramfsSymlinkInode_eq {name target : CString} (hdir : (s.inode dir).type = .directory) :
    s.ramfsSymlinkInode dir name target =
      if ramfsValidName name = false then (none, s)
      else (some s.inodeCount, s.addInode ((s.view.fresh .symlink 0o777).linkTo target)) := by
  unfold ramfsSymlinkInode
  cases hv : ramfsValidName name with
  | false => simp
  | true =>
    rw [if_pos ⟨hdir, rfl⟩, ramfsGetInode_eq hm]
    have hk : (s.addInode (.fresh .symlink ((s.lastIno + 1) % 2 ^ 32) 0o777 s.currentCred)).kmalloc =
        (true, s.addInode (.fresh .symlink ((s.lastIno + 1) % 2 ^ 32) 0o777 s.currentCred)) :=
      kmalloc_eq hm
    simp only [hk, if_true]
    simp only [addInode, update_self, update_idem]
    rfl

end

lemma RamfsTree.setNode (hs : RamfsTree s) {d i : Nat} (hwf : Wf (s.setNode d i)) :
    RamfsTree (s.setNode d i) where
  toWf := hwf
  rootParent := by
    rw [setNode_parent]
    exact hs.rootParent
  rootNode := by
    rw [setNode_inode]
    by_cases h : s.root = d
    · rw [show (s.setNode d i).root = d from h, if_pos rfl]
      exact some_ne_none i
    · rw [if_neg (show (s.setNode d i).root ≠ d from h)]
      exact hs.rootNode
  mounted e m hm := by
    obtain ⟨inode, negative, h⟩ := setNode_fields (s := s) (d := d) (i := i) e
    rw [h] at hm
    exact hs.mounted e m hm
  held t e he := by
    obtain ⟨x, hx⟩ := hs.held t e he
    refine ⟨x, (locate_setNode s.root x).trans hx.1, ?_⟩
    rw [setNode_inode]
    split
    · exact some_ne_none i
    · exact hx.2

lemma RamfsTree.setNode_view (hs : RamfsTree s) {d i : Nat} (hwf : Wf (s.setNode d i))
    (hx : s.locate s.root x = some d) :
    (s.setNode d i).view = { s.view with node := update s.view.node x (some i) } := by
  have hnode : (s.setNode d i).view.node = update s.view.node x (some i) := by
    funext y
    show ((s.setNode d i).locate s.root y).bind _ = _
    rw [locate_setNode]
    by_cases hy : y = x
    · subst hy
      rw [hx, update_self, bind_some, setNode_inode, if_pos rfl]
    · rw [update_of_ne hy]
      show _ = (s.locate s.root y).bind _
      cases he : s.locate s.root y with
      | none => rfl
      | some e =>
        have hed : e ≠ d := by
          rintro rfl
          exact hy (locate_inj hs.toWf hs.rootParent he hx)
        rw [bind_some, bind_some, setNode_inode, if_neg hed]
  rw [← hnode]
  refine view_eq s (s.setNode d i) rfl ?_
  intro t e he
  obtain ⟨y, hy⟩ := hs.held t e he
  rw [hs.posOf_eq hy.1]
  exact (hs.setNode hwf).posOf_eq ((locate_setNode s.root y).trans hy.1)

lemma instantiate_sees (hs : RamfsTree s) {dir created : Nat} (hx : s.At x dir)
    (hi : created < s.inodeCount) (hnew : ∀ e, (s.dentry e).inode ≠ some created)
    (name : CString) :
    ∃ d s', s.instantiate dir name created = (some d, s') ∧ RamfsTree s' ∧
      (s'.dentry d).inode = some created ∧
      s'.view = { s.view with node := update s.view.node (name :: x) (some created) } := by
  have hlt := locate_lt hs.toWf hs.root_lt hx.1
  unfold instantiate
  rw [hs.dLookup_eq]
  cases hc : s.findChild dir name with
  | some c =>
    have hchild := hs.findChild_eq_some.mp hc
    have hclt := (hs.child dir c hchild.1).2.1
    have hwf : Wf (s.setNode c created) := hs.toWf.setNode hclt hi hnew
    have hloc : s.locate s.root (name :: x) = some c := by rw [locate_cons_of_eq_some hx.1, hc]
    exact ⟨c, s.setNode c created, rfl, hs.setNode hwf, by rw [setNode_inode, if_pos rfl],
      hs.setNode_view hwf hloc⟩
  | none =>
    simp only [dAlloc_eq hs.memory hlt]
    have hwf : Wf (s.newChild dir name (some created) false) :=
      hs.toWf.newChild hlt hx.2 hc fun i h => some_inj.mp h ▸ ⟨hi, hnew⟩
    refine ⟨s.dentryCount, s.newChild dir name (some created) false, ?_, hs.newChild hlt hwf, ?_,
      hs.newChild_view hwf hx.1⟩
    · simp [setDentry, newChild]
    · rw [newChild_dentry_self]

lemma create_sees (hs : RamfsTree s) (hx : s.At x dir) (node : Inode) (name : CString) :
    ∃ d s', (s.addInode node).instantiate dir name s.inodeCount = (some d, s') ∧ RamfsTree s' ∧
      (s'.dentry d).inode = some s.inodeCount ∧ s'.view = s.view.create (name :: x) node := by
  have hsim := similar_addInode s node
  have hnew : ∀ e, ((s.addInode node).dentry e).inode ≠ some s.inodeCount :=
    fun e he => lt_irrefl _ (hs.bound e s.inodeCount he).2
  obtain ⟨d, s', heq, htree, hd, hview⟩ := instantiate_sees (hsim.tree hs) (hsim.at_iff.mpr hx)
    (Nat.lt_succ_self _) hnew name
  refine ⟨d, s', heq, htree, hd, hview.trans ?_⟩
  rw [hsim.view hs]
  rfl

end

/-! ## Finding the directory -/

section

variable {s : Vfs}

lemma kernPath_probed (hs : RamfsTree s) (path : CString) :
    Probed s (s.kernPath path false).2 := by
  unfold kernPath
  split
  · exact Probed.refl hs
  · exact walkPath_probed hs path

lemma vfsResolve_probed (hs : RamfsTree s) (path : CString) : Probed s (s.vfsResolve path).2 :=
  kernPath_probed hs path

lemma kernPath_inode (hs : RamfsTree s) (hclear : s.view.lookup path ≠ .astray) :
    ((s.kernPath path false).1.bind fun d => ((s.kernPath path false).2.dentry d).inode) =
      s.view.resolve path := by
  unfold kernPath FileTree.resolve
  split
  · rfl
  · have hsees := walkPath_sees hs path
    rw [pathLookupat_eq]
    simp only [Bool.false_eq_true, false_and, if_false, bind_fun_some]
    cases hfound : s.view.lookup path with
    | here x =>
      rw [hfound] at hsees
      obtain ⟨d, hd, hat⟩ := hsees
      rw [hd, bind_some, FileTree.Found.inode, hat.node]
    | nowhere =>
      rw [hfound] at hsees
      cases hd : (s.walkPath path).1 with
      | none => rfl
      | some d => exact hsees d hd
    | astray => exact absurd hfound hclear

lemma vfsResolve_sees (hs : RamfsTree s) (hclear : s.view.lookup path ≠ .astray) :
    (s.vfsResolve path).1 = s.view.resolve path :=
  kernPath_inode hs hclear

lemma lastType_eq_norm {last : CString} (h : lastType last = .norm) :
    last ≠ dot ∧ last ≠ dotDot := by
  unfold lastType at h
  by_cases hdot : last = dot
  · rw [if_pos hdot] at h
    exact nomatch h
  · rw [if_neg hdot] at h
    by_cases hdotDot : last = dotDot
    · rw [if_pos hdotDot] at h
      exact nomatch h
    · exact ⟨hdot, hdotDot⟩

/-- The directory of a path, its inode and a proper name in it. -/
structure InDir (s : Vfs) (x : Pos) (dir i : Nat) (name : CString) : Prop where
  at_dir : s.At x dir
  inode : (s.dentry dir).inode = some i
  directory : (s.inode i).type = .directory
  ne_nil : name ≠ []
  ne_dot : name ≠ dot
  ne_dotDot : name ≠ dotDot

/--
The directory of a path is the one that is seen, and finding it changes nothing; if
there is none, nothing changes that is seen.
-/
lemma parentDir_cases (hs : RamfsTree s)
    (hclear : ∀ split, splitParent path = some split → s.view.lookup split.parent ≠ .astray) :
    (s.view.parentDir path = none ∧ ∃ s', Probed s s' ∧ s.parentDir path = (none, s')) ∨
      ∃ x i name dir, s.view.parentDir path = some (x, i, name) ∧
        s.parentDir path = (some (dir, i, name), s) ∧ InDir s x dir i name := by
  unfold parentDir filenameParentat FileTree.parentDir
  cases hsplit : splitParent path with
  | none => exact .inl ⟨rfl, s, Probed.refl hs, rfl⟩
  | some split =>
    have hsees := walkPath_sees hs split.parent
    obtain ⟨hlast, htype⟩ := splitParent_last hsplit
    simp only [pathLookupat_eq, true_and, bind_some]
    cases hfound : s.view.lookup split.parent with
    | astray => exact absurd hfound (hclear split hsplit)
    | nowhere =>
      rw [hfound] at hsees
      left
      refine ⟨rfl, (s.walkPath split.parent).2, walkPath_probed hs split.parent, ?_⟩
      cases hd : (s.walkPath split.parent).1 with
      | none => rfl
      | some d =>
        have hdir : ¬ (s.walkPath split.parent).2.IsDir d := by
          unfold IsDir
          rw [hsees d hd]
          exact nofun
        rw [bind_some, if_pos hdir, map_none]
    | here x =>
      rw [hfound] at hsees
      obtain ⟨d, hd, hat⟩ := hsees
      obtain ⟨i, hi⟩ := ne_none_iff_exists'.mp hat.2
      have hnode : s.view.node x = some i := by rw [hat.node, hi]
      have hseen : s.view.inode = s.inode := rfl
      rw [hd, bind_some]
      by_cases hdir : (s.inode i).type = .directory
      · have hisDir : s.IsDir d := by
          unfold IsDir
          rw [hi, map_some, hdir]
        rw [if_neg (not_not_intro hisDir), map_some]
        cases hnorm : split.type with
        | norm =>
          rw [htype] at hnorm
          obtain ⟨hdot, hdotDot⟩ := lastType_eq_norm hnorm
          right
          refine ⟨x, i, split.last, d, ?_, ?_, ⟨hat, hi, hdir, hlast, hdot, hdotDot⟩⟩
          · simp only [hnode, bind_some, hseen, if_pos hdir]
          · simp only [hi, bind_some, if_pos hdir]
        | dot => exact .inl ⟨rfl, s, Probed.refl hs, rfl⟩
        | dotDot => exact .inl ⟨rfl, s, Probed.refl hs, rfl⟩
      · have hisDir : ¬ s.IsDir d := by
          unfold IsDir
          rw [hi, map_some, some_inj]
          exact hdir
        left
        rw [if_pos hisDir, map_none]
        refine ⟨?_, s, Probed.refl hs, rfl⟩
        cases split.type
        · simp only [hnode, bind_some, hseen, if_neg hdir]
        · rfl
        · rfl

lemma vfsCheckAccess_eq (i : Nat) (read write exec : Bool) :
    s.vfsCheckAccess i read write exec =
      (s.view.inode i).checkAccess s.view.currentCred read write exec :=
  rfl

end

/-! ## The calls that create a name -/

/-- A call on the cache returns and does what the call on the tree that is seen does. -/
structure Mirrors {α : Type} (r : α × Vfs) (t : α × FileTree) : Prop where
  reply : r.1 = t.1
  tree : RamfsTree r.2
  view : r.2.view = t.2

lemma Probed.mirrors {α : Type} {s s' : Vfs} (h : Probed s s') (a : α) :
    Mirrors (a, s') (a, s.view) :=
  ⟨rfl, h.tree, h.view⟩

section CreateCalls

variable {s : Vfs}

lemma below_of_locate (hs : Wf s) {r e : Nat} (hx : s.locate r x = some e) : s.Below r e := by
  induction x generalizing e with
  | nil =>
    cases hx
    exact Relation.ReflTransGen.refl
  | cons name x ih =>
    obtain ⟨p, hp, hc⟩ := bind_eq_some_iff.mp hx
    exact (ih hp).tail (hs.findChild_eq_some.mp hc).1

lemma finddirFs_eq (hs : RamfsTree s) {dir i : Nat} (hdir : InDir s x dir i name) :
    s.finddirFs i name = s.view.node (name :: x) := by
  have hhost := (hs.forest.findDentryByInode_eq hdir.directory hdir.inode).mpr
    (below_of_locate hs.toWf hdir.at_dir.1)
  show _ = (s.locate s.root (name :: x)).bind _
  rw [finddirFs, if_neg (not_not_intro hdir.directory), genericFinddir, if_neg hdir.ne_nil, hhost,
    bind_some, hs.dLookup_eq, locate_cons_of_eq_some hdir.at_dir.1]

section

variable (hs : RamfsTree s)
variable (hclear : ∀ split, splitParent path = some split → s.view.lookup split.parent ≠ .astray)
include hs hclear

lemma vfsMkdir_mirrors : Mirrors (s.vfsMkdir path) (s.view.mkdir path) := by
  unfold vfsMkdir FileTree.mkdir
  rcases parentDir_cases hs hclear with ⟨hnone, s', hprobed, hparent⟩ |
    ⟨x, i, name, dir, hsome, hparent, hdir⟩
  · rw [hnone, hparent]
    exact hprobed.mirrors false
  · rw [hsome, hparent]
    simp only
    rw [vfsCheckAccess_eq, finddirFs_eq hs hdir]
    split
    · exact (Probed.refl hs).mirrors false
    · split
      · exact (Probed.refl hs).mirrors false
      · rw [ramfsMkdirInode_eq hs.memory hdir.directory]
        split_ifs with hvalid
        · exact (Probed.refl hs).mirrors false
        · obtain ⟨d, s', heq, htree, -, hview⟩ :=
            create_sees hs hdir.at_dir (s.view.fresh .directory 0o777) name
          simp only [heq]
          exact ⟨rfl, htree, hview⟩

lemma vfsSymlink_mirrors {target : CString} :
    Mirrors (s.vfsSymlink target path) (s.view.symlink target path) := by
  unfold vfsSymlink FileTree.symlink
  rcases parentDir_cases hs hclear with ⟨hnone, s', hprobed, hparent⟩ |
    ⟨x, i, name, dir, hsome, hparent, hdir⟩
  · rw [hnone, hparent]
    exact hprobed.mirrors false
  · rw [hsome, hparent]
    simp only
    rw [ramfsSymlinkInode_eq hs.memory hdir.directory]
    split_ifs with hvalid
    · exact (Probed.refl hs).mirrors false
    · obtain ⟨d, s', heq, htree, -, hview⟩ :=
        create_sees hs hdir.at_dir ((s.view.fresh .symlink 0o777).linkTo target) name
      simp only [heq]
      exact ⟨rfl, htree, hview⟩

end

lemma openEntry_mirrors (hs : RamfsTree s) (creat : Bool) (hclear : s.view.Clear path) :
    Mirrors ((s.openEntry path creat).1.map Prod.snd, (s.openEntry path creat).2)
        (s.view.openEntry path creat) ∧
      ∀ d i, (s.openEntry path creat).1 = some (d, i) →
        ((s.openEntry path creat).2.dentry d).inode = some i := by
  have hfound := kernPath_inode hs hclear.1
  have hprobed := kernPath_probed hs path
  unfold openEntry FileTree.openEntry
  rcases hk : s.kernPath path false with ⟨found, s1⟩
  rw [hk] at hfound hprobed
  simp only at hfound ⊢
  cases hres : s.view.resolve path with
  | some i =>
    rw [hres] at hfound
    obtain ⟨d, rfl, hd⟩ := bind_eq_some_iff.mp hfound
    rw [bind_some, hd, map_some]
    refine ⟨hprobed.mirrors (some i), ?_⟩
    intro d' i' h
    cases h
    exact hd
  | none =>
    rw [hres] at hfound
    have hnone : (found.bind fun d => (s1.dentry d).inode.map fun i => (d, i)) = none := by
      cases found with
      | none => rfl
      | some d =>
        rw [bind_some] at hfound ⊢
        rw [hfound, map_none]
    simp only [hnone]
    cases creat with
    | false => exact ⟨hprobed.mirrors none, nofun⟩
    | true =>
      have hclear1 : ∀ split, splitParent path = some split →
          s1.view.lookup split.parent ≠ .astray := by
        rw [hprobed.view]
        exact hclear.2
      simp only [Bool.true_eq_false, if_false]
      rw [← hprobed.view]
      have htree := hprobed.tree
      rcases parentDir_cases htree hclear1 with ⟨hnone, s', hprobed', hparent⟩ |
        ⟨x, i, name, dir, hsome, hparent, hdir⟩
      · rw [hnone, hparent]
        exact ⟨hprobed'.mirrors none, nofun⟩
      · rw [hsome, hparent]
        simp only
        rw [ramfsCreateFile_eq htree.memory hdir.directory]
        split_ifs with hvalid
        · exact ⟨(Probed.refl htree).mirrors none, nofun⟩
        · obtain ⟨d, s', heq, htree', hd, hview⟩ :=
            create_sees htree hdir.at_dir (s1.view.fresh .file 0o666) name
          simp only [heq]
          refine ⟨⟨rfl, htree', hview⟩, ?_⟩
          intro d' i' h
          cases h
          exact hd

/-- The state with one more open file. -/
def addFile (s : Vfs) (d : Nat) : Vfs :=
  { s.dget d with file := update s.file s.fileCount ⟨d, 1⟩, fileCount := s.fileCount + 1 }

lemma similar_addFile (s : Vfs) (d : Nat) : Similar s (s.addFile d) where
  dentry e := by
    by_cases he : e = d
    · subst he
      exact ⟨_, update_self ..⟩
    · exact ⟨(s.dentry e).refcount, update_of_ne he ..⟩
  dentryCount := rfl
  root := rfl
  mount := rfl
  task := rfl
  answers := rfl
  inodeCount := le_refl _

lemma similar_truncate (s : Vfs) (i : Nat) : Similar s (s.truncate i) where
  dentry e := ⟨(s.dentry e).refcount, rfl⟩
  dentryCount := rfl
  root := rfl
  mount := rfl
  task := rfl
  answers := rfl
  inodeCount := le_refl _

lemma vfsOpenDentry_eq (hm : s.answers = fun _ => true) {d i : Nat}
    (hd : (s.dentry d).inode = some i) : s.vfsOpenDentry d = (some s.fileCount, s.addFile d) := by
  unfold vfsOpenDentry
  rw [if_neg (by rw [hd]; exact some_ne_none i), kmalloc_eq hm]
  rfl

/-- The inode of an open file. -/
def fileInode (s : Vfs) (f : Nat) : Option Nat :=
  (s.dentry (s.file f).dentry).inode

lemma addFile_fileInode (d : Nat) : (s.addFile d).fileInode s.fileCount = (s.dentry d).inode := by
  have hfile : (s.addFile d).file s.fileCount = ⟨d, 1⟩ := update_self ..
  rw [fileInode, hfile, (similar_addFile s d).inode]

lemma vfsOpen_mirrors (hs : RamfsTree s) (creat trunc : Bool) (hclear : s.view.Clear path) :
    Mirrors ((s.vfsOpen path creat trunc).1.bind (s.vfsOpen path creat trunc).2.fileInode,
        (s.vfsOpen path creat trunc).2)
      (s.view.openFile path creat trunc) := by
  obtain ⟨hentry, hnode⟩ := openEntry_mirrors hs creat hclear
  unfold vfsOpen FileTree.openFile
  rcases ho : s.openEntry path creat with ⟨found, s'⟩
  rcases ht : s.view.openEntry path creat with ⟨i?, t⟩
  rw [ho] at hentry hnode
  rw [ht] at hentry
  obtain ⟨hreply, htree, hview⟩ := hentry
  subst hview
  cases found with
  | none =>
    subst hreply
    exact ⟨rfl, htree, rfl⟩
  | some e =>
    obtain ⟨d, i⟩ := e
    subst hreply
    have hd : (s'.dentry d).inode = some i := hnode d i rfl
    have hsim := similar_addFile s' d
    have hview : (s'.addFile d).view = s'.view := hsim.view htree
    simp only [map_some, vfsOpenDentry_eq htree.memory hd]
    have hinode : (s'.addFile d).inode = s'.inode := rfl
    have hseen : s'.view.inode = s'.inode := rfl
    have hcred : s'.view.currentCred = s'.currentCred := rfl
    simp only [hinode, hseen, hcred]
    split
    · exact (Probed.refl htree).mirrors none
    · split
      · have hsim' := similar_truncate (s'.addFile d) i
        refine ⟨?_, hsim'.tree (hsim.tree htree), ?_⟩
        · exact (addFile_fileInode d).trans hd
        · rw [hsim'.view (hsim.tree htree), hview]
          rfl
      · exact ⟨(addFile_fileInode d).trans hd, hsim.tree htree, hview⟩

end CreateCalls

/-! ## The calls that remove a name -/

section

variable {s : Vfs}

/-- An entry in which no task works can be removed. -/
lemma RamfsTree.removeEntry (hs : RamfsTree s) {p d i : Nat} (hd : d ∈ (s.dentry p).children)
    (hx : s.locate s.root x = some d)
    (huse : ¬ s.view.InUse x) :
    RamfsTree (s.removeEntry d i) ∧ (s.removeEntry d i).view = s.view.erase x := by
  have hroot : (s.removeEntry d i).root = s.root := by rw [removeEntry_eq]
  have htask : (s.removeEntry d i).task = s.task := by rw [removeEntry_eq]
  have hmount : (s.removeEntry d i).mount = s.mount := by rw [removeEntry_eq]
  have hrd : s.root ≠ d := by
    rintro rfl
    have h := hs.rootParent
    rw [(hs.child p s.root hd).2.2.1] at h
    exact nomatch h
  have hloc : ∀ {y e}, (s.removeEntry d i).locate s.root y = some e ↔
      s.locate s.root y = some e ∧ ¬ x <:+ y :=
    locate_removeEntry hs.toWf hd hs.rootParent hx
  -- What a task holds is not below the entry.
  have hkeep : ∀ t e, s.Holds t e → ∃ y, s.At y e ∧ ¬ x <:+ y := by
    intro t e he
    obtain ⟨y, hy⟩ := hs.held t e he
    refine ⟨y, hy, fun hsuff => huse ⟨t, y, ?_, hsuff⟩⟩
    rcases he with he | he
    · left
      show (s.task t).pwd.map s.posOf = some y
      rw [he, map_some, hs.posOf_eq hy.1]
    · right
      show (s.task t).root.map s.posOf = some y
      rw [he, map_some, hs.posOf_eq hy.1]
  have htree : RamfsTree (s.removeEntry d i) :=
    { toWf := hs.toWf.removeEntry hd
      rootParent := by
        obtain ⟨children, cache, parent, h, hparent⟩ := removeEntry_fields (i := i) hs.toWf hd s.root
        rw [hroot, h, hparent hrd]
        exact hs.rootParent
      rootNode := by
        rw [hroot, removeEntry_inode hs.toWf hd]
        exact hs.rootNode
      mounted := by
        intro e m hm
        obtain ⟨children, cache, parent, h, -⟩ := removeEntry_fields (i := i) hs.toWf hd e
        rw [h] at hm
        rw [hroot, hmount]
        exact hs.mounted e m hm
      held := by
        intro t e he
        unfold Holds at he
        rw [htask] at he
        obtain ⟨y, hy, hsuff⟩ := hkeep t e he
        refine ⟨y, ?_, ?_⟩
        · rw [hroot]
          exact hloc.mpr ⟨hy.1, hsuff⟩
        · rw [removeEntry_inode hs.toWf hd]
          exact hy.2 }
  refine ⟨htree, ?_⟩
  have hnode : (s.removeEntry d i).view.node = (s.view.erase x).node := by
    funext y
    show ((s.removeEntry d i).locate (s.removeEntry d i).root y).bind _ =
      if x <:+ y then none else (s.locate s.root y).bind _
    rw [hroot]
    split_ifs with hsuff
    · cases h : (s.removeEntry d i).locate s.root y with
      | none => rfl
      | some e => exact absurd hsuff (hloc.mp h).2
    · cases h : s.locate s.root y with
      | none =>
        cases h' : (s.removeEntry d i).locate s.root y with
        | none => rfl
        | some e =>
          rw [(hloc.mp h').1] at h
          exact nomatch h
      | some e =>
        rw [hloc.mpr ⟨h, hsuff⟩, bind_some, bind_some, removeEntry_inode hs.toWf hd]
  have hview := view_eq s (s.removeEntry d i) htask fun t e he => by
    obtain ⟨y, hy, hsuff⟩ := hkeep t e he
    rw [hs.posOf_eq hy.1]
    apply htree.posOf_eq
    rw [hroot]
    exact hloc.mpr ⟨hy.1, hsuff⟩
  rw [hnode, removeEntry_eq] at hview
  rw [removeEntry_eq]
  exact hview

lemma dLookup_removeEntry (hs : Wf s) {p d i : Nat} (hc : s.findChild p name = some d) :
    (s.removeEntry d i).dLookup p name = none := by
  obtain ⟨hd, hn⟩ := hs.findChild_eq_some.mp hc
  cases h : (s.removeEntry d i).dLookup p name with
  | none => rfl
  | some e =>
    obtain ⟨he, hen⟩ := (hs.removeEntry hd).dLookup_eq_some.mp h
    obtain ⟨he, hed⟩ := (mem_removeEntry_children hs hd).mp he
    rw [removeEntry_name hs hd] at hen
    exact absurd (hs.eq_of_name he hd (hen.trans hn.symm)) hed

lemma node_of_findChild (hx : s.At x dir) (name : CString) :
    s.view.node (name :: x) = (s.findChild dir name).bind fun c => (s.dentry c).inode := by
  show (s.locate s.root (name :: x)).bind _ = _
  rw [locate_cons_of_eq_some hx.1]

lemma InDir.isDir {dir i : Nat} (h : InDir s x dir i name) : s.IsDir dir := by
  unfold IsDir
  rw [h.inode, map_some, h.directory]

/-- The removal in a directory happens where the test of the tree that is seen allows it. -/
lemma ramfsRemove_sees {dir i : Nat} (hdir : InDir s x dir i name) {allowed : Nat → Nat → Bool}
    {P : Nat → Prop} [DecidablePred P]
    (hagree : ∀ c j, s.findChild dir name = some c → (s.dentry c).inode = some j →
      (allowed c j = true ↔ P j)) :
    (((s.view.node (name :: x)).bind fun j => if P j then some (name :: x) else none) = none ∧
        s.ramfsRemove dir name allowed = (false, s)) ∨
      (((s.view.node (name :: x)).bind fun j => if P j then some (name :: x) else none) =
          some (name :: x) ∧
        ∃ c j, s.findChild dir name = some c ∧
          s.ramfsRemove dir name allowed = (true, s.removeEntry c j)) := by
  have hnames : ¬ (name = dot ∨ name = dotDot ∨ ¬ s.IsDir dir) := by
    rintro (h | h | h)
    · exact hdir.ne_dot h
    · exact hdir.ne_dotDot h
    · exact h hdir.isDir
  have hnode := node_of_findChild hdir.at_dir name
  unfold ramfsRemove
  rw [if_neg hnames]
  cases hc : s.findChild dir name with
  | none =>
    rw [hnode, hc]
    exact .inl ⟨rfl, rfl⟩
  | some c =>
    rw [hc, bind_some] at hnode
    cases hj : (s.dentry c).inode with
    | none =>
      rw [hnode, hj]
      exact .inl ⟨rfl, by simp only [hj]⟩
    | some j =>
      rw [hj] at hnode
      rw [hnode, bind_some]
      simp only [hj]
      by_cases hP : P j
      · have hall := (hagree c j hc hj).mpr hP
        rw [if_pos hP, if_pos hall]
        exact .inr ⟨rfl, c, j, rfl, rfl⟩
      · have hall : ¬ allowed c j = true := fun h => hP ((hagree c j hc hj).mp h)
        rw [if_neg hP, if_neg hall]
        exact .inl ⟨rfl, rfl⟩

lemma InDir.locate {dir i c : Nat} (hdir : InDir s x dir i name)
    (hc : s.findChild dir name = some c) : s.locate s.root (name :: x) = some c := by
  rw [locate_cons_of_eq_some hdir.at_dir.1, hc]

section

variable (hs : RamfsTree s)
variable (hclear : ∀ split, splitParent path = some split → s.view.lookup split.parent ≠ .astray)
include hs hclear

open Classical in
/-- What `vfs_unlink` and `vfs_rmdir` have in common: `after` comes to nothing. -/
lemma remove_mirrors {isDir : Bool}
    (huse : ∀ x, s.view.removable path isDir = some x → ¬ s.view.InUse x)
    (allowed : Vfs → Nat → Nat → Bool) (after : Vfs → Nat → Vfs)
    (hagree : ∀ {x i name dir}, s.view.parentDir path = some (x, i, name) →
      InDir s x dir i name →
      (s.view.inode i).checkAccess s.view.currentCred false true true ≠ false →
      ∀ c j, s.findChild dir name = some c → (s.dentry c).inode = some j →
        (allowed s c j = true ↔ s.view.IsTarget isDir (name :: x) j)) :
    Mirrors
      (match s.parentDir path with
      | (none, s) => (false, s)
      | (some (dir, pnode, name), s) =>
        if s.vfsCheckAccess pnode false true true = false then (false, s)
        else
          match s.ramfsRemove dir name (allowed s) with
          | (false, s) => (false, s)
          | (true, s) =>
            match s.dLookup dir name with
            | none => (true, s)
            | some child => (true, after s child))
      (s.view.remove path isDir) := by
  unfold FileTree.remove
  rcases parentDir_cases hs hclear with ⟨hnone, s', hprobed, hparent⟩ |
    ⟨x, i, name, dir, hsome, hparent, hdir⟩
  · rw [hparent, FileTree.removable, hnone]
    exact hprobed.mirrors false
  · rw [FileTree.removable_of_parentDir hsome] at huse ⊢
    rw [hparent]
    simp only
    rw [vfsCheckAccess_eq]
    by_cases haccess : (s.view.inode i).checkAccess s.view.currentCred false true true = false
    · rw [if_pos haccess, if_pos haccess]
      exact (Probed.refl hs).mirrors false
    · rw [if_neg haccess] at huse
      rw [if_neg haccess, if_neg haccess]
      rcases ramfsRemove_sees hdir (hagree hsome hdir haccess) with ⟨hnone, heq⟩ |
        ⟨hyes, c, j, hc, heq⟩
      · rw [hnone, heq]
        exact (Probed.refl hs).mirrors false
      · rw [hyes] at huse ⊢
        rw [heq]
        have hmem := (hs.findChild_eq_some.mp hc).1
        obtain ⟨htree, hview⟩ := hs.removeEntry (i := j) hmem (hdir.locate hc) (huse _ rfl)
        simp only [dLookup_removeEntry hs.toWf hc]
        exact ⟨rfl, htree, hview⟩

lemma vfsUnlink_mirrors
    (huse : ∀ x, s.view.removable path false = some x → ¬ s.view.InUse x) :
    Mirrors (s.vfsUnlink path) (s.view.remove path false) := by
  refine remove_mirrors hs hclear huse
    (fun s _ j => decide ((s.inode j).type ≠ .directory)) _ fun {x _ name _} _ _ _ c j _ _ => ?_
  show _ ↔ false = decide ((s.inode j).type = .directory) ∧ _
  by_cases htype : (s.inode j).type = .directory
  · simp [htype]
  · simp [htype]

open Classical in
lemma vfsRmdir_mirrors
    (huse : ∀ x, s.view.removable path true = some x → ¬ s.view.InUse x)
    (hbare : ∀ x d, s.view.removable path true = some x → s.locate s.root x = some d →
      (s.dentry d).children = []) :
    Mirrors (s.vfsRmdir path) (s.view.remove path true) := by
  refine remove_mirrors hs hclear huse
    (fun s c j => decide ((s.inode j).type = .directory ∧ (s.dentry c).children = [])) _
    fun {x i name dir} hsome hdir haccess c j hc hj => ?_
  rw [FileTree.removable_of_parentDir hsome, if_neg haccess] at hbare
  have hloc := hdir.locate hc
  have hnode : s.view.node (name :: x) = some j := by rw [view_node_of_locate hloc, hj]
  rw [decide_eq_true_iff]
  constructor
  · rintro ⟨htype, hchildren⟩
    refine ⟨(decide_eq_true htype).symm, fun _ m => ?_⟩
    show (s.locate s.root (m :: name :: x)).bind _ = none
    rw [locate_cons_of_eq_some hloc, findChild, hchildren]
    rfl
  · intro hP
    refine ⟨of_decide_eq_true hP.1.symm, hbare (name :: x) c ?_ hloc⟩
    rw [hnode, bind_some, if_pos hP]

end

end

/-! ## Lookup below the root -/

section

variable {s : Vfs}

lemma vfsLookupChild_eq (hs : RamfsTree s) {p : Nat} (hx : s.At x p) (hname : name ≠ []) :
    s.vfsLookupChild p name = (s.findChild p name, s) := by
  unfold vfsLookupChild
  rw [if_neg hname, hs.dLookup_eq]
  cases hc : s.findChild p name with
  | some c => rfl
  | none =>
    obtain ⟨i, hi⟩ := ne_none_iff_exists'.mp hx.2
    have hl : s.dLookup p name = none := by rw [hs.dLookup_eq, hc]
    simp only [hi, bind_some, hs.forest.finddirFs_eq_none hi hl]

/-- The walk finds the directory of the last name where it is seen. -/
lemma walkParentAt_sees (hs : RamfsTree s) (fuel : Nat) {curr : Nat}
    (hx : s.At x curr) (p : CString) :
    (walkParentAt false fuel s curr p = (none, s) ∧ s.view.resolveParts fuel x p = none) ∨
      ∃ parent leaf y, walkParentAt false fuel s curr p = (some (parent, leaf), s) ∧
        s.At y parent ∧ leaf ≠ [] ∧ s.view.resolveParts fuel x p = s.view.node (leaf :: y) := by
  induction fuel generalizing x curr p with
  | zero => exact .inl ⟨rfl, rfl⟩
  | succ fuel ih =>
    unfold walkParentAt FileTree.resolveParts
    split
    · split_ifs with hleaf
      · exact .inl ⟨rfl, rfl⟩
      · exact .inr ⟨curr, p, x, rfl, hx, fun h => hleaf (.inl h), rfl⟩
    · by_cases hpart : part p = []
      · rw [if_pos hpart, if_pos hpart]
        exact .inl ⟨rfl, rfl⟩
      · rw [if_neg hpart, if_neg hpart, vfsLookupChild_eq hs hx hpart,
          node_of_findChild hx (part p)]
        simp only [Bool.false_eq_true, and_false, if_false]
        cases hc : s.findChild curr (part p) with
        | none => exact .inl ⟨rfl, rfl⟩
        | some c =>
          simp only [bind_some]
          cases hi : (s.dentry c).inode with
          | none =>
            have hdir : ¬ s.IsDir c := by
              unfold IsDir
              rw [hi]
              exact nofun
            rw [if_neg hdir]
            exact .inl ⟨rfl, rfl⟩
          | some i =>
            have hdir : s.IsDir c ↔ (s.view.inode i).type = .directory := by
              unfold IsDir
              rw [hi, map_some, some_inj]
              rfl
            have hat : s.At (part p :: x) c := by
              refine ⟨?_, by rw [hi]; exact some_ne_none i⟩
              rw [locate_cons_of_eq_some hx.1, hc]
            rw [bind_some]
            by_cases htype : (s.view.inode i).type = .directory
            · rw [if_pos (hdir.mpr htype), if_pos htype]
              exact ih hat _
            · rw [if_neg (fun h => htype (hdir.mp h)), if_neg htype]
              exact .inl ⟨rfl, rfl⟩

lemma vfsResolveAt_eq (hs : RamfsTree s) (path : CString) :
    s.vfsResolveAt s.root path = (s.view.resolveAt path, s) := by
  unfold vfsResolveAt vfsWalkParentAt FileTree.resolveAt
  split_ifs with hpath
  · rfl
  · rcases walkParentAt_sees hs (path.length + 1) hs.at_root path with ⟨hwalk, hnone⟩ |
      ⟨parent, leaf, y, hwalk, hat, hleaf, hnode⟩
    · rw [hwalk, hnone]
    · rw [hwalk, hnode, node_of_findChild hat leaf]
      simp only [vfsLookupChild_eq hs hat hleaf]

end

/-! ## All calls -/

/-- A call, or the scheduler that lets another task run. -/
inductive Op where
  | resolve (path : CString)
  | resolveAt (path : CString)
  | openFile (path : CString) (creat trunc : Bool)
  | mkdir (path : CString)
  | symlink (target path : CString)
  | unlink (path : CString)
  | rmdir (path : CString)
  | schedule (next : Option Nat)

/-- What a call returns; for an open file, its inode. -/
inductive Reply where
  | status (ok : Bool)
  | node (i : Option Nat)
  | nothing
  deriving DecidableEq

def exec (s : Vfs) : Op → Reply × Vfs
  | .resolve path => ((.node (s.vfsResolve path).1), (s.vfsResolve path).2)
  | .resolveAt path => (.node (s.vfsResolveAt s.root path).1, (s.vfsResolveAt s.root path).2)
  | .openFile path creat trunc =>
    let (f, s) := s.vfsOpen path creat trunc
    (.node (f.bind s.fileInode), s)
  | .mkdir path => (.status (s.vfsMkdir path).1, (s.vfsMkdir path).2)
  | .symlink target path => (.status (s.vfsSymlink target path).1, (s.vfsSymlink target path).2)
  | .unlink path => (.status (s.vfsUnlink path).1, (s.vfsUnlink path).2)
  | .rmdir path => (.status (s.vfsRmdir path).1, (s.vfsRmdir path).2)
  | .schedule next => (.nothing, { s with current := next })

/--
The paths of a call do not turn back at a missing name, it removes no directory in
which a task works, and a directory it removes has no negative entries.
-/
def OpOk (s : Vfs) : Op → Prop
  | .resolve path | .openFile path _ _ | .mkdir path | .symlink _ path => s.view.Clear path
  | .unlink path =>
    s.view.Clear path ∧ ∀ x, s.view.removable path false = some x → ¬ s.view.InUse x
  | .rmdir path =>
    s.view.Clear path ∧ ∀ x, s.view.removable path true = some x → ¬ s.view.InUse x ∧
      ∀ d, s.locate s.root x = some d → (s.dentry d).children = []
  | .resolveAt _ | .schedule _ => True

end Vfs

/-- The calls on a tree without a cache. -/
noncomputable def FileTree.exec (t : FileTree) : Vfs.Op → Vfs.Reply × FileTree
  | .resolve path => (.node (t.resolve path), t)
  | .resolveAt path => (.node (t.resolveAt path), t)
  | .openFile path creat trunc =>
    (.node (t.openFile path creat trunc).1, (t.openFile path creat trunc).2)
  | .mkdir path => (.status (t.mkdir path).1, (t.mkdir path).2)
  | .symlink target path => (.status (t.symlink target path).1, (t.symlink target path).2)
  | .unlink path => (.status (t.remove path false).1, (t.remove path false).2)
  | .rmdir path => (.status (t.remove path true).1, (t.remove path true).2)
  | .schedule next => (.nothing, { t with current := next })

namespace Vfs

lemma Mirrors.map {α β : Type} {r : α × Vfs} {t : α × FileTree} (h : Mirrors r t) (f : α → β) :
    Mirrors (f r.1, r.2) (f t.1, t.2) :=
  ⟨congrArg f h.reply, h.tree, h.view⟩

lemma exec_sees {s : Vfs} (hs : RamfsTree s) {op : Op} (hok : s.OpOk op) :
    Mirrors (s.exec op) (s.view.exec op) := by
  cases op with
  | resolve path =>
    have hprobed := vfsResolve_probed hs path
    exact ⟨congrArg Reply.node (vfsResolve_sees hs hok.1), hprobed.tree, hprobed.view⟩
  | resolveAt path =>
    have heq := vfsResolveAt_eq hs path
    show Mirrors (Reply.node (s.vfsResolveAt s.root path).1, (s.vfsResolveAt s.root path).2) _
    rw [heq]
    exact (Probed.refl hs).mirrors _
  | openFile path creat trunc => exact (vfsOpen_mirrors hs creat trunc hok).map Reply.node
  | mkdir path => exact (vfsMkdir_mirrors hs hok.2).map Reply.status
  | symlink target path => exact (vfsSymlink_mirrors hs hok.2).map Reply.status
  | unlink path => exact (vfsUnlink_mirrors hs hok.1.2 hok.2).map Reply.status
  | rmdir path =>
    refine (vfsRmdir_mirrors hs hok.1.2 (fun x hx => (hok.2 x hx).1) ?_).map Reply.status
    exact fun x d hx => (hok.2 x hx).2 d
  | schedule next =>
    have hsim : Similar s { s with current := next } :=
      { dentry := fun d => ⟨(s.dentry d).refcount, rfl⟩
        dentryCount := rfl
        root := rfl
        mount := rfl
        task := rfl
        answers := rfl
        inodeCount := le_refl _ }
    exact ⟨rfl, hsim.tree hs, hsim.view hs⟩

end Vfs
end LiteKernel.Fs
