import LiteKernel.Fs.Walk

/-!
# What a lookup or a creation leaves alone

Walking along a path and creating a name change the allocator, entries and inodes, and
nothing else; the mount of an entry stays, and a new entry has none.

Main results:

- Structure `LookupFrame`: a transitive relation that holds for such changes holds for every call
  that looks up or creates a name, in every state and whichever allocations fail.
-/

namespace LiteKernel.Fs

open Function

namespace Vfs

/-! ## Walks -/

/-- A relation between states that one component of a walk keeps. -/
structure WalkFrame (R : Vfs → Vfs → Prop) : Prop where
  refl : ∀ s, R s s
  trans : ∀ {s s' s''}, R s s' → R s' s'' → R s s''
  walkComponent : ∀ s curr part, R s (s.walkComponent curr part).2

namespace WalkFrame

variable {R : Vfs → Vfs → Prop}

section

variable (h : WalkFrame R)
include h

/-- What one component keeps is a rule for walks that asks nothing of the entries they visit. -/
lemma steps (s : Vfs) : WalkSteps (R s) (fun _ _ => True) where
  component _ hs _ := ⟨h.trans hs (h.walkComponent ..), fun _ _ => trivial, fun _ _ => trivial⟩
  parent _ _ := trivial
  cross _ _ := trivial
  start _ := ⟨trivial, trivial⟩

/-- The walk of `path_lookupat`, with its start and the mount it ends on. -/
lemma pathLookupat (s : Vfs) (name : CString) (dir : Bool) : R s (s.pathLookupat name dir).2 := by
  rw [pathLookupat_eq]
  exact ((h.steps s).walkPath (h.refl s) name).1

/-- The lookup of a path of the kernel. -/
lemma kernPath (s : Vfs) (name : CString) (dir : Bool) : R s (s.kernPath name dir).2 := by
  unfold Vfs.kernPath
  split
  · exact h.refl s
  · exact h.pathLookupat s name dir

/-- The lookup of the directory of a path. -/
lemma parentDir (s : Vfs) (path : CString) : R s (s.parentDir path).2 := by
  have hparent : R s (s.filenameParentat path).2 := by
    unfold filenameParentat
    split
    · exact h.refl s
    · exact h.pathLookupat s _ true
  unfold Vfs.parentDir
  rcases hp : s.filenameParentat path with ⟨found, s'⟩
  rw [hp] at hparent
  split
  case h_1 dir name s'' heq =>
    cases heq
    exact hparent
  case h_2 s'' _ heq =>
    cases heq
    exact hparent

end

end WalkFrame

/-! ## Lookups and creations -/

/-- A relation between states that the changes of a lookup or a creation keep. -/
structure LookupFrame (R : Vfs → Vfs → Prop) : Prop where
  refl : ∀ s, R s s
  trans : ∀ {s s' s''}, R s s' → R s' s'' → R s s''
  kmalloc : ∀ s, R s s.kmalloc.2
  setDentry : ∀ s d f, (∀ e : Dentry, (f e).mount = e.mount) → R s (s.setDentry d f)
  newDentry : ∀ s e, e.mount = none →
    R s { s with dentryCount := s.dentryCount + 1, dentry := update s.dentry s.dentryCount e }
  inodes : ∀ s inode inodeCount inodeFreed lastIno,
    R s { s with
      inode := inode, inodeCount := inodeCount, inodeFreed := inodeFreed, lastIno := lastIno }

namespace LookupFrame

variable {R : Vfs → Vfs → Prop}

/-! ### Entries -/

section

variable (h : LookupFrame R)
include h

/-- The hash table of a directory is made when its first child is inserted. -/
lemma dHashGetOrAlloc (s : Vfs) (p : Nat) : R s (s.dHashGetOrAlloc p).2 := by
  unfold Vfs.dHashGetOrAlloc
  split
  · exact h.refl s
  · simp only
    split
    · dsimp only
      refine h.trans (h.kmalloc s) (h.setDentry _ p _ ?_)
      exact fun _ => rfl
    · exact h.kmalloc s

lemma dHashInsert (s : Vfs) (d : Nat) : R s (s.dHashInsert d) := by
  unfold Vfs.dHashInsert
  split
  case h_1 p name _ _ =>
    have halloc := h.dHashGetOrAlloc s p
    rcases hg : s.dHashGetOrAlloc p with ⟨found, s'⟩
    rw [hg] at halloc
    cases found with
    | none => exact halloc
    | some table =>
      refine h.trans halloc (h.setDentry s' p _ ?_)
      exact fun _ => rfl
  case h_2 => exact h.refl s

/-- A new entry is linked to its parent and then hashed. -/
lemma dAlloc (s : Vfs) (parent : Option Nat) (name : CString) : R s (s.dAlloc parent name).2 := by
  have hmalloc : R s s.kmalloc.2.kmalloc.2 := h.trans (h.kmalloc s) (h.kmalloc _)
  unfold Vfs.dAlloc
  simp only
  split
  · cases parent with
    | none =>
      refine h.trans hmalloc (h.newDentry _ _ ?_)
      exact rfl
    | some p =>
      refine h.trans (h.trans hmalloc (h.newDentry _ _ ?_))
        (h.trans (h.setDentry _ p _ ?_) (h.dHashInsert _ _))
      · exact rfl
      · exact fun _ => rfl
  · exact h.kmalloc s

lemma walkComponent (s : Vfs) (curr : Nat) (part : CString) :
    R s (s.walkComponent curr part).2 := by
  unfold Vfs.walkComponent
  split
  · exact h.refl s
  · split
    · exact h.refl s
    · split
      · split
        · exact h.refl s
        · exact h.refl s
      · split
        · exact h.refl s
        · have halloc := h.dAlloc s (some curr) part
          simp only
          rcases hd : s.dAlloc (some curr) part with ⟨found, s'⟩
          rw [hd] at halloc
          cases found with
          | none => exact halloc
          | some next =>
            dsimp only
            refine h.trans halloc (h.setDentry s' next _ ?_)
            exact fun _ => rfl

/-- The steps of the dcache cover what a walk does: a component that is not found becomes an
entry without an inode. -/
lemma walkFrame : WalkFrame R :=
  ⟨h.refl, h.trans, h.walkComponent⟩

lemma kernPath (s : Vfs) (name : CString) (dir : Bool) : R s (s.kernPath name dir).2 :=
  h.walkFrame.kernPath s name dir

lemma parentDir (s : Vfs) (path : CString) : R s (s.parentDir path).2 :=
  h.walkFrame.parentDir s path

/-! ### Creations -/

/-- A new inode, or none if its allocation fails. -/
lemma ramfsGetInode (s : Vfs) (type : FileType) (mode : Nat) :
    R s (s.ramfsGetInode type mode).2 := by
  unfold Vfs.ramfsGetInode
  simp only
  split
  · have hino : R s s.kmalloc.2.getNextIno.2 := h.trans (h.kmalloc s) (h.inodes _ _ _ _ _)
    split
    · exact h.trans hino (h.inodes _ _ _ _ _)
    · split
      · exact h.trans (h.trans hino (h.kmalloc _)) (h.inodes _ _ _ _ _)
      · exact h.trans hino (h.kmalloc _)
  · exact h.kmalloc s

lemma ramfsCreateFile (s : Vfs) (dir : Nat) (name : CString) :
    R s (s.ramfsCreateFile dir name).2 := by
  unfold Vfs.ramfsCreateFile
  split
  · exact h.ramfsGetInode s _ _
  · exact h.refl s

lemma ramfsMkdirInode (s : Vfs) (dir : Nat) (name : CString) :
    R s (s.ramfsMkdirInode dir name).2 := by
  unfold Vfs.ramfsMkdirInode
  split
  · exact h.ramfsGetInode s _ _
  · exact h.refl s

/-- The created inode goes to the entry that the lookup has left, or to a new one. -/
lemma instantiate (s : Vfs) (dir : Nat) (name : CString) (created : Nat) :
    R s (s.instantiate dir name created).2 := by
  unfold Vfs.instantiate
  split
  · dsimp only
    refine h.setDentry s _ _ ?_
    exact fun _ => rfl
  · have halloc := h.dAlloc s (some dir) name
    rcases hd : s.dAlloc (some dir) name with ⟨found, s'⟩
    rw [hd] at halloc
    cases found with
    | none => exact halloc
    | some d =>
      dsimp only
      refine h.trans halloc (h.setDentry s' d _ ?_)
      exact fun _ => rfl

/-- `vfs_mkdir`, with each of its early returns. -/
lemma vfsMkdir (s : Vfs) (path : CString) : R s (s.vfsMkdir path).2 := by
  have hparent := h.parentDir s path
  unfold Vfs.vfsMkdir
  rcases hp : s.parentDir path with ⟨found, s'⟩
  rw [hp] at hparent
  cases found with
  | none => exact hparent
  | some e =>
    obtain ⟨dir, pnode, name⟩ := e
    simp only
    split
    · exact hparent
    · split
      · exact hparent
      · have hcreate := h.ramfsMkdirInode s' pnode name
        rcases hc : s'.ramfsMkdirInode pnode name with ⟨created, s''⟩
        rw [hc] at hcreate
        cases created with
        | none => exact h.trans hparent hcreate
        | some i => exact h.trans (h.trans hparent hcreate) (h.instantiate s'' dir name i)

/-- The entry that `sys_open` opens or creates. -/
lemma openEntry (s : Vfs) (path : CString) (creat : Bool) : R s (s.openEntry path creat).2 := by
  have hpath := h.kernPath s path false
  unfold Vfs.openEntry
  simp only
  split
  · exact hpath
  · split
    · exact hpath
    · have hparent := h.parentDir (s.kernPath path false).2 path
      rcases hp : (s.kernPath path false).2.parentDir path with ⟨found, s'⟩
      rw [hp] at hparent
      cases found with
      | none => exact h.trans hpath hparent
      | some e =>
        obtain ⟨dir, pnode, name⟩ := e
        have hcreate := h.ramfsCreateFile s' pnode name
        simp only
        rcases hc : s'.ramfsCreateFile pnode name with ⟨created, s''⟩
        rw [hc] at hcreate
        have hall := h.trans (h.trans hpath hparent) hcreate
        cases created with
        | none => exact hall
        | some i => exact h.trans hall (h.instantiate s'' dir name i)

end

end LookupFrame

end Vfs
end LiteKernel.Fs
