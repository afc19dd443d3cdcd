import LiteKernel.Fs.FileRefs
import LiteKernel.Fs.LookupFrame
import LiteKernel.Fs.LookupPurity
import Mathlib.Data.Set.Card

/-!
# The counts of open files

The count of a file is to be the number of descriptors that point to it. Lookups touch neither
files nor descriptors. A call that opens a file gives it one descriptor, unless the table is full.

Main results:

- Theorem `file_counts`: the counts are right in every run that never finds a table full and puts
  the standard descriptors in empty slots only.
- Theorem `full_table_leaks`: a file that nobody has open.
-/

namespace LiteKernel.Fs

open Function Lib List Option Set

namespace Vfs

variable {s s' s'' : Vfs}

/-! ## What lookups keep -/

/-- Files, descriptors and the running task are the same. -/
structure SameFiles (s s' : Vfs) : Prop where
  file : s'.file = s.file
  fileCount : s'.fileCount = s.fileCount
  task : s'.task = s.task
  current : s'.current = s.current

namespace SameFiles

variable {s s' s'' : Vfs}

lemma refl (s : Vfs) : SameFiles s s :=
  ⟨rfl, rfl, rfl, rfl⟩

lemma trans (h : SameFiles s s') (h' : SameFiles s' s'') : SameFiles s s'' :=
  ⟨h'.file.trans h.file, h'.fileCount.trans h.fileCount, h'.task.trans h.task,
    h'.current.trans h.current⟩

lemma lookupFrame : LookupFrame SameFiles where
  refl := refl
  trans := trans
  kmalloc _ := ⟨rfl, rfl, rfl, rfl⟩
  setDentry _ _ _ _ := ⟨rfl, rfl, rfl, rfl⟩
  newDentry _ _ _ := ⟨rfl, rfl, rfl, rfl⟩
  inodes _ _ _ _ _ := ⟨rfl, rfl, rfl, rfl⟩

lemma vfsDentryPut (s : Vfs) (d : Nat) : SameFiles s (s.vfsDentryPut d) := by
  unfold Vfs.vfsDentryPut
  simp only
  repeat' split
  all_goals exact ⟨rfl, rfl, rfl, rfl⟩

lemma dgetOpt (s : Vfs) (d : Option Nat) : SameFiles s (s.dgetOpt d) := by
  cases d with
  | none => exact refl s
  | some d => exact ⟨rfl, rfl, rfl, rfl⟩

end SameFiles

/-- A new file with a count of one, to which no descriptor points yet. -/
structure AddsFile (s s' : Vfs) : Prop where
  file : ∃ d, s'.file = update s.file s.fileCount ⟨d, 1⟩
  fileCount : s'.fileCount = s.fileCount + 1
  task : s'.task = s.task
  current : s'.current = s.current

lemma AddsFile.trans_same (h : AddsFile s s') (h' : SameFiles s' s'') :
    AddsFile s s'' where
  file := by
    obtain ⟨d, hd⟩ := h.file
    exact ⟨d, h'.file.trans hd⟩
  fileCount := h'.fileCount.trans h.fileCount
  task := h'.task.trans h.task
  current := h'.current.trans h.current

lemma SameFiles.trans_adds (h : SameFiles s s') (h' : AddsFile s' s'') :
    AddsFile s s'' where
  file := by
    obtain ⟨d, hd⟩ := h'.file
    exact ⟨d, by rw [hd, h.file, h.fileCount]⟩
  fileCount := by rw [h'.fileCount, h.fileCount]
  task := h'.task.trans h.task
  current := h'.current.trans h.current

/-- What a call that opens a file returns: nothing, or the file it has made. -/
def Opens (s : Vfs) (r : Option Nat × Vfs) : Prop :=
  (r.1 = none ∧ SameFiles s r.2) ∨ (r.1 = some s.fileCount ∧ AddsFile s r.2)

lemma vfsOpenDentry_files (s : Vfs) (d : Nat) : s.Opens (s.vfsOpenDentry d) := by
  unfold vfsOpenDentry
  split
  · exact .inl ⟨rfl, SameFiles.refl s⟩
  · simp only
    split
    · exact .inr ⟨rfl, ⟨⟨d, rfl⟩, rfl, rfl, rfl⟩⟩
    · exact .inl ⟨rfl, ⟨rfl, rfl, rfl, rfl⟩⟩

lemma vfsOpen_files (s : Vfs) (path : CString) (creat trunc : Bool) :
    s.Opens (s.vfsOpen path creat trunc) := by
  have hentry := SameFiles.lookupFrame.openEntry s path creat
  unfold vfsOpen
  rcases he : s.openEntry path creat with ⟨found, s'⟩
  rw [he] at hentry
  cases found with
  | none => exact .inl ⟨rfl, hentry⟩
  | some e =>
    obtain ⟨d, node⟩ := e
    simp only
    split
    · exact .inl ⟨rfl, hentry⟩
    · rcases ho : s'.vfsOpenDentry d with ⟨opened, s''⟩
      have hopen := vfsOpenDentry_files s' d
      rw [ho] at hopen
      rcases hopen with ⟨hnone, hsame⟩ | ⟨hsome, hadds⟩
      · cases hnone
        exact .inl ⟨rfl, hentry.trans hsame⟩
      · cases hsome
        have hall := hentry.trans_adds hadds
        refine .inr ?_
        simp only
        rw [hentry.fileCount]
        split
        · exact ⟨rfl, ⟨hall.file, hall.fileCount, hall.task, hall.current⟩⟩
        · exact ⟨rfl, hall⟩

lemma fileOpenNode_files {node : Nat} {r : Option Nat × Vfs} (h : s.fileOpenNode node = some r) :
    s.Opens r := by
  have halloc := SameFiles.lookupFrame.dAlloc s none []
  unfold fileOpenNode vfsDentryGet at h
  rcases hd : s.dAlloc none [] with ⟨found, s'⟩
  rw [hd] at halloc h
  cases found with
  | none => exact nomatch h
  | some d =>
    simp only [some_inj] at h
    have hset : SameFiles s (s'.setDentry d fun e => { e with inode := some node }) :=
      ⟨halloc.file, halloc.fileCount, halloc.task, halloc.current⟩
    have hput := SameFiles.vfsDentryPut
      ((s'.setDentry d fun e => { e with inode := some node }).vfsOpenDentry d).2 d
    rw [← h]
    rcases vfsOpenDentry_files (s'.setDentry d fun e => { e with inode := some node }) d with
      ⟨hnone, hsame⟩ | ⟨hsome, hadds⟩
    · exact .inl ⟨hnone, (hset.trans hsame).trans hput⟩
    · exact .inr ⟨hsome.trans (congrArg some hset.fileCount), (hset.trans_adds hadds).trans_same hput⟩

/-! ## Descriptors -/

/-- The descriptors, of all tasks, that point to a file. -/
def holders (s : Vfs) (f : Nat) : Set (Nat × Nat) :=
  {p | slot s.task p = some f}

/-- The count of every file is the number of its descriptors. -/
structure Accounted (s : Vfs) : Prop where
  tables : ∀ t, (s.task t).fd.length = taskFdMax
  bound : ∀ p f, slot s.task p = some f → f < s.fileCount
  finite : ∀ f, (s.holders f).Finite
  count : ∀ f < s.fileCount, (s.file f).refcount = (s.holders f).ncard

lemma slot_setSlot_eq {p : Nat × Nat} (hp : p.2 < (s.task p.1).fd.length) (x : Option Nat) :
    slot (s.setSlot p x).task = update (slot s.task) p x := by
  funext q
  by_cases hq : q = p
  · subst hq
    rw [update_self]
    unfold slot setSlot
    rw [setTask_self]
    simp [hp]
  · rw [update_of_ne hq, slot_setSlot_of_ne s hq]

lemma setSlot_fd_length (s : Vfs) (p : Nat × Nat) (x : Option Nat) (t : Nat) :
    ((s.setSlot p x).task t).fd.length = (s.task t).fd.length := by
  unfold setSlot
  by_cases ht : t = p.1
  · rw [ht, setTask_self, length_set]
  · rw [setTask_of_ne s ht]

namespace Accounted

variable {s s' : Vfs}
variable {console dst i t : Nat} {p : Nat × Nat}

section

variable (h : Accounted s)
include h

lemma congr_fd (hfile : s'.file = s.file) (hcount : s'.fileCount = s.fileCount)
    (hfd : ∀ t, (s'.task t).fd = (s.task t).fd) : Accounted s' := by
  have hslot : slot s'.task = slot s.task := by
    funext p
    rw [slot, slot, hfd]
  refine ⟨?_, ?_, ?_, ?_⟩
  · intro t
    rw [hfd]
    exact h.tables t
  · intro p f hp
    rw [hslot] at hp
    rw [hcount]
    exact h.bound p f hp
  · intro f
    unfold holders
    rw [hslot]
    exact h.finite f
  · intro f hf
    unfold holders
    rw [hslot, hfile]
    rw [hcount] at hf
    exact h.count f hf

lemma congr (hsame : SameFiles s s') : Accounted s' :=
  h.congr_fd hsame.file hsame.fileCount fun t => by rw [hsame.task]

/-- One descriptor is changed, and the counts of the two files with it. -/
lemma change {x : Option Nat} (hp : p.2 < taskFdMax)
    (htask : s'.task = (s.setSlot p x).task) (hle : s.fileCount ≤ s'.fileCount)
    (hx : ∀ f, x = some f → f < s'.fileCount)
    (hcount : ∀ f < s'.fileCount, (s'.file f).refcount + (if slot s.task p = some f then 1 else 0) =
      (s.holders f).ncard + if x = some f then 1 else 0) : Accounted s' := by
  have hslot : slot s'.task = update (slot s.task) p x := by
    rw [htask, slot_setSlot_eq (by rw [h.tables]; exact hp)]
  have hholders : ∀ f, s'.holders f =
      if x = some f then insert p (s.holders f) else s.holders f \ {p} := by
    intro f
    ext q
    show slot s'.task q = some f ↔ _
    rw [hslot]
    by_cases hq : q = p
    · subst hq
      rw [update_self]
      split
      case isTrue hxf => exact iff_of_true hxf (mem_insert q _)
      case isFalse hxf => exact iff_of_false hxf fun hmem => hmem.2 rfl
    · rw [update_of_ne hq]
      split
      · exact ⟨fun hf => .inr hf, fun hf => hf.resolve_left hq⟩
      · exact ⟨fun hf => ⟨hf, hq⟩, fun hf => hf.1⟩
  refine ⟨?_, ?_, ?_, ?_⟩
  · intro t
    rw [htask, setSlot_fd_length]
    exact h.tables t
  · intro q f hq
    rw [hslot] at hq
    rw [update_apply] at hq
    split_ifs at hq with hqp
    · exact hx f hq
    · exact lt_of_lt_of_le (h.bound q f hq) hle
  · intro f
    rw [hholders]
    split
    · exact (h.finite f).insert p
    · exact (h.finite f).subset sdiff_subset
  · intro f hf
    have hnum := hcount f hf
    have hmem : p ∈ s.holders f ↔ slot s.task p = some f := Iff.rfl
    rw [hholders]
    by_cases hxf : x = some f
    · rw [if_pos hxf] at hnum ⊢
      split_ifs at hnum with hpf
      · rw [insert_eq_of_mem (hmem.mpr hpf)]
        omega
      · rw [ncard_insert_of_notMem (fun hm => hpf (hmem.mp hm)) (h.finite f)]
        omega
    · rw [if_neg hxf] at hnum ⊢
      split_ifs at hnum with hpf
      · have hcard := ncard_sdiff_singleton_add_one (hmem.mpr hpf) (h.finite f)
        omega
      · rw [sdiff_singleton_eq_self (fun hm => hpf (hmem.mp hm))]
        omega

lemma holders_new : s.holders s.fileCount = ∅ := by
  refine eq_empty_of_forall_notMem ?_
  intro p hp
  exact absurd (h.bound p _ hp) (lt_irrefl _)

lemma install (hadds : AddsFile s s') (hp : p.2 < taskFdMax)
    (hempty : slot s.task p = none) : Accounted (s'.setSlot p (some s.fileCount)) := by
  obtain ⟨d, hfile⟩ := hadds.file
  have htask : (s'.setSlot p (some s.fileCount)).task = (s.setSlot p (some s.fileCount)).task := by
    show update s'.task _ _ = update s.task _ _
    rw [hadds.task]
  have hcount : (s'.setSlot p (some s.fileCount)).fileCount = s.fileCount + 1 := hadds.fileCount
  refine h.change hp htask ?_ ?_ ?_
  · omega
  · intro f hf
    cases hf
    omega
  · intro f hf
    rw [hempty, if_neg (fun heq => nomatch heq)]
    show (s'.file f).refcount + 0 = _
    rw [hfile]
    by_cases hnew : f = s.fileCount
    · subst hnew
      rw [update_self, if_pos rfl, h.holders_new, ncard_empty]
    · rw [update_of_ne hnew, if_neg (fun heq => hnew (some_inj.mp heq).symm)]
      exact h.count f (by omega)

lemma closeSlot (hp : p.2 < taskFdMax) : Accounted (s.closeSlot p) := by
  unfold Vfs.closeSlot
  cases hslot : slot s.task p with
  | none => exact h
  | some f =>
    have hf := h.bound p f hslot
    have hpos : 0 < (s.holders f).ncard := (ncard_pos (h.finite f)).mpr ⟨p, hslot⟩
    -- the count goes down by one, whether or not the file is freed
    have hclose : ∀ g, ((s.vfsClose f).file g).refcount =
        (s.file g).refcount - if g = f then 1 else 0 := by
      intro g
      unfold vfsClose
      have hput := (SameFiles.vfsDentryPut s (s.file f).dentry).file
      by_cases hg : g = f
      · subst hg
        rw [if_pos rfl]
        split
        · rw [setFile_self]
        · rw [setFile_self]
          show 0 = (s.file g).refcount - 1
          omega
      · rw [if_neg hg]
        split
        · rw [setFile_of_ne s hg]
          rfl
        · rw [setFile_of_ne _ hg, hput]
          rfl
    have htask : (s.vfsClose f).task = s.task := by
      unfold vfsClose
      split
      · rfl
      · exact (SameFiles.vfsDentryPut s (s.file f).dentry).task
    have hfileCount : (s.vfsClose f).fileCount = s.fileCount := by
      unfold vfsClose
      split
      · rfl
      · exact (SameFiles.vfsDentryPut s (s.file f).dentry).fileCount
    refine h.change (x := none) hp ?_ (le_of_eq hfileCount.symm) (fun _ hx => nomatch hx) ?_
    · show update (s.vfsClose f).task _ _ = update s.task _ _
      rw [htask]
    · intro g hg
      have hg' : g < s.fileCount := hfileCount ▸ hg
      show ((s.vfsClose f).file g).refcount + _ = _
      rw [hclose, h.count g hg', hslot, if_neg (fun heq : none = some g => nomatch heq)]
      by_cases hgf : g = f
      · subst hgf
        rw [if_pos rfl, if_pos rfl]
        omega
      · rw [if_neg hgf, if_neg (fun heq => hgf (some_inj.mp heq).symm)]
        omega

lemma filesCloseAll (t : Nat) : Accounted (s.filesCloseAll t) := by
  have hok : RunOk (fun s i => s.closeSlot (t, i)) (fun _ i => i < taskFdMax) s
      (List.range taskFdMax) := runOk_of_forall_mem (fun i hi _ => mem_range.mp hi) s
  exact run_invariant Accounted (fun _ _ hs hi => hs.closeSlot hi) h hok

lemma setDirs (t : Nat) {g : Task → Task} (hg : ∀ k, (g k).fd = k.fd) :
    Accounted (s.setTask t g) := by
  refine h.congr_fd rfl rfl ?_
  intro u
  by_cases hu : u = t
  · rw [hu, setTask_self, hg]
  · rw [setTask_of_ne s hu]

lemma put (d : Option Nat) : Accounted ((d.map s.vfsDentryPut).getD s) := by
  cases d with
  | none => exact h
  | some d => exact h.congr (SameFiles.vfsDentryPut s d)

lemma taskReleaseResources (t : Nat) : Accounted (s.taskReleaseResources t) := by
  unfold Vfs.taskReleaseResources
  have hpwd := ((h.filesCloseAll t).put ((s.filesCloseAll t).task t).pwd).setDirs t
    (g := fun k => { k with pwd := none }) fun _ => rfl
  exact (hpwd.put _).setDirs t fun _ => rfl

lemma cloneSlot (dst src : Nat) (hi : i < taskFdMax)
    (hempty : slot s.task (dst, i) = none) : Accounted (cloneSlot dst src s i) := by
  unfold Vfs.cloneSlot
  cases hslot : slot s.task (src, i) with
  | none => exact h
  | some f =>
    have hf := h.bound _ f hslot
    refine h.change hi rfl (le_refl _) ?_ ?_
    · intro g hg
      cases hg
      exact hf
    · intro g hg
      rw [hempty, if_neg (fun heq : none = some g => nomatch heq)]
      show ((s.setFile f fun e => { e with refcount := e.refcount + 1 }).file g).refcount + 0 = _
      by_cases hgf : g = f
      · subst hgf
        rw [setFile_self, if_pos rfl, ← h.count g hf]
      · rw [setFile_of_ne s hgf, if_neg (fun heq => hgf (some_inj.mp heq).symm)]
        exact h.count g hg

end

lemma slot_cloneSlot {src j : Nat} (hne : j ≠ i) :
    slot (Vfs.cloneSlot dst src s i).task (dst, j) = slot s.task (dst, j) := by
  unfold Vfs.cloneSlot
  split
  · rfl
  · exact slot_setSlot_of_ne (s.fileDup _) (fun heq => hne (congrArg Prod.snd heq)) _

lemma cloneSlots (h : Accounted s) (dst src : Nat) {l : List Nat} (hnodup : l.Nodup)
    (hl : ∀ i ∈ l, i < taskFdMax ∧ slot s.task (dst, i) = none) :
    Accounted (l.foldl (Vfs.cloneSlot dst src) s) := by
  induction l generalizing s with
  | nil => exact h
  | cons i l ih =>
    obtain ⟨hil, hnodup⟩ := nodup_cons.mp hnodup
    obtain ⟨hi, hempty⟩ := hl i mem_cons_self
    refine ih (h.cloneSlot dst src hi hempty) hnodup ?_
    intro j hj
    have hji : j ≠ i := fun heq => hil (heq ▸ hj)
    obtain ⟨hlt, hnone⟩ := hl j (mem_cons_of_mem _ hj)
    exact ⟨hlt, (slot_cloneSlot hji).trans hnone⟩

lemma filesClone (h : Accounted s) (src : Nat)
    (hempty : ∀ i < taskFdMax, slot s.task (dst, i) = none) : Accounted (s.filesClone dst src) := by
  refine h.cloneSlots dst src nodup_range ?_
  intro i hi
  have hlt := mem_range.mp hi
  exact ⟨hlt, hempty i hlt⟩

lemma sysFork (h : Accounted s) {child : Nat} (hchild : (s.task child).fd = filesInit) :
    Accounted (s.sysFork child).2 := by
  unfold Vfs.sysFork
  split
  · exact h
  · rename_i parent _
    simp only
    split
    · exact h.congr ⟨rfl, rfl, rfl, rfl⟩
    · dsimp only
      set k := s.kmalloc.2.kmalloc.2.task parent
      set s1 := (s.kmalloc.2.kmalloc.2.dgetOpt k.pwd).dgetOpt k.root
      have hsame : SameFiles s s1 := by
        have hget := (SameFiles.dgetOpt s.kmalloc.2.kmalloc.2 k.pwd).trans
          (SameFiles.dgetOpt _ k.root)
        exact ⟨hget.file, hget.fileCount, hget.task, hget.current⟩
      have hfd : ∀ t, ((s1.setTask child fun _ => { k with fd := filesInit }).task t).fd =
          (s.task t).fd := by
        intro t
        by_cases ht : t = child
        · rw [ht, setTask_self, hchild]
        · rw [setTask_of_ne s1 ht, hsame.task]
      have hinit : Accounted (s1.setTask child fun _ => { k with fd := filesInit }) :=
        h.congr_fd hsame.file hsame.fileCount hfd
      have hempty : ∀ i < taskFdMax,
          slot (s1.setTask child fun _ => { k with fd := filesInit }).task (child, i) = none := by
        intro i hi
        rw [slot, hfd, hchild]
        simp [filesInit, hi]
      exact hinit.filesClone parent hempty

lemma unusedFd_spec {k : Task} (hi : unusedFd k = some i) :
    i < taskFdMax ∧ (k.fd[i]?).join = none := by
  have hmem := mem_of_find?_eq_some hi
  have hfree := List.find?_some hi
  rw [mem_range'_1] at hmem
  simp only [decide_eq_true_eq] at hfree
  refine ⟨?_, by rw [hfree]; rfl⟩
  omega

lemma sysOpen (h : Accounted s) (ht : s.current = some t) (hfree : unusedFd (s.task t) ≠ none)
    (path : CString) (creat trunc : Bool) : Accounted (s.sysOpen path creat trunc).2 := by
  unfold Vfs.sysOpen
  have hopens := vfsOpen_files s path creat trunc
  rcases ho : s.vfsOpen path creat trunc with ⟨found, s'⟩
  rw [ho] at hopens
  rcases hopens with ⟨hnone, hsame⟩ | ⟨hsome, hadds⟩
  · cases hnone
    exact h.congr hsame
  · cases hsome
    obtain ⟨i, hi⟩ := ne_none_iff_exists'.mp hfree
    obtain ⟨hlt, hempty⟩ := unusedFd_spec hi
    have hcurrent : s'.current = some t := hadds.current.trans ht
    have htask : s'.task = s.task := hadds.task
    simp only [getUnusedFd, hcurrent, htask, hi]
    exact h.install (p := (t, i)) hadds hlt hempty

lemma closeFd (h : Accounted s) (fd : Nat) : Accounted (s.closeFd fd).2 := by
  unfold Vfs.closeFd
  split
  · exact h
  · split
    case h_1 t f ht hf =>
      refine h.closeSlot ?_
      rw [fget, ht, bind_some] at hf
      have hget : ((s.task t).fd)[fd]? = some (some f) := join_eq_some_iff.mp hf
      obtain ⟨hlt, _⟩ := List.getElem?_eq_some_iff.mp hget
      rwa [h.tables] at hlt
    case h_2 => exact h

lemma installSlot (h : Accounted s) (hi : i < taskFdMax) (hempty : slot s.task (t, i) = none)
    (hs' : installSlot console t s i = some s') :
    Accounted s' ∧ ∀ j, j ≠ i → slot s'.task (t, j) = slot s.task (t, j) := by
  obtain ⟨r, hr, rfl⟩ := map_eq_some_iff.mp hs'
  have hother : r.2.task = s.task → ∀ j, j ≠ i →
      slot (r.2.setSlot (t, i) r.1).task (t, j) = slot s.task (t, j) := by
    intro htask j hj
    rw [slot_setSlot_of_ne r.2 (fun heq => hj (congrArg Prod.snd heq)), htask]
  rcases fileOpenNode_files hr with ⟨hnone, hsame⟩ | ⟨hsome, hadds⟩
  · refine ⟨?_, hother hsame.task⟩
    have hr' := h.congr hsame
    rw [hnone]
    refine hr'.change (x := none) hi rfl (le_refl _) (fun _ hx => nomatch hx) ?_
    intro f hf
    rw [hsame.task, hempty]
    exact congrArg (· + _) (hr'.count f hf)
  · refine ⟨?_, hother hadds.task⟩
    rw [hsome]
    exact h.install hadds hi hempty

lemma installStdio (h : Accounted s)
    (hempty : ∀ t, s.current = some t → ∀ i < 3, slot s.task (t, i) = none)
    (hs' : s.installStdio console = some s') : Accounted s' := by
  unfold Vfs.installStdio at hs'
  cases ht : s.current with
  | none =>
    rw [ht] at hs'
    cases hs'
    exact h
  | some t =>
    rw [ht] at hs'
    have hstd := hempty t ht
    obtain ⟨s1, h1, hs'⟩ := bind_eq_some_iff.mp hs'
    obtain ⟨s2, h2, hs'⟩ := bind_eq_some_iff.mp hs'
    obtain ⟨s3, h3, hs'⟩ := bind_eq_some_iff.mp hs'
    cases hs'
    obtain ⟨ha1, hkeep1⟩ := h.installSlot (by decide) (hstd 0 (by decide)) h1
    obtain ⟨ha2, hkeep2⟩ := ha1.installSlot (by decide)
      ((hkeep1 1 (by decide)).trans (hstd 1 (by decide))) h2
    have hlast : slot s2.task (t, 2) = none :=
      (hkeep2 2 (by decide)).trans ((hkeep1 2 (by decide)).trans (hstd 2 (by decide)))
    exact (ha2.installSlot (by decide) hlast h3).1

end Accounted

/-! ## Runs -/

/-- The calls that open and close files, in the task that runs. -/
inductive FileOp where
  | openFile (path : CString) (creat trunc : Bool)
  | close (fd : Nat)
  | fork (child : Nat)
  | exit
  | installStdio (console : Nat)
  /-- Another task runs. -/
  | schedule (next : Option Nat)

/--
The state after a call. The structure of a new task is none that is in use, so its table
is empty; a call that faults is the end of the run.
-/
def performFile (s : Vfs) : FileOp → Vfs
  | .openFile path creat trunc => (s.sysOpen path creat trunc).2
  | .close fd => (s.closeFd fd).2
  | .fork child => if (s.task child).fd = filesInit then (s.sysFork child).2 else s
  | .exit => (s.current.map s.taskReleaseResources).getD s
  | .installStdio console => (s.installStdio console).getD s
  | .schedule next => { s with current := next }

/-- What a call needs: a free descriptor, and no standard descriptors in their place. -/
def FileOk (s : Vfs) : FileOp → Prop
  | .openFile _ _ _ => ∃ t, s.current = some t ∧ unusedFd (s.task t) ≠ none
  | .installStdio _ => ∀ t, s.current = some t → ∀ i < 3, slot s.task (t, i) = none
  | _ => True

lemma Accounted.performFile (h : Accounted s) {op : FileOp} (hok : s.FileOk op) :
    Accounted (s.performFile op) := by
  cases op with
  | openFile path creat trunc =>
    obtain ⟨t, ht, hfree⟩ := hok
    exact h.sysOpen ht hfree path creat trunc
  | close fd => exact h.closeFd fd
  | fork child =>
    show Accounted (if (s.task child).fd = filesInit then (s.sysFork child).2 else s)
    split
    case isTrue hchild => exact h.sysFork hchild
    case isFalse => exact h
  | exit =>
    show Accounted ((s.current.map s.taskReleaseResources).getD s)
    cases s.current with
    | none => exact h
    | some t => exact h.taskReleaseResources t
  | installStdio console =>
    show Accounted ((s.installStdio console).getD s)
    cases hs' : s.installStdio console with
    | none => exact h
    | some s' => exact h.installStdio hok hs'
  | schedule next => exact h.congr_fd rfl rfl fun _ => rfl

lemma accounted_of_empty (htables : ∀ t, (s.task t).fd = filesInit)
    (hfiles : ∀ f < s.fileCount, (s.file f).refcount = 0) : Accounted s := by
  have hslot : ∀ p, slot s.task p = none := by
    intro p
    rw [slot, htables, filesInit, List.getElem?_replicate]
    split <;> rfl
  have hholders : ∀ f, s.holders f = ∅ := by
    intro f
    refine eq_empty_of_forall_notMem ?_
    intro p hp
    have hnone := hslot p
    rw [show slot s.task p = some f from hp] at hnone
    exact nomatch hnone
  refine ⟨?_, ?_, ?_, ?_⟩
  · intro t
    rw [htables]
    exact length_replicate
  · intro p f hp
    rw [hslot] at hp
    exact nomatch hp
  · intro f
    rw [hholders]
    exact finite_empty
  · intro f hf
    rw [hholders, ncard_empty]
    exact hfiles f hf

/--
In every run in which each open finds a free descriptor and the standard descriptors are
installed in a task that has none, the count of every file is the number of descriptors
that point to it; a file that has been freed has the count zero.
-/
theorem file_counts {s : Vfs} (htables : ∀ t, (s.task t).fd = filesInit)
    (hfiles : ∀ f < s.fileCount, (s.file f).refcount = 0) {ops : List FileOp}
    (hok : RunOk performFile FileOk s ops) :
    (∀ f < (run performFile s ops).fileCount, ((run performFile s ops).holders f).Finite ∧
        ((run performFile s ops).file f).refcount = ((run performFile s ops).holders f).ncard) ∧
      ∀ p f, slot (run performFile s ops).task p = some f → f < (run performFile s ops).fileCount := by
  have hrun : Accounted (run performFile s ops) :=
    run_invariant Accounted (fun _ _ hs hop => hs.performFile hop)
      (accounted_of_empty htables hfiles) hok
  exact ⟨fun f hf => ⟨hrun.finite f, hrun.count f hf⟩, hrun.bound⟩

/-- The tree after `vfs_init`, with tasks that have empty descriptor tables. -/
def bootTasks : Vfs :=
  { bootTree with task := fun _ => ⟨none, none, ⟨0, 0, 0o22⟩, filesInit⟩ }

/-- The root directory is opened twice, and the first descriptor is closed. -/
def openOpenClose : List FileOp :=
  [.openFile ['/'] false false, .openFile ['/'] false false, .close 3]

theorem openOpenClose_counts :
    ((run performFile bootTasks openOpenClose).holders 0).ncard = 0 ∧
      ((run performFile bootTasks openOpenClose).holders 1).ncard = 1 := by
  have hok : RunOk performFile FileOk bootTasks openOpenClose :=
    ⟨⟨0, rfl, by decide⟩, ⟨0, rfl, by decide +kernel⟩, trivial, trivial⟩
  have hall := file_counts (fun _ => rfl) (fun f hf => absurd hf (Nat.not_lt_zero f)) hok
  have hcount : (run performFile bootTasks openOpenClose).fileCount = 2 ∧
      ((run performFile bootTasks openOpenClose).file 0).refcount = 0 ∧
      ((run performFile bootTasks openOpenClose).file 1).refcount = 1 := by
    decide +kernel
  obtain ⟨hfiles, hzero, hone⟩ := hcount
  exact ⟨(hall.1 0 (by omega)).2.symm.trans hzero, (hall.1 1 (by omega)).2.symm.trans hone⟩

/-! ## A full table -/

lemma vfsOpen_root {i : Nat} (hroot : s.fsRoot = 0) (hinode : (s.dentry 0).inode = some i)
    (huid : s.currentCred.uid = 0) (hmem : s.answers 0 = true) :
    s.vfsOpen ['/'] false false =
      (some s.fileCount,
        { s.kmalloc.2.dget 0 with
          file := update s.file s.fileCount ⟨0, 1⟩, fileCount := s.fileCount + 1 }) := by
  have hpath : s.kernPath ['/'] false = (some 0, s) := by
    simp [kernPath, pathLookupat, pathInit, skipSlashes, hroot]
  have hentry : s.openEntry ['/'] false = (some (0, i), s) := by
    simp [openEntry, hpath, hinode]
  have hmay : (s.inode i).mayOpen s.currentCred false = true := by
    simp [Inode.mayOpen, Inode.checkAccess, huid]
  have hopen : s.vfsOpenDentry 0 = (some s.fileCount,
      { s.kmalloc.2.dget 0 with
        file := update s.file s.fileCount ⟨0, 1⟩, fileCount := s.fileCount + 1 }) := by
    simp [vfsOpenDentry, hinode, kmalloc, hmem, dget, setDentry]
  simp [vfsOpen, hentry, hmay, hopen]

/-- The descriptor table after `n` files have been opened. -/
def tableOf (n : Nat) : List (Option Nat) :=
  List.replicate 3 none ++ ((List.range n).map some ++ List.replicate (29 - n) none)

/-- A task that has opened the root directory `n` times. -/
structure Opened (n : Nat) (s : Vfs) : Prop where
  fileCount : s.fileCount = n
  current : s.current = some 0
  task : s.task = update bootTasks.task 0 { bootTasks.task 0 with fd := tableOf n }
  root : s.root = 0
  inode : (s.dentry 0).inode = some 0
  memory : s.answers = fun _ => true

lemma Opened.vfsOpen {n : Nat} (h : Opened n s) :
    ∃ s', s.vfsOpen ['/'] false false = (some n, s') ∧ s'.fileCount = n + 1 ∧
      s'.current = some 0 ∧ s'.task = s.task ∧ s'.root = 0 ∧ (s'.dentry 0).inode = some 0 ∧
      (s'.answers = fun _ => true) ∧ s'.file n = ⟨0, 1⟩ := by
  have hroot : s.fsRoot = 0 := by
    simp [fsRoot, h.current, h.task, h.root, bootTasks]
  have huid : s.currentCred.uid = 0 := by
    simp [currentCred, h.current, h.task, bootTasks]
  have hmem : s.answers 0 = true := by
    rw [h.memory]
  rw [vfsOpen_root hroot h.inode huid hmem, h.fileCount]
  refine ⟨_, rfl, rfl, h.current, rfl, h.root, ?_, ?_, ?_⟩
  · simp [kmalloc, dget, setDentry, h.inode]
  · simp [kmalloc, dget, setDentry, h.memory]
  · exact update_self ..

lemma tableOf_spec : ∀ n < 29,
    unusedFd { bootTasks.task 0 with fd := tableOf n } = some (3 + n) ∧
      (tableOf n).set (3 + n) (some n) = tableOf (n + 1) := by
  decide

lemma Opened.step {n : Nat} (h : Opened n s) (hn : n < 29) :
    Opened (n + 1) (s.performFile (.openFile ['/'] false false)) := by
  obtain ⟨hunused, hset⟩ := tableOf_spec n hn
  obtain ⟨s', hopen, hcount, hcurrent, htask, hroot, hinode, hmem, -⟩ := h.vfsOpen
  have htask0 : (s.task 0) = { bootTasks.task 0 with fd := tableOf n } := by
    rw [h.task, update_self]
  show Opened (n + 1) (s.sysOpen ['/'] false false).2
  simp only [sysOpen, hopen, getUnusedFd, hcurrent, htask, htask0, hunused]
  refine ⟨hcount, hcurrent, ?_, hroot, hinode, hmem⟩
  show update s'.task 0 { s'.task 0 with fd := (s'.task 0).fd.set (3 + n) (some n) } = _
  rw [htask, htask0]
  simp only [hset]
  rw [h.task, update_idem]

lemma opened_run (n : Nat) (hn : n ≤ 29) :
    Opened n (run performFile bootTasks (List.replicate n (.openFile ['/'] false false))) := by
  induction n with
  | zero => exact ⟨rfl, rfl, (update_eq_self ..).symm, rfl, rfl, rfl⟩
  | succ n ih =>
    rw [replicate_succ', run_append]
    exact (ih (by omega)).step (by omega)

/-- With a full table the file is made and no descriptor points to it. -/
lemma Opened.leak (h : Opened 29 s) (hs' : s' = s.performFile (.openFile ['/'] false false)) :
    s'.fileCount = 30 ∧ (s'.file 29).refcount = 1 ∧ s'.holders 29 = ∅ := by
  obtain ⟨s1, hopen, hcount, hcurrent, htask, -, -, -, hfile⟩ := h.vfsOpen
  have hunused : unusedFd { bootTasks.task 0 with fd := tableOf 29 } = none := by decide
  have htask0 : (s.task 0) = { bootTasks.task 0 with fd := tableOf 29 } := by
    rw [h.task, update_self]
  have hleft : s' = s1 := by
    rw [hs']
    show (s.sysOpen ['/'] false false).2 = s1
    simp only [sysOpen, hopen, getUnusedFd, hcurrent, htask, htask0, hunused]
  subst hleft
  refine ⟨hcount, congrArg File.refcount hfile, ?_⟩
  refine eq_empty_of_forall_notMem ?_
  rintro ⟨t, i⟩ hp
  have hget : (s'.task t).fd[i]? = some (some 29) := join_eq_some_iff.mp hp
  have hmem := mem_of_getElem? hget
  rw [htask, h.task] at hmem
  rw [update_apply] at hmem
  split_ifs at hmem with ht
  · exact absurd hmem (by decide)
  · exact absurd (eq_of_mem_replicate hmem) nofun

/-- One open more than a table has room for. -/
def thirtyOpens : List FileOp :=
  List.replicate 29 (.openFile ['/'] false false) ++ [.openFile ['/'] false false]

/-- The last of the files is open, and no descriptor points to it. -/
theorem full_table_leaks :
    (∀ t, (bootTasks.task t).fd = filesInit) ∧ bootTasks.fileCount = 0 ∧
      (run performFile bootTasks thirtyOpens).fileCount = 30 ∧
      ((run performFile bootTasks thirtyOpens).file 29).refcount = 1 ∧
      (run performFile bootTasks thirtyOpens).holders 29 = ∅ := by
  refine ⟨fun _ => rfl, rfl, ?_⟩
  refine (opened_run 29 (le_refl _)).leak ?_
  rw [thirtyOpens, run_append, run_cons, run_nil]

end Vfs
end LiteKernel.Fs
