import LiteKernel.Fs.MountTransparency

/-!
# The working directory as a path

`task_get_cwd` goes up from the working directory and writes the names from the back. The root
of a mounted file system has no parent, and the loop ends there before it hops to the mountpoint.
The text leads back to the directory if the names lead to it from the root. In trees without
links only then: a walk that ends at the directory has come through its parents.

Main results:

- Lemma `Tidy.cwdLoop`: the text goes through the names below some entry.
- Lemma `Tidy.reached`: a walk through the names below an entry started there.
- Theorem `taskGetCwd_round_trip`: when the text of the working directory leads back to it.
- Theorem `mounted_cwd_lost`: the root of a mounted file system is lost.
-/

namespace LiteKernel.Fs.Vfs

open Function List Option

variable {s s' : Vfs} {d root : Nat} {cur out path w : CString}

def vfsChdir (s : Vfs) (path : CString) : Bool × Vfs :=
  match s.kernPath path true with
  | (none, s) => (false, s)
  | (some d, s) =>
    match (s.dentry d).inode, s.current with
    | some i, some t =>
      if (s.inode i).type ≠ .directory ∨ s.vfsCheckAccess i false false true = false then (false, s)
      else
        let s := ((s.task t).pwd.elim s s.vfsDentryPut).dget d
        (true, { s with task := update s.task t { s.task t with pwd := some d } })
    | _, _ => (false, s)

lemma vfsChdir_pwd (h : s.vfsChdir path = (true, s')) (hd : (s.kernPath path true).1 = some d) :
    ∃ t, s'.current = some t ∧ (s'.task t).pwd = some d := by
  unfold vfsChdir at h
  split at h
  · cases h
  · rename_i e s hkern
    rw [hkern] at hd
    cases hd
    split at h
    · rename_i i t hi hcur
      have hput : ((s.task t).pwd.elim s s.vfsDentryPut).current = s.current := by
        cases (s.task t).pwd with
        | none => rfl
        | some old =>
          simp only [elim_some, vfsDentryPut]
          split_ifs <;> rfl
      split_ifs at h
      · cases h
      · obtain ⟨-, rfl⟩ := Prod.mk.inj h
        exact ⟨t, hput.trans hcur, congrArg _ (update_self ..)⟩
    · cases h

/-- The loop of `task_get_cwd`, which has written `out` at the end of a buffer of 256 bytes. -/
def cwdLoop (s : Vfs) : Nat → Nat → CString → CString
  | 0, _, out => out
  | fuel + 1, d, out =>
    match (s.dentry d).parent with
    | none => out
    | some p =>
      if p = d then out
      else
        match s.mountedOn d with
        | some mp => cwdLoop s fuel mp out
        | none =>
          let name := (s.dentry d).name.getD []
          if 255 < out.length + name.length + 1 then out
          else cwdLoop s fuel p ('/' :: name ++ out)

/-- The end of `task_get_cwd`: no names are a slash, and two slashes at the start are one. -/
def cwdText : CString → CString
  | [] => ['/']
  | '/' :: '/' :: out => '/' :: out
  | out => out

def taskGetCwd (s : Vfs) (fuel : Nat) : CString :=
  (s.current.bind fun t => (s.task t).pwd).elim ['/'] fun d => cwdText (s.cwdLoop fuel d [])

/-- The entry is reached from the root through these names, without links and mounts. -/
inductive Reached (s : Vfs) : Nat → CString → Prop
  | root (h : (s.dentry s.fsRoot).parent = none) : Reached s s.fsRoot []
  | child {p d : Nat} {w name : CString} (h : Reached s p w) (hname : name ≠ [] ∧ '/' ∉ name)
      (hlen : name.length < 128) (hstep : s.stepTo p name = some d)
      (hentry : (s.dentry d).parent = some p ∧ (s.dentry d).name = some name ∧ p ≠ d)
      (hmount : (s.dentry d).mount = none) (hlink : s.readLink d = none) :
      Reached s d (w ++ '/' :: name)

lemma Reached.cwdLoop (h : s.Reached d w) (hlen : w.length + out.length ≤ 255) {fuel : Nat}
    (hfuel : w.length < fuel) : s.cwdLoop fuel d out = w ++ out := by
  induction h generalizing out fuel with
  | root h =>
    cases fuel with
    | zero => rfl
    | succ fuel => rw [cwdLoop, h, nil_append]
  | @child p d w name h hname hlen' hstep hentry hmount hlink ih =>
    rw [length_append, length_cons] at hlen hfuel
    cases fuel with
    | zero => omega
    | succ fuel =>
      have hroot : s.mountedOn d = none := by rw [mountedOn, hmount, bind_none]
      rw [cwdLoop, hentry.1]
      simp only [if_neg hentry.2.2, hroot, hentry.2.1, getD_some]
      rw [if_neg (by omega), ih (by simp; omega) (by omega), append_assoc]

/-- The first component of a pass. -/
lemma walkParts_name {e fuel : Nat} {name rest : CString} (hne : name ≠ []) (hslash : '/' ∉ name)
    (hrest : Behind rest) :
    walkParts root cur (fuel + 1) s e (skipSlashes ('/' :: (name ++ rest))) =
      if 128 ≤ name.length then (.failed, s)
      else
        match s.walkComponent e name with
        | (none, s) => (.failed, s)
        | (some next, s) =>
          match s.readLink (s.crossMount next) with
          | none => walkParts root cur fuel s (s.crossMount next) (skipSlashes rest)
          | some target =>
            (s.followLink root cur (name ++ rest) (s.crossMount next) target, s) := by
  have hslash' : ∀ c ∈ name, c ≠ '/' := fun c hc h => hslash (h ▸ hc)
  have hpart : part name = name := takeWhile_eq_self_iff.mpr (by simpa using hslash')
  have hafter : afterPart name = [] := dropWhile_eq_nil_iff.mpr (by simpa using hslash')
  have hskip : skipSlashes ('/' :: (name ++ rest)) = name ++ rest := by
    obtain ⟨c, name, rfl⟩ := exists_cons_of_ne_nil hne
    exact skipSlashes_cons (hslash' c mem_cons_self)
  rewrite [hskip, Vfs.walkParts, if_neg (append_ne_nil_of_left_ne_nil hne rest), part_append hrest,
    hpart, afterPart_append hrest, hafter, nil_append]
  rfl

lemma Reached.walkParts (h : s.Reached d w) {rest : CString} (hrest : Behind rest)
    (hcur : cur.head? ≠ some '/') {fuel : Nat} (hfuel : (w ++ rest).length ≤ fuel) :
    walkParts root cur fuel s s.fsRoot (skipSlashes (w ++ rest)) =
      walkParts root cur fuel s d (skipSlashes rest) := by
  induction h generalizing rest with
  | root h => rfl
  | @child p d w name h hname hlen hstep hentry hmount hlink ih =>
    rw [append_assoc, cons_append] at hfuel ⊢
    rw [ih (.inr ⟨name ++ rest, rfl⟩) hfuel]
    have hcross : s.crossMount d = d := by rw [crossMount, hmount]
    have hle := length_skipSlashes_le rest
    have hpos := length_pos_iff.mpr hname.1
    simp only [length_append, length_cons] at hfuel
    cases fuel with
    | zero => omega
    | succ fuel =>
      rw [walkParts_name hname.1 hname.2 hrest, if_neg (not_le.mpr hlen),
        walkComponent_of_stepTo hstep]
      simp only [hcross, hlink]
      exact walkParts_congr hcur hcur (by omega) (by omega)

lemma Reached.behind (h : s.Reached d w) : Behind w := by
  induction h with
  | root h => exact .inl rfl
  | @child p d w name h hname hlen hstep hentry hmount hlink ih =>
    rcases ih with rfl | ⟨x, rfl⟩
    · exact .inr ⟨name, rfl⟩
    · exact .inr ⟨x ++ '/' :: name, rfl⟩

lemma cwdText_spec (hw : Behind w) (hlen : w.length ≤ 255) : (cwdText w).length < 256 ∧
    (cwdText w).head? = some '/' ∧ skipSlashes (cwdText w) = skipSlashes w := by
  unfold cwdText
  split
  · exact ⟨by decide, rfl, rfl⟩
  · exact ⟨by simp at hlen ⊢; omega, rfl, rfl⟩
  · rcases hw with rfl | ⟨x, rfl⟩
    · contradiction
    · exact ⟨by omega, rfl, rfl⟩

lemma Reached.kernPath (h : s.Reached d w) (hlen : w.length ≤ 255) (hpath : path.head? = some '/')
    (hskip : skipSlashes path = skipSlashes w) : s.kernPath path false = (some d, s) := by
  have hle := length_skipSlashes_le w
  have hrel := skipSlashes_head w
  have hend : ∀ fuel e, Vfs.walkParts s.fsRoot (skipSlashes w) fuel s e [] = (.arrived e, s) := by
    rintro (- | fuel) e <;> rfl
  have hparts := @Reached.walkParts s d s.fsRoot _ w h [] (.inl rfl) hrel _
    (append_nil w ▸ le_refl w.length)
  rw [append_nil, show skipSlashes [] = [] from rfl, hend] at hparts
  have hinit : s.pathInit path = (s.fsRoot, skipSlashes w) := by rw [pathInit, if_pos hpath, hskip]
  have hwalk : s.walkPath path = (some d, s) := by
    rw [walkPath, hinit]
    dsimp only
    split_ifs with hnil
    · rw [hnil] at hparts hend
      rw [hend] at hparts
      cases hparts
      rfl
    · rw [linkPathWalk, if_neg (by omega), walkFrom, skipSlashes_eq_self hrel,
        walkParts_congr hrel hrel le_rfl hle, hparts]
  have hne : path ≠ [] := by
    rintro rfl
    cases hpath
  rw [Vfs.kernPath, if_neg hne, pathLookupat_eq, hwalk]
  rfl

/-! ## Where the text leads -/

/-- An entry and one above it, with the names on the way, the last one first. -/
inductive Under (s : Vfs) (top : Nat) : Nat → Pos → Prop
  | refl : Under s top top []
  | child {p d : Nat} {x : Pos} {name : CString} (h : Under s top p x)
      (hparent : (s.dentry d).parent = some p) (hne : p ≠ d)
      (hname : (s.dentry d).name = some name) : Under s top d (name :: x)

/-- A walk through existing entries. -/
inductive Walks (s : Vfs) (start : Nat) : Nat → Pos → Prop
  | refl : Walks s start start []
  | step {p next : Nat} {x : Pos} {name : CString} (h : Walks s start p x)
      (hstep : s.stepTo p name = some next) (hlen : name.length < 128) :
      Walks s start (s.crossMount next) (name :: x)

/-- The path through these names. -/
def pathOf (l : List CString) : CString :=
  l.flatMap fun name => '/' :: name

lemma behind_pathOf (l : List CString) : Behind (pathOf l) := by
  cases l with
  | nil => exact .inl rfl
  | cons n l => exact .inr ⟨n ++ pathOf l, rfl⟩

def ProperName (name : CString) : Prop :=
  name ≠ [] ∧ '/' ∉ name ∧ name ≠ dot ∧ name ≠ dotDot

/--
The entries are trees of `ramfs` with enough memory, without symbolic links; an entry with a
parent has a name of its own and is not the root of a mount.
-/
structure Tidy (s : Vfs) : Prop extends Wf s where
  links : ∀ d, s.readLink d = none
  name : ∀ d p, (s.dentry d).parent = some p →
    ∃ name, (s.dentry d).name = some name ∧ ProperName name
  fsRoot : (s.dentry s.fsRoot).parent = none ∧ s.fsRoot < s.dentryCount
  mount : ∀ d m, (s.dentry d).mount = some m →
    (s.dentry (s.mount m).root).parent = none ∧ (s.mount m).root < s.dentryCount

section

variable (h : s.Tidy)
include h

lemma Tidy.mountedOn {p : Nat} (hp : (s.dentry d).parent = some p) : s.mountedOn d = none := by
  unfold Vfs.mountedOn
  cases hm : (s.dentry d).mount with
  | none => rfl
  | some m =>
    rw [bind_some, if_neg]
    rintro rfl
    rw [(h.mount _ m hm).1] at hp
    cases hp

/-- The text goes through the names from some entry above the directory. -/
lemma Tidy.cwdLoop (hlen : out.length ≤ 255) (fuel : Nat) (d : Nat) :
    ∃ top x, s.Under top d x ∧ s.cwdLoop fuel d out = pathOf x.reverse ++ out ∧
      (pathOf x.reverse).length + out.length ≤ 255 := by
  induction fuel generalizing d out with
  | zero => exact ⟨d, [], .refl, rfl, by simpa [pathOf] using hlen⟩
  | succ fuel ih =>
    have hstop : ∃ top x, s.Under top d x ∧ out = pathOf x.reverse ++ out ∧
        (pathOf x.reverse).length + out.length ≤ 255 :=
      ⟨d, [], .refl, rfl, by simpa [pathOf] using hlen⟩
    rw [Vfs.cwdLoop]
    cases hp : (s.dentry d).parent with
    | none => exact hstop
    | some p =>
      obtain ⟨name, hname, -⟩ := h.name d p hp
      simp only [h.mountedOn hp, hname, getD_some]
      split_ifs with hself hfull
      · exact hstop
      · exact hstop
      · obtain ⟨top, x, hx, heq, hle⟩ := @ih ('/' :: name ++ out) (by simp; omega) p
        refine ⟨top, name :: x, .child hx hp hself hname, ?_, ?_⟩
        · rw [heq]
          simp [pathOf]
        · simp [pathOf] at hle ⊢
          omega

lemma Tidy.under_names {top : Nat} {x : Pos} (hx : s.Under top d x) : ∀ n ∈ x, ProperName n := by
  induction hx with
  | refl => exact fun n hn => absurd hn not_mem_nil
  | @child p d x name hx hparent hne hname ih =>
    obtain ⟨name', hname', hproper⟩ := h.name d p hparent
    rw [hname] at hname'
    cases hname'
    exact forall_mem_cons.mpr ⟨hproper, ih⟩

/-- A pass through proper names goes through existing entries, or ends at a new one. -/
lemma Tidy.walkParts {x : Pos} {l : List CString} {e : Nat} (hl : ∀ n ∈ l, ProperName n)
    (he : e < s.dentryCount) {start : Nat} (hw : s.Walks start e x) {fuel : Nat}
    (hfuel : (pathOf l).length ≤ fuel) :
    (walkParts root cur fuel s e (skipSlashes (pathOf l))).1 = .failed ∨
      ∃ f, (walkParts root cur fuel s e (skipSlashes (pathOf l))).1 = .arrived f ∧
        (f < s.dentryCount → s.Walks start f (l.reverse ++ x)) := by
  induction l generalizing e x fuel with
  | nil =>
    refine .inr ⟨e, ?_, fun _ => hw⟩
    cases fuel <;> rfl
  | cons n l ih =>
    obtain ⟨⟨hne, hslash, hdot, hdotDot⟩, hl⟩ := forall_mem_cons.mp hl
    have hpath : pathOf (n :: l) = '/' :: (n ++ pathOf l) := rfl
    rw [hpath] at hfuel ⊢
    simp only [length_cons, length_append] at hfuel
    obtain ⟨fuel, rfl⟩ := Nat.exists_eq_add_one_of_ne_zero (show fuel ≠ 0 by omega)
    rw [walkParts_name hne hslash (behind_pathOf l)]
    split_ifs with hlong
    · exact .inl rfl
    cases hc : s.findChild e n with
    | some c =>
      have hlook : s.dLookup e n = some c := by rw [h.dLookup_eq, hc]
      by_cases hneg : (s.dentry c).negative = true ∧ (s.dentry c).mount = none
      · have hfail : s.walkComponent e n = (none, s) := by
          simp only [Vfs.walkComponent, if_neg hdot, if_neg hdotDot, hlook, if_pos hneg]
        rw [hfail]
        exact .inl rfl
      · have hstep : s.stepTo e n = some c := by
          rw [stepTo, if_neg hdot, if_neg hdotDot, hlook, filter_some, decide_eq_false hneg]
          rfl
        have hcount : s.crossMount c < s.dentryCount := by
          unfold crossMount
          cases hm : (s.dentry c).mount with
          | none => exact (h.child e c (h.findChild_eq_some.mp hc).1).2.1
          | some m => exact (h.mount c m hm).2
        have hrest := @ih (n :: x) _ hl hcount (hw.step hstep (not_le.mp hlong)) fuel (by omega)
        rw [walkComponent_of_stepTo hstep]
        simp only [h.links]
        rwa [reverse_cons, append_assoc]
    | none =>
      rw [walkComponent_of_not_findChild h.toWf he hdot hdotDot hc]
      split_ifs with hinode
      · exact .inl rfl
      · -- the new entry is negative, and nothing is below it
        have hnew : (s.newChild e n none true).crossMount s.dentryCount = s.dentryCount := by
          rw [crossMount, newChild_dentry_self]
        have hlink : (s.newChild e n none true).readLink s.dentryCount = none := by
          rw [readLink, newChild_dentry_self]
          rfl
        simp only [hnew, hlink]
        cases l with
        | nil =>
          refine .inr ⟨s.dentryCount, ?_, fun hlt => absurd hlt (lt_irrefl _)⟩
          cases fuel <;> rfl
        | cons n' l =>
          obtain ⟨⟨hne', hslash', hdot', hdotDot'⟩, -⟩ := forall_mem_cons.mp hl
          have hpath' : pathOf (n' :: l) = '/' :: (n' ++ pathOf l) := rfl
          rw [hpath'] at hfuel ⊢
          simp only [length_cons, length_append] at hfuel
          obtain ⟨fuel, rfl⟩ := Nat.exists_eq_add_one_of_ne_zero (show fuel ≠ 0 by omega)
          have hfail : (s.newChild e n none true).walkComponent s.dentryCount n' =
              (none, s.newChild e n none true) := by
            simp only [Vfs.walkComponent, if_neg hdot', if_neg hdotDot', dLookup,
              newChild_dentry_self, find?_nil]
          rw [walkParts_name hne' hslash' (behind_pathOf l), hfail, ite_self]
          exact .inl rfl

/-- A walk that ends below a parent has come through that parent. -/
lemma Tidy.reached {top : Nat} {x : Pos} (hx : s.Under top d x) (hw : s.Walks s.fsRoot d x) :
    s.Reached d (pathOf x.reverse) := by
  induction hx with
  | refl =>
    cases hw
    exact .root h.fsRoot.1
  | @child p d x name hx hparent hne hname ih =>
    have hproper := h.under_names (.child hx hparent hne hname) name mem_cons_self
    obtain ⟨hnil, hslash, hdot, hdotDot⟩ := hproper
    cases hw with
    | @step c next _ _ hw hstep hlen =>
      have hmount : (s.dentry next).mount = none := by
        cases hm : (s.dentry next).mount with
        | none => rfl
        | some m =>
          rw [crossMount, hm, (h.mount next m hm).1] at hparent
          cases hparent
      have hcross : s.crossMount next = next := by rw [crossMount, hmount]
      rw [hcross] at hparent hne hname ⊢
      have hlook : s.dLookup c name = some next := by
        rw [stepTo, if_neg hdot, if_neg hdotDot] at hstep
        exact (filter_eq_some_iff.mp hstep).1
      have hc := (h.child c next (h.dLookup_eq_some.mp hlook).1).2.2.1
      rw [hparent] at hc
      cases hc
      rw [reverse_cons, pathOf, flatMap_append, flatMap_singleton]
      exact .child (ih hw) ⟨hnil, hslash⟩ hlen hstep ⟨hparent, hname, hne⟩ hmount (h.links next)

/-- The lookup of a path through proper names ends at an existing entry by a walk through them. -/
lemma Tidy.kernPath {l : List CString} (hl : ∀ n ∈ l, ProperName n) (hd : d < s.dentryCount)
    (hpath : path.head? = some '/') (hskip : skipSlashes path = skipSlashes (pathOf l))
    (hfound : (s.kernPath path false).1 = some d) : s.Walks s.fsRoot d l.reverse := by
  have hrel := skipSlashes_head (pathOf l)
  have hle := length_skipSlashes_le (pathOf l)
  have hparts := @Tidy.walkParts s s.fsRoot (skipSlashes (pathOf l)) h [] l s.fsRoot hl h.fsRoot.2
    s.fsRoot .refl _ le_rfl
  rw [append_nil, walkParts_congr hrel hrel hle le_rfl] at hparts
  have hinit : s.pathInit path = (s.fsRoot, skipSlashes (pathOf l)) := by
    rw [pathInit, if_pos hpath, hskip]
  have hne : path ≠ [] := by
    rintro rfl
    cases hpath
  rw [Vfs.kernPath, if_neg hne, pathLookupat_eq, walkPath, hinit] at hfound
  simp only [Bool.false_eq_true, false_and, if_false, bind_fun_some] at hfound
  split_ifs at hfound with hnil
  · rw [hnil] at hparts
    cases hfound
    rcases hparts with hfail | ⟨f, harr, hw⟩
    · cases hfail
    · cases harr
      exact hw hd
  · rw [linkPathWalk] at hfound
    split_ifs at hfound
    unfold walkFrom at hfound
    rw [skipSlashes_eq_self hrel] at hfound
    generalize Vfs.walkParts s.fsRoot _ _ s s.fsRoot _ = r at hfound hparts
    obtain ⟨walked, s₁⟩ := r
    rcases hparts with hfail | ⟨f, harr, hw⟩
    · cases hfail
      cases hfound
    · cases harr
      cases hfound
      exact hw hd

end

/-! ## The round trip -/

/-- The text of the working directory is an absolute path that leads back to it. -/
def RoundTrip (s : Vfs) (fuel d : Nat) : Prop :=
  (s.taskGetCwd fuel).length < 256 ∧ (s.taskGetCwd fuel).head? = some '/' ∧
    (s.kernPath (s.taskGetCwd fuel) false).1 = some d

/--
The text of a working directory that is reached from the root without links and mounts, by a path
of at most 255 characters, leads back to it; and in trees without links of any others it does not.
-/
theorem taskGetCwd_round_trip (hchdir : s.vfsChdir path = (true, s'))
    (hd : (s.kernPath path true).1 = some d) {fuel : Nat} (hfuel : 255 < fuel) :
    ((∃ w, s'.Reached d w ∧ w.length ≤ 255) → s'.RoundTrip fuel d) ∧
      (s'.Tidy → d < s'.dentryCount → s'.RoundTrip fuel d →
        ∃ w, s'.Reached d w ∧ w.length ≤ 255) := by
  obtain ⟨t, ht, hpwd⟩ := vfsChdir_pwd hchdir hd
  have hcwd : s'.taskGetCwd fuel = cwdText (s'.cwdLoop fuel d []) := by
    rw [taskGetCwd, ht, bind_some, hpwd, elim_some]
  unfold RoundTrip
  rw [hcwd]
  constructor
  · rintro ⟨w, h, hlen⟩
    have hloop : s'.cwdLoop fuel d [] = w ++ [] := h.cwdLoop (by exact hlen) (by omega)
    obtain ⟨hlt, hhead, hskip⟩ := cwdText_spec h.behind hlen
    rw [hloop, append_nil]
    exact ⟨hlt, hhead, by rw [h.kernPath hlen hhead hskip]⟩
  · rintro h hlt ⟨-, hhead, hfound⟩
    obtain ⟨top, x, hx, hloop, hlen⟩ := @Tidy.cwdLoop s' [] h (Nat.zero_le _) fuel d
    rw [append_nil] at hloop
    rw [hloop] at hhead hfound
    obtain ⟨-, -, hskip⟩ := cwdText_spec (behind_pathOf x.reverse) hlen
    have hnames : ∀ n ∈ x.reverse, ProperName n := fun n hn =>
      h.under_names hx n (mem_reverse.mp hn)
    have hw := h.kernPath hnames hlt hhead hskip hfound
    rw [reverse_reverse] at hw
    exact ⟨pathOf x.reverse, h.reached hx hw, hlen⟩

/-- The tree of `unmounted`, in which task 0 runs. -/
def running : Vfs :=
  { unmounted with current := some 0 }

/-- The directory `/a` of the root file system is found again. -/
theorem running_round_trip :
    ((running.vfsChdir ['/', 'a']).2.kernPath ((running.vfsChdir ['/', 'a']).2.taskGetCwd 256)
      false).1 = some 1 := by
  have h : (running.vfsChdir ['/', 'a']).2.Reached 1 ([] ++ ['/', 'a']) :=
    @Reached.child _ 0 1 [] ['a'] (.root (by decide +kernel)) (by decide) (by decide)
      (by decide +kernel) (by decide +kernel) (by decide +kernel) (by decide +kernel)
  have hchdir : running.vfsChdir ['/', 'a'] = (true, (running.vfsChdir ['/', 'a']).2) :=
    Prod.ext (by decide +kernel) rfl
  have hround := (@taskGetCwd_round_trip running _ 1 _ hchdir (by decide +kernel) 256
    (by decide)).1 ⟨_, h, by decide⟩
  exact hround.2.2

/-- A file system is mounted on `/a`: its root is the working directory, and `/` its text. -/
theorem mounted_cwd_lost :
    let s := ((running.mountStep (['/', 'a'], 2)).vfsChdir ['/', 'a']).2
    (s.task 0).pwd = some 2 ∧ s.taskGetCwd 256 = ['/'] ∧
      (s.kernPath ['/'] false).1 = some 0 := by
  decide +kernel

end LiteKernel.Fs.Vfs
