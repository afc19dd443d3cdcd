import LiteKernel.Fs.Path

/-!
# Normal paths

`vfs_normalize_path` works on the characters of its buffer. What it computes is a fold over the
names of the path: `.` is dropped, and `..` takes the last name back. The buffer holds the names
kept so far, each behind a slash, and the function gives up only when they do not fit.

Main results:

- Lemmas `vfsAppendComponent_render`, `vfsPopComponent_render`: the two operations on the buffer.
- Lemma `normalizeParts_render`: the loop is a fold that stops when the names do not fit.
- Theorem `normalize_path`: the result of `vfs_normalize_path`.
-/

namespace LiteKernel.Fs

open List

variable {cap fuel : Nat} {l l' ns : List CString} {name p w : CString}

/-! ## Names -/

/-- The names of a path, without the empty ones between slashes. -/
def names (p : CString) : List CString :=
  (p.splitOnP (· = '/')).filter (· ≠ [])

/-- What a name does to the names kept so far. -/
def keep (l : List CString) (name : CString) : List CString :=
  if name = dot then l else if name = dotDot then l.dropLast else l ++ [name]

/-- The absolute path of the names. -/
def render (l : List CString) : CString :=
  '/' :: ['/'].intercalate l

/-- A name that is not empty and has no slash. -/
def IsName (name : CString) : Prop :=
  name ≠ [] ∧ ∀ c ∈ name, c ≠ '/'

lemma names_cons_slash (p : CString) : names ('/' :: p) = names p := by
  simp [names, splitOnP_cons_eq_if_modifyHead]

lemma names_skipSlashes (p : CString) : names (skipSlashes p) = names p := by
  induction p with
  | nil => rfl
  | cons c p ih =>
    by_cases hc : c = '/'
    · subst hc
      rw [names_cons_slash, ← ih]
      rfl
    · rw [skipSlashes_cons hc]

lemma IsName.names_append (h : IsName name) (hw : Behind w) :
    names (name ++ w) = name :: names w := by
  have hslash : ∀ c ∈ name, decide (c = '/') = false := fun c hc => decide_eq_false (h.2 c hc)
  rcases hw with rfl | ⟨x, rfl⟩
  · rw [append_nil, names, splitOnP_eq_singleton hslash]
    simp [h.1, names]
  · rw [names_cons_slash, names, splitOnP_append_cons_of_forall_mem hslash _ (by simp)]
    simp [h.1, names]

/-- A path that does not start with a slash starts with a name. -/
lemma isName_part (hp : p ≠ []) (hhead : p.head? ≠ some '/') : IsName (part p) := by
  refine ⟨?_, fun c hc => by simpa using mem_takeWhile_imp hc⟩
  obtain ⟨c, p, rfl⟩ := exists_cons_of_ne_nil hp
  rw [part_cons fun hc => hhead (congrArg some hc)]
  exact cons_ne_nil c (part p)

lemma names_eq_cons (h : IsName (part p)) :
    names p = part p :: names (skipSlashes (afterPart p)) := by
  rw [names_skipSlashes, ← h.names_append (behind_afterPart p), part_append_afterPart]

lemma isName_of_mem_names {p : CString} (h : name ∈ names p) : IsName name := by
  rw [← names_skipSlashes] at h
  by_cases hnil : skipSlashes p = []
  · simp [hnil, names] at h
  have hpart := isName_part hnil (skipSlashes_head p)
  have hskip := length_skipSlashes_le p
  have hshort := length_rest_lt hnil
  rw [names_eq_cons hpart] at h
  rcases mem_cons.mp h with rfl | h
  · exact hpart
  · exact isName_of_mem_names h
termination_by p.length

/-! ## The buffer -/

lemma render_append (l : List CString) (name : CString) :
    render (l ++ [name]) = (if l = [] then [] else render l) ++ '/' :: name := by
  induction l with
  | nil => simp [render]
  | cons a l ih =>
    cases l with
    | nil => simp [render, intercalate]
    | cons b l => simpa [render, intercalate] using ih

lemma length_render_le (l ns : List CString) : (render l).length ≤ (render (l ++ ns)).length := by
  induction ns using reverseRecOn with
  | nil => rw [append_nil]
  | append_singleton ns name ih =>
    refine ih.trans ?_
    rw [← append_assoc, render_append]
    split
    · rename_i hnil
      simp [hnil, render]
    · simp

lemma names_render (hl : ∀ name ∈ l, IsName name) : names (render l) = l := by
  induction l with
  | nil => rfl
  | cons a l ih =>
    obtain ⟨ha, hl⟩ := forall_mem_cons.mp hl
    rw [render, names_cons_slash] at ih ⊢
    cases l with
    | nil => simpa [intercalate, names] using ha.names_append (.inl rfl)
    | cons b l =>
      have hnames := ha.names_append (w := render (b :: l)) (.inr ⟨_, rfl⟩)
      rw [render, names_cons_slash, ih hl] at hnames
      simpa [intercalate] using hnames

lemma getLast?_render (hl : ∀ name ∈ l, IsName name) :
    (render l).getLast? = some '/' ↔ l = [] := by
  rcases l.eq_nil_or_concat' with rfl | ⟨l, name, rfl⟩
  · simp [render]
  · have hname := hl name (by simp)
    obtain ⟨q, c, rfl⟩ := (eq_nil_or_concat' name).resolve_left hname.1
    have hc : c ≠ '/' := hname.2 c (by simp)
    rw [render_append, ← cons_append, ← append_assoc, getLast?_concat]
    simp [hc]

/-- A component is appended if the result, with its final zero, fits. -/
lemma vfsAppendComponent_render (hl : ∀ name ∈ l, IsName name) (hname : IsName name) :
    vfsAppendComponent cap (render l) name =
      if cap ≤ (render (l ++ [name])).length then none else some (render (l ++ [name])) := by
  have hpos := length_pos_iff.mpr hname.1
  have hne : render l ≠ [] := cons_ne_nil _ _
  rw [vfsAppendComponent, if_neg fun h => hne h.1]
  simp only [hne, if_false, hname.1, getLast?_render hl]
  rw [render_append]
  -- the slash is there already at the root
  by_cases hnil : l = []
  · subst hnil
    simp [render]
    grind
  · simp [hnil]
    grind

/-- `..` takes the last component back. -/
lemma vfsPopComponent_render (hl : ∀ name ∈ l, IsName name) :
    vfsPopComponent (render l) = render l.dropLast := by
  rcases l.eq_nil_or_concat' with rfl | ⟨l, name, rfl⟩
  · rfl
  · have hname := hl name (by simp)
    have hpos := length_pos_iff.mpr hname.1
    have hdrop (a : CString) :
        ((a ++ '/' :: name).reverse.dropWhile (· ≠ '/')) = '/' :: a.reverse := by
      simp only [reverse_append, reverse_cons, append_assoc]
      rw [dropWhile_append_of_pos (by simpa using hname.2)]
      simp
    rw [render_append, vfsPopComponent, if_neg (by simp; omega), hdrop]
    by_cases hnil : l = []
    · simp [hnil, render]
    · have : (render l).length ≠ 0 := by simp [render]
      simp [hnil, this]

/-! ## The loop -/

/-- The names kept so far, as long as their path fits. -/
def keepFitting (cap : Nat) (l : List CString) (name : CString) : Option (List CString) :=
  if (render (keep l name)).length < cap then some (keep l name) else none

/-- A property of the names kept so far survives if the names that are kept have it. -/
lemma keep_forall {P : CString → Prop} (hl : ∀ a ∈ l, P a)
    (hname : name ≠ dot → name ≠ dotDot → P name) : ∀ a ∈ keep l name, P a := by
  intro a ha
  unfold keep at ha
  split_ifs at ha with hdot hdd
  · exact hl a ha
  · exact hl a (mem_of_mem_dropLast ha)
  · rcases mem_append.mp ha with ha | ha
    · exact hl a ha
    · exact mem_singleton.mp ha ▸ hname hdot hdd

lemma length_render_dropLast_le (l : List CString) :
    (render l.dropLast).length ≤ (render l).length := by
  rcases l.eq_nil_or_concat' with rfl | ⟨a, b, rfl⟩
  · exact le_rfl
  · rw [dropLast_concat]
    exact length_render_le a [b]

/-- One turn of the loop. -/
lemma normalizeParts_succ (hp : p ≠ []) (hname : IsName (part p)) (hl : ∀ name ∈ l, IsName name)
    (hlen : (render l).length < cap) :
    normalizeParts cap (fuel + 1) (render l) p = (keepFitting cap l (part p)).bind fun l' =>
      normalizeParts cap fuel (render l') (skipSlashes (afterPart p)) := by
  rw [normalizeParts, if_neg hp]
  unfold keepFitting keep
  dsimp only
  split_ifs with hdot hdd hfit hfit
  · rfl
  · rw [vfsPopComponent_render hl]
    rfl
  · exact absurd ((length_render_dropLast_le l).trans_lt hlen) hfit
  · rw [vfsAppendComponent_render hl hname, if_neg (not_le.mpr hfit)]
    rfl
  · rw [vfsAppendComponent_render hl hname, if_pos (not_lt.mp hfit)]
    rfl

/-- The loop folds the names of the path, and stops when they do not fit. -/
lemma normalizeParts_render (hl : ∀ name ∈ l, IsName name) (hlen : (render l).length < cap)
    (hp : p.length ≤ fuel) (hhead : p.head? ≠ some '/') :
    normalizeParts cap fuel (render l) p = ((names p).foldlM (keepFitting cap) l).map render := by
  induction fuel generalizing l p with
  | zero =>
    rw [length_eq_zero_iff.mp (Nat.le_zero.mp hp)]
    rfl
  | succ fuel ih =>
    by_cases hnil : p = []
    · rw [hnil]
      rfl
    have hname := isName_part hnil hhead
    have hshort := length_rest_lt hnil
    rw [normalizeParts_succ hnil hname hl hlen, names_eq_cons hname, foldlM_cons]
    cases hkeep : keepFitting cap l (part p) with
    | none => rfl
    | some l' =>
      unfold keepFitting at hkeep
      split_ifs at hkeep with hfit
      cases hkeep
      exact ih (keep_forall hl fun _ _ => hname) hfit (by omega) (skipSlashes_head _)

lemma foldlM_eq_some (hlen : (render l).length < cap)
    (h : ns.foldlM (keepFitting cap) l = some l') :
    l' = ns.foldl keep l ∧ (render l').length < cap := by
  induction ns generalizing l with
  | nil =>
    cases h
    exact ⟨rfl, hlen⟩
  | cons name ns ih =>
    rw [foldlM_cons] at h
    obtain ⟨l1, hkeep, h⟩ := Option.bind_eq_some_iff.mp h
    unfold keepFitting at hkeep
    split_ifs at hkeep with hfit
    cases hkeep
    exact ih hfit h

/-- The fold fails only if a prefix of the names leaves a path that does not fit. -/
lemma foldlM_eq_none (h : ns.foldlM (keepFitting cap) l = none) :
    ∃ k, cap ≤ (render ((ns.take k).foldl keep l)).length := by
  induction ns generalizing l with
  | nil => cases h
  | cons name ns ih =>
    rw [foldlM_cons] at h
    by_cases hfit : (render (keep l name)).length < cap
    · rw [keepFitting, if_pos hfit] at h
      obtain ⟨k, hk⟩ := ih h
      exact ⟨k + 1, hk⟩
    · exact ⟨1, not_lt.mp hfit⟩

/-- Names that are neither `.` nor `..` are all kept. -/
lemma foldlM_of_kept (hns : ∀ a ∈ ns, a ≠ dot ∧ a ≠ dotDot)
    (hlen : (render (l ++ ns)).length < cap) :
    ns.foldlM (keepFitting cap) l = some (l ++ ns) := by
  induction ns generalizing l with
  | nil => rw [append_nil]; rfl
  | cons a ns ih =>
    obtain ⟨ha, hns⟩ := forall_mem_cons.mp hns
    have hkeep : keep l a = l ++ [a] := by rw [keep, if_neg ha.1, if_neg ha.2]
    rw [← singleton_append, ← append_assoc] at hlen ⊢
    rw [singleton_append, foldlM_cons, keepFitting, hkeep,
      if_pos ((length_render_le (l ++ [a]) ns).trans_lt hlen)]
    exact ih hns hlen

/-! ## The function -/

lemma vfsNormalizePath_eq (hcap : 2 ≤ cap) (path : CString) :
    vfsNormalizePath cap path = ((names path).foldlM (keepFitting cap) []).map render := by
  have hloop : normalizeParts cap path.length (render []) (skipSlashes path) = _ :=
    normalizeParts_render (by simp) hcap (length_skipSlashes_le path) (skipSlashes_head path)
  rw [names_skipSlashes] at hloop
  rw [vfsNormalizePath, if_neg (by omega), ← hloop, vfsAppendComponent,
    if_neg fun h => absurd h.2 (by omega)]
  rfl

/-- The path of names that are neither `.` nor `..` is left as it is. -/
lemma vfsNormalizePath_render (hcap : 2 ≤ cap)
    (hl : ∀ a ∈ l, IsName a ∧ a ≠ dot ∧ a ≠ dotDot) (hlen : (render l).length < cap) :
    vfsNormalizePath cap (render l) = some (render l) := by
  rw [vfsNormalizePath_eq hcap, names_render fun a ha => (hl a ha).1,
    foldlM_of_kept (fun a ha => (hl a ha).2) hlen]
  rfl

/--
`vfs_normalize_path` returns the path of the names that are left when `.` is dropped and `..`
takes the last name back. It fits the buffer and is its own normal form. The function fails only
if a prefix of the names leaves a path that does not fit.
-/
theorem normalize_path (hcap : 2 ≤ cap) (path : CString) :
    (∀ out, vfsNormalizePath cap path = some out →
      out = render ((names path).foldl keep []) ∧ out.length < cap ∧
        vfsNormalizePath cap out = some out) ∧
    (vfsNormalizePath cap path = none →
      ∃ k, cap ≤ (render (((names path).take k).foldl keep [])).length) := by
  constructor
  · intro out hout
    rw [vfsNormalizePath_eq hcap] at hout
    obtain ⟨l, hfold, rfl⟩ := Option.map_eq_some_iff.mp hout
    obtain ⟨rfl, hlen⟩ := foldlM_eq_some hcap hfold
    refine ⟨rfl, hlen, vfsNormalizePath_render hcap ?_ hlen⟩
    refine foldlRecOn (motive := fun l => ∀ a ∈ l, IsName a ∧ a ≠ dot ∧ a ≠ dotDot) _ _
      (by simp) fun l hl name hname => ?_
    exact keep_forall hl fun hdot hdd => ⟨isName_of_mem_names hname, hdot, hdd⟩
  · intro hnone
    rw [vfsNormalizePath_eq hcap, Option.map_eq_none_iff] at hnone
    exact foldlM_eq_none hnone

/-- `/a/./b/../c` in a buffer of eight bytes. -/
theorem normalize_path_example :
    (2 ≤ 8 ∧ ∃ out, vfsNormalizePath 8 "/a/./b/../c".toList = some out ∧ out = "/a/c".toList ∧
      out.length < 8 ∧ vfsNormalizePath 8 out = some out) ∧
    ∃ k, 8 ≤ (render (((names "/abc/defg/..".toList).take k).foldl keep [])).length := by
  have h : vfsNormalizePath 8 "/a/./b/../c".toList = some "/a/c".toList := by decide
  exact ⟨⟨by decide, _, h, rfl, ((normalize_path (by decide) _).1 _ h).2⟩,
    (normalize_path (by decide) _).2 (by decide)⟩

end LiteKernel.Fs
