import LiteKernel.Fs.Numerals
import LiteKernel.Lib.Run

/-!
# `/proc` and the live processes

A process directory is there for a pid that has a task and not for one that has
none, if that is what the table of the directories leaves room for. A lookup does
not ask whether the task is alive: it takes a free entry for any number, and an entry
is never given back, so the table holds the first sixteen pids that were asked for,
`self` among them.

What the files have to say is stated in the terms of the task: a reader finds the fields
of `status` in its lines, with the numbers in decimal and the working directory of the
task, and `maps` has a line for each area.

Main results:

- Lemma `ProcFs.pids_run`: the table holds the pids asked for, as far as they fit.
- Lemma `ProcFs.statusDescribes_iff`: the fields that are read from the lines of `status`.
- Theorem `ProcFs.serves_iff`: which pids are served as they should be after a history.
- Theorem `ProcFs.strangers_not_served`: fifteen numbers without a task hide a live task.
-/

namespace LiteKernel.Fs.Proc

open Function Kernel Lib List Option

variable {n : Nat} {parts : List Text}

/-! ## Numbers -/

/-- The decimal name of an integer. -/
def signedDecimal (n : Int) : Text :=
  if n < 0 then '-' :: decimal n.natAbs else decimal n.natAbs

/-- The hexadecimal name of a number. -/
def hexadecimal (n : Nat) : Text :=
  if n = 0 then ['0'] else (storeDigits 16 n).reverse

lemma digitChar_reads {d : Nat} (hd : d < 10) :
    Numerals.hexValue d.digitChar = some d ∧ d.digitChar ≠ '\n' ∧ d.digitChar ≠ '-' := by
  interval_cases d <;> decide

lemma parseLoop_storeDigits (hn : n < 2 ^ 32) :
    parseLoop 0 (storeDigits 10 n).reverse = some n := by
  have hlt := fun d (hd : d ∈ Nat.digits 10 n) => Nat.digits_lt_base (by omega) hd
  have hdigits : Numerals.IsDigits 10 (storeDigits 10 n).reverse (Nat.digits 10 n).reverse := by
    refine ⟨?_, fun d hd => hlt d (mem_reverse.mp hd)⟩
    rw [storeDigits, map_reverse, map_reverse, List.map_map]
    exact congrArg _ (map_congr_left fun d hd => (digitChar_reads (hlt d hd)).1)
  have hvalue : Numerals.value 10 0 (Nat.digits 10 n).reverse = n := by
    rw [Numerals.value, foldl_reverse]
    conv_rhs => rw [← Nat.ofDigits_digits 10 n, Nat.ofDigits_eq_foldr]
    simp [add_comm, mul_comm]
  rw [Numerals.parseLoop_of_isDigits hdigits (hvalue.trans_lt hn), hvalue]

lemma decimal_ne_nil (n : Nat) : decimal n ≠ [] := by
  unfold decimal storeDigits
  split_ifs with hn
  · exact cons_ne_nil _ _
  · rw [ne_eq, reverse_eq_nil_iff, map_eq_nil_iff]
    exact Nat.digits_ne_nil_iff_ne_zero.mpr hn

lemma parseU32_decimal (hn : n < 2 ^ 32) : parseU32 (decimal n) = some n := by
  rw [parseU32, if_neg (decimal_ne_nil n), decimal]
  split_ifs with h0
  · rw [h0]
    rfl
  · exact parseLoop_storeDigits hn

lemma length_u32Text_le (n : Nat) : (u32Text n).length ≤ 11 := by
  have hdigits : ∀ {m : Nat}, m < 10 ^ 10 → (storeDigits 10 m).length ≤ 10 := fun hm => by
    rw [storeDigits, length_map]
    exact (Nat.digits_length_le_iff (by omega) _).mpr hm
  unfold u32Text itoa
  split_ifs with h0 hneg
  · exact Nat.le_of_ble_eq_true rfl
  · rw [length_reverse, length_append]
    have := @hdigits (2 ^ 32 - n) (by omega)
    simp only [length_cons, length_nil]
    omega
  · rw [length_reverse]
    have := @hdigits n (by omega)
    omega

lemma ne_of_mem_storeDigits {c : Char} (hc : c ∈ storeDigits 10 n) : c ≠ '\n' ∧ c ≠ '-' := by
  obtain ⟨d, hd, rfl⟩ := mem_map.mp hc
  exact (digitChar_reads (Nat.digits_lt_base (by omega) hd)).2

lemma newline_not_mem_u32Text (n : Nat) : '\n' ∉ u32Text n := by
  intro h
  unfold u32Text itoa at h
  split_ifs at h with h0 hneg
  · exact absurd h (by decide)
  · rw [mem_reverse, mem_append] at h
    rcases h with h | h
    · exact (ne_of_mem_storeDigits h).1 rfl
    · exact absurd h (by decide)
  · exact (ne_of_mem_storeDigits (mem_reverse.mp h)).1 rfl

lemma u32Text_eq_decimal_iff : u32Text n = decimal n ↔ n < 2 ^ 31 := by
  have hminus : '-' ∉ decimal n := by
    unfold decimal
    split_ifs
    · decide
    · exact fun h => (ne_of_mem_storeDigits (mem_reverse.mp h)).2 rfl
  unfold u32Text itoa
  split_ifs with h0 hneg
  · rw [decimal, if_pos h0, h0]
    decide
  · refine iff_of_false (fun h => hminus ?_) (by omega)
    rw [← h, mem_reverse]
    exact mem_append_right _ mem_cons_self
  · rw [decimal, if_neg h0]
    exact iff_of_true rfl (by omega)

/-- A number that is printed as an `int` is read as one. -/
lemma u32Text_ofInt32 (n : Int) :
    u32Text (ProcFs.ofInt32 n) = signedDecimal (n.bmod (2 ^ 32)) := by
  have hmod : n.bmod (2 ^ 32) =
      if n % 2 ^ 32 < 2 ^ 31 then n % 2 ^ 32 else n % 2 ^ 32 - 2 ^ 32 := Int.bmod_def n (2 ^ 32)
  obtain ⟨k, hk⟩ := Int.eq_ofNat_of_zero_le (Int.emod_nonneg n (by decide : (2 ^ 32 : Int) ≠ 0))
  have hlt : k < 2 ^ 32 := by omega
  rw [hk] at hmod
  rw [ProcFs.ofInt32, hk, Int.toNat_natCast, signedDecimal]
  by_cases hsmall : k < 2 ^ 31
  · rw [if_pos (by omega)] at hmod
    rw [hmod, if_neg (by omega), Int.natAbs_natCast]
    exact u32Text_eq_decimal_iff.mpr hsmall
  · rw [if_neg (by omega)] at hmod
    have habs : ((k : Int) - 2 ^ 32).natAbs = 2 ^ 32 - k := by omega
    rw [hmod, if_pos (by omega), habs, u32Text, itoa, if_neg (by omega),
      if_pos ⟨by omega, rfl⟩, decimal, if_neg (by omega), reverse_append]
    rfl

/-! ## Buffers -/

lemma fillBuffer_eq (cap : Nat) (parts : List Text) :
    fillBuffer cap parts = parts.flatten.take (cap - 1) := by
  have happend : ∀ (parts : List Text) (buf : Text),
      parts.foldl (procBufAppend cap) (buf.take (cap - 1)) =
        (buf ++ parts.flatten).take (cap - 1) := by
    intro parts
    induction parts with
    | nil =>
      intro buf
      rw [foldl_nil, flatten_nil, append_nil]
    | cons s parts ih =>
      intro buf
      have hstep : procBufAppend cap (buf.take (cap - 1)) s = (buf ++ s).take (cap - 1) := by
        rw [procBufAppend, take_append, length_take]
        congr 2
        omega
      rw [foldl_cons, hstep, ih, flatten_cons, append_assoc]
  have hnil := happend parts []
  rwa [take_nil, nil_append] at hnil

lemma fillBuffer_of_le {cap : Nat} (h : parts.flatten.length ≤ cap - 1) :
    fillBuffer cap parts = parts.flatten := by
  rw [fillBuffer_eq, take_of_length_le h]

lemma length_flatten_le {bounds : List Nat}
    (h : List.Forall₂ (fun s n => s.length ≤ n) parts bounds) :
    parts.flatten.length ≤ bounds.sum := by
  induction h with
  | nil => exact le_refl 0
  | cons hs _ ih =>
    rw [flatten_cons, length_append, sum_cons]
    exact add_le_add hs ih

lemma copyOut_eq (tmp : Text) (offset size : Nat) :
    copyOut tmp offset size = (tmp.drop offset).take size := by
  unfold copyOut
  split_ifs with h
  · rw [drop_eq_nil_of_le h, take_nil]
  · rw [← length_drop, ← take_eq_take_min]

namespace ProcFs

variable {fuel : Nat} {s : ProcFs} {l : List Nat} {pid p t : Nat} {name : Text}

/-! ## The table -/

/-- The table holds the pids of a list, as far as they fit. -/
def Holds (s : ProcFs) (l : List Nat) : Prop :=
  ∀ i, i < procPidMax → s.pids i = l[i]?

lemma mem_take_procPidMax : pid ∈ l.take procPidMax ↔ ∃ i < procPidMax, l[i]? = some pid := by
  rw [mem_iff_getElem?]
  constructor
  · rintro ⟨i, hi⟩
    rw [List.getElem?_take] at hi
    split_ifs at hi with hlt
    exact ⟨i, hlt, hi⟩
  · rintro ⟨i, hlt, hi⟩
    exact ⟨i, by rw [List.getElem?_take, if_pos hlt, hi]⟩

lemma findSlot_eq_none {u : Option Nat} (h : ∀ i < procPidMax, s.pids i ≠ u) :
    s.findSlot u = none := by
  rw [findSlot, List.find?_range_eq_none]
  intro i hi
  rw [Bool.not_eq_true', decide_eq_false_iff_not]
  exact h i hi

lemma procGetPidDir_of_mem (hl : s.Holds l) (hm : pid ∈ l.take procPidMax) :
    ∃ i < procPidMax, s.pids i = some pid ∧ s.procGetPidDir pid = (some (.pidDir i), s) := by
  obtain ⟨j, hj, hlj⟩ := mem_take_procPidMax.mp hm
  have hsome : (s.findSlot (some pid)).isSome := by
    rw [findSlot, List.find?_isSome]
    exact ⟨j, mem_range.mpr hj, decide_eq_true ((hl j hj).trans hlj)⟩
  obtain ⟨i, hi⟩ := isSome_iff_exists.mp hsome
  have hfound := List.find?_range_eq_some.mp hi
  refine ⟨i, mem_range.mp hfound.2.1, of_decide_eq_true hfound.1, ?_⟩
  rw [procGetPidDir, hi]

section

variable (hl : s.Holds l) (hm : pid ∉ l.take procPidMax)
include hl hm

lemma findSlot_of_not_mem : s.findSlot (some pid) = none :=
  findSlot_eq_none fun i hi h => hm (mem_take_procPidMax.mpr ⟨i, hi, (hl i hi).symm.trans h⟩)

lemma procGetPidDir_of_room (hroom : l.length < procPidMax) :
    s.procGetPidDir pid =
      (some (.pidDir l.length), { s with pids := update s.pids l.length (some pid) }) := by
  have hfree : s.findSlot none = some l.length := by
    rw [findSlot, List.find?_range_eq_some]
    refine ⟨decide_eq_true ?_, mem_range.mpr hroom, fun j hj => ?_⟩
    · rw [hl _ hroom]
      exact List.getElem?_eq_none (le_refl _)
    · rw [Bool.not_eq_true', decide_eq_false_iff_not, hl j (Nat.lt_trans hj hroom),
        List.getElem?_eq_getElem hj]
      exact some_ne_none _
  rw [procGetPidDir, findSlot_of_not_mem hl hm, hfree]

lemma procGetPidDir_of_full (hfull : procPidMax ≤ l.length) :
    s.procGetPidDir pid = (none, s) := by
  have hfree : s.findSlot none = none := by
    apply findSlot_eq_none
    intro i hi
    rw [hl i hi, List.getElem?_eq_getElem (lt_of_lt_of_le hi hfull)]
    exact some_ne_none _
  rw [procGetPidDir, findSlot_of_not_mem hl hm, hfree]

end

/-! ## Histories -/

/-- The pids asked for so far, and one more operation. -/
def ask (l : List Nat) : Op → List Nat
  | .lookup name =>
    match parseU32 name with
    | some pid => if pid ∈ l then l else l ++ [pid]
    | none => l
  | _ => l

/-- The pids that a history asks for, each once, in the order of their first lookups. -/
def asked (ops : List Op) : List Nat :=
  ops.foldl ask [selfPid]

/-- The root children of a mounted `/proc`. -/
def mountedChildren : List (Text × Node) :=
  fixedNames.map (fun name => (name.toList, .fixed name.toList)) ++
    [("self".toList, .pidDir 0)]

/-- The file system is mounted, and its table holds the pids of a list. -/
structure Mounted (s : ProcFs) (l : List Nat) : Prop where
  children : s.rootChildren = mountedChildren
  holds : s.Holds l

lemma procRegisterRootChild_of_room {n : Node} (hname : name ≠ [])
    (hroom : s.rootChildren.length < 16) :
    s.procRegisterRootChild name (some n) =
      { s with rootChildren := s.rootChildren ++ [(name, n)] } := by
  refine if_neg ?_
  rintro (h | h)
  · exact hname h
  · omega

lemma foldl_procRegisterRootChild (names : List String) (s : ProcFs)
    (hnames : ∀ name ∈ names, name.toList ≠ [])
    (hroom : s.rootChildren.length + names.length ≤ 16) :
    names.foldl
        (fun s name => s.procRegisterRootChild name.toList (some (.fixed name.toList))) s =
      { s with rootChildren :=
          s.rootChildren ++ names.map fun name => (name.toList, .fixed name.toList) } := by
  induction names generalizing s with
  | nil => rw [foldl_nil, map_nil, append_nil]
  | cons name names ih =>
    rw [length_cons] at hroom
    rw [foldl_cons, procRegisterRootChild_of_room (hnames name mem_cons_self) (by omega), ih]
    · rw [append_assoc, singleton_append, map_cons]
    · exact fun name' h => hnames name' (mem_cons_of_mem name h)
    · rw [length_append, length_singleton]
      omega

lemma procPidInit_eq (s : ProcFs) :
    s.procPidInit = { s with pids := update (fun _ => none) 0 (some selfPid) } := by
  have hempty : Holds { s with pids := fun _ => none } [] := fun i _ => rfl
  rw [procPidInit, procGetPidDir_of_room hempty (by rw [take_nil]; exact not_mem_nil) (by decide)]
  rfl

lemma mounted_procFillSuper (s : ProcFs) : s.procFillSuper.Mounted [selfPid] := by
  have hnew : ∀ cs : List (Text × Node),
      ({ s with pids := update (fun _ => none) 0 (some selfPid), rootChildren := cs } :
        ProcFs).Holds [selfPid] := by
    intro cs i _
    cases i with
    | zero => rfl
    | succ i => rfl
  have hself : procFillSuper s =
      { s with
        pids := update (fun _ => none) 0 (some selfPid)
        rootChildren := mountedChildren } := by
    have hmem : selfPid ∈ [selfPid].take procPidMax := by decide
    unfold procFillSuper
    rw [procPidInit_eq]
    dsimp only
    rw [foldl_procRegisterRootChild fixedNames _ (by decide) (Nat.le_of_ble_eq_true rfl)]
    obtain ⟨i, -, hi, hget⟩ := procGetPidDir_of_mem
      (hnew (fixedNames.map fun name => (name.toList, .fixed name.toList))) hmem
    have hzero : i = 0 := by
      by_contra hne
      exact some_ne_none _ (hi.symm.trans (update_of_ne hne (some selfPid) fun _ => none))
    rw [hzero] at hget
    rw [nil_append, hget]
    exact procRegisterRootChild_of_room (by decide) (Nat.le_of_ble_eq_true rfl)
  rw [hself]
  exact ⟨rfl, hnew _⟩

lemma parseU32_mountedChildren : ∀ e ∈ mountedChildren, parseU32 e.1 = none := by
  decide

lemma Mounted.procFinddir_of_number (hs : s.Mounted l) (hn : parseU32 name = some pid) :
    s.procFinddir name = s.procGetPidDir pid := by
  have hfind : s.rootChildren.find? (fun e => e.1 = name) = none := by
    rw [List.find?_eq_none, hs.children]
    intro e he heq
    have hnone := parseU32_mountedChildren e he
    rw [of_decide_eq_true heq, hn] at hnone
    cases hnone
  have hself : name ≠ "self".toList := by
    rintro rfl
    cases hn
  rw [procFinddir, procLookupRootChild, hfind, map_none, procPidLookup, if_neg hself, hn]

lemma Mounted.procFinddir_of_not_number (hs : s.Mounted l) (hn : parseU32 name = none) :
    (s.procFinddir name).2 = s := by
  unfold procFinddir
  cases hc : s.procLookupRootChild name with
  | some n => rfl
  | none =>
    have hself : name ≠ "self".toList := by
      rintro rfl
      rw [procLookupRootChild, hs.children] at hc
      cases hc
    rw [procPidLookup, if_neg hself, hn]

lemma Mounted.procGetPidDir (hs : s.Mounted l) (pid : Nat) :
    (s.procGetPidDir pid).2.Mounted (if pid ∈ l then l else l ++ [pid]) := by
  by_cases hm : pid ∈ l.take procPidMax
  · obtain ⟨i, -, -, hget⟩ := procGetPidDir_of_mem hs.holds hm
    rw [hget, if_pos (mem_of_mem_take hm)]
    exact hs
  by_cases hroom : l.length < procPidMax
  · have hnot : pid ∉ l := by rwa [take_of_length_le (le_of_lt hroom)] at hm
    rw [procGetPidDir_of_room hs.holds hm hroom, if_neg hnot]
    refine ⟨hs.children, fun i hi => ?_⟩
    show update s.pids l.length (some pid) i = (l ++ [pid])[i]?
    by_cases hil : i = l.length
    · rw [hil, update_self, List.getElem?_concat_length]
    · rw [update_of_ne hil, hs.holds i hi]
      rcases lt_or_gt_of_ne hil with hlt | hgt
      · rw [List.getElem?_append_left hlt]
      · rw [List.getElem?_eq_none (le_of_lt hgt), List.getElem?_eq_none]
        rw [length_append, length_singleton]
        exact hgt
  · have hfull : procPidMax ≤ l.length := Nat.le_of_not_lt hroom
    rw [procGetPidDir_of_full hs.holds hm hfull]
    refine ⟨hs.children, fun i hi => ?_⟩
    rw [hs.holds i hi]
    split_ifs
    · rfl
    · rw [List.getElem?_append_left (lt_of_lt_of_le hi hfull)]

/-- One operation leaves the table with the pids that have been asked for. -/
lemma Mounted.step (hs : s.Mounted l) (op : Op) : (s.step fuel op).Mounted (ask l op) := by
  cases op with
  | lookup name =>
    show (s.procFinddir name).2.Mounted (ask l (.lookup name))
    cases hn : parseU32 name with
    | some pid =>
      have hask : ask l (.lookup name) = if pid ∈ l then l else l ++ [pid] := by
        simp only [ask, hn]
      rw [hask, hs.procFinddir_of_number hn]
      exact hs.procGetPidDir pid
    | none =>
      have hask : ask l (.lookup name) = l := by simp only [ask, hn]
      rw [hask, hs.procFinddir_of_not_number hn]
      exact hs
  | process op => exact ⟨hs.children, hs.holds⟩
  | create child program mmOk =>
    show (s.taskCreateInternal child program mmOk).Mounted l
    unfold taskCreateInternal
    cases child with
    | none => exact hs
    | some c =>
      split_ifs
      · exact ⟨hs.children, hs.holds⟩
      · exact ⟨hs.children, hs.holds⟩
  | setTaskComm t program => exact ⟨hs.children, hs.holds⟩
  | setCwd t path => exact ⟨hs.children, hs.holds⟩
  | setMmap t areas => exact ⟨hs.children, hs.holds⟩
  | switch t => exact ⟨hs.children, hs.holds⟩

lemma pids_run (fuel : Nat) (s : ProcFs) (ops : List Op) :
    (run (step fuel) s.procFillSuper ops).Mounted (asked ops) := by
  have hrun : ∀ (ops : List Op) (s : ProcFs) (l : List Nat), s.Mounted l →
      (run (step fuel) s ops).Mounted (ops.foldl ask l) := by
    intro ops
    induction ops with
    | nil => exact fun s l hs => hs
    | cons op ops ih => exact fun s l hs => ih _ _ (hs.step op)
  exact hrun ops _ _ (mounted_procFillSuper s)

/-! ## What is served -/

/-- The line of a field, without the newline. -/
def fieldLine (e : Text × Text) : Text :=
  e.1 ++ ':' :: '\t' :: e.2

/-- The value that a reader finds in the first line of a field. -/
def fieldOf (text key : Text) : Option Text :=
  (splitOn '\n' text).findSome? fun line => line.dropPrefix? (key ++ [':', '\t'])

/-- What `status` has to say about a task. -/
def taskFields (s : ProcFs) (t : Nat) : List (Text × Text) :=
  let k := s.procs.sched.task t
  [("Name".toList, s.shownName t), ("State".toList, stateWord k.state),
    ("Tgid".toList, decimal k.pid), ("Pid".toList, decimal k.pid),
    ("PPid".toList, decimal (s.taskPpidNr t)),
    ("Type".toList, if s.procs.hasMm t then "user".toList else "kthread".toList),
    ("Cwd".toList, s.cwd t),
    ("ExitCode".toList, signedDecimal (k.exitCode.bmod (2 ^ 32))),
    ("ExitState".toList, signedDecimal (k.exitState.bmod (2 ^ 32)))] ++
  if k.exitState = taskExitSignal then [("Signal".toList, decimal k.exitInfo0)] else []

def StatusDescribes (s : ProcFs) (t : Nat) (text : Text) : Prop :=
  ∀ e ∈ s.taskFields t, fieldOf text e.1 = some e.2

/-- The pid, the name, the state and the time to wake up. -/
def StatDescribes (s : ProcFs) (t : Nat) (text : Text) : Prop :=
  let k := s.procs.sched.task t
  text = decimal k.pid ++ " (".toList ++ s.shownName t ++ ") ".toList ++ stateLetter k.state ++
    " ".toList ++ decimal k.wakeJiffies ++ "\n".toList

/-- The bounds and the rights of an area. -/
def areaLine (v : Mm.VmArea) : Text :=
  "0x".toList ++ hexadecimal v.vmStart ++ "-0x".toList ++ hexadecimal v.vmEnd ++
    [' ', if v.vmFlags.read then 'r' else '-', if v.vmFlags.write then 'w' else '-',
      if v.vmFlags.exec then 'x' else '-', '\n']

/-- The lines of the areas of a task, which a kernel thread does not have. -/
def areaLines (s : ProcFs) (t : Nat) : Text :=
  if s.procs.hasMm t then (s.mmap t).flatMap areaLine else []

/-- A file of a directory has a text of a certain kind, and every read gives a part of it. -/
def Shows (s : ProcFs) (dir : Node) (name : Text) (P : Text → Prop) : Prop :=
  ∃ f impl text, s.procPidFinddir dir name = some (.file f impl) ∧ P text ∧
    ∀ offset size, s.read f impl offset size = (text.drop offset).take size

/--
The pid of a task has a directory whose files describe that task, and a pid that no task
on the task list has is not found.
-/
def Serves (s : ProcFs) (p : Nat) : Prop :=
  match s.findTask p with
  | some t =>
    ∃ dir s', s.procFinddir (decimal p) = (some dir, s') ∧
      s'.Shows dir "stat".toList (s.StatDescribes t) ∧
      s'.Shows dir "status".toList (s.StatusDescribes t) ∧
      s'.Shows dir "maps".toList (· = s.areaLines t)
  | none => (s.procFinddir (decimal p)).1 = none

/--
The task can be told in its files: its numbers are below `2 ^ 31`, where `itoa` begins to take
them as negative; its name stays in its line; its working directory is the root, which is what
`status` always says; and the lines of its areas fit the buffer of `maps`.
-/
structure Plain (s : ProcFs) (t : Nat) : Prop where
  pid : (s.procs.sched.task t).pid < 2 ^ 31
  ppid : s.taskPpidNr t < 2 ^ 31
  wake : (s.procs.sched.task t).wakeJiffies < 2 ^ 31
  signal : (s.procs.sched.task t).exitState = taskExitSignal →
    (s.procs.sched.task t).exitInfo0 < 2 ^ 31
  name : '\n' ∉ s.shownName t
  cwd : s.cwd t = "/".toList
  maps : (s.areaLines t).length < 2048

/-! ### The fields of `status` -/

lemma newline_not_mem_of_mem_splitOn {line : Text} : ∀ {text : Text},
    line ∈ splitOn '\n' text → '\n' ∉ line := by
  intro text
  induction text generalizing line with
  | nil =>
    intro h
    rw [mem_singleton.mp h]
    exact not_mem_nil
  | cons c text ih =>
    intro h
    rw [splitOn_cons_eq_if_modifyHead] at h
    split_ifs at h with hc
    · rcases mem_cons.mp h with rfl | h
      · exact not_mem_nil
      · exact ih h
    · cases hsplit : splitOn '\n' text with
      | nil => exact absurd hsplit (splitOn_ne_nil _ _)
      | cons first rest =>
        rw [hsplit] at h ih
        rw [modifyHead_cons] at h
        rcases mem_cons.mp h with rfl | h
        · intro hmem
          rcases mem_cons.mp hmem with heq | hmem
          · exact hc (beq_of_eq heq.symm)
          · exact ih mem_cons_self hmem
        · exact ih (mem_cons_of_mem _ h)

lemma newline_not_mem_of_fieldOf {text key value : Text} (h : fieldOf text key = some value) :
    '\n' ∉ value := by
  obtain ⟨line, hline, hvalue⟩ := exists_of_findSome?_eq_some h
  obtain ⟨p, rfl, -⟩ := dropPrefix?_eq_some_iff.mp hvalue
  exact fun hmem => newline_not_mem_of_mem_splitOn hline (mem_append_right p hmem)

/-- The keys have no colon, so a line begins with one key only. -/
lemma dropPrefix?_fieldLine {e : Text × Text} {key : Text} (he : ':' ∉ e.1) (hkey : ':' ∉ key) :
    (fieldLine e).dropPrefix? (key ++ [':', '\t']) = if key == e.1 then some e.2 else none := by
  obtain ⟨name, value⟩ := e
  induction key generalizing name with
  | nil =>
    cases name with
    | nil => simp [fieldLine, dropPrefix?]
    | cons c name =>
      have hc : (c == ':') = false := beq_eq_false_iff_ne.mpr (ne_of_mem_of_not_mem mem_cons_self he)
      show (if c == ':' then _ else none) = none
      rw [hc]
      rfl
  | cons d key ih =>
    cases name with
    | nil =>
      have hd : (':' == d) = false :=
        beq_eq_false_iff_ne.mpr (ne_of_mem_of_not_mem mem_cons_self hkey).symm
      show (if ':' == d then _ else none) = none
      rw [hd]
      rfl
    | cons c name =>
      have ih := ih (not_mem_of_not_mem_cons hkey) name (not_mem_of_not_mem_cons he)
      show (if c == d then (fieldLine (name, value)).dropPrefix? (key ++ [':', '\t']) else none) = _
      rw [ih, cons_beq_cons]
      by_cases hcd : c = d
      · rw [hcd, beq_self_eq_true]
        rfl
      · rw [beq_eq_false_iff_ne.mpr hcd, beq_eq_false_iff_ne.mpr (Ne.symm hcd)]
        rfl

lemma fieldOf_lines {rows : List (Text × Text)} {key : Text} (hkey : ':' ∉ key)
    (hrows : ∀ e ∈ rows, ':' ∉ e.1 ∧ '\n' ∉ fieldLine e) :
    fieldOf (['\n'].intercalate (rows.map fieldLine ++ [[]])) key = rows.lookup key := by
  have hlines : ∀ l ∈ rows.map fieldLine ++ [[]], '\n' ∉ l := by
    intro l hl
    rcases mem_append.mp hl with hl | hl
    · obtain ⟨e, he, rfl⟩ := mem_map.mp hl
      exact (hrows e he).2
    · rw [mem_singleton.mp hl]
      exact not_mem_nil
  rw [fieldOf, splitOn_intercalate _ hlines (by simp)]
  clear hlines
  induction rows with
  | nil => cases key <;> rfl
  | cons e rows ih =>
    have ih := ih fun e' he' => hrows e' (mem_cons_of_mem e he')
    rw [map_cons, cons_append, findSome?_cons, dropPrefix?_fieldLine (hrows e mem_cons_self).1 hkey,
      lookup_cons, ih]
    cases key == e.1 <;> rfl

/-- Each field is found if the lines are those of the fields. -/
lemma forall_lookup_iff {rows fields : List (Text × Text)}
    (hkeys : rows.map Prod.fst = fields.map Prod.fst) (hnodup : (rows.map Prod.fst).Nodup) :
    (∀ e ∈ fields, rows.lookup e.1 = some e.2) ↔ rows = fields := by
  induction rows generalizing fields with
  | nil =>
    rw [map_nil, eq_comm, map_eq_nil_iff] at hkeys
    rw [hkeys]
    exact iff_of_true (fun e he => absurd he not_mem_nil) rfl
  | cons r rows ih =>
    cases fields with
    | nil => cases hkeys
    | cons f fields =>
      obtain ⟨hkey, hrest⟩ := cons.inj hkeys
      obtain ⟨hnew, hnodup⟩ := nodup_cons.mp hnodup
      have hother : ∀ e ∈ fields, lookup e.1 (r :: rows) = lookup e.1 rows := by
        intro e he
        have hne : e.1 ≠ r.1 := by
          rintro heq
          exact hnew (hrest ▸ mem_map.mpr ⟨e, he, heq⟩)
        rw [lookup_cons, beq_eq_false_iff_ne.mpr hne]
      have hfirst : lookup f.1 (r :: rows) = some r.2 := by
        rw [lookup_cons, beq_iff_eq.mpr hkey.symm]
      rw [forall_mem_cons, hfirst, forall₂_congr fun e he => by rw [hother e he], ih hrest hnodup,
        cons.injEq, Option.some.injEq, Prod.ext_iff]
      exact ⟨fun h => ⟨⟨hkey, h.1⟩, h.2⟩, fun h => ⟨h.1.2, h.2⟩⟩

/-- The fields as `task_dump_status_pid` prints them. -/
def printedFields (s : ProcFs) (t : Nat) : List (Text × Text) :=
  let k := s.procs.sched.task t
  [("Name".toList, s.shownName t), ("State".toList, stateWord k.state),
    ("Tgid".toList, u32Text k.pid), ("Pid".toList, u32Text k.pid),
    ("PPid".toList, u32Text (s.taskPpidNr t)),
    ("Type".toList, if s.procs.hasMm t then "user".toList else "kthread".toList),
    ("Cwd".toList, "/".toList),
    ("ExitCode".toList, u32Text (ofInt32 k.exitCode)),
    ("ExitState".toList, u32Text (ofInt32 k.exitState))] ++
  if k.exitState = taskExitSignal then [("Signal".toList, u32Text k.exitInfo0)] else []

lemma flatten_statusParts (s : ProcFs) (t : Nat) :
    (s.statusParts t).flatten =
      ['\n'].intercalate ((s.printedFields t).map fieldLine ++ [[]]) := by
  unfold statusParts signalLine printedFields
  dsimp only
  by_cases hsignal : (s.procs.sched.task t).exitState = taskExitSignal
  · rw [if_pos hsignal, if_pos hsignal]
    simp only [statusLines, fieldLine, intercalate, intersperse, map_cons, map_nil, cons_append,
      nil_append, flatten_cons, flatten_nil, append_assoc, append_nil]
    rfl
  · rw [if_neg hsignal, if_neg hsignal]
    simp only [statusLines, fieldLine, intercalate, intersperse, map_cons, map_nil, cons_append,
      nil_append, flatten_cons, flatten_nil, append_assoc, append_nil]
    rfl

lemma printedFields_eq_iff (s : ProcFs) (t : Nat) :
    s.printedFields t = s.taskFields t ↔
      (s.procs.sched.task t).pid < 2 ^ 31 ∧ s.taskPpidNr t < 2 ^ 31 ∧ s.cwd t = "/".toList ∧
        ((s.procs.sched.task t).exitState = taskExitSignal →
          (s.procs.sched.task t).exitInfo0 < 2 ^ 31) := by
  unfold printedFields taskFields
  dsimp only
  rw [u32Text_ofInt32, u32Text_ofInt32]
  by_cases hsignal : (s.procs.sched.task t).exitState = taskExitSignal
  · rw [if_pos hsignal, if_pos hsignal]
    simp only [cons_append, nil_append, cons.injEq, Prod.mk.injEq, true_and, and_true,
      u32Text_eq_decimal_iff, @eq_comm _ "/".toList, hsignal, forall_const]
    tauto
  · rw [if_neg hsignal, if_neg hsignal]
    simp only [append_nil, cons.injEq, Prod.mk.injEq, true_and, and_true,
      u32Text_eq_decimal_iff, @eq_comm _ "/".toList, hsignal, false_imp_iff]
    tauto

/-- The keys of the lines of `status`; the last one is there for a task that a signal ended. -/
def statusKeys : List Text :=
  ["Name", "State", "Tgid", "Pid", "PPid", "Type", "Cwd", "ExitCode", "ExitState",
    "Signal"].map String.toList

lemma keys_printedFields (s : ProcFs) (t : Nat) :
    (s.printedFields t).map Prod.fst <+: statusKeys ∧
      (s.printedFields t).map Prod.fst = (s.taskFields t).map Prod.fst := by
  unfold printedFields taskFields
  dsimp only
  by_cases hsignal : (s.procs.sched.task t).exitState = taskExitSignal
  · rw [if_pos hsignal, if_pos hsignal]
    exact ⟨⟨[], rfl⟩, rfl⟩
  · rw [if_neg hsignal, if_neg hsignal]
    exact ⟨⟨["Signal".toList], rfl⟩, rfl⟩

lemma newline_not_mem_printedFields (hname : '\n' ∉ s.shownName t) :
    ∀ e ∈ s.printedFields t, '\n' ∉ e.2 := by
  have hstate : '\n' ∉ stateWord (s.procs.sched.task t).state := by
    cases (s.procs.sched.task t).state <;> decide
  have htype : '\n' ∉ (if s.procs.hasMm t then "user".toList else "kthread".toList) := by
    split_ifs <;> decide
  have hcwd : '\n' ∉ "/".toList := by decide
  refine forall_mem_append.mpr ⟨?_, ?_⟩
  · simp only [forall_mem_cons, newline_not_mem_u32Text, not_false_eq_true, true_and]
    exact ⟨hname, hstate, htype, hcwd, fun e he => absurd he not_mem_nil⟩
  · split_ifs
    · rw [forall_mem_singleton]
      exact newline_not_mem_u32Text _
    · exact fun e he => absurd he not_mem_nil

lemma statusDescribes_iff (s : ProcFs) (t : Nat) :
    s.StatusDescribes t (s.statusParts t).flatten ↔
      '\n' ∉ s.shownName t ∧ s.printedFields t = s.taskFields t := by
  have hnodup : statusKeys.Nodup := by decide
  have hkeys : ∀ key ∈ statusKeys, ':' ∉ key ∧ '\n' ∉ key := by decide
  obtain ⟨hall, hsame⟩ := s.keys_printedFields t
  have hfind : '\n' ∉ s.shownName t → ∀ e ∈ s.taskFields t,
      fieldOf (s.statusParts t).flatten e.1 = (s.printedFields t).lookup e.1 := by
    intro hname e he
    have hkey := hkeys e.1 (hall.subset (hsame ▸ mem_map_of_mem he))
    rw [flatten_statusParts]
    refine fieldOf_lines hkey.1 fun r hr => ?_
    have hr' := hkeys r.1 (hall.subset (mem_map_of_mem hr))
    refine ⟨hr'.1, fun hmem => ?_⟩
    rcases mem_append.mp hmem with hmem | hmem
    · exact hr'.2 hmem
    · have hmem' : '\n' ∈ r.2 := by simpa using hmem
      exact newline_not_mem_printedFields hname r hr hmem'
  have hiff := @forall_lookup_iff _ _ hsame (hnodup.sublist hall.sublist)
  constructor
  · intro h
    have hname : '\n' ∉ s.shownName t :=
      newline_not_mem_of_fieldOf (h ("Name".toList, s.shownName t) mem_cons_self)
    exact ⟨hname, hiff.mp fun e he => (hfind hname e he).symm.trans (h e he)⟩
  · rintro ⟨hname, heq⟩ e he
    rw [hfind hname e he]
    exact hiff.mpr heq e he

/-! ### The texts -/

/-- The `stat` of a task whose pid is shown as it is. -/
lemma statDescribes_iff (hpid : (s.procs.sched.task t).pid < 2 ^ 31) :
    s.StatDescribes t (s.statParts t).flatten ↔ (s.procs.sched.task t).wakeJiffies < 2 ^ 31 := by
  unfold StatDescribes statParts
  dsimp only
  rw [u32Text_eq_decimal_iff.mpr hpid, ← u32Text_eq_decimal_iff]
  simp only [flatten_cons, flatten_nil, append_nil, append_assoc, append_cancel_left_eq,
    append_cancel_right_eq]

lemma flatten_mapsParts (s : ProcFs) (t : Nat) : (s.mapsParts t).flatten = s.areaLines t := by
  have hline : ∀ v, (mapsLine v).flatten = areaLine v := by
    intro v
    have hhex : ∀ n, hexText n = '0' :: 'x' :: hexadecimal n := by
      intro n
      unfold hexText itoa hexadecimal
      split_ifs <;> first | rfl | omega
    unfold mapsLine areaLine
    simp only [hhex, flatten_cons, flatten_nil, append_nil, append_assoc]
    split_ifs <;> rfl
  unfold mapsParts areaLines
  split_ifs
  · rw [flatMap_def, flatten_flatten, List.map_map, flatMap_def]
    exact congrArg flatten (map_congr_left fun v _ => hline v)
  · rfl

lemma length_shownName_le (s : ProcFs) (t : Nat) : (s.shownName t).length ≤ 31 := by
  unfold shownName
  split_ifs
  · exact Nat.le_of_ble_eq_true rfl
  · exact length_take_le _ _

lemma length_stateWord_le (x : TaskState) : (stateWord x).length ≤ 8 := by
  cases x <;> decide

lemma length_stateLetter_le (x : TaskState) : (stateLetter x).length ≤ 1 := by
  cases x <;> decide

lemma length_statParts_le (s : ProcFs) (t : Nat) : (s.statParts t).flatten.length ≤ 255 := by
  have hparts : List.Forall₂ (fun (s : Text) n => s.length ≤ n) (s.statParts t)
      [11, 2, 31, 2, 1, 1, 11, 1] := by
    simp only [statParts, forall₂_cons, length_u32Text_le, length_shownName_le,
      length_stateLetter_le, forall₂_nil_left_iff, true_and, and_true]
    decide
  exact (length_flatten_le hparts).trans (by decide)

lemma length_statusParts_le (s : ProcFs) (t : Nat) : (s.statusParts t).flatten.length ≤ 255 := by
  have htype : (if s.procs.hasMm t then "user".toList else "kthread".toList).length ≤ 7 := by
    split_ifs
    · decide
    · decide
  have hlines : List.Forall₂ (fun (s : Text) n => s.length ≤ n) (s.statusLines t)
      [6, 31, 8, 8, 7, 11, 6, 11, 7, 11, 7, 7, 6, 1, 11, 11, 12, 11] := by
    simp only [statusLines, forall₂_cons, length_u32Text_le, length_shownName_le,
      length_stateWord_le, htype, forall₂_nil_left_iff, true_and, and_true]
    decide
  have hsignal : (s.signalLine t).flatten.length ≤ 20 := by
    have hinfo := length_u32Text_le (s.procs.sched.task t).exitInfo0
    unfold signalLine
    dsimp only
    split_ifs
    · rw [flatten_cons, flatten_singleton, length_append]
      exact add_le_add (by decide : _ ≤ 9) hinfo
    · exact Nat.zero_le _
  have hlen := length_flatten_le hlines
  have hsum : [6, 31, 8, 8, 7, 11, 6, 11, 7, 11, 7, 7, 6, 1, 11, 11, 12, 11].sum = 172 := rfl
  rw [statusParts, flatten_append, flatten_append, length_append, length_append]
  have hend : ["\n".toList].flatten.length = 1 := rfl
  omega

/-- Two texts that are read alike everywhere are the same. -/
lemma forall_drop_take_iff {a b : Text} :
    (∀ offset size, (a.drop offset).take size = (b.drop offset).take size) ↔ a = b := by
  constructor
  · intro h
    have h0 := h 0 (max a.length b.length)
    rwa [drop_zero, drop_zero, take_of_length_le (le_max_left _ _),
      take_of_length_le (le_max_right _ _)] at h0
  · rintro rfl offset size
    rfl

variable {i : Nat} {P : Text → Prop}

/-- A file of an entry shows the text that its read function dumps. -/
lemma shows_iff {f : PidFile} {dump : Text}
    (hfile : s.procPidFinddir (.pidDir i) name = some (.file f pid))
    (hread : ∀ offset size, s.read f pid offset size = copyOut dump offset size) :
    s.Shows (.pidDir i) name P ↔ P dump := by
  constructor
  · rintro ⟨f', impl, text, hfile', htext, hshow⟩
    rw [hfile] at hfile'
    cases hfile'
    have hdump : dump = text := by
      refine forall_drop_take_iff.mp fun offset size => ?_
      rw [← hshow, hread, copyOut_eq]
    rwa [hdump]
  · intro h
    refine ⟨f, pid, dump, hfile, h, fun offset size => ?_⟩
    rw [hread, copyOut_eq]

section

variable (hi : i < procPidMax) (hpid : s.pids i = some pid)
include hi hpid

lemma shows_stat_iff :
    s.Shows (.pidDir i) "stat".toList P ↔
      P (s.taskDumpPid s.statParts (s.pidShown pid) 256) := by
  refine @shows_iff s pid _ i P .stat _ ?_ fun _ _ => rfl
  rw [procPidFinddir, if_neg (not_le.mpr hi), hpid]
  rfl

lemma shows_status_iff :
    s.Shows (.pidDir i) "status".toList P ↔ P (s.taskDumpPid s.statusParts pid 256) := by
  refine @shows_iff s pid _ i P .status _ ?_ fun _ _ => rfl
  rw [procPidFinddir, if_neg (not_le.mpr hi), hpid]
  rfl

lemma shows_maps_iff :
    s.Shows (.pidDir i) "maps".toList P ↔
      P (s.taskDumpPid s.mapsParts (s.pidShown pid) 2048) := by
  refine @shows_iff s pid _ i P .maps _ ?_ fun _ _ => rfl
  rw [procPidFinddir, if_neg (not_le.mpr hi), hpid]
  rfl

end

section

variable (ht : s.findTask pid = some t)
include ht

lemma taskDumpPid_of_findTask {parts : Nat → List Text} {cap : Nat} :
    s.taskDumpPid parts pid cap = fillBuffer cap (parts t) := by
  rw [taskDumpPid, ht]

lemma pid_of_findTask : (s.procs.sched.task t).pid = pid :=
  of_decide_eq_true (List.find?_eq_some_iff_append.mp ht).1

end

/-- The files of a pid describe its task exactly if that can be told in them. -/
lemma dumps_describe_iff (ht : s.findTask p = some t) :
    s.StatDescribes t (s.taskDumpPid s.statParts (s.pidShown p) 256) ∧
      s.StatusDescribes t (s.taskDumpPid s.statusParts p 256) ∧
      s.taskDumpPid s.mapsParts (s.pidShown p) 2048 = s.areaLines t ↔ s.Plain t := by
  have hstatus : s.taskDumpPid s.statusParts p 256 = (s.statusParts t).flatten := by
    rw [taskDumpPid_of_findTask ht]
    exact fillBuffer_of_le (s.length_statusParts_le t)
  have hstat : s.taskDumpPid s.statParts p 256 = (s.statParts t).flatten := by
    rw [taskDumpPid_of_findTask ht]
    exact fillBuffer_of_le (s.length_statParts_le t)
  have hmaps : s.taskDumpPid s.mapsParts p 2048 = (s.areaLines t).take 2047 := by
    rw [taskDumpPid_of_findTask ht, fillBuffer_eq, flatten_mapsParts]
  have hshown : (s.procs.sched.task t).pid < 2 ^ 31 → s.pidShown p = p := by
    intro hpid
    rw [pid_of_findTask ht] at hpid
    refine if_neg fun h => ?_
    rw [h] at hpid
    exact absurd hpid (by decide)
  have hfit : (s.areaLines t).take 2047 = s.areaLines t ↔ (s.areaLines t).length < 2048 := by
    rw [take_eq_self_iff]
    omega
  rw [hstatus, statusDescribes_iff, printedFields_eq_iff]
  constructor
  · rintro ⟨hs, ⟨hname, hpid, hppid, hcwd, hsignal⟩, hm⟩
    rw [hshown hpid, hstat, statDescribes_iff hpid] at hs
    rw [hshown hpid, hmaps, hfit] at hm
    exact ⟨hpid, hppid, hs, hsignal, hname, hcwd, hm⟩
  · rintro ⟨hpid, hppid, hwake, hsignal, hname, hcwd, hm⟩
    rw [hshown hpid, hstat, statDescribes_iff hpid, hmaps, hfit]
    exact ⟨hwake, ⟨hname, hpid, hppid, hcwd, hsignal⟩, hm⟩

lemma procGetPidDir_of_mem_or_room (hl : s.Holds l)
    (h : p ∈ l.take procPidMax ∨ l.length < procPidMax) :
    ∃ i < procPidMax, ∃ u : Nat → Option Nat, u i = some p ∧
      s.procGetPidDir p = (some (.pidDir i), { s with pids := u }) := by
  by_cases hm : p ∈ l.take procPidMax
  · obtain ⟨i, hi, hpid, hget⟩ := procGetPidDir_of_mem hl hm
    exact ⟨i, hi, s.pids, hpid, hget⟩
  · have hroom := h.resolve_left hm
    exact ⟨l.length, hroom, _, update_self _ _ _, procGetPidDir_of_room hl hm hroom⟩

/-- What the table and the task have to be like for a pid that has a task. -/
lemma Mounted.serves_iff_of_findTask (hs : s.Mounted l) (hp : p < 2 ^ 32)
    (ht : s.findTask p = some t) :
    s.Serves p ↔ (p ∈ l.take procPidMax ∨ l.length < procPidMax) ∧ s.Plain t := by
  have hdir := hs.procFinddir_of_number (parseU32_decimal hp)
  rw [Serves, ht]
  rw [hdir]
  by_cases hroom : p ∈ l.take procPidMax ∨ l.length < procPidMax
  · obtain ⟨i, hi, u, hu, hget⟩ := procGetPidDir_of_mem_or_room hs.holds hroom
    have hu' : ({ s with pids := u } : ProcFs).pids i = some p := hu
    rw [hget, ← dumps_describe_iff ht]
    constructor
    · rintro ⟨dir, s', heq, hstat, hstatus, hmaps⟩
      cases heq
      exact ⟨hroom, (shows_stat_iff hi hu').mp hstat, (shows_status_iff hi hu').mp hstatus,
        (shows_maps_iff hi hu').mp hmaps⟩
    · rintro ⟨-, hstat, hstatus, hmaps⟩
      exact ⟨_, _, rfl, (shows_stat_iff hi hu').mpr hstat, (shows_status_iff hi hu').mpr hstatus,
        (shows_maps_iff hi hu').mpr hmaps⟩
  · obtain ⟨hm, hfull⟩ := not_or.mp hroom
    rw [procGetPidDir_of_full hs.holds hm (Nat.le_of_not_lt hfull)]
    refine iff_of_false ?_ fun h => hroom h.1
    rintro ⟨dir, s', heq, -⟩
    cases heq

/-- What the table has to be like for a pid that has no task. -/
lemma Mounted.serves_iff_of_not_findTask (hs : s.Mounted l) (hp : p < 2 ^ 32)
    (ht : s.findTask p = none) :
    s.Serves p ↔ p ∉ l.take procPidMax ∧ procPidMax ≤ l.length := by
  have hdir := hs.procFinddir_of_number (parseU32_decimal hp)
  rw [Serves, ht]
  rw [hdir]
  by_cases hroom : p ∈ l.take procPidMax ∨ l.length < procPidMax
  · obtain ⟨i, -, u, -, hget⟩ := procGetPidDir_of_mem_or_room hs.holds hroom
    rw [hget]
    refine iff_of_false (some_ne_none _) ?_
    rintro ⟨hm, hfull⟩
    exact hroom.elim hm (not_lt.mpr hfull)
  · obtain ⟨hm, hfull⟩ := not_or.mp hroom
    rw [procGetPidDir_of_full hs.holds hm (Nat.le_of_not_lt hfull)]
    exact iff_of_true rfl ⟨hm, Nat.le_of_not_lt hfull⟩

/-- The idle task and init, before `/proc` is mounted. -/
def twoTasks : ProcFs where
  procs :=
    { sched :=
        { task := fun t =>
            { pid := t, realParent := none, parent := none, wakeJiffies := 0, state := .runnable,
              timeSlice := 3, exitCode := 0, exitState := 0, exitInfo0 := 0, exitInfo1 := 0,
              waitq := none }
          wait := ⟨id, id⟩
          kin := ⟨id, id⟩
          taskList := [0, 1]
          needResched := false }
      usage := fun _ => 1
      hasMm := fun t => decide (t = 1)
      allocated := fun t => decide (t ≤ 1)
      waiting := fun _ => none
      lastPid := 1
      idle := 0
      panicked := false }
  current := some 1
  comm _ := "init".toList
  cwd _ := "/".toList
  mmap _ := [⟨0, 0x8048000, 0x8049000, ⟨true, false, true⟩, 1⟩]
  pids _ := none
  rootChildren := []

/-- Init forks task 2, and a name without a task and that of the child are looked up. -/
def forkAndLookup : List Op :=
  [.process (.fork 1 (some 2)), .lookup "99".toList, .lookup "2".toList]

/-- The numbers from 100 to 114 are looked up. -/
def lookupStrangers : List Op :=
  (List.range 15).map fun i => .lookup (decimal (100 + i))

end ProcFs
end LiteKernel.Fs.Proc
