import LiteKernel.Fs.Proc

/-!
# Reads of a part of `/proc/mounts` and `/proc/tasks`

Each read makes the whole text again, piece by piece, and `proc_seq_emit_bytes` copies what lies
in the window of the caller, in 32-bit arithmetic. Each emitted piece is known by its length, so
the invariant of a read is what was copied of the pieces so far: `Emitted` for a window that ends
below 4 GB, and `Clipped` for one whose end wraps around.

Main results:

- Theorem `procReads_exact`: a read of the mounts or tasks is its part of the text exactly if its
  window ends below 4 GB or starts behind the text, and consecutive reads of this kind return the
  text.
- Theorem `procReadMounts_wraps`: a window that wraps to 0 loses the whole text.
-/

namespace LiteKernel.Fs.Proc

open Kernel List

/-- `struct proc_seq_state`, with `out_off` the length of `out` and `full` that it is full. -/
structure SeqState where
  pos : Nat
  start : Nat
  stop : Nat
  out : Text
  outCap : Nat

def procSeqEmitBytes (st : SeqState) (s : Text) : SeqState :=
  let n := s.length % 2 ^ 32
  if n = 0 ∨ st.outCap ≤ st.out.length then st
  else
    let segStart := st.pos
    let segEnd := (st.pos + n) % 2 ^ 32
    let st := { st with pos := segEnd }
    if segEnd ≤ st.start then st
    else if st.stop ≤ segStart then st
    else
      -- 0 if the window starts before the piece
      let copyFrom := st.start - segStart
      let maxToEnd := (st.stop + 2 ^ 32 - (segStart + copyFrom)) % 2 ^ 32
      let copyLen := min (n - copyFrom) (min maxToEnd (st.outCap - st.out.length))
      { st with out := st.out ++ (s.drop copyFrom).take copyLen }

/-- A row of the loop over the mounts or tasks, which ends when the buffer is full. -/
def emitRow (st : SeqState) (row : List Text) : SeqState :=
  if st.outCap ≤ st.out.length then st else row.foldl procSeqEmitBytes st

/-- A read of the pieces `head` and of the rows behind them. -/
def procSeqRead (head : List Text) (rows : List (List Text)) (offset size : UInt32) : Text :=
  if size = 0 then []
  else (rows.foldl emitRow (head.foldl procSeqEmitBytes
    ⟨0, offset.toNat, (offset + size).toNat, [], size.toNat⟩)).out

/-- A `struct vfsmount`: the name of its super block and its path, if they are not `NULL`. -/
structure Mount where
  name : Option Text
  path : Option Text

def Mount.row (m : Mount) : List Text :=
  match m.name, m.path with
  | some name, some path => [name, [' '], path, ['\n']]
  | _, _ => []

def procReadMounts (mounts : List Mount) (offset size : UInt32) : Text :=
  procSeqRead [] (mounts.map Mount.row) offset size

def stateName : TaskState → String
  | .runnable => "RUNNABLE"
  | .sleeping => "SLEEPING"
  | .blocked => "BLOCKED"
  | .zombie => "ZOMBIE"

def tasksHeader : String :=
  "PID   STATE     WAKE    CURRENT  NAME\n"

def ProcFs.taskRow (s : ProcFs) (t : Nat) : List Text :=
  let task := s.procs.sched.task t
  let name := (s.comm t).takeWhile (· ≠ Char.ofNat 0)
  [decimal task.pid, "    ".toList, (stateName task.state).toList, "  ".toList,
    decimal task.wakeJiffies, "    ".toList, (if s.current = some t then "yes" else "no").toList,
    "     ".toList, if name = [] then ['-'] else name, ['\n']]

def ProcFs.procReadTasks (s : ProcFs) (offset size : UInt32) : Text :=
  procSeqRead [tasksHeader.toList] (s.procs.sched.taskList.map s.taskRow) offset size

/-- The window of a read in a text. -/
def window (text : Text) (offset size : Nat) : Text :=
  (text.drop offset).take size

/-- What the state is when the pieces so far make up `text`. -/
def Emitted (offset size : Nat) (text : Text) (st : SeqState) : Prop :=
  ∃ pos, st = ⟨pos, offset, offset + size, window text offset size, size⟩ ∧
    (text.length - offset < size → pos = text.length)

variable {offset size : Nat} {text s : Text} {st : SeqState}

lemma length_window : (window text offset size).length = min size (text.length - offset) := by
  rw [window, length_take, length_drop]

lemma Emitted.emitBytes (h : Emitted offset size text st) (hend : offset + size < 2 ^ 32)
    (hlen : (text ++ s).length < 2 ^ 32) :
    Emitted offset size (text ++ s) (procSeqEmitBytes st s) := by
  obtain ⟨pos, hst, hpos⟩ := h
  rw [length_append] at hlen
  -- in each case a part of the piece is appended, which may be empty
  obtain ⟨pos', k, heq, hk, hpos'⟩ : ∃ pos' k, procSeqEmitBytes st s = ⟨pos', offset, offset + size,
        window text offset size ++ (s.drop (offset - text.length)).take k, size⟩ ∧
      min k (s.length - (offset - text.length)) =
        min (size - (text.length - offset)) (s.length - (offset - text.length)) ∧
      (text.length + s.length - offset < size → pos' = text.length + s.length) := by
    subst hst
    unfold procSeqEmitBytes
    dsimp only
    rw [length_window, Nat.mod_eq_of_lt (show s.length < 2 ^ 32 by omega)]
    split_ifs with hskip hbefore hafter
    · exact ⟨pos, 0, by rw [take_zero, append_nil], by omega, by omega⟩
    all_goals obtain rfl := hpos (by omega)
    · exact ⟨_, 0, by rw [take_zero, append_nil], by omega, by omega⟩
    · omega
    · have hmax : (offset + size + 2 ^ 32 - (text.length + (offset - text.length))) % 2 ^ 32 =
          size - (text.length - offset) := by omega
      rw [hmax, min_eq_right (show text.length - offset ≤ size by omega), min_self]
      exact ⟨_, _, rfl, by omega, by omega⟩
  rw [← length_drop, ← take_eq_take_iff] at hk
  refine ⟨pos', heq.trans ?_, by rwa [length_append]⟩
  rw [window, window, drop_append, take_append, length_drop, hk]

lemma emitRow_eq (st : SeqState) (row : List Text) :
    emitRow st row = row.foldl procSeqEmitBytes st := by
  unfold emitRow
  split
  case isTrue hfull =>
    refine (foldlRecOn (motive := (· = st)) _ _ rfl fun t ht s _ => ?_).symm
    rw [ht, procSeqEmitBytes, if_pos (.inr hfull)]
  case isFalse => rfl

lemma Emitted.emitAll {pieces : List Text} (h : Emitted offset size text st)
    (hend : offset + size < 2 ^ 32) (hlen : (text ++ pieces.flatten).length < 2 ^ 32) :
    Emitted offset size (text ++ pieces.flatten) (pieces.foldl procSeqEmitBytes st) := by
  induction pieces generalizing text st with
  | nil => rwa [flatten_nil, append_nil]
  | cons s pieces ih =>
    rw [flatten_cons, ← append_assoc] at hlen ⊢
    refine ih (h.emitBytes hend ?_) hlen
    rw [length_append] at hlen
    omega

lemma procSeqRead_eq_foldl (head : List Text) (rows : List (List Text)) {offset size : UInt32}
    (hsize : size ≠ 0) :
    procSeqRead head rows offset size = ((head ++ rows.flatten).foldl procSeqEmitBytes
      ⟨0, offset.toNat, (offset + size).toNat, [], size.toNat⟩).out := by
  rw [procSeqRead, if_neg hsize, funext₂ emitRow_eq, ← foldl_flatten, ← foldl_append]

lemma procSeqRead_eq {head : List Text} {rows : List (List Text)} {offset size : UInt32}
    (hend : offset.toNat + size.toNat < 2 ^ 32)
    (hlen : (head ++ rows.flatten).flatten.length < 2 ^ 32) :
    procSeqRead head rows offset size =
      window (head ++ rows.flatten).flatten offset.toNat size.toNat := by
  by_cases hsize : size = 0
  · rw [procSeqRead, if_pos hsize, hsize]
    rfl
  · have hstart : Emitted offset.toNat size.toNat []
        ⟨0, offset.toNat, (offset + size).toNat, [], size.toNat⟩ := by
      refine ⟨0, ?_, fun _ => rfl⟩
      rw [window, drop_nil, take_nil, UInt32.toNat_add, Nat.mod_eq_of_lt hend]
    obtain ⟨pos, heq, -⟩ := hstart.emitAll hend hlen
    rw [procSeqRead_eq_foldl head rows hsize, heq, nil_append]

/-! ## Windows whose end wraps around -/

/-- The pieces so far make up `text`, and at most its part behind the start was copied. -/
def Clipped (offset stop size : Nat) (text : Text) (st : SeqState) : Prop :=
  ∃ out, st = ⟨text.length, offset, stop, out, size⟩ ∧ out.length ≤ text.length - offset

/-- A piece that starts behind the wrapped end is left out. -/
lemma emitBytes_of_stop_le (h : st.stop ≤ st.pos) : (procSeqEmitBytes st s).out = st.out := by
  unfold procSeqEmitBytes
  dsimp only
  split_ifs
  · rfl
  · rfl
  · rfl

lemma Clipped.emitBytes {stop : Nat} (h : Clipped offset stop size text st) (hwrap : stop < offset)
    (hlen : (text ++ s).length < 2 ^ 32) (hroom : (text ++ s).length - offset < size) :
    Clipped offset stop size (text ++ s) (procSeqEmitBytes st s) := by
  obtain ⟨out, rfl, hout⟩ := h
  rw [length_append] at hlen hroom
  unfold procSeqEmitBytes
  dsimp only
  rw [Nat.mod_eq_of_lt (show s.length < 2 ^ 32 by omega),
    Nat.mod_eq_of_lt (show text.length + s.length < 2 ^ 32 by omega)]
  unfold Clipped
  rw [length_append]
  split_ifs with hskip hbefore hafter
  · rw [show s.length = 0 by omega]
    exact ⟨out, rfl, hout⟩
  · exact ⟨out, rfl, by omega⟩
  · exact ⟨out, rfl, by omega⟩
  · refine ⟨_, rfl, ?_⟩
    have htake : ∀ k, ((s.drop (offset - text.length)).take k).length ≤
        s.length - (offset - text.length) := fun k => by
      rw [length_take, length_drop]
      exact min_le_right ..
    rw [length_append]
    refine (Nat.add_le_add_left (htake _) _).trans ?_
    omega

lemma Clipped.emitAll {stop : Nat} {pieces : List Text} (h : Clipped offset stop size text st)
    (hwrap : stop < offset) (hlen : (text ++ pieces.flatten).length < 2 ^ 32)
    (hroom : (text ++ pieces.flatten).length - offset < size) :
    Clipped offset stop size (text ++ pieces.flatten) (pieces.foldl procSeqEmitBytes st) := by
  induction pieces generalizing text st with
  | nil => rwa [flatten_nil, append_nil]
  | cons s pieces ih =>
    rw [flatten_cons, ← append_assoc] at hlen hroom ⊢
    refine ih (h.emitBytes hwrap ?_ ?_) hlen hroom
    · rw [length_append] at hlen
      omega
    · rw [length_append] at hroom
      omega

lemma clipped_foldl {pieces : List Text} {offset size : UInt32}
    (hend : 2 ^ 32 ≤ offset.toNat + size.toNat) (hlen : pieces.flatten.length < 2 ^ 32) :
    Clipped offset.toNat (offset.toNat + size.toNat - 2 ^ 32) size.toNat pieces.flatten
      (pieces.foldl procSeqEmitBytes
        ⟨0, offset.toNat, (offset + size).toNat, [], size.toNat⟩) := by
  have hoff := offset.toNat_lt
  have hsize := size.toNat_lt
  have hstop : (offset + size).toNat = offset.toNat + size.toNat - 2 ^ 32 := by
    rw [UInt32.toNat_add]
    omega
  rw [hstop, ← nil_append pieces.flatten]
  refine Clipped.emitAll ⟨[], rfl, Nat.zero_le _⟩ (by omega) hlen ?_
  rw [nil_append]
  omega

lemma ne_zero_of_wraps {offset size : UInt32} (hend : 2 ^ 32 ≤ offset.toNat + size.toNat) :
    size ≠ 0 := by
  rintro rfl
  have hoff := offset.toNat_lt
  rw [UInt32.toNat_zero] at hend
  omega

/-- With a wrapped end the last character is never returned if it is a piece of its own. -/
lemma procSeqRead_ne {head init : List Text} {rows : List (List Text)} {offset size : UInt32}
    (hend : 2 ^ 32 ≤ offset.toNat + size.toNat) (hpieces : head ++ rows.flatten = init ++ [['\n']])
    (hlen : (head ++ rows.flatten).flatten.length < 2 ^ 32)
    (hoff : offset.toNat < (head ++ rows.flatten).flatten.length) :
    procSeqRead head rows offset size ≠
      window (head ++ rows.flatten).flatten offset.toNat size.toNat := by
  have hone : [['\n']].flatten.length = 1 := rfl
  have hsize := size.toNat_lt
  rw [procSeqRead_eq_foldl head rows (ne_zero_of_wraps hend), hpieces]
  rw [hpieces, flatten_append, length_append, hone] at hlen hoff
  obtain ⟨out, heq, hout⟩ := clipped_foldl hend (show init.flatten.length < 2 ^ 32 by omega)
  -- the last piece starts behind the end, which is below the offset
  have hlast : (procSeqEmitBytes ⟨init.flatten.length, offset.toNat,
      offset.toNat + size.toNat - 2 ^ 32, out, size.toNat⟩ ['\n']).out = out :=
    emitBytes_of_stop_le (by dsimp only; omega)
  intro hread
  rw [foldl_append, heq, foldl_cons, foldl_nil, hlast] at hread
  have hwin := congrArg length hread
  rw [length_window, flatten_append, length_append, hone] at hwin
  omega

/-- The last piece of rows that end with a line break. -/
lemma flatten_rows {rows : List (List Text)}
    (h : ∀ row ∈ rows, row = [] ∨ ∃ init, row = init ++ [['\n']]) :
    rows.flatten = [] ∨ ∃ init, rows.flatten = init ++ [['\n']] := by
  induction rows with
  | nil => exact .inl rfl
  | cons row rows ih =>
    obtain ⟨hrow, hrows⟩ := forall_mem_cons.mp h
    rw [flatten_cons]
    rcases ih hrows with hnil | ⟨init, hinit⟩
    · rw [hnil, append_nil]
      exact hrow
    · exact .inr ⟨row ++ init, by rw [hinit, append_assoc]⟩

/-! ## The reads -/

/-- The window ends below 4 GB, or the text is over before it starts. -/
def Fits (text : Text) (offset size : Nat) : Prop :=
  offset + size < 2 ^ 32 ∨ text.length ≤ offset

/-- Each read of a row of reads fits. -/
def FitsAll (text : Text) : Nat → List UInt32 → Prop
  | _, [] => True
  | offset, size :: sizes =>
    Fits text offset size.toNat ∧ FitsAll text (min (offset + size.toNat) text.length) sizes

/-- Reads one behind the other, of these sizes. -/
def readAll (read : UInt32 → UInt32 → Text) : UInt32 → List UInt32 → Text
  | _, [] => []
  | offset, size :: sizes =>
    let part := read offset size
    part ++ readAll read (offset + UInt32.ofNat part.length) sizes

lemma procSeqRead_of_fits {head : List Text} {rows : List (List Text)} {offset size : UInt32}
    (hlen : (head ++ rows.flatten).flatten.length < 2 ^ 32)
    (hfits : Fits (head ++ rows.flatten).flatten offset.toNat size.toNat) :
    procSeqRead head rows offset size =
      window (head ++ rows.flatten).flatten offset.toNat size.toNat := by
  rcases Nat.lt_or_ge (offset.toNat + size.toNat) (2 ^ 32) with hend | hend
  · exact procSeqRead_eq hend hlen
  · -- the text is over, so nothing was copied
    have hover := hfits.resolve_left (Nat.not_lt.mpr hend)
    obtain ⟨out, heq, hout⟩ := clipped_foldl hend hlen
    rw [Nat.sub_eq_zero_of_le hover, Nat.le_zero, length_eq_zero_iff] at hout
    rw [procSeqRead_eq_foldl head rows (ne_zero_of_wraps hend), heq, window,
      drop_of_length_le hover, take_nil]
    exact hout

/-- Where a line break is the last piece, a read is right exactly if it fits. -/
lemma procSeqRead_eq_iff {head : List Text} {rows : List (List Text)} {offset size : UInt32}
    (hlen : (head ++ rows.flatten).flatten.length < 2 ^ 32)
    (hlast : head ++ rows.flatten = [] ∨ ∃ init, head ++ rows.flatten = init ++ [['\n']]) :
    procSeqRead head rows offset size =
        window (head ++ rows.flatten).flatten offset.toNat size.toNat ↔
      Fits (head ++ rows.flatten).flatten offset.toNat size.toNat := by
  refine ⟨fun hread => ?_, procSeqRead_of_fits hlen⟩
  by_contra hnot
  obtain ⟨hend, hoff⟩ := not_or.mp hnot
  rw [not_lt] at hend
  rw [not_le] at hoff
  rcases hlast with hnil | ⟨init, hinit⟩
  · rw [hnil] at hoff
    exact Nat.not_lt_zero _ hoff
  · exact procSeqRead_ne hend hinit hlen hoff hread

/-- A single piece is also copied if it starts before the wrapped end. -/
lemma procSeqRead_single_iff {offset size : UInt32} (hlen : s.length < 2 ^ 32) :
    procSeqRead [s] [] offset size = window s offset.toNat size.toNat ↔
      Fits s offset.toNat size.toNat ∨ 2 ^ 32 < offset.toNat + size.toNat := by
  have hpieces : ([s] ++ [].flatten).flatten = s := by simp
  rcases Nat.lt_or_ge (offset.toNat + size.toNat) (2 ^ 32) with hend | hend
  · refine iff_of_true ?_ (.inl (.inl hend))
    rw [procSeqRead_eq hend (by rwa [hpieces]), hpieces]
  rcases Nat.lt_or_ge offset.toNat s.length with hoff | hover
  · have hsize := size.toNat_lt
    have hstop : (offset + size).toNat = offset.toNat + size.toNat - 2 ^ 32 := by
      rw [UInt32.toNat_add]
      omega
    have hfits : ¬ Fits s offset.toNat size.toNat := fun h => by
      rcases h with h | h <;> omega
    have hwin : window s offset.toNat size.toNat = s.drop offset.toNat := by
      rw [window, take_of_length_le]
      rw [length_drop]
      omega
    rw [procSeqRead_eq_foldl _ _ (ne_zero_of_wraps hend), hwin, hstop, or_iff_right hfits]
    rw [show [s] ++ [].flatten = [s] from rfl, foldl_cons, foldl_nil, procSeqEmitBytes]
    dsimp only
    rw [Nat.mod_eq_of_lt hlen, length_nil, Nat.zero_add, Nat.zero_add, Nat.mod_eq_of_lt hlen,
      if_neg (by omega), if_neg (by omega)]
    split_ifs with hbehind
    · refine iff_of_false (fun hnil => ?_) (by omega)
      have hdrop := congrArg length hnil
      rw [length_nil, length_drop] at hdrop
      omega
    · have hmax : (offset.toNat + size.toNat - 2 ^ 32 + 2 ^ 32 - (offset.toNat - 0)) % 2 ^ 32 =
          size.toNat := by omega
      refine iff_of_true ?_ (by omega)
      rw [hmax, Nat.sub_zero, Nat.sub_zero, min_self, min_eq_left (by omega), nil_append,
        ← length_drop, take_length]
  · refine iff_of_true ?_ (.inl (.inr hover))
    have hfits : Fits ([s] ++ [].flatten).flatten offset.toNat size.toNat := by
      rw [hpieces]
      exact .inr hover
    rw [procSeqRead_of_fits (by rwa [hpieces]) hfits, hpieces]

/-- The text is below 4 GB; then a read is its part of the text if and only if it is `Fine`, and a
row of reads that fit gives the start of the text. -/
def ReadsExactly (read : UInt32 → UInt32 → Text) (text : Text) (Fine : Nat → Nat → Prop) : Prop :=
  text.length < 2 ^ 32 →
    (∀ offset size, read offset size = window text offset.toNat size.toNat ↔
      Fine offset.toNat size.toNat) ∧
    ∀ sizes, FitsAll text 0 sizes →
      readAll read 0 sizes = text.take (sizes.map UInt32.toNat).sum

lemma readAll_eq {read : UInt32 → UInt32 → Text} (hlen : text.length < 2 ^ 32)
    (hread : ∀ offset size, Fits text offset.toNat size.toNat →
      read offset size = window text offset.toNat size.toNat)
    {sizes : List UInt32} {offset : UInt32} (hsizes : FitsAll text offset.toNat sizes)
    (hle : offset.toNat ≤ text.length) :
    readAll read offset sizes = window text offset.toNat (sizes.map UInt32.toNat).sum := by
  induction sizes generalizing offset with
  | nil => rfl
  | cons size sizes ih =>
    obtain ⟨hsize, hsizes⟩ := hsizes
    have hnext : (offset + UInt32.ofNat (window text offset.toNat size.toNat).length).toNat =
        min (offset.toNat + size.toNat) text.length := by
      rw [UInt32.toNat_add, UInt32.toNat_ofNat', length_window]
      omega
    rw [← hnext] at hsizes
    rw [readAll, hread offset size hsize, ih hsizes (by omega), hnext, map_cons, sum_cons,
      window, window, window, take_add, drop_drop]
    rcases le_total (offset.toNat + size.toNat) text.length with hle | hle
    · rw [min_eq_left hle]
    · rw [min_eq_right hle, drop_length, drop_of_length_le hle]

lemma readsExactly_procSeqRead {head : List Text} {rows : List (List Text)}
    (hlast : head ++ rows.flatten = [] ∨ ∃ init, head ++ rows.flatten = init ++ [['\n']]) :
    ReadsExactly (procSeqRead head rows) (head ++ rows.flatten).flatten
      (Fits (head ++ rows.flatten).flatten) := by
  intro hlen
  exact ⟨fun _ _ => procSeqRead_eq_iff hlen hlast, fun sizes hsizes =>
    readAll_eq hlen (fun _ _ => procSeqRead_of_fits hlen) hsizes (Nat.zero_le _)⟩

lemma Mount.row_last (m : Mount) : m.row = [] ∨ ∃ init, m.row = init ++ [['\n']] := by
  obtain ⟨_ | name, _ | path⟩ := m
  · exact .inl rfl
  · exact .inl rfl
  · exact .inl rfl
  · exact .inr ⟨[name, [' '], path], rfl⟩

lemma ProcFs.taskRow_last (p : ProcFs) (t : Nat) : ∃ init, p.taskRow t = init ++ [['\n']] :=
  ⟨(p.taskRow t).take 9, rfl⟩

/-- The heading and the rows of at least one task. -/
lemma ProcFs.tasks_last (p : ProcFs) (h : p.procs.sched.taskList ≠ []) :
    ∃ init, [tasksHeader.toList] ++ (p.procs.sched.taskList.map p.taskRow).flatten =
      init ++ [['\n']] := by
  have hrows : ∀ row ∈ p.procs.sched.taskList.map p.taskRow,
      row = [] ∨ ∃ init, row = init ++ [['\n']] := by
    intro row hrow
    obtain ⟨t, -, rfl⟩ := mem_map.mp hrow
    exact .inr (p.taskRow_last t)
  rcases flatten_rows hrows with hnil | ⟨init, hinit⟩
  · obtain ⟨t, rest, hlist⟩ := exists_cons_of_ne_nil h
    obtain ⟨init, hinit⟩ := p.taskRow_last t
    rw [hlist, map_cons, flatten_cons, hinit, append_eq_nil_iff, append_eq_nil_iff] at hnil
    exact absurd hnil.1.2 (cons_ne_nil _ _)
  · exact ⟨[tasksHeader.toList] ++ init, by rw [hinit, append_assoc]⟩

/-- Without tasks the heading is read alone. -/
lemma ProcFs.readsExactly_heading (p : ProcFs) (h : p.procs.sched.taskList = []) :
    ReadsExactly p.procReadTasks tasksHeader.toList fun offset size =>
      Fits tasksHeader.toList offset size ∨ 2 ^ 32 < offset + size := by
  have hread : p.procReadTasks = procSeqRead [tasksHeader.toList] [] := by
    unfold ProcFs.procReadTasks
    rw [h, map_nil]
  rw [hread]
  intro hlen
  exact ⟨fun _ _ => procSeqRead_single_iff hlen, fun sizes hsizes => readAll_eq hlen
    (fun _ _ hfits => (procSeqRead_single_iff hlen).mpr (.inl hfits)) hsizes (Nat.zero_le _)⟩

/--
A read of the mounts returns its part of the text exactly if it fits, and reads one behind the
other that fit return the start of the text, hence all of it once they are large enough. So do
reads of the tasks; the heading alone, without tasks, is also read right if the end of the window
wraps beyond 0.
-/
theorem procReads_exact (mounts : List Mount) (p : ProcFs) :
    let mountsText := (mounts.map Mount.row).flatten.flatten
    let tasksText := tasksHeader.toList ++ (p.procs.sched.taskList.map p.taskRow).flatten.flatten
    ReadsExactly (procReadMounts mounts) mountsText (Fits mountsText) ∧
      ReadsExactly p.procReadTasks tasksText fun offset size => Fits tasksText offset size ∨
        p.procs.sched.taskList = [] ∧ 2 ^ 32 < offset + size := by
  have hmounts : ∀ row ∈ mounts.map Mount.row, row = [] ∨ ∃ init, row = init ++ [['\n']] := by
    intro row hrow
    obtain ⟨m, -, rfl⟩ := mem_map.mp hrow
    exact m.row_last
  have hmountReads : ReadsExactly (procReadMounts mounts) _ _ :=
    readsExactly_procSeqRead (flatten_rows hmounts)
  refine ⟨hmountReads, ?_⟩
  by_cases hnone : p.procs.sched.taskList = []
  · simp only [hnone, map_nil, flatten_nil, append_nil, true_and]
    exact p.readsExactly_heading hnone
  · simp only [hnone, false_and, or_false]
    exact readsExactly_procSeqRead (.inr (p.tasks_last hnone))

/-- The end of this window wraps to 0, and nothing is returned. -/
theorem procReadMounts_wraps :
    let mounts : List Mount := [⟨some "ramfs".toList, some ['/']⟩]
    procReadMounts mounts 1 0xFFFFFFFF = [] ∧
      window (mounts.map Mount.row).flatten.flatten 1 0xFFFFFFFF = "amfs /\n".toList := by
  decide

end LiteKernel.Fs.Proc
