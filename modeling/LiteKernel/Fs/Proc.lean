import LiteKernel.Kernel.Process
import LiteKernel.Mm.Vma

/-!
# The process directories of `/proc`

The model of `fs/proc/root.c` and of the per-process part of `fs/proc/base.c`, with
the texts of `fs/proc/array.c` and `fs/proc/task_mmu.c` and with `itoa` of
`lib/string.c`, over the tasks of `LiteKernel.Kernel.Process`.

The directories live in a table of `PROC_PID_MAX` entries. An entry is taken by the
first lookup of its pid and is never given back. The files of an entry hold the pid
itself, so a read finds its task in the task list of that moment.

Main results:

- Definitions `procFinddir`, `procGetPidDir`: the lookups.
-/

namespace LiteKernel.Fs.Proc

open Function Kernel

/-- A C string without the zero at its end. -/
abbrev Text := List Char

/-! ## Numbers -/

/-- The loop of `parse_u32`, which has read `v` so far. -/
def parseLoop (v : Nat) : Text → Option Nat
  | [] => some v
  | c :: s =>
    if c < '0' ∨ '9' < c then none
    else
      let nv := (v * 10 + (c.toNat - '0'.toNat)) % 2 ^ 32
      if nv < v then none else parseLoop nv s

def parseU32 (s : Text) : Option Nat :=
  if s = [] then none else parseLoop 0 s

/-- The digits of a number, the last one first, as the loop of `itoa` stores them. -/
def storeDigits (base u : Nat) : Text :=
  (Nat.digits base u).map Nat.digitChar

/-- The text of a 32-bit value, which is taken as signed in base 10. -/
def itoa (num base : Nat) : Text :=
  if num = 0 then ['0']
  else if 2 ^ 31 ≤ num ∧ base = 10 then (storeDigits base (2 ^ 32 - num) ++ ['-']).reverse
  else (storeDigits base num).reverse

/-- The decimal name of a number. -/
def decimal (n : Nat) : Text :=
  if n = 0 then ['0'] else (storeDigits 10 n).reverse

/-! ## Buffers -/

/-- The function `proc_buf_append`: one byte of the buffer is kept for the zero. -/
def procBufAppend (cap : Nat) (buf s : Text) : Text :=
  buf ++ s.take (cap - 1 - buf.length)

/-- A row of calls of `proc_buf_append` on an empty buffer. -/
def fillBuffer (cap : Nat) (parts : List Text) : Text :=
  parts.foldl (procBufAppend cap) []

/-- The number that `proc_buf_append_u32` appends. -/
def u32Text (v : Nat) : Text :=
  itoa v 10

/-- The number that `proc_buf_append_hex` appends. -/
def hexText (v : Nat) : Text :=
  "0x".toList ++ itoa v 16

/-- The end of every read function: the part of the text that the caller asks for. -/
def copyOut (tmp : Text) (offset size : Nat) : Text :=
  if tmp.length ≤ offset then []
  else (tmp.drop offset).take (min size (tmp.length - offset))

/-! ## The state -/

/-- The files of a process directory that are read through a text. -/
inductive PidFile where
  | maps
  | stat
  | cmdline
  | status
  deriving DecidableEq, Repr

/-- An inode: of the root, of an entry of the table, or of a file with its `impl`. -/
inductive Node where
  | fixed (name : Text)
  | pidDir (slot : Nat)
  | file (f : PidFile) (impl : Nat)
  | cwd (impl : Nat)
  | fdDir (slot : Nat)
  deriving DecidableEq

/-- The tasks of the system and the two tables of the file system. -/
structure ProcFs where
  procs : Procs
  /-- The task that runs. -/
  current : Option Nat
  comm : Nat → Text
  /-- The path of the working directory of a task, of the root if it has none. -/
  cwd : Nat → Text
  /-- The areas of the `mm` of a task. -/
  mmap : Nat → List Mm.VmArea
  /-- The pid of an entry that is used. -/
  pids : Nat → Option Nat
  rootChildren : List (Text × Node)

def procPidMax : Nat := 16

/-- The pid that stands for the caller. -/
def selfPid : Nat := 0xFFFFFFFF

namespace ProcFs

/-! ## Lookup -/

/-- The first entry of the table that meets a condition. -/
def findSlot (s : ProcFs) (used : Option Nat) : Option Nat :=
  (List.range procPidMax).find? fun i => s.pids i = used

def procGetPidDir (s : ProcFs) (pid : Nat) : Option Node × ProcFs :=
  match s.findSlot (some pid) with
  | some i => (some (.pidDir i), s)
  | none =>
    match s.findSlot none with
    | some i => (some (.pidDir i), { s with pids := update s.pids i (some pid) })
    | none => (none, s)

def procPidLookup (s : ProcFs) (name : Text) : Option Node × ProcFs :=
  if name = "self".toList then s.procGetPidDir selfPid
  else
    match parseU32 name with
    | some pid => s.procGetPidDir pid
    | none => (none, s)

def procLookupRootChild (s : ProcFs) (name : Text) : Option Node :=
  (s.rootChildren.find? fun e => e.1 = name).map Prod.snd

def procFinddir (s : ProcFs) (name : Text) : Option Node × ProcFs :=
  match s.procLookupRootChild name with
  | some n => (some n, s)
  | none => s.procPidLookup name

def procPidFinddir (s : ProcFs) (node : Node) (name : Text) : Option Node :=
  match node with
  | .pidDir slot =>
    if procPidMax ≤ slot then none
    else
      (s.pids slot).bind fun pid =>
        if name = "maps".toList then some (.file .maps pid)
        else if name = "stat".toList then some (.file .stat pid)
        else if name = "cmdline".toList then some (.file .cmdline pid)
        else if name = "status".toList then some (.file .status pid)
        else if name = "cwd".toList then some (.cwd pid)
        else if name = "fd".toList then some (.fdDir slot)
        else none
  | _ => none

/-! ## The mount -/

def procPidInit (s : ProcFs) : ProcFs :=
  ({ s with pids := fun _ => none }.procGetPidDir selfPid).2

def procRegisterRootChild (s : ProcFs) (name : Text) (inode : Option Node) : ProcFs :=
  match inode with
  | none => s
  | some n =>
    if name = [] ∨ 16 ≤ s.rootChildren.length then s
    else { s with rootChildren := s.rootChildren ++ [(name, n)] }

/-- The files that the root registers, in this order. -/
def fixedNames : List String :=
  ["irq", "meminfo", "tasks", "sched", "maps", "iomem", "cow", "pfault", "vmscan", "writeback",
    "pagecache", "blockstats", "diskstats", "mounts"]

/-- The function `proc_fill_super`, when the root inode can be allocated. -/
def procFillSuper (s : ProcFs) : ProcFs :=
  let s := { s.procPidInit with rootChildren := [] }
  let s := fixedNames.foldl
    (fun s name => s.procRegisterRootChild name.toList (some (.fixed name.toList))) s
  let (dir, s) := s.procGetPidDir selfPid
  s.procRegisterRootChild "self".toList dir

/-! ## The texts of a task -/

/-- The task with a pid, as `find_task_by_vpid` finds it. -/
def findTask (s : ProcFs) (pid : Nat) : Option Nat :=
  s.procs.sched.findTaskByVpid pid

/-- The number that `task_get_current_id` gives. -/
def taskGetCurrentId (s : ProcFs) : Nat :=
  s.current.elim 0 fun t => (s.procs.sched.task t).pid

/-- The name that `get_task_comm` copies out of the 32 bytes of `comm`. -/
def getTaskComm (s : ProcFs) (t : Nat) : Text :=
  ((s.comm t).takeWhile (· ≠ Char.ofNat 0)).take 31

/-- The name, or a dash. -/
def shownName (s : ProcFs) (t : Nat) : Text :=
  if s.getTaskComm t = [] then ['-'] else s.getTaskComm t

def stateLetter : TaskState → Text
  | .runnable => "R".toList
  | .sleeping => "S".toList
  | .blocked => "D".toList
  | .zombie => "Z".toList

def stateWord : TaskState → Text
  | .runnable => "RUNNABLE".toList
  | .sleeping => "SLEEPING".toList
  | .blocked => "BLOCKED".toList
  | .zombie => "ZOMBIE".toList

/-- The pid of the real parent of a task on the task list. -/
def taskPpidNr (s : ProcFs) (t : Nat) : Nat :=
  (s.procs.sched.task t).realParent.elim 0 fun q => (s.procs.sched.task q).pid

/-- An `int` as the `uint32_t` it is printed as. -/
def ofInt32 (n : Int) : Nat :=
  (n % 2 ^ 32).toNat

def statParts (s : ProcFs) (t : Nat) : List Text :=
  let k := s.procs.sched.task t
  [u32Text k.pid, " (".toList, s.shownName t, ") ".toList, stateLetter k.state, " ".toList,
    u32Text k.wakeJiffies, "\n".toList]

def cmdlineParts (s : ProcFs) (t : Nat) : List Text :=
  [s.shownName t, "\n".toList]

/-- The lines of `status` that every task has. -/
def statusLines (s : ProcFs) (t : Nat) : List Text :=
  let k := s.procs.sched.task t
  ["Name:\t".toList, s.shownName t, "\nState:\t".toList, stateWord k.state,
    "\nTgid:\t".toList, u32Text k.pid, "\nPid:\t".toList, u32Text k.pid,
    "\nPPid:\t".toList, u32Text (s.taskPpidNr t),
    "\nType:\t".toList, if s.procs.hasMm t then "user".toList else "kthread".toList,
    "\nCwd:\t".toList, "/".toList,
    "\nExitCode:\t".toList, u32Text (ofInt32 k.exitCode),
    "\nExitState:\t".toList, u32Text (ofInt32 k.exitState)]

/-- The line of a task that a signal ended. -/
def signalLine (s : ProcFs) (t : Nat) : List Text :=
  let k := s.procs.sched.task t
  if k.exitState = taskExitSignal then ["\nSignal:\t".toList, u32Text k.exitInfo0] else []

def statusParts (s : ProcFs) (t : Nat) : List Text :=
  s.statusLines t ++ s.signalLine t ++ ["\n".toList]

/-- The line of one area. -/
def mapsLine (v : Mm.VmArea) : List Text :=
  [hexText v.vmStart, "-".toList, hexText v.vmEnd, " ".toList,
    if v.vmFlags.read then "r".toList else "-".toList,
    if v.vmFlags.write then "w".toList else "-".toList,
    if v.vmFlags.exec then "x".toList else "-".toList, "\n".toList]

-- `off` stays below `len`, so the `break` of the loop over the areas is never taken.
def mapsParts (s : ProcFs) (t : Nat) : List Text :=
  if s.procs.hasMm t then (s.mmap t).flatMap mapsLine else []

/-! ## Reads -/

/-- The functions `task_dump_*_pid`: nothing for a pid that no task has. -/
def taskDumpPid (s : ProcFs) (parts : Nat → List Text) (pid cap : Nat) : Text :=
  match s.findTask pid with
  | none => []
  | some t => fillBuffer cap (parts t)

/-- The pid whose task a file of `self` shows. -/
def pidShown (s : ProcFs) (impl : Nat) : Nat :=
  if impl = selfPid then s.taskGetCurrentId else impl

def procReadPidStat (s : ProcFs) (impl offset size : Nat) : Text :=
  copyOut (s.taskDumpPid s.statParts (s.pidShown impl) 256) offset size

def procReadPidCmdline (s : ProcFs) (impl offset size : Nat) : Text :=
  copyOut (s.taskDumpPid s.cmdlineParts impl 256) offset size

-- Unlike `stat` and `maps` this one does not look for the caller.
def procReadPidStatus (s : ProcFs) (impl offset size : Nat) : Text :=
  copyOut (s.taskDumpPid s.statusParts impl 256) offset size

def procReadPidMaps (s : ProcFs) (impl offset size : Nat) : Text :=
  copyOut (s.taskDumpPid s.mapsParts (s.pidShown impl) 2048) offset size

/-- The read function of a file. -/
def read (s : ProcFs) : PidFile → Nat → Nat → Nat → Text
  | .maps => s.procReadPidMaps
  | .stat => s.procReadPidStat
  | .cmdline => s.procReadPidCmdline
  | .status => s.procReadPidStatus

/-! ## Histories -/

/--
The function `task_create_internal`, called with or without a program; without an
address one of the first two allocations fails.
-/
def taskCreateInternal (s : ProcFs) (child : Option Nat) (program : Option Text) (mmOk : Bool) :
    ProcFs :=
  match child with
  | none => s
  | some c =>
    let pid := (s.procs.lastPid + 1) % 2 ^ 32
    if program ≠ none ∧ mmOk = false then { s with procs := { s.procs with lastPid := pid } }
    else
      let k := { Procs.newTask 0 pid with realParent := s.current, parent := s.current }
      let sched := { s.procs.sched with task := update s.procs.sched.task c k }
      let linked := match s.current with
        | some q => Procs.linkTask sched q c
        | none => { Procs.linkTask sched c c with
            kin := (sched.kin.initListHead (.children c)).initListHead (.sibling c) }
      { s with
        procs := { s.procs with
          sched := linked
          usage := update s.procs.usage c 1
          hasMm := update s.procs.hasMm c program.isSome
          allocated := update s.procs.allocated c true
          waiting := update s.procs.waiting c none
          lastPid := pid }
        comm := update s.comm c (program.getD [])
        cwd := update s.cwd c (s.current.elim "/".toList s.cwd)
        mmap := update s.mmap c [] }

/-- What can happen next. -/
inductive Op where
  /-- A name is looked up in the root. -/
  | lookup (name : Text)
  /-- A task forks, exits, kills, waits, sleeps or is woken. -/
  | process (op : Procs.Op)
  | create (child : Option Nat) (program : Option Text) (mmOk : Bool)
  /-- The function `set_task_comm`, by a fork or an `execve`. -/
  | setTaskComm (t : Nat) (program : Text)
  /-- A task gets a working directory, by a fork or a `chdir`, or loses it by its exit. -/
  | setCwd (t : Nat) (path : Text)
  /-- The areas of a task change. -/
  | setMmap (t : Nat) (areas : List Mm.VmArea)
  | switch (t : Nat)

/-- One step of a history; a call that does not return leaves the tables as they are. -/
def step (fuel : Nat) (s : ProcFs) : Op → ProcFs
  | .lookup name => (s.procFinddir name).2
  | .process op => { s with procs := (s.procs.exec fuel op).elim s.procs Prod.fst }
  | .create child program mmOk => s.taskCreateInternal child program mmOk
  | .setTaskComm t program => { s with comm := update s.comm t program }
  | .setCwd t path => { s with cwd := update s.cwd t path }
  | .setMmap t areas => { s with mmap := update s.mmap t areas }
  | .switch t => { s with current := some t }

end ProcFs
end LiteKernel.Fs.Proc
