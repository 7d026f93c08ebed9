import HouseOS.Library.Builder
import HouseOS.Library.Words
import HouseOS.Sched.Model
import HouseOS.Syscall.FileIo

namespace HouseOS.Procfs

open HouseOS.Builder
open HouseOS.Sched (Task TaskState maxTasks noSlot)
open HouseOS.Syscall (FdTable fdMax Info)
open HouseOS.Vfs (Path slash)

export Words (byteText)

def procSysTextCap : Nat := 256

def procPidTextCap : Nat := 768

def userSlotSizePhys : Nat := 0x400000

def infoTmpSize : Nat := 2048

def fdPathSize : Nat := 256

inductive SysFile where
  | uptime
  | meminfo
  | stat
  | version
  deriving DecidableEq, Repr

inductive PidFile where
  | cmdline
  | status
  | stat
  | mem
  | tty
  | exe
  deriving DecidableEq, Repr

inductive ProcPath where
  | rootDir
  | sysFile (id : SysFile)
  | pidDir (pid : Nat)
  | pidFile (pid : Nat) (id : PidFile)
  | pidFdDir (pid : Nat)
  | pidFdFile (pid fd : Nat)
  deriving DecidableEq, Repr

def ProcPath.pid : ProcPath → Nat
  | .pidDir pid => pid
  | .pidFile pid _ => pid
  | .pidFdDir pid => pid
  | .pidFdFile pid _ => pid
  | _ => 0

structure ProcState where
  tasks : Nat → Task
  taskCount : Nat
  currentTask : Option Nat
  timerTicks : Nat
  totalHeap : Nat
  usedHeap : Nat
  freeHeap : Nat
  taskFds : Nat → FdTable
  taskFdInit : Nat → Bool
  mem : Nat → UInt8

section

variable (cap : Nat)

def procAppendText (text : List UInt8) : Appender UInt8 := fun out =>
  if cap ≤ out.length + text.length then (false, out) else (true, out ++ text)

def procAppendChar (c : UInt8) : Appender UInt8 := fun out =>
  if cap ≤ out.length + 1 then (false, out) else (true, out ++ [c])

def appendChars : List UInt8 → Appender UInt8
  | [], out => (true, out)
  | c :: cs, out =>
      if (procAppendChar cap c out).1 then appendChars cs (procAppendChar cap c out).2
      else (false, (procAppendChar cap c out).2)

-- `tmp[16]`, filled from the last digit on
def u32Digits : Nat → Nat → List UInt8
  | 0, _ => []
  | n + 1, v => if v = 0 then [] else UInt8.ofNat (48 + v % 10) :: u32Digits n (v / 10)

def procAppendU32 (v : Nat) : Appender UInt8 :=
  if v = 0 then procAppendChar cap 48 else appendChars cap (u32Digits 16 v).reverse

def procAppendI32 (v : Int) : Appender UInt8 := fun out =>
  if v < 0 then
    if (procAppendChar cap 45 out).1 then
      procAppendU32 cap (-v % 2 ^ 32).toNat (procAppendChar cap 45 out).2
    else (false, (procAppendChar cap 45 out).2)
  else procAppendU32 cap v.toNat out

end

def procTaskStateName : TaskState → List UInt8
  | .ready => byteText "READY"
  | .running => byteText "RUNNING"
  | .blocked => byteText "BLOCKED"
  | .terminated => byteText "TERMINATED"

def isDigit (c : UInt8) : Bool := decide (48 ≤ c.toNat ∧ c.toNat ≤ 57)

def u32Token : List UInt8 → Nat → Nat × List UInt8
  | [], v => (v, [])
  | c :: cs, v =>
      if isDigit c then u32Token cs ((v * 10 + (c.toNat - 48)) % 2 ^ 32) else (v, c :: cs)

def procParseU32Token : List UInt8 → Option (Nat × List UInt8)
  | [] => none
  | c :: cs => if isDigit c then some (u32Token (c :: cs) 0) else none

def sysFileNamed (path : Path) : Option SysFile :=
  if path = byteText "/uptime" then some .uptime
  else if path = byteText "/meminfo" then some .meminfo
  else if path = byteText "/stat" then some .stat
  else if path = byteText "/version" then some .version
  else none

def pidFileNamed (p : Path) : Option PidFile :=
  if p = byteText "cmdline" then some .cmdline
  else if p = byteText "status" then some .status
  else if p = byteText "stat" then some .stat
  else if p = byteText "mem" then some .mem
  else if p = byteText "tty" then some .tty
  else if p = byteText "exe" then some .exe
  else none

def procParsePidNode (pid : Nat) : Path → Option ProcPath
  | [] => some (.pidDir pid)
  | c :: p =>
      if c ≠ slash then none
      else if p = [] then some (.pidDir pid)
      else if p = byteText "fd" ∨ p = byteText "fd/" then some (.pidFdDir pid)
      else if byteText "fd/" <+: p then
        match procParseU32Token (p.drop 3) with
        | some (fd, []) => some (.pidFdFile pid fd)
        | _ => none
      else (pidFileNamed p).map (fun id => .pidFile pid id)

def handOut (text : List UInt8) (size : Nat) : Int × List UInt8 :=
  (((if size < text.length then size else text.length : Nat) : Int), text.take size)

def orDash (text : List UInt8) : List UInt8 := if text ≠ [] then text else byteText "-"

def pidText (task : Task) : PidFile → List (Appender UInt8)
  | .cmdline =>
      (if task.cmdline ≠ [] then [procAppendText procPidTextCap task.cmdline]
       else if task.progPath ≠ [] then [procAppendText procPidTextCap task.progPath]
       else []) ++ [procAppendText procPidTextCap (byteText "\n")]
  | .status =>
      [procAppendText procPidTextCap (byteText "Pid:\t"),
       procAppendU32 procPidTextCap task.pid,
       procAppendText procPidTextCap (byteText "\nState:\t"),
       procAppendText procPidTextCap (procTaskStateName task.state),
       procAppendText procPidTextCap (byteText "\nTty:\t"),
       procAppendText procPidTextCap (orDash task.ttyPath),
       procAppendText procPidTextCap (byteText "\nExe:\t"),
       procAppendText procPidTextCap (orDash task.progPath),
       procAppendText procPidTextCap (byteText "\nCmdline:\t"),
       procAppendText procPidTextCap (orDash task.cmdline),
       procAppendText procPidTextCap (byteText "\nExitStatus:\t"),
       procAppendI32 procPidTextCap task.exitStatus,
       procAppendText procPidTextCap (byteText "\nTermSignal:\t"),
       procAppendU32 procPidTextCap task.termSignal,
       procAppendText procPidTextCap (byteText "\nUserSlot:\t"),
       if task.userSlot = noSlot then procAppendText procPidTextCap (byteText "-1")
       else procAppendU32 procPidTextCap task.userSlot,
       procAppendText procPidTextCap (byteText "\n")]
  | .stat =>
      [procAppendU32 procPidTextCap task.pid,
       procAppendText procPidTextCap (byteText " "),
       procAppendText procPidTextCap (procTaskStateName task.state),
       procAppendText procPidTextCap (byteText " "),
       procAppendI32 procPidTextCap task.exitStatus,
       procAppendText procPidTextCap (byteText " "),
       procAppendU32 procPidTextCap task.termSignal,
       procAppendText procPidTextCap (byteText " "),
       if task.userSlot = noSlot then procAppendText procPidTextCap (byteText "0")
       else procAppendU32 procPidTextCap task.userPhysBase,
       procAppendText procPidTextCap (byteText "\n")]
  | .mem => []
  | .tty =>
      [procAppendText procPidTextCap (orDash task.ttyPath),
       procAppendText procPidTextCap (byteText "\n")]
  | .exe =>
      [procAppendText procPidTextCap (orDash task.progPath),
       procAppendText procPidTextCap (byteText "\n")]

def procReadPidText (task : Task) (id : PidFile) (size : Nat) : Int × List UInt8 :=
  if id = .mem then (-1, []) else handOut (lax (pidText task id) []) size

namespace ProcState

variable (k : ProcState)

def taskFindByPid (pid : Nat) : Option Nat :=
  (List.range k.taskCount).find? (fun i => decide ((k.tasks i).pid = pid))

def procParsePid (p : Path) : Option (Nat × Path) :=
  if byteText "self" <+: p ∧ (p[4]? = none ∨ p[4]? = some slash) then
    k.currentTask.map (fun i => ((k.tasks i).pid, p.drop 4))
  else procParseU32Token p

def procParsePath (path : Path) : Option ProcPath :=
  if path.head? ≠ some slash then none
  else if path = [slash] then some .rootDir
  else
    match sysFileNamed path with
    | some id => some (.sysFile id)
    | none => (k.procParsePid path.tail).bind (fun r => procParsePidNode r.1 r.2)

def countState (st : TaskState) : Nat :=
  (List.range k.taskCount).countP (fun i => decide ((k.tasks i).state = st))

def systemText : SysFile → List (Appender UInt8)
  | .uptime =>
      [procAppendU32 procSysTextCap (k.timerTicks / 100),
       procAppendText procSysTextCap (byteText "\n")]
  | .meminfo =>
      [procAppendText procSysTextCap (byteText "HeapTotal: "),
       procAppendU32 procSysTextCap k.totalHeap,
       procAppendText procSysTextCap (byteText "\nHeapUsed: "),
       procAppendU32 procSysTextCap k.usedHeap,
       procAppendText procSysTextCap (byteText "\nHeapFree: "),
       procAppendU32 procSysTextCap k.freeHeap,
       procAppendText procSysTextCap (byteText "\n")]
  | .stat =>
      [procAppendText procSysTextCap (byteText "tasks "),
       procAppendU32 procSysTextCap k.taskCount,
       procAppendText procSysTextCap (byteText "\nready "),
       procAppendU32 procSysTextCap (k.countState .ready),
       procAppendText procSysTextCap (byteText "\nrunning "),
       procAppendU32 procSysTextCap (k.countState .running),
       procAppendText procSysTextCap (byteText "\nblocked "),
       procAppendU32 procSysTextCap (k.countState .blocked),
       procAppendText procSysTextCap (byteText "\nterminated "),
       procAppendU32 procSysTextCap (k.countState .terminated),
       procAppendText procSysTextCap (byteText "\n")]
  | .version => [procAppendText procSysTextCap (byteText "HouseOS 0.1.0\n")]

def procReadSystemFile (id : SysFile) (size : Nat) : Int × List UInt8 :=
  match strict (k.systemText id) [] with
  | none => (-1, [])
  | some text => handOut text size

def procReadPidMem (task : Task) (size : Nat) : Int × List UInt8 :=
  if task.userSlot = noSlot ∨ task.userPhysBase = 0 then (0, [])
  else
    let toCopy := if size < userSlotSizePhys then size else userSlotSizePhys
    (toCopy, (List.range toCopy).map (fun i => k.mem (task.userPhysBase + i)))

def syscallTaskFdPath (pid fd cap : Nat) : Option (List UInt8) :=
  if cap < 2 then none
  else
    match k.taskFindByPid pid with
    | none => none
    | some slot =>
        if maxTasks ≤ slot then none
        else if fdMax ≤ fd then none
        else if k.taskFdInit slot = false ∨ (k.taskFds slot fd).used = false then none
        else
          match (k.taskFds slot fd).kind with
          | .vfs =>
              if (k.taskFds slot fd).path = [] then none
              else some ((k.taskFds slot fd).path.take (cap - 1))
          | .udp => some ((byteText "udp:").take (cap - 1))

-- a path of 255 bytes takes its line end as the last byte of `path[256]` and its NUL past it
def procReadPidFd (pid fd size : Nat) : Int × List UInt8 :=
  match k.syscallTaskFdPath pid fd fdPathSize with
  | none => (-1, [])
  | some path =>
      handOut (if path.length + 1 ≤ fdPathSize then path ++ byteText "\n" else path) size

def procReadOp (path : Path) (size : Nat) : Int × List UInt8 :=
  match k.procParsePath path with
  | none => (-1, [])
  | some (.sysFile id) => k.procReadSystemFile id size
  | some node =>
      if node.pid = 0 then (-1, [])
      else
        match k.taskFindByPid node.pid with
        | none => (-1, [])
        | some i =>
            match node with
            | .pidFile _ .mem => k.procReadPidMem (k.tasks i) size
            | .pidFile _ id => procReadPidText (k.tasks i) id size
            | .pidFdFile pid fd => k.procReadPidFd pid fd size
            | _ => (-1, [])

def procGetInfoOp (path : Path) : Option Info :=
  match k.procParsePath path with
  | none => none
  | some (.sysFile id) => some ⟨.file, (k.procReadSystemFile id infoTmpSize).1.toNat⟩
  | some .rootDir => some ⟨.dir, 0⟩
  | some (.pidDir _) => some ⟨.dir, 0⟩
  | some (.pidFdDir _) => some ⟨.dir, 0⟩
  | some (.pidFile pid id) =>
      match k.taskFindByPid pid with
      | none => none
      | some i =>
          match id with
          | .mem => some ⟨.file, userSlotSizePhys⟩
          | id => some ⟨.file, (procReadPidText (k.tasks i) id infoTmpSize).1.toNat⟩
  | some (.pidFdFile pid fd) =>
      match k.taskFindByPid pid with
      | none => none
      | some _ =>
          let n := (k.procReadPidFd pid fd infoTmpSize).1
          if n < 0 then none else some ⟨.file, n.toNat⟩

end ProcState

end HouseOS.Procfs
