import HouseOS.Syscall.System

namespace HouseOS.Syscall

open HouseOS.Sched (Kernel Task noSlot userSlotCount)
open HouseOS.Udp (RecvReq SendReq SockAddr SockoptReq)
open HouseOS.Vfs (Path slash)

inductive FdCall where
  | openFile (path : Path) (flags : Nat)
  | close (fd : Nat)
  | dup (fd : Nat)
  | dup2 (oldfd newfd : Nat)
  | fcntl (fd : Nat) (cmd : Int) (arg : Nat)
  | pipe (fdsOut : Nat)
  | socket (domain type protocol : Nat)
  | bind (fd : Nat) (addr : Option SockAddr) (addrlen : Nat)
  | sendto (fd : Nat) (req : Option SendReq)
  | recvfrom (fd : Nat) (req : Option RecvReq) (waited : Nat)
  | setsockopt (fd : Nat) (req : Option SockoptReq)
  deriving DecidableEq, Repr

-- the answers of kmalloc, valloc_aligned and the program loader come with the event
inductive Event where
  | fd (call : FdCall)
  | spawn (req freed : SpawnReq) (mem : Bool) (stack : Option Nat)
  | fork (pd : Option Nat) (ctx : Bool) (stack : Option Nat)
  | exec (pd : Option Nat) (loads : Bool)
  | bindStdio
  | probe
  | take
  | mapUser (pd : Option Nat)
  | enter (loads : Bool)
  | childEnter
  | taskKill (pid sig : Nat)
  | sched (e : Sched.Event)
  deriving DecidableEq, Repr

namespace System

variable {Disk : Type} (o : FifoCalls Disk)

def task (s : System Disk) (i : Nat) : Task := s.kernel.tasks i

def setTask (s : System Disk) (i : Nat) (t : Task) : System Disk :=
  { s with kernel := s.kernel.setTask i t }

-- the page directories of the task a scheduler call releases go with it
def schedStep (s : System Disk) (e : Sched.Event) : Option (System Disk) :=
  (Sched.step s.kernel e).map fun k =>
    { s with
      kernel := k
      pageDirs := match Sched.freedBy s.kernel e with
        | some i => s.pageDirs.erase (s.task i).cr3
        | none => s.pageDirs }

def taskExit (s : System Disk) : Option (System Disk) := s.schedStep .fault

def taskCreate (s : System Disk) (stack : Option Nat) (g : Stage) : Option Nat × System Disk :=
  match s.kernel.taskCreate stack with
  | (none, k) => (none, { s with kernel := k })
  | (some pid, k) =>
      (some pid, { s with
        kernel := k
        stage := Function.update s.stage (Sched.newSlot s.kernel) g
        pageDirs := match s.kernel.findTerminated with
          | some i => s.pageDirs.erase (s.task i).cr3
          | none => s.pageDirs })

def takeSlot (s : System Disk) (idx : Nat) : System Disk :=
  { s with kernel := { s.kernel with
    userSlotUsed := Function.update s.kernel.userSlotUsed idx true } }

def freeSlot (s : System Disk) (idx : Nat) : System Disk :=
  { s with kernel := s.kernel.userSlotFree idx }

def mmUserSlotAlloc (s : System Disk) : Option (Nat × System Disk) :=
  ((List.range userSlotCount).find? (fun idx => !s.kernel.userSlotUsed idx)).map (fun idx =>
    (idx, s.takeSlot idx))

def mmUserCr3Create (s : System Disk) (phys : Nat) (pd : Option Nat) : Option (Nat × System Disk) :=
  if phys % userSlotSizePhys ≠ 0 then none
  else pd.map (fun pd => (pd, { s with pageDirs := pd :: s.pageDirs }))

def mmUserCr3Destroy (s : System Disk) (pd : Nat) : System Disk :=
  if pd = 0 ∨ pd = s.kernel.kernelCr3 then s else { s with pageDirs := s.pageDirs.erase pd }

def recordUser (s : System Disk) (i idx pd : Nat) : System Disk :=
  s.setTask i { s.task i with userSlot := idx, userPhysBase := userPhys idx, cr3 := pd }

def hasUserSpace (s : System Disk) : Bool :=
  decide ((s.task s.slot).userSlot ≠ noSlot) && decide ((s.task s.slot).cr3 ≠ 0)

def ensureCurrentTaskUserSpace (s : System Disk) (pd : Option Nat) : Bool × System Disk :=
  if s.hasUserSpace then (true, s)
  else
    match s.mmUserSlotAlloc with
    | none => (false, s)
    | some (idx, s) =>
        match s.mmUserCr3Create (userPhys idx) pd with
        | none => (false, s.freeSlot idx)
        | some (pd, s) => (true, s.recordUser s.slot idx pd)

-- a pid that is negative as an int is taken for a failure: the request is freed under a task that is
-- ready to run, and `freed` is what the task will find in its place
def sysSpawn (s : System Disk) (req freed : SpawnReq) (mem : Bool) (stack : Option Nat) :
    Int × System Disk :=
  if req.path.head? ≠ some slash ∨ fdPathCap ≤ req.path.length ∨ req.tty.head? ≠ some slash ∨
      fdPathCap ≤ req.tty.length ∨ cmdlineCap ≤ req.cmdline.length then (-einval, s)
  else if !mem then (-eio, s)
  else
    match s.taskCreate stack (.spawned (if 2 ^ 31 ≤ s.kernel.nextPid then freed else req)) with
    | (none, s) => (-eio, s)
    | (some pid, s) => (if 2 ^ 31 ≤ pid then -eio else pid, s)

def copyFds (s : System Disk) (j : Nat) : System Disk :=
  if s.taskFdInit s.slot then
    { s with
      taskFds := Function.update s.taskFds j s.fds
      taskFdInit := Function.update s.taskFdInit j true
      stamp := Function.update s.stamp j (s.stamp s.slot) }
  else if s.gFdInit then
    { s with
      taskFds := Function.update s.taskFds j s.gFds
      taskFdInit := Function.update s.taskFdInit j true }
  else { s with taskFdInit := Function.update s.taskFdInit j false }

def nameChild (s : System Disk) (j : Nat) : System Disk :=
  let t := s.task s.slot
  s.setTask j { s.task j with
    ttyPath := t.ttyPath.take (ttyPathCap - 1)
    progPath := t.progPath.take (progPathCap - 1)
    cmdline := t.cmdline.take (cmdlineCap - 1) }

def forkCtx (s : System Disk) (idx pd : Nat) : ForkCtx :=
  let t := s.task s.slot
  { userCr3 := pd, userSlot := idx, userPhys := userPhys idx
    ttyPath := t.ttyPath.take (ttyPathCap - 1)
    progPath := t.progPath.take (progPathCap - 1)
    cmdline := t.cmdline.take (cmdlineCap - 1) }

def forkUndo (s : System Disk) (idx pd : Nat) : System Disk := (s.mmUserCr3Destroy pd).freeSlot idx

-- the pid is tested as a signed number, with the child already ready to run
def forkChild (s : System Disk) (idx pd pid : Nat) : Int × System Disk :=
  if 2 ^ 31 ≤ pid then (-enfile, s.forkUndo idx pd)
  else
    match s.kernel.taskFindByPid pid with
    | none => (-eio, s)
    | some j => (pid, (((s.recordUser j idx pd).nameChild j).copyFds j))

def forkTask (s : System Disk) (idx pd : Nat) (stack : Option Nat) : Int × System Disk :=
  match s.taskCreate stack (.forked (s.forkCtx idx pd)) with
  | (none, s) => (-enfile, s.forkUndo idx pd)
  | (some pid, s) => s.forkChild idx pd pid

def forkSpace (s : System Disk) (idx : Nat) (pd : Option Nat) (ctx : Bool) (stack : Option Nat) :
    Int × System Disk :=
  match s.mmUserCr3Create (userPhys idx) pd with
  | none => (-enomem, s.freeSlot idx)
  | some (pd, s) => if !ctx then (-enomem, s.forkUndo idx pd) else s.forkTask idx pd stack

def sysFork (s : System Disk) (pd : Option Nat) (ctx : Bool) (stack : Option Nat) :
    Int × System Disk :=
  if (s.task s.slot).userSlot = noSlot ∨ (s.task s.slot).userPhysBase = 0 then (-enosys, s)
  else
    match s.mmUserSlotAlloc with
    | none => (-enomem, s)
    | some (idx, s) => s.forkSpace idx pd ctx stack

def sysExec (s : System Disk) (pd : Option Nat) (loads : Bool) : Int × System Disk :=
  match s.ensureCurrentTaskUserSpace pd with
  | (false, s) => (-enomem, s)
  | (true, s) => if loads then (0, s.closeCloexecFds o) else (-enoent, s)

def sysTaskKill (s : System Disk) (pid sig : Nat) : Option (System Disk) :=
  let sig := if sig = 0 then 15 else sig
  if sig ≠ 2 ∧ sig ≠ 9 ∧ sig ≠ 15 then some s
  else s.schedStep (.kill pid ((128 + sig : Nat) : Int) sig)

def bindStdio (s : System Disk) (path : Path) : System Disk :=
  if path = [] then s
  else
    let s := s.fdCurrent
    s.setFds (s.fds.bindStdio path)

def bindRequest (s : System Disk) (req : SpawnReq) : System Disk :=
  let s := s.bindStdio req.tty
  let s := s.setTask s.slot { s.task s.slot with
    ttyPath := req.tty.take (ttyPathCap - 1)
    progPath := req.path.take (progPathCap - 1)
    cmdline := req.cmdline.take (cmdlineCap - 1) }
  s.setStage s.slot (if s.hasUserSpace then .loading req else .probing req 0)

def probe (s : System Disk) (req : SpawnReq) (idx : Nat) : Option (System Disk) :=
  if userSlotCount ≤ idx then s.taskExit
  else if s.kernel.userSlotUsed idx then some (s.setStage s.slot (.probing req (idx + 1)))
  else some (s.setStage s.slot (.probed req idx))

def take (s : System Disk) (req : SpawnReq) (idx : Nat) : System Disk :=
  (s.takeSlot idx).setStage s.slot (.holding req idx)

def mapUser (s : System Disk) (req : SpawnReq) (idx : Nat) (pd : Option Nat) :
    Option (System Disk) :=
  match s.mmUserCr3Create (userPhys idx) pd with
  | none => ((s.freeSlot idx).setStage s.slot (.loading req)).taskExit
  | some (pd, s) => some ((s.recordUser s.slot idx pd).setStage s.slot (.loading req))

def enter (s : System Disk) (loads : Bool) : Option (System Disk) :=
  if loads then some (s.setStage s.slot .user) else s.taskExit

def childEnter (s : System Disk) (ctx : ForkCtx) : System Disk :=
  (s.setTask s.slot { s.task s.slot with
    cr3 := ctx.userCr3, userSlot := ctx.userSlot, userPhysBase := ctx.userPhys
    ttyPath := ctx.ttyPath, progPath := ctx.progPath, cmdline := ctx.cmdline }).setStage s.slot .user

def fdCall (s : System Disk) : FdCall → Option (System Disk)
  | .openFile path flags => some (s.sysOpen o path flags).2
  | .close fd => some (s.sysClose o fd).2
  | .dup fd => some (s.fdDupFromTo fd 0 false).2
  | .dup2 oldfd newfd => some (s.fdDupFromTo oldfd newfd true).2
  | .fcntl fd cmd arg => some (s.sysFcntl fd cmd arg).2
  | .pipe fdsOut => some (s.sysPipe o fdsOut).2
  | .socket domain type protocol => some (s.sysSocket domain type protocol).2
  | .bind fd addr addrlen => some (s.sysBind fd addr addrlen).2
  | .sendto fd req => some (s.sysSendto fd req).2
  | .recvfrom fd req waited =>
      match s.sysRecvfrom fd req waited with
      | some (_, s) => some s
      | none => s.schedStep (.sleep 10)
  | .setsockopt fd req => some (s.sysSetsockopt fd req).2

-- every system call starts with fd_current; an interrupt has none, nor a `schedule` that has halted
def step (s : System Disk) (e : Event) : Option (System Disk) :=
  match e, s.stage s.slot with
  | .fd call, .user => s.fdCurrent.fdCall o call
  | .spawn req freed mem stack, .user => some (s.fdCurrent.sysSpawn req freed mem stack).2
  | .fork pd ctx stack, .user => some (s.fdCurrent.sysFork pd ctx stack).2
  | .exec pd loads, .user => some (s.fdCurrent.sysExec o pd loads).2
  | .bindStdio, .spawned req => some (s.bindRequest req)
  | .probe, .probing req idx => s.probe req idx
  | .take, .probed req idx => some (s.take req idx)
  | .mapUser pd, .holding req idx => s.mapUser req idx pd
  | .enter loads, .loading _ => s.enter loads
  | .childEnter, .forked ctx => some (s.childEnter ctx)
  | .taskKill pid sig, .user => s.fdCurrent.sysTaskKill pid sig
  | .sched (.create _), _ => none
  | .sched .tick, _ => s.schedStep .tick
  | .sched .fault, _ => s.schedStep .fault
  | .sched (.kill pid exitStatus termSignal), _ => s.schedStep (.kill pid exitStatus termSignal)
  | .sched e, .user => s.fdCurrent.schedStep e
  | .sched .yield, _ => s.schedStep .yield
  | _, _ => none

def devTtyS0 : Path := [47, 100, 101, 118, 47, 116, 116, 121, 47, 83, 48]

def binInit : Path := [47, 98, 105, 110, 47, 105, 110, 105, 116]

def bootRequest : SpawnReq := { path := binInit, tty := devTtyS0, cmdline := [] }

-- what kmain leaves: the tasks of task_init and the boot task; the main task has still to exit
def boot (kernelCr3 idleStack : Nat) (stack : Option Nat) (d : Disk) : System Disk :=
  (taskCreate
    { kernel := Kernel.taskInit kernelCr3 idleStack
      stage := fun _ => .kernel
      taskFds := fun _ _ => zeroFd
      taskFdInit := fun _ => false
      gFds := fun _ => zeroFd
      gFdInit := false
      udp := Udp.boot
      pipeSeq := 1
      disk := d
      pageDirs := []
      stamp := fun _ _ => 0
      socketCalls := 0
      pipes := [] } stack (.spawned bootRequest)).2

end System

end HouseOS.Syscall
