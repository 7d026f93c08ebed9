import Mathlib.Data.List.Basic
import Mathlib.Data.Nat.Bitwise
import Mathlib.Tactic.Common

namespace HouseOS.Sched

inductive TaskState where
  | ready
  | running
  | blocked
  | terminated
  deriving DecidableEq, Repr

def maxTasks : Nat := 16

def noSlot : Nat := 2 ^ 32 - 1

def userSlotCount : Nat := 12

structure Task where
  pid : Nat
  ppid : Nat
  cr3 : Nat
  userSlot : Nat
  userPhysBase : Nat
  state : TaskState
  stack : Option Nat
  next : Nat
  wakeTick : Nat
  exitStatus : Int
  termSignal : Nat
  ttyPath : List UInt8
  progPath : List UInt8
  cmdline : List UInt8

structure Kernel where
  tasks : Nat → Task
  taskCount : Nat
  nextPid : Nat
  currentTask : Nat
  idleTask : Nat
  readyHead : Option Nat
  readyTail : Option Nat
  ticks : Nat
  kernelCr3 : Nat
  userSlotUsed : Nat → Bool
  released : List Nat

namespace Kernel

def setTask (k : Kernel) (i : Nat) (t : Task) : Kernel :=
  { k with tasks := fun j => if j = i then t else k.tasks j }

def setState (k : Kernel) (i : Nat) (s : TaskState) : Kernel :=
  k.setTask i { k.tasks i with state := s }

def current (k : Kernel) : Task := k.tasks k.currentTask

def userSlotFree (k : Kernel) (slot : Nat) : Kernel :=
  if userSlotCount ≤ slot then k
  else { k with userSlotUsed := fun j => if j = slot then false else k.userSlotUsed j }

def releasePtr (k : Kernel) (p : Nat) : Kernel := { k with released := k.released ++ [p] }

def taskReleaseResources (k : Kernel) (i : Nat) : Kernel :=
  let t := k.tasks i
  let k := if t.cr3 ≠ 0 ∧ t.cr3 ≠ k.kernelCr3 then k.releasePtr t.cr3 else k
  let k := if t.userSlot ≠ noSlot then k.userSlotFree t.userSlot else k
  let k := match t.stack with
    | some p => k.releasePtr p
    | none => k
  k.setTask i
    { t with stack := none, cr3 := k.kernelCr3, userSlot := noSlot, userPhysBase := 0 }

def blankTask : Task :=
  { pid := 0, ppid := 0, cr3 := 0, userSlot := 0, userPhysBase := 0, state := .ready,
    stack := none, next := 0, wakeTick := 0, exitStatus := 0, termSignal := 0,
    ttyPath := [], progPath := [], cmdline := [] }

def taskInit (kernelCr3 idleStack : Nat) : Kernel :=
  let idle : Task := { blankTask with
    pid := 1, state := .ready, cr3 := kernelCr3, userSlot := noSlot,
    stack := some idleStack, next := 1 }
  let initTask : Task := { blankTask with
    pid := 2, state := .running, cr3 := kernelCr3, userSlot := noSlot, next := 0 }
  { tasks := fun i => if i = 0 then idle else if i = 1 then initTask else blankTask
    taskCount := 2
    nextPid := 3
    currentTask := 1
    idleTask := 0
    readyHead := some 0
    readyTail := some 1
    ticks := 0
    kernelCr3 := kernelCr3
    userSlotUsed := fun _ => false
    released := [] }

def findTerminated (k : Kernel) : Option Nat :=
  (List.range k.taskCount).find? (fun i => decide ((k.tasks i).state = .terminated))

def linkNewTask (k : Kernel) : Kernel :=
  let i := k.taskCount
  let k := { k with taskCount := k.taskCount + 1 }
  match k.readyHead, k.readyTail with
  | some h, some tl =>
      let k := k.setTask i { k.tasks i with next := h }
      let k := k.setTask tl { k.tasks tl with next := i }
      { k with readyTail := some i }
  | _, _ =>
      let k := k.setTask i { k.tasks i with next := i }
      { k with readyHead := some i, readyTail := some i }

def fillTask (k : Kernel) (i stack : Nat) : Kernel :=
  let k := { k.setTask i { k.tasks i with pid := k.nextPid } with
    nextPid := (k.nextPid + 1) % 2 ^ 32 }
  k.setTask i
    { k.tasks i with
      ppid := k.current.pid, state := .ready, cr3 := k.kernelCr3, userSlot := noSlot,
      userPhysBase := 0, stack := some stack, wakeTick := 0, exitStatus := 0, termSignal := 0,
      ttyPath := [], progPath := [], cmdline := [] }

def taskCreate (k : Kernel) : Option Nat → Option Nat × Kernel
  | none => (none, k)
  | some stack =>
      match k.findTerminated with
      | some i => (some k.nextPid, (k.taskReleaseResources i).fillTask i stack)
      | none =>
          if maxTasks ≤ k.taskCount then (none, k.releasePtr stack)
          else (some k.nextPid, k.linkNewTask.fillTask k.taskCount stack)

def schedScan (k : Kernel) : Nat → Nat → Option Nat → Option (Option Nat)
  | 0, _, _ => none
  | fuel + 1, at_, firstIdle =>
      let next := (k.tasks at_).next
      if (k.tasks next).state = .ready then
        if next = k.idleTask then
          let firstIdle := firstIdle <|> some next
          if next ≠ k.currentTask then k.schedScan fuel next firstIdle else some firstIdle
        else some (some next)
      else if next ≠ k.currentTask then k.schedScan fuel next firstIdle
      else some firstIdle

def switchTo (k : Kernel) (next : Nat) : Kernel :=
  let prev := k.currentTask
  let k := { k with currentTask := next }
  let k := k.setState next .running
  if (k.tasks prev).state = .running then k.setState prev .ready else k

-- `some k` unchanged: nothing is ready, the processor halts inside `schedule` until an interrupt
def schedule (k : Kernel) : Option Kernel :=
  match k.schedScan maxTasks k.currentTask none with
  | none => none
  | some none => some k
  | some (some next) => some (k.switchTo next)

def taskExit (k : Kernel) : Option Kernel :=
  (k.setState k.currentTask .terminated).schedule

def taskFindByPid (k : Kernel) (pid : Nat) : Option Nat :=
  (List.range k.taskCount).find? (fun i => decide ((k.tasks i).pid = pid))

def setExit (k : Kernel) (i : Nat) (exitStatus : Int) (termSignal : Nat) : Kernel :=
  k.setTask i { k.tasks i with exitStatus := exitStatus, termSignal := termSignal }

def taskTerminateByPid (k : Kernel) (pid : Nat) (exitStatus : Int) (termSignal : Nat) :
    Option (Int × Kernel) :=
  match k.taskFindByPid pid with
  | none => some (-1, k)
  | some i =>
      if i = k.idleTask then some (-1, k)
      else if (k.tasks i).state = .terminated then some (0, k)
      else if i = k.currentTask then
        (k.setExit i exitStatus termSignal).taskExit.map (fun k => (0, k))
      else some (0, (k.setExit i exitStatus termSignal).setState i .terminated)

def waitCode (exitStatus : Int) (termSignal : Nat) : Int :=
  if termSignal ≠ 0 then (termSignal &&& 0x7F : Nat) else (exitStatus % 256) * 256

def reapTask (k : Kernel) (i : Nat) : Kernel :=
  let k := k.taskReleaseResources i
  k.setTask i { k.tasks i with
    pid := 0, ppid := 0, state := .terminated, exitStatus := 0, termSignal := 0,
    ttyPath := [], progPath := [], cmdline := [] }

def isWaitedChild (k : Kernel) (pid : Int) (i : Nat) : Bool :=
  decide (i ≠ k.idleTask ∧ (k.tasks i).pid ≠ 0 ∧ (k.tasks i).ppid = k.current.pid ∧
    ¬ (0 < pid ∧ pid % 2 ^ 32 ≠ ((k.tasks i).pid : Int)))

inductive Wait where
  | reaped (pid : Nat) (status : Int)
  | noChild
  | again
  | blocked
  deriving DecidableEq, Repr

def waitScan (k : Kernel) (pid : Int) : List Nat → Bool → Option Nat × Bool
  | [], hasChild => (none, hasChild)
  | i :: is, hasChild =>
      if k.isWaitedChild pid i then
        if (k.tasks i).state = .terminated then (some i, true) else k.waitScan pid is true
      else k.waitScan pid is hasChild

def taskWaitpid (k : Kernel) (pid : Int) (options : Nat) : Wait × Kernel :=
  match k.waitScan pid (List.range k.taskCount) false with
  | (some i, _) =>
      (.reaped (k.tasks i).pid (waitCode (k.tasks i).exitStatus (k.tasks i).termSignal),
        k.reapTask i)
  | (none, false) => (.noChild, k)
  | (none, true) => if options &&& 1 = 1 then (.again, k) else (.blocked, k)

def wakeExpired (k : Kernel) : Kernel :=
  { k with tasks := fun i =>
      let t := k.tasks i
      if i < k.taskCount ∧ t.state = .blocked ∧ t.wakeTick ≤ k.ticks then
        { t with state := .ready } else t }

def timerHandler (k : Kernel) : Option Kernel :=
  ({ k with ticks := (k.ticks + 1) % 2 ^ 32 }).wakeExpired.schedule

def sleep (k : Kernel) (ms : Nat) : Option Kernel :=
  if ms = 0 then some k
  else
    let ticksToWait := (ms * 100) % 2 ^ 32 / 1000
    let ticksToWait := if ticksToWait = 0 then 1 else ticksToWait
    let t := k.current
    (k.setTask k.currentTask
      { t with state := .blocked, wakeTick := (k.ticks + ticksToWait) % 2 ^ 32 }).schedule

end Kernel

inductive Event where
  | create (stack : Option Nat)
  | exit (status : Int)
  | fault
  | kill (pid : Nat) (exitStatus : Int) (termSignal : Nat)
  | waitpid (pid : Int) (options : Nat)
  | yield
  | sleep (ms : Nat)
  | tick
  deriving DecidableEq, Repr

inductive Reply where
  | quiet
  | created (pid : Option Nat)
  | killed (r : Int)
  | waited (w : Kernel.Wait)
  deriving DecidableEq, Repr

-- an interrupt may end the halt inside `schedule`, which is then called once more, in any task;
-- the idle task makes no other call
def Event.enabled (k : Kernel) : Event → Bool
  | .tick => true
  | .kill _ _ _ => true
  | .yield => true
  | _ => decide (k.currentTask ≠ k.idleTask)

def stepReply (k : Kernel) (e : Event) : Option (Reply × Kernel) :=
  if e.enabled k then
    match e with
    | .create stack =>
        let (pid, k) := k.taskCreate stack
        some (.created pid, k)
    | .exit status =>
        ((k.setExit k.currentTask status 0).taskExit).map (fun k => (.quiet, k))
    | .fault => k.taskExit.map (fun k => (.quiet, k))
    | .kill pid exitStatus termSignal =>
        (k.taskTerminateByPid pid exitStatus termSignal).map (fun (r, k) => (.killed r, k))
    | .waitpid pid options =>
        match k.taskWaitpid pid options with
        | (.blocked, k) => k.schedule.map (fun k => (.waited .blocked, k))
        | (w, k) => some (.waited w, k)
    | .yield => k.schedule.map (fun k => (.quiet, k))
    | .sleep ms => (k.sleep ms).map (fun k => (.quiet, k))
    | .tick => k.timerHandler.map (fun k => (.quiet, k))
  else none

def step (k : Kernel) (e : Event) : Option Kernel := (stepReply k e).map Prod.snd

def replies : Kernel → List Event → List Reply
  | _, [] => []
  | k, e :: es =>
      match stepReply k e with
      | none => []
      | some (r, k') => r :: replies k' es

-- the task an event ends, the task whose resources it releases, the slot the next task gets
def diesBy (k : Kernel) : Event → Option Nat
  | .exit _ => some k.currentTask
  | .fault => some k.currentTask
  | .kill pid _ _ =>
      match k.taskFindByPid pid with
      | some i => if i = k.idleTask ∨ (k.tasks i).state = .terminated then none else some i
      | none => none
  | _ => none

def freedBy (k : Kernel) : Event → Option Nat
  | .create (some _) => k.findTerminated
  | .waitpid pid _ => (k.waitScan pid (List.range k.taskCount) false).1
  | _ => none

def newSlot (k : Kernel) : Nat := k.findTerminated.getD k.taskCount

end HouseOS.Sched
