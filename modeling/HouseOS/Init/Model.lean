import HouseOS.Library.Words
import Mathlib.Data.List.Basic
import Mathlib.Data.Nat.Bitwise

namespace HouseOS.Init

open HouseOS.Words (byteText)

abbrev Text := List UInt8

def taskTerminated : Int := 3

def maxShells : Nat := 16

def maxDaemons : Nat := 8

def tty2 : Text := byteText "/dev/tty/2"

def binSh : Text := byteText "/bin/sh"

structure ShellSlot where
  tty : Text
  prog : Text
  pid : Int
  deriving DecidableEq, Repr

structure DaemonSlot where
  tty : Text
  prog : Text
  cmdline : Text
  pid : Int
  restarts : Nat
  deriving DecidableEq, Repr

structure Sys where
  shells : List ShellSlot
  daemons : List DaemonSlot
  haveVesa : Bool
  guiFallbackStarted : Bool
  guiFallbackPid : Int
  deriving DecidableEq, Repr

-- `strncpy` into a field of `cap` bytes
def clip (cap : Nat) (text : Text) : Text := text.take (cap - 1)

def addShellCfg (shells : List ShellSlot) (tty prog : Text) : Option (List ShellSlot) :=
  if maxShells ≤ shells.length then none
  else some (shells ++ [⟨clip 32 tty, clip 64 prog, -1⟩])

def addDaemonCfg (daemons : List DaemonSlot) (tty prog : Text) (cmdline : Option Text) :
    Option (List DaemonSlot) :=
  if maxDaemons ≤ daemons.length then none
  else some (daemons ++ [⟨clip 32 tty, clip 64 prog, (cmdline.map (clip 128)).getD [], -1, 0⟩])

structure Visit where
  vesaFd : Int
  spawn : Int
  spawnv : Int
  taskState : Int
  guishell : Int
  shell : Int
  deriving DecidableEq, Repr

inductive Note where
  | found (i : Nat) (dead : Bool)
  | spawned (i : Nat)
  | attempted
  | started
  deriving DecidableEq, Repr

def spawnShell (pid : Int) (s : ShellSlot) : Int × ShellSlot :=
  if pid < 0 then (-1, s) else (0, { s with pid := pid })

def needsVesa (prog : Text) : Bool :=
  prog = byteText "/bin/guishell" ∨ prog = byteText "/bin/gfxd" ∨
    prog = byteText "/bin/composd" ∨ prog = byteText "/bin/wmgrd"

def isGuiStackProg (prog : Text) : Bool :=
  prog = byteText "/bin/gfxd" ∨ prog = byteText "/bin/composd" ∨ prog = byteText "/bin/wmgrd"

def spawnDaemon (v : Visit) (d : DaemonSlot) : Int × DaemonSlot :=
  if needsVesa d.prog ∧ v.vesaFd < 0 then (-2, d)
  else
    let pid := if d.cmdline ≠ [] then v.spawnv else v.spawn
    if pid < 0 then (-1, d) else (0, { d with pid := pid })

def disableGuiStackDaemons (daemons : List DaemonSlot) : List DaemonSlot :=
  daemons.map fun d => if isGuiStackProg d.prog then { d with pid := -2 } else d

def ensureTty2ShellFallback (v : Visit) (shells : List ShellSlot) : List ShellSlot :=
  match shells.findIdx? (fun s => s.tty = tty2) with
  | some i => shells.modify i fun s => if s.pid < 0 then (spawnShell v.shell s).2 else s
  | none =>
      match addShellCfg shells tty2 binSh with
      | none => shells
      | some shells' => shells'.modify (shells'.length - 1) fun s => (spawnShell v.shell s).2

def ensureTty2GuiFallback (v : Visit) (k : Sys) : Sys × List Note :=
  if k.guiFallbackStarted then (k, [])
  else if 0 ≤ v.guishell then
    ({ k with
        guiFallbackPid := v.guishell, guiFallbackStarted := true
        daemons := disableGuiStackDaemons k.daemons }, [.attempted, .started])
  else
    ({ k with
        guiFallbackPid := v.guishell
        shells := ensureTty2ShellFallback v k.shells }, [.attempted])

def Sys.setDaemon (k : Sys) (i : Nat) (d : DaemonSlot) : Sys :=
  { k with daemons := k.daemons.set i d }

def spawnFailed (v : Visit) (k : Sys) (d : DaemonSlot) (rc : Int) : Sys × List Note :=
  if d.tty = tty2 then
    ensureTty2GuiFallback v (if rc = -2 then { k with haveVesa := false } else k)
  else (k, [])

def bootDaemon (v : Visit) (k : Sys) (i : Nat) (d : DaemonSlot) : Sys × List Note :=
  let (rc, d') := spawnDaemon v d
  if rc = -1 ∨ rc = -2 then spawnFailed v k d rc
  else (k.setDaemon i d', [.spawned i])

def superviseDaemon (v : Visit) (k : Sys) (i : Nat) (d : DaemonSlot) : Sys × List Note :=
  if d.pid = -2 then (k, [])
  else if d.pid < 0 then
    let (rc, d') := spawnDaemon v d
    (k.setDaemon i d', if rc = 0 then [.spawned i] else [])
  else if v.taskState = taskTerminated ∨ v.taskState < 0 then
    let d := { d with restarts := (d.restarts + 1) % 2 ^ 32, pid := -1 }
    let k := k.setDaemon i d
    if isGuiStackProg d.prog ∧ d.tty = tty2 ∧ 8 ≤ d.restarts then
      let (k, notes) := ensureTty2GuiFallback v k
      (k, .found i true :: notes)
    else
      let (rc, d') := spawnDaemon v d
      if rc = -1 ∨ rc = -2 then
        let (k, notes) := spawnFailed v k d rc
        (k, .found i true :: notes)
      else (k.setDaemon i { d' with restarts := 0 }, [.found i true, .spawned i])
  else (k, [.found i false])

def bootShell (v : Visit) (k : Sys) (i : Nat) : Sys :=
  { k with shells := k.shells.modify i fun s => (spawnShell v.shell s).2 }

def superviseShell (v : Visit) (k : Sys) (i : Nat) : Sys :=
  { k with
    shells := k.shells.modify i fun s =>
      if s.pid < 0 then (spawnShell v.shell s).2
      else if v.taskState = taskTerminated ∨ v.taskState < 0 then
        (spawnShell v.shell { s with pid := -1 }).2
      else s }

-- where `main` stands: the two loops of the start, then the two of each round
inductive At where
  | bootDaemons (i : Nat)
  | bootShells (i : Nat)
  | daemons (i : Nat)
  | shells (i : Nat)
  deriving DecidableEq, Repr

structure Supervisor where
  sys : Sys
  pc : At
  log : List Note
  deriving DecidableEq, Repr

-- a step visits one slot, or leaves a loop that has no slot left
def step (m : Supervisor) (v : Visit) : Supervisor :=
  match m.pc with
  | .bootDaemons i =>
      match m.sys.daemons[i]? with
      | none => { m with pc := .bootShells 0 }
      | some d =>
          let (k, notes) := bootDaemon v m.sys i d
          ⟨k, .bootDaemons (i + 1), m.log ++ notes⟩
  | .bootShells i =>
      if m.sys.shells.length ≤ i then { m with pc := .daemons 0 }
      else { m with sys := bootShell v m.sys i, pc := .bootShells (i + 1) }
  | .daemons i =>
      match m.sys.daemons[i]? with
      | none => { m with pc := .shells 0 }
      | some d =>
          let (k, notes) := superviseDaemon v m.sys i d
          ⟨k, .daemons (i + 1), m.log ++ notes⟩
  | .shells i =>
      if m.sys.shells.length ≤ i then { m with pc := .daemons 0 }
      else { m with sys := superviseShell v m.sys i, pc := .shells (i + 1) }

def loadShells (lines : List (Text × Text)) : List ShellSlot :=
  lines.foldl (fun shells (tty, prog) => (addShellCfg shells tty prog).getD shells) []

def loadDaemons (lines : List (Text × Text × Option Text)) : List DaemonSlot :=
  lines.foldl
    (fun ds (tty, prog, cmdline) => (addDaemonCfg ds tty prog cmdline).getD ds) []

def boot (shells : List ShellSlot) (daemons : List DaemonSlot) (vesaFd : Int) : Supervisor :=
  ⟨⟨shells, daemons, 0 ≤ vesaFd, false, -1⟩, .bootDaemons 0, []⟩

end HouseOS.Init
