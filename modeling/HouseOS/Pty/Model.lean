import Mathlib.Data.Fintype.Basic
import HouseOS.Library.Run
import HouseOS.Library.Window
import HouseOS.Library.Words

namespace HouseOS.Pty

open HouseOS.Words (byteText)

def ptyPairCount : Nat := 4

def ptyRingSize : Nat := 4096

structure Ring where
  data : Nat → UInt8
  head : Nat
  tail : Nat
  count : Nat

structure Pair where
  allocated : Bool
  masterToSlave : Ring
  slaveToMaster : Ring

structure Dev where
  index : Fin ptyPairCount
  isMaster : Bool
  deriving DecidableEq

def Ring.reset (r : Ring) : Ring := { r with head := 0, tail := 0, count := 0 }

def Pair.reset (p : Pair) : Pair :=
  { p with masterToSlave := p.masterToSlave.reset, slaveToMaster := p.slaveToMaster.reset }

def Ring.dropOldest (r : Ring) : Ring :=
  if ptyRingSize ≤ r.count then { r with head := (r.head + 1) % ptyRingSize, count := r.count - 1 }
  else r

def Ring.append (r : Ring) (c : UInt8) : Ring :=
  { r with data := Function.update r.data r.tail c, tail := (r.tail + 1) % ptyRingSize,
           count := r.count + 1 }

def Ring.push (r : Ring) : List UInt8 → Ring
  | [] => r
  | c :: cs => (r.dropOldest.append c).push cs

def Ring.pop (r : Ring) : Nat → List UInt8 × Ring
  | 0 => ([], r)
  | n + 1 =>
      if 0 < r.count then
        let rest := Ring.pop { r with head := (r.head + 1) % ptyRingSize, count := r.count - 1 } n
        (r.data r.head :: rest.1, rest.2)
      else ([], r)

-- the callers that sleep in a read
structure State where
  pairs : Fin ptyPairCount → Pair
  asleep : List (Dev × Nat)

inductive PtmxRequest where
  | alloc (out : Bool)
  | free (arg : Option Nat)
  | unknown

inductive DevRequest where
  | getReadable (arg : Bool)
  | reset
  | unknown

inductive Op where
  | ptmx (request : PtmxRequest)
  | ioctl (d : Dev) (request : DevRequest)
  | read (d : Dev) (buf : Bool) (size : Nat)
  | wake (d : Dev) (size : Nat)
  | write (d : Dev) (buf : Option (List UInt8))

inductive Answer where
  | failed
  | done
  | pair (index : Fin ptyPairCount) (masterPath slavePath : List UInt8)
  | readable (count : Nat)
  | bytes (got : List UInt8)
  | written (size : Nat)
  | sleeps
  | nobody
  deriving DecidableEq

namespace State

variable (s : State) (d : Dev)

def allocated : Bool := (s.pairs d.index).allocated

def src : Ring :=
  if d.isMaster then (s.pairs d.index).slaveToMaster else (s.pairs d.index).masterToSlave

def dst : Ring :=
  if d.isMaster then (s.pairs d.index).masterToSlave else (s.pairs d.index).slaveToMaster

def setPair (i : Fin ptyPairCount) (p : Pair) : State :=
  { s with pairs := Function.update s.pairs i p }

def setSrc (r : Ring) : State :=
  s.setPair d.index
    (if d.isMaster then { s.pairs d.index with slaveToMaster := r }
     else { s.pairs d.index with masterToSlave := r })

def setDst (r : Ring) : State :=
  s.setPair d.index
    (if d.isMaster then { s.pairs d.index with masterToSlave := r }
     else { s.pairs d.index with slaveToMaster := r })

def readRound (size : Nat) : Answer × State :=
  if ((s.src d).pop size).1 ≠ [] then
    (.bytes ((s.src d).pop size).1, s.setSrc d ((s.src d).pop size).2)
  else if s.allocated d = false then (.bytes [], s)
  else (.sleeps, { s with asleep := (d, size) :: s.asleep })

def ptyRead (buf : Bool) (size : Nat) : Answer × State :=
  if buf = false ∨ size = 0 then (.failed, s)
  else if s.allocated d = false then (.failed, s)
  else s.readRound d size

def ptyWake (size : Nat) : Answer × State :=
  if (d, size) ∈ s.asleep then
    { s with asleep := s.asleep.erase (d, size) }.readRound d size
  else (.nobody, s)

def ptyWrite : Option (List UInt8) → Answer × State
  | none => (.failed, s)
  | some buf =>
      if s.allocated d = false then (.failed, s)
      else if buf.length = 0 then (.written 0, s)
      else (.written buf.length, s.setDst d ((s.dst d).push buf))

def ptyDevIoctl : DevRequest → Answer × State
  | .getReadable arg =>
      if arg = false then (.failed, s)
      else if s.allocated d = false then (.readable 0, s)
      else (.readable (s.src d).count, s)
  | .reset =>
      if s.allocated d = false then (.failed, s)
      else (.done, s.setPair d.index (s.pairs d.index).reset)
  | .unknown => (.failed, s)

end State

def buildPairPaths (idx : Nat) : List UInt8 × List UInt8 :=
  (byteText "/dev/pty/" ++ [UInt8.ofNat (48 + idx % 10)],
    byteText "/dev/pts/" ++ [UInt8.ofNat (48 + idx % 10)])

def State.ptmxIoctl (s : State) : PtmxRequest → Answer × State
  | .alloc out =>
      if out = false then (.failed, s)
      else
        match (List.finRange ptyPairCount).find? (fun i => !(s.pairs i).allocated) with
        | some i =>
            (.pair i (buildPairPaths i).1 (buildPairPaths i).2,
              s.setPair i { (s.pairs i).reset with allocated := true })
        | none => (.failed, s)
  | .free none => (.failed, s)
  | .free (some idx) =>
      if h : idx < ptyPairCount then
        (.done, s.setPair ⟨idx, h⟩ { (s.pairs ⟨idx, h⟩).reset with allocated := false })
      else (.failed, s)
  | .unknown => (.failed, s)

def State.step (s : State) : Op → Answer × State
  | .ptmx request => s.ptmxIoctl request
  | .ioctl d request => s.ptyDevIoctl d request
  | .read d buf size => s.ptyRead d buf size
  | .wake d size => s.ptyWake d size
  | .write d buf => s.ptyWrite d buf

def boot : State where
  pairs _ := ⟨false, ⟨fun _ => 0, 0, 0, 0⟩, ⟨fun _ => 0, 0, 0, 0⟩⟩
  asleep := []

end HouseOS.Pty
