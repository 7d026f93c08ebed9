import Mathlib.Data.Nat.Bitwise
import Mathlib.Logic.Function.Basic
import Mathlib.Tactic.Common

namespace HouseOS.Mouse

structure MousePacket where
  buttons : UInt8
  xMovement : Int
  yMovement : Int
  x : Int
  y : Int
  deriving DecidableEq, Repr

def mouseQueueSize : Nat := 128

structure PacketQueue where
  cells : Nat → MousePacket
  head : Nat
  tail : Nat
  count : Nat

namespace PacketQueue

variable (q : PacketQueue)

def dropOldest : PacketQueue :=
  if mouseQueueSize ≤ q.count then
    { q with head := (q.head + 1) % mouseQueueSize, count := q.count - 1 }
  else q

def queuePush (p : MousePacket) : PacketQueue :=
  let q := q.dropOldest
  { cells := Function.update q.cells q.tail p
    head := q.head
    tail := (q.tail + 1) % mouseQueueSize
    count := q.count + 1 }

def tryGet : Option MousePacket × PacketQueue :=
  if q.count = 0 then (none, q)
  else
    (some (q.cells q.head),
      { q with head := (q.head + 1) % mouseQueueSize, count := q.count - 1 })

end PacketQueue

structure Screen where
  width : Nat
  height : Nat
  deriving DecidableEq, Repr

-- `packet` and `cycle`: the bytes of the packet under way
structure MouseState where
  queue : PacketQueue
  packet : Nat → UInt8
  cycle : Nat
  x : Int
  y : Int
  buttons : UInt8

def int16 (z : Int) : Int := (z + 2 ^ 15) % 2 ^ 16 - 2 ^ 15

def int8 (c : UInt8) : Int := if c.toNat < 128 then c.toNat else c.toNat - 256

def maxOf (size : Nat) : Int := int16 (if size ≠ 0 then size - 1 else 0)

def bounded (max v : Int) : Int :=
  let v := if v < 0 then 0 else v
  if max < v then max else v

namespace MouseState

variable (screen : Option Screen) (m : MouseState)

-- the pointer after `mouse_inject_packet`, with no screen it is not bounded
def moved (buttons : UInt8) (xMovement yMovement : Int) : MouseState :=
  let x := int16 (m.x + xMovement)
  let y := int16 (m.y - yMovement)
  match screen with
  | none => { m with buttons := buttons &&& 0x1F, x := x, y := y }
  | some s =>
      { m with
        buttons := buttons &&& 0x1F
        x := bounded (maxOf s.width) x
        y := bounded (maxOf s.height) y }

def mouseInjectPacket (buttons : UInt8) (xMovement yMovement : Int) : MouseState :=
  let m := m.moved screen buttons xMovement yMovement
  { m with queue := m.queue.queuePush ⟨m.buttons, xMovement, yMovement, m.x, m.y⟩ }

def ps2StatusOutFull : UInt8 := 0x01

def ps2StatusAuxData : UInt8 := 0x20

-- `st` and `data` are what the two ports answer
def mouseHandler (st data : UInt8) : MouseState :=
  if st &&& ps2StatusOutFull = 0 then m
  else if st &&& ps2StatusAuxData = 0 then m
  else if m.cycle = 0 ∧ data &&& 0x08 = 0 then m
  else
    let m := { m with packet := Function.update m.packet m.cycle data, cycle := (m.cycle + 1) % 3 }
    if m.cycle = 0 then
      if m.packet 0 &&& 0xC0 ≠ 0 then m
      else
        m.mouseInjectPacket screen (m.packet 0 &&& 0x07) (int8 (m.packet 1)) (int8 (m.packet 2))
    else m

def mouseTryGetPacket : Option MousePacket × MouseState :=
  ((m.queue.tryGet).1, { m with queue := (m.queue.tryGet).2 })

-- what `mouse_init` leaves besides the bytes of an old packet and the cells of the queue
def mouseInit : MouseState :=
  { m with queue := { m.queue with head := 0, tail := 0, count := 0 }, cycle := 0, x := 0, y := 0,
           buttons := 0 }

end MouseState

inductive MouseEvent where
  | irq (st data : UInt8)
  | inject (buttons : UInt8) (xMovement yMovement : Int16)
  | get
  deriving DecidableEq, Repr

def mouseStep (screen : Option Screen) (m : MouseState) : MouseEvent → Option MousePacket × MouseState
  | .irq st data => (none, m.mouseHandler screen st data)
  | .inject buttons dx dy => (none, m.mouseInjectPacket screen buttons dx.toInt dy.toInt)
  | .get => m.mouseTryGetPacket

end HouseOS.Mouse
