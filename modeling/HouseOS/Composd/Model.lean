import HouseOS.Library.Words
import Mathlib.Data.Nat.Bitwise

namespace HouseOS.Composd

open HouseOS.Words

abbrev Text := List UInt8

structure WmState where
  mode : Text
  ip : Text
  mx : Nat
  my : Nat
  btn : Nat
  deriving DecidableEq, Repr

structure KeyEvent where
  ascii : Int
  scancode : Nat
  pressed : Nat
  shift : Nat
  ctrl : Nat
  alt : Nat
  deriving DecidableEq, Repr

inductive EvtType where
  | none
  | state
  | key
  deriving DecidableEq, Repr

structure UiEvent where
  type : EvtType
  st : WmState
  key : KeyEvent
  deriving DecidableEq, Repr

def evtQueueCap : Nat := 64

-- the oldest event makes room for the new one
def evtPush (queue : List UiEvent) (ev : UiEvent) : List UiEvent :=
  (if evtQueueCap ≤ queue.length then queue.drop 1 else queue) ++ [ev]

def isSpace (c : UInt8) : Bool := c == 32 || c == 9 || c == 13 || c == 10

def nextTok (msg : Text) (p : Nat) : Text × Nat × Option Nat :=
  let s := p + ((cstr 0 msg p).takeWhile isSpace).length
  match cstr 0 msg s with
  | [] => (msg, s, none)
  | c :: rest =>
      let e := s + ((c :: rest).takeWhile fun c => !isSpace c).length
      match cstr 0 msg e with
      | [] => (msg, e, some s)
      | _ :: _ => (msg.set e 0, e + 1, some s)

def digit? (c : UInt8) : Option Nat := if c < 48 || 57 < c then none else some (c.toNat - 48)

def parseU32From : Nat → Text → Option Nat
  | v, [] => some v
  | v, c :: cs => (digit? c).bind fun d => parseU32From ((v * 10 + d) % 2 ^ 32) cs

def parseU32 (s : Text) : Option Nat := if s = [] then none else parseU32From 0 s

def parseS32From : Int → Text → Option Int
  | v, [] => some v
  | v, c :: cs => (digit? c).bind fun d => parseS32From ((v * 10 + d).bmod (2 ^ 32)) cs

def parseS32 : Text → Option Int
  | [] => none
  | c :: s =>
      if c = 45 then
        if s = [] then none else (parseS32From 0 s).map fun v => (-v).bmod (2 ^ 32)
      else parseS32From 0 (c :: s)

-- the value behind `=`, when the token at `kv` has one: `=` becomes the end of the key
def cutAtEq (msg : Text) (kv : Nat) : Option (Text × Text × Text) :=
  let word := cstr 0 msg kv
  let eq := kv + (word.takeWhile (· ≠ 61)).length
  if 61 ∈ word then
    let msg := msg.set eq 0
    some (msg, cstr 0 msg kv, cstr 0 msg (eq + 1))
  else none

def parseFields {α : Type} (put : α → Text → Text → α) : Nat → Text → Nat → α → Text × α
  | 0, msg, _, out => (msg, out)
  | fuel + 1, msg, p, out =>
      let (msg, p, kv) := nextTok msg p
      match kv with
      | none => (msg, out)
      | some kv =>
          match cutAtEq msg kv with
          | none => parseFields put fuel msg p out
          | some (msg, key, val) => parseFields put fuel msg p (put out key val)

def parsePacket {α : Type} (name : Text) (start : α) (put : α → Text → Text → α) (msg : Text) :
    Text × Option α :=
  let (msg, p, tok) := nextTok msg 0
  match tok with
  | none => (msg, none)
  | some tok =>
      if cstr 0 msg tok = name then
        let (msg, out) := parseFields put (msg.length + 1) msg p start
        (msg, some out)
      else (msg, none)

def stateName : Text := [83, 84, 65, 84, 69]

def modeKey : Text := [109, 111, 100, 101]

def ipKey : Text := [105, 112]

def mxKey : Text := [109, 120]

def myKey : Text := [109, 121]

def btnKey : Text := [98, 116, 110]

def putState (out : WmState) (key val : Text) : WmState :=
  if key = modeKey then { out with mode := val.take 15 }
  else if key = ipKey then { out with ip := val.take 31 }
  else if key = mxKey then { out with mx := (parseU32 val).getD out.mx }
  else if key = myKey then { out with my := (parseU32 val).getD out.my }
  else if key = btnKey then { out with btn := (parseU32 val).getD out.btn }
  else out

def parseStatePacket (msg : Text) (out : WmState) : Text × Option WmState :=
  parsePacket stateName out putState msg

def keyName : Text := [75, 69, 89]

def asciiKey : Text := [97]

def scancodeKey : Text := [115]

def pressedKey : Text := [112]

def shiftKey : Text := [115, 104]

def ctrlKey : Text := [99, 116]

def altKey : Text := [97, 108]

def putKey (out : KeyEvent) (key val : Text) : KeyEvent :=
  if key = asciiKey then { out with ascii := (parseS32 val).getD out.ascii }
  else if key = scancodeKey then { out with scancode := (parseU32 val).getD out.scancode }
  else if key = pressedKey then { out with pressed := (parseU32 val).getD out.pressed }
  else if key = shiftKey then { out with shift := (parseU32 val).getD out.shift }
  else if key = ctrlKey then { out with ctrl := (parseU32 val).getD out.ctrl }
  else if key = altKey then { out with alt := (parseU32 val).getD out.alt }
  else out

def noKey : KeyEvent := ⟨0, 0, 0, 0, 0, 0⟩

def parseKeyPacket (msg : Text) : Text × Option KeyEvent := parsePacket keyName noKey putKey msg

def msgCap : Nat := 255

-- `msg` is what the receive buffer held before
def recvInto (msg datagram : Text) : Text :=
  let taken := datagram.take msgCap
  taken ++ 0 :: msg.drop (taken.length + 1)

def pollPacket (state : WmState) (msg : Text) (queue : List UiEvent) (datagram : Text) :
    Text × List UiEvent :=
  let (msg, st) := parseStatePacket (recvInto msg datagram) state
  match st with
  | some st => (msg, evtPush queue ⟨.state, st, noKey⟩)
  | none =>
      let (msg, key) := parseKeyPacket msg
      match key with
      | some key => (msg, evtPush queue ⟨.key, state, key⟩)
      | none => (msg, queue)

-- an empty datagram ends the loop as an empty socket does
def pollPackets (state : WmState) : Text → List UiEvent → List Text → List UiEvent
  | _, queue, [] => queue
  | msg, queue, datagram :: inbox =>
      if datagram = [] then queue
      else
        let (msg, queue) := pollPacket state msg queue datagram
        pollPackets state msg queue inbox

end HouseOS.Composd
