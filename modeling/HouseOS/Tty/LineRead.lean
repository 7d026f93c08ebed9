import HouseOS.Keyboard.Model
import HouseOS.Tty.HistoryRing

namespace HouseOS.Tty

open HouseOS.ByteMem
open HouseOS.Keyboard (KeyEvent)

def keyHome : UInt8 := 0x47

def keyUp : UInt8 := 0x48

def keyLeft : UInt8 := 0x4B

def keyRight : UInt8 := 0x4D

def keyEnd : UInt8 := 0x4F

def keyDown : UInt8 := 0x50

def keyDel : UInt8 := 0x53

structure LineRead where
  size : Nat
  out : Mem
  n : Nat
  cursor : Nat
  savedLen : Nat
  savedCursor : Nat
  historyPos : Int
  savedLine : Mem
  history : HistoryRing
  result : Option Int

-- what one round of the loop takes: a queued character with no event, or an event and the
-- character that is queued when it is handled
inductive Handled where
  | char (c : UInt8)
  | event (ev : KeyEvent) (queued : Option UInt8)
  deriving DecidableEq, Repr

def ttyEventAscii (layout : Nat) (ev : KeyEvent) : UInt8 :=
  if ev.ascii ≠ 0 then ev.ascii
  else if ev.scancode = Keyboard.keyEnter then 10
  else if ev.scancode = Keyboard.keyBackspace ∨ ev.scancode = keyDel then 8
  else if ev.scancode = Keyboard.keyTab then 9
  else if ev.ctrl ∨ ev.alt then 0
  else if 255 ≤ ev.scancode then 0
  else
    let layout := if Keyboard.layoutCount ≤ layout then 0 else layout
    let shifted := ev.shift ^^ (ev.caps && Keyboard.keyboardIsAlphaScancode ev.scancode)
    Keyboard.mapAt layout (if shifted then 1 else 0) ev.scancode

def ttyTakeInputChar (layout : Nat) (ev : KeyEvent) (queued : Option UInt8) : UInt8 :=
  match queued with
  | some c =>
      let c := if c = 0x7F then 8 else c
      fromReturn c
  | none =>
      let c := ttyEventAscii layout ev
      let c := if ev.scancode = Keyboard.keyEnter then 10
        else if ev.scancode = Keyboard.keyBackspace ∨ ev.scancode = keyDel then 8
        else c
      fromReturn c

namespace LineRead

variable (s : LineRead)

def started (size : Nat) (out savedLine : Mem) (history : HistoryRing) : LineRead :=
  ⟨if historyLineMax < size then historyLineMax else size, out, 0, 0, 0, 0, -1, savedLine, history,
    none⟩

-- the control characters end the read
def ctrlChar? (c : UInt8) : Option Int := if c = 4 then some 0 else if c = 3 then some (-1) else none

def enter : LineRead :=
  let out := store8 s.out s.n 10
  let n := s.n + 1
  let out := store8 out n 0
  { s with
    out := out
    n := n
    history := if 1 < n then s.history.ttyHistoryStore out (n - 1) else s.history
    result := some n }

def erase : LineRead :=
  if 0 < s.cursor then
    { s with
      out := copyFrom s.out (s.cursor - 1) s.out s.cursor (s.n - s.cursor)
      n := s.n - 1
      cursor := s.cursor - 1 }
  else s

def insert (c : UInt8) : LineRead :=
  { s with
    out := store8 (copyFrom s.out (s.cursor + 1) s.out s.cursor (s.n - s.cursor)) s.cursor c
    n := s.n + 1
    cursor := s.cursor + 1 }

def saveLine : LineRead :=
  { s with
    savedLine := copyFrom s.savedLine 0 s.out 0 s.n
    savedLen := s.n
    savedCursor := s.cursor }

def restoreLine : LineRead :=
  let n := if s.size ≤ s.savedLen then s.size - 1 else s.savedLen
  { s with
    historyPos := -1
    n := n
    out := copyFrom s.out 0 s.savedLine 0 n
    cursor := if s.savedCursor ≤ n then s.savedCursor else n }

def showEntry : LineRead :=
  match s.history.ttyHistoryGet s.historyPos.toNat with
  | none => s
  | some (m, a) =>
      let hlen := (cstrAt m a historyLineMax).length
      let hlen := if s.size ≤ hlen then s.size - 1 else hlen
      { s with out := copyFrom s.out 0 m a hlen, n := hlen, cursor := hlen }

def stepBack : LineRead :=
  if s.historyPos < (s.history.count - 1 : Nat) then
    let s := if s.historyPos < 0 then s.saveLine else s
    { s with historyPos := s.historyPos + 1 }
  else s

def up : LineRead := if s.history.count = 0 then s else s.stepBack.showEntry

def down : LineRead :=
  if s.historyPos < 0 then s
  else if 0 < s.historyPos then { s with historyPos := s.historyPos - 1 }.showEntry
  else s.restoreLine

def queuedChar (c : UInt8) : LineRead :=
  let c := fromReturn c
  match ctrlChar? c with
  | some r => { s with result := some r }
  | none =>
      if c = 10 then s.enter
      else if c = 8 ∨ c = 0x7F then s.erase
      else if 32 ≤ c ∧ c ≠ 127 ∧ s.n < s.size - 1 then s.insert c
      else s

-- `c < 32` compares a signed character
def eventChar (layout : Nat) (ev : KeyEvent) (queued : Option UInt8) : LineRead :=
  let c := ttyTakeInputChar layout ev queued
  match ctrlChar? c with
  | some r => { s with result := some r }
  | none =>
      if c = 10 ∨ ev.scancode = Keyboard.keyEnter then s.enter
      else if c = 8 ∨ ev.scancode = Keyboard.keyBackspace ∨ ev.scancode = keyDel then s.erase
      else if c = 0 ∨ c.toInt8 < 32 ∨ c = 127 then s
      else if s.n < s.size - 1 then s.insert c
      else s

def handle (layout : Nat) : Handled → LineRead
  | .char c => s.queuedChar c
  | .event ev queued =>
      if !ev.pressed then s
      else if ev.scancode = keyLeft then
        if 0 < s.cursor then { s with cursor := s.cursor - 1 } else s
      else if ev.scancode = keyRight then
        if s.cursor < s.n then { s with cursor := s.cursor + 1 } else s
      else if ev.scancode = keyHome then
        if 0 < s.cursor then { s with cursor := 0 } else s
      else if ev.scancode = keyEnd then
        if s.cursor < s.n then { s with cursor := s.n } else s
      else if ev.scancode = keyUp then s.up
      else if ev.scancode = keyDown then s.down
      else s.eventChar layout ev queued

-- the loop goes on while there is room for a byte and the end of the string
def next (layout : Nat) (s : LineRead) (k : Handled) : LineRead :=
  if s.result ≠ none then s
  else
    let s := s.handle layout k
    if s.result ≠ none ∨ s.n < s.size - 1 then s
    else { s with out := store8 s.out s.n 0, result := some s.n }

def run (layout : Nat) (keys : List Handled) : LineRead := keys.foldl (next layout) s

end LineRead

end HouseOS.Tty
