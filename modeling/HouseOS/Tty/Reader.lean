import HouseOS.Tty.Model

namespace HouseOS.Tty

abbrev Line := List UInt8

def historyMax : Nat := 32

def historyLineMax : Nat := 1024

-- latest line first; a device without the memory for it has none
abbrev History := Option (List Line)

def historyStore (history : History) (line : Line) : History :=
  history.map fun lines =>
    let kept := line.take (historyLineMax - 1)
    if kept = [] ∨ lines.head? = some kept then lines else (kept :: lines).take historyMax

def historyGet (history : History) (fromLatest : Nat) : Option Line :=
  history.bind fun lines => lines[fromLatest]?

def historyCount (history : History) : Nat := (history.getD []).length

structure Reader where
  vga : Bool
  size : Nat
  out : Line
  cursor : Nat
  historyPos : Option Nat
  savedLine : Line
  savedCursor : Nat
  done : Bool
  deriving DecidableEq, Repr

inductive Scan where
  | left
  | right
  | home
  | fin
  | up
  | down
  | enter
  | erase
  | other
  deriving DecidableEq, Repr

-- a queued character, or a pressed key and the character taken for it
inductive Key where
  | queued (c : UInt8)
  | event (scan : Scan) (c : UInt8)
  deriving DecidableEq, Repr

def ttyInputClearLine (line : Line) (cursor : Nat) : List Act :=
  (line.drop cursor).map .putcVesa ++ List.replicate line.length .cursorLeftRaw ++
    List.replicate line.length (.putcVesa 32) ++ List.replicate line.length .cursorLeftRaw

def ttyInputDrawLine (line : Line) (cursor : Nat) : List Act :=
  line.map .putcVesa ++ List.replicate (line.length - cursor) .cursorLeftRaw

def hidden (acts : List Act) : List Act := .inputCursor false :: acts ++ [.inputCursor true]

def interruptActs (type : TtyType) : List Act :=
  [94, 67, 10].map fun c => if type = .vga then .putcVga c else .putcVesa c

def isPrintable (c : UInt8) : Bool := 32 ≤ c ∧ c ≠ 127

def fromReturn (c : UInt8) : UInt8 := if c = 13 then 10 else c

namespace Reader

def insert (r : Reader) (c : UInt8) : Reader × List Act :=
  let out := r.out.take r.cursor ++ c :: r.out.drop r.cursor
  ({ r with out := out, cursor := r.cursor + 1 },
    hidden ((out.drop r.cursor).map .putcVesa ++
      List.replicate (out.length - (r.cursor + 1)) .cursorLeftRaw))

def erase (r : Reader) : Reader × List Act :=
  if r.cursor = 0 then (r, [])
  else
    let out := r.out.eraseIdx (r.cursor - 1)
    ({ r with out := out, cursor := r.cursor - 1 },
      hidden (.putcVesa 8 :: (out.drop (r.cursor - 1)).map .putcVesa ++ .putcVesa 32 ::
        List.replicate (out.length - (r.cursor - 1) + 1) .cursorLeftRaw))

def enter (r : Reader) : Reader × List Act :=
  ({ r with out := r.out ++ [10], done := true }, [.inputCursor false, .putcVesa 10])

def redraw (r : Reader) (line : Line) (cursor : Nat) : Reader × List Act :=
  ({ r with out := line, cursor := cursor },
    hidden (ttyInputClearLine r.out r.cursor ++ ttyInputDrawLine line cursor))

def up (r : Reader) (history : History) : Reader × List Act :=
  if historyCount history = 0 then (r, [])
  else
    let r :=
      match r.historyPos with
      | none => { r with savedLine := r.out, savedCursor := r.cursor, historyPos := some 0 }
      | some pos =>
          if pos < historyCount history - 1 then { r with historyPos := some (pos + 1) } else r
    match historyGet history (r.historyPos.getD 0) with
    | none => (r, [])
    | some line => r.redraw (line.take (r.size - 1)) (line.take (r.size - 1)).length

def down (r : Reader) (history : History) : Reader × List Act :=
  match r.historyPos with
  | none => (r, [])
  | some 0 =>
      let line := r.savedLine.take (r.size - 1)
      { r with historyPos := none }.redraw line (min r.savedCursor line.length)
  | some (pos + 1) =>
      let r := { r with historyPos := some pos }
      match historyGet history pos with
      | none => (r, hidden (ttyInputClearLine r.out r.cursor))
      | some line => r.redraw (line.take (r.size - 1)) (line.take (r.size - 1)).length

-- control characters, then the line's own keys: `raw` tells what may be put in the line
def vesaChar (r : Reader) (type : TtyType) (scan : Scan) (c : UInt8) (raw : Bool) :
    Reader × List Act :=
  if c = 4 then ({ r with done := true }, [.inputCursor false])
  else if c = 3 then ({ r with done := true }, .inputCursor false :: interruptActs type)
  else if c = 10 ∨ scan = .enter then r.enter
  else if c = 8 ∨ (raw ∧ c = 127) ∨ scan = .erase then r.erase
  else if isPrintable c ∧ (raw ∨ c < 128) then r.insert c
  else (r, [])

def vesaKey (r : Reader) (type : TtyType) (history : History) : Key → Reader × List Act
  | .queued c => r.vesaChar type .other (fromReturn c) true
  | .event .left _ =>
      if r.cursor = 0 then (r, [])
      else ({ r with cursor := r.cursor - 1 }, hidden [.cursorLeftRaw])
  | .event .right _ =>
      if r.out.length ≤ r.cursor then (r, [])
      else ({ r with cursor := r.cursor + 1 }, hidden [.cursorRightRaw])
  | .event .home _ =>
      if r.cursor = 0 then (r, [])
      else ({ r with cursor := 0 }, hidden (List.replicate r.cursor .cursorLeftRaw))
  | .event .fin _ =>
      if r.out.length ≤ r.cursor then (r, [])
      else
        ({ r with cursor := r.out.length },
          hidden (List.replicate (r.out.length - r.cursor) .cursorRightRaw))
  | .event .up _ => r.up history
  | .event .down _ => r.down history
  | .event scan c => r.vesaChar type scan c false

-- reads of one byte echo what they take
def oneChar (r : Reader) (c : UInt8) (put : UInt8 → Act) (erases : Bool) : Reader × List Act :=
  if c = 0 ∧ ¬erases then (r, [])
  else if c = 4 then ({ r with done := true }, [])
  else if c = 3 then (r, [94, 67, 10].map put)
  else
    ({ r with out := [c], done := true },
      if c = 8 ∨ (erases ∧ c = 127) then [put 8]
      else if c = 10 ∨ isPrintable c then [put c] else [])

def vgaChar (r : Reader) (scan : Scan) (c : UInt8) (raw : Bool) : Reader × List Act :=
  if c = 4 then ({ r with done := true }, [])
  else if c = 3 then ({ r with done := true }, [94, 67, 10].map .putcVga)
  else if scan = .enter ∨ (raw ∧ c = 10) ∨ (¬raw ∧ c = 13) then
    ({ r with out := r.out ++ [10], done := true }, [.putcVga 10])
  else if scan = .erase ∨ (raw ∧ (c = 8 ∨ c = 127)) then
    if r.out = [] then (r, []) else ({ r with out := r.out.dropLast }, [.putcVga 8])
  else if isPrintable c then ({ r with out := r.out ++ [c] }, [.putcVga c])
  else (r, [])

-- the line is full: the loop of the call ends
def filled (r : Reader) (acts : List Act) : Reader × List Act :=
  if r.done ∨ r.out.length < r.size - 1 then (r, acts)
  else ({ r with done := true }, acts ++ if r.vga then [] else [.inputCursor false])

def key (r : Reader) (type : TtyType) (history : History) (k : Key) : Reader × List Act :=
  if r.size = 1 then
    let put := if r.vga then Act.putcVga else Act.putcVesa
    match k with
    | .queued c => r.oneChar (fromReturn c) put true
    | .event _ c => r.oneChar c put false
  else if r.vga then
    let (r, acts) :=
      match k with
      | .queued c => r.vgaChar .other (fromReturn c) true
      | .event scan c => r.vgaChar scan c false
    r.filled acts
  else
    let (r, acts) := r.vesaKey type history k
    r.filled acts

def started (vga : Bool) (size : Nat) : Reader :=
  ⟨vga, if vga then size else min size historyLineMax, [], 0, none, [], 0, false⟩

def entered? (r : Reader) : Option Line :=
  if r.done ∧ r.size ≠ 1 ∧ ¬r.vga ∧ r.out.getLast? = some 10 then some r.out.dropLast else none

end Reader

structure Session where
  history : History
  readers : List Reader
  deriving DecidableEq, Repr

inductive Op where
  | write (vga : Bool) (c : UInt8)
  | read (vga : Bool) (size : Nat)
  | key (j : Nat) (k : Key)
  | setActive
  deriving DecidableEq, Repr

def Session.perform (type : TtyType) (s : Session) : Op → Session × List Act
  | .write vga c => (s, [if vga then .putcVga c else .putcVesa c])
  | .read vga size =>
      if size = 0 ∨ (vga = true ∧ type ≠ .vga) then (s, [])
      else
        ({ s with readers := s.readers ++ [.started vga size] },
          if vga = false ∧ size ≠ 1 then [.inputCursor true] else [])
  | .key j k =>
      match s.readers[j]? with
      | none => (s, [])
      | some r =>
          if r.done then (s, [])
          else
            let (r', acts) := r.key type s.history k
            let history :=
              match r'.entered? with
              | none => s.history
              | some line => historyStore s.history line
            (⟨history, s.readers.set j r'⟩, acts)
  | .setActive => (s, [.renderFull])

def program (type : TtyType) : Session → List Op → List Act
  | _, [] => []
  | s, op :: ops => (s.perform type op).2 ++ program type (s.perform type op).1 ops

end HouseOS.Tty
