import Mathlib.Data.List.Basic
import Mathlib.Data.Nat.Bitwise
import Mathlib.Logic.Function.Iterate

namespace HouseOS.Tty

inductive TtyType where
  | vesa
  | serial
  | vga
  deriving DecidableEq, Repr

inductive AnsiState where
  | ground
  | escape
  | bracket
  deriving DecidableEq, Repr

-- the cells are one allocation of `rows * cols` bytes
structure Screen where
  cols : Nat
  rows : Nat
  fits : rows * cols < 2 ^ 32

structure Device where
  type : TtyType
  index : Nat
  cursorX : Nat
  cursorY : Nat
  screen : Screen
  cells : Option (List UInt8)
  ansiState : AnsiState
  ansiParam : Nat
  ansiHaveParam : Bool
  -- the ranges of cells read or written so far: start and length
  touched : List (Nat × Nat)

namespace Device

abbrev cols (t : Device) : Nat := t.screen.cols

abbrev rows (t : Device) : Nat := t.screen.rows

def touch (t : Device) (start len : Nat) : Device := { t with touched := t.touched ++ [(start, len)] }

def cell (t : Device) (x y : Nat) : Nat := (y * t.cols + x) % 2 ^ 32

def store (t : Device) (x y : Nat) (c : UInt8) : Device :=
  { t.touch (t.cell x y) 1 with cells := t.cells.map fun cells => cells.set (t.cell x y) c }

def moveTo (t : Device) (x y : Nat) : Device := { t with cursorX := x, cursorY := y }

def cursorLeftRaw (t : Device) : Device :=
  if 0 < t.cursorX then t.moveTo (t.cursorX - 1) t.cursorY
  else if 0 < t.cursorY then t.moveTo (if 0 < t.cols then t.cols - 1 else 0) (t.cursorY - 1)
  else t

def cursorRightRaw (t : Device) : Device :=
  if (t.cursorX + 1) % 2 ^ 32 < t.cols then t.moveTo ((t.cursorX + 1) % 2 ^ 32) t.cursorY
  else t.moveTo 0
    (if (t.cursorY + 1) % 2 ^ 32 < t.rows then (t.cursorY + 1) % 2 ^ 32 else t.cursorY)

def redrawRow (t : Device) (row : Nat) : Device :=
  if t.cells = none ∨ t.rows ≤ row ∨ t.type = .serial then t
  else (List.range t.cols).foldl (fun t x => t.touch (t.cell x row) 1) t

def eraseToEol (active : Nat) (t : Device) : Device :=
  if t.cells = none ∨ t.rows ≤ t.cursorY ∨ t.cols ≤ t.cursorX then t
  else
    (List.range' t.cursorX (t.cols - t.cursorX)).foldl (fun u x =>
      let u := u.store x t.cursorY 32
      if u.index = active ∧ u.type = .vga then u.redrawRow t.cursorY else u) t

def scroll (active : Nat) (t : Device) : Device :=
  if t.cells = none ∨ t.rows = 0 ∨ t.type = .serial then t
  else
    let total := (t.rows * t.cols) % 2 ^ 32
    let moved := (total + 2 ^ 32 - t.cols) % 2 ^ 32
    let t := ((t.touch t.cols moved).touch 0 moved).touch moved t.cols
    let t := { t with
      cells := t.cells.map fun cells => (cells.drop t.cols).take moved ++ List.replicate t.cols 32 }
    if t.index ≠ active then t else t.redrawRow (t.rows - 1)

def consumeAnsi (active : Nat) (c : UInt8) (t : Device) : Device × Bool :=
  match t.ansiState with
  | .ground =>
      if c = 27 then
        ({ t with ansiState := .escape, ansiParam := 0, ansiHaveParam := false }, true)
      else (t, false)
  | .escape =>
      if c = 91 then ({ t with ansiState := .bracket }, true)
      else ({ t with ansiState := .ground }, true)
  | .bracket =>
      if 48 ≤ c ∧ c ≤ 57 then
        ({ t with
            ansiHaveParam := true
            ansiParam := (t.ansiParam * 10 + (c.toNat - 48)) % 2 ^ 32 }, true)
      else if c = 59 then (t, true)
      else if 0x40 ≤ c ∧ c ≤ 0x7E then
        let n := if t.ansiHaveParam then t.ansiParam else 1
        let n := if n = 0 then 1 else n
        let moved :=
          if c = 68 then cursorLeftRaw^[n] t
          else if c = 67 then cursorRightRaw^[n] t
          else if c = 71 then
            let col := if t.ansiHaveParam then (t.ansiParam + 2 ^ 32 - 1) % 2 ^ 32 else 0
            let col := if t.cols ≤ col then (if t.cols ≠ 0 then t.cols - 1 else 0) else col
            t.moveTo col t.cursorY
          else if c = 72 ∨ c = 102 then t.moveTo 0 0
          else if c = 75 ∨ c = 88 ∨ c = 74 then t.eraseToEol active
          else t
        ({ moved with ansiState := .ground, ansiParam := 0, ansiHaveParam := false }, true)
      else ({ t with ansiState := .ground }, true)

def nextRow (active : Nat) (t : Device) : Device :=
  let y := (t.cursorY + 1) % 2 ^ 32
  if t.rows ≤ y then (t.moveTo 0 (t.rows - 1)).scroll active else t.moveTo 0 y

-- what `tty_putc_vesa` and `tty_putc_vga` do after their own checks
def putc (active : Nat) (c : UInt8) (t : Device) : Device :=
  let (t, eaten) := t.consumeAnsi active c
  if eaten then t
  else if c = 13 then t.moveTo 0 t.cursorY
  else if c = 10 then t.nextRow active
  else if c = 8 then
    let t := t.cursorLeftRaw
    t.store t.cursorX t.cursorY 32
  else
    let t := t.store t.cursorX t.cursorY c
    let x := (t.cursorX + 1) % 2 ^ 32
    if t.cols ≤ x then t.nextRow active else t.moveTo x t.cursorY

def putcVesa (active : Nat) (c : UInt8) (t : Device) : Device :=
  if t.type ≠ .vesa ∨ t.cells = none then t else t.putc active c

def putcVga (active : Nat) (c : UInt8) (t : Device) : Device :=
  if t.type ≠ .vga ∨ t.cells = none then t
  else if t.cols = 0 ∨ t.rows = 0 then t
  else t.putc active c

def inputCursor (active : Nat) (visible : Bool) (t : Device) : Device :=
  if t.type ≠ .vesa ∨ t.index ≠ active then t
  else if t.cols ≤ t.cursorX ∨ t.rows ≤ t.cursorY then t
  else if visible then t
  else t.touch (t.cell t.cursorX t.cursorY) 1

def renderFull (t : Device) : Device :=
  if t.cells = none ∨ t.type = .serial then t
  else
    (List.range t.rows).foldl
      (fun t y => (List.range t.cols).foldl (fun t x => t.touch (t.cell x y) 1) t) t

end Device

inductive Act where
  | putcVesa (c : UInt8)
  | putcVga (c : UInt8)
  | cursorLeftRaw
  | cursorRightRaw
  | inputCursor (visible : Bool)
  | renderFull
  deriving DecidableEq, Repr

def Device.act (t : Device) : Nat × Act → Device
  | (active, .putcVesa c) => t.putcVesa active c
  | (active, .putcVga c) => t.putcVga active c
  | (_, .cursorLeftRaw) => t.cursorLeftRaw
  | (_, .cursorRightRaw) => t.cursorRightRaw
  | (active, .inputCursor visible) => t.inputCursor active visible
  | (_, .renderFull) => t.renderFull

-- the device before and after each step; which terminal is active may change between them
def Device.states : (Nat → Nat) → List Act → Device → List Device
  | _, [], t => [t]
  | active, a :: acts, t => t :: states (fun n => active (n + 1)) acts (t.act (active 0, a))

def vgaScreen : Screen := ⟨80, 25, by decide⟩

-- a mode's width and height are 16-bit fields
def vesaScreen (width height : UInt16) (charW charH : Nat) : Screen where
  cols := width.toNat / charW
  rows := height.toNat / charH
  fits :=
    calc
      height.toNat / charH * (width.toNat / charW) ≤ height.toNat * width.toNat :=
        Nat.mul_le_mul (Nat.div_le_self _ _) (Nat.div_le_self _ _)
      _ < 2 ^ 16 * 2 ^ 16 :=
        Nat.mul_lt_mul'' (UInt16.toNat_lt height) (UInt16.toNat_lt width)

-- `got`: `valloc` found room for the cells
def ttyInit (type : TtyType) (index : Nat) (screen : Screen) (got : Bool) : Device where
  type := type
  index := index
  cursorX := 0
  cursorY := 0
  screen := screen
  cells := if got then some (List.replicate (screen.rows * screen.cols) 32) else none
  ansiState := .ground
  ansiParam := 0
  ansiHaveParam := false
  touched := []

end HouseOS.Tty
