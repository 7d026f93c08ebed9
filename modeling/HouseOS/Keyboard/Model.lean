import Mathlib.Data.List.Basic
import Mathlib.Tactic.Common

namespace HouseOS.Keyboard

def keyboardBufferSize : Nat := 4096

def eventBufferSize : Nat := 512

def scMax : UInt8 := 0x57

def layoutCount : Nat := 1

def keyBackspace : UInt8 := 0x0E
def keyTab : UInt8 := 0x0F
def keyEnter : UInt8 := 0x1C
def keyLctrl : UInt8 := 0x1D
def keyLshift : UInt8 := 0x2A
def keyRshift : UInt8 := 0x36
def keyLalt : UInt8 := 0x38
def keyCaps : UInt8 := 0x3A
def keyF1 : UInt8 := 0x3B
def keyF8 : UInt8 := 0x42
def keyNumlock : UInt8 := 0x45
def keyScrolllock : UInt8 := 0x46
def keyPause : UInt8 := 0x61

structure KeyEvent where
  scancode : UInt8
  ascii : UInt8
  pressed : Bool
  shift : Bool
  ctrl : Bool
  alt : Bool
  caps : Bool
  deriving DecidableEq, Repr

inductive Action where
  | leds (scroll num caps : Bool)
  | reset
  | hotkey (keycode : UInt8) (shift ctrl alt : Bool)
  | print (text : String)
  | putChar (c : UInt8)
  | backspace
  | cursorUpdate
  | colorSet (foreground background : Nat)
  deriving DecidableEq, Repr

structure Decoder where
  buffer : List UInt8
  events : List KeyEvent
  scancodes : List UInt8
  shiftPressed : Bool
  ctrlPressed : Bool
  altPressed : Bool
  capsLock : Bool
  numLock : Bool
  scrollLock : Bool
  echoMode : Bool
  extScancode : Bool
  pauseBreak : Bool
  lastScancode : UInt8
  currentLayout : Nat
  hotkeyHandler : Bool
  hotkeyLatched : Option UInt8
  pauseBuffer : Nat → UInt8
  pauseIndex : Nat
  actions : List Action

def keyboardMap : List (List (List UInt8)) :=
  [[[0, 27, 0x31, 0x32, 0x33, 0x34, 0x35, 0x36, 0x37, 0x38, 0x39, 0x30, 0x2D, 0x3D, 0x08,
      0x09, 0x71, 0x77, 0x65, 0x72, 0x74, 0x79, 0x75, 0x69, 0x6F, 0x70, 0x5B, 0x5D, 0x0A,
      0, 0x61, 0x73, 0x64, 0x66, 0x67, 0x68, 0x6A, 0x6B, 0x6C, 0x3B, 0x27, 0x60,
      0, 0x5C, 0x7A, 0x78, 0x63, 0x76, 0x62, 0x6E, 0x6D, 0x2C, 0x2E, 0x2F, 0,
      0x2A, 0, 0x20, 0, 0, 0, 0, 0, 0, 0, 0, 0, 0, 0, 0, 0, 0, 0, 0, 0,
      0x2D, 0, 0, 0, 0x2B],
    [0, 27, 0x21, 0x40, 0x23, 0x24, 0x25, 0x5E, 0x26, 0x2A, 0x28, 0x29, 0x5F, 0x2B, 0x08,
      0x09, 0x51, 0x57, 0x45, 0x52, 0x54, 0x59, 0x55, 0x49, 0x4F, 0x50, 0x7B, 0x7D, 0x0A,
      0, 0x41, 0x53, 0x44, 0x46, 0x47, 0x48, 0x4A, 0x4B, 0x4C, 0x3A, 0x22, 0x7E,
      0, 0x7C, 0x5A, 0x58, 0x43, 0x56, 0x42, 0x4E, 0x4D, 0x3C, 0x3E, 0x3F, 0,
      0x2A, 0, 0x20, 0, 0, 0, 0, 0, 0, 0, 0, 0, 0, 0, 0, 0, 0, 0, 0, 0,
      0x2D, 0, 0, 0, 0x2B]]]

-- the C tables are longer: what the initialisers leave out is zero
def mapAt (layout row : Nat) (scancode : UInt8) : UInt8 :=
  ((keyboardMap.getD layout []).getD row []).getD scancode.toNat 0

def keyboardIsAlphaScancode (scancode : UInt8) : Bool :=
  (0x10 ≤ scancode && scancode ≤ 0x19) || (0x1E ≤ scancode && scancode ≤ 0x26) ||
    (0x2C ≤ scancode && scancode ≤ 0x32)

def keyboardEffectiveShift (scancode : UInt8) (shift caps : Bool) : Bool :=
  if keyboardIsAlphaScancode scancode then shift ^^ caps else shift

def put {α : Type} (cap : Nat) (xs : List α) (x : α) : List α :=
  if xs.length < cap then xs ++ [x] else xs

namespace Decoder

def bufferPut (s : Decoder) (c : UInt8) : Decoder :=
  { s with buffer := put keyboardBufferSize s.buffer c }

def scancodeBufferPut (s : Decoder) (scancode : UInt8) : Decoder :=
  { s with scancodes := put keyboardBufferSize s.scancodes scancode }

def eventBufferPut (s : Decoder) (event : KeyEvent) : Decoder :=
  { s with events := put eventBufferSize s.events event }

def act (s : Decoder) (as : List Action) : Decoder := { s with actions := s.actions ++ as }

def echo (s : Decoder) (as : List Action) : Decoder := if s.echoMode then s.act as else s

def getAscii (s : Decoder) (scancode : UInt8) (shift : Bool) : UInt8 :=
  if scMax < scancode then 0 else mapAt s.currentLayout (if shift then 1 else 0) scancode

def keyboardSetLeds (s : Decoder) (scroll num caps : Bool) : Decoder :=
  { s with scrollLock := scroll, numLock := num, capsLock := caps }.act [.leds scroll num caps]

def toggled (name : String) (on : Bool) : List Action :=
  [.print name, .print (if on then "ON]" else "OFF]")]

def handleSpecialKey (s : Decoder) (scancode : UInt8) (pressed : Bool) : Decoder :=
  if scancode = keyLshift ∨ scancode = keyRshift then { s with shiftPressed := pressed }
  else if scancode = keyLctrl then { s with ctrlPressed := pressed }
  else if scancode = keyLalt then { s with altPressed := pressed }
  else if scancode = keyCaps then
    if pressed then
      (s.keyboardSetLeds s.scrollLock s.numLock (!s.capsLock)).echo
        (toggled "\n[Caps Lock: " (!s.capsLock))
    else s
  else if scancode = keyNumlock then
    if pressed then
      (s.keyboardSetLeds s.scrollLock (!s.numLock) s.capsLock).echo
        (toggled "\n[Num Lock: " (!s.numLock))
    else s
  else if scancode = keyScrolllock then
    if pressed then
      (s.keyboardSetLeds (!s.scrollLock) s.numLock s.capsLock).echo
        (toggled "\n[Scroll Lock: " (!s.scrollLock))
    else s
  else s

def keyEvent (s : Decoder) (scancode ascii : UInt8) : KeyEvent :=
  { scancode := scancode, ascii := ascii, pressed := true, shift := s.shiftPressed,
    ctrl := s.ctrlPressed, alt := s.altPressed, caps := s.capsLock }

def extAscii (scancode : UInt8) : UInt8 :=
  if scancode = keyEnter then 0x0A
  else if scancode = keyBackspace then 0x08
  else if scancode = keyTab then 0x09
  else 0

def extEcho (scancode : UInt8) : List Action :=
  if scancode = keyEnter then [.putChar 0x0A, .cursorUpdate]
  else if scancode = keyBackspace then [.backspace, .cursorUpdate]
  else if scancode = keyTab then [.putChar 0x09, .cursorUpdate]
  else []

def handleExtendedScancode (s : Decoder) (scancode : UInt8) (pressed : Bool) : Decoder :=
  if scancode = keyLctrl then { s with ctrlPressed := pressed }
  else if scancode = keyLalt then { s with altPressed := pressed }
  else if !pressed then s
  else
    let ascii := extAscii scancode
    let s := if !s.ctrlPressed && !s.altPressed then s.echo (extEcho scancode) else s
    let s := s.eventBufferPut (s.keyEvent scancode ascii)
    if ascii ≠ 0 then s.bufferPut ascii else s

def handleCtrlAltCombo (s : Decoder) (scancode : UInt8) (pressed : Bool) : Decoder :=
  if pressed && s.ctrlPressed && s.altPressed && scancode = 0x53 then s.act [.reset] else s

def ctrlChar (ascii : UInt8) : UInt8 :=
  if ascii = 0x63 ∨ ascii = 0x43 then 0x03
  else if ascii = 0x64 ∨ ascii = 0x44 then 0x04
  else if ascii = 0x7A ∨ ascii = 0x5A then 0x1A
  else if ascii = 0x6C ∨ ascii = 0x4C then 0x0C
  else if 0x61 ≤ ascii ∧ ascii ≤ 0x7A then ascii - 0x61 + 1
  else if 0x41 ≤ ascii ∧ ascii ≤ 0x5A then ascii - 0x41 + 1
  else ascii

def charEcho (ascii : UInt8) : List Action :=
  if ascii = 0x0A then [.putChar 0x0A, .cursorUpdate]
  else if ascii = 0x08 then [.backspace, .cursorUpdate]
  else if ascii = 0x09 then [.putChar 0x09, .cursorUpdate]
  else [.putChar ascii, .cursorUpdate]

def altEcho (ascii : UInt8) : List Action :=
  [.colorSet 12 0, .print "[Alt+", .putChar ascii, .putChar 0x5D, .colorSet 7 0]

def putTyped (s : Decoder) (ascii : UInt8) : Decoder :=
  if ascii = 0 then s
  else if s.ctrlPressed then s.bufferPut (ctrlChar ascii)
  else if s.altPressed then s.echo (altEcho ascii)
  else (s.bufferPut ascii).echo (charEcho ascii)

def keyboardClearBuffers (s : Decoder) : Decoder :=
  { s with
    buffer := []
    events := []
    scancodes := []
    shiftPressed := false
    ctrlPressed := false
    altPressed := false
    extScancode := false
    pauseBreak := false
    pauseIndex := 0
    hotkeyLatched := none }

-- the one handler there is changes the console, and `tty_set_active` clears the buffers for it
def ttyHotkeyHandler (s : Decoder) (keycode : UInt8) : Decoder :=
  (s.act [.hotkey keycode s.shiftPressed s.ctrlPressed s.altPressed]).keyboardClearBuffers

def hotkey (s : Decoder) (keycode : UInt8) : Decoder :=
  if s.hotkeyLatched = some keycode then s
  else
    let s := if s.hotkeyHandler then s.ttyHotkeyHandler keycode else s
    { s with hotkeyLatched := some keycode }

def isHotkey (s : Decoder) (keycode : UInt8) : Bool :=
  keyF1 ≤ keycode && keycode ≤ keyF8 && (s.altPressed || (s.ctrlPressed && s.shiftPressed))

def handleKey (s : Decoder) (keycode : UInt8) (pressed : Bool) : Decoder :=
  let s := s.handleSpecialKey keycode pressed
  let s := if !pressed && s.hotkeyLatched = some keycode then { s with hotkeyLatched := none } else s
  if pressed && s.isHotkey keycode then s.hotkey keycode
  else if pressed then
    let ascii := s.getAscii keycode (keyboardEffectiveShift keycode s.shiftPressed s.capsLock)
    (s.eventBufferPut (s.keyEvent keycode ascii)).putTyped ascii
  else s

def pauseByte (s : Decoder) (scancode : UInt8) : Decoder :=
  let s := { s with
    pauseBuffer := fun j => if j = s.pauseIndex then scancode else s.pauseBuffer j
    pauseIndex := s.pauseIndex + 1 }
  if 6 ≤ s.pauseIndex then
    { s with pauseBreak := false }.eventBufferPut (s.keyEvent keyPause 0)
  else s

def keyboardProcessScancode (s : Decoder) (scancode : UInt8) : Decoder :=
  let s := { s with lastScancode := scancode }.scancodeBufferPut scancode
  if scancode = 0xE1 then { s with pauseBreak := true, pauseIndex := 0 }
  else if s.pauseBreak then s.pauseByte scancode
  else if scancode = 0xE0 then { s with extScancode := true }
  else
    let pressed := decide (scancode &&& 0x80 = 0)
    let keycode := scancode &&& 0x7F
    let s := s.handleCtrlAltCombo keycode pressed
    if s.extScancode then
      { s.handleExtendedScancode keycode pressed with extScancode := false }
    else s.handleKey keycode pressed

def feed (s : Decoder) (codes : List UInt8) : Decoder := codes.foldl keyboardProcessScancode s

def keyboardInit (hotkeyHandler : Bool) : Decoder :=
  { buffer := [], events := [], scancodes := [], shiftPressed := false, ctrlPressed := false,
    altPressed := false, capsLock := false, numLock := false, scrollLock := false,
    echoMode := true, extScancode := false, pauseBreak := false, lastScancode := 0,
    currentLayout := 0, hotkeyHandler := hotkeyHandler, hotkeyLatched := none,
    pauseBuffer := fun _ => 0, pauseIndex := 0, actions := [] }

end Decoder

end HouseOS.Keyboard
