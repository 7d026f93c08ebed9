import HouseOS.Keyboard.Model
import HouseOS.Library.Window

namespace HouseOS.Keyboard

namespace Decoder

-- the keys `usbkbd.c` puts in, with the modes its report has
def keyboardInjectEvent (s : Decoder) (scancode ascii : UInt8) (pressed shift ctrl alt caps : Bool) :
    Decoder :=
  let s := { s with
    shiftPressed := shift
    ctrlPressed := ctrl
    altPressed := alt
    capsLock := caps
    lastScancode := scancode }.scancodeBufferPut scancode
  let s := if !pressed && s.hotkeyLatched = some scancode then { s with hotkeyLatched := none } else s
  let s := if pressed && s.isHotkey scancode then s.hotkey scancode else s
  let s := s.eventBufferPut
    { scancode := scancode, ascii := ascii, pressed := pressed, shift := s.shiftPressed,
      ctrl := s.ctrlPressed, alt := s.altPressed, caps := s.capsLock }
  if pressed && ascii ≠ 0 then
    if s.ctrlPressed then s.bufferPut (ctrlChar ascii)
    else if !s.altPressed then s.bufferPut ascii
    else s
  else s

end Decoder

namespace Usb

def hidToSet1 (hid : UInt8) : UInt8 :=
  match hid with
  | 0x04 => 0x1E
  | 0x05 => 0x30
  | 0x06 => 0x2E
  | 0x07 => 0x20
  | 0x08 => 0x12
  | 0x09 => 0x21
  | 0x0A => 0x22
  | 0x0B => 0x23
  | 0x0C => 0x17
  | 0x0D => 0x24
  | 0x0E => 0x25
  | 0x0F => 0x26
  | 0x10 => 0x32
  | 0x11 => 0x31
  | 0x12 => 0x18
  | 0x13 => 0x19
  | 0x14 => 0x10
  | 0x15 => 0x13
  | 0x16 => 0x1F
  | 0x17 => 0x14
  | 0x18 => 0x16
  | 0x19 => 0x2F
  | 0x1A => 0x11
  | 0x1B => 0x2D
  | 0x1C => 0x15
  | 0x1D => 0x2C
  | 0x1E => 0x02
  | 0x1F => 0x03
  | 0x20 => 0x04
  | 0x21 => 0x05
  | 0x22 => 0x06
  | 0x23 => 0x07
  | 0x24 => 0x08
  | 0x25 => 0x09
  | 0x26 => 0x0A
  | 0x27 => 0x0B
  | 0x28 => keyEnter
  | 0x29 => 0x01
  | 0x2A => keyBackspace
  | 0x2B => keyTab
  | 0x2C => 0x39
  | 0x2D => 0x0C
  | 0x2E => 0x0D
  | 0x2F => 0x1A
  | 0x30 => 0x1B
  | 0x31 => 0x2B
  | 0x33 => 0x27
  | 0x34 => 0x28
  | 0x35 => 0x29
  | 0x36 => 0x33
  | 0x37 => 0x34
  | 0x38 => 0x35
  | 0x39 => keyCaps
  | 0x3A => keyF1
  | 0x3B => 0x3C
  | 0x3C => 0x3D
  | 0x3D => 0x3E
  | 0x3E => 0x3F
  | 0x3F => 0x40
  | 0x40 => 0x41
  | 0x41 => keyF8
  | 0x42 => 0x43
  | 0x43 => 0x44
  | 0x44 => 0x57
  | 0x45 => 0x58
  | 0x49 => 0x52
  | 0x4A => 0x47
  | 0x4B => 0x49
  | 0x4C => 0x53
  | 0x4D => 0x4F
  | 0x4E => 0x51
  | 0x4F => 0x4D
  | 0x50 => 0x4B
  | 0x51 => 0x50
  | 0x52 => 0x48
  | _ => 0

-- the eight bytes of a report: the modifiers, a reserved one and six keys
abbrev Report := Nat → UInt8

structure DevEvent where
  scancode : UInt8
  ascii : UInt8
  pressed : Bool
  shift : Bool
  ctrl : Bool
  alt : Bool
  caps : Bool
  deriving DecidableEq, Repr

def usbkbdEventQ : Nat := 256

structure UsbKbd where
  prev : Report
  caps : Bool
  queue : List DevEvent
  decoder : Decoder

def hidInReport (r : Report) (key : UInt8) : Bool :=
  (List.range' 2 6).any fun i => r i = key

def bit (m mask : UInt8) : Bool := m &&& mask ≠ 0

def shiftOf (r : Report) : Bool := bit (r 0) 0x02 || bit (r 0) 0x20

def ctrlOf (r : Report) : Bool := bit (r 0) 0x01 || bit (r 0) 0x10

def altOf (r : Report) : Bool := bit (r 0) 0x04 || bit (r 0) 0x40

namespace UsbKbd

variable (d : UsbKbd)

-- `keyboard_inject_event` and `usbkbd_emit_event`; the oldest event goes when the queue is full
def emit (r : Report) (scancode ascii : UInt8) (pressed : Bool) : UsbKbd :=
  let shift := shiftOf r
  let ctrl := ctrlOf r
  let alt := altOf r
  { d with
    decoder := d.decoder.keyboardInjectEvent scancode ascii pressed shift ctrl alt d.caps
    queue := Window.recent usbkbdEventQ
      (d.queue ++ [⟨scancode, ascii, pressed, shift, ctrl, alt, d.caps⟩]) }

def handleModifier (r : Report) (mask scancode : UInt8) (d : UsbKbd) : UsbKbd :=
  if bit (d.prev 0) mask ≠ bit (r 0) mask then d.emit r scancode 0 (bit (r 0) mask) else d

def handleModifiers (r : Report) : UsbKbd :=
  if d.prev 0 ^^^ r 0 = 0 then d
  else
    handleModifier r 0x40 keyLalt <| handleModifier r 0x20 keyRshift <|
      handleModifier r 0x10 keyLctrl <| handleModifier r 0x04 keyLalt <|
        handleModifier r 0x02 keyLshift <| handleModifier r 0x01 keyLctrl d

def keyUp (r : Report) (d : UsbKbd) (i : Nat) : UsbKbd :=
  let key := d.prev i
  if key = 0 ∨ hidInReport r key then d else d.emit r (hidToSet1 key) 0 false

def keyDown (r : Report) (d : UsbKbd) (i : Nat) : UsbKbd :=
  let key := r i
  if key = 0 ∨ hidInReport d.prev key then d
  else
    let sc := hidToSet1 key
    let d := if key = 0x39 then { d with caps := !d.caps } else d
    let ascii := if sc < 255 then mapAt 0 (if shiftOf r ^^ d.caps then 1 else 0) sc else 0
    d.emit r sc ascii true

def handleKeys (r : Report) : UsbKbd :=
  (List.range' 2 6).foldl (keyDown r) ((List.range' 2 6).foldl (keyUp r) d)

def usbkbdReport (r : Report) : UsbKbd :=
  if (List.range 8).all fun i => r i = d.prev i then d
  else { (d.handleModifiers r).handleKeys r with prev := r }

end UsbKbd

end Usb

end HouseOS.Keyboard
