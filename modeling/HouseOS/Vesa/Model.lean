import HouseOS.Library.ByteMem
import HouseOS.Library.Word
import HouseOS.Library.Words

namespace HouseOS.Vesa

open HouseOS.ByteMem HouseOS.Word

structure Field where
  mask : UInt8
  position : UInt8
  deriving DecidableEq

structure ModeInfo where
  attributes : UInt16
  pitch : UInt16
  width : UInt16
  height : UInt16
  bpp : UInt8
  memoryModel : UInt8
  red : Field
  green : Field
  blue : Field
  reserved : Field
  framebuffer : UInt32
  deriving DecidableEq

inductive Rotation where
  | deg0
  | deg90
  | deg180
  | deg270
  deriving DecidableEq, Repr

-- the `bytes_per_pixel` of an accepted mode
def vesaInit (signature : List UInt8) (m : ModeInfo) : Option Nat :=
  if signature.take 4 ≠ Words.byteText "VESA" then none
  else if m.attributes &&& 0x0001 = 0 then none
  else if m.attributes &&& 0x0010 = 0 then none
  else if m.attributes &&& 0x0080 = 0 then none
  else if m.width = 0 ∨ m.height = 0 then none
  else if m.bpp < 8 ∨ 32 < m.bpp then none
  else if m.memoryModel ≠ 4 ∧ m.memoryModel ≠ 6 then none
  else if m.framebuffer < 0x00100000 then none
  else
    let bytesPerPixel := m.bpp.toNat / 8
    if bytesPerPixel = 0 ∨ 4 < bytesPerPixel then none
    else if m.pitch.toNat < m.width.toNat * bytesPerPixel then none
    else some bytesPerPixel

-- the driver once `vesa_init` has accepted the mode; memory is the framebuffer, from offset 0
structure Display where
  signature : List UInt8
  mode : ModeInfo
  bytesPerPixel : Nat
  rotation : Rotation
  accepted : vesaInit signature mode = some bytesPerPixel

-- a shift count is taken modulo 32, as the processor takes it
def shl32 (v n : Nat) : Nat := v <<< (n % 32) % 2 ^ 32

def shr32 (v n : Nat) : Nat := v >>> (n % 32)

def scaleComponentToMask (value maskBits : Nat) : Nat :=
  if maskBits = 0 then 0
  else if 8 ≤ maskBits then value
  else (value * (2 ^ maskBits - 1) + 127) / 255

def scaleComponentFromMask (value maskBits : Nat) : Nat :=
  if maskBits = 0 then 0
  else if 8 ≤ maskBits then value % 256
  else (value * 255 + (2 ^ maskBits - 1) / 2) / (2 ^ maskBits - 1) % 256

namespace Field

def bits (f : Field) : Nat := f.mask.toNat

def shift (f : Field) : Nat := f.position.toNat

def ones (f : Field) : Nat := sub32 (shl32 1 f.bits) 1

def pack (f : Field) (value : Nat) : Nat :=
  shl32 (scaleComponentToMask value f.bits &&& f.ones) f.shift

def unpack (f : Field) (packed : Nat) : Nat :=
  scaleComponentFromMask (shr32 packed f.shift &&& if f.bits = 0 then 0 else f.ones) f.bits

end Field

def vesaPackColor (m : ModeInfo) (r g b a : Nat) : Nat :=
  m.red.pack r ||| m.green.pack g ||| m.blue.pack b |||
    if m.reserved.bits = 0 then 0 else m.reserved.pack a

def packColor (m : ModeInfo) (color : Nat) : Nat :=
  vesaPackColor m (color >>> 16 &&& 0xFF) (color >>> 8 &&& 0xFF) (color &&& 0xFF)
    (color >>> 24 &&& 0xFF)

def unpackColor (m : ModeInfo) (packed : Nat) : Nat :=
  m.reserved.unpack packed <<< 24 ||| m.red.unpack packed <<< 16 ||| m.green.unpack packed <<< 8 |||
    m.blue.unpack packed

def storePixel (bytesPerPixel : Nat) (m : Mem) (offset packed : Nat) : Mem :=
  match bytesPerPixel with
  | 1 => store8 m offset (byte packed 0)
  | 2 => store16 m offset packed
  | 3 => store8 (store8 (store8 m offset (byte packed 0)) (offset + 1) (byte packed 1))
      (offset + 2) (byte packed 2)
  | 4 => store32 m offset packed
  | _ => m

def loadPixel (bytesPerPixel : Nat) (m : Mem) (offset : Nat) : Option Nat :=
  match bytesPerPixel with
  | 1 => some (m offset).toNat
  | 2 => some (load16 m offset)
  | 3 => some ((m offset).toNat ||| (m (offset + 1)).toNat <<< 8 ||| (m (offset + 2)).toNat <<< 16)
  | 4 => some (load32 m offset)
  | _ => none

namespace Display

variable (d : Display)

def pitch : Nat := d.mode.pitch.toNat

def vesaPhysWidth : Nat := d.mode.width.toNat

def vesaPhysHeight : Nat := d.mode.height.toNat

def vesaLogicalWidth : Nat :=
  if d.rotation = .deg90 ∨ d.rotation = .deg270 then d.vesaPhysHeight else d.vesaPhysWidth

def vesaLogicalHeight : Nat :=
  if d.rotation = .deg90 ∨ d.rotation = .deg270 then d.vesaPhysWidth else d.vesaPhysHeight

def vesaMapXy (x y : Nat) : Nat × Nat :=
  match d.rotation with
  | .deg90 => (y, sub32 (sub32 d.vesaPhysHeight 1) x)
  | .deg180 => (sub32 (sub32 d.vesaPhysWidth 1) x, sub32 (sub32 d.vesaPhysHeight 1) y)
  | .deg270 => (sub32 (sub32 d.vesaPhysWidth 1) y, x)
  | .deg0 => (x, y)

def vesaCalculatePixelOffset (x y : Nat) : Nat :=
  let p := d.vesaMapXy x y
  add32 (mul32 p.2 d.pitch) (mul32 p.1 d.bytesPerPixel)

def vesaPutPixel (m : Mem) (x y color : Nat) : Mem :=
  if d.vesaLogicalWidth ≤ x ∨ d.vesaLogicalHeight ≤ y then m
  else storePixel d.bytesPerPixel m (d.vesaCalculatePixelOffset x y) (packColor d.mode color)

def vesaGetPixel (m : Mem) (x y : Nat) : Nat :=
  if d.vesaLogicalWidth ≤ x ∨ d.vesaLogicalHeight ≤ y then 0
  else
    match loadPixel d.bytesPerPixel m (d.vesaCalculatePixelOffset x y) with
    | some packed => unpackColor d.mode packed
    | none => 0

def upTo (first stop : Nat) : List Nat := List.range' first (stop - first)

def fillRow (m : Mem) (offset width packed : Nat) : Mem :=
  (List.range width).foldl (fun m cx => store32 m ((offset + 4 * cx) % 2 ^ 32) packed) m

def fillRectFast (m : Mem) (x y xEnd yEnd packed : Nat) : Mem :=
  (upTo y yEnd).foldl
    (fun m cy => fillRow m (d.vesaCalculatePixelOffset x cy) (sub32 xEnd x) packed) m

def fillRectSlow (m : Mem) (x y xEnd yEnd color : Nat) : Mem :=
  (upTo y yEnd).foldl
    (fun m cy => (upTo x xEnd).foldl (fun m cx => d.vesaPutPixel m cx cy color) m) m

def vesaFillRect (m : Mem) (x y w h color : Nat) : Mem :=
  let xEnd := min (add32 x w) d.vesaLogicalWidth
  let yEnd := min (add32 y h) d.vesaLogicalHeight
  if d.vesaLogicalWidth ≤ x ∨ d.vesaLogicalHeight ≤ y then m
  else if d.rotation = .deg0 ∧ d.bytesPerPixel = 4 then
    d.fillRectFast m x y xEnd yEnd (packColor d.mode color)
  else d.fillRectSlow m x y xEnd yEnd color

def vesaCopyRect (m : Mem) (srcX srcY dstX dstY w h : Nat) : Mem :=
  let lw := d.vesaLogicalWidth
  let lh := d.vesaLogicalHeight
  if lw ≤ srcX ∨ lh ≤ srcY ∨ lw ≤ dstX ∨ lh ≤ dstY then m
  else
    let copyW := min w (sub32 lw (max srcX dstX))
    let copyH := min h (sub32 lh (max srcY dstY))
    if copyW = 0 ∨ copyH = 0 then m
    else if d.rotation = .deg0 then
      (List.range copyH).foldl (fun m y => copy m (d.vesaCalculatePixelOffset dstX (add32 dstY y))
        (d.vesaCalculatePixelOffset srcX (add32 srcY y)) (mul32 copyW d.bytesPerPixel)) m
    else
      (List.range copyH).foldl (fun m y => (List.range copyW).foldl (fun m x =>
        d.vesaPutPixel m (add32 dstX x) (add32 dstY y)
          (d.vesaGetPixel m (add32 srcX x) (add32 srcY y))) m) m

end Display

def mode8888 (width height : UInt16) : ModeInfo :=
  { attributes := 0x009B, pitch := 4 * width, width := width, height := height, bpp := 32,
    memoryModel := 6, red := ⟨8, 16⟩, green := ⟨8, 8⟩, blue := ⟨8, 0⟩, reserved := ⟨8, 24⟩,
    framebuffer := 0xFD000000 }

def screen8888 (rotation : Rotation) : Display :=
  { signature := Words.byteText "VESA", mode := mode8888 4 2, bytesPerPixel := 4,
    rotation := rotation, accepted := by decide }

end HouseOS.Vesa
