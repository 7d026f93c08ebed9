import HouseOS.Images.Model
import HouseOS.Vesa.Model

namespace HouseOS.Images

open HouseOS.ByteMem HouseOS.Word
open HouseOS.Vesa (Display)

def vesaRgb (r g b : Nat) : Nat := r <<< 16 ||| g <<< 8 ||| b

def vesaArgb (a r g b : Nat) : Nat := a <<< 24 ||| r <<< 16 ||| g <<< 8 ||| b

def fastDivide255 (value : Nat) : Nat := ((value + 1 + (value >>> 8)) >>> 8) % 2 ^ 8

def alphaBlend (src dst alpha : Nat) : Nat := fastDivide255 (src * alpha + dst * (255 - alpha))

namespace Image

variable (img : Image)

def pixelOffset (p : Nat × Nat) : Nat := add32 (mul32 p.2 img.pitch) (mul32 p.1 (img.bpp / 8))

def channel (p : Nat × Nat) (i : Nat) : Nat := (img.data (img.pixelOffset p + i)).toNat

def rgb (p : Nat × Nat) : Nat := vesaRgb (img.channel p 0) (img.channel p 1) (img.channel p 2)

def pixelColor (p : Nat × Nat) : Option Nat :=
  if img.bpp = 24 then some (img.rgb p)
  else if img.bpp = 32 then
    some (vesaArgb (img.channel p 3) (img.channel p 0) (img.channel p 1) (img.channel p 2))
  else none

end Image

structure Put where
  x : Nat
  y : Nat
  src : Nat × Nat
  deriving DecidableEq

-- the pixels of the image that were read, the puts, and the framebuffer
structure Drawing where
  reads : List (Nat × Nat)
  puts : List Put
  mem : Mem

namespace Drawing

variable (s : Drawing)

def read (p : Nat × Nat) : Drawing := { s with reads := s.reads ++ [p] }

def put (d : Display) (x y : Nat) (src : Nat × Nat) (color : Nat) : Drawing :=
  { s with
    puts := s.puts ++ [⟨x, y, src⟩]
    mem := d.vesaPutPixel s.mem x y color }

end Drawing

-- `if (at + size > screen) size = screen - at`
def clipTo (pos size screen : Nat) : Nat :=
  if screen < add32 pos size then sub32 screen pos else size

def eachPixel (width height : Nat) (step : Nat → Nat → Drawing → Drawing) (s : Drawing) : Drawing :=
  (List.range height).foldl
    (fun s srcY => (List.range width).foldl (fun s srcX => step srcX srcY s) s) s

section

variable (d : Display) (img : Image)

def copyPixel (src dst : Nat × Nat) (s : Drawing) : Drawing :=
  match img.pixelColor src with
  | some color => (s.read src).put d dst.1 dst.2 src color
  | none => s

def imageDraw (x y : Nat) : Drawing → Drawing :=
  eachPixel (clipTo x img.width d.vesaLogicalWidth) (clipTo y img.height d.vesaLogicalHeight)
    fun srcX srcY => copyPixel d img (srcX, srcY) (add32 x srcX, add32 y srcY)

def imageDrawTransparent (x y transparentColor : Nat) : Drawing → Drawing :=
  eachPixel (clipTo x img.width d.vesaLogicalWidth) (clipTo y img.height d.vesaLogicalHeight)
    fun srcX srcY s =>
      match img.pixelColor (srcX, srcY) with
      | some color =>
          let s := s.read (srcX, srcY)
          if color ≠ transparentColor then s.put d (add32 x srcX) (add32 y srcY) (srcX, srcY) color
          else s
      | none => s

def blendPixel (src : Nat × Nat) (x y : Nat) (s : Drawing) : Drawing :=
  let s := s.read src
  let alpha := img.channel src 3
  if alpha = 0 then s
  else if alpha = 255 then s.put d x y src (img.rgb src)
  else
    let bg := d.vesaGetPixel s.mem x y
    let r := alphaBlend (img.channel src 0) (bg >>> 16 &&& 0xFF) alpha
    let g := alphaBlend (img.channel src 1) (bg >>> 8 &&& 0xFF) alpha
    let b := alphaBlend (img.channel src 2) (bg &&& 0xFF) alpha
    s.put d x y src (vesaRgb r g b)

def imageDrawAlpha (x y : Nat) : Drawing → Drawing :=
  if img.bpp ≠ 32 then imageDraw d img x y
  else
    eachPixel (clipTo x img.width d.vesaLogicalWidth) (clipTo y img.height d.vesaLogicalHeight)
      fun srcX srcY => blendPixel d img (srcX, srcY) (add32 x srcX) (add32 y srcY)

def partSize (src size image dst screen : Nat) : Nat :=
  let size := if image < add32 src size then sub32 image src else size
  let drawn := clipTo dst size screen
  if drawn < size then drawn else size

def imageDrawPart (srcX srcY srcW srcH dstX dstY : Nat) (s : Drawing) : Drawing :=
  if img.width ≤ srcX ∨ img.height ≤ srcY then s
  else
    eachPixel (partSize srcX srcW img.width dstX d.vesaLogicalWidth)
      (partSize srcY srcH img.height dstY d.vesaLogicalHeight)
      (fun x y => copyPixel d img (add32 srcX x, add32 srcY y) (add32 dstX x, add32 dstY y)) s

end

inductive Call where
  | draw (x y : Nat)
  | transparent (x y color : Nat)
  | alpha (x y : Nat)
  | part (srcX srcY srcW srcH dstX dstY : Nat)
  deriving DecidableEq, Repr

def Call.run (d : Display) (img : Image) (m : Mem) : Call → Drawing
  | .draw x y => imageDraw d img x y ⟨[], [], m⟩
  | .transparent x y color => imageDrawTransparent d img x y color ⟨[], [], m⟩
  | .alpha x y => imageDrawAlpha d img x y ⟨[], [], m⟩
  | .part srcX srcY srcW srcH dstX dstY =>
      imageDrawPart d img srcX srcY srcW srcH dstX dstY ⟨[], [], m⟩

end HouseOS.Images
