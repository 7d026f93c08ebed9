import HouseOS.Library.ByteMem
import HouseOS.Library.Word

namespace HouseOS.Images

open HouseOS.ByteMem HouseOS.Signed HouseOS.Word

inductive ImageType where
  | bmp
  | png
  | jpeg
  | txt
  | unknown
  deriving DecidableEq, Repr

-- `data` is the memory from the pixel buffer on, `dataSize` bytes of it allocated
structure Image where
  width : Nat
  height : Nat
  bpp : Nat
  pitch : Nat
  data : Mem
  hasAlpha : Bool
  type : ImageType
  dataSize : Nat

-- the bytes at every 32-bit offset from the start of a file in memory; the file has `size` of them
structure Buffer where
  bytes : Mem
  size : Nat
  word : size < 2 ^ 32

def padPitch : Nat → Nat → Nat
  | 0, pitch => pitch
  | n + 1, pitch => if pitch % 4 ≠ 0 then padPitch n (add32 pitch 1) else pitch

-- the loop that pads the pitch makes at most three rounds
def imageCalculatePitch (width bpp : Nat) : Nat := padPitch 4 (mul32 width ((bpp + 7) / 8))

namespace Buffer

variable (b : Buffer)

def at_ : Mem := fun x => b.bytes (x % 2 ^ 32)

def bmpVerify : Bool := decide (14 ≤ b.size ∧ load16 b.at_ 0 = 0x4D42)

def dataOffset : Nat := load32 b.at_ 10

def hdrSize : Nat := load32 b.at_ 14

def width : Int := int32 (load32 b.at_ 18)

def height : Int := int32 (load32 b.at_ 22)

def bpp : Nat := load16 b.at_ 28

def comp : Nat := load32 b.at_ 30

end Buffer

def imageDetectType (pngVerify jpegVerify txtVerify : Buffer → Bool) (b : Buffer) : ImageType :=
  if b.size = 0 then .unknown
  else if 12 ≤ b.size ∧ b.bmpVerify then .bmp
  else if 12 ≤ b.size ∧ pngVerify b then .png
  else if 12 ≤ b.size ∧ jpegVerify b then .jpeg
  else if txtVerify b then .txt
  else .unknown

def bmpAbs (v : Int) : Int := if v < 0 then int32 (-v) else v

namespace Buffer

variable (b : Buffer)

def imgWidth : Nat := word32 (bmpAbs b.width)

def imgHeight : Nat := word32 (bmpAbs b.height)

def imgPitch : Nat := imageCalculatePitch b.imgWidth b.bpp

def needSize : Nat := mul32 b.imgPitch b.imgHeight

end Buffer

-- the ranges of the file that are read and of the pixel buffer that are read or written
structure Decode where
  reads : List (Nat × Nat)
  touched : List (Nat × Nat)
  data : Mem

namespace Decode

def read (s : Decode) (off n : Nat) : Decode := { s with reads := s.reads ++ [(off, n)] }

def memcpy (s : Decode) (b : Buffer) (dst off n : Nat) : Decode :=
  { reads := s.reads ++ [(off, n)]
    touched := s.touched ++ [(dst, n)]
    data := fun x => if sub32 x dst < n then b.at_ (off + sub32 x dst) else s.data x }

-- `t = p[0]; p[0] = p[2]; p[2] = t`
def swap (s : Decode) (p : Nat) : Decode :=
  { s with
    touched := s.touched ++ [(p, 1), (add32 p 2, 1)]
    data := store8 (store8 s.data p (s.data (add32 p 2))) (add32 p 2) (s.data p) }

def copyPixels (s : Decode) (b : Buffer) : Decode :=
  if 0 < b.height then
    (List.range b.imgHeight).foldl (fun s y => s.memcpy b (mul32 y b.imgPitch)
      (add32 b.dataOffset (mul32 (sub32 (sub32 b.imgHeight y) 1) b.imgPitch)) b.imgPitch) s
  else s.memcpy b 0 b.dataOffset b.needSize

def swapPixels (s : Decode) (b : Buffer) (bytes : Nat) : Decode :=
  (List.range b.imgHeight).foldl (fun s y => (List.range b.imgWidth).foldl (fun s x =>
    s.swap (add32 (mul32 y b.imgPitch) (mul32 x bytes))) s) s

-- the colour masks are read, and not used
def readMasks (s : Decode) (b : Buffer) : Decode :=
  if b.comp = 3 ∧ 56 ≤ b.hdrSize then
    let s := ((s.read (14 + 0x24) 4).read (14 + 0x28) 4).read (14 + 0x2C) 4
    if 108 ≤ b.hdrSize then s.read (14 + 0x42) 4 else s
  else s

def decodePixels (s : Decode) (b : Buffer) : Decode :=
  let s := s.copyPixels b
  if b.bpp = 24 then s.swapPixels b 3
  else if b.bpp = 32 then (s.readMasks b).swapPixels b 4
  else s

end Decode

-- `got` tells whether the heap has a block; none is given for no bytes
def valloc (got : Bool) (size : Nat) : Bool := decide (size ≠ 0) && got

-- `gotImage` and `gotData` tell whether the heap has room for the two calls of `valloc`, `fresh` is
-- what the second one returns
def bmpLoad (b : Buffer) (gotImage gotData : Bool) (fresh : Mem) : Decode × Option Image :=
  let s : Decode := ⟨[], [], fresh⟩
  if b.size < 14 then (s, none)
  else
    let s := s.read 0 2
    if ¬b.bmpVerify then (s, none)
    else
      let s := s.read 14 4
      if b.size < add32 14 b.hdrSize then (s, none)
      else if b.hdrSize < 40 then (s, none)
      else
        let s := (((s.read 18 4).read 22 4).read 28 2).read 30 4
        if b.comp ≠ 0 ∧ b.comp ≠ 3 then (s, none)
        else if b.bpp ≠ 24 ∧ b.bpp ≠ 32 then (s, none)
        else
          let s := s.read 10 4
          if b.size ≤ b.dataOffset then (s, none)
          else if gotImage = false then (s, none)
          else if b.size < add32 b.dataOffset b.needSize then (s, none)
          else if valloc gotData b.needSize = false then (s, none)
          else
            let s := s.decodePixels b
            (s, some
              { width := b.imgWidth, height := b.imgHeight, bpp := b.bpp, pitch := b.imgPitch,
                data := s.data, hasAlpha := b.bpp = 32, type := .bmp, dataSize := b.needSize })

end HouseOS.Images
