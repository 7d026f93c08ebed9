import HouseOS.Library.ByteMem
import HouseOS.Library.Word

namespace HouseOS.Fonts

open HouseOS.ByteMem HouseOS.Word

def psf1HeaderSize : Nat := 4

def psf2HeaderSize : Nat := 32

-- `data` and `unicodeTable` are offsets from `raw_data`
structure PsfFont where
  version : Nat
  numGlyphs : Nat
  glyphSize : Nat
  height : Nat
  width : Nat
  data : Nat
  hasUnicodeTable : Bool
  unicodeTable : Nat
  deriving DecidableEq

def bytesOf (data : List UInt8) : Mem := fun k => data.getD k 0

def isPsf1 (data : List UInt8) : Bool := bytesOf data 0 = 0x36 && bytesOf data 1 = 0x04

def isPsf2 (data : List UInt8) : Bool :=
  bytesOf data 0 = 0x72 && bytesOf data 1 = 0xb5 && bytesOf data 2 = 0x4a && bytesOf data 3 = 0x86

def psfVerifyMagic (data : List UInt8) : Bool := isPsf1 data || isPsf2 data

def psfFillFromPsf1 (data : List UInt8) : PsfFont :=
  { version := 1
    numGlyphs := if bytesOf data 2 &&& 0x01 ≠ 0 then 512 else 256
    glyphSize := (bytesOf data 3).toNat
    height := (bytesOf data 3).toNat
    width := 8
    data := psf1HeaderSize
    hasUnicodeTable := false
    unicodeTable := 0 }

def headersize (data : List UInt8) : Nat := load32 (bytesOf data) 8

def flags (data : List UInt8) : Nat := load32 (bytesOf data) 12

def psfFillFromPsf2 (data : List UInt8) : PsfFont :=
  let numGlyphs := load32 (bytesOf data) 16
  let glyphSize := load32 (bytesOf data) 20
  let hasTable := decide (flags data % 2 = 1)
  { version := 2
    numGlyphs := numGlyphs
    glyphSize := glyphSize
    height := load32 (bytesOf data) 24
    width := load32 (bytesOf data) 28
    data := headersize data
    hasUnicodeTable := hasTable
    unicodeTable := if hasTable then add32 (headersize data) (mul32 numGlyphs glyphSize) else 0 }

def psfPayloadIsValid (font : PsfFont) (totalSize : Nat) : Bool :=
  if font.width = 0 ∨ font.height = 0 then false
  else if font.numGlyphs = 0 ∨ font.glyphSize = 0 then false
  else
    let glyphBytes := mul32 font.numGlyphs font.glyphSize
    if totalSize < glyphBytes then false
    else if totalSize - glyphBytes < font.data then false
    else if font.glyphSize < mul32 (add32 font.width 7 / 8) font.height then false
    else true

def psfFont (data : List UInt8) : Option PsfFont :=
  if isPsf1 data then
    if data.length < psf1HeaderSize then none
    else if psfPayloadIsValid (psfFillFromPsf1 data) data.length then some (psfFillFromPsf1 data)
    else none
  else if data.length < psf2HeaderSize ∨ data.length < headersize data then none
  else if psfPayloadIsValid (psfFillFromPsf2 data) data.length then some (psfFillFromPsf2 data)
  else none

-- `gotFont` is whether `valloc` gives room for the font
def psfParseData (data : List UInt8) (gotFont : Bool) : Option PsfFont :=
  if data.length < 4 then none
  else if psfVerifyMagic data = false then none
  else if gotFont = false then none
  else psfFont data

-- what `memfs_get_info` and `memfs_read` tell of a path: `stored` is `info.file.data`, `read` what
-- a read of the whole file gives
structure MemfsFile where
  isFile : Bool
  size : Nat
  stored : Option (List UInt8)
  read : Option (List UInt8)
  whole : ∀ bytes, stored = some bytes → bytes.length = size

def psfTryInfo (path : List UInt8) (info : Option MemfsFile) : Option MemfsFile :=
  if path.head? ≠ some 0x2F then none
  else
    match info with
    | none => none
    | some f => if f.isFile = false ∨ f.size = 0 then none else some f

def MemfsFile.contents (f : MemfsFile) : Option (List UInt8) :=
  match f.stored with
  | some bytes => some bytes
  | none =>
      match f.read with
      | some bytes => if bytes.length ≠ f.size then none else some bytes
      | none => none

def memfsBytes (path : List UInt8) (info : Option MemfsFile) (gotData : Bool) : Option (List UInt8) :=
  match psfTryInfo path info with
  | none => none
  | some f => if gotData = false then none else f.contents

def psfLoadFromMemfs (path : List UInt8) (info : Option MemfsFile) (gotData gotFont : Bool) :
    Option PsfFont :=
  match memfsBytes path info gotData with
  | none => none
  | some data =>
      if data.length < 4 ∨ psfVerifyMagic data = false then none
      else if gotFont = false then none
      else psfFont data

structure PsfFont.GlyphsInside (font : PsfFont) (size : Nat) : Prop where
  glyphs : font.data + font.numGlyphs * font.glyphSize ≤ size
  rows : font.height * ((font.width + 7) / 8) ≤ font.glyphSize

-- the fields for which the 32-bit products of the payload check are the real ones
def PsfFont.Computes (font : PsfFont) : Prop :=
  font.numGlyphs * font.glyphSize < 2 ^ 32 ∧ font.height * ((font.width + 7) / 8) < 2 ^ 32 ∧
    (font.width + 7 < 2 ^ 32 ∨ font.height * ((font.width + 7) / 8) ≤ font.glyphSize)

section Payload

variable {font : PsfFont} {size : Nat}

theorem payloadIsValid_iff : psfPayloadIsValid font size = true ↔
    (font.width ≠ 0 ∧ font.height ≠ 0 ∧ font.numGlyphs ≠ 0 ∧ font.glyphSize ≠ 0) ∧
      mul32 font.numGlyphs font.glyphSize ≤ size ∧
        font.data ≤ size - mul32 font.numGlyphs font.glyphSize ∧
          mul32 (add32 font.width 7 / 8) font.height ≤ font.glyphSize := by
  simp only [psfPayloadIsValid]
  split_ifs <;> simp <;> omega

theorem glyph_inside {g : Nat} (h : font.GlyphsInside size) (hg : g < font.numGlyphs) :
    font.data + (g + 1) * font.glyphSize ≤ size := by
  have hle : (g + 1) * font.glyphSize ≤ font.numGlyphs * font.glyphSize :=
    Nat.mul_le_mul_right _ hg
  have hglyphs := h.glyphs
  omega

theorem glyphsInside_iff (hsize : size < 2 ^ 32) (hglyph : font.glyphSize < 2 ^ 32)
    (hvalid : psfPayloadIsValid font size = true) :
    font.GlyphsInside size ↔ font.Computes := by
  obtain ⟨-, hbytes, hdata, hrows⟩ := payloadIsValid_iff.mp hvalid
  simp only [mul32, add32] at hbytes hdata hrows
  rw [Nat.mul_comm] at hrows
  constructor
  · rintro ⟨hglyphs, hrows'⟩
    exact ⟨by omega, by omega, Or.inr hrows'⟩
  · rintro ⟨hfits, hfits', hwidth⟩
    rw [Nat.mod_eq_of_lt hfits] at hbytes hdata
    refine ⟨by omega, ?_⟩
    rcases hwidth with hwidth | hrows'
    · rwa [Nat.mod_eq_of_lt hwidth, Nat.mod_eq_of_lt hfits'] at hrows
    · exact hrows'

end Payload

section Loaders

variable {data : List UInt8} {font : PsfFont} {gotFont : Bool}

def WellSized (data : List UInt8) (gotFont : Bool) : Prop :=
  isPsf1 data = false → psfVerifyMagic data = true → gotFont = true →
    psf2HeaderSize ≤ data.length → headersize data ≤ data.length →
      psfPayloadIsValid (psfFillFromPsf2 data) data.length = true → (psfFillFromPsf2 data).Computes

theorem psf1_computes (data : List UInt8) : (psfFillFromPsf1 data).Computes := by
  have hsize := (bytesOf data 3).toNat_lt
  simp only [PsfFont.Computes, psfFillFromPsf1]
  refine ⟨?_, by omega, by omega⟩
  split <;> omega

theorem psfFont_eq_some : psfFont data = some font ↔
    isPsf1 data = true ∧ psf1HeaderSize ≤ data.length ∧
        psfPayloadIsValid (psfFillFromPsf1 data) data.length = true ∧ psfFillFromPsf1 data = font ∨
      isPsf1 data = false ∧ (psf2HeaderSize ≤ data.length ∧ headersize data ≤ data.length) ∧
        psfPayloadIsValid (psfFillFromPsf2 data) data.length = true ∧
          psfFillFromPsf2 data = font := by
  rw [psfFont]
  cases h1 : isPsf1 data with
  | true =>
    simp only [if_true, Option.ite_none_left_eq_some, Option.ite_none_right_eq_some, Nat.not_lt,
      Option.some.injEq, true_and, Bool.true_eq_false, false_and, or_false]
  | false =>
    simp only [Bool.false_eq_true, if_false, Option.ite_none_left_eq_some,
      Option.ite_none_right_eq_some, not_or, Nat.not_lt, Option.some.injEq, false_and, true_and,
      false_or]

theorem psfParseData_eq_some : psfParseData data gotFont = some font ↔
    4 ≤ data.length ∧ psfVerifyMagic data = true ∧ gotFont = true ∧ psfFont data = some font := by
  simp only [psfParseData, Option.ite_none_left_eq_some, Nat.not_lt, Bool.not_eq_false]

theorem psfLoadFromMemfs_eq {path : List UInt8} {info : Option MemfsFile} {gotData : Bool}
    (h : memfsBytes path info gotData = some data) :
    psfLoadFromMemfs path info gotData gotFont = psfParseData data gotFont := by
  rw [psfLoadFromMemfs, h, psfParseData]
  dsimp only
  split_ifs <;> first | rfl | tauto

theorem parsed_inside_iff (hlen : data.length < 2 ^ 32) :
    (∀ font, psfParseData data gotFont = some font → font.GlyphsInside data.length) ↔
      WellSized data gotFont := by
  constructor
  · intro hinside h1 hmagic hgot hheader hsize hvalid
    have hglyph : (psfFillFromPsf2 data).glyphSize < 2 ^ 32 := load32_lt _ _
    refine (glyphsInside_iff hlen hglyph hvalid).mp (hinside _ (psfParseData_eq_some.mpr ?_))
    exact ⟨Nat.le_trans (by decide) hheader, hmagic, hgot,
      psfFont_eq_some.mpr (Or.inr ⟨h1, ⟨hheader, hsize⟩, hvalid, rfl⟩)⟩
  · intro hwell font hfont
    obtain ⟨-, hmagic, hgot, hfont⟩ := psfParseData_eq_some.mp hfont
    rcases psfFont_eq_some.mp hfont with ⟨-, -, hvalid, rfl⟩ | ⟨h1, ⟨hheader, hsize⟩, hvalid, rfl⟩
    · have hglyph : (psfFillFromPsf1 data).glyphSize < 2 ^ 32 :=
        Nat.lt_trans (bytesOf data 3).toNat_lt (by decide)
      exact (glyphsInside_iff hlen hglyph hvalid).mpr (psf1_computes data)
    · have hglyph : (psfFillFromPsf2 data).glyphSize < 2 ^ 32 := load32_lt _ _
      exact (glyphsInside_iff hlen hglyph hvalid).mpr (hwell h1 hmagic hgot hheader hsize hvalid)

theorem psf_glyphs_inside_iff (data : List UInt8) (gotFont : Bool) (hlen : data.length < 2 ^ 32) :
    ((∀ font, psfParseData data gotFont = some font → font.GlyphsInside data.length) ↔
        WellSized data gotFont) ∧
      ∀ path info gotData, memfsBytes path info gotData = some data →
        ((∀ font, psfLoadFromMemfs path info gotData gotFont = some font →
            font.GlyphsInside data.length) ↔ WellSized data gotFont) := by
  refine ⟨parsed_inside_iff hlen, fun path info gotData hbytes => ?_⟩
  rw [psfLoadFromMemfs_eq hbytes]
  exact parsed_inside_iff hlen

-- 65536 glyphs of 65536 bytes in a file that is all header
def hollowFont : List UInt8 :=
  [0x72, 0xb5, 0x4a, 0x86, 0, 0, 0, 0, 32, 0, 0, 0, 0, 0, 0, 0,
    0, 0, 1, 0, 0, 0, 1, 0, 16, 0, 0, 0, 8, 0, 0, 0]

theorem psf_glyphs_inside_iff_hollow :
    ((∀ font, psfParseData hollowFont true = some font → font.GlyphsInside hollowFont.length) ↔
        WellSized hollowFont true) ∧
      ∀ path info gotData, memfsBytes path info gotData = some hollowFont →
        ((∀ font, psfLoadFromMemfs path info gotData true = some font →
            font.GlyphsInside hollowFont.length) ↔ WellSized hollowFont true) :=
  psf_glyphs_inside_iff hollowFont true (by decide)

theorem hollow_font_accepted : ∃ font, psfParseData hollowFont true = some font ∧
    font.numGlyphs = 65536 ∧ font.glyphSize = 65536 ∧ ¬font.GlyphsInside hollowFont.length := by
  refine ⟨psfFillFromPsf2 hollowFont, by decide, by decide, by decide, fun h => ?_⟩
  exact absurd h.glyphs (by decide)

end Loaders

end HouseOS.Fonts
