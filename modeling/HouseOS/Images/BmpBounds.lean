import HouseOS.Images.Bmp

namespace HouseOS.Images

open HouseOS.ByteMem HouseOS.Word

variable {b : Buffer} {s : Decode} {gotImage gotData : Bool} {fresh : Mem}

-- what the decoder reads lies in the file, what it touches in the buffer it has allocated, and
-- an image that it returns is the picture of the file
structure StaysInside (b : Buffer) (o : Decode × Option Image) : Prop where
  reads : ∀ r ∈ o.1.reads, Inside b.size r
  touched : ∀ r ∈ o.1.touched, Inside b.needSize r
  filled : ∀ img, o.2 = some img → b.Filled img

namespace Buffer

def HeaderRead (b : Buffer) : Prop :=
  b.bmpVerify = true ∧ add32 14 b.hdrSize ≤ b.size ∧ 40 ≤ b.hdrSize

-- the checks after which the pixels are copied
structure Decoded (b : Buffer) (gotImage gotData : Bool) : Prop where
  header : b.HeaderRead
  comp : b.comp = 0 ∨ b.comp = 3
  bpp : b.bpp = 24 ∨ b.bpp = 32
  offset : b.dataOffset < b.size
  image : gotImage = true
  room : add32 b.dataOffset b.needSize ≤ b.size
  data : valloc gotData b.needSize = true

structure Bounded (b : Buffer) (gotImage gotData : Bool) : Prop where
  header : b.bmpVerify = true → 18 ≤ b.size
  fields : b.HeaderRead → 34 ≤ b.size
  masks : b.Decoded gotImage gotData → b.bpp = 32 → b.comp = 3 →
    (56 ≤ b.hdrSize → 62 ≤ b.size) ∧ (108 ≤ b.hdrSize → 84 ≤ b.size)
  picture : b.Decoded gotImage gotData → b.PictureFits

end Buffer

theorem inside_iff {size off n : Nat} (hsize : size < 2 ^ 32) (hend : off + n < 2 ^ 32) (hn : 0 < n) :
    Inside size (off, n) ↔ off + n ≤ size :=
  ⟨fun h => le_of_inside h hend hn, inside_of_le (Nat.le_of_lt hsize)⟩

section Pixels

theorem decodePixels_eq (hbpp : b.bpp = 24 ∨ b.bpp = 32) : ∃ t : Decode,
    s.decodePixels b = t.swapPixels b b.pixelBytes ∧ t.data = (s.copyPixels b).data ∧
      t.touched = (s.copyPixels b).touched ∧
      ∀ r, r ∈ t.reads ↔ r ∈ (s.copyPixels b).reads ∨ b.bpp = 32 ∧ b.comp = 3 ∧ 56 ≤ b.hdrSize ∧
        (r = (50, 4) ∨ r = (54, 4) ∨ r = (58, 4) ∨ 108 ≤ b.hdrSize ∧ r = (80, 4)) := by
  rw [Decode.decodePixels, Buffer.pixelBytes]
  rcases hbpp with h24 | h32
  · refine ⟨s.copyPixels b, ?_, rfl, rfl, fun r => ⟨Or.inl, ?_⟩⟩
    · simp only [h24, if_true]
    · rintro (hr | ⟨h32, -⟩)
      · exact hr
      · omega
  · refine ⟨(s.copyPixels b).readMasks b, ?_, data_readMasks, touched_readMasks, fun r => ?_⟩
    · simp only [h32, if_true, if_neg (show ¬32 = 24 by decide)]
    · rw [mem_reads_masks]
      simp only [h32, true_and]

def decodedImage (b : Buffer) (s : Decode) : Image :=
  { width := b.imgWidth, height := b.imgHeight, bpp := b.bpp, pitch := b.imgPitch, data := s.data,
    hasAlpha := b.bpp = 32, type := .bmp, dataSize := b.needSize }

theorem filled_decodedImage (hfits : b.PictureFits) (hbpp : b.bpp = 24 ∨ b.bpp = 32) {t u : Decode}
    (ht : t.data = (s.copyPixels b).data) (hu : u = t.swapPixels b b.pixelBytes) :
    b.Filled (decodedImage b u) := by
  rw [Buffer.Filled, decodedImage]
  dsimp only
  refine ⟨imgWidth_eq b, imgHeight_eq b, fun x hx y hy k hk => ?_⟩
  rw [hfits.imgPitch hbpp (by omega), hu]
  exact hfits.data_pixel hbpp hx hy hk ht

end Pixels

section Outcome

theorem staysInside_none : StaysInside b (s, none) ↔
    (∀ r ∈ s.reads, Inside b.size r) ∧ ∀ r ∈ s.touched, Inside b.needSize r :=
  ⟨fun h => ⟨h.reads, h.touched⟩, fun h => ⟨h.1, h.2, fun _ himg => nomatch himg⟩⟩

def headerLog (fresh : Mem) : Decode :=
  ⟨[(0, 2), (14, 4), (18, 4), (22, 4), (28, 2), (30, 4), (10, 4)], [], fresh⟩

theorem bmpLoad_decoded (h : b.Decoded gotImage gotData) : bmpLoad b gotImage gotData fresh =
    ((headerLog fresh).decodePixels b, some (decodedImage b ((headerLog fresh).decodePixels b))) := by
  obtain ⟨⟨hverify, hsize, hhdr⟩, hcomp, hbpp, hoff, himage, hroom, hdata⟩ := h
  have h14 : 14 ≤ b.size := (of_decide_eq_true hverify).1
  simp only [bmpLoad, if_neg (Nat.not_lt_of_le h14), hverify, not_true, if_false,
    if_neg (Nat.not_lt_of_le hsize), if_neg (Nat.not_lt_of_le hhdr),
    if_neg (show ¬(b.comp ≠ 0 ∧ b.comp ≠ 3) by omega),
    if_neg (show ¬(b.bpp ≠ 24 ∧ b.bpp ≠ 32) by omega), if_neg (Nat.not_le_of_lt hoff), himage,
    Bool.true_eq_false, if_neg (Nat.not_lt_of_le hroom), hdata]
  rfl

theorem bmpLoad_refused (fresh : Mem) (h : ¬b.Decoded gotImage gotData) :
    ∃ rs, bmpLoad b gotImage gotData fresh = (⟨rs, [], fresh⟩, none) ∧
      ((∀ r ∈ rs, Inside b.size r) ↔
        (b.bmpVerify = true → 18 ≤ b.size) ∧ (b.HeaderRead → 34 ≤ b.size)) := by
  have hword := b.word
  by_cases h14 : b.size < 14
  · have hverify : b.bmpVerify ≠ true := fun hv => absurd (of_decide_eq_true hv).1 (by omega)
    refine ⟨[], by rw [bmpLoad, if_pos h14], iff_of_true (fun r hr => absurd hr List.not_mem_nil) ?_⟩
    exact ⟨fun hv => absurd hv hverify, fun hr => absurd hr.1 hverify⟩
  by_cases hverify : b.bmpVerify = true
  swap
  · refine ⟨[(0, 2)], ?_, iff_of_true ?_ ⟨fun hv => absurd hv hverify, fun hr => absurd hr.1 hverify⟩⟩
    · simp only [bmpLoad, if_neg h14, hverify]
      rfl
    · intro r hr
      rw [List.mem_singleton.mp hr]
      exact inside_of_le (by omega) (by omega)
  have hfirst : Inside b.size (0, 2) := inside_of_le (by omega) (by omega)
  have hfield : Inside b.size (14, 4) ↔ 18 ≤ b.size := inside_iff hword (by decide) (by decide)
  by_cases hread : b.HeaderRead
  swap
  · refine ⟨[(0, 2), (14, 4)], ?_, ?_⟩
    · simp only [bmpLoad, if_neg h14, hverify, not_true, if_false]
      by_cases hsize : b.size < add32 14 b.hdrSize
      · rw [if_pos hsize]
        rfl
      · rw [if_neg hsize, if_pos (Nat.lt_of_not_le fun hhdr =>
          hread ⟨hverify, Nat.le_of_not_lt hsize, hhdr⟩)]
        rfl
    · simp only [List.forall_mem_cons, List.not_mem_nil, false_implies, implies_true, and_true, hfirst,
        true_and, hfield, hverify, true_implies, hread]
  have hlast : Inside b.size (30, 4) ↔ 34 ≤ b.size := inside_iff hword (by decide) (by decide)
  have hinside : ((18 ≤ b.size) ∧ 34 ≤ b.size) → ∀ r ∈ [(0, 2), (14, 4), (18, 4), (22, 4), (28, 2),
      (30, 4), (10, 4)], Inside b.size r := by
    rintro ⟨-, h34⟩
    simp only [List.forall_mem_cons, List.not_mem_nil, false_implies, implies_true, and_true]
    exact ⟨hfirst, hfield.mpr (by omega), inside_of_le (by omega) (by omega),
      inside_of_le (by omega) (by omega), inside_of_le (by omega) (by omega), hlast.mpr h34,
      inside_of_le (by omega) (by omega)⟩
  have hiff {rs : List (Nat × Nat)} (hmem : (14, 4) ∈ rs ∧ (30, 4) ∈ rs)
      (hsub : ∀ r ∈ rs, r ∈ (headerLog fresh).reads) : (∀ r ∈ rs, Inside b.size r) ↔
        (b.bmpVerify = true → 18 ≤ b.size) ∧ (b.HeaderRead → 34 ≤ b.size) := by
    constructor
    · exact fun hall => ⟨fun _ => hfield.mp (hall _ hmem.1), fun _ => hlast.mp (hall _ hmem.2)⟩
    · exact fun hsizes r hr => hinside ⟨hsizes.1 hverify, hsizes.2 hread⟩ r (hsub r hr)
  have hstart : bmpLoad b gotImage gotData fresh =
      if b.comp ≠ 0 ∧ b.comp ≠ 3 then
        (⟨[(0, 2), (14, 4), (18, 4), (22, 4), (28, 2), (30, 4)], [], fresh⟩, none)
      else if b.bpp ≠ 24 ∧ b.bpp ≠ 32 then
        (⟨[(0, 2), (14, 4), (18, 4), (22, 4), (28, 2), (30, 4)], [], fresh⟩, none)
      else if b.size ≤ b.dataOffset then (headerLog fresh, none)
      else if gotImage = false then (headerLog fresh, none)
      else if b.size < add32 b.dataOffset b.needSize then (headerLog fresh, none)
      else if valloc gotData b.needSize = false then (headerLog fresh, none)
      else ((headerLog fresh).decodePixels b,
        some (decodedImage b ((headerLog fresh).decodePixels b))) := by
    simp only [bmpLoad, if_neg h14, hverify, not_true, if_false,
      if_neg (Nat.not_lt_of_le hread.2.1), if_neg (Nat.not_lt_of_le hread.2.2)]
    rfl
  have hshort : ∀ r ∈ [(0, 2), (14, 4), (18, 4), (22, 4), (28, 2), (30, 4)],
      r ∈ (headerLog fresh).reads := fun r hr => List.mem_append_left [(10, 4)] hr
  rw [hstart]
  by_cases hcomp : b.comp ≠ 0 ∧ b.comp ≠ 3
  · exact ⟨_, if_pos hcomp, hiff ⟨by simp, by simp⟩ hshort⟩
  rw [if_neg hcomp]
  by_cases hbpp : b.bpp ≠ 24 ∧ b.bpp ≠ 32
  · exact ⟨_, if_pos hbpp, hiff ⟨by simp, by simp⟩ hshort⟩
  rw [if_neg hbpp]
  refine ⟨(headerLog fresh).reads, ?_, hiff ⟨by simp [headerLog], by simp [headerLog]⟩ fun _ hr => hr⟩
  by_cases hoff : b.size ≤ b.dataOffset
  · exact if_pos hoff
  rw [if_neg hoff]
  by_cases himage : gotImage = false
  · exact if_pos himage
  rw [if_neg himage]
  by_cases hroom : b.size < add32 b.dataOffset b.needSize
  · exact if_pos hroom
  rw [if_neg hroom]
  by_cases hdata : valloc gotData b.needSize = false
  · exact if_pos hdata
  exact absurd ⟨hread, by omega, by omega, by omega, Bool.not_eq_false _ ▸ himage, by omega,
    Bool.not_eq_false _ ▸ hdata⟩ h

theorem imageDetectType_of_bmpLoad {img : Image} (pngVerify jpegVerify txtVerify : Buffer → Bool)
    (h : (bmpLoad b gotImage gotData fresh).2 = some img) :
    imageDetectType pngVerify jpegVerify txtVerify b = img.type := by
  by_cases hdecoded : b.Decoded gotImage gotData
  · rw [bmpLoad_decoded hdecoded] at h
    have himg := Option.some.inj h
    have hverify := hdecoded.header.1
    have h14 : 14 ≤ b.size := (of_decide_eq_true hverify).1
    rw [← himg, imageDetectType, if_neg (by omega), if_pos ⟨by omega, hverify⟩, decodedImage]
  · obtain ⟨rs, hrefused, -⟩ := bmpLoad_refused fresh hdecoded
    rw [hrefused] at h
    cases h

theorem staysInside_decoded (h : b.Decoded gotImage gotData) :
    StaysInside b (bmpLoad b gotImage gotData fresh) ↔ 34 ≤ b.size ∧
      (b.bpp = 32 → b.comp = 3 → (56 ≤ b.hdrSize → 62 ≤ b.size) ∧ (108 ≤ b.hdrSize → 84 ≤ b.size)) ∧
      b.PictureFits := by
  have hword := b.word
  have hbpp := h.bpp
  rw [bmpLoad_decoded h]
  obtain ⟨t, heq, hdata, htouched, hreads⟩ := decodePixels_eq (s := headerLog fresh) hbpp
  have hall (r : Nat × Nat) : r ∈ ((headerLog fresh).decodePixels b).reads ↔ r ∈ t.reads := by
    rw [heq, reads_swapPixels]
  constructor
  · intro hstays
    have hinside {r : Nat × Nat} (hr : r ∈ ((headerLog fresh).copyPixels b).reads) :
        Inside b.size r := hstays.reads r ((hall r).mpr ((hreads r).mpr (Or.inl hr)))
    have hlog {r : Nat × Nat} (hr : r ∈ (headerLog fresh).reads) : Inside b.size r :=
      hinside (mem_reads_copyPixels.mpr (Or.inl hr))
    refine ⟨?_, fun h32 hcomp => ⟨fun h56 => ?_, fun h108 => ?_⟩, ?_⟩
    · exact (inside_iff hword (by decide) (by decide)).mp (hlog (r := (30, 4)) (by simp [headerLog]))
    · have hmask := hstays.reads (58, 4) ((hall _).mpr ((hreads _).mpr
        (Or.inr ⟨h32, hcomp, h56, Or.inr (Or.inr (Or.inl rfl))⟩)))
      exact (inside_iff hword (by decide) (by decide)).mp hmask
    · have hmask := hstays.reads (80, 4) ((hall _).mpr ((hreads _).mpr
        (Or.inr ⟨h32, hcomp, by omega, Or.inr (Or.inr (Or.inr ⟨h108, rfl⟩))⟩)))
      exact (inside_iff hword (by decide) (by decide)).mp hmask
    · have hsize : b.stride * b.pictureHeight < 2 ^ 32 := by
        by_contra hover
        obtain ⟨r, hr, hout⟩ := swapPixels_overruns (s := t) hbpp (Nat.le_of_not_lt hover)
        exact hout (hstays.touched r (heq ▸ hr))
      refine ⟨hsize, ?_⟩
      by_contra hover
      obtain ⟨r, hr, hout⟩ := copyPixels_overreads (s := headerLog fresh) hbpp h.offset hsize
        (Nat.lt_of_not_le hover)
      exact hout (hinside hr)
  · rintro ⟨h34, hmasks, hfits⟩
    refine ⟨fun r hr => ?_, fun r hr => ?_, fun img himg => ?_⟩
    · rcases (hreads r).mp ((hall r).mp hr) with hr | ⟨h32, hcomp, h56, hr⟩
      · rcases (hfits.copy_inside hbpp).1 r hr with hr | hr
        · simp only [headerLog, List.mem_cons, List.not_mem_nil, or_false] at hr
          rcases hr with rfl | rfl | rfl | rfl | rfl | rfl | rfl <;>
            exact inside_of_le (by omega) (by omega)
        · exact hr
      · obtain ⟨h62, h84⟩ := hmasks h32 hcomp
        have h62' := h62 h56
        rcases hr with rfl | rfl | rfl | ⟨h108, rfl⟩
        · exact inside_of_le (by omega) (by omega)
        · exact inside_of_le (by omega) (by omega)
        · exact inside_of_le (by omega) (by omega)
        · have h84' := h84 h108
          exact inside_of_le (by omega) (by omega)
    · have hr' : r ∈ (t.swapPixels b b.pixelBytes).touched := heq ▸ hr
      rcases hfits.swap_inside hbpp r hr' with hr' | hr'
      · rw [htouched] at hr'
        rcases (hfits.copy_inside hbpp).2 r hr' with hr' | hr'
        · exact absurd hr' List.not_mem_nil
        · exact hr'
      · exact hr'
    · rw [← Option.some.inj himg]
      exact filled_decodedImage hfits hbpp hdata heq

theorem bmpLoad_stays_inside_iff (b : Buffer) (gotImage gotData : Bool) (fresh : Mem) :
    StaysInside b (bmpLoad b gotImage gotData fresh) ↔ b.Bounded gotImage gotData := by
  by_cases h : b.Decoded gotImage gotData
  · rw [staysInside_decoded h]
    constructor
    · rintro ⟨h34, hmasks, hfits⟩
      exact ⟨fun _ => by omega, fun _ => h34, fun _ => hmasks, fun _ => hfits⟩
    · exact fun hb => ⟨hb.fields h.header, hb.masks h, hb.picture h⟩
  · obtain ⟨rs, hload, hinside⟩ := bmpLoad_refused fresh h
    rw [hload, staysInside_none, hinside]
    constructor
    · rintro ⟨⟨h18, h34⟩, -⟩
      exact ⟨h18, h34, fun hd => absurd hd h, fun hd => absurd hd h⟩
    · exact fun hb => ⟨⟨hb.header, hb.fields⟩, fun r hr => absurd hr List.not_mem_nil⟩

def cutHeader : Buffer where
  bytes := store16 (fun _ => 0) 0 0x4D42
  size := 16
  word := by decide

-- one row of 2^30 + 1 pixels of four bytes
def wideRow : Buffer where
  bytes := store16 (store32 (store32 (store32 (store32 (store16 (fun _ => 0) 0 0x4D42) 10 54) 14 40)
    18 (2 ^ 30 + 1)) 22 1) 28 32
  size := 64
  word := by decide

theorem wideRow_decoded : wideRow.Decoded true true where
  header := ⟨by decide, by decide, by decide⟩
  comp := by decide
  bpp := by decide
  offset := by decide
  image := rfl
  room := by decide
  data := by decide

theorem bmpLoad_leaves_file_and_buffer :
    ¬StaysInside cutHeader (bmpLoad cutHeader true true fun _ => 0) ∧
      ¬StaysInside wideRow (bmpLoad wideRow true true fun _ => 0) := by
  constructor
  · intro h
    have hfield : (14, 4) ∈ (bmpLoad cutHeader true true fun _ => 0).1.reads := by decide
    exact absurd (h.reads _ hfield 2 (by decide)) (by decide)
  · intro h
    have hfits := ((staysInside_decoded wideRow_decoded).mp h).2.2
    exact absurd hfits.size (by decide)

end Outcome

end HouseOS.Images
