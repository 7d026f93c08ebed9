import HouseOS.Images.Model
import HouseOS.Library.Run

namespace HouseOS.Images

open HouseOS.ByteMem HouseOS.Fold HouseOS.Signed HouseOS.Word

section Ranges

variable {size off n : Nat}

def Inside (size : Nat) (r : Nat × Nat) : Prop := ∀ k < r.2, (r.1 + k) % 2 ^ 32 < size

theorem inside_of_le (hsize : size ≤ 2 ^ 32) (h : off + n ≤ size) : Inside size (off, n) := by
  intro k hk
  have hk' : k < n := hk
  show (off + k) % 2 ^ 32 < size
  rw [Nat.mod_eq_of_lt (by omega)]
  omega

theorem not_inside {k : Nat} (hk : k < n) (h : size ≤ (off + k) % 2 ^ 32) :
    ¬Inside size (off, n) := fun hin => absurd (hin k hk) (Nat.not_lt_of_le h)

theorem le_of_inside (h : Inside size (off, n)) (hoff : off + n < 2 ^ 32)
    (hn : 0 < n) : off + n ≤ size := by
  have hlast := h (n - 1) (show n - 1 < n by omega)
  simp only at hlast
  rw [Nat.mod_eq_of_lt (by omega)] at hlast
  omega

end Ranges

section Swaps

variable {n : Nat} {m : Mem} {ps : List Nat}

def swapAt (m : Mem) (p : Nat) : Mem := store8 (store8 m p (m (p + 2))) (p + 2) (m p)

def exchanged : Nat → Nat
  | 0 => 2
  | 2 => 0
  | k => k

theorem exchanged_lt {k : Nat} (hn : 3 ≤ n) (hk : k < n) : exchanged k < n := by
  match k with
  | 0 => exact hn
  | 1 => exact hk
  | 2 => exact Nat.lt_of_lt_of_le (by decide) hn
  | k + 3 => exact hk

theorem swapAt_apply (m : Mem) (p k : Nat) : swapAt m p (p + k) = m (p + exchanged k) := by
  simp only [swapAt, store8]
  match k with
  | 0 => simp [exchanged]
  | 1 => simp [exchanged]
  | 2 => simp [exchanged]
  | k + 3 =>
    rw [if_neg (by omega), if_neg (by omega)]
    rfl

theorem swapAt_other {p a : Nat} (h : a < p ∨ p + 2 < a) (m : Mem) : swapAt m p a = m a := by
  rw [swapAt, store8_ne _ (by omega), store8_ne _ (by omega)]

theorem swaps_below {a : Nat} (h : ∀ p ∈ ps, a < p) (m : Mem) : ps.foldl swapAt m a = m a :=
  foldl_keeps (fun m : Mem => m a) ps (fun p hp m => swapAt_other (Or.inl (h p hp)) m) m

theorem swaps_apply (hn : 3 ≤ n) (hps : ps.Pairwise fun p q => p + n ≤ q) {p k : Nat} (hp : p ∈ ps)
    (hk : k < n) (m : Mem) : ps.foldl swapAt m (p + k) = m (p + exchanged k) := by
  have hex := exchanged_lt hn hk
  induction ps generalizing m with
  | nil => exact absurd hp List.not_mem_nil
  | cons q ps ih =>
    obtain ⟨hfirst, hrest⟩ := List.pairwise_cons.mp hps
    rw [List.foldl_cons]
    rcases List.mem_cons.mp hp with rfl | hmem
    · rw [swaps_below (fun q hq => by have := hfirst q hq; omega), swapAt_apply]
    · rw [ih hrest hmem]
      exact swapAt_other (Or.inr (by have := hfirst p hmem; omega)) m

end Swaps

namespace Buffer

variable (b : Buffer)

def pictureWidth : Nat := b.width.natAbs

def pictureHeight : Nat := b.height.natAbs

def pixelBytes : Nat := b.bpp / 8

def stride : Nat := (b.pictureWidth * b.pixelBytes + 3) / 4 * 4

def fileRow (y : Nat) : Nat := if 0 < b.height then b.pictureHeight - 1 - y else y

def Filled (img : Image) : Prop :=
  img.width = b.pictureWidth ∧ img.height = b.pictureHeight ∧
    ∀ x < b.pictureWidth, ∀ y < b.pictureHeight, ∀ k < b.pixelBytes,
      img.data (y * img.pitch + x * b.pixelBytes + k) =
        b.bytes (b.dataOffset + b.fileRow y * b.stride + x * b.pixelBytes + exchanged k)

end Buffer

section Arithmetic

variable {b : Buffer}

theorem natAbs_word {v : Int} (h : -2 ^ 31 ≤ v) (h' : v < 2 ^ 31) : word32 (bmpAbs v) = v.natAbs := by
  simp only [word32, bmpAbs, int32]
  split <;> omega

theorem imgWidth_eq (b : Buffer) : b.imgWidth = b.pictureWidth :=
  natAbs_word (int32_range _).1 (int32_range _).2

theorem imgHeight_eq (b : Buffer) : b.imgHeight = b.pictureHeight :=
  natAbs_word (int32_range _).1 (int32_range _).2

theorem padPitch_stop {n p : Nat} (h : p % 4 = 0) : padPitch n p = p := by
  cases n with
  | zero => rfl
  | succ n => exact if_neg (not_not_intro h)

theorem padPitch_go {n p : Nat} (h : p % 4 ≠ 0) :
    ∃ q < 2 ^ 32, padPitch (n + 1) p = padPitch n q ∧ q % 4 = (p + 1) % 4 ∧
      q = (p + 1) % 2 ^ 32 :=
  ⟨add32 p 1, Nat.mod_lt _ (by decide), if_pos h, by simp only [add32]; omega, rfl⟩

theorem padPitch_eq {p : Nat} (hlt : p < 2 ^ 32) : padPitch 4 p = (p + 3) / 4 * 4 % 2 ^ 32 := by
  by_cases h0 : p % 4 = 0
  · rw [padPitch_stop h0]
    omega
  obtain ⟨q, hq, heq, hmod, rfl⟩ := padPitch_go (n := 3) h0
  by_cases h1 : (p + 1) % 2 ^ 32 % 4 = 0
  · rw [heq, padPitch_stop h1]
    omega
  obtain ⟨q, hq', heq', hmod', rfl⟩ := padPitch_go (n := 2) h1
  by_cases h2 : ((p + 1) % 2 ^ 32 + 1) % 2 ^ 32 % 4 = 0
  · rw [heq, heq', padPitch_stop h2]
    omega
  obtain ⟨q, hq'', heq'', hmod'', rfl⟩ := padPitch_go (n := 1) h2
  rw [heq, heq', heq'', padPitch_stop (by omega)]
  omega

theorem imageCalculatePitch_eq (width bpp : Nat) : imageCalculatePitch width bpp =
    (width * ((bpp + 7) / 8) + 3) / 4 * 4 % 2 ^ 32 := by
  rw [imageCalculatePitch, mul32, padPitch_eq (Nat.mod_lt _ (by decide))]
  generalize width * ((bpp + 7) / 8) = v
  omega

theorem imgPitch_eq (hbpp : b.bpp = 24 ∨ b.bpp = 32) : b.imgPitch = b.stride % 2 ^ 32 := by
  have hbytes : (b.bpp + 7) / 8 = b.pixelBytes := by
    rw [Buffer.pixelBytes]
    omega
  rw [Buffer.imgPitch, imageCalculatePitch_eq, imgWidth_eq, hbytes, Buffer.stride]

theorem mul32_imgPitch (hbpp : b.bpp = 24 ∨ b.bpp = 32) (y : Nat) :
    mul32 y b.imgPitch = y * b.stride % 2 ^ 32 := by
  rw [imgPitch_eq hbpp, mul32, Nat.mul_mod_mod]

theorem needSize_eq (hbpp : b.bpp = 24 ∨ b.bpp = 32) :
    b.needSize = b.stride * b.pictureHeight % 2 ^ 32 := by
  rw [Buffer.needSize, mul32, Nat.mul_comm, ← mul32, mul32_imgPitch hbpp, imgHeight_eq, Nat.mul_comm]

theorem four_dvd_stride (b : Buffer) : 4 ∣ b.stride := Dvd.intro_left _ rfl

theorem needSize_le (hbpp : b.bpp = 24 ∨ b.bpp = 32) : b.needSize ≤ 2 ^ 32 - 4 := by
  have hdvd : 4 ∣ b.needSize := by
    rw [needSize_eq hbpp]
    exact (Nat.dvd_mod_iff (by decide)).mpr (Dvd.dvd.mul_right (four_dvd_stride b) _)
  have hlt : b.needSize < 2 ^ 32 := Nat.mod_lt _ (by decide)
  omega

theorem pixelBytes_cases (hbpp : b.bpp = 24 ∨ b.bpp = 32) :
    b.pixelBytes = 3 ∨ b.pixelBytes = 4 := by
  rw [Buffer.pixelBytes]
  omega

theorem row_le_stride (b : Buffer) : b.pictureWidth * b.pixelBytes ≤ b.stride := by
  rw [Buffer.stride]
  omega

end Arithmetic

section Accesses

variable {b : Buffer} {s : Decode} {n : Nat}

def rowRead (b : Buffer) (y : Nat) : Nat × Nat :=
  (add32 b.dataOffset (mul32 (sub32 (sub32 b.imgHeight y) 1) b.imgPitch), b.imgPitch)

def rowWrite (b : Buffer) (y : Nat) : Nat × Nat := (mul32 y b.imgPitch, b.imgPitch)

theorem reads_memcpy (b : Buffer) (dst off n : Nat) (s : Decode) :
    (s.memcpy b dst off n).reads = s.reads ++ [(off, n)] := rfl

theorem touched_memcpy (b : Buffer) (dst off n : Nat) (s : Decode) :
    (s.memcpy b dst off n).touched = s.touched ++ [(dst, n)] := rfl

theorem mem_reads_copyPixels {r : Nat × Nat} : r ∈ (s.copyPixels b).reads ↔ r ∈ s.reads ∨
    (0 < b.height ∧ ∃ y < b.imgHeight, r = rowRead b y) ∨
      b.height ≤ 0 ∧ r = (b.dataOffset, b.needSize) := by
  rw [Decode.copyPixels]
  split
  next hup =>
    rw [foldl_log Decode.reads (fun y => [rowRead b y]) _ (fun _ _ => reads_memcpy ..),
      List.mem_append, ← Int.not_lt]
    simp only [List.mem_flatMap, List.mem_range, List.mem_singleton, hup, true_and, not_true,
      false_and, or_false]
  next hdown =>
    rw [reads_memcpy, List.mem_append, List.mem_singleton, ← Int.not_lt]
    simp only [hdown, false_and, not_false_eq_true, true_and, false_or]

theorem mem_touched_copyPixels {r : Nat × Nat} : r ∈ (s.copyPixels b).touched ↔ r ∈ s.touched ∨
    (0 < b.height ∧ ∃ y < b.imgHeight, r = rowWrite b y) ∨
      b.height ≤ 0 ∧ r = (0, b.needSize) := by
  rw [Decode.copyPixels]
  split
  next hup =>
    rw [foldl_log Decode.touched (fun y => [rowWrite b y]) _ (fun _ _ => touched_memcpy ..),
      List.mem_append, ← Int.not_lt]
    simp only [List.mem_flatMap, List.mem_range, List.mem_singleton, hup, true_and, not_true,
      false_and, or_false]
  next hdown =>
    rw [touched_memcpy, List.mem_append, List.mem_singleton, ← Int.not_lt]
    simp only [hdown, false_and, not_false_eq_true, true_and, false_or]

def pixelAt (b : Buffer) (n x y : Nat) : Nat := add32 (mul32 y b.imgPitch) (mul32 x n)

theorem reads_swap (p : Nat) (s : Decode) : (s.swap p).reads = s.reads := rfl

theorem touched_swap (p : Nat) (s : Decode) :
    (s.swap p).touched = s.touched ++ [(p, 1), (add32 p 2, 1)] := rfl

def swapGrid (at_ : Nat → Nat → Nat) (h w : Nat) (s : Decode) : Decode :=
  (List.range h).foldl (fun s y => (List.range w).foldl (fun s x => s.swap (at_ x y)) s) s

theorem swapPixels_eq (s : Decode) (b : Buffer) (n : Nat) :
    s.swapPixels b n = swapGrid (pixelAt b n) b.imgHeight b.imgWidth s := rfl

theorem reads_swapGrid (at_ : Nat → Nat → Nat) (h w : Nat) (s : Decode) :
    (swapGrid at_ h w s).reads = s.reads :=
  foldl_keeps Decode.reads _ (fun y _ s =>
    foldl_keeps Decode.reads _ (fun x _ s => reads_swap (at_ x y) s) s) s

theorem touched_swapGrid (at_ : Nat → Nat → Nat) (h w : Nat) (s : Decode) :
    (swapGrid at_ h w s).touched = s.touched ++ (List.range h).flatMap fun y =>
      (List.range w).flatMap fun x => [(at_ x y, 1), (add32 (at_ x y) 2, 1)] :=
  foldl_log Decode.touched _ _ (fun y s =>
    foldl_log Decode.touched _ _ (fun x s => touched_swap (at_ x y) s) s) s

theorem reads_swapPixels (s : Decode) (b : Buffer) (n : Nat) : (s.swapPixels b n).reads = s.reads := by
  rw [swapPixels_eq, reads_swapGrid]

theorem mem_touched_swapPixels {r : Nat × Nat} : r ∈ (s.swapPixels b n).touched ↔
    r ∈ s.touched ∨ ∃ y < b.imgHeight, ∃ x < b.imgWidth,
      r = (pixelAt b n x y, 1) ∨ r = (add32 (pixelAt b n x y) 2, 1) := by
  rw [swapPixels_eq, touched_swapGrid, List.mem_append]
  simp only [List.mem_flatMap, List.mem_range, List.mem_cons, List.not_mem_nil, or_false]

theorem mem_reads_masks {r : Nat × Nat} : r ∈ (s.readMasks b).reads ↔ r ∈ s.reads ∨
    b.comp = 3 ∧ 56 ≤ b.hdrSize ∧
      (r = (50, 4) ∨ r = (54, 4) ∨ r = (58, 4) ∨ 108 ≤ b.hdrSize ∧ r = (80, 4)) := by
  rw [Decode.readMasks]
  split
  next h =>
    split
    next h' => simp [Decode.read, h, h']
    next h' => simp [Decode.read, h, h']
  next h =>
    refine ⟨Or.inl, ?_⟩
    rintro (hr | ⟨hcomp, hhdr, -⟩)
    · exact hr
    · exact absurd ⟨hcomp, hhdr⟩ h

theorem touched_readMasks : (s.readMasks b).touched = s.touched := by
  rw [Decode.readMasks]
  split
  next => split <;> rfl
  next => rfl

theorem data_readMasks : (s.readMasks b).data = s.data := by
  rw [Decode.readMasks]
  split
  next => split <;> rfl
  next => rfl

end Accesses

section Overrun

variable {b : Buffer} {s : Decode} {x y : Nat}

theorem pixelAt_eq (hbpp : b.bpp = 24 ∨ b.bpp = 32)
    (hlt : y * b.stride + x * b.pixelBytes < 2 ^ 32) :
    pixelAt b b.pixelBytes x y = y * b.stride + x * b.pixelBytes := by
  rw [pixelAt, mul32_imgPitch hbpp, mul32, Nat.mod_eq_of_lt (by omega), Nat.mod_eq_of_lt (by omega),
    add32_eq hlt]

-- a row that reaches past the last four bytes of the address space has a red or blue there
theorem exists_pixel_last (hbpp : b.bpp = 24 ∨ b.bpp = 32)
    (hover : 2 ^ 32 ≤ b.stride * b.pictureHeight) :
    ∃ y < b.pictureHeight, ∃ x < b.pictureWidth,
      2 ^ 32 - 4 ≤ pixelAt b b.pixelBytes x y ∧ pixelAt b b.pixelBytes x y < 2 ^ 32 ∨
        2 ^ 32 - 4 ≤ pixelAt b b.pixelBytes x y + 2 ∧ pixelAt b b.pixelBytes x y + 2 < 2 ^ 32 := by
  have hpos : 0 < b.stride := by
    by_contra hzero
    rw [Nat.eq_zero_of_not_pos hzero, Nat.zero_mul] at hover
    omega
  obtain ⟨y, hy⟩ : ∃ y, y = (2 ^ 32 - 4) / b.stride := ⟨_, rfl⟩
  obtain ⟨r, hr⟩ : ∃ r, r = (2 ^ 32 - 4) % b.stride := ⟨_, rfl⟩
  have hsplit : b.stride * y + r = 2 ^ 32 - 4 := by rw [hy, hr]; exact Nat.div_add_mod _ _
  have hrlt : r < b.stride := by rw [hr]; exact Nat.mod_lt _ hpos
  have hrdvd : 4 ∣ r := by
    rw [hr]
    exact (Nat.dvd_mod_iff (four_dvd_stride b)).mpr (by decide)
  have hylt : y < b.pictureHeight := by
    by_contra hge
    have hle : b.stride * b.pictureHeight ≤ b.stride * y := Nat.mul_le_mul_left _ (by omega)
    omega
  have hrow : r < b.pictureWidth * b.pixelBytes := by
    have hstride : b.stride = (b.pictureWidth * b.pixelBytes + 3) / 4 * 4 := rfl
    omega
  refine ⟨y, hylt, r / b.pixelBytes, (Nat.div_lt_iff_lt_mul (by
    rcases pixelBytes_cases hbpp with hn | hn <;> omega)).mpr hrow, ?_⟩
  have hcomm : y * b.stride = b.stride * y := Nat.mul_comm _ _
  rcases pixelBytes_cases hbpp with hn | hn
  · rw [pixelAt_eq hbpp (by rw [hn]; omega), hn]
    omega
  · rw [pixelAt_eq hbpp (by rw [hn]; omega), hn]
    omega

theorem swapPixels_overruns (hbpp : b.bpp = 24 ∨ b.bpp = 32)
    (hover : 2 ^ 32 ≤ b.stride * b.pictureHeight) :
    ∃ r ∈ (s.swapPixels b b.pixelBytes).touched, ¬Inside b.needSize r := by
  have hneed := needSize_le hbpp
  obtain ⟨y, hy, x, hx, hat⟩ := exists_pixel_last hbpp hover
  rw [← imgHeight_eq] at hy
  rw [← imgWidth_eq] at hx
  rcases hat with ⟨hlow, hhigh⟩ | ⟨hlow, hhigh⟩
  · refine ⟨_, mem_touched_swapPixels.mpr (Or.inr ⟨y, hy, x, hx, Or.inl rfl⟩), ?_⟩
    exact not_inside (k := 0) Nat.one_pos (by omega)
  · refine ⟨_, mem_touched_swapPixels.mpr (Or.inr ⟨y, hy, x, hx, Or.inr rfl⟩), ?_⟩
    rw [add32_eq hhigh]
    exact not_inside (k := 0) Nat.one_pos (by omega)

theorem sub32_chain {h y : Nat} (hh : h < 2 ^ 32) (hy : y < h) : sub32 (sub32 h y) 1 = h - 1 - y := by
  simp only [sub32]
  omega

theorem pictureHeight_lt (b : Buffer) : b.pictureHeight < 2 ^ 32 := by
  have hrange := int32_range (load32 b.at_ 22)
  rw [Buffer.pictureHeight, Buffer.height]
  omega

-- a picture that ends past the file is read past its end
theorem copyPixels_overreads (hbpp : b.bpp = 24 ∨ b.bpp = 32) (hoff : b.dataOffset < b.size)
    (hfits : b.stride * b.pictureHeight < 2 ^ 32)
    (hover : b.size < b.dataOffset + b.stride * b.pictureHeight) :
    ∃ r ∈ (s.copyPixels b).reads, ¬Inside b.size r := by
  have hsize := b.word
  have hheight := pictureHeight_lt b
  by_cases hup : 0 < b.height
  · obtain ⟨i, hi⟩ : ∃ i, i = (b.size - b.dataOffset) / b.stride := ⟨_, rfl⟩
    obtain ⟨k, hk⟩ : ∃ k, k = (b.size - b.dataOffset) % b.stride := ⟨_, rfl⟩
    have hsplit : b.stride * i + k = b.size - b.dataOffset := by
      rw [hi, hk]
      exact Nat.div_add_mod _ _
    have hpos : 0 < b.stride := by
      by_contra hzero
      rw [Nat.eq_zero_of_not_pos hzero, Nat.zero_mul] at hover
      omega
    have hklt : k < b.stride := by rw [hk]; exact Nat.mod_lt _ hpos
    have hilt : i < b.pictureHeight := by
      by_contra hge
      have hle : b.stride * b.pictureHeight ≤ b.stride * i := Nat.mul_le_mul_left _ (by omega)
      omega
    have hstride : b.stride < 2 ^ 32 := by
      have hle : b.stride * 1 ≤ b.stride * b.pictureHeight := Nat.mul_le_mul_left _ (by omega)
      omega
    refine ⟨rowRead b (b.pictureHeight - 1 - i), mem_reads_copyPixels.mpr (Or.inr (Or.inl ?_)),
      ?_⟩
    · exact ⟨hup, _, by rw [imgHeight_eq]; omega, rfl⟩
    · rw [rowRead, imgHeight_eq, sub32_chain hheight (by omega),
        show b.pictureHeight - 1 - (b.pictureHeight - 1 - i) = i by omega, mul32_imgPitch hbpp,
        imgPitch_eq hbpp, Nat.mod_eq_of_lt hstride, Nat.mul_comm i, Nat.mod_eq_of_lt (by omega)]
      refine not_inside hklt ?_
      simp only [add32]
      omega
  · refine ⟨_, mem_reads_copyPixels.mpr (Or.inr (Or.inr ⟨Int.le_of_not_gt hup, rfl⟩)), ?_⟩
    rw [needSize_eq hbpp, Nat.mod_eq_of_lt hfits]
    refine not_inside (k := b.size - b.dataOffset) (by omega) ?_
    omega

end Overrun

section Fitting

variable {b : Buffer} {s : Decode} {x y k : Nat}

structure Buffer.PictureFits (b : Buffer) : Prop where
  size : b.stride * b.pictureHeight < 2 ^ 32
  inFile : b.dataOffset + b.stride * b.pictureHeight ≤ b.size

theorem row_end (h : y < b.pictureHeight) :
    y * b.stride + b.stride ≤ b.stride * b.pictureHeight := by
  rw [Nat.mul_comm b.stride, ← Nat.succ_mul]
  exact Nat.mul_le_mul_right _ h

theorem pixel_end (hx : x < b.pictureWidth) :
    x * b.pixelBytes + b.pixelBytes ≤ b.stride := by
  refine Nat.le_trans ?_ (row_le_stride b)
  rw [← Nat.succ_mul]
  exact Nat.mul_le_mul_right _ hx

theorem fileRow_lt (h : y < b.pictureHeight) : b.fileRow y < b.pictureHeight := by
  rw [Buffer.fileRow]
  split <;> omega

theorem Buffer.PictureFits.imgPitch (h : b.PictureFits) (hbpp : b.bpp = 24 ∨ b.bpp = 32)
    (hpos : 0 < b.pictureHeight) : b.imgPitch = b.stride := by
  have hsize := h.size
  have hle : b.stride * 1 ≤ b.stride * b.pictureHeight := Nat.mul_le_mul_left _ hpos
  rw [imgPitch_eq hbpp, Nat.mod_eq_of_lt (by omega)]

theorem Buffer.PictureFits.needSize (h : b.PictureFits) (hbpp : b.bpp = 24 ∨ b.bpp = 32) :
    b.needSize = b.stride * b.pictureHeight := by
  rw [needSize_eq hbpp, Nat.mod_eq_of_lt h.size]

theorem Buffer.PictureFits.rowRead (h : b.PictureFits) (hbpp : b.bpp = 24 ∨ b.bpp = 32)
    (hup : 0 < b.height) (hy : y < b.pictureHeight) :
    rowRead b y = (b.dataOffset + b.fileRow y * b.stride, b.stride) := by
  have hword := b.word
  have hsize := h.size
  have hin := h.inFile
  have hrow := row_end (fileRow_lt hy)
  rw [Images.rowRead, imgHeight_eq, sub32_chain (pictureHeight_lt b) hy, mul32_imgPitch hbpp,
    h.imgPitch hbpp (by omega)]
  rw [Buffer.fileRow, if_pos hup] at hrow ⊢
  rw [Nat.mod_eq_of_lt (by omega), add32_eq (by omega)]

theorem Buffer.PictureFits.rowWrite (h : b.PictureFits) (hbpp : b.bpp = 24 ∨ b.bpp = 32)
    (hy : y < b.pictureHeight) : rowWrite b y = (y * b.stride, b.stride) := by
  have hsize := h.size
  have hrow := row_end hy
  rw [Images.rowWrite, mul32_imgPitch hbpp, h.imgPitch hbpp (by omega), Nat.mod_eq_of_lt (by omega)]

theorem Buffer.PictureFits.copy_inside (h : b.PictureFits) (hbpp : b.bpp = 24 ∨ b.bpp = 32) :
    (∀ r ∈ (s.copyPixels b).reads, r ∈ s.reads ∨ Inside b.size r) ∧
      ∀ r ∈ (s.copyPixels b).touched, r ∈ s.touched ∨ Inside b.needSize r := by
  have hword := b.word
  have hsize := h.size
  have hin := h.inFile
  have hneed := h.needSize hbpp
  constructor
  · intro r hr
    refine (mem_reads_copyPixels.mp hr).imp_right fun hr => ?_
    rcases hr with ⟨hup, y, hy, rfl⟩ | ⟨-, rfl⟩
    · rw [imgHeight_eq] at hy
      have hrow := row_end (fileRow_lt hy)
      rw [h.rowRead hbpp hup hy]
      exact inside_of_le (Nat.le_of_lt hword) (by omega)
    · exact inside_of_le (Nat.le_of_lt hword) (by omega)
  · intro r hr
    refine (mem_touched_copyPixels.mp hr).imp_right fun hr => ?_
    rcases hr with ⟨-, y, hy, rfl⟩ | ⟨-, rfl⟩
    · rw [imgHeight_eq] at hy
      have hrow := row_end hy
      rw [h.rowWrite hbpp hy]
      exact inside_of_le (by omega) (by omega)
    · exact inside_of_le (by omega) (by omega)

theorem Buffer.PictureFits.pixelAt (h : b.PictureFits) (hbpp : b.bpp = 24 ∨ b.bpp = 32)
    (hx : x < b.pictureWidth) (hy : y < b.pictureHeight) :
    pixelAt b b.pixelBytes x y = y * b.stride + x * b.pixelBytes ∧
      pixelAt b b.pixelBytes x y + b.pixelBytes ≤ b.needSize := by
  have hsize := h.size
  have hrow := row_end hy
  have hpixel := pixel_end hx
  have hcases := pixelBytes_cases hbpp
  have hat : Images.pixelAt b b.pixelBytes x y = y * b.stride + x * b.pixelBytes :=
    pixelAt_eq hbpp (by omega)
  rw [hat, h.needSize hbpp]
  exact ⟨rfl, by omega⟩

theorem Buffer.PictureFits.swap_inside (h : b.PictureFits) (hbpp : b.bpp = 24 ∨ b.bpp = 32) :
    ∀ r ∈ (s.swapPixels b b.pixelBytes).touched, r ∈ s.touched ∨ Inside b.needSize r := by
  have hneed := needSize_le hbpp
  have hcases := pixelBytes_cases hbpp
  intro r hr
  refine (mem_touched_swapPixels.mp hr).imp_right ?_
  rintro ⟨y, hy, x, hx, rfl | rfl⟩
  all_goals
    rw [imgHeight_eq] at hy
    rw [imgWidth_eq] at hx
    have hend := (h.pixelAt hbpp hx hy).2
  · exact inside_of_le (by omega) (by omega)
  · rw [add32_eq (by omega)]
    exact inside_of_le (by omega) (by omega)

theorem data_memcpy (s : Decode) (b : Buffer) (dst off n a : Nat) : (s.memcpy b dst off n).data a =
    if sub32 a dst < n then b.at_ (off + sub32 a dst) else s.data a := rfl

def copyRows (b : Buffer) (stride : Nat) (off : Nat → Nat) (rows : Nat) (s : Decode) : Decode :=
  (List.range rows).foldl (fun s y => s.memcpy b (y * stride) (off y) stride) s

theorem data_copyRows (stride rows : Nat) (off : Nat → Nat) (hfits : rows * stride < 2 ^ 32) :
    ∀ y < rows, ∀ k < stride,
      (copyRows b stride off rows s).data (y * stride + k) = b.at_ (off y + k) := by
  induction rows with
  | zero => exact fun y hy => absurd hy (Nat.not_lt_zero y)
  | succ rows ih =>
    intro y hy k hk
    have hend : y * stride + stride ≤ (rows + 1) * stride := by
      rw [← Nat.succ_mul]
      exact Nat.mul_le_mul_right _ hy
    have hnext : (rows + 1) * stride = rows * stride + stride := Nat.succ_mul _ _
    rw [copyRows, List.range_succ, List.foldl_append, List.foldl_cons, List.foldl_nil, data_memcpy,
      ← copyRows]
    rcases Nat.eq_or_lt_of_le (Nat.le_of_lt_succ hy) with rfl | hlt
    · have hat : sub32 (y * stride + k) (y * stride) = k := by
        rw [sub32_eq (by omega) (by omega), Nat.add_sub_cancel_left]
      rw [hat, if_pos hk]
    · have hbefore : y * stride + stride ≤ rows * stride := by
        rw [← Nat.succ_mul]
        exact Nat.mul_le_mul_right _ hlt
      have hat : ¬sub32 (y * stride + k) (rows * stride) < stride := by
        simp only [sub32]
        omega
      rw [if_neg hat]
      exact ih (by omega) y hlt k hk

theorem copyPixels_up (hup : 0 < b.height) : s.copyPixels b = (List.range b.imgHeight).foldl
    (fun s y => s.memcpy b (rowWrite b y).1 (rowRead b y).1 b.imgPitch) s :=
  if_pos hup

theorem Buffer.PictureFits.data_copy (h : b.PictureFits) (hbpp : b.bpp = 24 ∨ b.bpp = 32)
    (hy : y < b.pictureHeight) (hk : k < b.stride) :
    (s.copyPixels b).data (y * b.stride + k) =
      b.bytes (b.dataOffset + b.fileRow y * b.stride + k) := by
  have hword := b.word
  have hsize := h.size
  have hin := h.inFile
  have hrow := row_end (fileRow_lt hy)
  have hrow' := row_end hy
  have hat : b.at_ (b.dataOffset + b.fileRow y * b.stride + k) =
      b.bytes (b.dataOffset + b.fileRow y * b.stride + k) := by
    rw [Buffer.at_, Nat.mod_eq_of_lt (by omega)]
  by_cases hup : 0 < b.height
  · have hrows : s.copyPixels b =
        copyRows b b.stride (fun y => b.dataOffset + b.fileRow y * b.stride) b.pictureHeight s := by
      rw [copyPixels_up hup, imgHeight_eq, h.imgPitch hbpp (by omega), copyRows]
      refine List.foldl_ext _ _ s fun s y hy => ?_
      rw [h.rowRead hbpp hup (List.mem_range.mp hy), h.rowWrite hbpp (List.mem_range.mp hy)]
    have hsize' : b.pictureHeight * b.stride < 2 ^ 32 := Nat.mul_comm b.stride _ ▸ hsize
    rw [hrows, data_copyRows b.stride _ _ hsize' y hy k hk, hat]
  · have hfile : b.fileRow y = y := by rw [Buffer.fileRow, if_neg hup]
    rw [hfile] at hat ⊢
    rw [Decode.copyPixels, if_neg hup, data_memcpy, h.needSize hbpp,
      sub32_eq (by omega) (Nat.zero_le _), Nat.sub_zero, if_pos (by omega), ← Nat.add_assoc, hat]

def pixelList (b : Buffer) : List Nat :=
  (List.range b.pictureHeight).flatMap fun y =>
    (List.range b.pictureWidth).map fun x => y * b.stride + x * b.pixelBytes

theorem pixelList_pairwise (b : Buffer) :
    (pixelList b).Pairwise fun p q => p + b.pixelBytes ≤ q := by
  refine List.pairwise_flatMap.mpr ⟨fun y _ => ?_, ?_⟩
  · refine List.pairwise_map.mpr (List.pairwise_lt_range.imp fun {x x'} hlt => ?_)
    have hle : (x + 1) * b.pixelBytes ≤ x' * b.pixelBytes := Nat.mul_le_mul_right _ hlt
    rw [Nat.succ_mul] at hle
    omega
  · refine List.pairwise_lt_range.imp fun {y y'} hlt => ?_
    intro p hp q hq
    obtain ⟨x, hx, rfl⟩ := List.mem_map.mp hp
    obtain ⟨x', -, rfl⟩ := List.mem_map.mp hq
    have hpixel := pixel_end (List.mem_range.mp hx)
    have hle : (y + 1) * b.stride ≤ y' * b.stride := Nat.mul_le_mul_right _ hlt
    rw [Nat.succ_mul] at hle
    omega

theorem data_swap (s : Decode) {p : Nat} (h : p + 2 < 2 ^ 32) :
    (s.swap p).data = swapAt s.data p := by
  rw [Decode.swap, add32_eq h, swapAt]

theorem data_swapGrid (at_ : Nat → Nat → Nat) (h w : Nat)
    (hsmall : ∀ y < h, ∀ x < w, at_ x y + 2 < 2 ^ 32) (s : Decode) : (swapGrid at_ h w s).data =
      ((List.range h).flatMap fun y => (List.range w).map fun x => at_ x y).foldl swapAt s.data := by
  rw [swapGrid, List.foldl_flatMap]
  refine foldl_view Decode.data _ (fun y hy s => ?_) s
  rw [List.foldl_map]
  refine foldl_view Decode.data _ (fun x hx s => ?_) s
  exact data_swap s (hsmall y (List.mem_range.mp hy) x (List.mem_range.mp hx))

theorem Buffer.PictureFits.data_swap (h : b.PictureFits) (hbpp : b.bpp = 24 ∨ b.bpp = 32) :
    (s.swapPixels b b.pixelBytes).data = (pixelList b).foldl swapAt s.data := by
  have hneed := needSize_le hbpp
  have hcases := pixelBytes_cases hbpp
  have hlist : ((List.range b.pictureHeight).flatMap fun y => (List.range b.pictureWidth).map
      fun x => Images.pixelAt b b.pixelBytes x y) = pixelList b := by
    refine List.flatMap_congr fun y hy => List.map_congr_left fun x hx => ?_
    exact (h.pixelAt hbpp (List.mem_range.mp hx) (List.mem_range.mp hy)).1
  rw [swapPixels_eq, imgHeight_eq, imgWidth_eq, data_swapGrid _ _ _ ?_ s, hlist]
  intro y hy x hx
  have hend := (h.pixelAt hbpp hx hy).2
  omega

theorem Buffer.PictureFits.data_pixel (h : b.PictureFits) (hbpp : b.bpp = 24 ∨ b.bpp = 32)
    (hx : x < b.pictureWidth) (hy : y < b.pictureHeight) (hk : k < b.pixelBytes)
    {t : Decode} (ht : t.data = (s.copyPixels b).data) :
    (t.swapPixels b b.pixelBytes).data (y * b.stride + x * b.pixelBytes + k) =
      b.bytes (b.dataOffset + b.fileRow y * b.stride + x * b.pixelBytes + exchanged k) := by
  have hthree : 3 ≤ b.pixelBytes := by
    have hcases := pixelBytes_cases hbpp
    omega
  have hmem : y * b.stride + x * b.pixelBytes ∈ pixelList b :=
    List.mem_flatMap.mpr ⟨y, List.mem_range.mpr hy, List.mem_map.mpr ⟨x, List.mem_range.mpr hx, rfl⟩⟩
  have hpixel := pixel_end hx
  have hex := exchanged_lt hthree hk
  rw [h.data_swap hbpp, swaps_apply hthree (pixelList_pairwise b) hmem hk, ht, Nat.add_assoc,
    h.data_copy hbpp hy (by omega), Nat.add_assoc _ (x * _)]

end Fitting

end HouseOS.Images
