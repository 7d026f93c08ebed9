import HouseOS.Vesa.Model
import Mathlib.Data.Set.Function
import Mathlib.Tactic

namespace HouseOS.Vesa

open HouseOS.ByteMem HouseOS.Word

theorem vesaInit_some {signature : List UInt8} {m : ModeInfo} {n : Nat}
    (h : vesaInit signature m = some n) :
    m.width ≠ 0 ∧ m.height ≠ 0 ∧ n = m.bpp.toNat / 8 ∧ 0 < n ∧ n ≤ 4 ∧
      m.width.toNat * n ≤ m.pitch.toNat := by
  simp only [vesaInit, Option.ite_none_left_eq_some, Option.some.injEq] at h
  obtain ⟨-, -, -, -, hsize, -, -, -, hbytes, hpitch, rfl⟩ := h
  exact ⟨fun hw => hsize (Or.inl hw), fun hh => hsize (Or.inr hh), rfl, by omega, by omega,
    Nat.le_of_not_lt hpitch⟩

section Bytes

variable {n offset : Nat} {m m' : Mem}

theorem storePixel_apply (hpos : 0 < n) (hmax : n ≤ 4) (m : Mem) (offset v x : Nat) :
    storePixel n m offset v x = if offset ≤ x ∧ x < offset + n then byte v (x - offset) else m x := by
  obtain rfl | rfl | rfl | rfl : n = 1 ∨ n = 2 ∨ n = 3 ∨ n = 4 := by omega
  all_goals
    simp only [storePixel, store8, store16, store32]
    by_cases h0 : x = offset
    · simp [h0]
    by_cases h1 : x = offset + 1
    · simp [h1]
    by_cases h2 : x = offset + 2
    · simp [h2]
    by_cases h3 : x = offset + 3
    · simp [h3]
    rw [if_neg (show ¬(offset ≤ x ∧ x < _) by omega)]
    simp [h0, h1, h2, h3]

def pixelValue (n : Nat) (m : Mem) (offset : Nat) : Nat :=
  match n with
  | 0 => 0
  | n + 1 => (m offset).toNat + 256 * pixelValue n m (offset + 1)

theorem or_shift_eq_add {c k : Nat} (hc : c < 2 ^ k) (b : Nat) : c ||| b <<< k = c + 2 ^ k * b := by
  rw [Nat.lor_comm, Nat.shiftLeft_eq, Nat.mul_comm, Nat.add_comm]
  exact (Nat.two_pow_add_eq_or_of_lt hc b).symm

theorem loadPixel_eq (hpos : 0 < n) (hmax : n ≤ 4) (m : Mem) (offset : Nat) :
    loadPixel n m offset = some (pixelValue n m offset) := by
  have h0 := (m offset).toNat_lt
  have h1 := (m (offset + 1)).toNat_lt
  obtain rfl | rfl | rfl | rfl : n = 1 ∨ n = 2 ∨ n = 3 ∨ n = 4 := by omega
  · simp [loadPixel, pixelValue]
  · simp [loadPixel, pixelValue, load16]
  · simp only [loadPixel, pixelValue, Nat.add_assoc, Nat.reduceAdd]
    rw [or_shift_eq_add h0, or_shift_eq_add (by omega)]
    congr 1
    omega
  · simp only [loadPixel, pixelValue, load32, Nat.add_assoc, Nat.reduceAdd]
    congr 1
    omega

theorem pixelValue_congr (off off' : Nat) (h : ∀ k < n, m' (off' + k) = m (off + k)) :
    pixelValue n m' off' = pixelValue n m off := by
  induction n generalizing off off' with
  | zero => rfl
  | succ n ih =>
    have hfirst := h 0 (Nat.succ_pos n)
    simp only [pixelValue]
    rw [← Nat.add_zero off', ← Nat.add_zero off, hfirst]
    rw [ih (off + 0 + 1) (off' + 0 + 1) (fun k hk => by
      simpa only [Nat.add_zero, Nat.add_assoc, Nat.add_comm 1 k] using h (k + 1) (by omega))]

theorem pixelValue_lt (n : Nat) (m : Mem) (offset : Nat) : pixelValue n m offset < 2 ^ (8 * n) := by
  induction n generalizing offset with
  | zero => exact Nat.one_pos
  | succ n ih =>
    have hbyte := (m offset).toNat_lt
    have hrest := ih (offset + 1)
    have hpow : 2 ^ (8 * (n + 1)) = 256 * 2 ^ (8 * n) := by rw [Nat.mul_succ, Nat.pow_add, Nat.mul_comm]
    simp only [pixelValue]
    omega

theorem byte_pixelValue {k : Nat} (hk : k < n) (m : Mem) (offset : Nat) :
    byte (pixelValue n m offset) k = m (offset + k) := by
  induction n generalizing k offset with
  | zero => exact absurd hk (Nat.not_lt_zero k)
  | succ n ih =>
    have hbyte := (m offset).toNat_lt
    cases k with
    | zero =>
      refine UInt8.toNat_inj.mp ?_
      rw [byte_toNat, pixelValue]
      simp only [Nat.pow_zero, Nat.div_one, Nat.add_zero]
      omega
    | succ k =>
      have hdiv : pixelValue (n + 1) m offset / 256 ^ (k + 1) =
          pixelValue n m (offset + 1) / 256 ^ k := by
        rw [Nat.pow_succ', ← Nat.div_div_eq_div_mul, pixelValue]
        congr 1
        omega
      rw [byte, hdiv, ← Nat.add_assoc, Nat.add_right_comm]
      exact ih (by omega) (offset + 1)

theorem pixelValue_bytes {v : Nat} (h : ∀ k < n, m (offset + k) = byte v k) :
    pixelValue n m offset = v % 2 ^ (8 * n) := by
  induction n generalizing v offset with
  | zero => exact (Nat.mod_one v).symm
  | succ n ih =>
    have hfirst : m offset = byte v 0 := h 0 (Nat.succ_pos n)
    have hrest : pixelValue n m (offset + 1) = v / 256 % 2 ^ (8 * n) := by
      refine ih fun k hk => ?_
      rw [Nat.add_assoc, Nat.add_comm 1 k, h (k + 1) (by omega), byte, byte, Nat.div_div_eq_div_mul,
        Nat.pow_succ']
    have hpow : 2 ^ (8 * (n + 1)) = 256 * 2 ^ (8 * n) := by rw [Nat.mul_succ, Nat.pow_add, Nat.mul_comm]
    rw [pixelValue, hfirst, hrest, hpow, Nat.mod_mul, byte_toNat, Nat.pow_zero, Nat.div_one]

theorem pixelValue_store (hpos : 0 < n) (hmax : n ≤ 4) (m : Mem) (offset v : Nat) :
    pixelValue n (storePixel n m offset v) offset = v % 2 ^ (8 * n) := by
  refine pixelValue_bytes fun k hk => ?_
  rw [storePixel_apply hpos hmax, if_pos (by omega), Nat.add_sub_cancel_left]

end Bytes

namespace Display

variable {d : Display} {x y x' y' k k' o color : Nat} {m m' : Mem}

theorem physWidth_pos (d : Display) : 0 < d.vesaPhysWidth := by
  have hne := (vesaInit_some d.accepted).1
  have hzero : d.mode.width.toNat ≠ 0 := fun h => hne (UInt16.toNat_inj.mp h)
  exact Nat.pos_of_ne_zero hzero

theorem physHeight_pos (d : Display) : 0 < d.vesaPhysHeight := by
  have hne := (vesaInit_some d.accepted).2.1
  have hzero : d.mode.height.toNat ≠ 0 := fun h => hne (UInt16.toNat_inj.mp h)
  exact Nat.pos_of_ne_zero hzero

theorem physWidth_lt (d : Display) : d.vesaPhysWidth < 2 ^ 16 := d.mode.width.toNat_lt

theorem physHeight_lt (d : Display) : d.vesaPhysHeight < 2 ^ 16 := d.mode.height.toNat_lt

theorem pitch_lt (d : Display) : d.pitch < 2 ^ 16 := d.mode.pitch.toNat_lt

theorem bytes_pos (d : Display) : 0 < d.bytesPerPixel := (vesaInit_some d.accepted).2.2.2.1

theorem bytes_le (d : Display) : d.bytesPerPixel ≤ 4 := (vesaInit_some d.accepted).2.2.2.2.1

theorem row_le_pitch (d : Display) : d.vesaPhysWidth * d.bytesPerPixel ≤ d.pitch :=
  (vesaInit_some d.accepted).2.2.2.2.2

structure Inside (d : Display) (x y : Nat) : Prop where
  col : x < d.vesaLogicalWidth
  row : y < d.vesaLogicalHeight

theorem not_inside : ¬d.Inside x y ↔ d.vesaLogicalWidth ≤ x ∨ d.vesaLogicalHeight ≤ y := by
  constructor
  · intro h
    by_contra hc
    exact h ⟨by omega, by omega⟩
  · rintro h ⟨hx, hy⟩
    omega

theorem logicalWidth_lt (d : Display) : d.vesaLogicalWidth < 2 ^ 16 := by
  have hw := d.physWidth_lt
  have hh := d.physHeight_lt
  unfold vesaLogicalWidth
  split <;> assumption

theorem logicalHeight_lt (d : Display) : d.vesaLogicalHeight < 2 ^ 16 := by
  have hw := d.physWidth_lt
  have hh := d.physHeight_lt
  unfold vesaLogicalHeight
  split <;> assumption

theorem mapXy_eq (h : d.Inside x y) : d.vesaMapXy x y =
    match d.rotation with
    | .deg90 => (y, d.vesaPhysHeight - 1 - x)
    | .deg180 => (d.vesaPhysWidth - 1 - x, d.vesaPhysHeight - 1 - y)
    | .deg270 => (d.vesaPhysWidth - 1 - y, x)
    | .deg0 => (x, y) := by
  have hw := d.physWidth_lt
  have hh := d.physHeight_lt
  have hw0 := d.physWidth_pos
  have hh0 := d.physHeight_pos
  obtain ⟨hx, hy⟩ := h
  simp only [vesaLogicalWidth, vesaLogicalHeight] at hx hy
  unfold vesaMapXy
  cases hr : d.rotation with
  | deg0 => rfl
  | deg90 =>
    simp only [hr, reduceCtorEq, or_false, if_true] at hx
    simp only [sub32, Prod.mk.injEq, true_and]
    omega
  | deg180 =>
    simp only [hr, reduceCtorEq, or_self, if_false] at hx hy
    simp only [sub32, Prod.mk.injEq]
    omega
  | deg270 =>
    simp only [hr, reduceCtorEq, false_or, if_true] at hy
    simp only [sub32, Prod.mk.injEq, and_true]
    omega

theorem mapXy_inside (h : d.Inside x y) :
    (d.vesaMapXy x y).1 < d.vesaPhysWidth ∧ (d.vesaMapXy x y).2 < d.vesaPhysHeight := by
  have hw0 := d.physWidth_pos
  have hh0 := d.physHeight_pos
  rw [mapXy_eq h]
  obtain ⟨hx, hy⟩ := h
  simp only [vesaLogicalWidth, vesaLogicalHeight] at hx hy
  cases hr : d.rotation <;> simp only [hr, reduceCtorEq, or_false, or_self, false_or, if_true,
    if_false] at hx hy ⊢ <;> omega

theorem mapXy_inj (h : d.Inside x y) (h' : d.Inside x' y')
    (heq : d.vesaMapXy x y = d.vesaMapXy x' y') : x = x' ∧ y = y' := by
  rw [mapXy_eq h, mapXy_eq h'] at heq
  obtain ⟨hx, hy⟩ := h
  obtain ⟨hx', hy'⟩ := h'
  simp only [vesaLogicalWidth, vesaLogicalHeight] at hx hy hx' hy'
  cases hr : d.rotation <;> simp only [hr, reduceCtorEq, or_false, or_self, false_or, if_true,
    if_false, Prod.mk.injEq] at hx hy hx' hy' heq <;> omega

theorem mapXy_surj {px py : Nat} (hpx : px < d.vesaPhysWidth) (hpy : py < d.vesaPhysHeight) :
    ∃ x y, d.Inside x y ∧ d.vesaMapXy x y = (px, py) := by
  obtain ⟨x, y, hx, hy, hp⟩ : ∃ x y, x < d.vesaLogicalWidth ∧ y < d.vesaLogicalHeight ∧
      (match d.rotation with
        | .deg90 => (y, d.vesaPhysHeight - 1 - x)
        | .deg180 => (d.vesaPhysWidth - 1 - x, d.vesaPhysHeight - 1 - y)
        | .deg270 => (d.vesaPhysWidth - 1 - y, x)
        | .deg0 => (x, y)) = (px, py) := by
    simp only [vesaLogicalWidth, vesaLogicalHeight]
    cases hr : d.rotation with
    | deg0 => exact ⟨px, py, by simpa using hpx, by simpa using hpy, rfl⟩
    | deg90 =>
      refine ⟨d.vesaPhysHeight - 1 - py, px, ?_, by simpa using hpx, ?_⟩
      · simp only [reduceCtorEq, or_false, if_true]
        omega
      · simp only [Prod.mk.injEq, true_and]
        omega
    | deg180 =>
      refine ⟨d.vesaPhysWidth - 1 - px, d.vesaPhysHeight - 1 - py, ?_, ?_, ?_⟩
      · simp only [reduceCtorEq, or_self, if_false]
        omega
      · simp only [reduceCtorEq, or_self, if_false]
        omega
      · simp only [Prod.mk.injEq]
        omega
    | deg270 =>
      refine ⟨py, d.vesaPhysWidth - 1 - px, by simpa using hpy, ?_, ?_⟩
      · simp only [reduceCtorEq, false_or, if_true]
        omega
      · simp only [Prod.mk.injEq, and_true]
        omega
  exact ⟨x, y, ⟨hx, hy⟩, (mapXy_eq ⟨hx, hy⟩).trans hp⟩

theorem cell_unique {p q q' r r' : Nat} (hr : r < p) (hr' : r' < p)
    (h : q * p + r = q' * p + r') : q = q' ∧ r = r' := by
  have hp : 0 < p := Nat.lt_of_le_of_lt (Nat.zero_le r) hr
  have hq : (q * p + r) / p = (q' * p + r') / p := by rw [h]
  rw [Nat.mul_comm, Nat.mul_add_div hp, Nat.mul_comm, Nat.mul_add_div hp, Nat.div_eq_of_lt hr,
    Nat.div_eq_of_lt hr'] at hq
  have hqq : q = q' := hq
  subst hqq
  exact ⟨rfl, Nat.add_left_cancel h⟩

theorem cell_le_row (d : Display) {px k : Nat} (hpx : px < d.vesaPhysWidth)
    (hk : k < d.bytesPerPixel) : px * d.bytesPerPixel + k < d.pitch := by
  have hrow := d.row_le_pitch
  have hcol : (px + 1) * d.bytesPerPixel ≤ d.vesaPhysWidth * d.bytesPerPixel :=
    Nat.mul_le_mul_right _ hpx
  rw [Nat.succ_mul] at hcol
  omega

theorem screen_lt (d : Display) : d.vesaPhysHeight * d.pitch < 2 ^ 32 - 4 := by
  have hh := d.physHeight_lt
  have hp := d.pitch_lt
  calc d.vesaPhysHeight * d.pitch ≤ (2 ^ 16 - 1) * (2 ^ 16 - 1) :=
        Nat.mul_le_mul (by omega) (by omega)
    _ < 2 ^ 32 - 4 := by decide

theorem row_lt_screen (d : Display) {py r : Nat} (hpy : py < d.vesaPhysHeight) (hr : r < d.pitch) :
    py * d.pitch + r < d.vesaPhysHeight * d.pitch := by
  have hrow : (py + 1) * d.pitch ≤ d.vesaPhysHeight * d.pitch := Nat.mul_le_mul_right _ hpy
  rw [Nat.succ_mul] at hrow
  omega

theorem offset_eq (h : d.Inside x y) : d.vesaCalculatePixelOffset x y =
    (d.vesaMapXy x y).2 * d.pitch + (d.vesaMapXy x y).1 * d.bytesPerPixel := by
  obtain ⟨hpx, hpy⟩ := mapXy_inside h
  have hcell := d.cell_le_row hpx d.bytes_pos
  have hall := d.row_lt_screen hpy hcell
  have hscreen := d.screen_lt
  simp only [vesaCalculatePixelOffset, add32, mul32]
  rw [Nat.mod_eq_of_lt (a := _ * d.pitch) (by omega),
    Nat.mod_eq_of_lt (a := _ * d.bytesPerPixel) (by omega), Nat.mod_eq_of_lt (by omega)]

theorem offset_lt (h : d.Inside x y) (hk : k < d.bytesPerPixel) :
    d.vesaCalculatePixelOffset x y + k < d.vesaPhysHeight * d.pitch := by
  obtain ⟨hpx, hpy⟩ := mapXy_inside h
  rw [offset_eq h, Nat.add_assoc]
  exact d.row_lt_screen hpy (d.cell_le_row hpx hk)

theorem pixel_unique (h : d.Inside x y) (h' : d.Inside x' y') (hk : k < d.bytesPerPixel)
    (hk' : k' < d.bytesPerPixel)
    (heq : d.vesaCalculatePixelOffset x y + k = d.vesaCalculatePixelOffset x' y' + k') :
    x = x' ∧ y = y' ∧ k = k' := by
  obtain ⟨hpx, -⟩ := mapXy_inside h
  obtain ⟨hpx', -⟩ := mapXy_inside h'
  rw [offset_eq h, offset_eq h', Nat.add_assoc, Nat.add_assoc] at heq
  obtain ⟨hrow, hcell⟩ := cell_unique (d.cell_le_row hpx hk) (d.cell_le_row hpx' hk') heq
  obtain ⟨hcol, hbyte⟩ := cell_unique hk hk' hcell
  obtain ⟨hx, hy⟩ := mapXy_inj h h' (Prod.ext hcol hrow)
  exact ⟨hx, hy, hbyte⟩

def value (d : Display) (m : Mem) (x y : Nat) : Nat :=
  pixelValue d.bytesPerPixel m (d.vesaCalculatePixelOffset x y)

theorem getPixel_eq (h : d.Inside x y) (m : Mem) :
    d.vesaGetPixel m x y = unpackColor d.mode (d.value m x y) := by
  rw [vesaGetPixel, if_neg (fun hc => not_inside.mpr hc h), loadPixel_eq d.bytes_pos d.bytes_le]
  rfl

theorem getPixel_outside (h : ¬d.Inside x y) (m : Mem) : d.vesaGetPixel m x y = 0 :=
  if_pos (not_inside.mp h)

theorem putPixel_outside (h : ¬d.Inside x y) (m : Mem) (color : Nat) :
    d.vesaPutPixel m x y color = m :=
  if_pos (not_inside.mp h)

theorem putPixel_eq (h : d.Inside x y) (m : Mem) (color : Nat) :
    d.vesaPutPixel m x y color =
      storePixel d.bytesPerPixel m (d.vesaCalculatePixelOffset x y) (packColor d.mode color) :=
  if_neg (fun hc => not_inside.mpr hc h)

theorem putPixel_byte (h : d.Inside x y) (m : Mem) (color : Nat) (hk : k < d.bytesPerPixel) :
    d.vesaPutPixel m x y color (d.vesaCalculatePixelOffset x y + k) =
      byte (packColor d.mode color) k := by
  rw [putPixel_eq h, storePixel_apply d.bytes_pos d.bytes_le, if_pos (by omega),
    Nat.add_sub_cancel_left]

theorem putPixel_other (h : d.Inside x y) (m : Mem) (color : Nat)
    (ho : ∀ k < d.bytesPerPixel, o ≠ d.vesaCalculatePixelOffset x y + k) :
    d.vesaPutPixel m x y color o = m o := by
  rw [putPixel_eq h, storePixel_apply d.bytes_pos d.bytes_le, if_neg]
  rintro ⟨hle, hlt⟩
  exact ho (o - d.vesaCalculatePixelOffset x y) (by omega) (by omega)

theorem value_put_same (h : d.Inside x y) (m : Mem) (color : Nat) :
    d.value (d.vesaPutPixel m x y color) x y = packColor d.mode color % 2 ^ (8 * d.bytesPerPixel) := by
  rw [putPixel_eq h]
  exact pixelValue_store d.bytes_pos d.bytes_le m _ _

theorem value_put_other (h : d.Inside x y) (h' : d.Inside x' y') (hne : ¬(x = x' ∧ y = y'))
    (m : Mem) (color : Nat) : d.value (d.vesaPutPixel m x y color) x' y' = d.value m x' y' := by
  refine pixelValue_congr _ _ fun k hk => putPixel_other h m color fun k' hk' heq => hne ?_
  obtain ⟨hx, hy, -⟩ := pixel_unique h' h hk hk' heq
  exact ⟨hx.symm, hy.symm⟩

end Display

end HouseOS.Vesa
