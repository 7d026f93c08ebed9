import HouseOS.Vesa.Pixel

namespace HouseOS.Vesa

open HouseOS.ByteMem HouseOS.Word

section Scale

theorem toMask_lt {v n : Nat} (hv : v < 256) (hn : n < 8) : scaleComponentToMask v n < 2 ^ n := by
  unfold scaleComponentToMask
  interval_cases n <;> simp <;> omega

theorem toMask_full {n : Nat} (hn : n < 8) : scaleComponentToMask 255 n = 2 ^ n - 1 := by
  interval_cases n <;> rfl

theorem fromMask_lt (t n : Nat) : scaleComponentFromMask t n < 256 := by
  unfold scaleComponentFromMask
  split
  · decide
  split <;> exact Nat.mod_lt _ (by decide)

theorem toMask_fromMask_small : ∀ n < 8, ∀ t < 2 ^ n,
    scaleComponentToMask (scaleComponentFromMask t n) n = t := by
  decide

theorem fromMask_small_lt : ∀ n < 8, ∀ t < 2 ^ n - 1, scaleComponentFromMask t n < 255 := by
  decide

end Scale

namespace Field

variable {f : Field} {p v : Nat}

-- the bits that really hold the component: at most eight, from the position modulo 32 on
def width (f : Field) : Nat := if f.bits < 8 then f.bits else min 8 (f.bits % 32)

def low (f : Field) : Nat := f.shift % 32

def level (f : Field) (packed : Nat) : Nat := packed >>> f.low % 2 ^ f.width

theorem ones_eq (f : Field) : f.ones = 2 ^ (f.bits % 32) - 1 := by
  have hlt : f.bits % 32 < 32 := Nat.mod_lt _ (by decide)
  have hpow : 2 ^ (f.bits % 32) < 2 ^ 32 := Nat.pow_lt_pow_right (by decide) hlt
  rw [ones, shl32, Nat.one_shiftLeft, Nat.mod_eq_of_lt hpow, sub32_eq hpow Nat.one_le_two_pow]

theorem and_ones (f : Field) (x : Nat) : x &&& f.ones = x % 2 ^ (f.bits % 32) := by
  rw [ones_eq, Nat.and_two_pow_sub_one_eq_mod]

theorem mod_min_eight (x k : Nat) : x % 2 ^ min 8 k = x % 2 ^ k % 256 := by
  rw [show (256 : Nat) = 2 ^ 8 from rfl]
  rcases Nat.le_total 8 k with hk | hk
  · rw [Nat.min_eq_left hk, Nat.mod_mod_of_dvd _ (Nat.pow_dvd_pow 2 hk)]
  · rw [Nat.min_eq_right hk, Nat.mod_eq_of_lt (a := x % 2 ^ k)]
    exact Nat.lt_of_lt_of_le (Nat.mod_lt _ (Nat.two_pow_pos k)) (Nat.pow_le_pow_right (by decide) hk)

theorem unpack_eq (f : Field) (p : Nat) : f.unpack p = scaleComponentFromMask (f.level p) f.bits := by
  unfold unpack level shr32
  by_cases hzero : f.bits = 0
  · simp [scaleComponentFromMask, hzero]
  rw [if_neg hzero, and_ones]
  by_cases hsmall : f.bits < 8
  · rw [width, if_pos hsmall, Nat.mod_eq_of_lt (show f.bits < 32 by omega)]
    rfl
  · simp only [scaleComponentFromMask, if_neg hzero, if_pos (Nat.le_of_not_lt hsmall), width,
      if_neg hsmall, mod_min_eight, Nat.mod_mod]
    rfl

theorem pack_eq (f : Field) (hv : v < 256) :
    f.pack v = (scaleComponentToMask v f.bits % 2 ^ f.width) <<< f.low % 2 ^ 32 := by
  unfold pack shl32
  rw [and_ones]
  congr 2
  unfold width
  split
  next hsmall => rw [Nat.mod_eq_of_lt (a := f.bits) (by omega)]
  next hlarge =>
    have hzero : f.bits ≠ 0 := by omega
    simp only [scaleComponentToMask, if_neg hzero, if_pos (Nat.le_of_not_lt hlarge), mod_min_eight]
    rw [Nat.mod_eq_of_lt (a := v % _)]
    exact Nat.lt_of_le_of_lt (Nat.mod_le _ _) hv

theorem level_lt (f : Field) (p : Nat) : f.level p < 2 ^ f.width :=
  Nat.mod_lt _ (Nat.two_pow_pos _)

theorem width_le (f : Field) : f.width ≤ 8 := by
  unfold width
  split <;> omega

theorem unpack_lt (f : Field) (p : Nat) : f.unpack p < 256 := by
  rw [unpack_eq]
  exact fromMask_lt _ _

theorem toMask_fromMask {t : Nat} (ht : t < 2 ^ f.width) :
    scaleComponentToMask (scaleComponentFromMask t f.bits) f.bits = t := by
  by_cases hsmall : f.bits < 8
  · rw [width, if_pos hsmall] at ht
    exact toMask_fromMask_small f.bits hsmall t ht
  · have hzero : f.bits ≠ 0 := by omega
    have hpow : 2 ^ f.width ≤ 2 ^ 8 := Nat.pow_le_pow_right (by decide) f.width_le
    simp only [scaleComponentToMask, scaleComponentFromMask, if_neg hzero,
      if_pos (Nat.le_of_not_lt hsmall)]
    exact Nat.mod_eq_of_lt (Nat.lt_of_lt_of_le ht hpow)

theorem testBit_pack (f : Field) (hv : v < 256) (i : Nat) : (f.pack v).testBit i =
    (decide (i < 32) && (decide (f.low ≤ i) && (decide (i - f.low < f.width) &&
      (scaleComponentToMask v f.bits).testBit (i - f.low)))) := by
  rw [pack_eq f hv, Nat.testBit_mod_two_pow, Nat.testBit_shiftLeft, Nat.testBit_mod_two_pow]

theorem testBit_pack_full (f : Field) (i : Nat) : (f.pack 255).testBit i =
    (decide (i < 32) && (decide (f.low ≤ i) && decide (i - f.low < f.width))) := by
  rw [testBit_pack f (by decide)]
  by_cases hin : i - f.low < f.width
  · have hfull : (scaleComponentToMask 255 f.bits).testBit (i - f.low) = true := by
      by_cases hsmall : f.bits < 8
      · rw [width, if_pos hsmall] at hin
        rw [toMask_full hsmall, Nat.testBit_two_pow_sub_one]
        exact decide_eq_true hin
      · have hzero : f.bits ≠ 0 := by omega
        have hwidth := f.width_le
        rw [scaleComponentToMask, if_neg hzero, if_pos (Nat.le_of_not_lt hsmall),
          show (255 : Nat) = 2 ^ 8 - 1 from rfl, Nat.testBit_two_pow_sub_one]
        exact decide_eq_true (by omega)
    simp [hfull]
  · simp [hin]

theorem testBit_level (f : Field) (p i : Nat) :
    (f.level p).testBit i = (decide (i < f.width) && p.testBit (f.low + i)) := by
  rw [level, Nat.testBit_mod_two_pow, Nat.testBit_shiftRight]

theorem pack_unpack (f : Field) (p : Nat) : f.pack (f.unpack p) = p &&& f.pack 255 := by
  refine Nat.eq_of_testBit_eq fun i => ?_
  rw [testBit_pack f (f.unpack_lt p), Nat.testBit_and, testBit_pack_full, unpack_eq,
    toMask_fromMask (f.level_lt p), testBit_level]
  by_cases hle : f.low ≤ i
  · rw [Nat.add_sub_cancel' hle]
    by_cases hin : i - f.low < f.width <;> by_cases h32 : i < 32 <;> simp [hle, hin, h32]
  · simp [hle]

end Field

section Components

def argb (a r g b : Nat) : Nat := a <<< 24 ||| r <<< 16 ||| g <<< 8 ||| b

theorem or_reverse (a b c e : Nat) : a ||| b ||| c ||| e = e ||| c ||| b ||| a := by
  ac_rfl

theorem argb_eq {a r g b : Nat} (hr : r < 256) (hg : g < 256) (hb : b < 256) :
    argb a r g b = b + 256 * g + 65536 * r + 16777216 * a := by
  have h8 := or_shift_eq_add (k := 8) hb g
  have h16 := or_shift_eq_add (c := b + 2 ^ 8 * g) (k := 16) (by omega) r
  have h24 := or_shift_eq_add (c := b + 2 ^ 8 * g + 2 ^ 16 * r) (k := 24) (by omega) a
  rw [argb, or_reverse, h8, h16, h24]
  simp only [Nat.reducePow]

theorem byteOf (color k : Nat) : color >>> k &&& 0xFF = color / 2 ^ k % 256 := by
  rw [Nat.shiftRight_eq_div_pow]
  exact Nat.and_two_pow_sub_one_eq_mod _ 8

theorem argb_components {a r g b : Nat} (ha : a < 256) (hr : r < 256) (hg : g < 256) (hb : b < 256) :
    argb a r g b >>> 24 &&& 0xFF = a ∧ argb a r g b >>> 16 &&& 0xFF = r ∧
      argb a r g b >>> 8 &&& 0xFF = g ∧ argb a r g b &&& 0xFF = b := by
  have hlow : argb a r g b &&& 0xFF = argb a r g b % 256 := Nat.and_two_pow_sub_one_eq_mod _ 8
  rw [byteOf, byteOf, byteOf, hlow, argb_eq hr hg hb]
  omega

end Components

inductive Channel where
  | red
  | green
  | blue
  | alpha
  deriving DecidableEq

instance {P : Channel → Prop} [DecidablePred P] : Decidable (∀ c, P c) :=
  decidable_of_iff (P .red ∧ P .green ∧ P .blue ∧ P .alpha)
    ⟨fun ⟨hr, hg, hb, ha⟩ c => by cases c <;> assumption,
      fun h => ⟨h .red, h .green, h .blue, h .alpha⟩⟩

def Channel.shift : Channel → Nat
  | .red => 16
  | .green => 8
  | .blue => 0
  | .alpha => 24

def component (color : Nat) (c : Channel) : Nat := color >>> c.shift &&& 0xFF

def ModeInfo.field (m : ModeInfo) : Channel → Field
  | .red => m.red
  | .green => m.green
  | .blue => m.blue
  | .alpha => m.reserved

section Colour

variable {m : ModeInfo} {p n i color : Nat} {c : Channel}

theorem component_lt (color : Nat) (c : Channel) : component color c < 256 := by
  rw [component, byteOf]
  exact Nat.mod_lt _ (by decide)

theorem unpackColor_eq (m : ModeInfo) (p : Nat) : unpackColor m p =
    argb (m.reserved.unpack p) (m.red.unpack p) (m.green.unpack p) (m.blue.unpack p) := rfl

theorem component_argb (v : Channel → Nat) (hv : ∀ c, v c < 256) (c : Channel) :
    component (argb (v .alpha) (v .red) (v .green) (v .blue)) c = v c := by
  obtain ⟨ha, hr, hg, hb⟩ := argb_components (hv .alpha) (hv .red) (hv .green) (hv .blue)
  cases c <;> assumption

theorem component_unpackColor (m : ModeInfo) (p : Nat) (c : Channel) :
    component (unpackColor m p) c = (m.field c).unpack p :=
  component_argb (fun c => (m.field c).unpack p) (fun c => (m.field c).unpack_lt p) c

theorem pack_zero_bits {f : Field} (h : f.bits = 0) (v : Nat) : f.pack v = 0 := by
  simp [Field.pack, scaleComponentToMask, h, shl32]

theorem vesaPackColor_eq (m : ModeInfo) (r g b a : Nat) : vesaPackColor m r g b a =
    m.red.pack r ||| m.green.pack g ||| m.blue.pack b ||| m.reserved.pack a := by
  unfold vesaPackColor
  split
  next h => rw [pack_zero_bits h]
  next => rfl

theorem testBit_packColor : (packColor m color).testBit i = true ↔
    ∃ c, ((m.field c).pack (component color c)).testBit i = true := by
  rw [packColor, vesaPackColor_eq]
  simp only [Nat.testBit_or, Bool.or_eq_true]
  constructor
  · rintro (((h | h) | h) | h)
    exacts [⟨.red, h⟩, ⟨.green, h⟩, ⟨.blue, h⟩, ⟨.alpha, h⟩]
  · rintro ⟨c, h⟩
    cases c
    exacts [.inl (.inl (.inl h)), .inl (.inl (.inr h)), .inl (.inr h), .inr h]

def colourBits (m : ModeInfo) : Nat := packColor m 0xFFFFFFFF

theorem testBit_colourBits : (colourBits m).testBit i = true ↔
    ∃ c, ((m.field c).pack 255).testBit i = true := by
  rw [colourBits, testBit_packColor]
  have hfull (c : Channel) : component 0xFFFFFFFF c = 255 := by cases c <;> rfl
  simp only [hfull]

theorem pack_unpackColor (m : ModeInfo) (p : Nat) :
    packColor m (unpackColor m p) = p &&& colourBits m := by
  refine Nat.eq_of_testBit_eq fun i => Bool.eq_iff_iff.mpr ?_
  rw [testBit_packColor, Nat.testBit_and, Bool.and_eq_true, testBit_colourBits]
  simp only [component_unpackColor, Field.pack_unpack, Nat.testBit_and, Bool.and_eq_true]
  exact exists_and_left

theorem level_and_colourBits (c : Channel) (hp : p < 2 ^ 32) :
    (m.field c).level (p &&& colourBits m) = (m.field c).level p := by
  refine Nat.eq_of_testBit_eq fun i => ?_
  rw [Field.testBit_level, Field.testBit_level, Nat.testBit_and]
  by_cases hi : i < (m.field c).width
  · by_cases h32 : (m.field c).low + i < 32
    · have hbit : (colourBits m).testBit ((m.field c).low + i) = true := by
        refine testBit_colourBits.mpr ⟨c, ?_⟩
        rw [Field.testBit_pack_full]
        simp [h32, hi]
      rw [hbit, Bool.and_true]
    · have hnone : p.testBit ((m.field c).low + i) = false := Nat.testBit_lt_two_pow
        (Nat.lt_of_lt_of_le hp (Nat.pow_le_pow_right (by decide) (by omega)))
      rw [hnone, Bool.false_and]
  · simp [hi]

theorem unpack_and_colourBits (c : Channel) (hp : p < 2 ^ 32) :
    (m.field c).unpack (p &&& colourBits m) = (m.field c).unpack p := by
  rw [Field.unpack_eq, Field.unpack_eq, level_and_colourBits c hp]

theorem unpackColor_congr {q : Nat} (h : ∀ c, (m.field c).unpack p = (m.field c).unpack q) :
    unpackColor m p = unpackColor m q := by
  rw [unpackColor_eq, unpackColor_eq]
  exact congr (congr (congr (congrArg argb (h .alpha)) (h .red)) (h .green)) (h .blue)

theorem unpackColor_and_colourBits (m : ModeInfo) (hp : p < 2 ^ 32) :
    unpackColor m (p &&& colourBits m) = unpackColor m p :=
  unpackColor_congr fun c => unpack_and_colourBits c hp

theorem unpackColor_put_back (m : ModeInfo) (hn : n ≤ 4) (hp : p < 2 ^ (8 * n)) :
    unpackColor m (packColor m (unpackColor m p) % 2 ^ (8 * n)) = unpackColor m p := by
  have h32 : p < 2 ^ 32 := Nat.lt_of_lt_of_le hp (Nat.pow_le_pow_right (by decide) (by omega))
  rw [pack_unpackColor, Nat.mod_eq_of_lt (Nat.lt_of_le_of_lt Nat.and_le_left hp)]
  exact unpackColor_and_colourBits m h32

end Colour

section Disjoint

variable {m : ModeInfo} {f g : Field} {v n i color : Nat} {c : Channel}

def Field.StoredIn (f : Field) (n : Nat) : Prop := f.bits = 0 ∨ f.shift + f.bits ≤ n

def Field.Apart (f g : Field) : Prop :=
  f.bits = 0 ∨ g.bits = 0 ∨ f.shift + f.bits ≤ g.shift ∨ g.shift + g.bits ≤ f.shift

structure WellFormed (m : ModeInfo) : Prop where
  bpp : m.bpp.toNat ≤ 32
  small : ∀ c, (m.field c).bits ≤ 8
  inside : ∀ c, (m.field c).StoredIn m.bpp.toNat
  apart : ∀ c c', c ≠ c' → (m.field c).Apart (m.field c')

instance : Decidable (f.StoredIn n) := inferInstanceAs (Decidable (_ ∨ _))

instance : Decidable (f.Apart g) := inferInstanceAs (Decidable (_ ∨ _ ∨ _ ∨ _))

instance : Decidable (WellFormed m) :=
  decidable_of_iff (m.bpp.toNat ≤ 32 ∧ (∀ c, (m.field c).bits ≤ 8) ∧
      (∀ c, (m.field c).StoredIn m.bpp.toNat) ∧ ∀ c c', c ≠ c' → (m.field c).Apart (m.field c'))
    ⟨fun ⟨hbpp, hsmall, hinside, hapart⟩ => ⟨hbpp, hsmall, hinside, hapart⟩,
      fun h => ⟨h.bpp, h.small, h.inside, h.apart⟩⟩

theorem Field.StoredIn.mono {n n' : Nat} (h : f.StoredIn n) (hn : n ≤ n') : f.StoredIn n' :=
  h.imp_right fun hle => Nat.le_trans hle hn

theorem WellFormed.word (h : WellFormed m) (c : Channel) : (m.field c).StoredIn 32 :=
  (h.inside c).mono h.bpp

theorem Field.width_eq (h : f.bits ≤ 8) : f.width = f.bits := by
  unfold Field.width
  split <;> omega

theorem Field.StoredIn.bit (h : f.StoredIn n) (hn : n ≤ 32) (hf : f.bits ≤ 8) (hi : i < f.width) :
    f.low + i = f.shift + i ∧ i < f.bits ∧ f.low + i < n := by
  rw [Field.width_eq hf] at hi
  have hle := h.resolve_left (by omega)
  have hlow : f.low = f.shift := Nat.mod_eq_of_lt (by omega)
  omega

theorem Field.testBit_pack_apart (hf : f.bits ≤ 8) (hg : g.bits ≤ 8) (hfin : f.StoredIn 32)
    (hgin : g.StoredIn 32) (hfg : f.Apart g) (hv : v < 256) (hi : i < f.width) :
    (g.pack v).testBit (f.low + i) = false := by
  by_cases hg0 : g.bits = 0
  · rw [pack_zero_bits hg0, Nat.zero_testBit]
  obtain ⟨hbit, hlt, -⟩ := hfin.bit (Nat.le_refl _) hf hi
  have hle := hgin.resolve_left hg0
  have hlow : g.low = g.shift := Nat.mod_eq_of_lt (by omega)
  have hapart := (hfg.resolve_left (by omega)).resolve_left hg0
  rw [Field.testBit_pack g hv, Field.width_eq hg, hlow, hbit]
  by_cases hge : g.shift ≤ f.shift + i
  · have hout : ¬f.shift + i - g.shift < g.bits := by omega
    simp [hout]
  · simp [hge]

theorem toMask_lt_width (hf : f.bits ≤ 8) (hv : v < 256) :
    scaleComponentToMask v f.bits < 2 ^ f.width := by
  rw [Field.width_eq hf]
  rcases Nat.lt_or_ge f.bits 8 with hlt | hge
  · exact toMask_lt hv hlt
  · have h8 : f.bits = 8 := by omega
    rw [h8]
    exact hv

theorem WellFormed.level (h : WellFormed m) (c : Channel) (color : Nat) :
    (m.field c).level (packColor m color) =
      scaleComponentToMask (component color c) (m.field c).bits := by
  refine Nat.eq_of_testBit_eq fun i => ?_
  rw [Field.testBit_level]
  by_cases hi : i < (m.field c).width
  · obtain ⟨-, -, h32⟩ := (h.word c).bit (Nat.le_refl _) (h.small c) hi
    rw [decide_eq_true hi, Bool.true_and]
    refine Bool.eq_iff_iff.mpr ⟨fun hbit => ?_, fun hbit => ?_⟩
    · obtain ⟨c', hc'⟩ := testBit_packColor.mp hbit
      by_cases hcc : c = c'
      · subst hcc
        rw [Field.testBit_pack _ (component_lt color c), Nat.add_sub_cancel_left] at hc'
        simpa [h32, hi] using hc'
      · rw [Field.testBit_pack_apart (h.small c) (h.small c') (h.word c) (h.word c')
          (h.apart c c' hcc) (component_lt color c') hi] at hc'
        cases hc'
    · refine testBit_packColor.mpr ⟨c, ?_⟩
      rw [Field.testBit_pack _ (component_lt color c), Nat.add_sub_cancel_left]
      simp [h32, hi, hbit]
  · have hbig : (scaleComponentToMask (component color c) (m.field c).bits).testBit i = false :=
      Nat.testBit_lt_two_pow (Nat.lt_of_lt_of_le
        (toMask_lt_width (h.small c) (component_lt color c))
        (Nat.pow_le_pow_right (by decide) (Nat.le_of_not_lt hi)))
    rw [hbig]
    simp [hi]

-- reading a stored colour sees, of each field, the bits below `8 * n`
theorem Field.level_stored {p : Nat} (hf : f.bits ≤ 8) (hin : f.StoredIn (8 * n)) (hn : n ≤ 4) :
    f.level (p % 2 ^ (8 * n)) = f.level p := by
  refine Nat.eq_of_testBit_eq fun i => ?_
  rw [Field.testBit_level, Field.testBit_level, Nat.testBit_mod_two_pow]
  by_cases hi : i < f.width
  · obtain ⟨-, -, hlt⟩ := hin.bit (by omega) hf hi
    simp [hlt]
  · simp [hi]

def Field.quantise (f : Field) (v : Nat) : Nat :=
  scaleComponentFromMask (scaleComponentToMask v f.bits) f.bits

def quantised (m : ModeInfo) (color : Nat) : Nat :=
  argb (m.reserved.quantise (component color .alpha)) (m.red.quantise (component color .red))
    (m.green.quantise (component color .green)) (m.blue.quantise (component color .blue))

theorem component_quantised (m : ModeInfo) (color : Nat) (c : Channel) :
    component (quantised m color) c = (m.field c).quantise (component color c) :=
  component_argb (fun c => (m.field c).quantise (component color c)) (fun _ => fromMask_lt _ _) c

theorem unpackColor_quantised {p : Nat}
    (h : ∀ c, (m.field c).unpack p = (m.field c).quantise (component color c)) :
    unpackColor m p = quantised m color := by
  rw [unpackColor_eq, quantised]
  exact congr (congr (congr (congrArg argb (h .alpha)) (h .red)) (h .green)) (h .blue)

theorem WellFormed.unpack_stored (h : WellFormed m) (hn : n ≤ 4) (c : Channel)
    (hin : (m.field c).StoredIn (8 * n)) (color : Nat) :
    (m.field c).unpack (packColor m color % 2 ^ (8 * n)) =
      (m.field c).quantise (component color c) := by
  rw [Field.unpack_eq, Field.level_stored (h.small c) hin hn, h.level]
  rfl

theorem Field.quantise_full (h0 : f.bits ≠ 0) (h8 : f.bits ≤ 8) : f.quantise 255 = 255 := by
  unfold Field.quantise
  interval_cases f.bits <;> first | rfl | exact absurd rfl h0

-- a field that reaches beyond the stored bytes loses its top bit
theorem WellFormed.unpack_cut (h : WellFormed m) (c : Channel)
    (hout : ¬(m.field c).StoredIn (8 * n)) :
    (m.field c).unpack (packColor m 0xFFFFFFFF % 2 ^ (8 * n)) < 255 := by
  obtain ⟨f, hf⟩ : ∃ f, m.field c = f := ⟨_, rfl⟩
  have hsmall := h.small c
  have hword := h.word c
  rw [hf] at hout hsmall hword ⊢
  have h0 : f.bits ≠ 0 := fun hz => hout (Or.inl hz)
  have hpast : 8 * n < f.shift + f.bits := Nat.lt_of_not_le fun hle => hout (Or.inr hle)
  have hwidth := Field.width_eq hsmall
  obtain ⟨htop, -, -⟩ := hword.bit (Nat.le_refl _) hsmall (i := f.bits - 1) (by omega)
  have hbit : (f.level (packColor m 0xFFFFFFFF % 2 ^ (8 * n))).testBit (f.bits - 1) = false := by
    rw [Field.testBit_level, Nat.testBit_mod_two_pow, htop,
      decide_eq_false (show ¬f.shift + (f.bits - 1) < 8 * n by omega)]
    simp
  have hne : f.level (packColor m 0xFFFFFFFF % 2 ^ (8 * n)) ≠ 2 ^ f.bits - 1 := by
    intro heq
    rw [heq, Nat.testBit_two_pow_sub_one, decide_eq_true (by omega)] at hbit
    cases hbit
  have hlt := f.level_lt (packColor m 0xFFFFFFFF % 2 ^ (8 * n))
  rw [hwidth] at hlt
  rw [Field.unpack_eq]
  rcases Nat.lt_or_ge f.bits 8 with hlt8 | hge8
  · exact fromMask_small_lt f.bits hlt8 _ (by omega)
  · have h8 : f.bits = 8 := by omega
    rw [h8] at hlt hne ⊢
    have hpow : (2 : Nat) ^ 8 = 256 := rfl
    rw [hpow] at hlt hne
    simp only [scaleComponentFromMask]
    rw [if_neg (by decide), if_pos (by decide)]
    omega

end Disjoint

namespace Display

variable {d : Display} {x y x' y' color : Nat} {m : Mem}

theorem mapXy_bijOn (d : Display) : Set.BijOn (fun p : Nat × Nat => d.vesaMapXy p.1 p.2)
    {p | d.Inside p.1 p.2} {q | q.1 < d.vesaPhysWidth ∧ q.2 < d.vesaPhysHeight} := by
  refine ⟨fun p hp => mapXy_inside hp, ?_, ?_⟩
  · rintro ⟨x, y⟩ hp ⟨x', y'⟩ hp' heq
    obtain ⟨hx, hy⟩ := mapXy_inj hp hp' heq
    exact Prod.ext hx hy
  · rintro ⟨px, py⟩ ⟨hpx, hpy⟩
    obtain ⟨x, y, hin, hmap⟩ := mapXy_surj hpx hpy
    exact ⟨(x, y), hin, hmap⟩

structure WritesPixel (d : Display) (m : Mem) (x y : Nat) (m' : Mem) : Prop where
  bytes : ∀ o, (∀ k < d.bytesPerPixel, o ≠ d.vesaCalculatePixelOffset x y + k) → m' o = m o
  values : ∀ x' y', ¬(x = x' ∧ y = y') → d.vesaGetPixel m' x' y' = d.vesaGetPixel m x' y'

theorem putPixel_writes (hin : d.Inside x y) (m : Mem) (color : Nat) :
    d.WritesPixel m x y (d.vesaPutPixel m x y color) where
  bytes _ ho := putPixel_other hin m color ho
  values x' y' hne := by
    by_cases hin' : d.Inside x' y'
    · rw [getPixel_eq hin', getPixel_eq hin', value_put_other hin hin' hne]
    · rw [getPixel_outside hin', getPixel_outside hin']

theorem getPixel_put (hin : d.Inside x y) (m : Mem) (color : Nat) :
    d.vesaGetPixel (d.vesaPutPixel m x y color) x y =
      unpackColor d.mode (packColor d.mode color % 2 ^ (8 * d.bytesPerPixel)) := by
  rw [getPixel_eq hin, value_put_same hin]

theorem value_lt (d : Display) (m : Mem) (x y : Nat) :
    d.value m x y < 2 ^ (8 * d.bytesPerPixel) :=
  pixelValue_lt _ _ _

-- a pixel put back keeps its colour fields and loses its other bits
theorem value_put_back (hin : d.Inside x y) (m : Mem) :
    d.value (d.vesaPutPixel m x y (d.vesaGetPixel m x y)) x y =
      d.value m x y &&& colourBits d.mode := by
  rw [value_put_same hin, getPixel_eq hin, pack_unpackColor]
  exact Nat.mod_eq_of_lt (Nat.lt_of_le_of_lt Nat.and_le_left (d.value_lt m x y))

theorem put_back_eq_iff (hin : d.Inside x y) (m : Mem) :
    d.vesaPutPixel m x y (d.vesaGetPixel m x y) = m ↔
      d.value m x y &&& colourBits d.mode = d.value m x y := by
  constructor
  · intro heq
    have hval := value_put_back hin m
    rw [heq] at hval
    exact hval.symm
  · intro hval
    funext o
    by_cases ho : ∃ k < d.bytesPerPixel, o = d.vesaCalculatePixelOffset x y + k
    · obtain ⟨k, hk, rfl⟩ := ho
      rw [putPixel_byte hin m _ hk, getPixel_eq hin, pack_unpackColor, hval]
      exact byte_pixelValue hk m _
    · exact putPixel_other hin m _ fun k hk heq => ho ⟨k, hk, heq⟩

theorem get_put_quantised_iff (hm : WellFormed d.mode) :
    (∀ m x y color, d.Inside x y →
      d.vesaGetPixel (d.vesaPutPixel m x y color) x y = quantised d.mode color) ↔
      ∀ c, (d.mode.field c).StoredIn (8 * d.bytesPerPixel) := by
  constructor
  · intro hget c
    by_contra hout
    obtain ⟨x, y, hin, -⟩ := mapXy_surj d.physWidth_pos d.physHeight_pos
    have hsame := hget (fun _ => 0) x y 0xFFFFFFFF hin
    rw [getPixel_put hin] at hsame
    have hcomp := congrArg (component · c) hsame
    simp only [component_unpackColor, component_quantised] at hcomp
    have hfull : component 0xFFFFFFFF c = 255 := by cases c <;> rfl
    have hcut := hm.unpack_cut c hout
    rw [hcomp, hfull, Field.quantise_full (fun hz => hout (Or.inl hz)) (hm.small c)] at hcut
    exact Nat.lt_irrefl _ hcut
  · intro hstored m x y color hin
    rw [getPixel_put hin]
    exact unpackColor_quantised fun c => hm.unpack_stored d.bytes_le c (hstored c) color

theorem pixel_round_trip (d : Display) (hm : WellFormed d.mode) :
    Set.BijOn (fun p : Nat × Nat => d.vesaMapXy p.1 p.2) {p | d.Inside p.1 p.2}
        {q | q.1 < d.vesaPhysWidth ∧ q.2 < d.vesaPhysHeight} ∧
      (∀ m x y color, d.Inside x y → d.WritesPixel m x y (d.vesaPutPixel m x y color)) ∧
      ((∀ c, (d.mode.field c).StoredIn (8 * d.bytesPerPixel)) → ∀ m x y color, d.Inside x y →
        d.vesaGetPixel (d.vesaPutPixel m x y color) x y = quantised d.mode color) ∧
      ∀ m x y, d.Inside x y →
        d.value (d.vesaPutPixel m x y (d.vesaGetPixel m x y)) x y =
          d.value m x y &&& colourBits d.mode ∧
        d.vesaGetPixel (d.vesaPutPixel m x y (d.vesaGetPixel m x y)) x y = d.vesaGetPixel m x y ∧
        (d.vesaPutPixel m x y (d.vesaGetPixel m x y) = m ↔
          d.value m x y &&& colourBits d.mode = d.value m x y) := by
  refine ⟨d.mapXy_bijOn, fun m x y color hin => putPixel_writes hin m color,
    (get_put_quantised_iff hm).mpr, fun m x y hin => ⟨value_put_back hin m, ?_, put_back_eq_iff hin m⟩⟩
  rw [getPixel_put hin, getPixel_eq hin]
  exact unpackColor_put_back d.mode d.bytes_le (d.value_lt m x y)

theorem pixel_round_trip_rotated : WellFormed (screen8888 .deg90).mode ∧
    ∀ m x y, (screen8888 .deg90).Inside x y →
      (screen8888 .deg90).value ((screen8888 .deg90).vesaPutPixel m x y
        ((screen8888 .deg90).vesaGetPixel m x y)) x y =
          (screen8888 .deg90).value m x y &&& colourBits (screen8888 .deg90).mode ∧
      (screen8888 .deg90).vesaGetPixel ((screen8888 .deg90).vesaPutPixel m x y
        ((screen8888 .deg90).vesaGetPixel m x y)) x y = (screen8888 .deg90).vesaGetPixel m x y ∧
      ((screen8888 .deg90).vesaPutPixel m x y ((screen8888 .deg90).vesaGetPixel m x y) = m ↔
        (screen8888 .deg90).value m x y &&& colourBits (screen8888 .deg90).mode =
          (screen8888 .deg90).value m x y) :=
  ⟨by decide, (pixel_round_trip (screen8888 .deg90) (by decide)).2.2.2⟩

-- 32 bits for each pixel, 24 of them in fields
def screen888 : Display :=
  { signature := Words.byteText "VESA", mode := { mode8888 4 2 with reserved := ⟨0, 0⟩ },
    bytesPerPixel := 4, rotation := .deg0, accepted := by decide }

theorem put_back_clears_padding : WellFormed screen888.mode ∧ screen888.Inside 0 0 ∧
    screen888.vesaPutPixel (fun _ => 0xFF) 0 0 (screen888.vesaGetPixel (fun _ => 0xFF) 0 0) ≠
      (fun _ => 0xFF) := by
  refine ⟨by decide, ⟨by decide, by decide⟩, fun heq => ?_⟩
  exact absurd (congrFun heq 3) (by decide)

end Display

end HouseOS.Vesa
