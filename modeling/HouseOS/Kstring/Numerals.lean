import HouseOS.Kstring.Model

namespace HouseOS.Kstring

open HouseOS.ByteMem
open HouseOS.Numeral

def numeralText (base n : Nat) : List UInt8 := (numeral base n).map digitChar

def intText (z : Int) : List UInt8 :=
  if z < 0 then 45 :: numeralText 10 z.natAbs else numeralText 10 z.natAbs

example : intText (-2147483648) = Words.byteText "-2147483648" := by decide

structure Leaves (m m' : Mem) (a : Nat) (text : List UInt8) : Prop where
  stands : CString m' a text
  same : ∀ x, x < a ∨ a + text.length < x → m' x = m x

theorem digitChar_ne_zero : ∀ d < 36, digitChar d ≠ 0 := by decide

theorem digitChar_decimal : ∀ d < 10, isdigit (digitChar d) = true ∧
    Int32.ofNat (digitChar d).toNat - 48 = Int32.ofNat d := by decide

theorem isdigit_plain : ∀ c : UInt8, isdigit c = true → isspace c = false ∧ c ≠ 45 ∧ c ≠ 43 := by
  intro c hc
  simp only [isdigit, Bool.and_eq_true, decide_eq_true_eq, UInt8.le_iff_toNat_le] at hc
  have hlow : 48 ≤ c.toNat := hc.1
  have hne : ∀ d : UInt8, d.toNat < 48 → c ≠ d := by
    rintro d hd rfl
    omega
  refine ⟨?_, hne 45 (by decide), hne 43 (by decide)⟩
  simp [isspace, hne 32 (by decide), hne 9 (by decide), hne 10 (by decide), hne 13 (by decide),
    hne 12 (by decide), hne 11 (by decide)]

section Swap

variable {m : Mem} {low ptr : Nat} {xs : List UInt8}

theorem swapEnds_apply (m : Mem) (low ptr x : Nat) : swapEnds m low ptr x =
    if low ≤ x ∧ x ≤ ptr then m (low + ptr - x) else m x := by
  fun_induction swapEnds m low ptr with
  | case1 m low ptr hlt ih =>
    rw [ih]
    by_cases hlow : x = low
    · subst hlow
      rw [if_neg (by omega), if_pos (by omega), store8_ne _ (by omega), Nat.add_sub_cancel_left]
      exact if_pos rfl
    · by_cases hptr : x = ptr
      · subst hptr
        rw [if_neg (by omega), if_pos (by omega), Nat.add_sub_cancel]
        exact if_pos rfl
      · by_cases hin : low + 1 ≤ x ∧ x ≤ ptr - 1
        · have hsum : low + 1 + (ptr - 1) - x = low + ptr - x := by omega
          rw [if_pos hin, if_pos (by omega), hsum, store8_ne _ (by omega), store8_ne _ (by omega)]
        · rw [if_neg hin, if_neg (by omega), store8_ne _ hptr, store8_ne _ hlow]
  | case2 m low ptr hle =>
    split
    · congr 1
      omega
    · rfl

theorem swapEnds_out {x : Nat} (h : x < low ∨ ptr < x) : swapEnds m low ptr x = m x := by
  rw [swapEnds_apply, if_neg (by omega)]

theorem bytesAt_swapEnds (h : BytesAt m low xs) (hne : xs ≠ []) :
    BytesAt (swapEnds m low (low + xs.length - 1)) low xs.reverse := by
  have hpos := List.length_pos_iff.mpr hne
  intro k c hc
  have hk : k < xs.length := by
    have := (List.getElem?_eq_some_iff.mp hc).1
    rwa [List.length_reverse] at this
  rw [List.getElem?_reverse hk] at hc
  have hmirror : low + (low + xs.length - 1) - (low + k) = low + (xs.length - 1 - k) := by omega
  rw [swapEnds_apply, if_pos (by omega), hmirror]
  exact h _ c hc

end Swap

section Digits

variable {base : Radix} {m : Mem} {low str : Nat} {uvalue : UInt32}

-- the digits go out with the last one first
theorem emit_eq (base : Radix) (m : Mem) (ptr : Nat) (uvalue : UInt32) : emit base m ptr uvalue =
    (storeBytes m ptr ((leastFirst base.val.toNat uvalue.toNat).map digitChar),
      ptr + (leastFirst base.val.toNat uvalue.toNat).length) := by
  have hstep := fun uvalue : UInt32 => leastFirst_step base.property.1 uvalue.toNat
  fun_induction emit base m ptr uvalue with
  | case1 m ptr uvalue m' hlast =>
    have hzero : uvalue.toNat / base.val.toNat = 0 := by
      rw [← UInt32.toNat_div, hlast]
      rfl
    rw [hstep, if_pos hzero, ← UInt32.toNat_mod]
    rfl
  | case2 m ptr uvalue m' hmore ih =>
    have hnz : ¬uvalue.toNat / base.val.toNat = 0 := by
      rw [← UInt32.toNat_div]
      exact fun h => hmore (UInt32.toNat_inj.mp h)
    rw [ih, UInt32.toNat_div, hstep uvalue, if_neg hnz, ← UInt32.toNat_mod, List.map_cons,
      storeBytes, List.length_cons, Nat.add_assoc, Nat.add_comm 1]

theorem zero_not_mem_numeralText (base : Radix) (n : Nat) :
    0 ∉ numeralText base.val.toNat n := by
  intro h
  obtain ⟨d, hd, hzero⟩ := List.mem_map.mp h
  have hlt := numeral_lt base.property.1 hd
  exact digitChar_ne_zero d (Nat.lt_of_lt_of_le hlt base.property.2) hzero

theorem putDigits_leaves (m : Mem) (low : Nat) (uvalue : UInt32) (base : Radix) :
    Leaves m (putDigits m low uvalue base) low (numeralText base.val.toNat uvalue.toNat) := by
  rw [putDigits, emit_eq]
  set ds := (leastFirst base.val.toNat uvalue.toNat).map digitChar with hds
  have hlen : (leastFirst base.val.toNat uvalue.toNat).length = ds.length := by
    rw [hds, List.length_map]
  have hne : ds ≠ [] := by
    rw [hds, leastFirst_step base.property.1]
    simp
  have hpos := List.length_pos_iff.mpr hne
  have htext : numeralText base.val.toNat uvalue.toNat = ds.reverse := by
    rw [numeralText, numeral, List.map_reverse]
  have hstored := bytesAt_store8_apart (a := low + ds.length) (c := 0)
    (bytesAt_storeBytes ds m low) (Or.inr (Nat.le_refl _))
  rw [htext]
  simp only [hlen]
  refine ⟨⟨bytesAt_swapEnds hstored hne, ?_, ?_⟩, fun x hx => ?_⟩
  · rw [List.length_reverse, swapEnds_out (by omega)]
    exact if_pos rfl
  · rw [← htext]
    exact zero_not_mem_numeralText base uvalue.toNat
  · rw [List.length_reverse] at hx
    rw [swapEnds_out (by omega), store8_ne _ (by omega), storeBytes_ne ds (by omega)]

end Digits

section Read

variable {m : Mem} {str fuel n : Nat} {ds : List Nat}

theorem skipSpaces_stop (hstop : isspace (m str) = false) (hfuel : 0 < fuel) :
    skipSpaces m fuel str = some str := by
  obtain ⟨fuel, rfl⟩ : ∃ k, fuel = k + 1 := ⟨fuel - 1, by omega⟩
  rw [skipSpaces, hstop, if_neg Bool.false_ne_true]

theorem readDigits_text (hds : ∀ d ∈ ds, d < 10) (htext : BytesAt m str (ds.map digitChar))
    (hend : isdigit (m (str + ds.length)) = false) (hfuel : ds.length < fuel) (v : Nat) :
    readDigits m fuel str (Int32.ofNat v) = some (Int32.ofNat (horner 10 v ds)) := by
  induction ds generalizing str fuel v with
  | nil =>
    obtain ⟨fuel, rfl⟩ : ∃ k, fuel = k + 1 := ⟨fuel - 1, by omega⟩
    rw [readDigits, if_neg (by simpa using hend)]
    rfl
  | cons d ds ih =>
    rw [List.length_cons] at hend hfuel
    obtain ⟨fuel, rfl⟩ : ∃ k, fuel = k + 1 := ⟨fuel - 1, by omega⟩
    obtain ⟨hd, hrest⟩ := List.forall_mem_cons.mp hds
    obtain ⟨hhead, htail⟩ := bytesAt_cons.mp htext
    obtain ⟨hdigit, hvalue⟩ := digitChar_decimal d hd
    have hnext : Int32.ofNat v * 10 + Int32.ofNat d = Int32.ofNat (v * 10 + d) := by
      rw [Int32.ofNat_add, Int32.ofNat_mul]
      rfl
    have hlater : isdigit (m (str + 1 + ds.length)) = false := by
      rwa [Nat.add_assoc, Nat.add_comm 1]
    rw [readDigits, hhead, if_pos hdigit, hvalue, hnext,
      ih hrest htail hlater (by omega)]
    rfl

theorem readDigits_numeral (h : CString m str (numeralText 10 n))
    (hfuel : (numeral 10 n).length < fuel) : readDigits m fuel str 0 = some (Int32.ofNat n) := by
  have hends := h.ends
  rw [numeralText, List.length_map] at hends
  have hread := readDigits_text (fun d hd => numeral_lt (by decide) hd) h.bytes
    (by rw [hends]; decide) hfuel 0
  rwa [horner_numeral] at hread

theorem first_digit (h : CString m str (numeralText 10 n)) : isdigit (m str) = true := by
  obtain ⟨d, ds, hnum⟩ := List.exists_cons_of_ne_nil (numeral_ne_nil (b := 10) (n := n) (by decide))
  have hd : d < 10 := numeral_lt (b := 10) (n := n) (by decide) (by rw [hnum]; exact List.mem_cons_self)
  rw [numeralText, hnum, List.map_cons] at h
  rw [(CString.cons_iff.mp h).1]
  exact (digitChar_decimal d hd).1

theorem atoi_numeral (h : CString m str (numeralText 10 n)) (hfuel : (numeral 10 n).length < fuel) :
    atoi m fuel str = some (Int32.ofNat n) := by
  obtain ⟨hspace, hminus, hplus⟩ := isdigit_plain _ (first_digit h)
  rw [atoi, skipSpaces_stop hspace (by omega), Option.bind_some, if_neg hminus, if_neg hplus]
  simp only [readDigits_numeral h hfuel, Option.map_some, Int32.one_mul]

theorem atoi_minus (h : CString m str (45 :: numeralText 10 n))
    (hfuel : (numeral 10 n).length < fuel) : atoi m fuel str = some (-Int32.ofNat n) := by
  obtain ⟨hminus, -, hrest⟩ := CString.cons_iff.mp h
  rw [atoi, skipSpaces_stop (by rw [hminus]; decide) (by omega), Option.bind_some, if_pos hminus]
  simp only [readDigits_numeral hrest hfuel, Option.map_some]
  rw [Int32.neg_mul, Int32.one_mul]

end Read

section Value

variable {value : Int32}

theorem toNat_of_nonneg (h : ¬value < 0) :
    value.toUInt32.toNat = value.toInt.natAbs ∧ Int32.ofNat value.toInt.natAbs = value := by
  have hnonneg : 0 ≤ value := Int32.not_lt.mp h
  have hint : 0 ≤ value.toInt := Int32.le_iff_toInt_le.mp hnonneg
  have habs : value.toInt.natAbs = value.toInt.toNat := by omega
  rw [habs]
  exact ⟨Int32.toNat_toUInt32_of_le hnonneg, Int32.ofNat_toNatClampNeg value hnonneg⟩

-- the least value too is its own sign and its magnitude
theorem toNat_of_neg (h : value < 0) :
    (0 - value.toUInt32).toNat = value.toInt.natAbs ∧
      -Int32.ofNat value.toInt.natAbs = value := by
  have hneg : value.toInt < 0 := Int32.lt_iff_toInt_lt.mp h
  have hcond : value.toInt =
      if 2 * value.toUInt32.toNat < 2 ^ 32 then (value.toUInt32.toNat : Int)
      else (value.toUInt32.toNat : Int) - 2 ^ 32 := BitVec.toInt_eq_toNat_cond value.toBitVec
  have hlt := value.toUInt32.toNat_lt
  constructor
  · rw [UInt32.toNat_sub]
    split at hcond
    · omega
    · simp only [UInt32.toNat_zero]
      omega
  · have habs : (-(value.toInt.natAbs : Int)) = value.toInt := by omega
    rw [← Int32.ofInt_eq_ofNat, ← Int32.ofInt_neg, habs, Int32.ofInt_toInt]

end Value

section RoundTrip

variable {m : Mem} {str : Nat} {base : Int32} {value : Int32}

theorem neg_iff : value < 0 ↔ value.toInt < 0 := Int32.lt_iff_toInt_lt

theorem radix?_of_range (hlow : 2 ≤ base) (hhigh : base ≤ 36) :
    ∃ radix, radix? base = some radix ∧ radix.val.toNat = base.toInt.toNat := by
  have hok : ¬(base < 2 ∨ 36 < base) := by
    rw [not_or, Int32.not_lt, Int32.not_lt]
    exact ⟨hlow, hhigh⟩
  exact ⟨_, dif_neg hok, (toNat_base hok).1⟩

theorem radix?_ten : ∃ radix, radix? 10 = some radix ∧ radix.val.toNat = 10 :=
  radix?_of_range (by decide) (by decide)

theorem utoa_leaves (m : Mem) (value : UInt32) (str : Nat) (hlow : 2 ≤ base) (hhigh : base ≤ 36) :
    Leaves m (utoa m value str base).1 str (numeralText base.toInt.toNat value.toNat) := by
  obtain ⟨radix, hradix, hbase⟩ := radix?_of_range hlow hhigh
  rw [utoa, hradix, ← hbase]
  exact putDigits_leaves m str value radix

theorem Leaves.cons {m' : Mem} {c : UInt8} {text : List UInt8} (hc : c ≠ 0)
    (h : Leaves (store8 m str c) m' (str + 1) text) : Leaves m m' str (c :: text) := by
  refine ⟨CString.cons_iff.mpr ⟨?_, hc, h.stands⟩, fun x hx => ?_⟩
  · rw [h.same str (by omega)]
    exact if_pos rfl
  · rw [List.length_cons] at hx
    rw [h.same x (by omega), store8_ne c (by omega)]

theorem itoa_leaves (m : Mem) (value : Int32) (str : Nat) :
    Leaves m (itoa m value str 10).1 str (intText value.toInt) := by
  obtain ⟨radix, hradix, hbase⟩ := radix?_ten
  rw [itoa, hradix, intText]
  by_cases hneg : value < 0
  · have hint := neg_iff.mp hneg
    have hput := putDigits_leaves (store8 m str 45) (str + 1) (0 - value.toUInt32) radix
    rw [hbase, (toNat_of_neg hneg).1] at hput
    simp only [hneg, hint, and_self, if_true]
    exact hput.cons (by decide)
  · have hint := mt neg_iff.mpr hneg
    have hput := putDigits_leaves m str value.toUInt32 radix
    rw [hbase, (toNat_of_nonneg hneg).1] at hput
    simp only [hneg, hint, false_and, if_false]
    exact hput

theorem length_numeral_value (value : Int32) : (numeral 10 value.toInt.natAbs).length ≤ 10 := by
  have hlow := value.le_toInt
  have hhigh := value.toInt_lt
  exact length_numeral_le (by decide) (by decide) (by omega)

theorem atoi_intText {fuel : Nat} (h : CString m str (intText value.toInt)) (hfuel : 10 < fuel) :
    atoi m fuel str = some value := by
  have hlen := length_numeral_value value
  rw [intText] at h
  by_cases hneg : value < 0
  · rw [if_pos (neg_iff.mp hneg)] at h
    rw [atoi_minus h (by omega), (toNat_of_neg hneg).2]
  · rw [if_neg (mt neg_iff.mpr hneg)] at h
    rw [atoi_numeral h (by omega), (toNat_of_nonneg hneg).2]

theorem integer_text (m : Mem) (str : Nat) :
    (∀ value : Int32,
      Leaves m (itoa m value str 10).1 str (intText value.toInt) ∧
        (itoa m value str 10).2 = str ∧
        ∀ fuel > 10, atoi (itoa m value str 10).1 fuel (itoa m value str 10).2 = some value) ∧
      ∀ (value : UInt32) (base : Int32), 2 ≤ base → base ≤ 36 →
        Leaves m (utoa m value str base).1 str (numeralText base.toInt.toNat value.toNat) ∧
          (utoa m value str base).2 = str := by
  have hitoa : ∀ value : Int32, (itoa m value str 10).2 = str := by
    intro value
    obtain ⟨radix, hradix, -⟩ := radix?_ten
    rw [itoa, hradix]
    dsimp only
    split <;> rfl
  refine ⟨fun value => ⟨itoa_leaves m value str, hitoa value, fun fuel hfuel => ?_⟩,
    fun value base hlow hhigh => ⟨utoa_leaves m value str hlow hhigh, ?_⟩⟩
  · rw [hitoa]
    exact atoi_intText (itoa_leaves m value str).stands hfuel
  · obtain ⟨radix, hradix, -⟩ := radix?_of_range hlow hhigh
    rw [utoa, hradix]

end RoundTrip

end HouseOS.Kstring
