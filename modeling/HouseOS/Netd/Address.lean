import HouseOS.Library.Builder
import HouseOS.Netd.Offer
import Mathlib.Data.Nat.Digits.Defs

namespace HouseOS.Netd

open HouseOS.Builder
open HouseOS.Composd (Text decimal decimalFrom)

def bufAppend (cap : Nat) (s : Text) : Appender UInt8 := fun dst =>
  if cap < dst.length + s.length + 1 then (false, dst) else (true, dst ++ s)

-- `t[16]`, filled from the last digit on
def decDigits : Nat → Nat → Text
  | 0, _ => []
  | n + 1, v => if v = 0 then [] else UInt8.ofNat (48 + v % 10) :: decDigits n (v / 10)

def u32ToDec (v cap : Nat) (out : Text) : Text :=
  if cap < 2 then out
  else if v = 0 then [48]
  else (decDigits 16 v).reverse.take (cap - 1)

def ipv4ToStr (ip cap : Nat) (out : Text) : Text :=
  if cap < 16 then out
  else
    let part (k : Nat) : Text := u32ToDec (ip >>> k &&& 255) 4 []
    lax [bufAppend cap (part 24), bufAppend cap [46], bufAppend cap (part 16), bufAppend cap [46],
      bufAppend cap (part 8), bufAppend cap [46], bufAppend cap (part 0)] []

section Accepted

structure IsDecimal (w : Text) (n : Nat) : Prop where
  ne_nil : w ≠ []
  digits : ∀ c ∈ w, 48 ≤ c ∧ c ≤ 57
  value : n = Nat.ofDigits 10 (w.map fun c => c.toNat - 48).reverse

variable {w s : Text} {n v : Nat}

theorem decimalFrom_iff : decimalFrom v w = some n ↔
    (∀ c ∈ w, 48 ≤ c ∧ c ≤ 57) ∧
      n = Nat.ofDigits 10 (w.map fun c => c.toNat - 48).reverse + 10 ^ w.length * v := by
  induction w generalizing v with
  | nil =>
    simp [decimalFrom, eq_comm]
  | cons c w ih =>
    rw [decimalFrom, digit?_isDigit]
    by_cases hc : isDigit c = true
    · have hdigit : 48 ≤ c ∧ c ≤ 57 := by simpa [isDigit] using hc
      rw [if_pos hc, Option.bind_some, ih, List.forall_mem_cons, and_iff_right hdigit, List.map_cons,
        List.reverse_cons, Nat.ofDigits_append, Nat.ofDigits_singleton, List.length_reverse,
        List.length_map, List.length_cons, pow_succ]
      refine and_congr_right fun _ => ?_
      have hsum : 10 ^ w.length * (v * 10 + (c.toNat - 48)) =
          10 ^ w.length * (c.toNat - 48) + 10 ^ w.length * 10 * v := by ring
      rw [hsum, Nat.add_assoc]
    · rw [if_neg hc]
      have hdigit : ¬(48 ≤ c ∧ c ≤ 57) := by simpa [isDigit] using hc
      refine ⟨(fun h => by cases h), fun h => absurd (h.1 c List.mem_cons_self) hdigit⟩

theorem decimal_iff : decimal w = some n ↔ IsDecimal w n := by
  rw [decimal]
  by_cases hnil : w = []
  · rw [if_pos hnil]
    exact ⟨(fun h => by cases h), fun h => absurd hnil h.ne_nil⟩
  · rw [if_neg hnil, decimalFrom_iff, Nat.mul_zero, Nat.add_zero]
    exact ⟨fun h => ⟨hnil, h.1, h.2⟩, fun h => ⟨h.digits, h.value⟩⟩

theorem octet?_iff : octet? w = some n ↔ IsDecimal w n ∧ n ≤ 255 := by
  rw [octet?, Option.bind_eq_some_iff]
  constructor
  · rintro ⟨k, hk, hle⟩
    split at hle
    · obtain rfl := Option.some.inj hle
      exact ⟨decimal_iff.mp hk, by assumption⟩
    · cases hle
  · rintro ⟨hdec, hle⟩
    exact ⟨n, decimal_iff.mpr hdec, if_pos hle⟩

theorem IsDecimal.no_dot (h : IsDecimal w n) : 46 ∉ w := by
  intro hdot
  exact absurd (h.digits 46 hdot).1 (by decide)

def dotted (a b c d : Text) : Text := a ++ 46 :: (b ++ 46 :: (c ++ 46 :: d))

theorem splitOn_dotted {a b c d : Text} (ha : 46 ∉ a) (hb : 46 ∉ b) (hc : 46 ∉ c) (hd : 46 ∉ d) :
    (dotted a b c d).splitOn 46 = [a, b, c, d] := by
  rw [dotted, List.splitOn_append_cons_self_of_not_mem ha,
    List.splitOn_append_cons_self_of_not_mem hb, List.splitOn_append_cons_self_of_not_mem hc,
    List.splitOn_eq_singleton hd]

theorem splitOn_four {a b c d : Text} (h : s.splitOn 46 = [a, b, c, d]) : s = dotted a b c d := by
  have hjoin : [46].intercalate (s.splitOn 46) = s := List.intercalate_splitOn 46
  rw [h] at hjoin
  rw [← hjoin, dotted]
  simp [List.intercalate, List.intersperse]

theorem mapM_eq_nil {ws : List Text} : ws.mapM octet? = some [] ↔ ws = [] := by
  cases ws with
  | nil => exact ⟨fun _ => rfl, fun _ => rfl⟩
  | cons w ws =>
    rw [List.mapM_cons]
    refine ⟨fun h => ?_, (nomatch ·)⟩
    obtain ⟨n, -, h⟩ := Option.bind_eq_some_iff.mp h
    obtain ⟨l, -, h⟩ := Option.bind_eq_some_iff.mp h
    cases h

theorem mapM_eq_cons {ws : List Text} {n : Nat} {l : List Nat} : ws.mapM octet? = some (n :: l) ↔
    ∃ w rest, ws = w :: rest ∧ octet? w = some n ∧ rest.mapM octet? = some l := by
  constructor
  · intro h
    cases ws with
    | nil => cases h
    | cons w ws =>
      rw [List.mapM_cons] at h
      obtain ⟨m, hm, h⟩ := Option.bind_eq_some_iff.mp h
      obtain ⟨l', hl', h⟩ := Option.bind_eq_some_iff.mp h
      cases h
      exact ⟨w, ws, rfl, hm, hl'⟩
  · rintro ⟨w, rest, rfl, hw, hrest⟩
    rw [List.mapM_cons, hw, hrest]
    rfl

theorem address?_iff : address? s = some v ↔
    ∃ a b c d, (s.splitOn 46).mapM octet? = some [a, b, c, d] ∧
      v = a * 2 ^ 24 + b * 2 ^ 16 + c * 2 ^ 8 + d := by
  rw [address?]
  constructor
  · intro h
    split at h
    case h_1 a b c d hparts => exact ⟨a, b, c, d, hparts, (Option.some.inj h).symm⟩
    case h_2 => cases h
  · rintro ⟨a, b, c, d, hparts, rfl⟩
    rw [hparts]

theorem address?_dotted {wa wb wc wd : Text} {a b c d : Nat} (ha : octet? wa = some a)
    (hb : octet? wb = some b) (hc : octet? wc = some c) (hd : octet? wd = some d) :
    address? (dotted wa wb wc wd) = some (a * 2 ^ 24 + b * 2 ^ 16 + c * 2 ^ 8 + d) := by
  have hdot {w : Text} {n : Nat} (h : octet? w = some n) : 46 ∉ w := (octet?_iff.mp h).1.no_dot
  refine address?_iff.mpr ⟨a, b, c, d, ?_, rfl⟩
  rw [splitOn_dotted (hdot ha) (hdot hb) (hdot hc) (hdot hd)]
  exact mapM_eq_cons.mpr ⟨wa, _, rfl, ha, mapM_eq_cons.mpr ⟨wb, _, rfl, hb,
    mapM_eq_cons.mpr ⟨wc, _, rfl, hc, mapM_eq_cons.mpr ⟨wd, _, rfl, hd, rfl⟩⟩⟩⟩

theorem parseIpv4_iff : parseIpv4 s = some v ↔
    ∃ wa wb wc wd a b c d, s = dotted wa wb wc wd ∧ (IsDecimal wa a ∧ a ≤ 255) ∧
      (IsDecimal wb b ∧ b ≤ 255) ∧ (IsDecimal wc c ∧ c ≤ 255) ∧ (IsDecimal wd d ∧ d ≤ 255) ∧
      v = a * 2 ^ 24 + b * 2 ^ 16 + c * 2 ^ 8 + d := by
  rw [parseIpv4_eq]
  constructor
  · intro h
    obtain ⟨a, b, c, d, hparts, rfl⟩ := address?_iff.mp h
    obtain ⟨wa, ra, hwa, ha, hra⟩ := mapM_eq_cons.mp hparts
    obtain ⟨wb, rb, rfl, hb, hrb⟩ := mapM_eq_cons.mp hra
    obtain ⟨wc, rc, rfl, hc, hrc⟩ := mapM_eq_cons.mp hrb
    obtain ⟨wd, rd, rfl, hd, hrd⟩ := mapM_eq_cons.mp hrc
    obtain rfl := mapM_eq_nil.mp hrd
    exact ⟨wa, wb, wc, wd, a, b, c, d, splitOn_four hwa, octet?_iff.mp ha, octet?_iff.mp hb,
      octet?_iff.mp hc, octet?_iff.mp hd, rfl⟩
  · rintro ⟨wa, wb, wc, wd, a, b, c, d, rfl, ha, hb, hc, hd, rfl⟩
    exact address?_dotted (octet?_iff.mpr ha) (octet?_iff.mpr hb) (octet?_iff.mpr hc)
      (octet?_iff.mpr hd)

end Accepted

section RoundTrip

variable {cap : Nat}

theorem emits_bufAppend (s : Text) : Emits cap s (bufAppend cap s) := by
  intro out hroom
  rw [bufAppend, if_neg (by omega)]

theorem part_read : ∀ v < 256, octet? (u32ToDec v 4 []) = some v ∧ (u32ToDec v 4 []).length ≤ 3 := by
  decide +kernel

theorem ipv4ToStr_eq (ip : Nat) (hcap : 16 ≤ cap) (out : Text) :
    let part (k : Nat) : Text := u32ToDec (ip >>> k &&& 255) 4 []
    ipv4ToStr ip cap out = dotted (part 24) (part 16) (part 8) (part 0) := by
  intro part
  have hpart (k : Nat) : (part k).length ≤ 3 :=
    (part_read _ (Nat.lt_of_le_of_lt Nat.and_le_right (by decide))).2
  have hall : List.Forall₂ (Emits cap)
      [part 24, [46], part 16, [46], part 8, [46], part 0]
      [bufAppend cap (part 24), bufAppend cap [46], bufAppend cap (part 16), bufAppend cap [46],
        bufAppend cap (part 8), bufAppend cap [46], bufAppend cap (part 0)] := by
    simp only [List.forall₂_cons, emits_bufAppend, List.forall₂_nil_left_iff, true_and]
  have hroom : ([] : Text).length +
      [part 24, [46], part 16, [46], part 8, [46], part 0].flatten.length < cap := by
    have h24 := hpart 24
    have h16 := hpart 16
    have h8 := hpart 8
    have h0 := hpart 0
    simp only [List.flatten_cons, List.flatten_nil, List.length_append, List.length_cons,
      List.length_nil]
    omega
  rw [ipv4ToStr, if_neg (by omega)]
  refine (lax_emits hall hroom).trans ?_
  simp [dotted]

theorem octets_value {a : Nat} (h : a < 2 ^ 32) :
    (a >>> 24 &&& 255) * 2 ^ 24 + (a >>> 16 &&& 255) * 2 ^ 16 + (a >>> 8 &&& 255) * 2 ^ 8 +
      (a >>> 0 &&& 255) = a := by
  have hmask (n : Nat) : n &&& 255 = n % 256 := Nat.and_two_pow_sub_one_eq_mod n 8
  simp only [hmask, Nat.shiftRight_eq_div_pow]
  omega

theorem parseIpv4_ipv4ToStr {a : Nat} (h : a < 2 ^ 32) (hcap : 16 ≤ cap) (out : Text) :
    parseIpv4 (ipv4ToStr a cap out) = some a := by
  have hpart (k : Nat) : octet? (u32ToDec (a >>> k &&& 255) 4 []) = some (a >>> k &&& 255) :=
    (part_read _ (Nat.lt_of_le_of_lt Nat.and_le_right (by decide))).1
  rw [parseIpv4_eq, ipv4ToStr_eq a hcap out, address?_dotted (hpart 24) (hpart 16) (hpart 8) (hpart 0),
    octets_value h]

theorem address_text {a : Nat} (h : a < 2 ^ 32) (hcap : 16 ≤ cap) (out : Text) :
    parseIpv4 (ipv4ToStr a cap out) = some a ∧
      ∀ (s : Text) (v : Nat), parseIpv4 s = some v ↔
        ∃ wa wb wc wd a b c d, s = dotted wa wb wc wd ∧ (IsDecimal wa a ∧ a ≤ 255) ∧
          (IsDecimal wb b ∧ b ≤ 255) ∧ (IsDecimal wc c ∧ c ≤ 255) ∧ (IsDecimal wd d ∧ d ≤ 255) ∧
          v = a * 2 ^ 24 + b * 2 ^ 16 + c * 2 ^ 8 + d :=
  ⟨parseIpv4_ipv4ToStr h hcap out, fun _ _ => parseIpv4_iff⟩

theorem address_text_local :
    parseIpv4 (ipv4ToStr 0xC0A80001 16 []) = some 0xC0A80001 ∧
      ∀ (s : Text) (v : Nat), parseIpv4 s = some v ↔
        ∃ wa wb wc wd a b c d, s = dotted wa wb wc wd ∧ (IsDecimal wa a ∧ a ≤ 255) ∧
          (IsDecimal wb b ∧ b ≤ 255) ∧ (IsDecimal wc c ∧ c ≤ 255) ∧ (IsDecimal wd d ∧ d ≤ 255) ∧
          v = a * 2 ^ 24 + b * 2 ^ 16 + c * 2 ^ 8 + d :=
  address_text (by decide) (by decide) []

end RoundTrip

end HouseOS.Netd
