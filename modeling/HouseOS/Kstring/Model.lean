import HouseOS.Library.ByteCopy
import HouseOS.Library.Numeral
import HouseOS.Library.Words

namespace HouseOS.Kstring

open HouseOS.ByteMem
open HouseOS.Numeral
open HouseOS.Words (byteText)

-- at most `fuel` bytes are looked at
def strlen (m : Mem) : Nat → Nat → Option Nat
  | 0, _ => none
  | fuel + 1, str => if m str = 0 then some 0 else (strlen m fuel (str + 1)).map (· + 1)

-- all `n` bytes of `dest` are written, the string first
def strncpy (m : Mem) (dest : Nat) : List UInt8 → Nat → Mem
  | _, 0 => m
  | [], n + 1 => strncpy (store8 m dest 0) (dest + 1) [] n
  | c :: src, n + 1 => strncpy (store8 m dest c) (dest + 1) src n

variable {m : Mem} {a dest fuel n x : Nat} {text src : List UInt8}

theorem strlen_eq (h : CString m a text) (hfuel : text.length < fuel) :
    strlen m fuel a = some text.length := by
  induction text generalizing a fuel with
  | nil =>
    obtain ⟨fuel, rfl⟩ : ∃ k, fuel = k + 1 := ⟨fuel - 1, by rw [List.length_nil] at hfuel; omega⟩
    rw [strlen, if_pos (CString.nil_iff.mp h)]
    rfl
  | cons c text ih =>
    rw [List.length_cons] at hfuel
    obtain ⟨fuel, rfl⟩ : ∃ k, fuel = k + 1 := ⟨fuel - 1, by omega⟩
    obtain ⟨hat, hne, hrest⟩ := CString.cons_iff.mp h
    rw [strlen, hat, if_neg hne, ih hrest (by omega), Option.map_some, List.length_cons]

theorem strncpy_eq (n : Nat) : ∀ (m : Mem) (dest : Nat) (src : List UInt8),
    strncpy m dest src n = storeBytes m dest (src.take n ++ List.replicate (n - src.length) 0) := by
  induction n with
  | zero =>
    intro m dest src
    rw [strncpy, List.take_zero, Nat.zero_sub]
    rfl
  | succ n ih =>
    intro m dest src
    cases src with
    | nil =>
      rw [strncpy, ih, List.take_nil, List.take_nil, List.nil_append, List.nil_append]
      rfl
    | cons c src =>
      rw [strncpy, ih, List.take_succ_cons, List.length_cons, Nat.add_sub_add_right]
      rfl

theorem length_padded : (src.take n ++ List.replicate (n - src.length) (0 : UInt8)).length = n := by
  rw [List.length_append, List.length_take, List.length_replicate]
  omega

theorem strncpy_ne (h : x < dest ∨ dest + n ≤ x) : strncpy m dest src n x = m x := by
  rw [strncpy_eq, storeBytes_ne _ (by rwa [length_padded])]

theorem strncpy_cstring (hclean : 0 ∉ src) :
    CString (store8 (strncpy m dest src n) (dest + n) 0) dest (src.take n) := by
  have hbytes : BytesAt (strncpy m dest src n) dest
      (src.take n ++ List.replicate (n - src.length) 0) := by
    rw [strncpy_eq]
    exact bytesAt_storeBytes _ _ _
  obtain ⟨htext, hpad⟩ := bytesAt_append.mp hbytes
  have hlen : (src.take n).length ≤ n := by
    rw [List.length_take]
    omega
  refine ⟨bytesAt_store8_apart htext (Or.inr (by omega)), ?_,
    fun hz => hclean (List.mem_of_mem_take hz)⟩
  by_cases hfull : (src.take n).length = n
  · rw [hfull]
    exact if_pos rfl
  · rw [List.length_take] at hfull hpad ⊢
    rw [store8_ne _ (by omega)]
    have hzero := hpad 0 0 (by rw [List.getElem?_replicate, if_pos (by omega)])
    rwa [Nat.add_zero] at hzero

def digitChars : List UInt8 := byteText "0123456789abcdefghijklmnopqrstuvwxyz"

def digitChar (d : Nat) : UInt8 := digitChars.getD d 0

def isdigit (c : UInt8) : Bool := 48 ≤ c && c ≤ 57

def isspace (c : UInt8) : Bool :=
  c == 32 || c == 9 || c == 10 || c == 13 || c == 12 || c == 11

abbrev Radix := { base : UInt32 // 2 ≤ base.toNat ∧ base.toNat ≤ 36 }

theorem toNat_base {base : Int32} (h : ¬(base < 2 ∨ 36 < base)) :
    base.toUInt32.toNat = base.toInt.toNat ∧ 2 ≤ base.toInt ∧ base.toInt ≤ 36 := by
  rw [not_or, Int32.not_lt, Int32.not_lt, Int32.le_iff_toInt_le, Int32.le_iff_toInt_le] at h
  have hlow : 2 ≤ base.toInt := h.1
  have hnonneg : 0 ≤ base := Int32.le_iff_toInt_le.mpr (Int.le_trans (by decide) hlow)
  exact ⟨Int32.toNat_toUInt32_of_le hnonneg, hlow, h.2⟩

def radix? (base : Int32) : Option Radix :=
  if h : base < 2 ∨ 36 < base then none
  else some ⟨base.toUInt32, by
    obtain ⟨heq, hlow, hhigh⟩ := toNat_base h
    omega⟩

theorem div_lt (base : Radix) {uvalue : UInt32} (h : uvalue / base.val ≠ 0) :
    (uvalue / base.val).toNat < uvalue.toNat := by
  have hpos : uvalue.toNat ≠ 0 := by
    intro hzero
    refine h (UInt32.toNat_inj.mp ?_)
    rw [UInt32.toNat_div, hzero, Nat.zero_div]
    rfl
  rw [UInt32.toNat_div]
  exact Nat.div_lt_self (Nat.pos_of_ne_zero hpos) base.property.1

-- `do { *ptr++ = digits[uvalue % base]; uvalue /= base; } while (uvalue)`
def emit (base : Radix) (m : Mem) (ptr : Nat) (uvalue : UInt32) : Mem × Nat :=
  let m := store8 m ptr (digitChar (uvalue % base.val).toNat)
  if h : uvalue / base.val = 0 then (m, ptr + 1)
  else emit base m (ptr + 1) (uvalue / base.val)
termination_by uvalue.toNat
decreasing_by exact div_lt base h

def swapEnds (m : Mem) (low ptr : Nat) : Mem :=
  if low < ptr then swapEnds (store8 (store8 m low (m ptr)) ptr (m low)) (low + 1) (ptr - 1)
  else m
termination_by ptr - low

def putDigits (m : Mem) (low : Nat) (uvalue : UInt32) (base : Radix) : Mem :=
  let (m, ptr) := emit base m low uvalue
  swapEnds (store8 m ptr 0) low (ptr - 1)

def itoa (m : Mem) (value : Int32) (str : Nat) (base : Int32) : Mem × Nat :=
  match radix? base with
  | none => (store8 m str 0, str)
  | some radix =>
      if value < 0 ∧ base = 10 then
        (putDigits (store8 m str 45) (str + 1) (0 - value.toUInt32) radix, str)
      else (putDigits m str value.toUInt32 radix, str)

def utoa (m : Mem) (value : UInt32) (str : Nat) (base : Int32) : Mem × Nat :=
  match radix? base with
  | none => (store8 m str 0, str)
  | some radix => (putDigits m str value radix, str)

def skipSpaces (m : Mem) : Nat → Nat → Option Nat
  | 0, _ => none
  | fuel + 1, str => if isspace (m str) then skipSpaces m fuel (str + 1) else some str

def readDigits (m : Mem) : Nat → Nat → Int32 → Option Int32
  | 0, _, _ => none
  | fuel + 1, str, result =>
      if isdigit (m str) then
        readDigits m fuel (str + 1) (result * 10 + (Int32.ofNat (m str).toNat - 48))
      else some result

-- each loop runs at most `fuel` times
def atoi (m : Mem) (fuel str : Nat) : Option Int32 :=
  (skipSpaces m fuel str).bind fun str =>
    let (sign, str) : Int32 × Nat :=
      if m str = 45 then (-1, str + 1) else if m str = 43 then (1, str + 1) else (1, str)
    (readDigits m fuel str 0).map (sign * ·)

end HouseOS.Kstring
