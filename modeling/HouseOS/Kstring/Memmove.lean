import HouseOS.Library.ByteCopy
import HouseOS.Library.Word

namespace HouseOS.Kstring

open HouseOS.ByteMem
open HouseOS.Word

-- `while (num--) *d++ = *s++`
def copyUp (m : Mem) (d s : Nat) : Nat → Mem
  | 0 => m
  | num + 1 => copyUp (store8 m d (m s)) (add32 d 1) (add32 s 1) num

-- `while (num--) *--d = *--s`
def copyDown (m : Mem) (d s : Nat) : Nat → Mem
  | 0 => m
  | num + 1 =>
      copyDown (store8 m (sub32 d 1) (m (sub32 s 1))) (sub32 d 1) (sub32 s 1) num

def memmove (m : Mem) (dest src num : Nat) : Mem × Nat :=
  if dest < src then (copyUp m dest src num, dest)
  else (copyDown m (add32 dest num) (add32 src num) num, dest)

-- `num` bytes of the address space, the last one included
structure Region (num : Nat) where
  start : Nat
  fits : start + num ≤ 2 ^ 32

variable {m : Mem} {d s num x : Nat}

theorem pred_end (hd : d + (num + 1) ≤ 2 ^ 32) : sub32 (add32 d (num + 1)) 1 = d + num := by
  simp only [add32, sub32]
  omega

theorem add32_of_fits (hd : d + (num + 1) ≤ 2 ^ 32) : add32 d num = d + num :=
  add32_eq (by omega)

theorem copyFrom_zero (m : Mem) (d s : Nat) : copyFrom m d m s 0 = m := by
  funext x
  exact copyFrom_out (by omega)

theorem copyFrom_first (h : d ≤ s) :
    copyFrom (store8 m d (m s)) (d + 1) (store8 m d (m s)) (s + 1) num =
      copyFrom m d m s (num + 1) := by
  funext x
  by_cases hfirst : x = d
  · subst hfirst
    rw [copyFrom_out (by omega), copyFrom_in (Nat.le_refl x) (by omega), Nat.sub_self]
    exact if_pos rfl
  · by_cases hin : d + 1 ≤ x ∧ x < d + 1 + num
    · obtain ⟨hlow, hhigh⟩ := hin
      have hsame : s + 1 + (x - (d + 1)) = s + (x - d) := by omega
      rw [copyFrom_in hlow hhigh, copyFrom_in (by omega) (by omega), store8_ne _ (by omega), hsame]
    · rw [copyFrom_out (by omega), copyFrom_out (by omega), store8_ne _ hfirst]

theorem copyFrom_last (h : s ≤ d) :
    copyFrom (store8 m (d + num) (m (s + num))) d (store8 m (d + num) (m (s + num))) s num =
      copyFrom m d m s (num + 1) := by
  funext x
  by_cases hlast : x = d + num
  · subst hlast
    rw [copyFrom_out (by omega), copyFrom_in (by omega) (by omega), Nat.add_sub_cancel_left]
    exact if_pos rfl
  · by_cases hin : d ≤ x ∧ x < d + num
    · obtain ⟨hlow, hhigh⟩ := hin
      rw [copyFrom_in hlow hhigh, copyFrom_in hlow (by omega), store8_ne _ (by omega)]
    · rw [copyFrom_out (by omega), copyFrom_out (by omega), store8_ne _ hlast]

-- after the last byte the pointers may stand at 2 ^ 32, that is at 0; they are not used there
theorem copyUp_eq (num : Nat) : ∀ (m : Mem) {d s : Nat}, d ≤ s → s + num ≤ 2 ^ 32 →
    copyUp m d s num = copyFrom m d m s num := by
  induction num with
  | zero => exact fun m d s _ _ => (copyFrom_zero m d s).symm
  | succ num ih =>
    intro m d s hle hfits
    rw [copyUp]
    cases num with
    | zero =>
      rw [copyUp, ← copyFrom_first hle]
      exact (copyFrom_zero _ _ _).symm
    | succ num =>
      rw [add32_eq (a := d) (by omega), add32_eq (a := s) (by omega),
        ih _ (by omega) (by omega), copyFrom_first hle]

theorem copyDown_eq (num : Nat) : ∀ (m : Mem) {d s : Nat}, s ≤ d → d + num ≤ 2 ^ 32 →
    copyDown m (add32 d num) (add32 s num) num = copyFrom m d m s num := by
  induction num with
  | zero => exact fun m d s _ _ => (copyFrom_zero m d s).symm
  | succ num ih =>
    intro m d s hle hfits
    have hd : sub32 (add32 d (num + 1)) 1 = add32 d num := by
      rw [pred_end hfits, add32_of_fits hfits]
    have hs : sub32 (add32 s (num + 1)) 1 = add32 s num := by
      rw [pred_end (by omega), add32_of_fits (by omega)]
    rw [copyDown, hd, hs, ih _ hle (by omega), add32_of_fits hfits, add32_of_fits (by omega),
      copyFrom_last hle]

theorem memmove_eq (m : Mem) {num : Nat} (dest src : Region num) :
    memmove m dest.start src.start num =
      (copyFrom m dest.start m src.start num, dest.start) := by
  rw [memmove]
  split
  · rename_i hlt
    rw [copyUp_eq num m (Nat.le_of_lt hlt) src.fits]
  · rename_i hle
    rw [copyDown_eq num m (Nat.le_of_not_lt hle) dest.fits]

theorem memmove_moves (m : Mem) {num : Nat} (dest src : Region num) :
    (∀ i < num, (memmove m dest.start src.start num).1 (dest.start + i) = m (src.start + i)) ∧
      (∀ x, x < dest.start ∨ dest.start + num ≤ x →
        (memmove m dest.start src.start num).1 x = m x) ∧
      (memmove m dest.start src.start num).2 = dest.start := by
  rw [memmove_eq m dest src]
  refine ⟨fun i hi => ?_, fun x hx => copyFrom_out hx, rfl⟩
  have hin : copyFrom m dest.start m src.start num (dest.start + i) =
      m (src.start + (dest.start + i - dest.start)) := copyFrom_in (by omega) (by omega)
  rwa [Nat.add_sub_cancel_left] at hin

end HouseOS.Kstring
