import Mathlib.Data.Nat.Digits.Lemmas

namespace HouseOS.Numeral

-- as a do-while loop meets the digits of a number: 0 has one
def leastFirst (b n : Nat) : List Nat := if n = 0 then [0] else Nat.digits b n

def numeral (b n : Nat) : List Nat := (leastFirst b n).reverse

def horner (b v : Nat) (ds : List Nat) : Nat := ds.foldl (fun v d => v * b + d) v

variable {b n d k : Nat}

theorem leastFirst_step (hb : 2 ≤ b) (n : Nat) :
    leastFirst b n = n % b :: if n / b = 0 then [] else leastFirst b (n / b) := by
  rw [leastFirst]
  split
  · rename_i hn
    subst hn
    rw [Nat.zero_div, if_pos rfl, Nat.zero_mod]
  · rename_i hn
    rw [Nat.digits_def' hb (Nat.pos_of_ne_zero hn), leastFirst]
    split
    · rename_i hdiv
      rw [hdiv, Nat.digits_zero]
    · rfl

theorem leastFirst_lt (hb : 2 ≤ b) (h : d ∈ leastFirst b n) : d < b := by
  rw [leastFirst] at h
  split at h
  · obtain rfl := List.mem_singleton.mp h
    exact Nat.lt_of_lt_of_le Nat.two_pos hb
  · exact Nat.digits_lt_base hb h

theorem numeral_lt (hb : 2 ≤ b) (h : d ∈ numeral b n) : d < b :=
  leastFirst_lt hb (List.mem_reverse.mp h)

theorem numeral_ne_nil (hb : 2 ≤ b) : numeral b n ≠ [] := by
  rw [numeral, leastFirst_step hb]
  simp

theorem length_numeral_le (hb : 2 ≤ b) (hk : 0 < k) (h : n < b ^ k) : (numeral b n).length ≤ k := by
  rw [numeral, List.length_reverse, leastFirst]
  split
  · exact hk
  · exact (Nat.digits_length_le_iff hb n).mpr h

theorem horner_reverse (b : Nat) (ds : List Nat) : horner b 0 ds.reverse = Nat.ofDigits b ds := by
  rw [horner, List.foldl_reverse]
  induction ds with
  | nil => rfl
  | cons d ds ih =>
    rw [List.foldr_cons, ih, Nat.ofDigits_cons, Nat.mul_comm, Nat.add_comm]

theorem horner_numeral (b n : Nat) : horner b 0 (numeral b n) = n := by
  rw [numeral, horner_reverse, leastFirst]
  split
  · rename_i hn
    rw [hn]
    rfl
  · exact Nat.ofDigits_digits b n

end HouseOS.Numeral
