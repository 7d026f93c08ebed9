import Mathlib.Tactic.Common
import Mathlib.Data.Nat.Bitwise
import Mathlib.Data.List.Count
import Mathlib.Data.List.Nodup
import Mathlib.Data.List.Perm.Subperm
import Mathlib.Data.List.Range

namespace HouseOS.Word

def add32 (a b : Nat) : Nat := (a + b) % 2 ^ 32

def sub32 (a b : Nat) : Nat := (a + 2 ^ 32 - b % 2 ^ 32) % 2 ^ 32

def mul32 (a b : Nat) : Nat := a * b % 2 ^ 32

def not32 (a : Nat) : Nat := 2 ^ 32 - 1 - a

theorem add32_eq {a b : Nat} (h : a + b < 2 ^ 32) : add32 a b = a + b := Nat.mod_eq_of_lt h

theorem sub32_eq {a b : Nat} (ha : a < 2 ^ 32) (h : b ≤ a) : sub32 a b = a - b := by
  simp only [sub32]
  omega

theorem and_clear_low {k x : Nat} (hk : k ≤ 32) (hx : x < 2 ^ 32) :
    x &&& (2 ^ 32 - 2 ^ k) = x / 2 ^ k * 2 ^ k := by
  have hmask : 2 ^ 32 - 2 ^ k = (2 ^ (32 - k) - 1) <<< k := by
    rw [Nat.shiftLeft_eq, Nat.sub_mul, ← Nat.pow_add, Nat.sub_add_cancel hk, Nat.one_mul]
  rw [hmask, ← Nat.shiftRight_eq_div_pow, ← Nat.shiftLeft_eq]
  refine Nat.eq_of_testBit_eq ?_
  intro i
  simp only [Nat.testBit_and, Nat.testBit_shiftLeft, Nat.testBit_two_pow_sub_one,
    Nat.testBit_shiftRight]
  by_cases hik : k ≤ i
  · by_cases hi : i < 32
    · have hlow : i - k < 32 - k := by omega
      simp [hik, hlow]
    · have hbig : x < 2 ^ i := lt_of_lt_of_le hx (Nat.pow_le_pow_right (by decide) (by omega))
      have hbit : x.testBit i = false := Nat.testBit_lt_two_pow hbig
      have hshift : k + (i - k) = i := by omega
      simp [hbit, hshift]
  · simp [hik]

end HouseOS.Word

namespace HouseOS.Signed

def int32 (z : Int) : Int := (z + 2 ^ 31) % 2 ^ 32 - 2 ^ 31

def word32 (z : Int) : Nat := (z % 2 ^ 32).toNat

def Between (a b c : Int) : Prop := a ≤ c ∧ c ≤ b ∨ b ≤ c ∧ c ≤ a

theorem word32_lt (z : Int) : word32 z < 2 ^ 32 := by
  simp only [word32]
  omega

theorem int32_range (z : Int) : -2 ^ 31 ≤ int32 z ∧ int32 z < 2 ^ 31 := by
  simp only [int32]
  omega

theorem int32_of_range {z : Int} (h : -2 ^ 31 ≤ z) (h' : z < 2 ^ 31) : int32 z = z := by
  simp only [int32]
  omega

section Once

variable {a b : Int} {cs : List Int}

def interval (a b : Int) : List Int := (List.range ((b - a).natAbs + 1)).map fun (i : Nat) => min a b + (i : Int)

theorem mem_interval {c : Int} : c ∈ interval a b ↔ Between a b c := by
  simp only [interval, List.mem_map, List.mem_range, Between]
  constructor
  · rintro ⟨i, hi, rfl⟩
    omega
  · intro h
    exact ⟨(c - min a b).toNat, by omega, by omega⟩

theorem nodup_interval (a b : Int) : (interval a b).Nodup :=
  List.nodup_range.map fun i j (h : min a b + (i : Int) = min a b + j) => by omega

theorem length_interval (a b : Int) : (interval a b).length = (b - a).natAbs + 1 := by
  rw [interval, List.length_map, List.length_range]

theorem count_interval_iff (hlen : cs.length = (b - a).natAbs + 1) :
    (∀ c, Between a b c → cs.count c = 1) ↔ cs.Nodup ∧ ∀ c ∈ cs, Between a b c := by
  have hsize : cs.length = (interval a b).length := by rw [length_interval, hlen]
  constructor
  · intro honce
    have hsub : interval a b ⊆ cs := by
      intro c hc
      exact List.count_pos_iff.mp (by rw [honce c (mem_interval.mp hc)]; exact Nat.one_pos)
    have hperm := ((nodup_interval a b).subperm hsub).perm_of_length_le (Nat.le_of_eq hsize)
    exact ⟨hperm.nodup_iff.mp (nodup_interval a b),
      fun c hc => mem_interval.mp (hperm.mem_iff.mpr hc)⟩
  · rintro ⟨hnodup, hin⟩ c hc
    have hsub : cs ⊆ interval a b := fun c hc => mem_interval.mpr (hin c hc)
    have hperm := (hnodup.subperm hsub).perm_of_length_le (Nat.le_of_eq hsize.symm)
    exact List.count_eq_one_of_mem hnodup (hperm.mem_iff.mpr (mem_interval.mpr hc))

end Once

end HouseOS.Signed
