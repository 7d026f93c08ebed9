import Mathlib.Algebra.BigOperators.Group.Finset.Piecewise
import Mathlib.Algebra.Order.BigOperators.Group.Finset

namespace HouseOS.Ledger

-- numbered accounts below a limit, with the two running totals kept beside them
structure Books where
  held : Nat → Option Nat
  limit : Nat
  sum : Nat
  count : Nat

variable {b : Books} {i m n s : Nat}

namespace Books

def amount (b : Books) (i : Nat) : Nat := (b.held i).getD 0

def isOpen (b : Books) (i : Nat) : Nat := if (b.held i).isSome then 1 else 0

structure Balanced (b : Books) : Prop where
  inside : ∀ i, (b.held i).isSome → i < b.limit
  sum : b.sum = ∑ i ∈ Finset.range b.limit, b.amount i
  count : b.count = ∑ i ∈ Finset.range b.limit, b.isOpen i

def openNext (b : Books) : Books :=
  ⟨Function.update b.held b.limit (some 0), b.limit + 1, b.sum, b.count + 1⟩

def post (b : Books) (i n s : Nat) : Books := { b with held := Function.update b.held i (some n), sum := s }

def close (b : Books) (i s c : Nat) : Books := ⟨Function.update b.held i none, b.limit, s, c⟩

end Books

theorem sum_range_update (f : Nat → Nat) (hi : i < n) (v : Nat) :
    (∑ j ∈ Finset.range n, Function.update f i v j) + f i = (∑ j ∈ Finset.range n, f j) + v := by
  have hmem : i ∈ Finset.range n := Finset.mem_range.mpr hi
  have hsplit := Finset.sum_sdiff (f := f) (Finset.singleton_subset_iff.mpr hmem)
  rw [Finset.sum_singleton] at hsplit
  rw [Finset.sum_update_of_mem hmem]
  omega

namespace Books

theorem amount_update (v : Option Nat) :
    (fun j => ((Function.update b.held i v) j).getD 0) = Function.update b.amount i (v.getD 0) := by
  funext j
  by_cases hj : j = i
  · rw [hj, Function.update_self, Function.update_self]
  · rw [Function.update_of_ne hj, Function.update_of_ne hj, amount]

theorem isOpen_update (v : Option Nat) :
    (fun j => if ((Function.update b.held i v) j).isSome then 1 else 0) =
      Function.update b.isOpen i (if v.isSome then 1 else 0) := by
  funext j
  by_cases hj : j = i
  · rw [hj, Function.update_self, Function.update_self]
  · rw [Function.update_of_ne hj, Function.update_of_ne hj, isOpen]

theorem Balanced.le_sum (h : b.Balanced) (hi : b.held i = some m) : m ≤ b.sum := by
  have hmem : i ∈ Finset.range b.limit := Finset.mem_range.mpr (h.inside i (by rw [hi]; rfl))
  have hle := Finset.single_le_sum (f := b.amount) (fun j _ => Nat.zero_le _) hmem
  rw [h.sum]
  refine le_trans (Nat.le_of_eq ?_) hle
  rw [amount, hi]
  rfl

theorem Balanced.openNext (h : b.Balanced) : b.openNext.Balanced where
  inside j hj := by
    by_cases hjl : j = b.limit
    · rw [hjl]
      exact Nat.lt_succ_self _
    · have hold : b.openNext.held j = b.held j := Function.update_of_ne hjl _ _
      exact Nat.lt_succ_of_lt (h.inside j (hold ▸ hj))
  sum := by
    show b.sum = ∑ j ∈ Finset.range (b.limit + 1), ((Function.update b.held b.limit (some 0)) j).getD 0
    rw [Finset.sum_range_succ, Function.update_self, h.sum]
    refine Finset.sum_congr rfl fun j hj => ?_
    rw [Function.update_of_ne (Nat.ne_of_lt (Finset.mem_range.mp hj)), amount]
  count := by
    show b.count + 1 = ∑ j ∈ Finset.range (b.limit + 1),
      if ((Function.update b.held b.limit (some 0)) j).isSome then 1 else 0
    rw [Finset.sum_range_succ, Function.update_self, h.count]
    refine congrArg (· + 1) (Finset.sum_congr rfl fun j hj => ?_)
    rw [Function.update_of_ne (Nat.ne_of_lt (Finset.mem_range.mp hj)), isOpen]

theorem Balanced.post (h : b.Balanced) (hi : b.held i = some m) (hs : s + m = b.sum + n) :
    (b.post i n s).Balanced where
  inside j hj := by
    by_cases hji : j = i
    · rw [hji]
      exact h.inside i (by rw [hi]; rfl)
    · have hold : (b.post i n s).held j = b.held j := Function.update_of_ne hji _ _
      exact h.inside j (hold ▸ hj)
  sum := by
    have hlt := h.inside i (by rw [hi]; rfl)
    have hsum := sum_range_update b.amount hlt n
    have hold : b.amount i = m := by rw [amount, hi]; rfl
    show s = ∑ j ∈ Finset.range b.limit, ((Function.update b.held i (some n)) j).getD 0
    rw [amount_update]
    rw [← h.sum, hold] at hsum
    simp only [Option.getD_some]
    omega
  count := by
    have hlt := h.inside i (by rw [hi]; rfl)
    have hsum := sum_range_update b.isOpen hlt 1
    have hold : b.isOpen i = 1 := by rw [isOpen, hi]; rfl
    show b.count = ∑ j ∈ Finset.range b.limit,
      if ((Function.update b.held i (some n)) j).isSome then 1 else 0
    rw [isOpen_update]
    rw [← h.count, hold] at hsum
    simp only [Option.isSome_some, if_true]
    omega

theorem Balanced.close {c : Nat} (h : b.Balanced) (hi : b.held i = some m) (hs : s + m = b.sum)
    (hc : c + 1 = b.count) : (b.close i s c).Balanced where
  inside j hj := by
    by_cases hji : j = i
    · rw [hji]
      exact h.inside i (by rw [hi]; rfl)
    · have hold : (b.close i s c).held j = b.held j := Function.update_of_ne hji _ _
      exact h.inside j (hold ▸ hj)
  sum := by
    have hlt := h.inside i (by rw [hi]; rfl)
    have hsum := sum_range_update b.amount hlt 0
    have hold : b.amount i = m := by rw [amount, hi]; rfl
    show s = ∑ j ∈ Finset.range b.limit, ((Function.update b.held i none) j).getD 0
    rw [amount_update]
    rw [← h.sum, hold] at hsum
    simp only [Option.getD_none]
    omega
  count := by
    have hlt := h.inside i (by rw [hi]; rfl)
    have hsum := sum_range_update b.isOpen hlt 0
    have hold : b.isOpen i = 1 := by rw [isOpen, hi]; rfl
    show c = ∑ j ∈ Finset.range b.limit, if ((Function.update b.held i none) j).isSome then 1 else 0
    rw [isOpen_update]
    rw [← h.count, hold] at hsum
    simp only [Option.isSome_none, Bool.false_eq_true, if_false]
    omega

theorem Balanced.count_pos (h : b.Balanced) (hi : b.held i = some m) : 0 < b.count := by
  have hmem : i ∈ Finset.range b.limit := Finset.mem_range.mpr (h.inside i (by rw [hi]; rfl))
  have hle := Finset.single_le_sum (f := b.isOpen) (fun j _ => Nat.zero_le _) hmem
  have hone : b.isOpen i = 1 := by rw [isOpen, hi]; rfl
  rw [h.count]
  omega

end Books

end HouseOS.Ledger
