import Mathlib.Logic.Function.Iterate
import Mathlib.Tactic.Common

namespace HouseOS.Paper

-- a roll of paper without end, the first line still in sight, and the pen within what is seen
structure Sheet (α : Type) where
  ink : Nat → Nat → α
  top : Nat
  row : Nat
  col : Nat

namespace Sheet

variable {α : Type} (s : Sheet α) {rows cols : Nat} {blank : α}

def fresh (blank : α) : Sheet α := ⟨fun _ _ => blank, 0, 0, 0⟩

def seen (r x : Nat) : α := s.ink (s.top + r) x

def moveTo (col row : Nat) : Sheet α := { s with col := col, row := row }

def stamp (row col : Nat) (c : α) : Sheet α :=
  { s with ink := fun y x => if y = s.top + row ∧ x = col then c else s.ink y x }

def write (c : α) : Sheet α := s.stamp s.row s.col c

def nextRow (rows : Nat) : Sheet α :=
  if s.row + 1 < rows then s.moveTo 0 (s.row + 1) else { s.moveTo 0 s.row with top := s.top + 1 }

def typed (cols rows : Nat) (c : α) : Sheet α :=
  if s.col + 1 < cols then (s.write c).moveTo (s.col + 1) s.row else (s.write c).nextRow rows

def left (cols : Nat) : Sheet α :=
  if 0 < s.col then s.moveTo (s.col - 1) s.row
  else if 0 < s.row then s.moveTo (cols - 1) (s.row - 1)
  else s

def right (cols rows : Nat) : Sheet α :=
  if s.col + 1 < cols then s.moveTo (s.col + 1) s.row
  else s.moveTo 0 (if s.row + 1 < rows then s.row + 1 else s.row)

def rubOut (blank : α) (cols : Nat) : Sheet α := (s.left cols).write blank

def clearRight (blank : α) (cols : Nat) : Sheet α :=
  (List.range' s.col (cols - s.col)).foldl (fun t x => t.stamp s.row x blank) s

structure Within (blank : α) (cols rows : Nat) (s : Sheet α) : Prop where
  col : s.col < cols
  row : s.row < rows
  below : ∀ y x, s.top + rows ≤ y → s.ink y x = blank

theorem seen_stamp (row col : Nat) (c : α) (r x : Nat) :
    (s.stamp row col c).seen r x = if r = row ∧ x = col then c else s.seen r x := by
  simp only [seen, stamp, Nat.add_left_cancel_iff]

theorem seen_nextRow_inner (h : s.row + 1 < rows) (r x : Nat) :
    (s.nextRow rows).seen r x = s.seen r x := by
  rw [nextRow, if_pos h]
  rfl

theorem seen_nextRow_last (h : ¬s.row + 1 < rows) (r x : Nat) :
    (s.nextRow rows).seen r x = s.seen (r + 1) x := by
  rw [nextRow, if_neg h]
  simp only [seen, moveTo, Nat.add_assoc, Nat.add_comm r 1]

theorem seen_left (cols : Nat) : (s.left cols).seen = s.seen := by
  rw [left]
  split
  · rfl
  split
  · rfl
  · rfl

theorem seen_right (cols rows : Nat) : (s.right cols rows).seen = s.seen := by
  rw [right]
  split
  · rfl
  · rfl

theorem seen_iterate {f : Sheet α → Sheet α} (hf : ∀ s, (f s).seen = s.seen) (n : Nat) :
    (f^[n] s).seen = s.seen := by
  induction n generalizing s with
  | zero => rfl
  | succ n ih => exact (ih (f s)).trans (hf s)

variable {s}

theorem Within.moveTo (h : Within blank cols rows s) {x y : Nat} (hx : x < cols) (hy : y < rows) :
    Within blank cols rows (s.moveTo x y) :=
  ⟨hx, hy, h.below⟩

theorem Within.stamp (h : Within blank cols rows s) {row : Nat} (hrow : row < rows) (col : Nat) (c : α) :
    Within blank cols rows (s.stamp row col c) where
  col := h.col
  row := h.row
  below y x hy := by
    have hy : s.top + rows ≤ y := hy
    show (if y = s.top + row ∧ x = col then c else s.ink y x) = blank
    rw [if_neg (by omega), h.below y x hy]

theorem Within.write (h : Within blank cols rows s) (c : α) : Within blank cols rows (s.write c) :=
  h.stamp h.row s.col c

theorem Within.nextRow (h : Within blank cols rows s) : Within blank cols rows (s.nextRow rows) := by
  have hcol := h.col
  rw [Sheet.nextRow]
  split
  next hlt => exact h.moveTo (by omega) hlt
  next =>
    refine ⟨by show 0 < cols; omega, h.row, fun y x hy => ?_⟩
    exact h.below y x (by have hy : s.top + 1 + rows ≤ y := hy; omega)

theorem within_fresh (hcols : 0 < cols) (hrows : 0 < rows) :
    Within blank cols rows (fresh blank) :=
  ⟨hcols, hrows, fun _ _ _ => rfl⟩

end Sheet

end HouseOS.Paper
