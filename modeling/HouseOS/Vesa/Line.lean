import HouseOS.Library.LineWalk
import HouseOS.Library.Word
import HouseOS.Vesa.Model

namespace HouseOS.Vesa

open HouseOS.ByteMem HouseOS.LineWalk HouseOS.Signed

def absInt (z : Int) : Int := if z < 0 then int32 (-z) else z

structure Line where
  dx : Int
  dy : Int
  sx : Int
  sy : Int
  x2 : Nat
  y2 : Nat

structure Pen where
  x : Nat
  y : Nat
  err : Int

def direction (z1 z2 : Nat) : Int := if z1 < z2 then 1 else -1

def lineOf (x1 y1 x2 y2 : Nat) : Line :=
  { dx := absInt (int32 (int32 x2 - int32 x1)), dy := absInt (int32 (int32 y2 - int32 y1)),
    sx := direction x1 x2, sy := direction y1 y2, x2 := x2, y2 := y2 }

namespace Line

def start (l : Line) (x1 y1 : Nat) : Pen := ⟨x1, y1, int32 (l.dx - l.dy)⟩

def step (l : Line) (s : Pen) : Pen :=
  let e2 := int32 (s.err * 2)
  let s := if int32 (-l.dy) < e2 then
    { s with err := int32 (s.err - l.dy), x := word32 (s.x + l.sx) } else s
  if e2 < l.dx then { s with err := int32 (s.err + l.dx), y := word32 (s.y + l.sy) } else s

end Line

-- the loop, `put` at every pixel it plots; `none` when it takes more than `fuel` rounds
def lineLoop {σ : Type} (put : σ → Nat → Nat → σ) (l : Line) : Nat → Pen → σ → Option σ
  | 0, _, _ => none
  | fuel + 1, s, m =>
      if s.x = l.x2 ∧ s.y = l.y2 then some (put m s.x s.y)
      else lineLoop put l fuel (l.step s) (put m s.x s.y)

def drawLine {σ : Type} (put : σ → Nat → Nat → σ) (x1 y1 x2 y2 fuel : Nat) (m : σ) : Option σ :=
  let l := lineOf x1 y1 x2 y2
  lineLoop put l fuel (l.start x1 y1) m

def Display.vesaDrawLine (d : Display) (m : Mem) (x1 y1 x2 y2 color fuel : Nat) : Option Mem :=
  drawLine (fun m x y => d.vesaPutPixel m x y color) x1 y1 x2 y2 fuel m

def linePlots (x1 y1 x2 y2 fuel : Nat) : Option (List (Nat × Nat)) :=
  drawLine (fun ps x y => ps ++ [(x, y)]) x1 y1 x2 y2 fuel []

namespace Line

variable {l : Line} {s : Pen} {n k : Nat}

def run (l : Line) (s : Pen) : Nat → Pen
  | 0 => s
  | k + 1 => l.step (l.run s k)

theorem run_step (l : Line) (s : Pen) (k : Nat) : l.run (l.step s) k = l.run s (k + 1) := by
  induction k with
  | zero => rfl
  | succ k ih => exact congrArg l.step ih

def AtEnd (l : Line) (s : Pen) : Prop := s.x = l.x2 ∧ s.y = l.y2

def plot (l : Line) (s : Pen) (k : Nat) : Nat × Nat := ((l.run s k).x, (l.run s k).y)

def plots (l : Line) (s : Pen) (n : Nat) : List (Nat × Nat) := (List.range n).map (l.plot s)

theorem plots_succ (l : Line) (s : Pen) (n : Nat) :
    l.plots s (n + 1) = (s.x, s.y) :: l.plots (l.step s) n := by
  rw [plots, List.range_succ_eq_map, List.map_cons, List.map_map, plots]
  refine congrArg (_ :: ·) (List.map_congr_left fun k _ => ?_)
  simp only [Function.comp_apply, plot, run_step]

def StopsAt (l : Line) (s : Pen) (n : Nat) : Prop :=
  (∀ k < n, ¬l.AtEnd (l.run s k)) ∧ l.AtEnd (l.run s n)

theorem stopsAt_succ (hgo : ¬l.AtEnd s) : l.StopsAt s (n + 1) ↔ l.StopsAt (l.step s) n := by
  simp only [StopsAt, run_step]
  constructor
  · exact fun h => ⟨fun k hk => h.1 (k + 1) (Nat.succ_lt_succ hk), h.2⟩
  · refine fun h => ⟨fun k hk => ?_, h.2⟩
    cases k with
    | zero => exact hgo
    | succ k => exact h.1 k (Nat.lt_of_succ_lt_succ hk)

variable {σ : Type} {put : σ → Nat → Nat → σ} {fuel : Nat} {m m' : σ}

theorem lineLoop_of_stopsAt (h : l.StopsAt s n) (hfuel : n < fuel) :
    lineLoop put l fuel s m = some ((l.plots s (n + 1)).foldl (fun m p => put m p.1 p.2) m) := by
  induction n generalizing s fuel m with
  | zero =>
    obtain ⟨fuel, rfl⟩ := Nat.exists_eq_succ_of_ne_zero (Nat.pos_iff_ne_zero.mp hfuel)
    exact if_pos h.2
  | succ n ih =>
    obtain ⟨fuel, rfl⟩ : ∃ k, fuel = k + 1 := ⟨fuel - 1, by omega⟩
    have hgo : ¬l.AtEnd s := h.1 0 (Nat.succ_pos n)
    rw [plots_succ, List.foldl_cons,
      ← ih ((stopsAt_succ hgo).mp h) (Nat.lt_of_succ_lt_succ hfuel)]
    exact if_neg hgo

theorem stopsAt_of_lineLoop (h : lineLoop put l fuel s m = some m') :
    ∃ n < fuel, l.StopsAt s n := by
  induction fuel generalizing s m with
  | zero => exact absurd h (by simp [lineLoop])
  | succ fuel ih =>
    by_cases hend : l.AtEnd s
    · exact ⟨0, Nat.succ_pos fuel, fun k hk => absurd hk (Nat.not_lt_zero k), hend⟩
    · obtain ⟨n, hn, hstop⟩ := ih (((if_neg hend).symm.trans h :) )
      exact ⟨n + 1, Nat.succ_lt_succ hn, (stopsAt_succ hend).mpr hstop⟩

def columnMoves (l : Line) (s : Pen) : Prop := int32 (-l.dy) < int32 (s.err * 2)

def rowMoves (l : Line) (s : Pen) : Prop := int32 (s.err * 2) < l.dx

instance (l : Line) (s : Pen) : Decidable (l.columnMoves s) := inferInstanceAs (Decidable (_ < _))

instance (l : Line) (s : Pen) : Decidable (l.rowMoves s) := inferInstanceAs (Decidable (_ < _))

theorem step_eq (l : Line) (s : Pen) : l.step s =
    { x := if l.columnMoves s then word32 (s.x + l.sx) else s.x
      y := if l.rowMoves s then word32 (s.y + l.sy) else s.y
      err := if l.rowMoves s then int32 ((if l.columnMoves s then int32 (s.err - l.dy) else s.err) + l.dx)
        else if l.columnMoves s then int32 (s.err - l.dy) else s.err } := by
  by_cases hcol : l.columnMoves s <;> by_cases hrow : l.rowMoves s <;>
    simp only [hcol, hrow, if_true, if_false] <;>
    simp only [columnMoves, rowMoves] at hcol hrow <;>
    simp only [step, hcol, hrow, if_true, if_false]

def moves (l : Line) (s : Pen) : Nat → Nat × Nat
  | 0 => (0, 0)
  | k + 1 =>
      (if l.columnMoves (l.run s k) then (l.moves s k).1 + 1 else (l.moves s k).1,
        if l.rowMoves (l.run s k) then (l.moves s k).2 + 1 else (l.moves s k).2)

theorem run_moves (hx : s.x < 2 ^ 32) (hy : s.y < 2 ^ 32) (k : Nat) :
    (l.run s k).x = word32 (s.x + l.sx * (l.moves s k).1) ∧
      (l.run s k).y = word32 (s.y + l.sy * (l.moves s k).2) := by
  induction k with
  | zero =>
    simp only [run, moves, word32]
    omega
  | succ k ih =>
    have hword (z w : Int) : word32 (word32 z + w) = word32 (z + w) := by
      simp only [word32]
      omega
    simp only [run, moves, step_eq]
    constructor
    · split
      next => rw [ih.1, hword, Int.natCast_add, Int.mul_add, Int.add_assoc]; simp
      next => exact ih.1
    · split
      next => rw [ih.2, hword, Int.natCast_add, Int.mul_add, Int.add_assoc]; simp
      next => exact ih.2

theorem moves_step (l : Line) (s : Pen) (k : Nat) :
    ((l.moves s (k + 1)).1 = (l.moves s k).1 ∨ (l.moves s (k + 1)).1 = (l.moves s k).1 + 1) ∧
      ((l.moves s (k + 1)).2 = (l.moves s k).2 ∨ (l.moves s (k + 1)).2 = (l.moves s k).2 + 1) := by
  simp only [moves]
  constructor <;> split <;> omega

theorem run_err {p q : Nat} (hdx : l.dx = p) (hdy : l.dy = q) (hq : q < 2 ^ 31)
    (herr : s.err = int32 ((p : Int) - q)) (k : Nat) :
    l.moves s k = walk p q (fun e => int32 (2 * e)) k ∧
      (l.run s k).err = int32 (excess p q (l.moves s k).1 (l.moves s k).2) := by
  induction k with
  | zero => exact ⟨rfl, by simpa [run, moves, excess] using herr⟩
  | succ k ih =>
    obtain ⟨hmoves, he⟩ := ih
    have hdouble (z : Int) : int32 (int32 z * 2) = int32 (2 * z) := by
      simp only [int32]
      omega
    have hsub (z w : Int) : int32 (int32 z - w) = int32 (z - w) := by
      simp only [int32]
      omega
    have hadd (z w : Int) : int32 (int32 z + w) = int32 (z + w) := by
      simp only [int32]
      omega
    have hcol : l.columnMoves (l.run s k) ↔
        -(q : Int) < int32 (2 * excess p q (l.moves s k).1 (l.moves s k).2) := by
      rw [columnMoves, he, hdouble, hdy, int32_of_range (by omega) (by omega)]
    have hrow : l.rowMoves (l.run s k) ↔
        int32 (2 * excess p q (l.moves s k).1 (l.moves s k).2) < p := by
      rw [rowMoves, he, hdouble, hdx]
    constructor
    · simp only [moves, walk, ← hmoves, hcol, hrow]
    · simp only [run, moves, step_eq, he, hdx, hdy, hsub]
      by_cases hc : l.columnMoves (l.run s k) <;> by_cases hr : l.rowMoves (l.run s k) <;>
        simp only [hc, hr, if_true, if_false, excess_column, excess_row, hadd, sub_add_eq_add_sub]

end Line

section Axis

variable {z1 z2 n : Nat} {c : Nat → Nat}

def SameHalf (z1 z2 : Nat) : Prop := z1 < 2 ^ 31 ↔ z2 < 2 ^ 31

def along (z1 z2 c : Nat) : Nat := word32 (z1 + direction z1 z2 * c)

def extent (z1 z2 : Nat) : Nat := (int32 z2 - int32 z1).natAbs

theorem int32_word {z : Nat} (hz : z < 2 ^ 32) :
    z < 2 ^ 31 ∧ int32 z = z ∨ 2 ^ 31 ≤ z ∧ int32 z = z - 2 ^ 32 := by
  simp only [int32]
  omega

theorem direction_cases (z1 z2 : Nat) :
    z1 < z2 ∧ direction z1 z2 = 1 ∨ z2 ≤ z1 ∧ direction z1 z2 = -1 := by
  simp only [direction]
  split
  next h => exact Or.inl ⟨h, rfl⟩
  next h => exact Or.inr ⟨Nat.le_of_not_lt h, rfl⟩

theorem along_eq (z1 z2 c : Nat) : (along z1 z2 c : Int) = (z1 + direction z1 z2 * c) % 2 ^ 32 := by
  simp only [along, word32]
  omega

theorem along_end (h1 : z1 < 2 ^ 32) (h2 : z2 < 2 ^ 32) {a : Nat} (ha : a ≤ n)
    (hext : extent z1 z2 ≤ n) (hn : n < 2 ^ 31) :
    along z1 z2 a = z2 ↔ SameHalf z1 z2 ∧ a = extent z1 z2 := by
  have e1 := int32_word h1
  have e2 := int32_word h2
  have halong := along_eq z1 z2 a
  simp only [SameHalf, extent] at *
  rcases direction_cases z1 z2 with ⟨hlt, hd⟩ | ⟨hle, hd⟩
  · rw [hd, Int.one_mul] at halong
    omega
  · rw [hd, Int.neg_mul, Int.one_mul] at halong
    omega

def stops (z1 z2 : Nat) (c : Nat → Nat) (n : Nat) : List Int :=
  (List.range (n + 1)).map fun k => int32 (along z1 z2 (c k))

theorem steps_of_nodup (h0 : c 0 = 0) (hstep : ∀ k, c (k + 1) = c k ∨ c (k + 1) = c k + 1)
    (hnodup : (stops z1 z2 c n).Nodup) : ∀ k ≤ n, c k = k := by
  intro k
  induction k with
  | zero => exact fun _ => h0
  | succ k ih =>
    intro hk
    have hprev := ih (by omega)
    rcases hstep k with hstay | hmove
    · have hinj := List.inj_on_of_nodup_map hnodup (List.mem_range.mpr (show k < n + 1 by omega))
        (List.mem_range.mpr (show k + 1 < n + 1 by omega)) (by rw [hstay])
      omega
    · omega

theorem sameHalf_sub (h1 : z1 < 2 ^ 32) (h2 : z2 < 2 ^ 32) (hhalf : SameHalf z1 z2) :
    int32 z2 - int32 z1 = z2 - z1 := by
  have e1 := int32_word h1
  have e2 := int32_word h2
  simp only [SameHalf] at hhalf
  omega

theorem along_same (h1 : z1 < 2 ^ 32) (h2 : z2 < 2 ^ 32) (hhalf : SameHalf z1 z2) {k : Nat}
    (hk : k ≤ extent z1 z2) :
    (along z1 z2 k : Int) = z1 + direction z1 z2 * k ∧ Between z1 z2 (along z1 z2 k) := by
  have halong := along_eq z1 z2 k
  have hext : extent z1 z2 = ((z2 : Int) - z1).natAbs := by rw [extent, sameHalf_sub h1 h2 hhalf]
  simp only [Between]
  rcases direction_cases z1 z2 with ⟨hlt, hd⟩ | ⟨hle, hd⟩
  · rw [hd, Int.one_mul] at halong ⊢
    omega
  · rw [hd, Int.neg_mul, Int.one_mul] at halong ⊢
    omega

theorem sameHalf_along (h1 : z1 < 2 ^ 32) (h2 : z2 < 2 ^ 32) (hhalf : SameHalf z1 z2) {k : Nat}
    (hk : k ≤ extent z1 z2) :
    int32 (along z1 z2 k) = int32 z1 + direction z1 z2 * k ∧
      Between (int32 z1) (int32 z2) (int32 (along z1 z2 k)) := by
  obtain ⟨heq, hbetween⟩ := along_same h1 h2 hhalf hk
  have hword := word32_lt (z1 + direction z1 z2 * k)
  rw [← along] at hword
  have hhalf' : SameHalf z1 (along z1 z2 k) := by
    simp only [SameHalf, Between] at hhalf hbetween ⊢
    omega
  have hsub := sameHalf_sub h1 hword hhalf'
  have hsub' := sameHalf_sub h1 h2 hhalf
  simp only [Between] at hbetween ⊢
  omega

theorem extent_across (h1 : z1 < 2 ^ 32) (h2 : z2 < 2 ^ 32) (hhalf : ¬SameHalf z1 z2) :
    z1 < 2 ^ 31 ∧ 2 ^ 31 ≤ z2 ∧ (extent z1 z2 : Int) = z1 - z2 + 2 ^ 32 ∨
      2 ^ 31 ≤ z1 ∧ z2 < 2 ^ 31 ∧ (extent z1 z2 : Int) = z2 - z1 + 2 ^ 32 := by
  have e1 := int32_word h1
  have e2 := int32_word h2
  simp only [SameHalf] at hhalf
  simp only [extent]
  rcases e1 with ⟨hlow, e1⟩ | ⟨hhigh, e1⟩ <;> rw [e1] <;>
    rcases e2 with ⟨hlow', e2⟩ | ⟨hhigh', e2⟩ <;> rw [e2] <;> omega

-- between the halves the first step goes away from the end point, or the last one misses it
theorem along_leaves (h1 : z1 < 2 ^ 32) (h2 : z2 < 2 ^ 32) (hhalf : ¬SameHalf z1 z2)
    (hend : along z1 z2 (extent z1 z2) = z2) :
    1 ≤ extent z1 z2 ∧ ¬Between (int32 z1) (int32 z2) (int32 (along z1 z2 1)) := by
  have hfirst := along_eq z1 z2 1
  have hlast := along_eq z1 z2 (extent z1 z2)
  rw [hend] at hlast
  rw [hfirst]
  simp only [Between, int32]
  rcases extent_across h1 h2 hhalf with ⟨hz1, hz2, hext⟩ | ⟨hz1, hz2, hext⟩
  · rcases direction_cases z1 z2 with ⟨-, hd⟩ | ⟨hle, -⟩
    · rw [hd, Int.one_mul] at hlast ⊢
      omega
    · omega
  · rcases direction_cases z1 z2 with ⟨hlt, -⟩ | ⟨-, hd⟩
    · omega
    · rw [hd, Int.neg_mul, Int.one_mul] at hlast ⊢
      omega

theorem stops_once_iff (h1 : z1 < 2 ^ 32) (h2 : z2 < 2 ^ 32) (h0 : c 0 = 0)
    (hstep : ∀ k, c (k + 1) = c k ∨ c (k + 1) = c k + 1)
    (hend : along z1 z2 (c (extent z1 z2)) = z2) :
    (∀ w, Between (int32 z1) (int32 z2) w → (stops z1 z2 c (extent z1 z2)).count w = 1) ↔
      SameHalf z1 z2 ∧ ∀ k ≤ extent z1 z2, c k = k := by
  have hlen : (stops z1 z2 c (extent z1 z2)).length = (int32 z2 - int32 z1).natAbs + 1 := by
    rw [stops, List.length_map, List.length_range, extent]
  rw [count_interval_iff hlen]
  constructor
  · rintro ⟨hnodup, hin⟩
    have hsteps := steps_of_nodup h0 hstep hnodup
    refine ⟨?_, hsteps⟩
    by_contra hhalf
    rw [hsteps _ (Nat.le_refl _)] at hend
    obtain ⟨hpos, hout⟩ := along_leaves h1 h2 hhalf hend
    refine hout (hin _ (List.mem_map.mpr ⟨1, List.mem_range.mpr (by omega), ?_⟩))
    rw [hsteps 1 hpos]
  · rintro ⟨hhalf, hsteps⟩
    have hat (k : Nat) (hk : k ∈ List.range (extent z1 z2 + 1)) :
        k ≤ extent z1 z2 ∧ int32 (along z1 z2 (c k)) = int32 z1 + direction z1 z2 * k := by
      have hle : k ≤ extent z1 z2 := Nat.le_of_lt_succ (List.mem_range.mp hk)
      rw [hsteps k hle]
      exact ⟨hle, (sameHalf_along h1 h2 hhalf hle).1⟩
    constructor
    · refine List.Nodup.map_on ?_ List.nodup_range
      intro i hi j hj heq
      rw [(hat i hi).2, (hat j hj).2] at heq
      rcases direction_cases z1 z2 with ⟨-, hd⟩ | ⟨-, hd⟩ <;> rw [hd] at heq <;> omega
    · intro w hw
      obtain ⟨k, hk, rfl⟩ := List.mem_map.mp hw
      rw [hsteps k (hat k hk).1]
      exact (sameHalf_along h1 h2 hhalf (hat k hk).1).2

theorem extent_lt (h1 : z1 < 2 ^ 32) (h2 : z2 < 2 ^ 32) (hhalf : SameHalf z1 z2) :
    extent z1 z2 < 2 ^ 31 := by
  have hsub := sameHalf_sub h1 h2 hhalf
  simp only [SameHalf] at hhalf
  simp only [extent, hsub]
  omega

theorem axes_iff {w1 w2 : Nat} {b : Nat → Nat} (h1 : z1 < 2 ^ 32) (h2 : z2 < 2 ^ 32)
    (g1 : w1 < 2 ^ 32) (g2 : w2 < 2 ^ 32) (h0 : c 0 = 0)
    (hstep : ∀ k, c (k + 1) = c k ∨ c (k + 1) = c k + 1) (hb : ∀ k, b k ≤ k)
    (hle : extent w1 w2 ≤ extent z1 z2) :
    ((∀ k < extent z1 z2, ¬(along z1 z2 (c k) = z2 ∧ along w1 w2 (b k) = w2)) ∧
        (along z1 z2 (c (extent z1 z2)) = z2 ∧ along w1 w2 (b (extent z1 z2)) = w2) ∧
        ∀ v, Between (int32 z1) (int32 z2) v → (stops z1 z2 c (extent z1 z2)).count v = 1) ↔
      SameHalf z1 z2 ∧ SameHalf w1 w2 ∧ (∀ k ≤ extent z1 z2, c k = k) ∧
        b (extent z1 z2) = extent w1 w2 := by
  constructor
  · rintro ⟨-, ⟨hend, hend'⟩, honce⟩
    obtain ⟨hhalf, hsteps⟩ := (stops_once_iff h1 h2 h0 hstep hend).mp honce
    obtain ⟨hhalf', hlast⟩ := (along_end g1 g2 (hb _) hle (extent_lt h1 h2 hhalf)).mp hend'
    exact ⟨hhalf, hhalf', hsteps, hlast⟩
  · rintro ⟨hhalf, hhalf', hsteps, hlast⟩
    have hlt := extent_lt h1 h2 hhalf
    have hend : along z1 z2 (c (extent z1 z2)) = z2 :=
      (along_end h1 h2 (Nat.le_of_eq (hsteps _ (Nat.le_refl _))) (Nat.le_refl _) hlt).mpr
        ⟨hhalf, hsteps _ (Nat.le_refl _)⟩
    refine ⟨fun k hk hat => ?_, ⟨hend, ?_⟩, (stops_once_iff h1 h2 h0 hstep hend).mpr ⟨hhalf, hsteps⟩⟩
    · rw [hsteps k (Nat.le_of_lt hk)] at hat
      have hk' := ((along_end h1 h2 (Nat.le_of_lt hk) (Nat.le_refl _) hlt).mp hat.1).2
      omega
    · exact (along_end g1 g2 (hb _) hle hlt).mpr ⟨hhalf', hlast⟩

end Axis

section Segment

variable {x1 y1 x2 y2 dx dy : Nat}

-- the loop stops at its end point after as many steps as the longer side is long, and plots
-- each of the segment's columns once, or each of its rows where it is steep
def DrawsSegment (x1 y1 x2 y2 : Nat) : Prop :=
  let dx := extent x1 x2
  let dy := extent y1 y2
  ∃ ps, linePlots x1 y1 x2 y2 (max dx dy + 1) = some ps ∧ ps.length = max dx dy + 1 ∧
    ps.getLast? = some (x2, y2) ∧
    if dy ≤ dx then
      ∀ c, Between (int32 x1) (int32 x2) c → (ps.map fun p => int32 p.1).count c = 1
    else ∀ c, Between (int32 y1) (int32 y2) c → (ps.map fun p => int32 p.2).count c = 1

-- no doubled error of the segment overflows; the errors are multiples of the common divisor
def Fits (dx dy : Nat) : Prop :=
  if dy ≤ dx then
    ∀ e : Int, ((dx.gcd dy : Nat) : Int) ∣ e → 2 * e < 3 * dx - 2 * dy → e < 2 ^ 30
  else ∀ e : Int, ((dx.gcd dy : Nat) : Int) ∣ e → 2 * e < 3 * dy - 2 * dx → e ≤ 2 ^ 30

theorem doubles_int32 : Doubles fun e => int32 (2 * e) where
  wraps e := ⟨(2 * e + 2 ^ 31) / 2 ^ 32, by simp only [int32]; omega⟩
  lower e := (int32_range _).1
  upper e := Int.le_of_lt (int32_range _).2

theorem doubles_neg : Doubles fun e => -int32 (2 * -e) where
  wraps e := ⟨-((2 * -e + 2 ^ 31) / 2 ^ 32), by simp only [int32]; omega⟩
  lower e := by
    have := int32_range (2 * -e)
    omega
  upper e := by
    have := int32_range (2 * -e)
    omega

theorem fits_shallow (hle : dy ≤ dx) (hdx : dx < 2 ^ 31) :
    ((∀ k ≤ dx, (walk dx dy (fun e => int32 (2 * e)) k).1 = k) ∧
        (walk dx dy (fun e => int32 (2 * e)) dx).2 = dy) ↔ Fits dx dy := by
  rw [Fits, if_pos hle]
  rcases Nat.eq_zero_or_pos dx with rfl | hpos
  · obtain rfl : dy = 0 := Nat.eq_zero_of_le_zero hle
    refine iff_of_true ⟨fun k hk => ?_, rfl⟩ fun e _ he => by omega
    obtain rfl : k = 0 := Nat.eq_zero_of_le_zero hk
    rfl
  · rw [walk_exact_iff doubles_int32 hle hpos hdx]
    refine forall_congr' fun e => imp_congr_right fun _ => ?_
    simp only [int32]
    omega

theorem fits_steep (hlt : dx < dy) (hdy : dy < 2 ^ 31) :
    ((∀ k ≤ dy, (walk dx dy (fun e => int32 (2 * e)) k).2 = k) ∧
        (walk dx dy (fun e => int32 (2 * e)) dy).1 = dx) ↔ Fits dx dy := by
  rw [Fits, if_neg (Nat.not_le_of_lt hlt)]
  simp only [walk_swap dy dx, Prod.fst_swap, Prod.snd_swap]
  rw [walk_exact_iff doubles_neg (Nat.le_of_lt hlt) (by omega) hdy, Nat.gcd_comm]
  refine forall_congr' fun e => imp_congr_right fun _ => ?_
  simp only [int32]
  omega

theorem foldl_plots (ps qs : List (Nat × Nat)) :
    ps.foldl (fun ps p => ps ++ [(p.1, p.2)]) qs = qs ++ ps := by
  induction ps generalizing qs with
  | nil => exact (List.append_nil qs).symm
  | cons p ps ih => rw [List.foldl_cons, ih, List.append_assoc, List.singleton_append]

theorem drawLine_eq {σ : Type} {put : σ → Nat → Nat → σ} {fuel fuel' : Nat} {m : σ}
    {ps : List (Nat × Nat)} (h : linePlots x1 y1 x2 y2 fuel = some ps) (hfuel : fuel ≤ fuel') :
    drawLine put x1 y1 x2 y2 fuel' m = some (ps.foldl (fun m p => put m p.1 p.2) m) := by
  obtain ⟨n, hn, hstop⟩ := Line.stopsAt_of_lineLoop h
  have hps := (foldl_plots _ []).symm.trans
    (Option.some.inj ((Line.lineLoop_of_stopsAt hstop hn).symm.trans h))
  rw [← hps]
  exact Line.lineLoop_of_stopsAt hstop (Nat.lt_of_lt_of_le hn hfuel)

theorem vesaDrawLine_eq {fuel : Nat} {ps : List (Nat × Nat)}
    (h : linePlots x1 y1 x2 y2 fuel = some ps) (d : Display) (m : Mem) (color : Nat) :
    d.vesaDrawLine m x1 y1 x2 y2 color fuel =
      some (ps.foldl (fun m p => d.vesaPutPixel m p.1 p.2 color) m) :=
  drawLine_eq h (Nat.le_refl fuel)

theorem linePlots_iff (n : Nat) (ps : List (Nat × Nat)) :
    (linePlots x1 y1 x2 y2 (n + 1) = some ps ∧ ps.length = n + 1) ↔
      (lineOf x1 y1 x2 y2).StopsAt ((lineOf x1 y1 x2 y2).start x1 y1) n ∧
        ps = (lineOf x1 y1 x2 y2).plots ((lineOf x1 y1 x2 y2).start x1 y1) (n + 1) := by
  have hplots {k : Nat} (hk : k < n + 1)
      (hstop : (lineOf x1 y1 x2 y2).StopsAt ((lineOf x1 y1 x2 y2).start x1 y1) k) :
      linePlots x1 y1 x2 y2 (n + 1) =
        some ((lineOf x1 y1 x2 y2).plots ((lineOf x1 y1 x2 y2).start x1 y1) (k + 1)) := by
    refine (Line.lineLoop_of_stopsAt hstop hk).trans (congrArg some ?_)
    exact (foldl_plots _ []).trans (List.nil_append _)
  constructor
  · rintro ⟨hloop, hlen⟩
    obtain ⟨k, hk, hstop⟩ := Line.stopsAt_of_lineLoop hloop
    have heq := Option.some.inj (hloop.symm.trans (hplots hk hstop))
    rw [heq, Line.plots, List.length_map, List.length_range] at hlen
    obtain rfl : k = n := Nat.succ.inj hlen
    exact ⟨hstop, heq⟩
  · rintro ⟨hstop, rfl⟩
    exact ⟨hplots (Nat.lt_succ_self n) hstop, by rw [Line.plots, List.length_map, List.length_range]⟩

def moved (x1 y1 x2 y2 : Nat) : Nat → Nat × Nat :=
  (lineOf x1 y1 x2 y2).moves ((lineOf x1 y1 x2 y2).start x1 y1)

theorem moved_le (k : Nat) : (moved x1 y1 x2 y2 k).1 ≤ k ∧ (moved x1 y1 x2 y2 k).2 ≤ k := by
  induction k with
  | zero => exact ⟨Nat.le_refl 0, Nat.le_refl 0⟩
  | succ k ih =>
    obtain ⟨hx, hy⟩ := Line.moves_step (lineOf x1 y1 x2 y2) ((lineOf x1 y1 x2 y2).start x1 y1) k
    simp only [moved] at ih ⊢
    omega

theorem plot_eq (h1 : x1 < 2 ^ 32) (g1 : y1 < 2 ^ 32) (k : Nat) :
    (lineOf x1 y1 x2 y2).plot ((lineOf x1 y1 x2 y2).start x1 y1) k =
      (along x1 x2 (moved x1 y1 x2 y2 k).1, along y1 y2 (moved x1 y1 x2 y2 k).2) := by
  obtain ⟨hx, hy⟩ := Line.run_moves (l := lineOf x1 y1 x2 y2)
    (s := (lineOf x1 y1 x2 y2).start x1 y1) h1 g1 k
  exact Prod.ext hx hy

theorem atEnd_iff (h1 : x1 < 2 ^ 32) (g1 : y1 < 2 ^ 32) (k : Nat) :
    (lineOf x1 y1 x2 y2).AtEnd
        ((lineOf x1 y1 x2 y2).run ((lineOf x1 y1 x2 y2).start x1 y1) k) ↔
      along x1 x2 (moved x1 y1 x2 y2 k).1 = x2 ∧ along y1 y2 (moved x1 y1 x2 y2 k).2 = y2 := by
  have hplot := @plot_eq x1 y1 x2 y2 h1 g1 k
  have hx := congrArg Prod.fst hplot
  have hy := congrArg Prod.snd hplot
  simp only [Line.plot] at hx hy
  rw [Line.AtEnd, hx, hy]
  exact Iff.rfl

theorem columns_eq (h1 : x1 < 2 ^ 32) (g1 : y1 < 2 ^ 32) (n : Nat) :
    (((lineOf x1 y1 x2 y2).plots ((lineOf x1 y1 x2 y2).start x1 y1) (n + 1)).map
        fun p => int32 p.1) = stops x1 x2 (fun k => (moved x1 y1 x2 y2 k).1) n ∧
      (((lineOf x1 y1 x2 y2).plots ((lineOf x1 y1 x2 y2).start x1 y1) (n + 1)).map
        fun p => int32 p.2) = stops y1 y2 (fun k => (moved x1 y1 x2 y2 k).2) n := by
  simp only [Line.plots, List.map_map, stops]
  refine ⟨List.map_congr_left fun k _ => ?_, List.map_congr_left fun k _ => ?_⟩ <;>
    rw [Function.comp_apply, plot_eq h1 g1]

theorem drawsSegment_iff_moved (h1 : x1 < 2 ^ 32) (g1 : y1 < 2 ^ 32) (h2 : x2 < 2 ^ 32)
    (g2 : y2 < 2 ^ 32) :
    DrawsSegment x1 y1 x2 y2 ↔ SameHalf x1 x2 ∧ SameHalf y1 y2 ∧
      if extent y1 y2 ≤ extent x1 x2 then
        (∀ k ≤ extent x1 x2, (moved x1 y1 x2 y2 k).1 = k) ∧
          (moved x1 y1 x2 y2 (extent x1 x2)).2 = extent y1 y2
      else (∀ k ≤ extent y1 y2, (moved x1 y1 x2 y2 k).2 = k) ∧
          (moved x1 y1 x2 y2 (extent y1 y2)).1 = extent x1 x2 := by
  have hstep := Line.moves_step (lineOf x1 y1 x2 y2) ((lineOf x1 y1 x2 y2).start x1 y1)
  have hlast {n : Nat} (hend : along x1 x2 (moved x1 y1 x2 y2 n).1 = x2 ∧
      along y1 y2 (moved x1 y1 x2 y2 n).2 = y2) :
      ((lineOf x1 y1 x2 y2).plots ((lineOf x1 y1 x2 y2).start x1 y1) (n + 1)).getLast? =
        some (x2, y2) := by
    rw [Line.plots, List.range_succ, List.map_append, List.map_singleton, List.getLast?_concat,
      plot_eq h1 g1, hend.1, hend.2]
  by_cases hle : extent y1 y2 ≤ extent x1 x2
  · have haxes := axes_iff (c := fun k => (moved x1 y1 x2 y2 k).1)
      (b := fun k => (moved x1 y1 x2 y2 k).2) h1 h2 g1 g2 rfl (fun k => (hstep k).1)
      (fun k => (moved_le k).2) hle
    simp only [DrawsSegment, if_pos hle, Nat.max_eq_left hle]
    rw [← haxes]
    constructor
    · rintro ⟨ps, hloop, hlen, -, honce⟩
      obtain ⟨hstop, hps⟩ := (linePlots_iff _ ps).mp ⟨hloop, hlen⟩
      rw [hps, (columns_eq h1 g1 _).1] at honce
      exact ⟨fun k hk hat => hstop.1 k hk ((atEnd_iff h1 g1 k).mpr hat),
        (atEnd_iff h1 g1 _).mp hstop.2, honce⟩
    · rintro ⟨hgo, hend, honce⟩
      obtain ⟨hloop, hlen⟩ := (linePlots_iff (extent x1 x2) _).mpr
        ⟨⟨fun k hk hat => hgo k hk ((atEnd_iff h1 g1 k).mp hat), (atEnd_iff h1 g1 _).mpr hend⟩, rfl⟩
      refine ⟨_, hloop, hlen, hlast hend, ?_⟩
      rw [(columns_eq h1 g1 _).1]
      exact honce
  · have hge : extent x1 x2 ≤ extent y1 y2 := Nat.le_of_not_le hle
    have haxes := axes_iff (c := fun k => (moved x1 y1 x2 y2 k).2)
      (b := fun k => (moved x1 y1 x2 y2 k).1) g1 g2 h1 h2 rfl (fun k => (hstep k).2)
      (fun k => (moved_le k).1) hge
    simp only [DrawsSegment, if_neg hle, Nat.max_eq_right hge]
    rw [and_left_comm, ← haxes]
    constructor
    · rintro ⟨ps, hloop, hlen, -, honce⟩
      obtain ⟨hstop, hps⟩ := (linePlots_iff _ ps).mp ⟨hloop, hlen⟩
      rw [hps, (columns_eq h1 g1 _).2] at honce
      exact ⟨fun k hk hat => hstop.1 k hk ((atEnd_iff h1 g1 k).mpr hat.symm),
        ((atEnd_iff h1 g1 _).mp hstop.2).symm, honce⟩
    · rintro ⟨hgo, hend, honce⟩
      obtain ⟨hloop, hlen⟩ := (linePlots_iff (extent y1 y2) _).mpr
        ⟨⟨fun k hk hat => hgo k hk ((atEnd_iff h1 g1 k).mp hat).symm,
          (atEnd_iff h1 g1 _).mpr hend.symm⟩, rfl⟩
      refine ⟨_, hloop, hlen, hlast hend.symm, ?_⟩
      rw [(columns_eq h1 g1 _).2]
      exact honce

theorem absInt_extent (h1 : x1 < 2 ^ 32) (h2 : x2 < 2 ^ 32) (hhalf : SameHalf x1 x2) :
    absInt (int32 (int32 x2 - int32 x1)) = extent x1 x2 := by
  have hlt := extent_lt h1 h2 hhalf
  have hsub := sameHalf_sub h1 h2 hhalf
  rw [extent] at hlt ⊢
  rw [int32_of_range (by omega) (by omega), absInt]
  split
  next => rw [int32_of_range (by omega) (by omega)]; omega
  next => omega

theorem moved_eq (h1 : x1 < 2 ^ 32) (g1 : y1 < 2 ^ 32) (h2 : x2 < 2 ^ 32) (g2 : y2 < 2 ^ 32)
    (hx : SameHalf x1 x2) (hy : SameHalf y1 y2) (k : Nat) :
    moved x1 y1 x2 y2 k = walk (extent x1 x2) (extent y1 y2) (fun e => int32 (2 * e)) k := by
  have hdx : (lineOf x1 y1 x2 y2).dx = extent x1 x2 := by
    rw [lineOf, absInt_extent h1 h2 hx]
  have hdy : (lineOf x1 y1 x2 y2).dy = extent y1 y2 := by
    rw [lineOf, absInt_extent g1 g2 hy]
  refine (Line.run_err hdx hdy (extent_lt g1 g2 hy) ?_ k).1
  rw [Line.start, hdx, hdy]

theorem drawsSegment_iff (x1 y1 x2 y2 : Nat) (h1 : x1 < 2 ^ 32) (g1 : y1 < 2 ^ 32)
    (h2 : x2 < 2 ^ 32) (g2 : y2 < 2 ^ 32) :
    DrawsSegment x1 y1 x2 y2 ↔
      SameHalf x1 x2 ∧ SameHalf y1 y2 ∧ Fits (extent x1 x2) (extent y1 y2) := by
  rw [drawsSegment_iff_moved h1 g1 h2 g2]
  refine and_congr_right fun hx => and_congr_right fun hy => ?_
  simp only [moved_eq h1 g1 h2 g2 hx hy]
  split
  next hle => exact fits_shallow hle (extent_lt h1 h2 hx)
  next hgt => exact fits_steep (Nat.lt_of_not_le hgt) (extent_lt g1 g2 hy)

theorem fits_small (hdx : dx < 2 ^ 29) (hdy : dy < 2 ^ 29) : Fits dx dy := by
  rw [Fits]
  split
  next => exact fun e _ he => by omega
  next => exact fun e _ he => by omega

theorem drawsSegment_onscreen : DrawsSegment 10 20 300 77 :=
  (drawsSegment_iff 10 20 300 77 (by decide) (by decide) (by decide) (by decide)).mpr
    ⟨iff_of_true (by decide) (by decide), iff_of_true (by decide) (by decide),
      fits_small (by decide) (by decide)⟩

-- the middle line of a filled circle of radius 1 at the left edge starts at column -1
theorem line_from_left_of_screen : ¬DrawsSegment 4294967295 5 1 5 := by
  rintro ⟨ps, hloop, -⟩
  have hnone : linePlots 4294967295 5 1 5 (max (extent 4294967295 1) (extent 5 5) + 1) = none := by
    decide
  rw [hnone] at hloop
  exact nomatch hloop

end Segment

section Horizontal

variable {x1 x2 y : Nat}

theorem walk_flat {p : Nat} {r : Int → Int} (hp : 0 < p) (hr : r p = 2 * p) (k : Nat) :
    walk p 0 r k = (k, 0) := by
  induction k with
  | zero => rfl
  | succ k ih =>
    have herr : excess p 0 k 0 = p := by simp [excess]
    simp only [walk, ih, herr, hr]
    rw [if_pos (by omega), if_neg (by omega)]

theorem along_right (hle : x1 ≤ x2) (hx : x2 < 2 ^ 29) {k : Nat} (hk : k ≤ x2 - x1) :
    along x1 x2 k = x1 + k := by
  have halong := along_eq x1 x2 k
  rcases direction_cases x1 x2 with ⟨-, hd⟩ | ⟨hge, hd⟩
  · rw [hd, Int.one_mul] at halong
    omega
  · obtain rfl : k = 0 := by omega
    rw [hd] at halong
    omega

theorem moved_horizontal (hle : x1 ≤ x2) (hx : x2 < 2 ^ 29) (hy : y < 2 ^ 32) {k : Nat}
    (hk : k ≤ x2 - x1) : moved x1 y x2 y k = (k, 0) := by
  have hhalf : SameHalf x1 x2 := iff_of_true (by omega) (by omega)
  have hsub := sameHalf_sub (show x1 < 2 ^ 32 by omega) (show x2 < 2 ^ 32 by omega) hhalf
  have hext : extent x1 x2 = x2 - x1 := by
    rw [extent, hsub]
    omega
  have hext' : extent y y = 0 := by rw [extent, Int.sub_self, Int.natAbs_zero]
  rw [moved_eq (by omega) hy (by omega) hy hhalf Iff.rfl, hext, hext']
  rcases Nat.eq_zero_or_pos (x2 - x1) with hzero | hpos
  · obtain rfl : k = 0 := by omega
    rfl
  · exact walk_flat hpos (int32_of_range (by omega) (by omega)) k

theorem linePlots_horizontal (hle : x1 ≤ x2) (hx : x2 < 2 ^ 29) (hy : y < 2 ^ 32) :
    linePlots x1 y x2 y (x2 - x1 + 1) =
      some ((List.range (x2 - x1 + 1)).map fun k => (x1 + k, y)) := by
  have hy0 : along y y 0 = y := by
    have halong := along_eq y y 0
    omega
  refine ((linePlots_iff _ _).mpr ⟨⟨fun k hk hat => ?_, ?_⟩, ?_⟩).1
  · rw [atEnd_iff (by omega) hy, moved_horizontal hle hx hy (Nat.le_of_lt hk),
      along_right hle hx (Nat.le_of_lt hk)] at hat
    omega
  · rw [atEnd_iff (by omega) hy, moved_horizontal hle hx hy (Nat.le_refl _),
      along_right hle hx (Nat.le_refl _)]
    exact ⟨by omega, hy0⟩
  · refine List.map_congr_left fun k hk => ?_
    have hk' : k ≤ x2 - x1 := Nat.le_of_lt_succ (List.mem_range.mp hk)
    rw [plot_eq (by omega) hy, moved_horizontal hle hx hy hk', along_right hle hx hk', hy0]

theorem ends_plotted {x1 y1 x2 y2 fuel : Nat} {ps : List (Nat × Nat)}
    (h : linePlots x1 y1 x2 y2 fuel = some ps) : (x1, y1) ∈ ps ∧ (x2, y2) ∈ ps := by
  obtain ⟨n, hn, hstop⟩ := Line.stopsAt_of_lineLoop h
  have hps := (foldl_plots _ []).symm.trans
    (Option.some.inj ((Line.lineLoop_of_stopsAt hstop hn).symm.trans h))
  rw [List.nil_append] at hps
  rw [← hps]
  refine ⟨List.mem_map.mpr ⟨0, List.mem_range.mpr (Nat.succ_pos n), rfl⟩,
    List.mem_map.mpr ⟨n, List.mem_range.mpr (Nat.lt_succ_self n), ?_⟩⟩
  exact Prod.ext hstop.2.1 hstop.2.2

end Horizontal

end HouseOS.Vesa
