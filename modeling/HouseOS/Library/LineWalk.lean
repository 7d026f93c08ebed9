import Mathlib.Data.Int.GCD
import Mathlib.Tactic.Common
import Mathlib.Tactic.Ring
import Mathlib.Tactic.LinearCombination

namespace HouseOS.LineWalk

-- a line of `p` columns and `q` rows drawn by an error term, after `a` column and `b` row moves
def excess (p q a b : Nat) : Int := (p : Int) - q - a * q + b * p

-- `r` is the doubled error as the machine reads it
def walk (p q : Nat) (r : Int → Int) : Nat → Nat × Nat
  | 0 => (0, 0)
  | k + 1 =>
      let s := walk p q r k
      let e := r (excess p q s.1 s.2)
      (if -(q : Int) < e then s.1 + 1 else s.1, if e < p then s.2 + 1 else s.2)

structure Doubles (r : Int → Int) : Prop where
  wraps : ∀ e, ∃ j : Int, r e = 2 * e - 2 ^ 32 * j
  lower : ∀ e, -2 ^ 31 ≤ r e
  upper : ∀ e, r e ≤ 2 ^ 31

variable {p q k : Nat} {r : Int → Int} {e : Int}

theorem excess_column (p q a b : Nat) : excess p q (a + 1) b = excess p q a b - q := by
  simp only [excess]
  push_cast
  ring

theorem excess_row (p q a b : Nat) : excess p q a (b + 1) = excess p q a b + p := by
  simp only [excess]
  push_cast
  ring

def errAt (p q : Nat) (r : Int → Int) (k : Nat) : Int :=
  excess p q (walk p q r k).1 (walk p q r k).2

theorem walk_succ (p q : Nat) (r : Int → Int) (k : Nat) : walk p q r (k + 1) =
    (if -(q : Int) < r (errAt p q r k) then (walk p q r k).1 + 1 else (walk p q r k).1,
      if r (errAt p q r k) < p then (walk p q r k).2 + 1 else (walk p q r k).2) := rfl

theorem errAt_succ (hmove : -(q : Int) < r (errAt p q r k)) : errAt p q r (k + 1) =
    if r (errAt p q r k) < p then errAt p q r k - q + p else errAt p q r k - q := by
  have hsucc := walk_succ p q r k
  rw [if_pos hmove] at hsucc
  rw [errAt, hsucc]
  dsimp only
  split
  next => rw [excess_row, excess_column]; rfl
  next => rw [excess_column]; rfl

theorem walk_swap (p q : Nat) (r : Int → Int) (k : Nat) :
    walk q p r k = (walk p q (fun e => -r (-e)) k).swap := by
  induction k with
  | zero => rfl
  | succ k ih =>
    have hexcess (a b : Nat) : excess q p b a = -excess p q a b := by
      simp only [excess]
      ring
    simp only [walk, ih, Prod.fst_swap, Prod.snd_swap, Prod.swap_prod_mk, hexcess]
    refine Prod.ext ?_ ?_ <;> dsimp only <;> congr 1 <;> rw [eq_iff_iff] <;> omega

-- the error stays in an interval of length `p` as long as it is read without wrapping
structure OnLine (p q k : Nat) (r : Int → Int) : Prop where
  column : (walk p q r k).1 = k
  lower : (p : Int) - 2 * q ≤ 2 * errAt p q r k
  upper : 2 * errAt p q r k < 3 * p - 2 * q

theorem onLine_zero (r : Int → Int) (hp : 0 < p) : OnLine p q 0 r := by
  have hzero : errAt p q r 0 = (p : Int) - q := by simp [errAt, excess, walk]
  exact ⟨rfl, by omega, by omega⟩

theorem OnLine.errAt_eq (h : OnLine p q k r) :
    errAt p q r k = (p : Int) - q - k * q + (walk p q r k).2 * p := by
  rw [errAt, excess, h.column]

theorem OnLine.moves (h : OnLine p q k r) (hqp : q ≤ p) (hp : 0 < p) :
    -(q : Int) < 2 * errAt p q r k := by
  have hlower := h.lower
  rcases Nat.lt_or_ge q p with hlt | hge
  · omega
  · obtain rfl : q = p := Nat.le_antisymm hqp hge
    -- on the diagonal the error is a multiple of `p`
    have hmul : errAt q q r k = q * ((walk q q r k).2 - k) := by
      rw [h.errAt_eq]
      ring
    have hpos : (0 : Int) ≤ (walk q q r k).2 - k := by
      by_contra hneg
      have hle : (q : Int) * ((walk q q r k).2 - k) ≤ q * (-1) :=
        Int.mul_le_mul_of_nonneg_left (by omega) (by omega)
      omega
    have hnonneg : 0 ≤ errAt q q r k := by
      rw [hmul]
      exact Int.mul_nonneg (by omega) hpos
    omega

theorem OnLine.succ (h : OnLine p q k r) (hqp : q ≤ p) (hp : 0 < p)
    (hread : r (errAt p q r k) = 2 * errAt p q r k) : OnLine p q (k + 1) r := by
  have hlower := h.lower
  have hupper := h.upper
  have hmoves := h.moves hqp hp
  have hmoves' : -(q : Int) < r (errAt p q r k) := by
    rw [hread]
    exact hmoves
  have hnext := errAt_succ hmoves'
  rw [hread] at hnext
  refine ⟨?_, ?_, ?_⟩
  · rw [walk_succ, if_pos hmoves', h.column]
  · rw [hnext]
    split <;> omega
  · rw [hnext]
    split <;> omega

theorem onLine_of_reads (hqp : q ≤ p) (hp : 0 < p) (n : Nat)
    (hreads : ∀ k < n, OnLine p q k r → r (errAt p q r k) = 2 * errAt p q r k) :
    ∀ k ≤ n, OnLine p q k r := by
  intro k
  induction k with
  | zero => exact fun _ => onLine_zero r hp
  | succ k ih =>
    intro hk
    have hline := ih (by omega)
    exact hline.succ hqp hp (hreads k (by omega) hline)

theorem factor_eq_zero {x t : Int} {p : Nat} (hx : x = p * t) (hlower : -(p : Int) < x)
    (hupper : x < p) : t = 0 := by
  rcases lt_trichotomy t 0 with hneg | hzero | hpos
  · have hle : (p : Int) * t ≤ p * (-1) := Int.mul_le_mul_of_nonneg_left (by omega) (by omega)
    omega
  · exact hzero
  · have hge : (p : Int) * 1 ≤ p * t := Int.mul_le_mul_of_nonneg_left (by omega) (by omega)
    omega

theorem OnLine.row_last (h : OnLine p q p r) : (walk p q r p).2 = q := by
  have hlower := h.lower
  have hupper := h.upper
  have hmul : errAt p q r p = (p : Int) - q + p * ((walk p q r p).2 - q) := by
    rw [h.errAt_eq]
    ring
  have hzero := factor_eq_zero (x := errAt p q r p - (p - q)) (t := (walk p q r p).2 - q) (p := p)
    (by omega) (by omega) (by omega)
  omega

theorem exists_column (hp : 0 < p) (hline : ∀ k < p, OnLine p q k r)
    (hdvd : ((Nat.gcd p q : Nat) : Int) ∣ e) (hlower : (p : Int) - 2 * q ≤ 2 * e)
    (hupper : 2 * e < 3 * p - 2 * q) : ∃ k < p, errAt p q r k = e := by
  obtain ⟨c, rfl⟩ := hdvd
  obtain ⟨k, hk⟩ : ∃ k : Nat, k = ((-1 - c * Nat.gcdB p q) % p).toNat := ⟨_, rfl⟩
  have hpos : (0 : Int) < p := by omega
  have hnonneg := Int.emod_nonneg (-1 - c * Nat.gcdB p q) (show (p : Int) ≠ 0 by omega)
  have hlt := Int.emod_lt_of_pos (-1 - c * Nat.gcdB p q) hpos
  have hkp : k < p := by omega
  refine ⟨k, hkp, ?_⟩
  have hl := (hline k hkp).lower
  have hu := (hline k hkp).upper
  -- both errors are the same modulo `p`
  obtain ⟨t, ht⟩ : (p : Int) ∣ errAt p q r k - Nat.gcd p q * c := by
    have hdiv := Int.emod_add_mul_ediv (-1 - c * Nat.gcdB p q) p
    have hkz : (k : Int) = (-1 - c * Nat.gcdB p q) % p := by omega
    rw [(hline k hkp).errAt_eq, Nat.gcd_eq_gcd_ab p q]
    refine ⟨1 + (walk p q r k).2 + q * ((-1 - c * Nat.gcdB p q) / p) - c * Nat.gcdA p q, ?_⟩
    rw [hkz]
    linear_combination (-(q : Int)) * hdiv
  have hzero := factor_eq_zero ht (by omega) (by omega)
  rw [hzero, Int.mul_zero] at ht
  omega

section Wrapped

-- once the error is past the wrap it stays there as long as the column moves
theorem past_stays (hr : Doubles r) (hqp : q ≤ p) (hp : p < 2 ^ 31)
    (hpast : 2 ^ 32 - (q : Int) ≤ 2 * errAt p q r k) (hmove : -(q : Int) < r (errAt p q r k)) :
    2 ^ 32 - (q : Int) ≤ 2 * errAt p q r (k + 1) := by
  obtain ⟨j, hj⟩ := hr.wraps (errAt p q r k)
  have hu := hr.upper (errAt p q r k)
  have hnext := errAt_succ hmove
  rw [hnext]
  split <;> omega

theorem OnLine.leaves (h : OnLine p q k r) (hr : Doubles r) (hqp : q ≤ p) (hp : p < 2 ^ 31)
    (hmisread : r (errAt p q r k) ≠ 2 * errAt p q r k) (hmove : -(q : Int) < r (errAt p q r k)) :
    2 ^ 32 - (q : Int) ≤ 2 * errAt p q r (k + 1) := by
  obtain ⟨j, hj⟩ := hr.wraps (errAt p q r k)
  have hl := hr.lower (errAt p q r k)
  have hu := hr.upper (errAt p q r k)
  have hlower := h.lower
  have hupper := h.upper
  have hnext := errAt_succ hmove
  rw [hnext]
  split <;> omega

theorem moves_of_column (hcol : ∀ k ≤ p, (walk p q r k).1 = k) (hk : k < p) :
    -(q : Int) < r (errAt p q r k) := by
  have hnext := hcol (k + 1) hk
  rw [walk_succ, hcol k (by omega)] at hnext
  by_contra hstay
  rw [if_neg hstay] at hnext
  omega

theorem past_to_end (hr : Doubles r) (hqp : q ≤ p) (hp : p < 2 ^ 31)
    (hcol : ∀ k ≤ p, (walk p q r k).1 = k) :
    ∀ n k, k + n = p → 2 ^ 32 - (q : Int) ≤ 2 * errAt p q r k →
      2 ^ 32 - (q : Int) ≤ 2 * errAt p q r p := by
  intro n
  induction n with
  | zero =>
    intro k hk hpast
    obtain rfl : k = p := hk
    exact hpast
  | succ n ih =>
    intro k hk hpast
    exact ih (k + 1) (by omega) (past_stays hr hqp hp hpast (moves_of_column hcol (by omega)))

theorem walk_exact_iff (hr : Doubles r) (hqp : q ≤ p) (hp0 : 0 < p) (hp : p < 2 ^ 31) :
    ((∀ k ≤ p, (walk p q r k).1 = k) ∧ (walk p q r p).2 = q) ↔
      ∀ e : Int, ((Nat.gcd p q : Nat) : Int) ∣ e → (p : Int) - 2 * q ≤ 2 * e →
        2 * e < 3 * p - 2 * q → r e = 2 * e := by
  constructor
  · rintro ⟨hcol, hrow⟩
    have hreads : ∀ k < p, OnLine p q k r → r (errAt p q r k) = 2 * errAt p q r k := by
      intro k hk hline
      by_contra hmisread
      have hpast := past_to_end hr hqp hp hcol (p - (k + 1)) (k + 1) (by omega)
        (hline.leaves hr hqp hp hmisread (moves_of_column hcol hk))
      have hend : errAt p q r p = (p : Int) - q := by
        rw [errAt, excess, hcol p (Nat.le_refl p), hrow]
        ring
      omega
    have hline := onLine_of_reads hqp hp0 p hreads
    intro e hdvd hlower hupper
    obtain ⟨k, hk, rfl⟩ := exists_column hp0 (fun k hk => hline k (by omega)) hdvd hlower hupper
    exact hreads k hk (hline k (by omega))
  · intro hexact
    have hreads : ∀ k < p, OnLine p q k r → r (errAt p q r k) = 2 * errAt p q r k := by
      intro k _ hline
      refine hexact _ ?_ hline.lower hline.upper
      rw [hline.errAt_eq]
      have hgp : ((Nat.gcd p q : Nat) : Int) ∣ p := Int.natCast_dvd_natCast.mpr (Nat.gcd_dvd_left p q)
      have hgq : ((Nat.gcd p q : Nat) : Int) ∣ q := Int.natCast_dvd_natCast.mpr (Nat.gcd_dvd_right p q)
      exact Int.dvd_add (Int.dvd_sub (Int.dvd_sub hgp hgq) (Int.dvd_mul_of_dvd_right hgq))
        (Int.dvd_mul_of_dvd_right hgp)
    have hline := onLine_of_reads hqp hp0 p hreads
    exact ⟨fun k hk => (hline k hk).column, (hline p (Nat.le_refl p)).row_last⟩

end Wrapped

end HouseOS.LineWalk
