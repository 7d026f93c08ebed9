import Mathlib.Data.List.Basic
import Mathlib.Data.Set.Finite.Basic
import Mathlib.Data.Fintype.Pigeonhole
import Mathlib.Tactic.Common

namespace HouseOS.Loop

inductive Step (σ ρ : Type) where
  | go (s : σ)
  | ret (r : ρ)

variable {σ ρ α : Type}

def loop (f : σ → Step σ ρ) : Nat → σ → Option ρ
  | 0, _ => none
  | n + 1, s =>
      match f s with
      | .ret r => some r
      | .go s' => loop f n s'

def Returns (f : σ → Step σ ρ) (s : σ) : Prop := ∃ n r, loop f n s = some r

def orbit (f : σ → Step σ ρ) : Nat → σ → Option σ
  | 0, s => some s
  | n + 1, s =>
      match f s with
      | .ret _ => none
      | .go s' => orbit f n s'

def Revisits (f : σ → Step σ ρ) (s : σ) : Prop :=
  ∃ i j t, i < j ∧ orbit f i s = some t ∧ orbit f j s = some t

theorem loop_ret {f : σ → Step σ ρ} {s : σ} {r : ρ} (h : f s = .ret r) (n : Nat) :
    loop f (n + 1) s = some r := by
  simp [loop, h]

theorem loop_go {f : σ → Step σ ρ} {s s' : σ} (h : f s = .go s') (n : Nat) :
    loop f (n + 1) s = loop f n s' := by
  simp [loop, h]

theorem loop_mono {f : σ → Step σ ρ} {n m : Nat} {s : σ} {r : ρ} (hnm : n ≤ m)
    (h : loop f n s = some r) : loop f m s = some r := by
  induction n generalizing m s with
  | zero => simp [loop] at h
  | succ n ih =>
    obtain ⟨m, rfl⟩ : ∃ k, m = k + 1 := ⟨m - 1, by omega⟩
    cases hf : f s with
    | ret q => rw [loop_ret hf] at h ⊢; exact h
    | go s' =>
      rw [loop_go hf] at h ⊢
      exact ih (by omega) h

theorem orbit_add {f : σ → Step σ ρ} {i k : Nat} {s t : σ} (h : orbit f i s = some t) :
    orbit f (i + k) s = orbit f k t := by
  induction i generalizing s with
  | zero => cases h; rw [Nat.zero_add]
  | succ i ih =>
    rw [Nat.succ_add]
    cases hf : f s with
    | ret r => simp [orbit, hf] at h
    | go s' =>
      simp only [orbit, hf] at h ⊢
      exact ih h

theorem returns_iff_orbit_stops {f : σ → Step σ ρ} {s : σ} :
    Returns f s ↔ ∃ n, orbit f n s = none := by
  constructor
  · rintro ⟨n, r, h⟩
    refine ⟨n, ?_⟩
    induction n generalizing s with
    | zero => simp [loop] at h
    | succ n ih =>
      cases hf : f s with
      | ret q => simp [orbit, hf]
      | go s' => rw [loop_go hf] at h; simpa [orbit, hf] using ih h
  · rintro ⟨n, h⟩
    induction n generalizing s with
    | zero => simp [orbit] at h
    | succ n ih =>
      cases hf : f s with
      | ret q => exact ⟨1, q, loop_ret hf 0⟩
      | go s' =>
        simp only [orbit, hf] at h
        obtain ⟨m, r, hm⟩ := ih h
        exact ⟨m + 1, r, by rw [loop_go hf]; exact hm⟩

theorem orbit_none_mono {f : σ → Step σ ρ} {i k : Nat} {s : σ} (h : orbit f i s = none) :
    orbit f (i + k) s = none := by
  induction i generalizing s with
  | zero => simp [orbit] at h
  | succ i ih =>
    rw [Nat.succ_add]
    cases hf : f s with
    | ret r => simp [orbit, hf]
    | go s' =>
      simp only [orbit, hf] at h ⊢
      exact ih h

theorem returns_iff_ret {f : σ → Step σ ρ} {s : σ} :
    Returns f s ↔ ∃ n t r, orbit f n s = some t ∧ f t = .ret r := by
  constructor
  · rintro ⟨n, r, h⟩
    induction n generalizing s with
    | zero => cases h
    | succ n ih =>
      cases hf : f s with
      | ret q => exact ⟨0, s, q, rfl, hf⟩
      | go s' =>
        rw [loop_go hf] at h
        obtain ⟨m, t, q, ht, hq⟩ := ih h
        exact ⟨m + 1, t, q, by simpa [orbit, hf] using ht, hq⟩
  · rintro ⟨n, t, r, ht, hr⟩
    refine returns_iff_orbit_stops.mpr ⟨n + 1, ?_⟩
    rw [orbit_add ht]
    simp [orbit, hr]

theorem orbit_map {τ κ : Type} {f : σ → Step σ ρ} {h : τ → Step τ κ} {g : σ → τ}
    (hgo : ∀ s s', f s = .go s' → h (g s) = .go (g s')) {n : Nat} {s t : σ}
    (ht : orbit f n s = some t) : orbit h n (g s) = some (g t) := by
  induction n generalizing s with
  | zero =>
    cases ht
    rfl
  | succ n ih =>
    cases hf : f s with
    | ret r => simp [orbit, hf] at ht
    | go s' =>
      simp only [orbit, hf] at ht
      simpa [orbit, hgo s s' hf] using ih ht

theorem orbit_mem {f : σ → Step σ ρ} {P : σ → Prop} (hgo : ∀ s s', f s = .go s' → P s') {n : Nat}
    {s t : σ} (ht : orbit f n s = some t) : t = s ∨ P t := by
  induction n generalizing s with
  | zero =>
    cases ht
    exact Or.inl rfl
  | succ n ih =>
    cases hf : f s with
    | ret r => simp [orbit, hf] at ht
    | go s' =>
      simp only [orbit, hf] at ht
      rcases ih ht with heq | hp
      · rw [heq]
        exact Or.inr (hgo s s' hf)
      · exact Or.inr hp

theorem not_returns_of_revisits {f : σ → Step σ ρ} {s : σ} (h : Revisits f s) :
    ¬ Returns f s := by
  obtain ⟨i, j, t, hij, hi, hj⟩ := h
  rw [returns_iff_orbit_stops]
  rintro ⟨n, hn⟩
  obtain ⟨p, rfl⟩ : ∃ p, j = i + p := ⟨j - i, by omega⟩
  rw [orbit_add hi] at hj
  have hcycle : ∀ m, orbit f (m * p) t = some t := by
    intro m
    induction m with
    | zero => simp [orbit]
    | succ m ih => rw [Nat.succ_mul, orbit_add ih, hj]
  have hstop : orbit f (n * p) t = none := by
    have hle : n ≤ i + n * p := by
      have : n * 1 ≤ n * p := Nat.mul_le_mul_left n (by omega)
      omega
    obtain ⟨k, hk⟩ := Nat.exists_eq_add_of_le hle
    rw [← orbit_add hi, hk]
    exact orbit_none_mono hn
  rw [hcycle n] at hstop
  cases hstop

theorem returns_iff_not_revisits {f : σ → Step σ ρ} {s : σ} {S : Set σ} (hS : S.Finite)
    (hmem : ∀ n t, orbit f n s = some t → t ∈ S) : Returns f s ↔ ¬ Revisits f s := by
  constructor
  · intro hr hv
    exact not_returns_of_revisits hv hr
  · intro hv
    by_contra hr
    rw [returns_iff_orbit_stops] at hr
    push Not at hr
    have hsome : ∀ n, ∃ t, orbit f n s = some t := fun n => Option.ne_none_iff_exists'.mp (hr n)
    choose g hg using hsome
    have hgS : ∀ n, g n ∈ S := fun n => hmem n (g n) (hg n)
    have : Finite S := hS
    obtain ⟨i, j, hne, heq⟩ :=
      Finite.exists_ne_map_eq_of_infinite (fun n => (⟨g n, hgS n⟩ : S))
    have heq : g i = g j := congrArg Subtype.val heq
    rcases Nat.lt_or_gt_of_ne hne with hlt | hlt
    · exact hv ⟨i, j, g i, hlt, hg i, by rw [heq]; exact hg j⟩
    · exact hv ⟨j, i, g j, hlt, hg j, by rw [← heq]; exact hg i⟩

end HouseOS.Loop
