import Mathlib.Tactic.Common

namespace HouseOS.Scan

variable {σ ε : Type} {body : Nat → σ → Option ε × σ} {passes ok : Nat → Prop} {good : σ → Prop}

def scan (body : Nat → σ → Option ε × σ) : Nat → Nat → σ → Option ε × σ
  | 0, _, s => (none, s)
  | n + 1, i, s =>
      match body i s with
      | (some e, s) => (some e, s)
      | (none, s) => scan body n (i + 1) s

theorem scan_stop {n i : Nat} {s s' : σ} {e : ε} (h : body i s = (some e, s')) :
    scan body (n + 1) i s = (some e, s') := by
  simp only [scan, h]

theorem scan_go {n i : Nat} {s s' : σ} (h : body i s = (none, s')) :
    scan body (n + 1) i s = scan body n (i + 1) s' := by
  simp only [scan, h]

theorem scan_none_iff (body : Nat → σ → Option ε × σ) (hpass : ∀ i s, (body i s).1 = none ↔ passes i) :
    ∀ (n i : Nat) (s : σ),
      (scan body n i s).1 = none ↔ ∀ j, i ≤ j → j < i + n → passes j := by
  intro n
  induction n with
  | zero =>
    intro i s
    simp only [scan, true_iff]
    intro j _ _
    omega
  | succ n ih =>
    intro i s
    rcases hb : body i s with ⟨_ | e, s'⟩
    · have hi : passes i := (hpass i s).mp (by rw [hb])
      rw [scan_go hb, ih]
      constructor
      · intro h j hij hj
        by_cases heq : j = i
        · exact heq ▸ hi
        · exact h j (by omega) (by omega)
      · intro h j hij hj
        exact h j (by omega) (by omega)
    · have hi : ¬ passes i := fun hi => by
        have := (hpass i s).mpr hi
        rw [hb] at this
        cases this
      rw [scan_stop hb]
      constructor
      · intro h
        cases h
      · intro h
        exact absurd (h i (Nat.le_refl _) (by omega)) hi

theorem scan_good_iff (body : Nat → σ → Option ε × σ) (good : σ → Prop) (bound : Nat)
    (hpass : ∀ i s, (body i s).1 = none ↔ passes i)
    (hgood : ∀ i s, i < bound → (good (body i s).2 ↔ good s ∧ ok i)) :
    ∀ (n i : Nat) (s : σ), i + n ≤ bound →
      (good (scan body n i s).2 ↔
        good s ∧ ∀ k, i ≤ k → k < i + n → (∀ j, i ≤ j → j < k → passes j) → ok k) := by
  intro n
  induction n with
  | zero =>
    intro i s _
    simp only [scan]
    constructor
    · intro h
      exact ⟨h, fun k _ _ _ => by omega⟩
    · exact fun h => h.1
  | succ n ih =>
    intro i s hbound
    have hi := hgood i s (by omega)
    rcases hb : body i s with ⟨_ | e, s'⟩
    · have hp : passes i := (hpass i s).mp (by rw [hb])
      rw [hb] at hi
      rw [scan_go hb, ih (i + 1) s' (by omega), hi]
      constructor
      · rintro ⟨⟨hs, hoki⟩, h⟩
        refine ⟨hs, fun k hik hk hbefore => ?_⟩
        by_cases heq : k = i
        · exact heq ▸ hoki
        · exact h k (by omega) (by omega) (fun j hj hjk => hbefore j (by omega) hjk)
      · rintro ⟨hs, h⟩
        refine ⟨⟨hs, h i (Nat.le_refl _) (by omega) (fun j _ _ => by omega)⟩, fun k hik hk hbefore => ?_⟩
        refine h k (by omega) (by omega) (fun j hj hjk => ?_)
        by_cases heq : j = i
        · exact heq ▸ hp
        · exact hbefore j (by omega) hjk
    · have hp : ¬ passes i := fun hp => by
        have := (hpass i s).mpr hp
        rw [hb] at this
        cases this
      rw [hb] at hi
      rw [scan_stop hb, hi]
      constructor
      · rintro ⟨hs, hoki⟩
        refine ⟨hs, fun k hik hk hbefore => ?_⟩
        by_cases heq : k = i
        · exact heq ▸ hoki
        · exact absurd (hbefore i (Nat.le_refl _) (by omega)) hp
      · rintro ⟨hs, h⟩
        exact ⟨hs, h i (Nat.le_refl _) (by omega) (fun j _ _ => by omega)⟩

theorem scan_invariant (body : Nat → σ → Option ε × σ) (good : σ → Prop)
    (hgood : ∀ i s, good s → good (body i s).2) :
    ∀ (n i : Nat) (s : σ), good s → good (scan body n i s).2 := by
  intro n
  induction n with
  | zero =>
    intro i s hs
    exact hs
  | succ n ih =>
    intro i s hs
    have hi := hgood i s hs
    rcases hb : body i s with ⟨_ | e, s'⟩
    · rw [scan_go hb]
      exact ih (i + 1) s' (by rwa [hb] at hi)
    · rw [scan_stop hb]
      rwa [hb] at hi

theorem scan_invariant_lt (body : Nat → σ → Option ε × σ) (good : σ → Prop) (bound : Nat)
    (hgood : ∀ i s, i < bound → good s → good (body i s).2) :
    ∀ (n i : Nat) (s : σ), i + n ≤ bound → good s → good (scan body n i s).2 := by
  intro n
  induction n with
  | zero =>
    intro i s _ hs
    exact hs
  | succ n ih =>
    intro i s hbound hs
    have hi := hgood i s (by omega) hs
    rcases hb : body i s with ⟨_ | e, s'⟩
    · rw [scan_go hb]
      exact ih (i + 1) s' (by omega) (by rwa [hb] at hi)
    · rw [scan_stop hb]
      rwa [hb] at hi

theorem scan_project (body : Nat → σ → Option ε × σ) (good : Nat → Bool) {τ : Type} (π : σ → τ)
    (act : Nat → τ → τ)
    (hgo : ∀ i s, good i = true → (body i s).1 = none ∧ π (body i s).2 = act i (π s))
    (hstop : ∀ i s, good i = false → (body i s).1 ≠ none ∧ π (body i s).2 = π s) :
    ∀ (n i : Nat) (s : σ), π (scan body n i s).2 =
      ((List.range' i n).takeWhile good).foldl (fun t j => act j t) (π s) := by
  intro n
  induction n with
  | zero =>
    intro i s
    rfl
  | succ n ih =>
    intro i s
    rw [List.range'_succ]
    cases hg : good i with
    | true =>
      obtain ⟨hnone, hact⟩ := hgo i s hg
      rcases hb : body i s with ⟨_ | e, s'⟩
      · rw [hb] at hact
        rw [scan_go hb, ih, hact, List.takeWhile_cons_of_pos hg, List.foldl_cons]
      · rw [hb] at hnone
        cases hnone
    | false =>
      obtain ⟨hsome, hact⟩ := hstop i s hg
      rcases hb : body i s with ⟨_ | e, s'⟩
      · rw [hb] at hsome
        exact absurd rfl hsome
      · rw [hb] at hact
        rw [scan_stop hb, hact, List.takeWhile_cons_of_neg (by simp [hg])]
        rfl

theorem scan_project_all (body : Nat → σ → Option ε × σ) (passes : Nat → Prop) {τ : Type} (π : σ → τ) (act : Nat → τ → τ)
    (hgo : ∀ i s, passes i → (body i s).1 = none ∧ π (body i s).2 = act i (π s)) :
    ∀ (n i : Nat) (s : σ), (∀ j, i ≤ j → j < i + n → passes j) →
      π (scan body n i s).2 = (List.range' i n).foldl (fun t j => act j t) (π s) := by
  intro n
  induction n with
  | zero =>
    intro i s _
    rfl
  | succ n ih =>
    intro i s hall
    obtain ⟨hnone, hact⟩ := hgo i s (hall i (Nat.le_refl _) (by omega))
    rcases hb : body i s with ⟨_ | e, s'⟩
    · rw [hb] at hact
      rw [List.range'_succ, scan_go hb, ih _ _ (fun j hj hjn => hall j (by omega) (by omega)), hact,
        List.foldl_cons]
    · rw [hb] at hnone
      cases hnone

end HouseOS.Scan
