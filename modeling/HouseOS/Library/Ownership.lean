import Mathlib.Data.List.Basic
import Mathlib.Tactic.Common

namespace HouseOS.Ownership

variable {H R : Type}

-- each holder has at most one resource; a resource in use may be held by nobody
structure Owned (owner : H → Option R) (used : R → Prop) : Prop where
  apart : ∀ h h' r, owner h = some r → owner h' = some r → h = h'
  covered : ∀ h r, owner h = some r → used r

def Tight (owner : H → Option R) (used : R → Prop) : Prop := ∀ r, used r → ∃ h, owner h = some r

section Moves

variable {owner owner' : H → Option R} {used used' : R → Prop} {a b : H} {r : R}

theorem Owned.congr (o : Owned owner used) (ho : ∀ h, owner' h = owner h)
    (hu : ∀ r, used' r ↔ used r) : Owned owner' used' where
  apart h h' r hr hr' := o.apart h h' r ((ho h).symm.trans hr) ((ho h').symm.trans hr')
  covered h r hr := (hu r).mpr (o.covered h r ((ho h).symm.trans hr))

theorem Tight.congr (t : Tight owner used) (ho : ∀ h, owner' h = owner h)
    (hu : ∀ r, used' r ↔ used r) : Tight owner' used' := by
  intro r hr
  obtain ⟨h, hh⟩ := t r ((hu r).mp hr)
  exact ⟨h, (ho h).trans hh⟩

theorem Owned.acquire (o : Owned owner used) (hfree : ¬ used r) (ha : owner' a = some r)
    (ho : ∀ h, h ≠ a → owner' h = owner h) (hu : ∀ x, used x → used' x) (hr : used' r) :
    Owned owner' used' := by
  have hold : ∀ h x, owner' h = some x → h = a ∧ x = r ∨ h ≠ a ∧ owner h = some x := by
    intro h x hx
    by_cases hha : h = a
    · rw [hha, ha] at hx
      exact Or.inl ⟨hha, (Option.some.inj hx).symm⟩
    · exact Or.inr ⟨hha, (ho h hha).symm.trans hx⟩
  refine ⟨fun h h' x hx hx' => ?_, fun h x hx => ?_⟩
  · rcases hold h x hx with ⟨rfl, rfl⟩ | ⟨_, hx⟩
    · rcases hold h' _ hx' with ⟨rfl, _⟩ | ⟨_, hx'⟩
      · rfl
      · exact absurd (o.covered h' _ hx') hfree
    · rcases hold h' x hx' with ⟨_, rfl⟩ | ⟨_, hx'⟩
      · exact absurd (o.covered h _ hx) hfree
      · exact o.apart h h' x hx hx'
  · rcases hold h x hx with ⟨_, rfl⟩ | ⟨_, hx⟩
    · exact hr
    · exact hu x (o.covered h x hx)

theorem Tight.acquire (t : Tight owner used) (hnone : owner a = none) (ha : owner' a = some r)
    (ho : ∀ h, h ≠ a → owner' h = owner h) (hu : ∀ x, used' x → used x ∨ x = r) :
    Tight owner' used' := by
  intro x hx
  rcases hu x hx with hx | rfl
  · obtain ⟨h, hh⟩ := t x hx
    have hne : h ≠ a := by
      rintro rfl
      rw [hnone] at hh
      cases hh
    exact ⟨h, (ho h hne).trans hh⟩
  · exact ⟨a, ha⟩

theorem Owned.release (o : Owned owner used) (ha : owner' a = none)
    (ho : ∀ h, h ≠ a → owner' h = owner h) (hu : ∀ x, used x → owner a ≠ some x → used' x) :
    Owned owner' used' := by
  have hold : ∀ h x, owner' h = some x → h ≠ a ∧ owner h = some x := by
    intro h x hx
    have hne : h ≠ a := by
      rintro rfl
      rw [ha] at hx
      cases hx
    exact ⟨hne, (ho h hne).symm.trans hx⟩
  refine ⟨fun h h' x hx hx' => o.apart h h' x (hold h x hx).2 (hold h' x hx').2, fun h x hx => ?_⟩
  obtain ⟨hne, hx⟩ := hold h x hx
  exact hu x (o.covered h x hx) (fun ha => hne (o.apart h a x hx ha))

theorem Tight.release (t : Tight owner used) (ho : ∀ h, h ≠ a → owner' h = owner h)
    (hu : ∀ x, used' x → used x ∧ owner a ≠ some x) : Tight owner' used' := by
  intro x hx
  obtain ⟨hx, hne⟩ := hu x hx
  obtain ⟨h, hh⟩ := t x hx
  refine ⟨h, (ho h ?_).trans hh⟩
  rintro rfl
  exact hne hh

theorem Owned.transfer (o : Owned owner used) (hab : a ≠ b) (ha : owner a = some r)
    (ha' : owner' a = none) (hb' : owner' b = some r)
    (ho : ∀ h, h ≠ a → h ≠ b → owner' h = owner h) : Owned owner' used := by
  have hold : ∀ h x, owner' h = some x → h = b ∧ x = r ∨ h ≠ a ∧ h ≠ b ∧ owner h = some x := by
    intro h x hx
    by_cases hha : h = a
    · rw [hha, ha'] at hx
      cases hx
    by_cases hhb : h = b
    · rw [hhb, hb'] at hx
      exact Or.inl ⟨hhb, (Option.some.inj hx).symm⟩
    · exact Or.inr ⟨hha, hhb, (ho h hha hhb).symm.trans hx⟩
  refine ⟨fun h h' x hx hx' => ?_, fun h x hx => ?_⟩
  · rcases hold h x hx with ⟨rfl, rfl⟩ | ⟨hha, _, hx⟩
    · rcases hold h' _ hx' with ⟨rfl, _⟩ | ⟨hha', _, hx'⟩
      · rfl
      · exact absurd (o.apart h' a _ hx' ha) hha'
    · rcases hold h' x hx' with ⟨_, rfl⟩ | ⟨_, _, hx'⟩
      · exact absurd (o.apart h a _ hx ha) hha
      · exact o.apart h h' x hx hx'
  · rcases hold h x hx with ⟨_, rfl⟩ | ⟨_, _, hx⟩
    · exact o.covered a _ ha
    · exact o.covered h x hx

theorem Tight.transfer (t : Tight owner used) (hb : owner b = none) (ha : owner a = some r)
    (hb' : owner' b = some r) (ho : ∀ h, h ≠ a → h ≠ b → owner' h = owner h) :
    Tight owner' used := by
  intro x hx
  obtain ⟨h, hh⟩ := t x hx
  by_cases hha : h = a
  · rw [hha, ha] at hh
    exact ⟨b, hb'.trans hh⟩
  · have hhb : h ≠ b := by
      rintro rfl
      rw [hb] at hh
      cases hh
    exact ⟨h, (ho h hha hhb).trans hh⟩

end Moves

end HouseOS.Ownership
