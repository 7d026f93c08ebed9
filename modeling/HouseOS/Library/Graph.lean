import Mathlib.Logic.Relation
import Mathlib.Data.Set.Finite.Basic
import Mathlib.Data.Fintype.Order
import Mathlib.Order.WellFounded
import Mathlib.Tactic.Common

namespace HouseOS.Graph

open Relation

variable {α : Type*} {r : α → α → Prop} {a b x y : α}

def Acyclic (r : α → α → Prop) : Prop := ∀ a, ¬ TransGen r a a

def addEdge (r : α → α → Prop) (a b : α) : α → α → Prop := fun x y => r x y ∨ (x = a ∧ y = b)

theorem Acyclic.mono {r' : α → α → Prop} (h : Acyclic r) (hsub : ∀ x y, r' x y → r x y) :
    Acyclic r' :=
  fun x hx => h x (TransGen.mono hsub x x hx)

theorem reaches_addEdge (h : ReflTransGen (addEdge r a b) x y) :
    ReflTransGen r x y ∨ (ReflTransGen r x a ∧ ReflTransGen r b y) := by
  induction h with
  | refl => exact Or.inl .refl
  | tail _ hstep ih =>
    rcases hstep with hr | ⟨rfl, rfl⟩
    · rcases ih with hxy | ⟨hxa, hby⟩
      · exact Or.inl (hxy.tail hr)
      · exact Or.inr ⟨hxa, hby.tail hr⟩
    · rcases ih with hxa | ⟨hxa, _⟩
      · exact Or.inr ⟨hxa, .refl⟩
      · exact Or.inr ⟨hxa, .refl⟩

theorem Acyclic.addEdge (h : Acyclic r) (hback : ¬ ReflTransGen r b a) :
    Acyclic (addEdge r a b) := by
  intro x hx
  obtain ⟨z, hxz, hzx⟩ := TransGen.head'_iff.mp hx
  rcases hxz with hxz | ⟨rfl, rfl⟩
  · rcases reaches_addEdge hzx with hzx | ⟨hza, hbx⟩
    · exact h x (TransGen.head' hxz hzx)
    · exact hback ((hbx.tail hxz).trans hza)
  · rcases reaches_addEdge hzx with hzx | ⟨hza, _⟩
    · exact hback hzx
    · exact hback hza

theorem reaches_of_acyclic (h : Acyclic r) {S : Set α} (hfin : S.Finite) (root : α)
    (hpred : ∀ x ∈ S, x ≠ root → ∃ y ∈ S, r y x) : ∀ x ∈ S, ReflTransGen r root x := by
  have : Finite S := hfin
  let below : S → S → Prop := fun x y => TransGen r x y
  have : IsTrans S below := ⟨fun _ _ _ hxy hyz => TransGen.trans hxy hyz⟩
  have : Std.Irrefl below := ⟨fun x hx => h x hx⟩
  have hwf : WellFounded below := Finite.wellFounded_of_trans_of_irrefl below
  intro x hx
  let s : S := ⟨x, hx⟩
  show ReflTransGen r root s
  induction s using hwf.induction with
  | _ s ih =>
    by_cases heq : s.1 = root
    · rw [heq]
    · obtain ⟨y, hy, hys⟩ := hpred s.1 s.2 heq
      exact (ih ⟨y, hy⟩ (TransGen.single hys)).tail hys

end HouseOS.Graph
