import Mathlib.Data.List.Basic
import Mathlib.Data.List.Induction
import Mathlib.Logic.Relation
import Mathlib.Tactic.Common

namespace HouseOS.DepthFirst

open Relation

variable {α : Type}

inductive Outcome (α : Type) where
  | found (a : α)
  | missing
  | full
  deriving DecidableEq

section Machine

variable (kids : α → List α) (goal : α → Prop) [DecidablePred goal] (room : Nat)

-- the children go on the stack in their order, so that the last one comes off first
def search : Nat → List α → Option (Outcome α)
  | 0, _ => none
  | _ + 1, [] => some .missing
  | fuel + 1, a :: rest =>
      if goal a then some (.found a)
      else if room < rest.length + (kids a).length then some .full
      else search fuel ((kids a).reverse ++ rest)

def Reaches : α → α → Prop := ReflTransGen fun a b => b ∈ kids a

def Hidden (a : α) : Prop := ∀ b, Reaches kids a b → ¬goal b

-- as far as the search comes below `a`, with `n` others on the stack, there is an end and room
inductive Fits : Nat → α → Prop where
  | goal {n : Nat} {a : α} (h : goal a) : Fits n a
  | kids {n : Nat} {a : α} (hroom : n + (kids a).length ≤ room)
      (h : ∀ l b r, kids a = l ++ b :: r → (∀ c ∈ r, Hidden kids goal c) → Fits (n + l.length) b) :
      Fits n a

end Machine

section Results

variable {kids : α → List α} {goal : α → Prop} [DecidablePred goal] {room fuel n : Nat} {a b : α}
  {stack rest : List α}

omit [DecidablePred goal] in
theorem hidden_iff : Hidden kids goal a ↔ ¬goal a ∧ ∀ b ∈ kids a, Hidden kids goal b := by
  constructor
  · intro h
    exact ⟨h a .refl, fun b hb c hc => h c (.head hb hc)⟩
  · rintro ⟨ha, hkids⟩ b hb
    rcases ReflTransGen.cases_head hb with rfl | ⟨c, hc, hcb⟩
    · exact ha
    · exact hkids c hc b hcb

theorem search_goal (ha : goal a) : search kids goal room (fuel + 1) (a :: rest) = some (.found a) :=
  if_pos ha

theorem search_push (ha : ¬goal a) (hroom : rest.length + (kids a).length ≤ room) :
    search kids goal room (fuel + 1) (a :: rest) =
      search kids goal room fuel ((kids a).reverse ++ rest) := by
  rw [search, if_neg ha, if_neg (Nat.not_lt.mpr hroom)]

theorem search_full (ha : ¬goal a) (hroom : room < rest.length + (kids a).length) :
    search kids goal room (fuel + 1) (a :: rest) = some .full := by
  rw [search, if_neg ha, if_pos hroom]

theorem search_found (h : search kids goal room fuel stack = some (.found b)) :
    goal b ∧ ∃ a ∈ stack, Reaches kids a b := by
  induction fuel generalizing stack with
  | zero => cases h
  | succ fuel ih =>
    cases stack with
    | nil => cases h
    | cons a rest =>
      by_cases ha : goal a
      · rw [search_goal ha] at h
        cases h
        exact ⟨ha, _, List.mem_cons_self, .refl⟩
      · by_cases hroom : rest.length + (kids a).length ≤ room
        · rw [search_push ha hroom] at h
          obtain ⟨hb, c, hc, hreach⟩ := ih h
          rcases List.mem_append.mp hc with hc | hc
          · exact ⟨hb, a, List.mem_cons_self, .head (List.mem_reverse.mp hc) hreach⟩
          · exact ⟨hb, c, List.mem_cons_of_mem a hc, hreach⟩
        · rw [search_full ha (Nat.lt_of_not_le hroom)] at h
          cases h

theorem search_missing (h : search kids goal room fuel stack = some .missing) :
    ∀ a ∈ stack, Hidden kids goal a := by
  induction fuel generalizing stack with
  | zero => cases h
  | succ fuel ih =>
    cases stack with
    | nil => exact fun _ hc => (List.not_mem_nil hc).elim
    | cons a rest =>
      by_cases ha : goal a
      · rw [search_goal ha] at h
        cases h
      · by_cases hroom : rest.length + (kids a).length ≤ room
        · rw [search_push ha hroom] at h
          have hall := ih h
          rw [List.forall_mem_cons]
          refine ⟨hidden_iff.mpr ⟨ha, fun b hb => ?_⟩, fun b hb => ?_⟩
          · exact hall b (List.mem_append_left _ (List.mem_reverse.mpr hb))
          · exact hall b (List.mem_append_right _ hb)
        · rw [search_full ha (Nat.lt_of_not_le hroom)] at h
          cases h

variable (kids goal room) in
def Ends (fuel : Nat) (stack : List α) : Prop :=
  ∃ o, search kids goal room fuel stack = some o ∧ o ≠ .full

theorem ends_push (ha : ¬goal a) (h : Ends kids goal room fuel (a :: rest)) :
    rest.length + (kids a).length ≤ room ∧
      ∃ less < fuel, Ends kids goal room less ((kids a).reverse ++ rest) := by
  obtain ⟨o, ho, hfull⟩ := h
  cases fuel with
  | zero => cases ho
  | succ fuel =>
    by_cases hroom : rest.length + (kids a).length ≤ room
    · rw [search_push ha hroom] at ho
      exact ⟨hroom, fuel, Nat.lt_succ_self fuel, o, ho, hfull⟩
    · rw [search_full ha (Nat.lt_of_not_le hroom)] at ho
      cases ho
      exact (hfull rfl).elim

theorem ends_drained {ys : List α} (hys : ∀ y ∈ ys, Hidden kids goal y)
    (h : Ends kids goal room fuel (ys ++ rest)) : ∃ less ≤ fuel, Ends kids goal room less rest := by
  induction fuel using Nat.strongRecOn generalizing ys with
  | ind fuel ih =>
    cases ys with
    | nil => exact ⟨fuel, Nat.le_refl fuel, h⟩
    | cons y ys =>
      rw [List.forall_mem_cons] at hys
      rw [List.cons_append] at h
      obtain ⟨hy, hkids⟩ := hidden_iff.mp hys.1
      obtain ⟨-, less, hless, hends⟩ := ends_push hy h
      rw [← List.append_assoc] at hends
      have hall : ∀ z ∈ (kids y).reverse ++ ys, Hidden kids goal z := by
        intro z hz
        rcases List.mem_append.mp hz with hz | hz
        · exact hkids z (List.mem_reverse.mp hz)
        · exact hys.2 z hz
      obtain ⟨last, hlast, hrest⟩ := ih less hless hall hends
      exact ⟨last, by omega, hrest⟩

theorem fits_of_ends (h : Ends kids goal room fuel (a :: rest)) :
    Fits kids goal room rest.length a := by
  induction fuel using Nat.strongRecOn generalizing a rest with
  | ind fuel ih =>
    by_cases ha : goal a
    · exact .goal ha
    obtain ⟨hroom, less, hless, hends⟩ := ends_push ha h
    refine .kids hroom fun l b r hkids hr => ?_
    have hstack : (kids a).reverse ++ rest = r.reverse ++ b :: (l.reverse ++ rest) := by
      rw [hkids]
      simp
    rw [hstack] at hends
    obtain ⟨last, hlast, hb⟩ := ends_drained (fun c hc => hr c (List.mem_reverse.mp hc)) hends
    have hfits := ih last (by omega) hb
    rw [List.length_append, List.length_reverse, Nat.add_comm] at hfits
    exact hfits

def Passes (kids : α → List α) (goal : α → Prop) [DecidablePred goal] (room : Nat)
    (above rest : List α) : Prop :=
  ((∀ a ∈ above, Hidden kids goal a) ∧ ∃ k, ∀ fuel,
      search kids goal room (fuel + k) (above ++ rest) = search kids goal room fuel rest) ∨
    ∃ k b, search kids goal room k (above ++ rest) = some (.found b)

theorem passes_nil : Passes kids goal room [] rest :=
  .inl ⟨fun _ h => (List.not_mem_nil h).elim, 0, fun _ => rfl⟩

theorem passes_kids (ha : ¬goal a) (hroom : rest.length + (kids a).length ≤ room)
    (h : Passes kids goal room (kids a).reverse rest) : Passes kids goal room [a] rest := by
  rcases h with ⟨hhidden, k, hk⟩ | ⟨k, b, hk⟩
  · refine .inl ⟨fun b hb => ?_, k + 1, fun fuel => ?_⟩
    · obtain rfl := List.mem_singleton.mp hb
      exact hidden_iff.mpr ⟨ha, fun c hc => hhidden c (List.mem_reverse.mpr hc)⟩
    · rw [List.singleton_append, ← Nat.add_assoc, search_push ha hroom, hk]
  · refine .inr ⟨k + 1, b, ?_⟩
    rw [List.singleton_append, search_push ha hroom, hk]

theorem passes_cons {above : List α} (hfirst : Passes kids goal room [b] (above ++ rest))
    (h : Hidden kids goal b → Passes kids goal room above rest) :
    Passes kids goal room (b :: above) rest := by
  rcases hfirst with ⟨hhidden, k, hk⟩ | ⟨k, c, hk⟩
  · have hb := hhidden b List.mem_cons_self
    rcases h hb with ⟨habove, j, hj⟩ | ⟨j, c, hj⟩
    · refine .inl ⟨List.forall_mem_cons.mpr ⟨hb, habove⟩, j + k, fun fuel => ?_⟩
      rw [List.cons_append, ← List.singleton_append, ← Nat.add_assoc, hk, hj]
    · refine .inr ⟨j + k, c, ?_⟩
      rw [List.cons_append, ← List.singleton_append, hk, hj]
  · exact .inr ⟨k, c, hk⟩

theorem passes_of_fits (h : Fits kids goal room n a) (hn : rest.length = n) :
    Passes kids goal room [a] rest := by
  induction h generalizing rest with
  | goal ha => exact .inr ⟨1, _, search_goal ha⟩
  | @kids n a hroom hkids ih =>
    by_cases ha : goal a
    · exact .inr ⟨1, a, search_goal ha⟩
    -- the children from the last one on, those behind it hidden
    have hpass (l r : List α) (hl : kids a = l ++ r) (hr : ∀ c ∈ r, Hidden kids goal c) :
        Passes kids goal room l.reverse rest := by
      induction l using List.reverseRecOn generalizing r with
      | nil => exact passes_nil
      | append_singleton l b ihl =>
        have hsplit : kids a = l ++ b :: r := by rw [hl, List.append_assoc, List.singleton_append]
        rw [List.reverse_append, List.reverse_singleton, List.singleton_append]
        refine passes_cons (ih l b r hsplit hr ?_) fun hb => ?_
        · rw [List.length_append, List.length_reverse, hn, Nat.add_comm]
        · exact ihl (b :: r) hsplit (List.forall_mem_cons.mpr ⟨hb, hr⟩)
    refine passes_kids ha (hn ▸ hroom) (hpass (kids a) [] (List.append_nil _).symm ?_)
    exact fun _ h => (List.not_mem_nil h).elim

theorem ends_of_fits (h : Fits kids goal room 0 a) : ∃ fuel, Ends kids goal room fuel [a] := by
  have hpass : Passes kids goal room [a] [] := passes_of_fits h rfl
  rcases hpass with ⟨-, k, hk⟩ | ⟨k, b, hk⟩
  · exact ⟨1 + k, .missing, hk 1, nofun⟩
  · exact ⟨k, .found b, hk, nofun⟩

theorem ends_iff_fits : (∃ fuel, Ends kids goal room fuel [a]) ↔ Fits kids goal room 0 a :=
  ⟨fun ⟨_, h⟩ => fits_of_ends h, ends_of_fits⟩

end Results

end HouseOS.DepthFirst
