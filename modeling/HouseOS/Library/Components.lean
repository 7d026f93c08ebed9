import Mathlib.Data.List.TakeWhile
import Mathlib.Tactic.Common
import HouseOS.Library.Loop

namespace HouseOS.Components

variable {α : Type*} [DecidableEq α]

def components (sep : α) (p : List α) : List (List α) :=
  (p.splitOn sep).filter (fun c => decide (c ≠ []))

def AtBoundary (sep : α) (rest : List α) : Prop := ∀ c, rest.head? = some c → c = sep

instance (sep : α) (rest : List α) : Decidable (AtBoundary sep rest) :=
  match rest with
  | [] => .isTrue (by intro c h; simp at h)
  | c :: _ => decidable_of_iff (c = sep) (by simp [AtBoundary])

@[simp]
theorem components_nil (sep : α) : components sep [] = [] := by
  simp [components]

theorem components_append_cons (sep : α) (a b : List α) :
    components sep (a ++ sep :: b) = components sep a ++ components sep b := by
  simp only [components, List.splitOn_eq_splitOnP]
  rw [List.splitOnP_append_cons a b (by simp), List.filter_append]

@[simp]
theorem components_cons_sep (sep : α) (b : List α) :
    components sep (sep :: b) = components sep b := by
  simpa using components_append_cons sep [] b

theorem components_append (sep : α) (a : List α) {b : List α} (h : AtBoundary sep b) :
    components sep (a ++ b) = components sep a ++ components sep b := by
  cases b with
  | nil => simp
  | cons c b =>
    obtain rfl : c = sep := h c rfl
    rw [components_append_cons, components_cons_sep]

theorem components_of_forall_ne (sep : α) {c : List α} (hc : ∀ x ∈ c, x ≠ sep) (hne : c ≠ []) :
    components sep c = [c] := by
  have hsplit : c.splitOnP (· == sep) = [c] :=
    List.splitOnP_eq_singleton (by simpa using hc)
  simp [components, List.splitOn_eq_splitOnP, hsplit, hne]

theorem components_cons_component (sep : α) {c : List α} (hc : ∀ x ∈ c, x ≠ sep) (hne : c ≠ [])
    {rest : List α} (h : AtBoundary sep rest) :
    components sep (c ++ rest) = c :: components sep rest := by
  rw [components_append sep c h, components_of_forall_ne sep hc hne, List.singleton_append]

theorem components_prefix_of_prefix (sep : α) {a b : List α} (h : a <+: b)
    (hb : AtBoundary sep (b.drop a.length)) : components sep a <+: components sep b := by
  obtain ⟨rest, rfl⟩ := h
  rw [List.drop_left] at hb
  exact ⟨components sep rest, (components_append sep a hb).symm⟩

theorem components_drop_of_prefix (sep : α) {a b : List α} (h : a <+: b)
    (hb : AtBoundary sep (b.drop a.length)) :
    components sep (b.drop a.length) =
      (components sep b).drop (components sep a).length := by
  obtain ⟨rest, rfl⟩ := h
  rw [List.drop_left] at hb ⊢
  rw [components_append sep a hb, List.drop_left]

theorem prefix_depth_le (sep : α) {a b p : List α} (ha : a <+: p)
    (hab : AtBoundary sep (p.drop a.length)) (hb : b <+: p) (hlen : a.length ≤ b.length) :
    (components sep a).length ≤ (components sep b).length := by
  have h : a <+: b := List.prefix_of_prefix_length_le ha hb hlen
  apply List.IsPrefix.length_le
  refine components_prefix_of_prefix sep h ?_
  obtain ⟨rest, rfl⟩ := h
  obtain ⟨rest', rfl⟩ := hb
  rw [List.drop_left]
  rw [List.append_assoc, List.drop_left] at hab
  intro c hc
  refine hab c ?_
  cases rest with
  | nil => simp at hc
  | cons d rest => simpa using hc

theorem atBoundary_dropWhile (sep : α) (p : List α) :
    AtBoundary sep (p.dropWhile (fun c => decide (c ≠ sep))) := by
  intro c hc
  have h := List.head?_dropWhile_not (fun c => decide (c ≠ sep)) p
  rw [hc] at h
  simpa using h

theorem components_skip (sep : α) (p : List α) :
    components sep (p.dropWhile (fun c => decide (c = sep))) = components sep p := by
  induction p with
  | nil => rfl
  | cons c p ih =>
    by_cases hc : c = sep
    · subst hc
      rw [List.dropWhile_cons_of_pos (by simp), ih, components_cons_sep]
    · rw [List.dropWhile_cons_of_neg (by simpa using hc)]

theorem components_split (sep : α) {p : List α} (h : p.head? ≠ some sep) (hne : p ≠ []) :
    components sep p = p.takeWhile (fun c => decide (c ≠ sep)) ::
      components sep (p.dropWhile (fun c => decide (c ≠ sep))) := by
  conv_lhs => rw [← @List.takeWhile_append_dropWhile _ (fun c => decide (c ≠ sep)) p]
  refine components_cons_component sep ?_ ?_ (atBoundary_dropWhile sep p)
  · intro x hx
    simpa using List.mem_takeWhile_imp hx
  · cases p with
    | nil => exact absurd rfl hne
    | cons c p =>
      rw [List.takeWhile_cons_of_pos (by simpa using h)]
      exact List.cons_ne_nil _ _

theorem mem_splitOn (sep : α) {p c : List α} (h : c ∈ p.splitOn sep) :
    sep ∉ c ∧ c.length ≤ p.length := by
  induction p generalizing c with
  | nil => simp_all
  | cons x p ih =>
    rw [List.splitOn_eq_splitOnP, List.splitOnP_cons_eq_if_modifyHead, ← List.splitOn_eq_splitOnP] at h
    split at h
    · rcases List.mem_cons.mp h with rfl | h
      · simp
      · exact ⟨(ih h).1, Nat.le_succ_of_le (ih h).2⟩
    · rename_i hx
      obtain ⟨y, ys, hsplit⟩ := List.exists_cons_of_ne_nil (List.splitOn_ne_nil sep p)
      rw [hsplit, List.modifyHead_cons] at h
      rcases List.mem_cons.mp h with rfl | h
      · have hy : y ∈ p.splitOn sep := hsplit ▸ List.mem_cons_self
        have hne : sep ≠ x := fun heq => hx (by simp [heq])
        simpa [hne] using ih hy
      · have hc : c ∈ p.splitOn sep := hsplit ▸ List.mem_cons_of_mem y h
        exact ⟨(ih hc).1, Nat.le_succ_of_le (ih hc).2⟩

theorem mem_components (sep : α) {p c : List α} (h : c ∈ components sep p) :
    c ≠ [] ∧ sep ∉ c ∧ c.length ≤ p.length := by
  obtain ⟨hmem, hne⟩ := List.mem_filter.mp h
  exact ⟨of_decide_eq_true hne, mem_splitOn sep hmem⟩

def splitLast (sep : α) : List α → Option (List α × List α)
  | [] => none
  | c :: p =>
      match splitLast sep p with
      | some (dir, name) => some (c :: dir, name)
      | none => if c = sep then some ([], p) else none

theorem splitLast_none (sep : α) {p : List α} : splitLast sep p = none ↔ sep ∉ p := by
  induction p with
  | nil => simp [splitLast]
  | cons c p ih =>
    cases h : splitLast sep p with
    | none =>
      have hp := ih.mp h
      simp only [splitLast, h]
      by_cases hc : c = sep
      · simp [hc]
      · simp [hc, hp, Ne.symm hc]
    | some r =>
      have hp : sep ∈ p := by
        by_contra hp
        rw [ih.mpr hp] at h
        cases h
      simp [splitLast, h, hp]

theorem splitLast_some (sep : α) {p dir name : List α} (h : splitLast sep p = some (dir, name)) :
    p = dir ++ sep :: name ∧ sep ∉ name := by
  induction p generalizing dir with
  | nil => cases h
  | cons c p ih =>
    cases hp : splitLast sep p with
    | some r =>
      simp only [splitLast, hp, Option.some.injEq, Prod.mk.injEq] at h
      obtain ⟨rfl, rfl⟩ := h
      obtain ⟨heq, hname⟩ := ih hp
      exact ⟨by rw [List.cons_append, ← heq], hname⟩
    | none =>
      simp only [splitLast, hp] at h
      split at h
      · rename_i hc
        cases h
        exact ⟨by simp [hc], (splitLast_none sep).mp hp⟩
      · cases h

section PathLoop

open HouseOS.Loop

variable {β σ ρ : Type} [DecidableEq β]

def skip (sep : β) (p : List β) : List β := p.dropWhile (fun c => decide (c = sep))

def compLen (sep : β) (p : List β) : Nat := (p.takeWhile (fun c => decide (c ≠ sep))).length

def scanLast (f : σ → List β → Bool → Step σ ρ) : List (List β) → σ → Step σ ρ
  | [], s => .go s
  | c :: cs, s =>
      match f s c cs.isEmpty with
      | .ret r => .ret r
      | .go s' => scanLast f cs s'

def pathLoop (sep : β) (f : σ → List β → Bool → Step σ ρ) : Nat → List β → σ → Step σ ρ
  | 0, _, s => .go s
  | _ + 1, [], s => .go s
  | n + 1, p, s =>
      let len := compLen sep p
      let next := skip sep (p.drop len)
      match f s (p.take len) next.isEmpty with
      | .ret r => .ret r
      | .go s' => pathLoop sep f n next s'

theorem take_compLen (sep : β) (p : List β) :
    p.take (compLen sep p) = p.takeWhile (fun c => decide (c ≠ sep)) :=
  ( List.prefix_iff_eq_take.mp ( List.takeWhile_prefix _)).symm

theorem drop_compLen (sep : β) (p : List β) :
    p.drop (compLen sep p) = p.dropWhile (fun c => decide (c ≠ sep)) := by
  have h : p.take (compLen sep p) ++ p.drop (compLen sep p) =
      p.takeWhile (fun c => decide (c ≠ sep)) ++ p.dropWhile (fun c => decide (c ≠ sep)) := by
    rw [List.take_append_drop, List.takeWhile_append_dropWhile]
  rw [take_compLen] at h
  exact List.append_cancel_left h

theorem skip_head (sep : β) (p : List β) : (skip sep p).head? ≠ some sep := by
  intro hc
  have h := List.head?_dropWhile_not (fun c => decide (c = sep)) p
  rw [skip] at hc
  rw [hc] at h
  simp at h

theorem skip_eq_nil_iff (sep : β) (p : List β) : skip sep p = [] ↔ components sep p = [] := by
  constructor
  · intro h
    rw [← components_skip, ← skip, h, components_nil]
  · intro h
    by_contra hne
    rw [← components_skip, ← skip, components_split sep (skip_head sep p) hne] at h
    cases h

theorem pathLoop_eq_scanLast (sep : β) (f : σ → List β → Bool → Step σ ρ) (n : Nat) :
    ∀ (p : List β) (s : σ), p.length ≤ n → p.head? ≠ some sep →
      pathLoop sep f n p s = scanLast f (components sep p) s := by
  induction n with
  | zero =>
    intro p s hlen _
    obtain rfl : p = [] := List.eq_nil_of_length_eq_zero (by omega)
    rw [components_nil]
    rfl
  | succ n ih =>
    intro p s hlen hhead
    cases p with
    | nil =>
      rw [components_nil]
      rfl
    | cons c p =>
      have hlast : (skip sep ((c :: p).drop (compLen sep (c :: p)))).isEmpty =
          (components sep ((c :: p).dropWhile (fun c => decide (c ≠ sep)))).isEmpty := by
        rw [drop_compLen, Bool.eq_iff_iff, List.isEmpty_iff, List.isEmpty_iff, skip_eq_nil_iff]
      have hshort : (skip sep ((c :: p).drop (compLen sep (c :: p)))).length ≤ n := by
        have hdrop : (skip sep ((c :: p).drop (compLen sep (c :: p)))).length ≤ _ :=
          (List.dropWhile_sublist _).length_le
        have hpos : 0 < compLen sep (c :: p) := by
          rw [compLen, List.takeWhile_cons_of_pos (by simpa using hhead)]
          simp
        rw [List.length_drop] at hdrop
        omega
      rw [components_split sep hhead (List.cons_ne_nil c p)]
      simp only [pathLoop, scanLast, take_compLen, hlast]
      cases f s ((c :: p).takeWhile (fun c => decide (c ≠ sep)))
          (components sep ((c :: p).dropWhile (fun c => decide (c ≠ sep)))).isEmpty with
      | ret r => rfl
      | go s' =>
        show pathLoop sep f n (skip sep ((c :: p).drop (compLen sep (c :: p)))) s' = scanLast f _ s'
        rw [ih _ s' hshort (skip_head sep _), skip, components_skip, drop_compLen]

theorem pathLoop_invariant (sep : β) {f : σ → List β → Bool → Step σ ρ} {I : σ → Prop}
    {J : ρ → Prop} (hgo : ∀ s c last s', I s → f s c last = .go s' → I s')
    (hret : ∀ s c last r, I s → f s c last = .ret r → J r) :
    ∀ (n : Nat) (p : List β) (s : σ), I s →
      (∀ s', pathLoop sep f n p s = .go s' → I s') ∧ ∀ r, pathLoop sep f n p s = .ret r → J r := by
  intro n
  induction n with
  | zero =>
    intro p s hs
    refine ⟨fun s' h => ?_, fun r h => ?_⟩
    · cases h
      exact hs
    · cases h
  | succ n ih =>
    intro p s hs
    cases p with
    | nil =>
      refine ⟨fun s' h => ?_, fun r h => ?_⟩
      · cases h
        exact hs
      · cases h
    | cons c p =>
      simp only [pathLoop]
      cases hstep : f s ((c :: p).take (compLen sep (c :: p)))
          (skip sep ((c :: p).drop (compLen sep (c :: p)))).isEmpty with
      | ret r =>
        refine ⟨fun s' h => ?_, fun r' h => ?_⟩
        · cases h
        cases h
        exact hret _ _ _ _ hs hstep
      | go s' => exact ih _ s' (hgo _ _ _ _ hs hstep)

end PathLoop

end HouseOS.Components
