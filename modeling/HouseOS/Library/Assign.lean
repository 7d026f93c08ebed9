import Mathlib.Data.List.Basic
import Mathlib.Logic.Function.Basic
import Mathlib.Tactic.Common

namespace HouseOS.Assign

variable {α β : Type} [DecidableEq α] {s : α → β} {ps : List (α × α)} {p : α × α} {d d' e a : α}

def assign (s : α → β) (p : α × α) : α → β := Function.update s p.1 (s p.2)

def assigns (s : α → β) (ps : List (α × α)) : α → β := ps.foldl assign s

theorem assigns_append (s : α → β) (ps qs : List (α × α)) :
    assigns s (ps ++ qs) = assigns (assigns s ps) qs :=
  List.foldl_append

theorem assigns_other (h : ∀ p ∈ ps, p.1 ≠ a) : assigns s ps a = s a := by
  induction ps generalizing s with
  | nil => rfl
  | cons p ps ih =>
    refine (ih (fun q hq => h q (List.mem_cons_of_mem p hq))).trans ?_
    exact Function.update_of_ne (h p List.mem_cons_self).symm _ _

theorem assigns_at (hdst : ps.Pairwise (fun p q => p.1 ≠ q.1))
    (hsrc : ps.Pairwise (fun p q => q = (d, e) → p.1 ≠ e)) (h : (d, e) ∈ ps) :
    assigns s ps d = s e := by
  induction ps generalizing s with
  | nil => cases h
  | cons p ps ih =>
    obtain ⟨hfirst, hdst⟩ := List.pairwise_cons.mp hdst
    obtain ⟨hbefore, hsrc⟩ := List.pairwise_cons.mp hsrc
    cases h with
    | head =>
      refine (assigns_other fun q hq => (hfirst q hq).symm).trans ?_
      exact Function.update_self _ _ _
    | tail _ h =>
      refine (ih hdst hsrc h).trans ?_
      exact Function.update_of_ne (hbefore (d, e) h rfl).symm _ _

-- no later source is an earlier destination: as if all were assigned at once
theorem assigns_simultaneous (h : ps.Pairwise (fun p q => p.1 ≠ q.1 ∧ p.1 ≠ q.2))
    (hmem : (d, e) ∈ ps) : assigns s ps d = s e := by
  refine assigns_at (h.imp And.left) (h.imp ?_) hmem
  rintro p _ hpq rfl
  exact hpq.2

theorem assigns_passed_on (hdst : ps.Pairwise (fun p q => p.1 ≠ q.1))
    (hsrc : ps.Pairwise (fun p q => q = (d, e) → p.1 ≠ e))
    (h : [(d, e), (d', d)].Sublist ps) : assigns s ps d' = s e := by
  induction ps generalizing s with
  | nil => cases h
  | cons p ps ih =>
    obtain ⟨hfirst, hdsts⟩ := List.pairwise_cons.mp hdst
    obtain ⟨hbefore, hsrcs⟩ := List.pairwise_cons.mp hsrc
    rcases List.cons_sublist_cons'.mp h with hrest | ⟨rfl, hrest⟩
    · refine (ih hdsts hsrcs hrest).trans ?_
      exact Function.update_of_ne (hbefore (d, e) (hrest.subset List.mem_cons_self) rfl).symm _ _
    · have hmem : (d', d) ∈ ps := List.singleton_sublist.mp hrest
      have hkept : ps.Pairwise (fun p q => q = (d', d) → p.1 ≠ d) :=
        List.pairwise_of_forall_mem_list fun q hq _ _ _ => (hfirst q hq).symm
      show assigns (assign s (d, e)) ps d' = s e
      rw [assigns_at hdsts hkept hmem]
      exact Function.update_self _ _ _

theorem foldl_assigns {σ γ : Type} {view : σ → α → β} {f : σ → γ → σ} {g : γ → List (α × α)}
    (l : List γ) (h : ∀ c ∈ l, ∀ t, view (f t c) = assigns (view t) (g c)) (t : σ) :
    view (l.foldl f t) = assigns (view t) (l.flatMap g) := by
  induction l generalizing t with
  | nil => rfl
  | cons c l ih =>
    rw [List.foldl_cons, List.flatMap_cons, assigns_append, ← h c List.mem_cons_self t]
    exact ih (fun c' hc' => h c' (List.mem_cons_of_mem c hc')) (f t c)

end HouseOS.Assign
