import Mathlib.Data.List.Basic
import Mathlib.Tactic.Common

namespace HouseOS.Fold

variable {σ τ α β γ : Type}

theorem foldl_view (view : σ → τ) {f : σ → α → σ} {g : τ → α → τ} (l : List α)
    (h : ∀ a ∈ l, ∀ s, view (f s a) = g (view s) a) (s : σ) :
    view (l.foldl f s) = l.foldl g (view s) := by
  induction l generalizing s with
  | nil => rfl
  | cons a l ih =>
    rw [List.foldl_cons, List.foldl_cons, ← h a List.mem_cons_self s]
    exact ih (fun c hc => h c (List.mem_cons_of_mem a hc)) (f s a)

theorem foldl_log (view : σ → List β) {f : σ → α → σ} (g : α → List β) (l : List α)
    (h : ∀ a s, view (f s a) = view s ++ g a) (s : σ) :
    view (l.foldl f s) = view s ++ l.flatMap g := by
  induction l generalizing s with
  | nil => exact (List.append_nil _).symm
  | cons a l ih => rw [List.foldl_cons, ih, h, List.flatMap_cons, List.append_assoc]

theorem foldl_keeps (view : σ → τ) {f : σ → α → σ} (l : List α)
    (h : ∀ a ∈ l, ∀ s, view (f s a) = view s) (s : σ) : view (l.foldl f s) = view s := by
  induction l generalizing s with
  | nil => rfl
  | cons a l ih =>
    rw [List.foldl_cons, ih (fun c hc => h c (List.mem_cons_of_mem a hc)), h a List.mem_cons_self]

end HouseOS.Fold

namespace HouseOS.Run

variable {σ ε : Type}

def run (step : σ → ε → Option σ) : σ → List ε → Option σ
  | s, [] => some s
  | s, e :: es => (step s e).bind (fun s' => run step s' es)

theorem run_cons_some {step : σ → ε → Option σ} {s s' : σ} {e : ε} {es : List ε} :
    run step s (e :: es) = some s' ↔ ∃ t, step s e = some t ∧ run step t es = some s' := by
  simp [run, Option.bind_eq_some_iff]

def Along (step : σ → ε → Option σ) (ok : σ → ε → Prop) : σ → List ε → Prop
  | _, [] => True
  | s, e :: es => ok s e ∧ ∀ s', step s e = some s' → Along step ok s' es

instance decidableAlong (step : σ → ε → Option σ) (ok : σ → ε → Prop)
    [∀ s e, Decidable (ok s e)] : ∀ s es, Decidable (Along step ok s es)
  | _, [] => isTrue trivial
  | s, e :: es =>
    match h : step s e with
    | none => decidable_of_iff (ok s e) (by simp [Along, h])
    | some t =>
      have := decidableAlong step ok t es
      decidable_of_iff (ok s e ∧ Along step ok t es) (by simp [Along, h])

theorem along_append {step : σ → ε → Option σ} {ok : σ → ε → Prop} {s : σ} {es fs : List ε}
    (h : Along step ok s (es ++ fs)) :
    Along step ok s es ∧ ∀ t, run step s es = some t → Along step ok t fs := by
  induction es generalizing s with
  | nil => exact ⟨trivial, by rintro t ⟨⟩; exact h⟩
  | cons e es ih =>
    obtain ⟨he, hrest⟩ := h
    refine ⟨⟨he, fun s' hs' => (ih (hrest s' hs')).1⟩, ?_⟩
    intro t ht
    obtain ⟨u, hu, hrun⟩ := run_cons_some.mp ht
    exact (ih (hrest u hu)).2 t hrun

theorem run_invariant {step : σ → ε → Option σ} {ok : σ → ε → Prop} {I : σ → Prop}
    (hstep : ∀ s e s', I s → ok s e → step s e = some s' → I s') :
    ∀ (es : List ε) (s s' : σ), I s → Along step ok s es → run step s es = some s' → I s' := by
  intro es
  induction es with
  | nil =>
    intro s s' hs _ hrun
    cases hrun
    exact hs
  | cons e es ih =>
    intro s s' hs hok hrun
    obtain ⟨t, ht, hrun⟩ := run_cons_some.mp hrun
    exact ih t s' (hstep s e t hs hok.1 ht) (hok.2 t ht) hrun

theorem along_of_forall {step : σ → ε → Option σ} {ok : σ → ε → Prop} (h : ∀ s e, ok s e) :
    ∀ (es : List ε) (s : σ), Along step ok s es := by
  intro es
  induction es with
  | nil => exact fun _ => trivial
  | cons e es ih => exact fun s => ⟨h s e, fun t _ => ih t⟩

theorem along_mono {step : σ → ε → Option σ} {ok ok' : σ → ε → Prop} (h : ∀ s e, ok s e → ok' s e) :
    ∀ (es : List ε) (s : σ), Along step ok s es → Along step ok' s es := by
  intro es
  induction es with
  | nil => exact fun _ _ => trivial
  | cons e es ih => exact fun s hok => ⟨h s e hok.1, fun t ht => ih t (hok.2 t ht)⟩

theorem run_total {step : σ → ε → Option σ} {ok : σ → ε → Prop} {I : σ → Prop}
    (hstep : ∀ s e, I s → ok s e → ∃ s', step s e = some s' ∧ I s') :
    ∀ (es : List ε) (s : σ), I s → Along step ok s es → ∃ s', run step s es = some s' ∧ I s' := by
  intro es
  induction es with
  | nil =>
    intro s hs _
    exact ⟨s, rfl, hs⟩
  | cons e es ih =>
    intro s hs hok
    obtain ⟨t, ht, hIt⟩ := hstep s e hs hok.1
    obtain ⟨u, hu, hIu⟩ := ih t hIt (hok.2 t ht)
    exact ⟨u, run_cons_some.mpr ⟨t, ht, hu⟩, hIu⟩

-- where each step keeps the property exactly if it meets the condition
theorem along_iff_prefixes {f : σ → ε → σ} {I P : σ → Prop} {ok : σ → ε → Prop}
    (hI : ∀ s e, I s → P s → ok s e → I (f s e)) (hP : ∀ s e, I s → P s → (P (f s e) ↔ ok s e)) :
    ∀ (es : List ε) (s : σ), I s → P s →
      ((∀ pre, pre <+: es → P (pre.foldl f s)) ↔ Along (fun s e => some (f s e)) ok s es) := by
  intro es
  induction es with
  | nil =>
    intro s _ hs
    refine ⟨fun _ => trivial, fun _ pre hpre => ?_⟩
    rw [List.prefix_nil.mp hpre]
    exact hs
  | cons e es ih =>
    intro s hIs hs
    constructor
    · intro h
      have hok : ok s e := (hP s e hIs hs).mp (h [e] (List.prefix_append [e] es))
      refine ⟨hok, ?_⟩
      rintro _ ⟨⟩
      refine (ih (f s e) (hI s e hIs hs hok) ((hP s e hIs hs).mpr hok)).mp fun pre hpre => ?_
      exact h (e :: pre) (List.prefix_cons_inj e |>.mpr hpre)
    · rintro ⟨hok, hrest⟩ pre hpre
      cases pre with
      | nil => exact hs
      | cons a pre =>
        obtain ⟨rfl, htail⟩ := List.cons_prefix_cons.mp hpre
        have hs' : P (f s a) := (hP s a hIs hs).mpr hok
        exact (ih (f s a) (hI s a hIs hs hok) hs').mpr (hrest _ rfl) pre htail

theorem along_iff_reached {step : σ → ε → Option σ} {I P : σ → Prop} {ok : σ → ε → Prop}
    (hstep : ∀ s e, I s → P s → ∃ t, step s e = some t ∧ (P t → I t) ∧ (P t ↔ ok s e)) :
    ∀ (es : List ε) (s : σ), I s → P s →
      ((∀ pre, pre <+: es → ∃ t, run step s pre = some t ∧ P t) ↔ Along step ok s es) := by
  intro es
  induction es with
  | nil =>
    intro s _ hs
    refine ⟨fun _ => trivial, fun _ pre hpre => ?_⟩
    rw [List.prefix_nil.mp hpre]
    exact ⟨s, rfl, hs⟩
  | cons e es ih =>
    intro s hIs hs
    obtain ⟨t, ht, hIt, hP⟩ := hstep s e hIs hs
    constructor
    · intro h
      obtain ⟨u, hu, hPu⟩ := h [e] (List.prefix_append [e] es)
      obtain ⟨v, hv, hvu⟩ := run_cons_some.mp hu
      obtain rfl := Option.some.inj (ht.symm.trans hv)
      obtain rfl := Option.some.inj hvu
      refine ⟨hP.mp hPu, ?_⟩
      intro s' hs'
      obtain rfl := Option.some.inj (ht.symm.trans hs')
      refine (ih t (hIt hPu) hPu).mp fun pre hpre => ?_
      obtain ⟨w, hw, hPw⟩ := h (e :: pre) (List.prefix_cons_inj e |>.mpr hpre)
      obtain ⟨t', ht', hrun⟩ := run_cons_some.mp hw
      obtain rfl := Option.some.inj (ht.symm.trans ht')
      exact ⟨w, hrun, hPw⟩
    · rintro ⟨hok, hrest⟩ pre hpre
      cases pre with
      | nil => exact ⟨s, rfl, hs⟩
      | cons a pre =>
        obtain ⟨rfl, htail⟩ := List.cons_prefix_cons.mp hpre
        have hPt := hP.mpr hok
        obtain ⟨w, hw, hPw⟩ := (ih t (hIt hPt) hPt).mpr (hrest t ht) pre htail
        exact ⟨w, run_cons_some.mpr ⟨t, ht, hw⟩, hPw⟩

section Answers

variable {α ρ : Type}

def answers (step : σ → ε → Option (ρ × σ)) : σ → List ε → Option (List ρ × σ)
  | s, [] => some ([], s)
  | s, e :: es => (step s e).bind fun (r, t) => (answers step t es).map fun (rs, u) => (r :: rs, u)

theorem answers_invariant {step : σ → ε → Option (ρ × σ)} {J : List ρ → σ → Prop}
    (hstep : ∀ rs s e, J rs s → ∃ r t, step s e = some (r, t) ∧ J (rs ++ [r]) t) :
    ∀ (es : List ε) (rs : List ρ) (s : σ), J rs s →
      ∃ qs t, answers step s es = some (qs, t) ∧ J (rs ++ qs) t := by
  intro es
  induction es with
  | nil =>
    intro rs s h
    exact ⟨[], s, rfl, by rwa [List.append_nil]⟩
  | cons e es ih =>
    intro rs s h
    obtain ⟨r, t, hs, hJ⟩ := hstep rs s e h
    obtain ⟨qs, u, hrun, hJ'⟩ := ih (rs ++ [r]) t hJ
    refine ⟨r :: qs, u, ?_, by rwa [List.append_assoc] at hJ'⟩
    simp only [answers, hs, Option.bind_some, hrun, Option.map_some]

inductive Traces (does : α → ε → ρ → α → Prop) : α → List ε → List ρ → α → Prop
  | done (a : α) : Traces does a [] [] a
  | next {a b c : α} {e : ε} {r : ρ} {es : List ε} {rs : List ρ}
      (hdo : does a e r b) (hrest : Traces does b es rs c) : Traces does a (e :: es) (r :: rs) c

-- a forward simulation: each step is answered as the abstract machine may answer it
theorem traces_of_step {step : σ → ε → Option (ρ × σ)} {ok : σ → ε → Prop} {R : σ → α → Prop}
    {does : α → ε → ρ → α → Prop}
    (hstep : ∀ s a e, R s a → ok s e → ∃ r t b, step s e = some (r, t) ∧ does a e r b ∧ R t b) :
    ∀ (es : List ε) (s : σ) (a : α), R s a →
      Along (fun s e => (step s e).map Prod.snd) ok s es →
      ∃ rs t b, answers step s es = some (rs, t) ∧ Traces does a es rs b ∧ R t b := by
  intro es
  induction es with
  | nil =>
    intro s a h _
    exact ⟨[], s, a, rfl, .done a, h⟩
  | cons e es ih =>
    intro s a h hok
    obtain ⟨r, t, b, hs, hdo, hR⟩ := hstep s a e h hok.1
    have hnext : (step s e).map Prod.snd = some t := by
      rw [hs]
      rfl
    obtain ⟨rs, u, c, hrun, htr, hR'⟩ := ih t b hR (hok.2 t hnext)
    refine ⟨r :: rs, u, c, ?_, .next hdo htr, hR'⟩
    simp only [answers, hs, Option.bind_some, hrun, Option.map_some]

end Answers

end HouseOS.Run

namespace HouseOS.Lockstep

open HouseOS.Run (Along)

variable {σ τ ε : Type} {f : σ → ε → σ} {g : τ → ε → τ} {I P : σ → τ → Prop} {al ok : τ → ε → Prop}

theorem agree_iff_along
    (hI : ∀ s t e, I s t → P s t → al t e → ok t e → I (f s e) (g t e))
    (hP : ∀ s t e, I s t → P s t → al t e → (P (f s e) (g t e) ↔ ok t e)) :
    ∀ (es : List ε) (s : σ) (t : τ), I s t → P s t → Along (fun t e => some (g t e)) al t es →
      ((∀ pre, pre <+: es → P (pre.foldl f s) (pre.foldl g t)) ↔
        Along (fun t e => some (g t e)) ok t es) := by
  intro es
  induction es with
  | nil =>
    intro s t _ hs _
    refine ⟨fun _ => trivial, fun _ pre hpre => ?_⟩
    rw [List.prefix_nil.mp hpre]
    exact hs
  | cons e es ih =>
    rintro s t hIs hs ⟨hal, hrestal⟩
    have hrest := ih (f s e) (g t e)
    constructor
    · intro h
      have hok : ok t e := (hP s t e hIs hs hal).mp (h [e] ( List.prefix_append [e] es))
      refine ⟨hok, ?_⟩
      rintro _ ⟨⟩
      have hnext : P (f s e) (g t e) := (hP s t e hIs hs hal).mpr hok
      refine (hrest (hI s t e hIs hs hal hok) hnext (hrestal _ rfl)).mp fun pre hpre => ?_
      exact h (e :: pre) (List.prefix_cons_inj e |>.mpr hpre)
    · rintro ⟨hok, hrestok⟩ pre hpre
      cases pre with
      | nil => exact hs
      | cons a pre =>
        obtain ⟨rfl, htail⟩ := List.cons_prefix_cons.mp hpre
        have hnext : P (f s a) (g t a) := (hP s t a hIs hs hal).mpr hok
        exact (hrest (hI s t a hIs hs hal hok) hnext (hrestal _ rfl)).mpr (hrestok _ rfl) pre htail

end HouseOS.Lockstep
