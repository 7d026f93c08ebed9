import Mathlib.Data.List.Basic
import Mathlib.Tactic.Common

namespace HouseOS.Program

-- code that acts only by requests `ε` and sees only their replies `ρ`
inductive Prog (ε ρ α : Type) where
  | done (a : α)
  | ask (e : ε) (k : ρ → Prog ε ρ α)

namespace Prog

variable {ε ρ α β σ : Type}

def bind (f : α → Prog ε ρ β) : Prog ε ρ α → Prog ε ρ β
  | done a => f a
  | ask e k => ask e fun r => (k r).bind f

def Asks (P : ε → Prop) : Prog ε ρ α → Prop
  | done _ => True
  | ask e k => P e ∧ ∀ r, (k r).Asks P

theorem asks_bind {P : ε → Prop} {f : α → Prog ε ρ β} :
    ∀ {p : Prog ε ρ α}, p.Asks P → (∀ a, (f a).Asks P) → (p.bind f).Asks P
  | done a, _, hf => hf a
  | ask _ _, ⟨he, hk⟩, hf => ⟨he, fun r => asks_bind (hk r) hf⟩

def run (answer : σ → ε → ρ × σ) : Prog ε ρ α → σ → α × σ
  | done a, s => (a, s)
  | ask e k, s => (k (answer s e).1).run answer (answer s e).2

theorem run_invariant {answer : σ → ε → ρ × σ} {I : σ → Prop}
    (hstep : ∀ s e, I s → I (answer s e).2) :
    ∀ (p : Prog ε ρ α) (s : σ), I s → I (p.run answer s).2
  | done _, _, hs => hs
  | ask e k, s, hs => run_invariant hstep (k (answer s e).1) _ (hstep s e hs)

def look (answer : ε → ρ) : Prog ε ρ α → α
  | done a => a
  | ask e k => (k (answer e)).look answer

@[simp] theorem look_done (answer : ε → ρ) (a : α) : (done a : Prog ε ρ α).look answer = a := rfl

@[simp] theorem look_ask (answer : ε → ρ) (e : ε) (k : ρ → Prog ε ρ α) :
    (ask e k).look answer = (k (answer e)).look answer := rfl

@[simp]
theorem look_bind (answer : ε → ρ) (f : α → Prog ε ρ β) :
    ∀ p : Prog ε ρ α, (p.bind f).look answer = (f (p.look answer)).look answer
  | done _ => rfl
  | ask e k => look_bind answer f (k (answer e))

theorem run_bind (answer : σ → ε → ρ × σ) (f : α → Prog ε ρ β) :
    ∀ (p : Prog ε ρ α) (s : σ), (p.bind f).run answer s =
      (f (p.run answer s).1).run answer (p.run answer s).2
  | done _, _ => rfl
  | ask e k, s => run_bind answer f (k (answer s e).1) (answer s e).2

def Ensures (answer : σ → ε → ρ × σ) (p : Prog ε ρ α) (s : σ) (Q : α → σ → Prop) : Prop :=
  Q (p.run answer s).1 (p.run answer s).2

section Ensures

variable {answer : σ → ε → ρ × σ} {s : σ} {Q : α → σ → Prop}

theorem ensures_done {a : α} (h : Q a s) : Ensures answer (done a) s Q := h

theorem ensures_any (p : Prog ε ρ α) (s : σ) : Ensures answer p s fun _ _ => True := trivial

theorem ensures_ask {e : ε} {k : ρ → Prog ε ρ α}
    (h : Ensures answer (k (answer s e).1) (answer s e).2 Q) : Ensures answer (ask e k) s Q := h

theorem ensures_bind {p : Prog ε ρ α} {f : α → Prog ε ρ β} {R : β → σ → Prop}
    (hp : Ensures answer p s Q) (hf : ∀ a s', Q a s' → Ensures answer (f a) s' R) :
    Ensures answer (p.bind f) s R := by
  have h := hf _ _ hp
  rw [Ensures] at h ⊢
  rwa [run_bind]

theorem ensures_asks {P : ε → Prop} {I : σ → Prop} (hstep : ∀ s e, P e → I s → I (answer s e).2) :
    ∀ {p : Prog ε ρ α} {s : σ}, p.Asks P → I s → Ensures answer p s fun _ s' => I s'
  | done _, _, _, hs => hs
  | ask e _, s, ⟨he, hk⟩, hs => ensures_ask (ensures_asks hstep (hk _) (hstep s e he hs))

theorem Ensures.imp {p : Prog ε ρ α} {R : α → σ → Prop} (hp : Ensures answer p s Q)
    (h : ∀ a s', Q a s' → R a s') : Ensures answer p s R :=
  h _ _ hp

end Ensures

def Gives (F : α → Prop) : Prog ε ρ α → Prop
  | done a => F a
  | ask _ k => ∀ r, (k r).Gives F

-- a request without a reply leaves the code only results of `F`
def GivesUp (F : α → Prop) : Prog ε (Option ρ) α → Prop
  | done _ => True
  | ask _ k => (k none).Gives F ∧ ∀ r, (k r).GivesUp F

section GivesUp

variable {F : α → Prop} {G : β → Prop}

theorem gives_bind {f : α → Prog ε ρ β} (hf : ∀ a, F a → (f a).Gives G) :
    ∀ {p : Prog ε ρ α}, p.Gives F → (p.bind f).Gives G
  | done a, ha => hf a ha
  | ask _ _, hk => fun r => gives_bind hf (hk r)

theorem gives_run {answer : σ → ε → ρ × σ} : ∀ {p : Prog ε ρ α} {s : σ}, p.Gives F → F (p.run answer s).1
  | done _, _, ha => ha
  | ask e k, s, hk => gives_run (p := k (answer s e).1) (hk _)

theorem givesUp_bind {f : α → Prog ε (Option ρ) β} (hF : ∀ a, F a → (f a).Gives G)
    (hf : ∀ a, (f a).GivesUp G) : ∀ {p : Prog ε (Option ρ) α}, p.GivesUp F → (p.bind f).GivesUp G
  | done a, _ => hf a
  | ask _ _, ⟨hnone, hk⟩ => ⟨gives_bind hF hnone, fun r => givesUp_bind hF hf (hk r)⟩

theorem givesUp_run {answer : σ → ε → Option ρ × σ} {reply : ε → Option ρ} {P : ε → Prop} {I : σ → Prop}
    (hstep : ∀ s e, P e → I s → I (answer s e).2 ∧ ((answer s e).1 = reply e ∨ (answer s e).1 = none)) :
    ∀ {p : Prog ε (Option ρ) α} {s : σ}, p.Asks P → p.GivesUp F → I s →
      (p.run answer s).1 = p.look reply ∨ F (p.run answer s).1
  | done _, _, _, _, _ => Or.inl rfl
  | ask e k, s, ⟨he, hk⟩, ⟨hnone, hup⟩, hs => by
    obtain ⟨hs', hreply⟩ := hstep s e he hs
    rw [run, look]
    rcases hreply with hreply | hreply
    · rw [hreply]
      exact givesUp_run hstep (hk _) (hup _) hs'
    · rw [hreply]
      exact Or.inr (gives_run hnone)

end GivesUp

end Prog

end HouseOS.Program
