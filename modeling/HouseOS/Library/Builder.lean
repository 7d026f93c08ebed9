import Mathlib.Data.List.Forall2
import Mathlib.Data.Nat.Bitwise
import Mathlib.Tactic.Common

namespace HouseOS.Builder

variable {α : Type}

-- an appender answers whether it succeeded and leaves a text
abbrev Appender (α : Type) := List α → Bool × List α

def strict : List (Appender α) → List α → Option (List α)
  | [], out => some out
  | f :: fs, out => if (f out).1 then strict fs (f out).2 else none

def lax (fs : List (Appender α)) (out : List α) : List α :=
  fs.foldl (fun out f => (f out).2) out

def Within (cap : Nat) (f : Appender α) : Prop :=
  ∀ out, out.length < cap → (f out).2.length < cap

def Room (cap n : Nat) (f : Appender α) : Prop :=
  ∀ out, out.length + n < cap → (f out).1 = true ∧ (f out).2.length ≤ out.length + n

def Emits (cap : Nat) (t : List α) (f : Appender α) : Prop :=
  ∀ out, out.length + t.length < cap → f out = (true, out ++ t)

variable {cap : Nat}

theorem lax_within {fs : List (Appender α)} {out : List α} (h : ∀ f ∈ fs, Within cap f)
    (hout : out.length < cap) : (lax fs out).length < cap := by
  induction fs generalizing out with
  | nil => exact hout
  | cons f fs ih =>
    have hf : (f out).2.length < cap := h f (by simp) out hout
    exact ih (fun g hg => h g (by simp [hg])) hf

theorem strict_within {fs : List (Appender α)} {out out' : List α} (h : ∀ f ∈ fs, Within cap f)
    (hout : out.length < cap) (hs : strict fs out = some out') : out'.length < cap := by
  induction fs generalizing out with
  | nil =>
    cases hs
    exact hout
  | cons f fs ih =>
    rw [strict] at hs
    split at hs
    · exact ih (fun g hg => h g (by simp [hg])) (h f (by simp) out hout) hs
    · cases hs

theorem strict_some {ns : List Nat} {fs : List (Appender α)} {out : List α}
    (h : List.Forall₂ (Room cap) ns fs) (hroom : out.length + ns.sum < cap) :
    ∃ out', strict fs out = some out' := by
  induction h generalizing out with
  | nil => exact ⟨out, rfl⟩
  | @cons n f ns fs hf _ ih =>
    rw [List.sum_cons] at hroom
    obtain ⟨hok, hlen⟩ := hf out (by omega)
    have hrest : (f out).2.length + ns.sum < cap := by omega
    obtain ⟨out', hs⟩ := ih hrest
    exact ⟨out', by rw [strict, if_pos hok, hs]⟩

theorem lax_append (fs gs : List (Appender α)) (out : List α) :
    lax (fs ++ gs) out = lax gs (lax fs out) :=
  List.foldl_append

theorem lax_emits {ts : List (List α)} {fs : List (Appender α)} {out : List α}
    (h : List.Forall₂ (Emits cap) ts fs) (hroom : out.length + ts.flatten.length < cap) :
    lax fs out = out ++ ts.flatten := by
  induction h generalizing out with
  | nil => exact (List.append_nil out).symm
  | @cons t f ts fs hf _ ih =>
    rw [List.flatten_cons, List.length_append] at hroom
    have hstep := hf out (by omega)
    have hrest : (out ++ t).length + ts.flatten.length < cap := by
      rw [List.length_append]
      omega
    have hih := ih hrest
    rw [lax] at hih ⊢
    rw [List.foldl_cons, hstep, hih, List.flatten_cons, List.append_assoc]

end HouseOS.Builder
