import Mathlib.Data.List.TakeWhile
import Mathlib.Tactic.Common

namespace HouseOS.Tokens

variable {α : Type} {q : α → Bool} {p : Nat → α → Bool}

structure FirstRun (q : α → Bool) (skipped token rest : List α) : Prop where
  skips : ∀ c ∈ skipped, q c = true
  ne : token ≠ []
  free : ∀ c ∈ token, q c = false
  ends : ∀ c ∈ rest.head?, q c = true

-- the runs of a text at `a`, each with its place; the delimiters change from run to run
inductive Runs (p : Nat → α → Bool) : Nat → Nat → List α → List (Nat × List α) → Prop
  | done {i a : Nat} {text : List α} : (∀ c ∈ text, p i c = true) → Runs p i a text []
  | run {i a : Nat} {skipped token rest : List α} {later : List (Nat × List α)} :
      FirstRun (p i) skipped token rest →
      Runs p (i + 1) (a + skipped.length + token.length + 1) rest.tail later →
      Runs p i a (skipped ++ (token ++ rest)) ((a + skipped.length, token) :: later)

theorem takeWhile_split {xs ys : List α} (hall : ∀ c ∈ xs, q c = true)
    (hstop : ∀ c ∈ ys.head?, q c = false) : (xs ++ ys).takeWhile q = xs := by
  rw [List.takeWhile_append_of_pos hall]
  cases ys with
  | nil => rw [List.takeWhile_nil, List.append_nil]
  | cons c ys => rw [List.takeWhile_cons_of_neg (by simp [hstop c rfl]), List.append_nil]

namespace FirstRun

variable {skipped token rest skipped' token' rest' : List α}

theorem head_free (h : FirstRun q skipped token rest) :
    ∀ c ∈ (token ++ rest).head?, q c = false := by
  obtain ⟨d, token, rfl⟩ := List.exists_cons_of_ne_nil h.ne
  intro c hc
  obtain rfl : d = c := by simpa using hc
  exact h.free d List.mem_cons_self

theorem takeWhile_skipped (h : FirstRun q skipped token rest) :
    (skipped ++ (token ++ rest)).takeWhile q = skipped :=
  takeWhile_split h.skips h.head_free

theorem takeWhile_token (h : FirstRun q skipped token rest) :
    (token ++ rest).takeWhile (!q ·) = token :=
  takeWhile_split (fun c hc => by simp [h.free c hc]) fun c hc => by simp [h.ends c hc]

theorem length_pos (h : FirstRun q skipped token rest) : 0 < token.length :=
  List.length_pos_iff.mpr h.ne

theorem unique (h : FirstRun q skipped token rest) (h' : FirstRun q skipped' token' rest')
    (heq : skipped ++ (token ++ rest) = skipped' ++ (token' ++ rest')) :
    skipped = skipped' ∧ token = token' ∧ rest = rest' := by
  have hfirst : skipped = skipped' := by
    rw [← h.takeWhile_skipped, heq, h'.takeWhile_skipped]
  subst hfirst
  have hrest := List.append_cancel_left heq
  have hsecond : token = token' := by
    rw [← h.takeWhile_token, hrest, h'.takeWhile_token]
  subst hsecond
  exact ⟨rfl, rfl, List.append_cancel_left hrest⟩

end FirstRun

theorem exists_firstRun (q : α → Bool) (text : List α) : (∀ c ∈ text, q c = true) ∨
    ∃ skipped token rest, text = skipped ++ (token ++ rest) ∧ FirstRun q skipped token rest := by
  by_cases hall : ∀ c ∈ text, q c = true
  · exact Or.inl hall
  · right
    have hne : text.dropWhile q ≠ [] := fun h => hall (List.dropWhile_eq_nil_iff.mp h)
    obtain ⟨c, cs, hcs⟩ := List.exists_cons_of_ne_nil hne
    have hc : q c = false := by
      have hhead := List.head_dropWhile_not q hne
      simpa only [hcs, List.head_cons] using hhead
    refine ⟨text.takeWhile q, (c :: cs).takeWhile (!q ·), (c :: cs).dropWhile (!q ·), ?_,
      fun d hd => List.mem_takeWhile_imp hd, ?_, fun d hd => ?_, fun d hd => ?_⟩
    · rw [List.takeWhile_append_dropWhile, ← hcs, List.takeWhile_append_dropWhile]
    · rw [List.takeWhile_cons_of_pos (by simp [hc])]
      exact List.cons_ne_nil _ _
    · simpa using List.mem_takeWhile_imp hd
    · have hhead := List.head?_dropWhile_not (!q ·) (c :: cs)
      rw [Option.mem_def.mp hd] at hhead
      simpa using hhead

theorem exists_runs (p : Nat → α → Bool) (i a : Nat) (text : List α) :
    ∃ toks, Runs p i a text toks := by
  generalize hn : text.length = n
  induction n using Nat.strongRecOn generalizing i a text with
  | ind n ih =>
    obtain hall | ⟨skipped, token, rest, rfl, hrun⟩ := exists_firstRun (p i) text
    · exact ⟨[], .done hall⟩
    · have hpos := hrun.length_pos
      rw [List.length_append, List.length_append] at hn
      have hless : rest.tail.length < n := by
        rw [List.length_tail]
        omega
      obtain ⟨later, hlater⟩ := ih rest.tail.length hless (i + 1)
        (a + skipped.length + token.length + 1) rest.tail rfl
      exact ⟨_, .run hrun hlater⟩

namespace Runs

variable {i a : Nat} {text : List α} {toks toks' : List (Nat × List α)}

theorem nil_of_all (h : Runs p i a text toks) (hall : ∀ c ∈ text, p i c = true) : toks = [] := by
  cases h with
  | done => rfl
  | run hrun hlater =>
    obtain ⟨c, cs, rfl⟩ := List.exists_cons_of_ne_nil hrun.ne
    have hfalse := hrun.free c List.mem_cons_self
    rw [hall c (by simp)] at hfalse
    cases hfalse

theorem unique (h : Runs p i a text toks) (h' : Runs p i a text toks') : toks = toks' := by
  induction h generalizing toks' with
  | done hall => exact (h'.nil_of_all hall).symm
  | @run i a skipped token rest later hrun hlater ih =>
    generalize htext : skipped ++ (token ++ rest) = text at h'
    cases h' with
    | done hall =>
      subst htext
      exact (Runs.run hrun hlater).nil_of_all hall
    | run hrun' hlater' =>
      obtain ⟨rfl, rfl, rfl⟩ := hrun.unique hrun' htext
      rw [ih hlater']

theorem length_le (h : Runs p i a text toks) : toks.length ≤ text.length := by
  induction h with
  | done => exact Nat.zero_le _
  | run hrun hlater ih =>
    have hpos := hrun.length_pos
    rw [List.length_tail] at ih
    rw [List.length_cons, List.length_append, List.length_append]
    omega

end Runs

end HouseOS.Tokens
