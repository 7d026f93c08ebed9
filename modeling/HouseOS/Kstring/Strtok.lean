import HouseOS.Library.ByteCopy
import HouseOS.Library.Tokens

namespace HouseOS.Kstring

open HouseOS.ByteMem
open HouseOS.Tokens

-- a pointer into the string, counted from its first byte; its end is found too
def strchr : List UInt8 → UInt8 → Option Nat
  | [], ch => if ch = 0 then some 0 else none
  | c :: str, ch => if c = ch then some 0 else (strchr str ch).map (· + 1)

structure Strtok where
  mem : Mem
  save : Option Nat

-- `while (*str != '\0' && go(*str)) str++`
def scanWhile (m : Mem) (go : UInt8 → Bool) : Nat → Nat → Option Nat
  | 0, _ => none
  | fuel + 1, str => if m str ≠ 0 ∧ go (m str) then scanWhile m go fuel (str + 1) else some str

def strtok (fuel : Nat) (s : Strtok) (str : Option Nat) (delimiters : List UInt8) :
    Option (Option Nat × Strtok) :=
  match str.or s.save with
  | none => some (none, s)
  | some str =>
      (scanWhile s.mem (fun c => (strchr delimiters c).isSome) fuel str).bind fun str =>
        if s.mem str = 0 then some (none, { s with save := none })
        else
          let tokenStart := str
          (scanWhile s.mem (fun c => (strchr delimiters c).isNone) fuel str).map fun str =>
            if s.mem str = 0 then (some tokenStart, { s with save := none })
            else (some tokenStart, ⟨store8 s.mem str 0, some (str + 1)⟩)

-- the `k`-th call after one with `str`; the calls that follow it have NULL
def nthCall (fuel : Nat) (delimiters : Nat → List UInt8) :
    Nat → Strtok → Option Nat → Nat → Option (Option Nat × Strtok)
  | i, s, str, 0 => strtok fuel s str (delimiters i)
  | i, s, str, k + 1 =>
      (strtok fuel s str (delimiters i)).bind fun r =>
        nthCall fuel delimiters (i + 1) r.2 none k

def isDelimiter (delimiters : List UInt8) (c : UInt8) : Bool := delimiters.contains c

section Scan

variable {m : Mem} {a fuel : Nat} {c : UInt8} {xs ys delimiters : List UInt8} {go : UInt8 → Bool}

theorem strchr_isSome (hc : c ≠ 0) : (strchr delimiters c).isSome = isDelimiter delimiters c := by
  induction delimiters with
  | nil =>
    rw [strchr, if_neg hc]
    rfl
  | cons d delimiters ih =>
    rw [isDelimiter] at ih
    rw [strchr, isDelimiter, List.contains_cons]
    by_cases hd : d = c
    · subst hd
      simp
    · rw [if_neg hd, Option.isSome_map, ih]
      simp [Ne.symm hd]

theorem strchr_isNone (hc : c ≠ 0) : (strchr delimiters c).isNone = !isDelimiter delimiters c := by
  rw [← strchr_isSome hc, Option.not_isSome]

theorem scanWhile_split (h : CString m a (xs ++ ys)) (hgo : ∀ c ∈ xs, go c = true)
    (hstop : ∀ c ∈ ys.head?, go c = false) (hfuel : xs.length < fuel) :
    scanWhile m go fuel a = some (a + xs.length) := by
  induction xs generalizing a fuel with
  | nil =>
    obtain ⟨fuel, rfl⟩ : ∃ k, fuel = k + 1 := ⟨fuel - 1, by omega⟩
    rw [scanWhile, if_neg]
    · rfl
    · rintro ⟨hne, hat⟩
      cases ys with
      | nil => exact hne (CString.nil_iff.mp h)
      | cons y ys =>
        rw [(CString.cons_iff.mp h).1, hstop y rfl] at hat
        cases hat
  | cons x xs ih =>
    rw [List.length_cons] at hfuel
    obtain ⟨fuel, rfl⟩ : ∃ k, fuel = k + 1 := ⟨fuel - 1, by omega⟩
    obtain ⟨hx, hne, hrest⟩ := CString.cons_iff.mp h
    obtain ⟨hgox, hgoxs⟩ := List.forall_mem_cons.mp hgo
    rw [scanWhile, hx, if_pos ⟨hne, hgox⟩, ih hrest hgoxs (by omega), List.length_cons,
      Nat.add_assoc, Nat.add_comm 1]

theorem scanWhile_skip (h : CString m a (xs ++ ys)) (hfuel : xs.length < fuel)
    (hskip : ∀ c ∈ xs, isDelimiter delimiters c = true)
    (hstop : ∀ c ∈ ys.head?, isDelimiter delimiters c = false) :
    scanWhile m (fun c => (strchr delimiters c).isSome) fuel a = some (a + xs.length) := by
  have hne : ∀ c ∈ xs ++ ys, c ≠ 0 := fun c hc hz => h.clean (hz ▸ hc)
  refine scanWhile_split h (fun c hc => ?_) (fun c hc => ?_) hfuel
  · rw [strchr_isSome (hne c (List.mem_append_left _ hc)), hskip c hc]
  · rw [strchr_isSome (hne c (List.mem_append_right _ (List.mem_of_mem_head? hc))), hstop c hc]

theorem scanWhile_token (h : CString m a (xs ++ ys)) (hfuel : xs.length < fuel)
    (hfree : ∀ c ∈ xs, isDelimiter delimiters c = false)
    (hend : ∀ c ∈ ys.head?, isDelimiter delimiters c = true) :
    scanWhile m (fun c => (strchr delimiters c).isNone) fuel a = some (a + xs.length) := by
  have hne : ∀ c ∈ xs ++ ys, c ≠ 0 := fun c hc hz => h.clean (hz ▸ hc)
  refine scanWhile_split h (fun c hc => ?_) (fun c hc => ?_) hfuel
  · rw [strchr_isNone (hne c (List.mem_append_left _ hc)), hfree c hc]
    rfl
  · rw [strchr_isNone (hne c (List.mem_append_right _ (List.mem_of_mem_head? hc))), hend c hc]
    rfl

end Scan

section Call

variable {s : Strtok} {str : Option Nat} {a fuel : Nat}
  {text skipped token rest delimiters : List UInt8}

theorem strtok_null (hsave : str.or s.save = none) : strtok fuel s str delimiters = some (none, s) := by
  rw [strtok, hsave]

theorem strtok_end (hsave : str.or s.save = some a) (h : CString s.mem a text)
    (hall : ∀ c ∈ text, isDelimiter delimiters c = true) (hfuel : text.length < fuel) :
    strtok fuel s str delimiters = some (none, { s with save := none }) := by
  have hwhole : CString s.mem a (text ++ []) := by rwa [List.append_nil]
  have hscan := scanWhile_skip hwhole hfuel hall fun c hc => by cases hc
  rw [strtok, hsave]
  simp only [hscan, Option.bind_some, h.ends, if_true]

theorem strtok_token (hsave : str.or s.save = some a) (h : CString s.mem a (skipped ++ (token ++ rest)))
    (hrun : FirstRun (isDelimiter delimiters) skipped token rest)
    (hfuel : (skipped ++ (token ++ rest)).length < fuel) :
    ∃ s', strtok fuel s str delimiters = some (some (a + skipped.length), s') ∧
      CString s'.mem (a + skipped.length) token ∧
      (∀ x, x < a + skipped.length + token.length → s'.mem x = s.mem x) ∧
      (rest = [] ∧ s'.save = none ∨
        s'.save = some (a + skipped.length + token.length + 1) ∧
          CString s'.mem (a + skipped.length + token.length + 1) rest.tail) := by
  rw [List.length_append, List.length_append] at hfuel
  have hsecond := h.of_append
  have hthird := hsecond.of_append
  obtain ⟨t, token', htoken⟩ := List.exists_cons_of_ne_nil hrun.ne
  have hskip := scanWhile_skip h (by omega : skipped.length < fuel) hrun.skips hrun.head_free
  have hscan := scanWhile_token hsecond (by omega : token.length < fuel) hrun.free hrun.ends
  have hfirst : s.mem (a + skipped.length) ≠ 0 := by
    rw [htoken, List.cons_append] at hsecond
    obtain ⟨hat, hne, -⟩ := CString.cons_iff.mp hsecond
    rwa [hat]
  rw [strtok, hsave]
  simp only [hskip, hscan, Option.bind_some, Option.map_some, if_neg hfirst]
  cases rest with
  | nil =>
    have hend := CString.nil_iff.mp hthird
    rw [List.append_nil] at hsecond
    rw [if_pos hend]
    exact ⟨_, rfl, hsecond, fun _ _ => rfl, Or.inl ⟨rfl, rfl⟩⟩
  | cons c rest =>
    obtain ⟨hat, hne, -⟩ := CString.cons_iff.mp hthird
    obtain ⟨htoken', hrest⟩ := hsecond.cut
    rw [if_neg (by rwa [hat])]
    exact ⟨_, rfl, htoken', fun x hx => store8_ne 0 (by omega), Or.inr ⟨rfl, hrest⟩⟩

end Call

section Session

variable {fuel a i k : Nat} {s : Strtok} {str : Option Nat} {text : List UInt8}
  {toks : List (Nat × List UInt8)} {delimiters : Nat → List UInt8}

theorem nthCall_null (hsave : str.or s.save = none) (k : Nat) :
    nthCall fuel delimiters i s str k = some (none, s) := by
  induction k generalizing i str with
  | zero => exact strtok_null hsave
  | succ k ih =>
    rw [nthCall, strtok_null hsave, Option.bind_some]
    exact ih (Option.none_or.trans (Option.or_eq_none_iff.mp hsave).2)

theorem nthCall_runs (h : Runs (fun i => isDelimiter (delimiters i)) i a text toks)
    (hsave : str.or s.save = some a) (htext : CString s.mem a text) (hfuel : text.length < fuel)
    (k : Nat) : ∃ s', nthCall fuel delimiters i s str k = some ((toks[k]?).map Prod.fst, s') ∧
      (∀ x < a, s'.mem x = s.mem x) ∧ ∀ t ∈ toks.take (k + 1), CString s'.mem t.1 t.2 := by
  induction h generalizing s str k with
  | @done i a text hall =>
    have hend := strtok_end hsave htext hall hfuel
    refine ⟨{ s with save := none }, ?_, fun _ _ => rfl, fun t ht => by simp at ht⟩
    cases k with
    | zero => exact hend
    | succ k =>
      rw [nthCall, hend, Option.bind_some]
      exact nthCall_null Option.none_or k
  | @run i a skipped token rest later hrun hlater ih =>
    obtain ⟨s₁, hcall, htoken, hkept, hnext⟩ := strtok_token hsave htext hrun hfuel
    cases k with
    | zero =>
      refine ⟨s₁, hcall, fun x hx => hkept x (by omega), fun t ht => ?_⟩
      obtain rfl : t = (a + skipped.length, token) := by simpa using ht
      exact htoken
    | succ k =>
      rw [nthCall, hcall, Option.bind_some]
      have hrest : ∃ s', nthCall fuel delimiters (i + 1) s₁ none k =
            some ((later[k]?).map Prod.fst, s') ∧
          (∀ x < a + skipped.length + token.length + 1, s'.mem x = s₁.mem x) ∧
          ∀ t ∈ later.take (k + 1), CString s'.mem t.1 t.2 := by
        rcases hnext with ⟨rfl, hsave'⟩ | ⟨hsave', htext'⟩
        · obtain rfl := hlater.nil_of_all fun c hc => by cases hc
          exact ⟨s₁, nthCall_null (Option.none_or.trans hsave') k, fun _ _ => rfl, fun t ht => by simp at ht⟩
        · refine ih (Option.none_or.trans hsave') htext' ?_ k
          rw [List.length_append, List.length_append] at hfuel
          rw [List.length_tail]
          omega
      obtain ⟨s', hcall', hkept', htokens⟩ := hrest
      refine ⟨s', hcall', fun x hx => ?_, fun t ht => ?_⟩
      · rw [hkept' x (by omega), hkept x (by omega)]
      · rw [List.take_succ_cons, List.mem_cons] at ht
        rcases ht with rfl | ht
        · exact htoken.congr fun x _ hx => hkept' x (Nat.lt_succ_of_le hx)
        · exact htokens t ht

theorem strtok_tokens (s : Strtok) (a : Nat) (text : List UInt8) (htext : CString s.mem a text)
    (delimiters : Nat → List UInt8) : ∃ toks : List (Nat × List UInt8),
      (∀ runs, Runs (fun i => isDelimiter (delimiters i)) 0 a text runs ↔ runs = toks) ∧
      toks.length ≤ text.length ∧
      ∀ fuel > text.length, ∀ k, ∃ s',
        nthCall fuel delimiters 0 s (some a) k = some ((toks[k]?).map Prod.fst, s') ∧
          ∀ t ∈ toks.take (k + 1), CString s'.mem t.1 t.2 := by
  obtain ⟨toks, hruns⟩ := exists_runs (fun i => isDelimiter (delimiters i)) 0 a text
  refine ⟨toks, fun runs => ⟨fun h => h.unique hruns, fun h => h ▸ hruns⟩, hruns.length_le,
    fun fuel hfuel k => ?_⟩
  obtain ⟨s', hcall, -, htokens⟩ := nthCall_runs hruns Option.some_or htext hfuel k
  exact ⟨s', hcall, htokens⟩

theorem strtok_tokens_words : ∃ toks : List (Nat × List UInt8),
    (∀ runs, Runs (fun _ => isDelimiter [32]) 0 0 [97, 32, 98] runs ↔ runs = toks) ∧
      toks.length ≤ 3 ∧
      ∀ fuel > 3, ∀ k, ∃ s',
        nthCall fuel (fun _ => [32]) 0 ⟨fun x => [97, 32, 98].getD x 0, none⟩ (some 0) k =
            some ((toks[k]?).map Prod.fst, s') ∧
          ∀ t ∈ toks.take (k + 1), CString s'.mem t.1 t.2 :=
  strtok_tokens ⟨fun x => [97, 32, 98].getD x 0, none⟩ 0 [97, 32, 98]
    ⟨fun k c hc => by simp only [Nat.zero_add, List.getD_eq_getElem?_getD, hc, Option.getD_some],
      rfl, by decide⟩ fun _ => [32]

end Session

end HouseOS.Kstring
