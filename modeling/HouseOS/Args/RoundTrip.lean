import HouseOS.Args.Model

namespace HouseOS.Args

open HouseOS.ByteMem

def esc (arg : Text) : Text := arg.flatMap fun c => if escapes c then [backslash, c] else [c]

def quoted (arg : Text) : Text := dquote :: (esc arg ++ [dquote])

def Encoder.word : Encoder → Text → Text
  | .shell, arg => if needQuote arg then quoted arg else arg
  | .execve, arg => quoted arg

@[simp] theorem word_shell (arg : Text) :
    Encoder.word .shell arg = if needQuote arg then quoted arg else arg := rfl

@[simp] theorem word_execve (arg : Text) : Encoder.word .execve arg = quoted arg := rfl

def tailWords (ws : List Text) : Text := ws.flatMap fun w => blank :: w

def joined : List Text → Text
  | [] => []
  | w :: ws => w ++ tailWords ws

section Encode

variable {cap : Nat} {out r : Text}

theorem appendChar_some {c : UInt8} (h : appendChar cap out c = some r) : r = out ++ [c] := by
  unfold appendChar at h
  split at h
  · cases h
  · exact (Option.some.inj h).symm

theorem appendText_some {src : Text} (h : appendText cap out src = some r) : r = out ++ src := by
  unfold appendText at h
  split at h
  · cases h
  · exact (Option.some.inj h).symm

theorem appendChars_some : ∀ (cs : Text) {out : Text}, appendChars cap out cs = some r →
    r = out ++ cs := by
  intro cs
  induction cs with
  | nil =>
    intro out h
    rw [← Option.some.inj h, List.append_nil]
  | cons c cs ih =>
    intro out h
    obtain ⟨q, hq, h⟩ := Option.bind_eq_some_iff.mp h
    rw [ih h, appendChar_some hq, List.append_assoc]
    rfl

theorem appendEscaped_some : ∀ (arg : Text) {out : Text}, appendEscaped cap out arg = some r →
    r = out ++ esc arg := by
  intro arg
  induction arg with
  | nil =>
    intro out h
    rw [← Option.some.inj h]
    exact (List.append_nil out).symm
  | cons c cs ih =>
    intro out h
    obtain ⟨p, hp, h⟩ := Option.bind_eq_some_iff.mp h
    obtain ⟨q, hq, h⟩ := Option.bind_eq_some_iff.mp h
    rw [ih h, appendChar_some hq, esc, esc, List.flatMap_cons]
    by_cases hc : escapes c
    · rw [if_pos hc] at hp ⊢
      rw [appendChar_some hp]
      simp
    · rw [if_neg hc] at hp ⊢
      rw [← Option.some.inj hp]
      simp

theorem appendQuotedChars_some : ∀ (arg : Text) {out : Text},
    appendQuotedChars cap out arg = some r → r = out ++ esc arg := by
  intro arg
  induction arg with
  | nil =>
    intro out h
    rw [← Option.some.inj h]
    exact (List.append_nil out).symm
  | cons c cs ih =>
    intro out h
    obtain ⟨p, hp, h⟩ := Option.bind_eq_some_iff.mp h
    obtain ⟨q, hq, h⟩ := Option.bind_eq_some_iff.mp h
    rw [ih h, appendText_some hq, esc, esc, List.flatMap_cons]
    by_cases hc : escapes c
    · rw [if_pos hc] at hp ⊢
      rw [appendText_some hp]
      simp
    · rw [if_neg hc] at hp ⊢
      rw [← Option.some.inj hp]
      simp

theorem appendQuotedArg_some {arg : Text} (h : appendQuotedArg cap out arg = some r) :
    r = out ++ Encoder.word .shell arg := by
  unfold appendQuotedArg at h
  rw [word_shell]
  split at h
  · rename_i hno
    rw [appendChars_some _ h, if_neg (by simpa using hno)]
  · rename_i hneed
    obtain ⟨p, hp, h⟩ := Option.bind_eq_some_iff.mp h
    obtain ⟨q, hq, h⟩ := Option.bind_eq_some_iff.mp h
    rw [appendChar_some h, appendEscaped_some _ hq, appendChar_some hp,
      if_pos (by simpa using hneed), quoted]
    simp

theorem appendQuoted_some {arg : Text} (h : appendQuoted cap out arg = some r) :
    r = out ++ Encoder.word .execve arg := by
  obtain ⟨p, hp, h⟩ := Option.bind_eq_some_iff.mp h
  obtain ⟨q, hq, h⟩ := Option.bind_eq_some_iff.mp h
  rw [appendText_some h, appendQuotedChars_some _ hq, appendText_some hp, word_execve,
    quoted]
  simp

theorem buildLoop_some : ∀ (argv : List Text) {i : Nat} {out : Text}, 0 < i →
    buildLoop cap out i argv = some r → r = out ++ tailWords (argv.map (Encoder.word .shell)) := by
  intro argv
  induction argv with
  | nil =>
    intro i out _ h
    rw [← Option.some.inj h]
    exact (List.append_nil out).symm
  | cons arg argv ih =>
    intro i out hi h
    obtain ⟨p, hp, h⟩ := Option.bind_eq_some_iff.mp h
    obtain ⟨q, hq, h⟩ := Option.bind_eq_some_iff.mp h
    rw [if_pos hi] at hp
    rw [ih (by omega) h, appendQuotedArg_some hq, appendChar_some hp, tailWords, tailWords,
      List.map_cons, List.flatMap_cons]
    simp

theorem execveLoop_some : ∀ (argv : List Text) {i : Nat} {out : Text}, 0 < i →
    execveLoop cap out i argv = some r → r = out ++ tailWords (argv.map (Encoder.word .execve)) := by
  intro argv
  induction argv with
  | nil =>
    intro i out _ h
    rw [← Option.some.inj h]
    exact (List.append_nil out).symm
  | cons arg argv ih =>
    intro i out hi h
    obtain ⟨p, hp, h⟩ := Option.bind_eq_some_iff.mp h
    obtain ⟨q, hq, h⟩ := Option.bind_eq_some_iff.mp h
    rw [if_pos hi] at hp
    rw [ih (by omega) h, appendQuoted_some hq, appendText_some hp, tailWords, tailWords,
      List.map_cons, List.flatMap_cons]
    simp

theorem encode_some {e : Encoder} {argv : List Text} {cmd : Text} (h : e.encode argv = some cmd) :
    cmd = joined (argv.map e.word) := by
  cases argv with
  | nil =>
    cases e with
    | shell => exact (Option.some.inj h).symm
    | execve => exact (Option.some.inj h).symm
  | cons arg argv =>
    cases e with
    | shell =>
      obtain ⟨q, hq, h⟩ := Option.bind_eq_some_iff.mp h
      rw [buildLoop_some argv (by omega) h, appendQuotedArg_some hq]
      rfl
    | execve =>
      obtain ⟨q, hq, h⟩ := Option.bind_eq_some_iff.mp h
      rw [execveLoop_some argv (by omega) h, appendQuoted_some hq]
      rfl

end Encode

section Read

variable {c : UInt8} {rest tok : Text} {sq dq : Bool}

def special (c : UInt8) : Bool := c == dquote || c == squote || c == backslash

def plain (c : UInt8) : Bool := !isSpace c && !special c

theorem readToken_break (hc : isSpace c = true) :
    readToken (c :: rest) false false tok = some ⟨tok, false, false, c :: rest⟩ := by
  cases rest <;> simp [readToken, hc]

theorem readToken_escape (hlen : tok.length < 127) :
    readToken (backslash :: c :: rest) sq dq tok = readToken rest sq dq (tok ++ [c]) := by
  have hspace : isSpace backslash = false := rfl
  have hroom : ¬ userArgToken ≤ tok.length + 1 := by
    simp only [userArgToken]
    omega
  simp [readToken, hspace, hroom]

theorem readToken_put (hbreak : isSpace c = true → dq = true) (hback : c ≠ backslash)
    (hsq : c = squote → dq = true) (hdq : c ≠ dquote) (hlen : tok.length < 127) :
    readToken (c :: rest) false dq tok = readToken rest false dq (tok ++ [c]) := by
  have hroom : ¬ userArgToken ≤ tok.length + 1 := by
    simp only [userArgToken]
    omega
  have hnobreak : (!dq && isSpace c) = false := by
    cases hs : isSpace c with
    | false => simp
    | true => simp [hbreak hs]
  have hnosq : (c == squote && !dq) = false := by
    by_cases hs : c = squote
    · simp [hsq hs]
    · simp [hs]
  cases rest with
  | nil => simp [readToken, hnobreak, hnosq, hdq, hroom]
  | cons c' rest => simp [readToken, hnobreak, hnosq, hdq, hback, hroom]

theorem readToken_toggle :
    readToken (dquote :: rest) false dq tok = readToken rest false (!dq) tok := by
  have hspace : isSpace dquote = false := rfl
  have hsq : (dquote == squote) = false := rfl
  have hback : (dquote == backslash) = false := rfl
  cases rest with
  | nil => simp [readToken, hspace, hsq]
  | cons c' rest => simp [readToken, hspace, hsq, hback]

theorem readToken_plain : ∀ (arg : Text) {tok : Text}, (∀ c ∈ arg, plain c = true) →
    tok.length + arg.length ≤ 127 →
    readToken (arg ++ rest) false false tok = readToken rest false false (tok ++ arg) := by
  intro arg
  induction arg with
  | nil =>
    intro tok _ _
    rw [List.nil_append, List.append_nil]
  | cons c cs ih =>
    intro tok hplain hlen
    have hc := hplain c List.mem_cons_self
    simp only [plain, special, Bool.and_eq_true, Bool.not_eq_true', Bool.or_eq_false_iff,
      beq_eq_false_iff_ne] at hc
    obtain ⟨hspace, ⟨hdq, hsq⟩, hback⟩ := hc
    rw [List.length_cons] at hlen
    rw [List.cons_append, readToken_put (by rw [hspace]; exact nofun) hback (fun h => absurd h hsq) hdq
      (by omega), ih (fun x hx => hplain x (List.mem_cons_of_mem c hx))
      (by rw [List.length_append, List.length_singleton]; omega), List.append_assoc]
    rfl

theorem readToken_esc : ∀ (arg : Text) {tok : Text}, tok.length + arg.length ≤ 127 →
    readToken (esc arg ++ rest) false true tok = readToken rest false true (tok ++ arg) := by
  intro arg
  induction arg with
  | nil =>
    intro tok _
    rw [List.append_nil]
    rfl
  | cons c cs ih =>
    intro tok hlen
    rw [List.length_cons] at hlen
    have hstep : readToken (esc (c :: cs) ++ rest) false true tok =
        readToken (esc cs ++ rest) false true (tok ++ [c]) := by
      rw [esc, List.flatMap_cons, List.append_assoc]
      by_cases hc : escapes c
      · rw [if_pos hc]
        exact readToken_escape (by omega)
      · rw [if_neg hc]
        simp only [escapes, Bool.or_eq_true, beq_iff_eq, not_or] at hc
        exact readToken_put (fun _ => rfl) hc.2 (fun _ => rfl) hc.1 (by omega)
    rw [hstep, ih (by rw [List.length_append, List.length_singleton]; omega), List.append_assoc]
    rfl

def Ends (rest : Text) : Prop := ∀ c, rest.head? = some c → isSpace c = true

theorem readToken_ends (h : Ends rest) :
    readToken rest false false tok = some ⟨tok, false, false, rest⟩ := by
  cases rest with
  | nil => rfl
  | cons c rest => exact readToken_break (h c rfl)

theorem needQuote_false {arg : Text} (h : needQuote arg = false) : ∀ c ∈ arg, plain c = true := by
  intro c hc
  have hno := (List.any_eq_false.mp h) c hc
  simp only [Bool.or_eq_true, not_or, Bool.not_eq_true] at hno
  obtain ⟨⟨⟨h1, h2⟩, h3⟩, h4⟩ := hno
  simp [plain, special, h1, h2, h3, h4]

theorem readToken_quoted {arg : Text} (hlen : arg.length ≤ 127) (h : Ends rest) :
    readToken (quoted arg ++ rest) false false [] = some ⟨arg, false, false, rest⟩ := by
  rw [quoted, List.cons_append, readToken_toggle, List.append_assoc, Bool.not_false,
    readToken_esc arg (by simpa using hlen), List.singleton_append, readToken_toggle, Bool.not_true,
    List.nil_append]
  exact readToken_ends h

theorem readToken_word (e : Encoder) {arg : Text} (hlen : arg.length ≤ 127) (h : Ends rest) :
    readToken (e.word arg ++ rest) false false [] = some ⟨arg, false, false, rest⟩ := by
  cases e with
  | execve => exact readToken_quoted hlen h
  | shell =>
    rw [word_shell]
    split
    · exact readToken_quoted hlen h
    · rename_i hno
      rw [readToken_plain arg (needQuote_false (by simpa using hno)) (by simpa using hlen),
        List.nil_append]
      exact readToken_ends h

end Read

section Split

variable {e : Encoder} {rest : Text} {acc : List Text} {fuel : Nat}

-- the shell writes nothing for an empty argument
def Encoder.keeps (e : Encoder) (arg : Text) : Bool := e == .execve || !arg.isEmpty

theorem word_head {arg : Text} (h : e.keeps arg = true) :
    ∃ c w, e.word arg = c :: w ∧ isSpace c = false := by
  cases e with
  | execve => exact ⟨dquote, _, rfl, rfl⟩
  | shell =>
    rw [word_shell]
    split
    · exact ⟨dquote, _, rfl, rfl⟩
    · rename_i hno
      cases arg with
      | nil => cases h
      | cons c w =>
        have hc := needQuote_false (by simpa using hno) c List.mem_cons_self
        simp only [plain, Bool.and_eq_true, Bool.not_eq_true'] at hc
        exact ⟨c, w, rfl, hc.1⟩

theorem word_dropped {arg : Text} (h : e.keeps arg = false) : e.word arg = [] := by
  cases e with
  | execve => cases h
  | shell =>
    cases arg with
    | nil => rfl
    | cons c w => cases h

theorem ends_tailWords (ws : List Text) : Ends (tailWords ws) := by
  intro c hc
  cases ws with
  | nil => cases hc
  | cons w ws =>
    cases hc
    rfl

theorem splitLoop_blank : splitLoop fuel (blank :: rest) acc = splitLoop fuel rest acc := by
  cases fuel <;> rfl

theorem splitLoop_cons {c : UInt8} (hc : isSpace c = false) :
    splitLoop (fuel + 1) (c :: rest) acc =
      if userArgMax ≤ acc.length then none
      else (readToken (c :: rest) false false []).bind fun t =>
        if t.inSq || t.inDq then none else splitLoop fuel t.rest (acc ++ [t.text]) := by
  have hskip : skipSpaces (c :: rest) = c :: rest := by
    rw [skipSpaces, List.dropWhile_cons, if_neg (by rw [hc]; exact Bool.false_ne_true)]
  rw [splitLoop, hskip]

theorem splitLoop_word {arg : Text} (hkeep : e.keeps arg = true) (hlen : arg.length ≤ 127)
    (hends : Ends rest) :
    splitLoop (fuel + 1) (e.word arg ++ rest) acc =
      if userArgMax ≤ acc.length then none else splitLoop fuel rest (acc ++ [arg]) := by
  obtain ⟨c, w, hw, hc⟩ := word_head hkeep
  have hread := readToken_word e hlen hends
  rw [hw, List.cons_append] at hread ⊢
  rw [splitLoop_cons hc, hread]
  rfl

theorem splitLoop_tailWords : ∀ (args : List Text) {acc : List Text} {fuel : Nat},
    (args.filter e.keeps).length ≤ fuel → (∀ a ∈ args, a.length ≤ 127) → acc.length ≤ 32 →
    splitLoop fuel (tailWords (args.map e.word)) acc =
      if acc.length + (args.filter e.keeps).length ≤ 32 then some (acc ++ args.filter e.keeps)
      else none := by
  intro args
  induction args with
  | nil =>
    intro acc fuel _ _ hacc
    rw [if_pos (by simpa using hacc)]
    cases fuel <;> simp [splitLoop, tailWords, skipSpaces]
  | cons arg args ih =>
    intro acc fuel hfuel hlen hacc
    have harg := hlen arg List.mem_cons_self
    have hrest := fun a ha => hlen a (List.mem_cons_of_mem arg ha)
    have htail : tailWords ((arg :: args).map e.word) =
        blank :: (e.word arg ++ tailWords (args.map e.word)) := rfl
    rw [htail]
    by_cases hkeep : e.keeps arg
    · rw [List.filter_cons_of_pos hkeep, List.length_cons] at hfuel ⊢
      obtain ⟨fuel, rfl⟩ : ∃ n, fuel = n + 1 := ⟨fuel - 1, by omega⟩
      rw [splitLoop_blank, splitLoop_word hkeep harg (ends_tailWords _)]
      by_cases hfull : userArgMax ≤ acc.length
      · rw [if_pos hfull, if_neg (by simp only [userArgMax] at hfull; omega)]
      · simp only [userArgMax, not_le] at hfull
        have hgrow : (acc ++ [arg]).length = acc.length + 1 := by simp
        rw [if_neg (by simp only [userArgMax]; omega), ih (by omega) hrest (by omega), hgrow,
          List.append_assoc, List.singleton_append]
        exact if_congr (by omega) rfl rfl
    · rw [List.filter_cons_of_neg hkeep] at hfuel ⊢
      rw [word_dropped (by simpa using hkeep), List.nil_append, splitLoop_blank]
      exact ih hfuel hrest hacc

theorem length_filter_keeps (args : List Text) :
    (args.filter e.keeps).length ≤ (tailWords (args.map e.word)).countP fun c => !isSpace c := by
  induction args with
  | nil => exact Nat.le_refl _
  | cons arg args ih =>
    have htail : tailWords ((arg :: args).map e.word) =
        blank :: (e.word arg ++ tailWords (args.map e.word)) := rfl
    rw [htail, List.countP_cons, List.countP_append]
    by_cases hkeep : e.keeps arg
    · obtain ⟨c, w, hw, hc⟩ := word_head hkeep
      rw [List.filter_cons_of_pos hkeep, List.length_cons, hw, List.countP_cons_of_pos (by simp [hc])]
      omega
    · rw [List.filter_cons_of_neg hkeep]
      omega

theorem splitCmdline_joined {argv : List Text} (hlen : ∀ a ∈ argv, a.length ≤ 127)
    (hcount : (argv.filter e.keeps).length ≤ 32) :
    splitCmdline (joined (argv.map e.word)) = some (argv.filter e.keeps) := by
  unfold splitCmdline
  cases argv with
  | nil => rfl
  | cons arg args =>
    have harg := hlen arg List.mem_cons_self
    have hrest := fun a ha => hlen a (List.mem_cons_of_mem arg ha)
    have hjoin : joined ((arg :: args).map e.word) = e.word arg ++ tailWords (args.map e.word) := rfl
    rw [hjoin]
    by_cases hkeep : e.keeps arg
    · obtain ⟨c, w, hw, _⟩ := word_head hkeep
      have hfuel : (e.word arg ++ tailWords (args.map e.word)).length =
          (w.length + (tailWords (args.map e.word)).length) + 1 := by
        rw [hw, List.cons_append, List.length_cons, List.length_append]
      rw [List.filter_cons_of_pos hkeep, List.length_cons] at hcount
      rw [hfuel, splitLoop_word hkeep harg (ends_tailWords _), if_neg (by decide),
        splitLoop_tailWords args
          (by have := (length_filter_keeps (e := e) args).trans List.countP_le_length; omega)
          hrest (by simp), List.filter_cons_of_pos hkeep]
      exact if_pos (by rw [Nat.add_comm]; exact hcount)
    · rw [List.filter_cons_of_neg hkeep] at hcount ⊢
      rw [word_dropped (by simpa using hkeep), List.nil_append]
      rw [splitLoop_tailWords args ((length_filter_keeps args).trans List.countP_le_length) hrest
        (by decide)]
      exact if_pos (by simpa using hcount)

end Split

end HouseOS.Args
