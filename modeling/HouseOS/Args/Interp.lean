import HouseOS.Args.RoundTrip
import Mathlib.Data.List.Infix

namespace HouseOS.Args

section Spent

variable {name rest : Text} {t : Token}

def plainText (text : Text) : Prop := ∀ c ∈ text, plain c = true

instance (text : Text) : Decidable (plainText text) :=
  decidable_of_iff (text.all plain = true) List.all_eq_true

-- what a token takes from the line: `d` quotes and backslashes that it drops, and its own text
structure Spent (text : Text) (sq dq : Bool) (tok : Text) (t : Token) (r : Text) (d : Nat) :
    Prop where
  line : text = r ++ t.rest
  size : t.text.length + d = tok.length + r.length
  specials : t.text.countP special + d = tok.countP special + r.countP special
  bare : d = 0 → sq = false → dq = false →
    plainText r ∨ t.rest = [] ∧ r.getLast? = some backslash

theorem Spent.drop {text : Text} {sq dq sq' dq' : Bool} {tok r : Text} {d : Nat} {c : UInt8}
    (hc : special c = true) (h : Spent text sq' dq' tok t r d) :
    Spent (c :: text) sq dq tok t (c :: r) (d + 1) := by
  refine ⟨by rw [h.line, List.cons_append], ?_, ?_, fun hd => absurd hd (Nat.succ_ne_zero d)⟩
  · have := h.size
    rw [List.length_cons]
    omega
  · have := h.specials
    rw [List.countP_cons_of_pos hc]
    omega

theorem Spent.put {text : Text} {sq dq : Bool} {tok r : Text} {d : Nat} {c : UInt8}
    (hc : sq = false → dq = false → plain c = true)
    (h : Spent text sq dq (tok ++ [c]) t r d) : Spent (c :: text) sq dq tok t (c :: r) d := by
  refine ⟨by rw [h.line, List.cons_append], ?_, ?_, fun hd hsq hdq => ?_⟩
  · have := h.size
    rw [List.length_append, List.length_singleton] at this
    rw [List.length_cons]
    omega
  · have := h.specials
    rw [List.countP_append, List.countP_singleton] at this
    rw [List.countP_cons]
    omega
  · rcases h.bare hd hsq hdq with hplain | ⟨hrest, hlast⟩
    · refine Or.inl fun x hx => ?_
      rcases List.mem_cons.mp hx with rfl | hx
      · exact hc hsq hdq
      · exact hplain x hx
    · refine Or.inr ⟨hrest, ?_⟩
      rw [List.getLast?_cons, hlast]
      rfl

theorem Spent.escape {text : Text} {sq dq : Bool} {tok r : Text} {d : Nat} {c : UInt8}
    (h : Spent text sq dq (tok ++ [c]) t r d) :
    Spent (backslash :: c :: text) sq dq tok t (backslash :: c :: r) (d + 1) := by
  refine ⟨by rw [h.line, List.cons_append, List.cons_append], ?_, ?_,
    fun hd => absurd hd (Nat.succ_ne_zero d)⟩
  · have := h.size
    rw [List.length_append, List.length_singleton] at this
    rw [List.length_cons, List.length_cons]
    omega
  · have := h.specials
    rw [List.countP_append, List.countP_singleton] at this
    rw [List.countP_cons_of_pos rfl, List.countP_cons]
    omega

theorem Spent.stop (text : Text) (sq dq : Bool) (tok : Text) :
    Spent text sq dq tok ⟨tok, sq, dq, text⟩ [] 0 :=
  ⟨rfl, rfl, rfl, fun _ _ _ => Or.inl nofun⟩

theorem plain_of_put {c : UInt8} {sq dq : Bool} (hspace : (!sq && !dq && isSpace c) ≠ true)
    (hback : (c == backslash) ≠ true) (hsq : (c == squote && !dq) ≠ true)
    (hdq : (c == dquote && !sq) ≠ true) (h1 : sq = false) (h2 : dq = false) : plain c = true := by
  subst h1 h2
  simp only [Bool.not_false, Bool.and_true, Bool.true_and, Bool.not_eq_true] at hspace hback hsq hdq
  simp [plain, special, hspace, hback, hsq, hdq]

theorem readToken_spent {text : Text} {sq dq : Bool} {tok : Text}
    (h : readToken text sq dq tok = some t) : ∃ r d, Spent text sq dq tok t r d := by
  fun_induction readToken text sq dq tok with
  | case1 sq dq tok =>
    cases h
    exact ⟨[], 0, Spent.stop [] sq dq tok⟩
  | case2 c sq dq tok hbreak =>
    cases h
    exact ⟨[], 0, Spent.stop [c] sq dq tok⟩
  | case3 c sq dq tok hbreak hsq =>
    cases h
    obtain ⟨hc, -⟩ := Bool.and_eq_true_iff.mp hsq
    exact ⟨[c], 1, (Spent.stop [] (!sq) dq tok).drop (by simp [special, hc])⟩
  | case4 c sq dq tok hbreak hsq hdq =>
    cases h
    obtain ⟨hc, -⟩ := Bool.and_eq_true_iff.mp hdq
    exact ⟨[c], 1, (Spent.stop [] sq (!dq) tok).drop (by simp [special, hc])⟩
  | case5 => cases h
  | case6 c sq dq tok hbreak hsq hdq hroom =>
    cases h
    by_cases hback : c = backslash
    · refine ⟨[c], 0, rfl, by simp, by simp [List.countP_append], fun _ _ _ => Or.inr ⟨rfl, ?_⟩⟩
      rw [hback]
      rfl
    · exact ⟨[c], 0, (Spent.stop [] sq dq (tok ++ [c])).put
        (plain_of_put hbreak (by simpa using hback) hsq hdq)⟩
  | case7 c c' rest sq dq tok hbreak =>
    cases h
    exact ⟨[], 0, Spent.stop _ sq dq tok⟩
  | case8 => cases h
  | case9 c c' rest sq dq tok hbreak hback hroom ih =>
    obtain ⟨r, d, hspent⟩ := ih h
    obtain rfl : c = backslash := by simpa using hback
    exact ⟨backslash :: c' :: r, d + 1, hspent.escape⟩
  | case10 c c' rest sq dq tok hbreak hback hsq ih =>
    obtain ⟨r, d, hspent⟩ := ih h
    obtain ⟨hc, -⟩ := Bool.and_eq_true_iff.mp hsq
    exact ⟨c :: r, d + 1, hspent.drop (by simp [special, hc])⟩
  | case11 c c' rest sq dq tok hbreak hback hsq hdq ih =>
    obtain ⟨r, d, hspent⟩ := ih h
    obtain ⟨hc, -⟩ := Bool.and_eq_true_iff.mp hdq
    exact ⟨c :: r, d + 1, hspent.drop (by simp [special, hc])⟩
  | case12 => cases h
  | case13 c c' rest sq dq tok hbreak hback hsq hdq hroom ih =>
    obtain ⟨r, d, hspent⟩ := ih h
    exact ⟨c :: r, d, hspent.put (plain_of_put hbreak hback hsq hdq)⟩

theorem Ends.head {c : UInt8} (h : Ends (c :: rest)) : special c = false ∧ isSpace c = true := by
  have hc := h c rfl
  refine ⟨?_, hc⟩
  by_contra hspecial
  simp only [special, Bool.not_eq_false, Bool.or_eq_true, beq_iff_eq] at hspecial
  rcases hspecial with (rfl | rfl) | rfl <;> exact absurd hc (by decide)

theorem name_read (hread : readToken (name ++ rest) false false [] = some t) (htext : t.text = name)
    (hends : Ends rest) (hlast : rest = [] → name.getLast? ≠ some backslash) :
    plainText name ∧ t.rest = rest := by
  obtain ⟨r, d, hspent⟩ := readToken_spent hread
  have hsize := hspent.size
  have hspecials := hspent.specials
  rw [htext, List.length_nil] at hsize
  rw [htext, List.countP_nil] at hspecials
  rcases Nat.eq_zero_or_pos d with rfl | hd
  · obtain ⟨rfl, hrest⟩ := List.append_inj hspent.line (by omega)
    rcases hspent.bare rfl rfl rfl with hplain | ⟨hnone, hback⟩
    · exact ⟨hplain, hrest.symm⟩
    · exact absurd hback (hlast (hrest.trans hnone))
  · obtain ⟨more, hr⟩ : ∃ more, r = name ++ more := by
      have hle : name.length ≤ r.length := by omega
      obtain ⟨more, hmore⟩ := List.prefix_of_prefix_length_le (List.prefix_append name rest)
        (hspent.line ▸ List.prefix_append r t.rest) hle
      exact ⟨more, hmore.symm⟩
    have hline := hspent.line
    rw [hr, List.append_assoc] at hline
    have hmore := List.append_cancel_left hline
    rw [hr, List.length_append] at hsize
    rw [hr, List.countP_append] at hspecials
    cases more with
    | nil =>
      rw [List.length_nil] at hsize
      omega
    | cons c more =>
      rw [hmore, List.cons_append] at hends
      have hall : (c :: more).countP special = (c :: more).length := by omega
      have hc := List.countP_eq_length.mp hall c List.mem_cons_self
      rw [hends.head.1] at hc
      cases hc

theorem readToken_name (hplain : plainText name) (hlen : name.length ≤ 127) (hends : Ends rest) :
    readToken (name ++ rest) false false [] = some ⟨name, false, false, rest⟩ := by
  rw [readToken_plain name hplain (by simpa using hlen), List.nil_append]
  exact readToken_ends hends

theorem readToken_short {text tok : Text} {sq dq : Bool}
    (h : readToken text sq dq tok = some t) (htok : tok.length ≤ 127) : t.text.length ≤ 127 := by
  fun_induction readToken text sq dq tok with
  | case1 | case2 | case3 | case4 | case7 =>
    cases h
    exact htok
  | case5 | case8 | case12 => cases h
  | case6 c sq dq tok _ _ _ hroom =>
    cases h
    simp only [userArgToken, not_le] at hroom
    rw [List.length_append, List.length_singleton]
    omega
  | case9 c c' rest sq dq tok _ _ hroom ih =>
    simp only [userArgToken, not_le] at hroom
    exact ih h (by rw [List.length_append, List.length_singleton]; omega)
  | case10 c c' rest sq dq tok _ _ _ ih => exact ih h htok
  | case11 c c' rest sq dq tok _ _ _ _ ih => exact ih h htok
  | case13 c c' rest sq dq tok _ _ _ _ hroom ih =>
    simp only [userArgToken, not_le] at hroom
    exact ih h (by rw [List.length_append, List.length_singleton]; omega)

end Spent

section Limits

def withinLimits (args : List Text) : Prop := args.length ≤ 32 ∧ ∀ a ∈ args, a.length ≤ 127

theorem withinLimits.snoc {args : List Text} {arg : Text} (h : withinLimits args)
    (hroom : args.length < 32) (harg : arg.length ≤ 127) : withinLimits (args ++ [arg]) := by
  refine ⟨by rw [List.length_append, List.length_singleton]; omega, fun a ha => ?_⟩
  rcases List.mem_append.mp ha with ha | ha
  · exact h.2 a ha
  · rwa [List.mem_singleton.mp ha]

theorem splitLoop_grows : ∀ (fuel : Nat) {text : Text} {acc r : List Text},
    splitLoop fuel text acc = some r → withinLimits acc → withinLimits r ∧ acc <+: r := by
  intro fuel
  induction fuel with
  | zero =>
    intro text acc r h hacc
    cases h
    exact ⟨hacc, List.prefix_refl acc⟩
  | succ fuel ih =>
    intro text acc r h hacc
    rw [splitLoop] at h
    split at h
    · cases h
      exact ⟨hacc, List.prefix_refl acc⟩
    · split at h
      · cases h
      · rename_i hfull
        simp only [userArgMax, not_le] at hfull
        obtain ⟨t, hread, h⟩ := Option.bind_eq_some_iff.mp h
        split at h
        · cases h
        · have hnew : withinLimits (acc ++ [t.text]) := by
            refine ⟨by rw [List.length_append, List.length_singleton]; omega, fun a ha => ?_⟩
            rcases List.mem_append.mp ha with ha | ha
            · exact hacc.2 a ha
            · rw [List.mem_singleton.mp ha]
              exact readToken_short hread (Nat.zero_le _)
          obtain ⟨hr, hpre⟩ := ih h hnew
          exact ⟨hr, (List.prefix_append acc _).trans hpre⟩

variable {fuel : Nat} {name rest : Text} {acc more : List Text}

theorem splitLoop_name (fuel : Nat) (more acc : List Text) (hhead : name.head? = some slash)
    (hends : Ends rest)
    (hlast : rest = [] → name.getLast? ≠ some backslash) (hacc : withinLimits acc)
    (hroom : acc.length < 32) :
    splitLoop (fuel + 1) (name ++ rest) acc = some (acc ++ name :: more) ↔
      (plainText name ∧ name.length ≤ 127) ∧
        splitLoop fuel rest (acc ++ [name]) = some (acc ++ name :: more) := by
  obtain ⟨w, hname⟩ : ∃ w, name = slash :: w := List.head?_eq_some_iff.mp hhead
  have hstep : splitLoop (fuel + 1) (name ++ rest) acc =
      (readToken (name ++ rest) false false []).bind fun t =>
        if t.inSq || t.inDq then none else splitLoop fuel t.rest (acc ++ [t.text]) := by
    rw [hname, List.cons_append, splitLoop_cons (by decide),
      if_neg (by simp only [userArgMax]; omega)]
  rw [hstep]
  constructor
  · intro h
    obtain ⟨t, hread, h⟩ := Option.bind_eq_some_iff.mp h
    split at h
    · cases h
    · have hshort := readToken_short hread (Nat.zero_le _)
      have hpre := (splitLoop_grows fuel h (hacc.snoc hroom hshort)).2
      have htext : t.text = name := by
        rw [List.prefix_append_right_inj, List.cons_prefix_cons] at hpre
        exact hpre.1
      obtain ⟨hplain, hrest⟩ := name_read hread htext hends hlast
      rw [htext, hrest] at h
      exact ⟨⟨hplain, htext ▸ hshort⟩, h⟩
  · rintro ⟨⟨hplain, hlen⟩, h⟩
    rw [readToken_name hplain hlen hends]
    exact h

def namesFit (interp target : Text) : Prop :=
  (plainText interp ∧ interp.length ≤ 127) ∧ plainText target ∧ target.length ≤ 127

theorem splitLoop_names (fuel : Nat) (more : List Text) {interp target : Text}
    (hinterp : interp.head? = some slash)
    (htarget : target.head? = some slash) (hends : Ends rest)
    (hlast : rest = [] → target.getLast? ≠ some backslash) :
    splitLoop (fuel + 2) (interp ++ blank :: (target ++ rest)) [] =
        some (interp :: target :: more) ↔
      namesFit interp target ∧
        splitLoop fuel rest [interp, target] = some (interp :: target :: more) := by
  have hnil : withinLimits [] := ⟨Nat.zero_le _, nofun⟩
  have hblank : Ends (blank :: (target ++ rest)) := by
    rintro c ⟨⟩
    rfl
  have hfirst := splitLoop_name (fuel + 1) (target :: more) [] hinterp hblank nofun hnil
    (by decide)
  simp only [List.nil_append] at hfirst
  rw [hfirst, splitLoop_blank]
  constructor
  · rintro ⟨hi, h⟩
    have hsecond := (splitLoop_name fuel more [interp] htarget hends hlast
      (hnil.snoc (by decide) hi.2) (by simp)).mp h
    exact ⟨⟨hi, hsecond.1⟩, hsecond.2⟩
  · rintro ⟨⟨hi, ht⟩, h⟩
    exact ⟨hi, (splitLoop_name fuel more [interp] htarget hends hlast
      (hnil.snoc (by decide) hi.2) (by simp)).mpr ⟨ht, h⟩⟩

end Limits

section BaseName

variable {target : Text}

theorem pathBasenameFrom_tail : ∀ (cs last done : Text), last = done ++ cs → slash ∉ done →
    slash ∉ pathBasenameFrom last cs ∧ ∃ dir, last = dir ++ pathBasenameFrom last cs ∧
      (dir = [] ∨ dir.getLast? = some slash) := by
  intro cs
  induction cs with
  | nil =>
    rintro last done rfl hdone
    rw [List.append_nil]
    exact ⟨hdone, [], rfl, Or.inl rfl⟩
  | cons c cs ih =>
    rintro last done rfl hdone
    rw [pathBasenameFrom]
    by_cases hc : c = slash
    · rw [if_pos (by simpa using hc)]
      obtain ⟨hno, dir, hdir, hend⟩ := ih cs [] rfl List.not_mem_nil
      refine ⟨hno, done ++ slash :: dir, ?_, Or.inr ?_⟩
      · rw [List.append_assoc, List.cons_append, ← hdir, hc]
      · rcases hend with rfl | hend
        · exact List.getLast?_concat
        · rw [List.getLast?_append, List.getLast?_cons, hend]
          rfl
    · rw [if_neg (by simpa using hc)]
      refine ih (done ++ c :: cs) (done ++ [c]) (by simp) fun hmem => ?_
      rcases List.mem_append.mp hmem with h | h
      · exact hdone h
      · exact hc (List.mem_singleton.mp h).symm

theorem slash_not_mem_basename (target : Text) : slash ∉ pathBasename target :=
  (pathBasenameFrom_tail target target [] rfl List.not_mem_nil).1

theorem basename_suffix : pathBasename target <:+ target := by
  obtain ⟨-, dir, hdir, -⟩ := pathBasenameFrom_tail target target [] rfl List.not_mem_nil
  exact ⟨dir, hdir.symm⟩

theorem getLast_basename (h : target.getLast? = some backslash) :
    (pathBasename target).getLast? = some backslash := by
  obtain ⟨-, dir, hdir, hend⟩ := pathBasenameFrom_tail target target [] rfl List.not_mem_nil
  change target = dir ++ pathBasename target at hdir
  rw [hdir, List.getLast?_append] at h
  cases hlast : (pathBasename target).getLast? with
  | some c => simpa [hlast] using h
  | none =>
    rw [hlast, Option.none_or] at h
    rcases hend with rfl | hend
    · cases h
    · rw [hend] at h
      cases h

end BaseName

section Quoted

theorem esc_blank : ∀ {b u v : Text} {x : UInt8}, isSpace x = true → esc b = u ++ x :: v →
    ∃ b₁ b₂, b = b₁ ++ x :: b₂ ∧ u = esc b₁ := by
  intro b
  induction b with
  | nil =>
    intro u v x _ h
    simp [esc] at h
  | cons c cs ih =>
    intro u v x hx h
    by_cases hc : escapes c
    · have hesc : esc (c :: cs) = backslash :: c :: esc cs := by simp [esc, hc]
      rw [hesc] at h
      rcases u with _ | ⟨y, _ | ⟨z, u⟩⟩
      · simp only [List.nil_append, List.cons.injEq] at h
        rw [← h.1] at hx
        exact absurd hx (by decide)
      · simp only [List.cons_append, List.nil_append, List.cons.injEq] at h
        rw [← h.2.1] at hx
        simp only [escapes, Bool.or_eq_true, beq_iff_eq] at hc
        rcases hc with rfl | rfl <;> exact absurd hx (by decide)
      · simp only [List.cons_append, List.cons.injEq] at h
        obtain ⟨h₁, h₂, h⟩ := h
        obtain ⟨b₁, b₂, rfl, rfl⟩ := ih hx h
        exact ⟨c :: b₁, b₂, rfl, by rw [← h₁, ← h₂]; simp [esc, hc]⟩
    · have hesc : esc (c :: cs) = c :: esc cs := by simp [esc, hc]
      rw [hesc] at h
      cases u with
      | nil =>
        simp only [List.nil_append, List.cons.injEq] at h
        exact ⟨[], cs, by rw [h.1, List.nil_append], rfl⟩
      | cons y u =>
        simp only [List.cons_append, List.cons.injEq] at h
        obtain ⟨h₁, h⟩ := h
        obtain ⟨b₁, b₂, rfl, rfl⟩ := ih hx h
        exact ⟨c :: b₁, b₂, rfl, by rw [← h₁]; simp [esc, hc]⟩

-- a text is never its own quotation up to a blank: by descent on the text
theorem quote_ne : ∀ (n : Nat) {b v : Text} {x : UInt8}, b.length ≤ n → isSpace x = true →
    dquote :: esc b ≠ b ++ x :: v := by
  intro n
  induction n with
  | zero =>
    intro b v x hlen hx h
    obtain rfl := List.length_eq_zero_iff.mp (Nat.le_zero.mp hlen)
    obtain ⟨rfl, -⟩ := List.cons.inj h
    exact absurd hx (by decide)
  | succ n ih =>
    intro b v x hlen hx h
    cases b with
    | nil =>
      obtain ⟨rfl, -⟩ := List.cons.inj h
      exact absurd hx (by decide)
    | cons c b =>
      obtain ⟨rfl, h⟩ := List.cons.inj h
      obtain ⟨b₁, b₂, hb, rfl⟩ := esc_blank hx h
      have hshort : b₁.length ≤ n := by
        have := congrArg List.length hb
        rw [List.length_append, List.length_cons, List.length_cons] at this
        rw [List.length_cons] at hlen
        omega
      exact ih hshort hx hb

variable {name a b target more text : Text}

theorem startsWithName_iff : startsWithName name text = true ↔
    ∃ rest, text = name ++ rest ∧ Ends rest := by
  unfold startsWithName
  rw [Bool.and_eq_true, List.isPrefixOf_iff_prefix]
  constructor
  · rintro ⟨⟨rest, rfl⟩, hends⟩
    rw [List.drop_left] at hends
    refine ⟨rest, rfl, fun c hc => ?_⟩
    obtain ⟨tail, rfl⟩ := List.head?_eq_some_iff.mp hc
    exact hends
  · rintro ⟨rest, rfl, hends⟩
    refine ⟨List.prefix_append name rest, ?_⟩
    rw [List.drop_left]
    cases rest with
    | nil => rfl
    | cons c rest => exact hends c rfl

theorem length_le_esc (b : Text) : b.length ≤ (esc b).length := by
  induction b with
  | nil => exact Nat.le_refl _
  | cons c cs ih =>
    have hcons : esc (c :: cs) = (if escapes c then [backslash, c] else [c]) ++ esc cs := rfl
    rw [hcons, List.length_append, List.length_cons]
    split
    · rw [List.length_cons, List.length_singleton]
      omega
    · rw [List.length_singleton]
      omega

theorem not_startsWith_quoted_self : startsWithName b (quoted b ++ more) = false := by
  by_contra h
  rw [Bool.not_eq_false, startsWithName_iff] at h
  obtain ⟨rest, htext, hends⟩ := h
  have hlong := length_le_esc b
  have hsize := congrArg List.length htext
  simp only [quoted, List.cons_append, List.length_cons, List.length_append, List.length_nil] at hsize
  cases rest with
  | nil =>
    rw [List.length_nil] at hsize
    omega
  | cons x rest =>
    have hpre : b ++ [x] <+: dquote :: esc b := by
      have hquote : dquote :: esc b <+: quoted b ++ more := ⟨dquote :: more, by simp [quoted]⟩
      have hself : b ++ [x] <+: quoted b ++ more :=
        ⟨rest, by rw [htext, List.append_assoc, List.singleton_append]⟩
      refine List.prefix_of_prefix_length_le hself hquote ?_
      rw [List.length_append, List.length_singleton, List.length_cons]
      omega
    obtain ⟨v, hv⟩ := hpre
    rw [List.append_assoc, List.singleton_append] at hv
    exact quote_ne b.length (Nat.le_refl _) (hends x rfl) hv.symm

theorem not_startsWith_quoted_path (htarget : target.head? = some slash) (hb : b ≠ [])
    (hslash : slash ∉ b) : startsWithName b (quoted target ++ more) = false := by
  by_contra h
  rw [Bool.not_eq_false, startsWithName_iff] at h
  obtain ⟨rest, htext, hends⟩ := h
  obtain ⟨w, rfl⟩ := List.head?_eq_some_iff.mp htarget
  have hesc : esc (slash :: w) = slash :: esc w := rfl
  rw [quoted, hesc] at htext
  rcases b with _ | ⟨x, _ | ⟨y, b⟩⟩
  · exact absurd rfl hb
  · simp only [List.cons_append, List.nil_append, List.cons.injEq] at htext
    have hhead := hends slash (by rw [← htext.2]; rfl)
    exact absurd hhead (by decide)
  · simp only [List.cons_append, List.cons.injEq] at htext
    rw [← htext.2.1] at hslash
    exact hslash (by simp)

theorem skipSpaces_quoted : skipSpaces (quoted a ++ more) = quoted a ++ more := rfl

theorem interpTail_quoted (htarget : target.head? = some slash)
    (ha : a = target ∨ a = pathBasename target) :
    interpTail target (quoted a ++ more) = quoted a ++ more := by
  have hpath : startsWithName target (quoted a ++ more) = false := by
    obtain ⟨w, rfl⟩ := List.head?_eq_some_iff.mp htarget
    rfl
  have hbase : ¬ (pathBasename target ≠ [] ∧
      startsWithName (pathBasename target) (quoted a ++ more) = true) := by
    rintro ⟨hne, hstart⟩
    rcases ha with rfl | rfl
    · rw [not_startsWith_quoted_path htarget hne (slash_not_mem_basename _)] at hstart
      cases hstart
    · rw [not_startsWith_quoted_self] at hstart
      cases hstart
  rw [interpTail, skipSpaces_quoted, if_neg (by rw [hpath]; exact Bool.false_ne_true), if_neg hbase]

end Quoted

end HouseOS.Args
