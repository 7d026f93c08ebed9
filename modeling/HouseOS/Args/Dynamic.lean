import HouseOS.Args.Interp
import Mathlib.Data.List.DropRight

namespace HouseOS.Args

section Build

variable {cap : Nat} {out r : Text}

theorem appendChar_lt {c : UInt8} (h : appendChar cap out c = some r) : r.length < cap := by
  have hr := appendChar_some h
  unfold appendChar at h
  split at h
  · cases h
  · rw [hr, List.length_append, List.length_singleton]
    omega

theorem appendChars_lt : ∀ (cs : Text) {out : Text}, cs ≠ [] → appendChars cap out cs = some r →
    r.length < cap := by
  intro cs
  induction cs with
  | nil => exact fun h => absurd rfl h
  | cons c cs ih =>
    intro out _ h
    obtain ⟨p, hp, h⟩ := Option.bind_eq_some_iff.mp h
    cases cs with
    | nil =>
      cases h
      exact appendChar_lt hp
    | cons c' cs => exact ih (List.cons_ne_nil c' cs) h

theorem appendChar_room {c : UInt8} (h : out.length + 1 < cap) :
    appendChar cap out c = some (out ++ [c]) := if_neg (by omega)

theorem appendChars_room : ∀ (cs : Text) {out : Text}, out.length + cs.length < cap →
    appendChars cap out cs = some (out ++ cs) := by
  intro cs
  induction cs with
  | nil =>
    intro out _
    rw [List.append_nil]
    rfl
  | cons c cs ih =>
    intro out h
    rw [List.length_cons] at h
    rw [appendChars, appendChar_room (by omega), Option.bind_some,
      ih (by rw [List.length_append, List.length_singleton]; omega), List.append_assoc]
    rfl

def lead : Text → Text
  | [] => []
  | c :: tail => blank :: c :: tail

theorem ends_lead (tail : Text) : Ends (lead tail) := by
  intro c hc
  cases tail with
  | nil => cases hc
  | cons x tail =>
    cases hc
    rfl

def interpLine (interp target tail : Text) : Text := interp ++ blank :: (target ++ lead tail)

theorem buildInterp_iff {interp target cmd : Text} (hinterp : interp ≠ []) (htarget : target ≠ []) :
    buildInterpCmdline cap interp target cmd = some out ↔
      out = interpLine interp target (interpTail target cmd) ∧ out.length < cap := by
  have hi := List.length_pos_iff.mpr hinterp
  have ht := List.length_pos_iff.mpr htarget
  constructor
  · intro h
    unfold buildInterpCmdline at h
    split at h
    · cases h
    · obtain ⟨p, hp, h⟩ := Option.bind_eq_some_iff.mp h
      obtain ⟨q, hq, h⟩ := Option.bind_eq_some_iff.mp h
      obtain ⟨s, hs, h⟩ := Option.bind_eq_some_iff.mp h
      have hline : s = interp ++ blank :: target := by
        rw [appendChars_some _ hs, appendChar_some hq, appendChars_some _ hp]
        simp
      split at h
      · rename_i hnil
        cases h
        refine ⟨?_, appendChars_lt _ htarget hs⟩
        rw [hline, interpLine, hnil, lead, List.append_nil]
      · rename_i c tail hcons
        obtain ⟨u, hu, h⟩ := Option.bind_eq_some_iff.mp h
        refine ⟨?_, appendChars_lt _ (List.cons_ne_nil c tail) h⟩
        rw [appendChars_some _ h, appendChar_some hu, hline, interpLine, hcons, lead]
        simp
  · rintro ⟨rfl, hroom⟩
    simp only [interpLine, List.length_append, List.length_cons] at hroom
    unfold buildInterpCmdline
    rw [if_neg (by omega), appendChars_room interp (by rw [List.length_nil]; omega),
      Option.bind_some, List.nil_append, appendChar_room (by omega), Option.bind_some,
      appendChars_room target (by rw [List.length_append, List.length_singleton]; omega),
      Option.bind_some]
    cases htail : interpTail target cmd with
    | nil => simp [interpLine, lead]
    | cons c tail =>
      rw [htail, lead] at hroom
      simp only [List.length_cons] at hroom
      dsimp only
      rw [appendChar_room (by simp only [List.length_append, List.length_singleton]; omega),
        Option.bind_some, appendChars_room (c :: tail)
          (by simp only [List.length_append, List.length_cons, List.length_nil]; omega)]
      simp [interpLine, lead]

end Build

section Receives

variable {cap : Nat} {interp target cmd : Text} {rest : List Text}

def receivesArgv (cap : Nat) (interp target cmd : Text) (rest : List Text) : Prop :=
  ∃ out, buildInterpCmdline cap interp target cmd = some out ∧
    splitCmdline out = some (interp :: target :: rest)

theorem receives_iff (hinterp : interp.head? = some slash) (htarget : target.head? = some slash)
    (hlast : lead (interpTail target cmd) = [] → target.getLast? ≠ some backslash) :
    receivesArgv cap interp target cmd rest ↔
      (interpLine interp target (interpTail target cmd)).length < cap ∧ namesFit interp target ∧
        splitLoop ((interpLine interp target (interpTail target cmd)).length - 2)
          (lead (interpTail target cmd)) [interp, target] = some (interp :: target :: rest) := by
  have hi : interp ≠ [] := by
    rintro rfl
    cases hinterp
  have ht : target ≠ [] := by
    rintro rfl
    cases htarget
  have hfuel : 2 ≤ (interpLine interp target (interpTail target cmd)).length := by
    have := List.length_pos_iff.mpr hi
    simp only [interpLine, List.length_append, List.length_cons]
    omega
  have hsplit := splitLoop_names ((interpLine interp target (interpTail target cmd)).length - 2) rest
    hinterp htarget (ends_lead (interpTail target cmd)) hlast
  rw [Nat.sub_add_cancel hfuel] at hsplit
  constructor
  · rintro ⟨out, hbuild, h⟩
    obtain ⟨rfl, hroom⟩ := (buildInterp_iff hi ht).mp hbuild
    exact ⟨hroom, hsplit.mp h⟩
  · rintro ⟨hroom, h⟩
    exact ⟨_, (buildInterp_iff hi ht).mpr ⟨rfl, hroom⟩, hsplit.mpr h⟩

end Receives

section FirstWord

variable {target b more : Text} {rest : List Text}

theorem dropWhile_plain {name : Text} (hname : plainText name) (hends : Ends more) :
    (name ++ more).dropWhile (fun c => !isSpace c) = more := by
  have hall : ∀ c ∈ name, (!isSpace c) = true := by
    intro c hc
    have := hname c hc
    simp only [plain, Bool.and_eq_true] at this
    exact this.1
  rw [List.dropWhile_append_of_pos hall]
  cases more with
  | nil => rfl
  | cons c more => rw [List.dropWhile_cons, if_neg (by rw [hends c rfl]; decide)]

theorem skipSpaces_plain {name : Text} (hname : plainText name) (hne : name ≠ []) :
    skipSpaces (name ++ more) = name ++ more := by
  obtain ⟨c, w, rfl⟩ := List.exists_cons_of_ne_nil hne
  have hc := hname c List.mem_cons_self
  simp only [plain, Bool.and_eq_true, Bool.not_eq_true'] at hc
  rw [List.cons_append, skipSpaces, List.dropWhile_cons, if_neg (by rw [hc.1]; exact Bool.false_ne_true)]

theorem skipFirstToken_plain {name : Text} (hname : plainText name) (hne : name ≠ [])
    (hends : Ends more) : skipFirstToken (name ++ more) = skipSpaces more := by
  rw [skipFirstToken, skipSpaces_plain hname hne, dropWhile_plain hname hends]

theorem plain_append_inj {name : Text} {rest' : Text} (hb : plainText b) (hname : plainText name)
    (hends : Ends more) (hends' : Ends rest') (h : b ++ more = name ++ rest') : b = name := by
  have hrest := congrArg (List.dropWhile fun c => !isSpace c) h
  rw [dropWhile_plain hb hends, dropWhile_plain hname hends'] at hrest
  rw [hrest] at h
  exact List.append_cancel_right h

theorem needQuote_plain (hb : plainText b) : needQuote b = false := by
  rw [needQuote, List.any_eq_false]
  intro c hc
  have := hb c hc
  simp only [plain, special, Bool.and_eq_true, Bool.not_eq_true', Bool.or_eq_false_iff] at this
  obtain ⟨h₁, ⟨h₂, h₃⟩, h₄⟩ := this
  simp [h₁, h₂, h₃, h₄]

theorem startsWith_word (hhead : target.head? = some slash) (htarget : plainText target)
    (hends : Ends more) :
    startsWithName target (Encoder.word .shell b ++ more) = true ↔ b = target := by
  rw [word_shell]
  by_cases hb : needQuote b
  · rw [if_pos hb]
    constructor
    · intro h
      obtain ⟨w, rfl⟩ := List.head?_eq_some_iff.mp hhead
      cases h
    · rintro rfl
      rw [needQuote_plain htarget] at hb
      cases hb
  · rw [if_neg hb, startsWithName_iff]
    have hplain : plainText b := needQuote_false (by simpa using hb)
    constructor
    · rintro ⟨r, hline, hr⟩
      exact plain_append_inj hplain htarget hends hr hline
    · rintro rfl
      exact ⟨more, rfl, hends⟩

theorem interpTail_path (hhead : target.head? = some slash) (htarget : plainText target)
    (hends : Ends more) : interpTail target (target ++ more) = skipSpaces more := by
  have hne : target ≠ [] := by
    rintro rfl
    cases hhead
  rw [interpTail, skipSpaces_plain htarget hne, if_pos (startsWithName_iff.mpr ⟨more, rfl, hends⟩),
    skipFirstToken_plain htarget hne hends]

theorem interpTail_base (hhead : target.head? = some slash) (hbase : plainText (pathBasename target))
    (hne : pathBasename target ≠ []) (hends : Ends more) :
    interpTail target (pathBasename target ++ more) = skipSpaces more := by
  have hpath : startsWithName target (pathBasename target ++ more) ≠ true := by
    intro h
    obtain ⟨r, hline, -⟩ := startsWithName_iff.mp h
    obtain ⟨w, hw⟩ := List.head?_eq_some_iff.mp hhead
    obtain ⟨c, v, hv⟩ := List.exists_cons_of_ne_nil hne
    have hslash := slash_not_mem_basename target
    rw [hv] at hline hslash
    rw [hw, List.cons_append, List.cons_append, List.cons.injEq] at hline
    rw [hline.1] at hslash
    exact hslash List.mem_cons_self
  rw [interpTail, skipSpaces_plain hbase hne, if_neg hpath,
    if_pos ⟨hne, startsWithName_iff.mpr ⟨more, rfl, hends⟩⟩, skipFirstToken_plain hbase hne hends]

theorem skipSpaces_tailWords (rest : List Text) :
    skipSpaces (tailWords (rest.map (Encoder.word .shell))) = [] ∨
      ∃ gone a more, rest = gone ++ a :: more ∧ (∀ g ∈ gone, g = []) ∧ a ≠ [] ∧
        skipSpaces (tailWords (rest.map (Encoder.word .shell))) =
          Encoder.word .shell a ++ tailWords (more.map (Encoder.word .shell)) := by
  induction rest with
  | nil => exact Or.inl rfl
  | cons a rest ih =>
    have htail : skipSpaces (tailWords ((a :: rest).map (Encoder.word .shell))) =
        skipSpaces (Encoder.word .shell a ++ tailWords (rest.map (Encoder.word .shell))) := rfl
    rw [htail]
    by_cases ha : a = []
    · subst ha
      have hnone : Encoder.word .shell [] = [] := rfl
      rw [hnone, List.nil_append]
      rcases ih with hnil | ⟨gone, b, more, rfl, hgone, hb, hskip⟩
      · exact Or.inl hnil
      · exact Or.inr ⟨[] :: gone, b, more, rfl, by simpa using hgone, hb, hskip⟩
    · refine Or.inr ⟨[], a, rest, rfl, nofun, ha, ?_⟩
      have hkeep : Encoder.keeps .shell a = true := by simp [Encoder.keeps, ha]
      obtain ⟨c, w, hw, hc⟩ := word_head hkeep
      rw [hw, List.cons_append, skipSpaces, List.dropWhile_cons,
        if_neg (by rw [hc]; exact Bool.false_ne_true)]

end FirstWord

section Decode

variable {e : Encoder} {interp target cmd : Text} {rest : List Text} {acc : List Text} {fuel : Nat}

theorem splitLoop_skip {text : Text} : splitLoop fuel (skipSpaces text) acc = splitLoop fuel text acc := by
  cases fuel with
  | zero => rfl
  | succ fuel =>
    have hidem : skipSpaces (skipSpaces text) = skipSpaces text :=
      List.dropWhile_idempotent isSpace text
    rw [splitLoop, splitLoop, hidem]

theorem splitLoop_lead {text : Text} : splitLoop fuel (lead text) acc = splitLoop fuel text acc := by
  cases text with
  | nil => rfl
  | cons c text => exact splitLoop_blank

theorem countP_skip (text : Text) :
    (skipSpaces text).countP (fun c => !isSpace c) = text.countP fun c => !isSpace c := by
  induction text with
  | nil => rfl
  | cons c text ih =>
    rw [skipSpaces, List.dropWhile_cons]
    by_cases hc : isSpace c
    · rw [if_pos hc, List.countP_cons_of_neg (by simp [hc])]
      exact ih
    · rw [if_neg hc]

theorem length_le_lead (text : Text) : text.length ≤ (lead text).length := by
  cases text with
  | nil => exact Nat.le_refl _
  | cons c text => exact Nat.le_succ _

theorem lead_skip_kept (hkept : ∀ a ∈ rest, e.keeps a = true) :
    lead (skipSpaces (tailWords (rest.map e.word))) = tailWords (rest.map e.word) := by
  cases rest with
  | nil => rfl
  | cons a rest =>
    obtain ⟨c, w, hw, hc⟩ := word_head (hkept a List.mem_cons_self)
    have htail : tailWords ((a :: rest).map e.word) =
        blank :: (e.word a ++ tailWords (rest.map e.word)) := rfl
    have hskip : skipSpaces (blank :: (e.word a ++ tailWords (rest.map e.word))) =
        e.word a ++ tailWords (rest.map e.word) := by
      rw [hw, List.cons_append, skipSpaces, List.dropWhile_cons, if_pos (by decide),
        List.dropWhile_cons, if_neg (by rw [hc]; exact Bool.false_ne_true)]
    rw [htail, hskip, hw]
    rfl

theorem splitLoop_rest_iff (hacc : withinLimits acc)
    (hfuel : (rest.filter e.keeps).length ≤ fuel) :
    splitLoop fuel (tailWords (rest.map e.word)) acc = some (acc ++ rest) ↔
      (∀ a ∈ rest, e.keeps a = true) ∧ withinLimits (acc ++ rest) := by
  constructor
  · intro h
    have hlimits := (splitLoop_grows fuel h hacc).1
    rw [splitLoop_tailWords rest hfuel
      (fun a ha => hlimits.2 a (List.mem_append_right acc ha)) hacc.1] at h
    split at h
    · have hsame := List.append_cancel_left (Option.some.inj h)
      exact ⟨List.filter_eq_self.mp hsame, hlimits⟩
    · cases h
  · rintro ⟨hkept, hlimits⟩
    have hsame := List.filter_eq_self.mpr hkept
    rw [splitLoop_tailWords rest hfuel
      (fun a ha => hlimits.2 a (List.mem_append_right acc ha)) hacc.1, hsame,
      if_pos (by have := hlimits.1; rwa [List.length_append] at this)]

end Decode

section Own

variable {cap : Nat} {e : Encoder} {interp target argv0 cmd : Text} {rest : List Text}

structure InterpFits (cap : Nat) (e : Encoder) (interp target argv0 : Text) (rest : List Text) :
    Prop where
  shell : e = .shell
  names : namesFit interp target
  kept : ∀ a ∈ rest, a ≠ []
  limits : withinLimits (interp :: target :: rest)
  apart : argv0 ≠ [] ∨ rest.head? ≠ some target
  room : (interp ++ blank :: (target ++ tailWords (rest.map e.word))).length < cap

theorem length_lead_le {tail : Text} (hinterp : interp.head? = some slash)
    (htarget : target.head? = some slash) :
    (lead tail).length ≤ (interpLine interp target tail).length - 2 := by
  obtain ⟨v, rfl⟩ := List.head?_eq_some_iff.mp hinterp
  obtain ⟨w, rfl⟩ := List.head?_eq_some_iff.mp htarget
  simp only [interpLine, List.length_append, List.length_cons]
  omega

theorem plainText_suffix {a b : Text} (h : a <:+ b) (hb : plainText b) : plainText a :=
  fun c hc => hb c (h.subset hc)

theorem argv0_suffix (h0 : argv0 = target ∨ argv0 = pathBasename target) : argv0 <:+ target := by
  rcases h0 with rfl | rfl
  · exact List.suffix_refl _
  · exact basename_suffix

theorem namesFit.limits (h : namesFit interp target) : withinLimits [interp, target] := by
  refine ⟨by simp, fun a ha => ?_⟩
  simp only [List.mem_cons, List.not_mem_nil, or_false] at ha
  rcases ha with rfl | rfl
  · exact h.1.2
  · exact h.2.2

-- a quoted first word is never taken for the target's name
theorem not_receives_quoted (hinterp : interp.head? = some slash)
    (htarget : target.head? = some slash) (h0 : argv0 = target ∨ argv0 = pathBasename target)
    (hword : e.word argv0 = quoted argv0) (hcmd : cmd = joined ((argv0 :: rest).map e.word)) :
    ¬ receivesArgv cap interp target cmd rest := by
  have hline : cmd = quoted argv0 ++ tailWords (rest.map e.word) := by
    rw [hcmd, List.map_cons, joined, hword]
  have htail : interpTail target cmd = cmd := by
    rw [hline]
    exact interpTail_quoted htarget h0
  have hlead : lead (interpTail target cmd) = tailWords ((argv0 :: rest).map e.word) := by
    rw [htail, hline, List.map_cons, hword]
    rfl
  intro h
  obtain ⟨-, hnames, hsplit⟩ := (receives_iff hinterp htarget (by rw [hlead]; nofun)).mp h
  have hlimits := (splitLoop_grows _ hsplit hnames.limits).1
  have hkeep : e.keeps argv0 = true := by
    by_contra hdrop
    rw [word_dropped (by simpa using hdrop)] at hword
    cases hword
  have hshort : ∀ a ∈ argv0 :: rest, a.length ≤ 127 := by
    intro a ha
    rcases List.mem_cons.mp ha with rfl | ha
    · exact (argv0_suffix h0).length_le.trans hnames.2.2
    · exact hlimits.2 a (List.mem_cons_of_mem _ (List.mem_cons_of_mem _ ha))
  have hfuel : ((argv0 :: rest).filter e.keeps).length ≤
      (interpLine interp target (interpTail target cmd)).length - 2 := by
    have hcount := (length_filter_keeps (e := e) (argv0 :: rest)).trans List.countP_le_length
    rw [← hlead] at hcount
    exact hcount.trans (length_lead_le hinterp htarget)
  rw [hlead, splitLoop_tailWords (argv0 :: rest) hfuel hshort (by simp)] at hsplit
  split at hsplit
  · have hsame : (argv0 :: rest).filter e.keeps = rest :=
      List.append_cancel_left
        (Option.some.inj hsplit :
          [interp, target] ++ (argv0 :: rest).filter e.keeps = [interp, target] ++ rest)
    have hall : ∀ a ∈ rest, e.keeps a = true := by
      intro a ha
      rw [← hsame] at ha
      exact List.of_mem_filter ha
    rw [List.filter_cons_of_pos hkeep, List.filter_eq_self.mpr hall] at hsame
    have := congrArg List.length hsame
    rw [List.length_cons] at this
    omega
  · cases hsplit

theorem receives_skip_iff (hinterp : interp.head? = some slash) (htarget : target.head? = some slash)
    (hlast : target.getLast? ≠ some backslash)
    (htail : interpTail target cmd = skipSpaces (tailWords (rest.map e.word))) :
    receivesArgv cap interp target cmd rest ↔
      namesFit interp target ∧ (∀ a ∈ rest, e.keeps a = true) ∧
        withinLimits (interp :: target :: rest) ∧
        (interp ++ blank :: (target ++ tailWords (rest.map e.word))).length < cap := by
  have hfuel : (rest.filter e.keeps).length ≤
      (interpLine interp target (interpTail target cmd)).length - 2 := by
    have hcount := length_filter_keeps (e := e) rest
    rw [← countP_skip, ← htail] at hcount
    exact ((hcount.trans List.countP_le_length).trans (length_le_lead _)).trans
      (length_lead_le hinterp htarget)
  rw [receives_iff hinterp htarget fun _ => hlast, splitLoop_lead]
  have hsplit : ∀ fuel, splitLoop fuel (interpTail target cmd) [interp, target] =
      splitLoop fuel (tailWords (rest.map e.word)) [interp, target] := by
    intro fuel
    rw [htail, splitLoop_skip]
  rw [hsplit]
  constructor
  · rintro ⟨hroom, hnames, h⟩
    obtain ⟨hkept, hlimits⟩ := (splitLoop_rest_iff hnames.limits hfuel).mp h
    rw [interpLine, htail, lead_skip_kept hkept] at hroom
    exact ⟨hnames, hkept, hlimits, hroom⟩
  · rintro ⟨hnames, hkept, hlimits, hroom⟩
    refine ⟨?_, hnames, (splitLoop_rest_iff hnames.limits hfuel).mpr ⟨hkept, hlimits⟩⟩
    rwa [interpLine, htail, lead_skip_kept hkept]

-- with no name in front, the first argument is taken for the target when it spells it
theorem not_receives_taken (hinterp : interp.head? = some slash)
    (htarget : target.head? = some slash) (hlast : target.getLast? ≠ some backslash)
    {gone more : List Text} (hrest : rest = gone ++ target :: more)
    (htail : interpTail target cmd = skipSpaces (tailWords (more.map e.word))) :
    ¬ receivesArgv cap interp target cmd rest := by
  intro h
  obtain ⟨-, hnames, hsplit⟩ := (receives_iff hinterp htarget fun _ => hlast).mp h
  have hlimits := (splitLoop_grows _ hsplit hnames.limits).1
  have hfuel : (more.filter e.keeps).length ≤
      (interpLine interp target (interpTail target cmd)).length - 2 := by
    have hcount := length_filter_keeps (e := e) more
    rw [← countP_skip, ← htail] at hcount
    exact ((hcount.trans List.countP_le_length).trans (length_le_lead _)).trans
      (length_lead_le hinterp htarget)
  rw [splitLoop_lead] at hsplit
  have hskip : ∀ fuel, splitLoop fuel (interpTail target cmd) [interp, target] =
      splitLoop fuel (tailWords (more.map e.word)) [interp, target] := by
    intro fuel
    rw [htail, splitLoop_skip]
  rw [hskip, splitLoop_tailWords more hfuel
    (fun a ha => hlimits.2 a (by simp [hrest, ha])) (by simp)] at hsplit
  split at hsplit
  · have hsame := congrArg List.length (List.append_cancel_left
      (Option.some.inj hsplit : [interp, target] ++ more.filter e.keeps = [interp, target] ++ rest))
    have hle := List.length_filter_le e.keeps more
    rw [hrest, List.length_append, List.length_cons] at hsame
    omega
  · cases hsplit

theorem basename_nil_last (htarget : target.head? = some slash) (hbase : pathBasename target = []) :
    target.getLast? = some slash := by
  obtain ⟨-, dir, hdir, hend⟩ := pathBasenameFrom_tail target target [] rfl List.not_mem_nil
  change target = dir ++ pathBasename target at hdir
  rw [hbase, List.append_nil] at hdir
  rcases hend with rfl | hend
  · rw [hdir] at htarget
    cases htarget
  · rwa [hdir]

theorem receives_named_iff (hinterp : interp.head? = some slash)
    (htarget : target.head? = some slash) (h0 : argv0 = target ∨ argv0 = pathBasename target)
    (hbare : needQuote argv0 = false) (hne : argv0 ≠ [])
    (hcmd : cmd = joined ((argv0 :: rest).map (Encoder.word .shell))) :
    receivesArgv cap interp target cmd rest ↔ InterpFits cap .shell interp target argv0 rest := by
  have hplain : plainText argv0 := needQuote_false hbare
  have hline : cmd = argv0 ++ tailWords (rest.map (Encoder.word .shell)) := by
    rw [hcmd, List.map_cons, joined, word_shell, if_neg (by rw [hbare]; exact Bool.false_ne_true)]
  have hlast : target.getLast? ≠ some backslash := by
    intro h
    have hmem : backslash ∈ argv0 := by
      rcases h0 with rfl | rfl
      · exact List.mem_of_getLast? h
      · exact List.mem_of_getLast? (getLast_basename h)
    exact absurd (hplain backslash hmem) (by decide)
  have htail : interpTail target cmd =
      skipSpaces (tailWords (rest.map (Encoder.word .shell))) := by
    rw [hline]
    rcases h0 with rfl | rfl
    · exact interpTail_path htarget hplain (ends_tailWords _)
    · exact interpTail_base htarget hplain hne (ends_tailWords _)
  rw [receives_skip_iff hinterp htarget hlast htail]
  constructor
  · rintro ⟨hnames, hkept, hlimits, hroom⟩
    exact ⟨rfl, hnames, fun a ha => by simpa [Encoder.keeps] using hkept a ha, hlimits,
      Or.inl hne, hroom⟩
  · rintro ⟨-, hnames, hkept, hlimits, -, hroom⟩
    exact ⟨hnames, fun a ha => by simpa [Encoder.keeps] using hkept a ha, hlimits, hroom⟩

theorem receives_unnamed_iff (hinterp : interp.head? = some slash)
    (htarget : target.head? = some slash) (hbase : pathBasename target = [])
    (hcmd : cmd = tailWords (rest.map (Encoder.word .shell))) :
    receivesArgv cap interp target cmd rest ↔ InterpFits cap .shell interp target [] rest := by
  have hlast : target.getLast? ≠ some backslash := by
    rw [basename_nil_last htarget hbase]
    decide
  have htail : interpTail target cmd =
      if startsWithName target (skipSpaces cmd) then skipFirstToken (skipSpaces cmd)
      else skipSpaces cmd := by
    rw [interpTail, if_neg (c := pathBasename target ≠ [] ∧ _) fun h => h.1 hbase]
  by_cases hplain : plainText target
  · by_cases htaken : startsWithName target (skipSpaces cmd)
    · rw [if_pos htaken] at htail
      rw [hcmd] at htaken
      refine iff_of_false ?_ fun h => ?_
      · rcases skipSpaces_tailWords rest with hnone | ⟨gone, a, more, hrest, -, -, hskip⟩
        · rw [hnone] at htaken
          obtain ⟨w, rfl⟩ := List.head?_eq_some_iff.mp htarget
          cases htaken
        · rw [hskip] at htaken
          obtain rfl := (startsWith_word htarget hplain (ends_tailWords _)).mp htaken
          have hne : a ≠ [] := by
            rintro rfl
            cases htarget
          rw [hcmd, hskip, word_shell, if_neg (by rw [needQuote_plain hplain]; decide),
            skipFirstToken_plain hplain hne (ends_tailWords _), ← hcmd] at htail
          exact not_receives_taken hinterp htarget hlast hrest htail
      · rcases h.apart with hno | hapart
        · exact hno rfl
        · rcases skipSpaces_tailWords rest with hnone | ⟨gone, a, more, hrest, hgone, -, hskip⟩
          · rw [hnone] at htaken
            obtain ⟨w, rfl⟩ := List.head?_eq_some_iff.mp htarget
            cases htaken
          · rw [hskip] at htaken
            obtain rfl := (startsWith_word htarget hplain (ends_tailWords _)).mp htaken
            cases gone with
            | nil => exact hapart (by rw [hrest]; rfl)
            | cons g gone =>
              exact h.kept g (by simp [hrest]) (hgone g List.mem_cons_self)
    · rw [if_neg htaken] at htail
      have hapart : rest.head? ≠ some target := by
        intro hhead
        obtain ⟨more, rfl⟩ := List.head?_eq_some_iff.mp hhead
        have hne : target ≠ [] := by
          rintro rfl
          cases htarget
        have hskip : skipSpaces cmd =
            Encoder.word .shell target ++ tailWords (more.map (Encoder.word .shell)) := by
          rw [hcmd, word_shell, if_neg (by rw [needQuote_plain hplain]; decide),
            ← skipSpaces_plain hplain hne]
          rw [List.map_cons, word_shell, if_neg (by rw [needQuote_plain hplain]; decide)]
          rfl
        rw [hskip] at htaken
        exact htaken ((startsWith_word htarget hplain (ends_tailWords _)).mpr rfl)
      rw [receives_skip_iff hinterp htarget hlast (htail.trans (congrArg skipSpaces hcmd))]
      constructor
      · rintro ⟨hnames, hkept, hlimits, hroom⟩
        exact ⟨rfl, hnames, fun a ha => by simpa [Encoder.keeps] using hkept a ha, hlimits,
          Or.inr hapart, hroom⟩
      · rintro ⟨-, hnames, hkept, hlimits, -, hroom⟩
        exact ⟨hnames, fun a ha => by simpa [Encoder.keeps] using hkept a ha, hlimits, hroom⟩
  · refine iff_of_false (fun h => ?_) fun h => hplain h.names.2.1
    exact hplain ((receives_iff hinterp htarget fun _ => hlast).mp h).2.1.2.1

theorem interp_argv_iff (cap : Nat) (e : Encoder) {interp target argv0 cmd : Text}
    {rest : List Text} (hinterp : interp.head? = some slash) (htarget : target.head? = some slash)
    (h0 : argv0 = target ∨ argv0 = pathBasename target)
    (hencode : e.encode (argv0 :: rest) = some cmd) :
    receivesArgv cap interp target cmd rest ↔ InterpFits cap e interp target argv0 rest := by
  have hcmd := encode_some hencode
  have hbare : InterpFits cap e interp target argv0 rest → needQuote argv0 = false := fun h =>
    needQuote_plain (plainText_suffix (argv0_suffix h0) h.names.2.1)
  cases e with
  | execve =>
    refine iff_of_false (not_receives_quoted hinterp htarget h0 rfl hcmd) fun h => ?_
    cases h.shell
  | shell =>
    cases hquote : needQuote argv0 with
    | true =>
      refine iff_of_false (not_receives_quoted hinterp htarget h0 ?_ hcmd) fun h => ?_
      · rw [word_shell, if_pos hquote]
      · rw [hbare h] at hquote
        cases hquote
    | false =>
      by_cases hne : argv0 = []
      · subst hne
        have hbase : pathBasename target = [] := by
          rcases h0 with rfl | h0
          · cases htarget
          · exact h0.symm
        exact receives_unnamed_iff hinterp htarget hbase hcmd
      · exact receives_named_iff hinterp htarget h0 hquote hne hcmd

theorem interp_argv_iff_shell :
    receivesArgv 512 [47, 108] [47, 98, 47, 112] [112, 32, 34, 120, 32, 121, 34] [[120, 32, 121]] :=
  (interp_argv_iff 512 .shell rfl rfl
    (show ([112] : Text) = [47, 98, 47, 112] ∨ [112] = pathBasename [47, 98, 47, 112] from
      Or.inr (by decide)) (by decide)).mpr
    { shell := rfl
      names := ⟨⟨by decide, by decide⟩, by decide, by decide⟩
      kept := by decide
      limits := ⟨by decide, by decide⟩
      apart := Or.inl (by decide)
      room := by decide }

theorem execve_name_repeated :
    execveCmdline [[47, 112], [120]] = some [34, 47, 112, 34, 32, 34, 120, 34] ∧
      ¬ receivesArgv 512 [47, 108] [47, 112] [34, 47, 112, 34, 32, 34, 120, 34] [[120]] :=
  ⟨by decide, not_receives_quoted (e := .execve) rfl rfl (Or.inl rfl) rfl rfl⟩

end Own

end HouseOS.Args
