import HouseOS.Shell.Lines

namespace HouseOS.Shell

open HouseOS.Cmd (shellNormalizePath)

section Atoms

structure Quotes where
  sq : Bool
  dq : Bool
  deriving DecidableEq, Repr

def Quotes.none : Quotes := ⟨false, false⟩

structure Atom where
  escaped : Bool
  char : UInt8
  deriving DecidableEq, Repr

def Atom.spelling (a : Atom) : Text := if a.escaped then [92, a.char] else [a.char]

def Quotes.after (q : Quotes) (a : Atom) : Quotes :=
  if a.escaped then q
  else ⟨if a.char = 39 ∧ q.dq = false then !q.sq else q.sq,
    if a.char = 34 ∧ q.sq = false then !q.dq else q.dq⟩

def spell (as : List Atom) : Text := as.flatMap Atom.spelling

@[simp] theorem spell_nil : spell [] = [] := rfl

@[simp] theorem spell_cons (a : Atom) (as : List Atom) : spell (a :: as) = a.spelling ++ spell as := rfl

@[simp] theorem spell_append (as bs : List Atom) : spell (as ++ bs) = spell as ++ spell bs :=
  List.flatMap_append

def Quotes.over (q : Quotes) (as : List Atom) : Quotes := as.foldl Quotes.after q

variable (special : UInt8 → Bool)

def Inert (q : Quotes) (a : Atom) : Prop :=
  a.escaped = true ∨ a.char ≠ 92 ∧ (q = .none → special a.char = false)

def Calm : Quotes → List Atom → Prop
  | _, [] => True
  | q, a :: as => Inert special q a ∧ Calm (q.after a) as

variable {special} {q : Quotes} {as bs : List Atom}

theorem eq_none (hsq : q.sq = false) (hdq : q.dq = false) : q = .none := by
  cases q
  cases hsq
  cases hdq
  rfl

theorem calm_append : Calm special q (as ++ bs) ↔ Calm special q as ∧ Calm special (q.over as) bs := by
  induction as generalizing q with
  | nil => exact ⟨fun h => ⟨trivial, h⟩, And.right⟩
  | cons a as ih => exact (and_congr_right fun _ => ih).trans and_assoc.symm

theorem over_append : q.over (as ++ bs) = (q.over as).over bs := List.foldl_append

end Atoms

section Cutting

variable {q : Quotes} {a : Atom} {as : List Atom} {rest seg : Text}

abbrev Quotes.next (q : Quotes) (c : UInt8) : Quotes := q.after ⟨false, c⟩

theorem cutLine_last (q : Quotes) (c : UInt8) :
    cutLine [c] q.sq q.dq seg =
      if isDelim c = true ∧ (q.next c).sq = false ∧ (q.next c).dq = false then ([seg, []], false)
      else ([seg ++ [c]], (q.next c).sq || (q.next c).dq) := rfl

theorem cutLine_next (q : Quotes) {c c' : UInt8} (hc : c ≠ 92) :
    cutLine (c :: c' :: rest) q.sq q.dq seg =
      if isDelim c = true ∧ (q.next c).sq = false ∧ (q.next c).dq = false then
        (seg :: (cutLine (c' :: rest) false false []).1, (cutLine (c' :: rest) false false []).2)
      else cutLine (c' :: rest) (q.next c).sq (q.next c).dq (seg ++ [c]) := by
  rw [cutLine, if_neg hc]
  rfl

theorem next_plain {c : UInt8} (h39 : c ≠ 39) (h34 : c ≠ 34) : q.next c = q := by
  simp [Quotes.next, Quotes.after, h39, h34]

theorem isDelim_plain {c : UInt8} (h : isDelim c = true) : c ≠ 39 ∧ c ≠ 34 ∧ c ≠ 92 := by
  refine ⟨?_, ?_, ?_⟩ <;> rintro rfl <;> exact absurd h (by decide)

theorem cutLine_atom (h : Inert isDelim q a) :
    cutLine (a.spelling ++ rest) q.sq q.dq seg =
      cutLine rest (q.after a).sq (q.after a).dq (seg ++ a.spelling) := by
  obtain ⟨escaped, c⟩ := a
  cases escaped with
  | true => rfl
  | false =>
    obtain ⟨hc, hcut⟩ := h.resolve_left Bool.false_ne_true
    have hno : ¬(isDelim c = true ∧ (q.next c).sq = false ∧ (q.next c).dq = false) := by
      rintro ⟨hd, hsq, hdq⟩
      rw [next_plain (isDelim_plain hd).1 (isDelim_plain hd).2.1] at hsq hdq
      rw [hcut (eq_none hsq hdq)] at hd
      cases hd
    cases rest with
    | nil => exact (cutLine_last q c).trans (if_neg hno)
    | cons c' rest => exact (cutLine_next q hc).trans (if_neg hno)

theorem cutLine_calm (h : Calm isDelim q as) :
    cutLine (spell as ++ rest) q.sq q.dq seg =
      cutLine rest (q.over as).sq (q.over as).dq (seg ++ spell as) := by
  induction as generalizing q seg with
  | nil => rw [spell_nil, List.append_nil]; rfl
  | cons a as ih =>
    rw [spell_cons, List.append_assoc, cutLine_atom h.1, ih h.2, List.append_assoc]
    rfl

theorem cutLine_delim {d : UInt8} (hd : isDelim d = true) :
    cutLine (d :: rest) false false seg =
      (seg :: (cutLine rest false false []).1, (cutLine rest false false []).2) := by
  obtain ⟨h39, h34, h92⟩ := isDelim_plain hd
  have hcut : isDelim d = true ∧ (Quotes.none.next d).sq = false ∧ (Quotes.none.next d).dq = false := by
    rw [next_plain h39 h34]
    exact ⟨hd, rfl, rfl⟩
  cases rest with
  | nil => exact (cutLine_last .none d).trans (if_pos hcut)
  | cons c rest => exact (cutLine_next .none h92).trans (if_pos hcut)

variable {delim : UInt8} {i : Nat}

theorem splitOutsideQuotes_next (q : Quotes) {c : UInt8} (hc : c ≠ 92 ∨ rest = [])
    (hd : delim ≠ 39 ∧ delim ≠ 34) :
    splitOutsideQuotes delim (c :: rest) q.sq q.dq i =
      if c = delim ∧ q.sq = false ∧ q.dq = false then some i
      else splitOutsideQuotes delim rest (q.next c).sq (q.next c).dq (i + 1) := by
  obtain ⟨sq, dq⟩ := q
  by_cases h39 : c = 39
  · have hne : c ≠ delim := fun h => hd.1 (h.symm.trans h39)
    subst h39
    cases rest <;> cases sq <;> cases dq <;> simp [splitOutsideQuotes, Quotes.after, hne]
  by_cases h34 : c = 34
  · have hne : c ≠ delim := fun h => hd.2 (h.symm.trans h34)
    subst h34
    cases rest <;> cases sq <;> cases dq <;> simp [splitOutsideQuotes, Quotes.after, hne]
  rw [next_plain h39 h34]
  cases rest with
  | nil => simp [splitOutsideQuotes, h39, h34]
  | cons c' rest =>
    rw [splitOutsideQuotes, if_neg (hc.resolve_right (List.cons_ne_nil _ _)),
      if_neg fun h => h39 h.1, if_neg fun h => h34 h.1]

theorem splitOutsideQuotes_atom (hd : delim ≠ 39 ∧ delim ≠ 34) (h : Inert (· == delim) q a) :
    splitOutsideQuotes delim (a.spelling ++ rest) q.sq q.dq i =
      splitOutsideQuotes delim rest (q.after a).sq (q.after a).dq (i + a.spelling.length) := by
  obtain ⟨escaped, c⟩ := a
  cases escaped with
  | true => rfl
  | false =>
    obtain ⟨hc, hcut⟩ := h.resolve_left Bool.false_ne_true
    refine (splitOutsideQuotes_next q (Or.inl hc) hd).trans (if_neg ?_)
    rintro ⟨rfl, hsq, hdq⟩
    exact absurd (hcut (eq_none hsq hdq)) (by simp)

theorem splitOutsideQuotes_calm (hd : delim ≠ 39 ∧ delim ≠ 34) (h : Calm (· == delim) q as) :
    splitOutsideQuotes delim (spell as ++ rest) q.sq q.dq i =
      splitOutsideQuotes delim rest (q.over as).sq (q.over as).dq (i + (spell as).length) := by
  induction as generalizing q i with
  | nil => rfl
  | cons a as ih =>
    rw [spell_cons, List.append_assoc, splitOutsideQuotes_atom hd h.1, ih h.2, List.length_append,
      Nat.add_assoc]
    rfl

end Cutting

section Redirecting

variable {pwd : Text} {q : Quotes} {a : Atom} {as : List Atom} {rest : Text} {r : RedirSpec} {n : Nat}

def opensRedir (c : UInt8) : Bool := decide (c = 60 ∨ c = 62)

-- a '2' or a '&' in front of the text is a character of a word
def Follows (t : Text) : Prop := t.head? ≠ some 62 ∧ ∀ t', t = 50 :: t' → t'.head? ≠ some 62

theorem follows_blank : Follows (32 :: rest) :=
  ⟨by simp, fun t' h => absurd (List.cons.inj h).1 (by decide)⟩

theorem follows_nil : Follows [] := ⟨by simp, fun t' h => absurd h (by simp)⟩

theorem redirOperator_none {c : UInt8} {t : Text} (hc : opensRedir c = false) (h : Follows t) :
    redirOperator (c :: t) = none := by
  have h60 : c ≠ 60 := fun h => absurd hc (by rw [h]; decide)
  have h62 : c ≠ 62 := fun h => absurd hc (by rw [h]; decide)
  unfold redirOperator
  split
  · rename_i heq
    exact absurd (List.cons.inj heq).1 h62
  · rename_i heq
    exact absurd (List.cons.inj heq).1 h62
  · rename_i heq
    exact absurd (List.cons.inj heq).1 h60
  · rename_i cs heq
    exact absurd (by rw [(List.cons.inj heq).2]; rfl) h.1
  · rename_i cs heq
    exact absurd rfl (h.2 (62 :: cs) (List.cons.inj heq).2)
  · rfl

theorem follows_calm (h : Calm opensRedir .none as) (hrest : Follows rest) :
    Follows (spell as ++ rest) := by
  induction as with
  | nil => exact hrest
  | cons a as ih =>
    rw [spell_cons, List.append_assoc]
    obtain ⟨escaped, c⟩ := a
    cases escaped with
    | true => exact ⟨by simp [Atom.spelling], fun t' ht => absurd (List.cons.inj ht).1 (by decide)⟩
    | false =>
      have hc := (h.1.resolve_left Bool.false_ne_true).2 rfl
      refine ⟨fun hhead => ?_, fun t' ht => ?_⟩
      · rw [Option.some.inj hhead] at hc
        exact absurd hc (by decide)
      · obtain ⟨rfl, rfl⟩ := List.cons.inj ht
        exact (ih h.2).1

def RedirSpec.type (r : RedirSpec) (text : Text) : RedirSpec := { r with cmd := r.cmd ++ text }

theorem put_short {text : Text} (htext : text ≠ []) (hlen : r.cmd.length + text.length < maxLine) :
    r.put text = some (r.type text) := by
  have := List.length_pos_of_ne_nil htext
  exact if_neg (by omega)

theorem redirLoop_atom (h : Inert opensRedir q a)
    (hfollows : q = .none → q.after a = .none → Follows rest) (hlen : r.cmd.length + a.spelling.length < maxLine) :
    redirLoop pwd (n + 1) (a.spelling ++ rest) q.sq q.dq r =
      redirLoop pwd n rest (q.after a).sq (q.after a).dq (r.type a.spelling) := by
  obtain ⟨escaped, c⟩ := a
  cases escaped with
  | true =>
    have hput := put_short (List.cons_ne_nil _ _) hlen
    rw [show Atom.spelling ⟨true, c⟩ ++ rest = 92 :: c :: rest from rfl, redirLoop,
      if_pos ⟨rfl, List.cons_ne_nil _ _⟩]
    exact congrArg (Option.bind · _) hput
  | false =>
    obtain ⟨hc, hcut⟩ := h.resolve_left Bool.false_ne_true
    have hput : r.put [c] = some (r.type [c]) := put_short (List.cons_ne_nil _ _) hlen
    rw [show Atom.spelling ⟨false, c⟩ ++ rest = c :: rest from rfl, redirLoop, if_neg fun h => hc h.1]
    obtain ⟨sq, dq⟩ := q
    simp only [hput, Option.bind_some, Quotes.after, Bool.false_eq_true, if_false]
    by_cases h39 : c = 39 ∧ dq = false
    · rw [if_pos h39, if_pos h39, if_neg fun h => absurd (h39.1.symm.trans h.1) (by decide)]
      rfl
    rw [if_neg h39, if_neg h39]
    by_cases h34 : c = 34 ∧ sq = false
    · rw [if_pos h34, if_pos h34]
      rfl
    rw [if_neg h34, if_neg h34]
    by_cases hopen : sq = false ∧ dq = false
    · obtain ⟨rfl, rfl⟩ := hopen
      have hplain : Quotes.none.next c = .none :=
        next_plain (fun h => h39 ⟨h, rfl⟩) (fun h => h34 ⟨h, rfl⟩)
      rw [if_pos ⟨rfl, rfl⟩, redirOperator_none (hcut rfl) (hfollows rfl hplain)]
      rfl
    · rw [if_neg hopen]
      rfl

theorem redirLoop_calm (h : Calm opensRedir q as) (hq : q.over as = .none) (hrest : Follows rest)
    (hlen : r.cmd.length + (spell as).length < maxLine) :
    redirLoop pwd (n + as.length) (spell as ++ rest) q.sq q.dq r =
      redirLoop pwd n rest false false (r.type (spell as)) := by
  induction as generalizing q r with
  | nil =>
    cases hq
    rw [RedirSpec.type, spell_nil, List.append_nil]
    rfl
  | cons a as ih =>
    rw [spell_cons, List.length_append] at hlen
    rw [spell_cons, List.append_assoc, List.length_cons, ← Nat.add_assoc,
      redirLoop_atom h.1 (fun _ hnext => follows_calm (hnext ▸ h.2) hrest) (by omega),
      ih h.2 hq (by rw [RedirSpec.type, List.length_append]; omega), RedirSpec.type, RedirSpec.type,
      List.append_assoc]
    rfl

structure Redirect where
  kind : RedirKind
  path : Text
  deriving DecidableEq, Repr

def RedirKind.spelling : RedirKind → Text
  | .input => [60]
  | .output false => [62]
  | .output true => [62, 62]
  | .error => [50, 62]

def Redirect.spelling (rd : Redirect) : Text :=
  32 :: (rd.kind.spelling ++ 32 :: 34 :: (rd.path ++ [34]))

def Redirect.apply (pwd : Text) (r : RedirSpec) (rd : Redirect) : Option RedirSpec :=
  if pathCap ≤ rd.path.length then none
  else (shellNormalizePath pwd rd.path pathCap).map fun abs => r.redirect abs rd.kind

theorem redirOperator_spelling (kind : RedirKind) (t : Text) :
    redirOperator (kind.spelling ++ 32 :: t) = some (kind, 32 :: t) := by
  rcases kind with _ | (_ | _) | _ <;> rfl

theorem redirPath_quoted {path : Text} (h : 34 ∉ path) :
    redirPath (32 :: 34 :: (path ++ 34 :: rest)) =
      if pathCap ≤ path.length then none else some (path, rest) := by
  have hstop : ∀ c ∈ path, decide (c ≠ 34) = true := fun c hc => by
    simpa using fun he : c = 34 => h (he ▸ hc)
  have htake : (path ++ 34 :: rest).takeWhile (fun c => decide (c ≠ 34)) = path := by
    rw [List.takeWhile_append_of_pos hstop, List.takeWhile_cons]
    simp
  have hdrop : (path ++ 34 :: rest).dropWhile (fun c => decide (c ≠ 34)) = 34 :: rest := by
    rw [List.dropWhile_append_of_pos hstop, List.dropWhile_cons]
    simp
  have hskip : (32 :: 34 :: (path ++ 34 :: rest)).dropWhile isSpace = 34 :: (path ++ 34 :: rest) := rfl
  rw [redirPath, hskip]
  dsimp only
  rw [if_pos (Or.inl rfl), hdrop, htake]
  rfl

theorem redirLoop_blank (hlen : r.cmd.length + 1 < maxLine) :
    redirLoop pwd (n + 1) (32 :: rest) false false r = redirLoop pwd n rest false false (r.type [32]) := by
  have hput : r.put [32] = some (r.type [32]) := put_short (by simp) hlen
  rw [redirLoop, if_neg (by simp), if_neg (by simp), if_neg (by simp), if_pos ⟨rfl, rfl⟩]
  exact congrArg (Option.bind · _) hput

theorem redirLoop_operator {c : UInt8} {cs t : Text} {kind : RedirKind} (hc : c ≠ 92 ∧ c ≠ 39 ∧ c ≠ 34)
    (hop : redirOperator (c :: cs) = some (kind, t)) :
    redirLoop pwd (n + 1) (c :: cs) false false r =
      (redirPath t).bind fun (raw, rest) =>
        (shellNormalizePath pwd raw pathCap).bind fun abs =>
          redirLoop pwd n rest false false (r.redirect abs kind) := by
  rw [redirLoop, if_neg fun h => hc.1 h.1, if_neg fun h => hc.2.1 h.1, if_neg fun h => hc.2.2 h.1,
    if_pos ⟨rfl, rfl⟩, hop]

theorem redirLoop_redirect {rd : Redirect} (h : 34 ∉ rd.path) (hlen : r.cmd.length + 1 < maxLine) :
    redirLoop pwd (n + 2) (rd.spelling ++ rest) false false r =
      (rd.apply pwd (r.type [32])).bind (redirLoop pwd n rest false false) := by
  have hspell : rd.spelling ++ rest =
      32 :: (rd.kind.spelling ++ 32 :: 34 :: (rd.path ++ 34 :: rest)) := by
    simp [Redirect.spelling]
  obtain ⟨c, cs, hcs, hc⟩ : ∃ c cs,
      rd.kind.spelling ++ 32 :: 34 :: (rd.path ++ 34 :: rest) = c :: cs ∧ c ≠ 92 ∧ c ≠ 39 ∧ c ≠ 34 := by
    rcases rd.kind with _ | (_ | _) | _ <;> exact ⟨_, _, rfl, by decide, by decide, by decide⟩
  have hop := redirOperator_spelling rd.kind (34 :: (rd.path ++ 34 :: rest))
  rw [hcs] at hop
  rw [hspell, redirLoop_blank hlen, hcs, redirLoop_operator hc hop, redirPath_quoted h, Redirect.apply]
  by_cases hlong : pathCap ≤ rd.path.length
  · rw [if_pos hlong, if_pos hlong]
    rfl
  · rw [if_neg hlong, if_neg hlong, Option.bind_some, Option.bind_map]
    rfl

def redirsSpelling (rds : List Redirect) : Text := rds.flatMap Redirect.spelling

def redirSpec (pwd : Text) (r : RedirSpec) (rds : List Redirect) : Option RedirSpec :=
  rds.foldlM (Redirect.apply pwd) r

theorem apply_type (rd : Redirect) (text : Text) :
    rd.apply pwd (r.type text) = (rd.apply pwd r).map fun r => r.type text := by
  rw [Redirect.apply, Redirect.apply]
  split
  · rfl
  · rw [Option.map_map]
    refine congrArg (Option.map · _) (funext fun abs => ?_)
    rcases rd.kind with _ | _ | _ <;> rfl

theorem apply_cmd {rd : Redirect} {r' : RedirSpec} (h : rd.apply pwd r = some r') : r'.cmd = r.cmd := by
  rw [Redirect.apply] at h
  split at h
  · cases h
  · obtain ⟨abs, -, rfl⟩ := Option.map_eq_some_iff.mp h
    rcases rd.kind with _ | _ | _ <;> rfl

theorem redirSpec_cons (rd : Redirect) (rds : List Redirect) :
    redirSpec pwd r (rd :: rds) = (rd.apply pwd r).bind fun r => redirSpec pwd r rds := rfl

theorem redirSpec_type (rds : List Redirect) (text : Text) :
    redirSpec pwd (r.type text) rds = (redirSpec pwd r rds).map fun r => r.type text := by
  induction rds generalizing r with
  | nil => rfl
  | cons rd rds ih =>
    rw [redirSpec_cons, redirSpec_cons, apply_type, Option.bind_map, Option.map_bind]
    exact congrArg _ (funext fun r => ih)

theorem redirLoop_redirs (rds : List Redirect) (hpaths : ∀ rd ∈ rds, 34 ∉ rd.path)
    (hlen : r.cmd.length + rds.length < maxLine) :
    redirLoop pwd (n + 2 * rds.length) (redirsSpelling rds) false false r =
      (redirSpec pwd r rds).map fun spec => spec.type (List.replicate rds.length 32) := by
  induction rds generalizing r with
  | nil =>
    have hsame : r.type [] = r := by rw [RedirSpec.type, List.append_nil]
    show redirLoop pwd n [] false false r = some (r.type [])
    rw [hsame]
    cases n <;> rfl
  | cons rd rds ih =>
    have hpath := hpaths rd List.mem_cons_self
    rw [List.length_cons] at hlen
    rw [List.length_cons, show n + 2 * (rds.length + 1) = n + 2 * rds.length + 2 by omega,
      show redirsSpelling (rd :: rds) = rd.spelling ++ redirsSpelling rds from rfl,
      redirLoop_redirect hpath (by omega), redirSpec_cons, apply_type]
    cases happly : rd.apply pwd r with
    | none => rfl
    | some r' =>
      have hcmd : (r'.type [32]).cmd.length = r.cmd.length + 1 := by
        rw [RedirSpec.type, apply_cmd happly, List.length_append, List.length_singleton]
      rw [Option.map_some, Option.bind_some, Option.bind_some,
        ih (fun rd hrd => hpaths rd (List.mem_cons_of_mem _ hrd)) (by omega), redirSpec_type,
        Option.map_map]
      refine congrArg (Option.map · _) (funext fun spec => ?_)
      simp [RedirSpec.type, List.replicate_succ]

end Redirecting

section Words

inductive Piece where
  | bare (c : UInt8)
  | escaped (c : UInt8)
  | single (text : Text)
  | double (text : Text)
  | value (name : Text)
  deriving DecidableEq, Repr

-- the characters that need a quote or a backslash, and '#', which begins a comment
def isSpecial (c : UInt8) : Bool :=
  isSpace c || decide (c ∈ ([0, 34, 35, 36, 39, 59, 60, 62, 92, 124] : List UInt8))

def chars (text : Text) : List Atom := text.map fun c => ⟨false, c⟩

def hidden (c : UInt8) : Bool := decide (c = 34 ∨ c = 36 ∨ c = 92)

namespace Piece

def atoms : Piece → List Atom
  | bare c => [⟨false, c⟩]
  | escaped c => [⟨true, c⟩]
  | single text => ⟨false, 39⟩ :: (chars text ++ [⟨false, 39⟩])
  | double text => ⟨false, 34⟩ :: (text.map (fun c => ⟨hidden c, c⟩) ++ [⟨false, 34⟩])
  | value name => ⟨false, 34⟩ :: ⟨false, 36⟩ :: (chars name ++ [⟨false, 34⟩])

def spelling (p : Piece) : Text := spell p.atoms

def meaning (env : Env) : Piece → Text
  | bare c => [c]
  | escaped c => [c]
  | single text => text
  | double text => text
  | value name => (env.getVar name).getD []

-- a blank behind a backslash is lost where it ends the line
def Ok : Piece → Prop
  | bare c => isSpecial c = false
  | escaped c => isSpace c = false ∧ c ≠ 0
  | single text => ∀ c ∈ text, c ≠ 0 ∧ c ≠ 39 ∧ c ≠ 92
  | double text => 0 ∉ text
  | value name => (name.head?.map isNameStart).getD false = true ∧ name.all isNameChar = true ∧
      name.length < maxVarName

-- the rounds of the loop of parse_argv
def rounds : Piece → Nat
  | bare _ => 1
  | escaped _ => 1
  | single text => text.length + 2
  | double text => text.length + 2
  | value _ => 3

end Piece

abbrev Word := List Piece

def Word.spelling (w : Word) : Text := w.flatMap Piece.spelling

def Word.meaning (env : Env) (w : Word) : Text := w.flatMap (Piece.meaning env)

def Word.Ok (w : Word) : Prop := w ≠ [] ∧ ∀ p ∈ w, p.Ok

def Word.rounds (w : Word) : Nat := (w.map Piece.rounds).sum

end Words

section Pieces

variable {special : UInt8 → Bool} {q : Quotes} {text : Text}

theorem calm_quoted {as : List Atom} (hq : q ≠ .none) (hsame : ∀ a ∈ as, q.after a = q)
    (has : ∀ a ∈ as, a.escaped = true ∨ a.char ≠ 92) : Calm special q as ∧ q.over as = q := by
  induction as with
  | nil => exact ⟨trivial, rfl⟩
  | cons a as ih =>
    have ha := hsame a List.mem_cons_self
    obtain ⟨hcalm, hover⟩ := ih (fun b hb => hsame b (List.mem_cons_of_mem a hb))
      fun b hb => has b (List.mem_cons_of_mem a hb)
    refine ⟨⟨(has a List.mem_cons_self).imp id fun h => ⟨h, fun hn => absurd hn hq⟩, ?_⟩, ?_⟩
    · rw [ha]
      exact hcalm
    · exact (congrArg (Quotes.over · as) ha).trans hover

theorem calm_between {c : UInt8} {as : List Atom} (hspecial : special c = false) (hc : c ≠ 92)
    (hopen : Quotes.none.next c ≠ .none) (hclose : (Quotes.none.next c).next c = .none)
    (hsame : ∀ a ∈ as, (Quotes.none.next c).after a = Quotes.none.next c)
    (has : ∀ a ∈ as, a.escaped = true ∨ a.char ≠ 92) :
    Calm special .none (⟨false, c⟩ :: (as ++ [⟨false, c⟩])) ∧
      Quotes.none.over (⟨false, c⟩ :: (as ++ [⟨false, c⟩])) = .none := by
  obtain ⟨hcalm, hover⟩ : Calm special (Quotes.none.next c) as ∧ _ := calm_quoted hopen hsame has
  refine ⟨⟨Or.inr ⟨hc, fun _ => hspecial⟩, calm_append.mpr ⟨hcalm, ?_, trivial⟩⟩, ?_⟩
  · rw [hover]
    exact Or.inr ⟨hc, fun h => absurd h hopen⟩
  · show (Quotes.none.next c).over (as ++ [⟨false, c⟩]) = .none
    rw [over_append, hover]
    exact hclose

theorem name_plain {c : UInt8} (h : isNameChar c = true) : c ≠ 34 ∧ c ≠ 39 ∧ c ≠ 92 ∧ c ≠ 36 := by
  refine ⟨?_, ?_, ?_, ?_⟩ <;> rintro rfl <;> exact absurd h (by decide)

theorem Piece.calm (hspecial : ∀ c, special c = true → isSpecial c = true)
    (hquotes : special 34 = false ∧ special 39 = false) {p : Piece} (h : p.Ok) :
    Calm special .none p.atoms ∧ Quotes.none.over p.atoms = .none := by
  cases p with
  | bare c =>
    have hc : ∀ d, isSpecial d = true → c ≠ d := fun d hd he =>
      Bool.false_ne_true ((show isSpecial c = false from h).symm.trans (he ▸ hd))
    refine ⟨⟨Or.inr ⟨hc 92 rfl, fun _ => ?_⟩, trivial⟩, next_plain (hc 39 rfl) (hc 34 rfl)⟩
    exact Bool.eq_false_iff.mpr fun hs => hc c (hspecial c hs) rfl
  | escaped c => exact ⟨⟨Or.inl rfl, trivial⟩, rfl⟩
  | single text =>
    refine calm_between hquotes.2 (by decide) (by decide) (by decide) (fun a ha => ?_) fun a ha => ?_
    · obtain ⟨c, hc, rfl⟩ := List.mem_map.mp ha
      simp [Quotes.after, Quotes.none, (h c hc).2.1]
    · obtain ⟨c, hc, rfl⟩ := List.mem_map.mp ha
      exact Or.inr (h c hc).2.2
  | double text =>
    refine calm_between hquotes.1 (by decide) (by decide) (by decide) (fun a ha => ?_) fun a ha => ?_
    · obtain ⟨c, hc, rfl⟩ := List.mem_map.mp ha
      by_cases hh : hidden c
      · simp [Quotes.after, hh]
      · have h34 : c ≠ 34 := fun he => hh (by rw [he]; decide)
        simp [Quotes.after, Quotes.none, hh, h34]
    · obtain ⟨c, hc, rfl⟩ := List.mem_map.mp ha
      by_cases hh : hidden c
      · exact Or.inl hh
      · exact Or.inr fun he : c = 92 => hh (by rw [he]; decide)
  | value name =>
    have hname : ∀ c ∈ 36 :: name, c ≠ 34 ∧ c ≠ 39 ∧ c ≠ 92 := fun c hc => by
      rcases List.mem_cons.mp hc with rfl | hc
      · decide
      · obtain ⟨h34, h39, h92, -⟩ := name_plain (List.all_eq_true.mp h.2.1 c hc)
        exact ⟨h34, h39, h92⟩
    have hbetween : Calm special .none (⟨false, 34⟩ :: (chars (36 :: name) ++ [⟨false, 34⟩])) ∧ _ :=
      calm_between hquotes.1 (by decide) (by decide) (by decide) (fun a ha => ?_) fun a ha => ?_
    · exact hbetween
    · obtain ⟨c, hc, rfl⟩ := List.mem_map.mp ha
      simp [Quotes.after, Quotes.none, (hname c hc).1]
    · obtain ⟨c, hc, rfl⟩ := List.mem_map.mp ha
      exact Or.inr (hname c hc).2.2

end Pieces

section Parsing

variable {expand : Text → Text × Text} {rest tok : Text} {n : Nat}

theorem appendText_append (tok a b : Text) :
    appendText tok (a ++ b) = (appendText tok a).bind fun tok => appendText tok b := by
  rw [appendText, appendText, List.length_append]
  by_cases ha : tok.length + a.length < maxToken
  · rw [if_pos ha, Option.bind_some, appendText, List.length_append, List.append_assoc]
    exact if_congr (by omega) rfl rfl
  · rw [if_neg ha, if_neg (by omega)]
    rfl

theorem appendText_nil (htok : tok.length < maxToken) : appendText tok [] = some tok := by
  rw [appendText, if_pos (by simpa using htok), List.append_nil]

theorem appendText_short {text out : Text} (h : appendText tok text = some out) :
    out.length < maxToken ∧ out = tok ++ text := by
  rw [appendText] at h
  split at h
  · rename_i hlt
    cases h
    exact ⟨by rw [List.length_append]; exact hlt, rfl⟩
  · cases h

theorem parseToken_put {c : UInt8} {sq dq : Bool} (hspace : sq = false → dq = false → isSpace c = false)
    (h39 : dq = false → c ≠ 39) (hsq : sq = false → c ≠ 34 ∧ c ≠ 92 ∧ c ≠ 36) :
    parseToken expand (n + 1) (c :: rest) sq dq tok =
      (appendText tok [c]).bind (parseToken expand n rest sq dq) := by
  rw [parseToken, if_neg fun h => Bool.false_ne_true ((hspace h.1 h.2.1).symm.trans h.2.2),
    if_neg fun h => h39 h.1 h.2, if_neg fun h => (hsq h.1).1 h.2, if_neg fun h => (hsq h.1).2.1 h.2.1,
    if_neg fun h => (hsq h.1).2.2 h.2]

theorem parseToken_escape {c : UInt8} {dq : Bool} :
    parseToken expand (n + 1) (92 :: c :: rest) false dq tok =
      (appendText tok [c]).bind (parseToken expand n rest false dq) := by
  rw [parseToken, if_neg (by simp [isSpace]), if_neg (by simp), if_neg (by simp),
    if_pos ⟨rfl, rfl, List.cons_ne_nil _ _⟩]
  rfl

theorem parseToken_single_quote {sq : Bool} :
    parseToken expand (n + 1) (39 :: rest) sq false tok = parseToken expand n rest (!sq) false tok := by
  rw [parseToken, if_neg (by simp [isSpace]), if_pos ⟨rfl, rfl⟩]

theorem parseToken_double_quote {dq : Bool} :
    parseToken expand (n + 1) (34 :: rest) false dq tok = parseToken expand n rest false (!dq) tok := by
  rw [parseToken, if_neg (by simp [isSpace]), if_neg (by simp), if_pos ⟨rfl, rfl⟩]

theorem parseToken_value {dq : Bool} :
    parseToken expand (n + 1) (36 :: rest) false dq tok =
      (appendText tok (expand rest).1).bind (parseToken expand n (expand rest).2 false dq) := by
  rw [parseToken, if_neg (by simp [isSpace]), if_neg (by simp), if_neg (by simp), if_neg (by simp),
    if_pos ⟨rfl, rfl⟩]

theorem parseToken_chars {f : UInt8 → Text} {sq dq : Bool} {text : Text}
    (hstep : ∀ c ∈ text, ∀ (n : Nat) (rest tok : Text), parseToken expand (n + 1) (f c ++ rest) sq dq tok =
      (appendText tok [c]).bind (parseToken expand n rest sq dq))
    (htok : tok.length < maxToken) :
    parseToken expand (n + text.length) (text.flatMap f ++ rest) sq dq tok =
      (appendText tok text).bind (parseToken expand n rest sq dq) := by
  induction text generalizing tok with
  | nil =>
    rw [appendText_nil htok]
    rfl
  | cons c text ih =>
    rw [List.flatMap_cons, List.append_assoc, List.length_cons, ← Nat.add_assoc,
      hstep c List.mem_cons_self, show appendText tok (c :: text) = _ from appendText_append tok [c] text,
      Option.bind_assoc]
    cases happend : appendText tok [c] with
    | none => rfl
    | some tok' =>
      exact ih (fun d hd => hstep d (List.mem_cons_of_mem c hd)) (appendText_short happend).1

theorem readName_name {name : Text} {c : UInt8} {n : Nat} (hname : name.all isNameChar = true)
    (hlen : name.length ≤ n) (hc : isNameChar c = false) :
    readName n (name ++ c :: rest) = (name, c :: rest) := by
  induction name generalizing n with
  | nil =>
    cases n with
    | zero => rfl
    | succ n =>
      rw [List.nil_append, readName, if_neg (by rw [hc]; exact Bool.false_ne_true)]
  | cons d name ih =>
    obtain ⟨n, rfl⟩ : ∃ m, n = m + 1 := ⟨n - 1, by rw [List.length_cons] at hlen; omega⟩
    rw [List.all_cons, Bool.and_eq_true] at hname
    rw [List.cons_append, readName, if_pos hname.1, ih hname.2 (by simpa using hlen)]

theorem spell_chars (text : Text) : spell (chars text) = text := by
  induction text with
  | nil => rfl
  | cons c text ih => exact congrArg (c :: ·) ih

theorem spell_hidden (text : Text) :
    spell (text.map fun c => ⟨hidden c, c⟩) = text.flatMap fun c => Atom.spelling ⟨hidden c, c⟩ :=
  List.flatMap_map _ _ text

theorem Env.expand_name (env : Env) {name : Text} (h : (Piece.value name).Ok) :
    env.expand (name ++ 34 :: rest) = ((env.getVar name).getD [], 34 :: rest) := by
  obtain ⟨hstart, hall, hlen⟩ := h
  have hread : readName (maxVarName - 1) (name ++ 34 :: rest) = (name, 34 :: rest) :=
    readName_name hall (Nat.le_sub_one_of_lt hlen) (by decide)
  have hhead : (name ++ 34 :: rest).head? = name.head? := by
    cases name with
    | nil => cases hstart
    | cons c name => rfl
  rw [Env.expand, hhead, if_pos hstart, hread]

theorem parseToken_piece (env : Env) {p : Piece} (h : p.Ok) (htok : tok.length < maxToken) :
    parseToken env.expand (n + p.rounds) (p.spelling ++ rest) false false tok =
      (appendText tok (p.meaning env)).bind (parseToken env.expand n rest false false) := by
  cases p with
  | bare c =>
    have hc : ∀ d, isSpecial d = true → c ≠ d := fun d hd he =>
      Bool.false_ne_true ((show isSpecial c = false from h).symm.trans (he ▸ hd))
    have hspace : isSpace c = false := (Bool.or_eq_false_iff.mp h).1
    exact parseToken_put (fun _ _ => hspace) (fun _ => hc 39 rfl)
      fun _ => ⟨hc 34 rfl, hc 92 rfl, hc 36 rfl⟩
  | escaped c => exact parseToken_escape
  | single text =>
    have hspell : (Piece.single text).spelling ++ rest = 39 :: (text.flatMap (fun c => [c]) ++ 39 :: rest) := by
      simp [Piece.spelling, Piece.atoms, spell_chars, Atom.spelling]
    rw [hspell, Piece.rounds, show n + (text.length + 2) = n + 1 + text.length + 1 by omega,
      parseToken_single_quote, Bool.not_false, parseToken_chars (fun c hc n rest tok => ?_) htok]
    · exact congrArg _ (funext fun tok => parseToken_single_quote)
    · exact parseToken_put (fun h => absurd h (by decide)) (fun _ => (h c hc).2.1)
        fun h => absurd h (by decide)
  | double text =>
    have hspell : (Piece.double text).spelling ++ rest =
        34 :: (text.flatMap (fun c => Atom.spelling ⟨hidden c, c⟩) ++ 34 :: rest) := by
      simp [Piece.spelling, Piece.atoms, spell_hidden, Atom.spelling]
    rw [hspell, Piece.rounds, show n + (text.length + 2) = n + 1 + text.length + 1 by omega,
      parseToken_double_quote, Bool.not_false, parseToken_chars (fun c hc n rest tok => ?_) htok]
    · exact congrArg _ (funext fun tok => parseToken_double_quote)
    · by_cases hh : hidden c
      · rw [hh]
        exact parseToken_escape
      · rw [Bool.not_eq_true] at hh
        have hplain : ∀ d, hidden d = true → c ≠ d := fun d hd he =>
          Bool.false_ne_true (hh.symm.trans (he ▸ hd))
        rw [hh]
        exact parseToken_put (fun _ h => absurd h (by decide)) (fun h => absurd h (by decide))
          fun _ => ⟨hplain 34 rfl, hplain 92 rfl, hplain 36 rfl⟩
  | value name =>
    have hspell : (Piece.value name).spelling ++ rest = 34 :: 36 :: (name ++ 34 :: rest) := by
      simp [Piece.spelling, Piece.atoms, spell_chars, Atom.spelling]
    rw [hspell, show n + (Piece.value name).rounds = n + 1 + 1 + 1 from rfl, parseToken_double_quote,
      parseToken_value, env.expand_name h]
    exact congrArg _ (funext fun tok => parseToken_double_quote)

end Parsing

section Arguments

variable {expand : Text → Text × Text} {rest tok : Text} {n : Nat} (env : Env)

theorem parseToken_pieces {w : Word} (h : ∀ p ∈ w, p.Ok) (htok : tok.length < maxToken) :
    parseToken env.expand (n + w.rounds) (w.spelling ++ rest) false false tok =
      (appendText tok (w.meaning env)).bind (parseToken env.expand n rest false false) := by
  induction w generalizing tok with
  | nil =>
    show parseToken env.expand n rest false false tok = (appendText tok []).bind _
    rw [appendText_nil htok]
    rfl
  | cons p w ih =>
    rw [show Word.rounds (p :: w) = p.rounds + Word.rounds w by simp [Word.rounds],
      show Word.spelling (p :: w) = p.spelling ++ Word.spelling w from rfl, List.append_assoc,
      show n + (p.rounds + Word.rounds w) = n + Word.rounds w + p.rounds by omega,
      parseToken_piece env (h p List.mem_cons_self) htok,
      show appendText tok (Word.meaning env (p :: w)) = _ from
        appendText_append tok (p.meaning env) (Word.meaning env w), Option.bind_assoc]
    cases happend : appendText tok (p.meaning env) with
    | none => rfl
    | some tok' => exact ih (fun d hd => h d (List.mem_cons_of_mem p hd)) (appendText_short happend).1

def EndsWord (rest : Text) : Prop := rest = [] ∨ rest.head? = some 32

theorem parseToken_ends (h : EndsWord rest) :
    parseToken expand (n + 1) rest false false tok = some (tok, rest) := by
  rcases h with rfl | h
  · rfl
  · obtain ⟨rest', rfl⟩ : ∃ t, rest = 32 :: t := by
      cases rest with
      | nil => cases h
      | cons c t => exact ⟨t, by rw [Option.some.inj h]⟩
    exact if_pos ⟨rfl, rfl, rfl⟩

theorem Piece.rounds_le (p : Piece) : p.rounds ≤ p.spelling.length := by
  have hchars : ∀ text : Text, (spell (chars text)).length = text.length := fun text => by
    rw [spell_chars]
  have hhidden : ∀ text : Text, text.length ≤ (spell (text.map fun c => ⟨hidden c, c⟩)).length := by
    intro text
    induction text with
    | nil => exact Nat.zero_le _
    | cons c text ih =>
      rw [List.map_cons, spell_cons, List.length_append, List.length_cons]
      have : 1 ≤ (Atom.spelling ⟨hidden c, c⟩).length := by
        cases hidden c
        · exact Nat.le_refl 1
        · exact Nat.le_succ 1
      omega
  cases p with
  | bare c => exact Nat.le_refl 1
  | escaped c => exact Nat.le_succ 1
  | single text => simp [Piece.rounds, Piece.spelling, Piece.atoms, Atom.spelling, hchars]
  | double text =>
    have := hhidden text
    simp [Piece.rounds, Piece.spelling, Piece.atoms, Atom.spelling]
    omega
  | value name =>
    simp [Piece.rounds, Piece.spelling, Piece.atoms, Atom.spelling]

theorem Word.rounds_le (w : Word) : w.rounds ≤ w.spelling.length := by
  induction w with
  | nil => exact Nat.le_refl 0
  | cons p w ih =>
    rw [show Word.rounds (p :: w) = p.rounds + Word.rounds w by simp [Word.rounds],
      show Word.spelling (p :: w) = p.spelling ++ Word.spelling w from rfl, List.length_append]
    exact Nat.add_le_add p.rounds_le ih

theorem parseToken_word {w : Word} (h : ∀ p ∈ w, p.Ok) (hrest : EndsWord rest)
    (hn : w.spelling.length < n) :
    parseToken env.expand n (w.spelling ++ rest) false false [] =
      if (w.meaning env).length < maxToken then some (w.meaning env, rest) else none := by
  obtain ⟨m, rfl⟩ : ∃ m, n = m + 1 + w.rounds :=
    ⟨n - 1 - w.rounds, by have := w.rounds_le; omega⟩
  rw [parseToken_pieces env h (by decide), appendText, List.length_nil, Nat.zero_add, List.nil_append]
  split
  · exact parseToken_ends hrest
  · rfl

theorem Piece.head {p : Piece} (h : p.Ok) :
    ∃ c t, p.spelling = c :: t ∧ isSpace c = false ∧ c ≠ 35 := by
  cases p with
  | bare c =>
    refine ⟨c, [], rfl, (Bool.or_eq_false_iff.mp h).1, fun he => ?_⟩
    exact Bool.false_ne_true ((show isSpecial c = false from h).symm.trans (he ▸ rfl))
  | escaped c => exact ⟨92, [c], rfl, rfl, by decide⟩
  | single text => exact ⟨39, _, rfl, rfl, by decide⟩
  | double text => exact ⟨34, _, rfl, rfl, by decide⟩
  | value name => exact ⟨34, _, rfl, rfl, by decide⟩

theorem Word.head {w : Word} (h : w.Ok) :
    ∃ c t, w.spelling = c :: t ∧ isSpace c = false ∧ c ≠ 35 := by
  cases w with
  | nil => exact absurd rfl h.1
  | cons p w =>
    obtain ⟨c, t, hp, hc⟩ := Piece.head (h.2 p List.mem_cons_self)
    exact ⟨c, t ++ Word.spelling w, by rw [← List.cons_append, ← hp]; rfl, hc⟩

def tailSpelling (ws : List Word) : Text := ws.flatMap fun w => 32 :: w.spelling

theorem endsWord_tail (ws : List Word) : EndsWord (tailSpelling ws) := by
  cases ws with
  | nil => exact Or.inl rfl
  | cons w ws => exact Or.inr rfl

def argvOf (ws : List Word) : Option (List Text) :=
  if ws.length ≤ maxArgs ∧ ∀ w ∈ ws, (w.meaning env).length < maxToken then
    some (ws.map (Word.meaning env))
  else none

theorem parseArgs_word {w : Word} (h : w.Ok) (hrest : EndsWord rest) {argv : List Text} :
    parseArgs env.expand (n + 1) (w.spelling ++ rest) argv =
      if argv.length < maxArgs ∧ (w.meaning env).length < maxToken then
        parseArgs env.expand n rest (argv ++ [w.meaning env])
      else none := by
  obtain ⟨c, t, hw, hc, hhash⟩ := Word.head h
  have hparse := parseToken_word (n := (t ++ rest).length + 2) env h.2 hrest
    (by rw [hw, List.length_cons, List.length_append]; omega)
  have hskip : (c :: (t ++ rest)).dropWhile isSpace = c :: (t ++ rest) :=
    List.dropWhile_cons_of_neg (by rw [hc]; exact Bool.false_ne_true)
  rw [hw, List.cons_append] at hparse ⊢
  rw [parseArgs, hskip]
  dsimp only
  rw [if_neg hhash, hparse]
  by_cases hfull : argv.length < maxArgs
  · rw [if_neg (Nat.not_le.mpr hfull)]
    by_cases hlen : (w.meaning env).length < maxToken
    · rw [if_pos hlen, if_pos ⟨hfull, hlen⟩]
      rfl
    · rw [if_neg hlen, if_neg fun h => hlen h.2]
      rfl
  · rw [if_pos (Nat.not_lt.mp hfull), if_neg fun h => hfull h.1]

theorem parseArgs_blank {argv : List Text} :
    parseArgs expand (n + 1) (32 :: rest) argv = parseArgs expand (n + 1) rest argv := rfl

theorem parseArgs_tail {ws : List Word} (h : ∀ w ∈ ws, w.Ok) {argv : List Text}
    (hargv : argv.length ≤ maxArgs) (hn : ws.length < n) :
    parseArgs env.expand n (tailSpelling ws) argv =
      if argv.length + ws.length ≤ maxArgs ∧ ∀ w ∈ ws, (w.meaning env).length < maxToken then
        some (argv ++ ws.map (Word.meaning env))
      else none := by
  induction ws generalizing argv n with
  | nil =>
    obtain ⟨n, rfl⟩ : ∃ m, n = m + 1 := ⟨n - 1, by omega⟩
    rw [if_pos ⟨hargv, nofun⟩, List.map_nil, List.append_nil]
    rfl
  | cons w ws ih =>
    obtain ⟨n, rfl⟩ : ∃ m, n = m + 1 := ⟨n - 1, by omega⟩
    rw [List.length_cons] at hn
    rw [show tailSpelling (w :: ws) = 32 :: (w.spelling ++ tailSpelling ws) from rfl, parseArgs_blank,
      parseArgs_word env (h w List.mem_cons_self) (endsWord_tail ws)]
    by_cases hw : argv.length < maxArgs ∧ (w.meaning env).length < maxToken
    · rw [if_pos hw, ih (fun v hv => h v (List.mem_cons_of_mem w hv))
        (by rw [List.length_append]; exact hw.1) (by omega),
        List.length_append, List.length_singleton, List.append_assoc]
      refine if_congr ?_ rfl rfl
      rw [List.forall_mem_cons, List.length_cons]
      exact ⟨fun h => ⟨by omega, hw.2, h.2⟩, fun h => ⟨by omega, h.2.2⟩⟩
    · rw [if_neg hw, if_neg]
      rintro ⟨hlen, hall⟩
      rw [List.length_cons] at hlen
      exact hw ⟨by omega, hall w List.mem_cons_self⟩

def wordsSpelling : List Word → Text
  | [] => []
  | w :: ws => w.spelling ++ tailSpelling ws

theorem length_tailSpelling (ws : List Word) : ws.length ≤ (tailSpelling ws).length := by
  induction ws with
  | nil => exact Nat.le_refl 0
  | cons w ws ih =>
    rw [show tailSpelling (w :: ws) = 32 :: (w.spelling ++ tailSpelling ws) from rfl, List.length_cons,
      List.length_cons, List.length_append]
    omega

theorem parseArgv_words {ws : List Word} (hne : ws ≠ []) (h : ∀ w ∈ ws, w.Ok) :
    env.parseArgv (wordsSpelling ws) = argvOf env ws := by
  obtain ⟨w, ws, rfl⟩ := List.exists_cons_of_ne_nil hne
  have htail : parseArgs env.expand _ (tailSpelling (w :: ws)) [] = _ :=
    parseArgs_tail (n := (wordsSpelling (w :: ws)).length + 1) env h (Nat.zero_le _) (by
      have := length_tailSpelling ws
      obtain ⟨c, t, hw, -⟩ := Word.head (h w List.mem_cons_self)
      rw [wordsSpelling, hw, List.length_append, List.length_cons, List.length_cons]
      omega)
  rw [show tailSpelling (w :: ws) = 32 :: wordsSpelling (w :: ws) from rfl, parseArgs_blank] at htail
  rw [Env.parseArgv, htail, argvOf, List.length_nil, Nat.zero_add, List.nil_append]

end Arguments

end HouseOS.Shell
