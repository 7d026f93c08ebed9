import HouseOS.Args.RoundTrip
import HouseOS.Shell.Spelling

namespace HouseOS.Shell

open HouseOS.Args (Encoder buildCmdlineFromArgv splitCmdline)
open HouseOS.Words (byteText)

section Closed

variable (special : UInt8 → Bool)

-- atoms that leave no quote open and hold no character that cuts
structure Closed (as : List Atom) : Prop where
  calm : Calm special .none as
  back : Quotes.none.over as = .none

structure Cuts : Prop where
  listed : ∀ c, special c = true → isSpecial c = true
  quotes : special 34 = false ∧ special 39 = false
  blank : special 32 = false

variable {special} {as bs : List Atom}

theorem Closed.append (ha : Closed special as) (hb : Closed special bs) : Closed special (as ++ bs) :=
  ⟨calm_append.mpr ⟨ha.calm, by rw [ha.back]; exact hb.calm⟩, by rw [over_append, ha.back, hb.back]⟩

theorem closed_flatMap {α : Type} {f : α → List Atom} {xs : List α} (h : ∀ x ∈ xs, Closed special (f x)) :
    Closed special (xs.flatMap f) := by
  induction xs with
  | nil => exact ⟨trivial, rfl⟩
  | cons x xs ih =>
    exact (h x List.mem_cons_self).append (ih fun y hy => h y (List.mem_cons_of_mem x hy))

theorem closed_char {c : UInt8} (hs : special c = false) (hc : c ≠ 92 ∧ c ≠ 39 ∧ c ≠ 34) :
    Closed special [⟨false, c⟩] :=
  ⟨⟨Or.inr ⟨hc.1, fun _ => hs⟩, trivial⟩, next_plain hc.2.1 hc.2.2⟩

def Word.atoms (w : Word) : List Atom := w.flatMap Piece.atoms

def wordsAtoms : List Word → List Atom
  | [] => []
  | w :: ws => w.atoms ++ ws.flatMap fun w => ⟨false, 32⟩ :: w.atoms

theorem spell_flatMap {α : Type} (f : α → List Atom) (xs : List α) :
    spell (xs.flatMap f) = xs.flatMap fun x => spell (f x) := List.flatMap_assoc

theorem spell_word (w : Word) : spell w.atoms = w.spelling := spell_flatMap _ _

theorem spell_words (ws : List Word) : spell (wordsAtoms ws) = wordsSpelling ws := by
  cases ws with
  | nil => rfl
  | cons w ws =>
    rw [wordsAtoms, spell_append, spell_flatMap, spell_word, wordsSpelling, tailSpelling]
    simp [spell_word, Atom.spelling]

theorem closed_word (hcuts : Cuts special) {w : Word} (h : w.Ok) : Closed special w.atoms :=
  closed_flatMap fun p hp =>
    have hp := Piece.calm hcuts.listed hcuts.quotes (h.2 p hp)
    ⟨hp.1, hp.2⟩

theorem closed_words (hcuts : Cuts special) {ws : List Word} (h : ∀ w ∈ ws, w.Ok) :
    Closed special (wordsAtoms ws) := by
  cases ws with
  | nil => exact ⟨trivial, rfl⟩
  | cons w ws =>
    refine (closed_word hcuts (h w List.mem_cons_self)).append (closed_flatMap fun v hv => ?_)
    exact (closed_char hcuts.blank (by decide)).append
      (closed_word hcuts (h v (List.mem_cons_of_mem w hv)))

end Closed

section Ends

variable {a b : Text}

def Starts (t : Text) : Prop := ∃ c t', t = c :: t' ∧ isSpace c = false

def Stops (t : Text) : Prop := ∃ t' c, t = t' ++ [c] ∧ isSpace c = false

theorem Starts.append (h : Starts a) : Starts (a ++ b) := by
  obtain ⟨c, t, rfl, hc⟩ := h
  exact ⟨c, t ++ b, rfl, hc⟩

theorem Stops.prepend (h : Stops b) : Stops (a ++ b) := by
  obtain ⟨t, c, rfl, hc⟩ := h
  exact ⟨a ++ t, c, (List.append_assoc ..).symm, hc⟩

theorem stops_flatMap {α : Type} {f : α → Text} {xs : List α} (hb : Stops b)
    (h : ∀ x ∈ xs, Stops (f x)) : Stops (b ++ xs.flatMap f) := by
  induction xs generalizing b with
  | nil => simpa using hb
  | cons x xs ih =>
    rw [List.flatMap_cons, ← List.append_assoc]
    exact ih (h x List.mem_cons_self).prepend fun y hy => h y (List.mem_cons_of_mem x hy)

theorem trimWs_pad {t : Text} (hstarts : Starts t) (hstops : Stops t) (m n : Nat) :
    trimWs (List.replicate m 32 ++ (t ++ List.replicate n 32)) = t := by
  have hblank : ∀ (n : Nat), ∀ c ∈ List.replicate n (32 : UInt8), isSpace c = true := fun n c hc => by
    rw [List.eq_of_mem_replicate hc]
    rfl
  obtain ⟨c, t', rfl, hc⟩ := hstarts
  rw [trimWs, List.dropWhile_append_of_pos (hblank m), List.cons_append,
    List.dropWhile_cons_of_neg (by rw [hc]; exact Bool.false_ne_true), ← List.cons_append,
    List.reverse_append, List.reverse_replicate, List.dropWhile_append_of_pos (hblank n)]
  obtain ⟨u, d, hu, hd⟩ := hstops
  rw [hu, List.reverse_append, List.reverse_singleton, List.singleton_append,
    List.dropWhile_cons_of_neg (by rw [hd]; exact Bool.false_ne_true), List.reverse_cons,
    List.reverse_reverse]

theorem Piece.stops {p : Piece} (h : p.Ok) : Stops p.spelling := by
  cases p with
  | bare c => exact ⟨[], c, rfl, (Bool.or_eq_false_iff.mp h).1⟩
  | escaped c => exact ⟨[92], c, rfl, h.1⟩
  | single text =>
    exact ⟨39 :: text, 39, by simp [Piece.spelling, Piece.atoms, spell_chars, Atom.spelling], rfl⟩
  | double text =>
    exact ⟨34 :: spell (text.map fun c => ⟨hidden c, c⟩), 34,
      by simp [Piece.spelling, Piece.atoms, Atom.spelling], rfl⟩
  | value name =>
    exact ⟨34 :: 36 :: name, 34, by simp [Piece.spelling, Piece.atoms, spell_chars, Atom.spelling], rfl⟩

theorem Word.stops {w : Word} (h : w.Ok) : Stops w.spelling := by
  obtain ⟨p, w, rfl⟩ := List.exists_cons_of_ne_nil h.1
  exact stops_flatMap (Piece.stops (h.2 p List.mem_cons_self))
    fun q hq => Piece.stops (h.2 q (List.mem_cons_of_mem p hq))

theorem starts_words {ws : List Word} (hne : ws ≠ []) (h : ∀ w ∈ ws, w.Ok) : Starts (wordsSpelling ws) := by
  obtain ⟨w, ws, rfl⟩ := List.exists_cons_of_ne_nil hne
  obtain ⟨c, t, hw, hc, -⟩ := Word.head (h w List.mem_cons_self)
  exact Starts.append ⟨c, t, hw, hc⟩

theorem stops_words {ws : List Word} (hne : ws ≠ []) (h : ∀ w ∈ ws, w.Ok) : Stops (wordsSpelling ws) := by
  obtain ⟨w, ws, rfl⟩ := List.exists_cons_of_ne_nil hne
  exact stops_flatMap (Word.stops (h w List.mem_cons_self))
    fun v hv => Stops.prepend (a := [32]) (Word.stops (h v (List.mem_cons_of_mem w hv)))

end Ends

section Language

structure Stage where
  words : List Word
  redirs : List Redirect
  deriving DecidableEq, Repr

inductive Command where
  | single (st : Stage)
  | piped (left right : Stage)
  deriving DecidableEq, Repr

def Redirect.Ok (rd : Redirect) : Prop := ∀ c ∈ rd.path, c ≠ 34 ∧ c ≠ 92

namespace Stage

def spelling (st : Stage) : Text := wordsSpelling st.words ++ redirsSpelling st.redirs

structure Ok (st : Stage) : Prop where
  named : st.words ≠ []
  words : ∀ w ∈ st.words, w.Ok
  redirs : ∀ rd ∈ st.redirs, rd.Ok

end Stage

namespace Command

def spelling : Command → Text
  | single st => st.spelling
  | piped l r => l.spelling ++ 32 :: 124 :: 32 :: r.spelling

def Ok : Command → Prop
  | single st => st.Ok
  | piped l r => l.Ok ∧ r.Ok

end Command

def lineOf (c : Command) (cs : List (UInt8 × Command)) : Text :=
  c.spelling ++ cs.flatMap fun x => x.1 :: x.2.spelling

variable {K : Type} (o : ShellCalls K)

def Stage.capture (st : Stage) (inData : Text) (s : Session K) : Captured × Session K :=
  match argvOf s.env st.words with
  | none => (⟨false, [], []⟩, s)
  | some argv => s.captureArgv o argv inData

-- a '<' or a '>' that is quoted makes a captured command too
def Stage.run (st : Stage) (s : Session K) : Session K :=
  if 62 ∈ st.spelling ∨ 60 ∈ st.spelling then
    match redirSpec s.env.pwd .init st.redirs with
    | none => s.complain o "parse error\n"
    | some r => s.execRedirected o (st.capture o) r
  else
    match argvOf s.env st.words with
    | none => s.complain o "parse error\n"
    | some argv => s.execArgv o argv

def Command.run (s : Session K) : Command → Session K
  | single st => st.run o s
  | piped left right =>
      match redirSpec s.env.pwd .init left.redirs, redirSpec s.env.pwd .init right.redirs with
      | some l, some r => s.execPipe o (left.capture o) (right.capture o) l r
      | _, _ => s.complain o "parse error\n"

def runCommands (s : Session K) (cs : List Command) : Session K :=
  cs.foldl (fun s c => if s.exited.isSome then s else c.run o s) s

end Language

section Stages

variable {special : UInt8 → Bool} {st : Stage} {pwd : Text}

def Redirect.atoms (rd : Redirect) : List Atom :=
  chars (32 :: (rd.kind.spelling ++ [32])) ++ ⟨false, 34⟩ :: (chars rd.path ++ [⟨false, 34⟩])

def Stage.atoms (st : Stage) : List Atom := wordsAtoms st.words ++ st.redirs.flatMap Redirect.atoms

theorem spell_redirect (rd : Redirect) : spell rd.atoms = rd.spelling := by
  rw [Redirect.atoms, spell_append, spell_chars, spell_cons, spell_append, spell_chars]
  simp [Redirect.spelling, Atom.spelling]

theorem spell_stage (st : Stage) : spell st.atoms = st.spelling := by
  rw [Stage.atoms, spell_append, spell_words, spell_flatMap, Stage.spelling, redirsSpelling]
  simp only [spell_redirect]

theorem closed_chars {text : Text} (hs : ∀ c ∈ text, special c = false)
    (hc : ∀ c ∈ text, c ≠ 92 ∧ c ≠ 39 ∧ c ≠ 34) : Closed special (chars text) := by
  rw [chars, List.map_eq_flatMap]
  exact closed_flatMap fun c h => closed_char (hs c h) (hc c h)

theorem closed_redirect (hcuts : Cuts special) (hop : ∀ c ∈ ([50, 60, 62] : List UInt8), special c = false)
    {rd : Redirect} (h : rd.Ok) : Closed special rd.atoms := by
  have hkind : ∀ c ∈ 32 :: (rd.kind.spelling ++ [32]), c = 32 ∨ c ∈ ([50, 60, 62] : List UInt8) := by
    rcases rd.kind with _ | (_ | _) | _ <;> decide +kernel
  refine (closed_chars (fun c hc => ?_) fun c hc => ?_).append ?_
  · rcases hkind c hc with rfl | hc
    · exact hcuts.blank
    · exact hop c hc
  · rcases hkind c hc with rfl | hc
    · decide
    · exact (by decide +kernel : ∀ c ∈ ([50, 60, 62] : List UInt8), c ≠ 92 ∧ c ≠ 39 ∧ c ≠ 34) c hc
  · have hpath : Calm special .none (⟨false, 34⟩ :: (chars rd.path ++ [⟨false, 34⟩])) ∧ _ :=
      calm_between hcuts.quotes.1 (by decide) (by decide) (by decide)
      (fun a ha => by
        obtain ⟨c, hc, rfl⟩ := List.mem_map.mp ha
        simp [Quotes.after, Quotes.none, (h c hc).1])
      fun a ha => by
        obtain ⟨c, hc, rfl⟩ := List.mem_map.mp ha
        exact Or.inr (h c hc).2
    exact ⟨hpath.1, hpath.2⟩

theorem closed_stage (hcuts : Cuts special) (hop : ∀ c ∈ ([50, 60, 62] : List UInt8), special c = false)
    (h : st.Ok) : Closed special st.atoms :=
  (closed_words hcuts h.words).append
    (closed_flatMap fun rd hrd => closed_redirect hcuts hop (h.redirs rd hrd))

theorem starts_stage (h : st.Ok) : Starts st.spelling := (starts_words h.named h.words).append

theorem stops_stage (h : st.Ok) : Stops st.spelling :=
  stops_flatMap (stops_words h.named h.words) fun rd _ =>
    ⟨32 :: (rd.kind.spelling ++ 32 :: 34 :: rd.path), 34, by simp [Redirect.spelling], rfl⟩

theorem trimWs_stage (h : st.Ok) : trimWs st.spelling = st.spelling := by
  simpa using trimWs_pad (starts_stage h) (stops_stage h) 0 0

end Stages

section Running

variable {K : Type} {o : ShellCalls K} {st : Stage} {pwd : Text} {s : Session K}

theorem cuts_line : Cuts isDelim :=
  ⟨fun c h => by
    simp only [isDelim, decide_eq_true_eq] at h
    rcases h with rfl | rfl | rfl <;> rfl, ⟨rfl, rfl⟩, rfl⟩

theorem cuts_pipe : Cuts (· == 124) :=
  ⟨fun c h => by
    rw [eq_of_beq h]
    rfl, ⟨rfl, rfl⟩, rfl⟩

theorem cuts_redir : Cuts opensRedir :=
  ⟨fun c h => by
    simp only [opensRedir, decide_eq_true_eq] at h
    rcases h with rfl | rfl <;> rfl, ⟨rfl, rfl⟩, rfl⟩

theorem length_le_spell (as : List Atom) : as.length ≤ (spell as).length := by
  induction as with
  | nil => exact Nat.le_refl 0
  | cons a as ih =>
    have ha : 1 ≤ a.spelling.length := by
      rw [Atom.spelling]
      split
      · exact Nat.le_succ 1
      · exact Nat.le_refl 1
    rw [spell_cons, List.length_append, List.length_cons]
    omega

theorem length_redirsSpelling (rds : List Redirect) : 2 * rds.length ≤ (redirsSpelling rds).length := by
  induction rds with
  | nil => exact Nat.le_refl 0
  | cons rd rds ih =>
    have hrd : 2 ≤ rd.spelling.length := by simp [Redirect.spelling]; omega
    rw [show redirsSpelling (rd :: rds) = rd.spelling ++ redirsSpelling rds from rfl, List.length_append,
      List.length_cons]
    omega

theorem follows_redirs (rds : List Redirect) : Follows (redirsSpelling rds) := by
  cases rds with
  | nil => exact follows_nil
  | cons rd rds => exact follows_blank

theorem redirSpec_cmd {r r' : RedirSpec} (rds : List Redirect) (h : redirSpec pwd r rds = some r') :
    r'.cmd = r.cmd := by
  induction rds generalizing r with
  | nil => cases h; rfl
  | cons rd rds ih =>
    obtain ⟨r₁, happly, hrest⟩ := Option.bind_eq_some_iff.mp h
    rw [ih hrest, apply_cmd happly]

theorem parseRedirections_stage (h : st.Ok) (hlen : st.spelling.length < maxLine) :
    parseRedirections pwd st.spelling =
      (redirSpec pwd .init st.redirs).map fun r =>
        r.type (wordsSpelling st.words ++ List.replicate st.redirs.length 32) := by
  have hwords := closed_words cuts_redir h.words
  have hspell := spell_words st.words
  have hatoms := length_le_spell (wordsAtoms st.words)
  have hredirs := length_redirsSpelling st.redirs
  have hsum : st.spelling.length = (wordsSpelling st.words).length + (redirsSpelling st.redirs).length :=
    List.length_append
  rw [hspell] at hatoms
  obtain ⟨n, hn⟩ : ∃ n, st.spelling.length =
      n + 2 * st.redirs.length + (wordsAtoms st.words).length :=
    ⟨st.spelling.length - 2 * st.redirs.length - (wordsAtoms st.words).length, by omega⟩
  have hpaths : ∀ rd ∈ st.redirs, 34 ∉ rd.path := fun rd hrd hmem => (h.redirs rd hrd 34 hmem).1 rfl
  have hloop : redirLoop pwd _ (spell (wordsAtoms st.words) ++ redirsSpelling st.redirs) false false _ = _ :=
    redirLoop_calm (n := n + 2 * st.redirs.length) (r := .init) (q := .none) hwords.calm hwords.back (follows_redirs st.redirs) (by rw [hspell, RedirSpec.init]; simp only [List.length_nil]; omega)
  have hinit : (RedirSpec.init.type (wordsSpelling st.words)).cmd.length + st.redirs.length < maxLine := by
    show (wordsSpelling st.words).length + st.redirs.length < maxLine
    omega
  rw [hspell] at hloop
  rw [parseRedirections, hn]
  refine hloop.trans ?_
  rw [redirLoop_redirs st.redirs hpaths hinit, redirSpec_type, Option.map_map]
  refine congrArg (Option.map · _) (funext fun r => ?_)
  simp [RedirSpec.type]

theorem capture_stage (h : st.Ok) {r : RedirSpec} (hr : redirSpec pwd .init st.redirs = some r) :
    (fun inData (s : Session K) => s.captureSimpleIo o (trimWs
      (r.type (wordsSpelling st.words ++ List.replicate st.redirs.length 32)).cmd) inData) =
      st.capture o := by
  have hcmd : r.cmd = [] := redirSpec_cmd st.redirs hr
  have htrim : trimWs (r.type (wordsSpelling st.words ++ List.replicate st.redirs.length 32)).cmd =
      wordsSpelling st.words := by
    rw [RedirSpec.type, hcmd, List.nil_append]
    exact trimWs_pad (starts_words h.named h.words) (stops_words h.named h.words) 0 _
  funext inData s
  rw [htrim, Session.captureSimpleIo, parseArgv_words s.env h.named h.words]
  rfl

theorem split_stage (h : st.Ok) (rest : Text) :
    splitOutsideQuotes 124 (st.spelling ++ rest) false false 0 =
      splitOutsideQuotes 124 rest false false st.spelling.length := by
  have hclosed : Closed (· == 124) st.atoms := closed_stage cuts_pipe (by decide +kernel) h
  have hsplit : splitOutsideQuotes 124 (spell st.atoms ++ rest) false false 0 = _ :=
    splitOutsideQuotes_calm (q := .none) (by decide) hclosed.calm
  rw [hclosed.back, spell_stage, Nat.zero_add] at hsplit
  exact hsplit

theorem redirs_nil (h : ¬(62 ∈ st.spelling ∨ 60 ∈ st.spelling)) : st.redirs = [] := by
  cases hrds : st.redirs with
  | nil => rfl
  | cons rd rds =>
    refine absurd ?_ h
    have hmem : ∀ c ∈ rd.kind.spelling, c ∈ st.spelling := fun c hc => by
      rw [Stage.spelling, hrds]
      simp [redirsSpelling, Redirect.spelling, hc]
    revert hmem
    rcases rd.kind with _ | (_ | _) | _ <;> intro hmem
    · exact Or.inr (hmem 60 (by decide))
    · exact Or.inl (hmem 62 (by decide))
    · exact Or.inl (hmem 62 (by decide))
    · exact Or.inl (hmem 62 (by decide))

theorem execWithRedirOrPipe_single (h : st.Ok) (hlen : st.spelling.length < maxLine) :
    s.execWithRedirOrPipe o st.spelling = st.run o s := by
  have hsplit := split_stage h []
  rw [List.append_nil, splitOutsideQuotes] at hsplit
  rw [Session.execWithRedirOrPipe, hsplit, Stage.run, trimWs_stage h, parseRedirections_stage h hlen]
  dsimp only
  by_cases hredir : 62 ∈ st.spelling ∨ 60 ∈ st.spelling
  · rw [if_pos hredir, if_pos hredir]
    cases hr : redirSpec s.env.pwd .init st.redirs with
    | none => rfl
    | some r =>
      rw [← capture_stage h hr]
      rfl
  · have hwords : st.spelling = wordsSpelling st.words := by
      rw [Stage.spelling, redirs_nil hredir]
      exact List.append_nil _
    have hargv := parseArgv_words s.env h.named h.words
    rw [if_neg hredir, if_neg hredir, Session.execSingle, hwords]
    cases hw : argvOf s.env st.words with
    | none => simp only [hargv.trans hw]
    | some argv => simp only [hargv.trans hw]

theorem execWithRedirOrPipe_piped {l r : Stage} (hl : l.Ok) (hr : r.Ok)
    (hlen : (Command.piped l r).spelling.length < maxLine) :
    s.execWithRedirOrPipe o (Command.piped l r).spelling = (Command.piped l r).run o s := by
  have hlens : l.spelling.length + r.spelling.length + 3 < maxLine := by
    rw [Command.spelling, List.length_append] at hlen
    simp only [List.length_cons] at hlen
    omega
  have hpipe : splitOutsideQuotes 124 (Command.piped l r).spelling false false 0 =
      some (l.spelling.length + 1) := by
    rw [Command.spelling, split_stage hl]
    have hblank : splitOutsideQuotes 124 (32 :: 124 :: 32 :: r.spelling) false false l.spelling.length = _ :=
      splitOutsideQuotes_next .none (Or.inl (by decide)) (by decide)
    refine hblank.trans ?_
    rw [if_neg (by decide)]
    exact (splitOutsideQuotes_next .none (Or.inl (by decide)) (by decide)).trans (if_pos ⟨rfl, rfl, rfl⟩)
  have hleft : trimWs ((Command.piped l r).spelling.take (l.spelling.length + 1)) = l.spelling := by
    have htake : (Command.piped l r).spelling.take (l.spelling.length + 1) = l.spelling ++ [32] := by
      rw [Command.spelling, List.take_length_add_append]
      rfl
    rw [htake]
    exact trimWs_pad (starts_stage hl) (stops_stage hl) 0 1
  have hright : trimWs (((Command.piped l r).spelling.drop (l.spelling.length + 1 + 1)).take (maxLine - 1)) =
      r.spelling := by
    have hdrop : (Command.piped l r).spelling.drop (l.spelling.length + 1 + 1) = 32 :: r.spelling := by
      rw [Command.spelling, Nat.add_assoc, List.drop_length_add_append]
      rfl
    rw [hdrop, List.take_of_length_le (by rw [List.length_cons]; omega)]
    simpa using trimWs_pad (starts_stage hr) (stops_stage hr) 1 0
  rw [Session.execWithRedirOrPipe, hpipe]
  dsimp only
  rw [if_neg (by omega), hleft, hright, parseRedirections_stage hl (by omega),
    parseRedirections_stage hr (by omega), Command.run]
  cases hlr : redirSpec s.env.pwd .init l.redirs with
  | none => rfl
  | some lspec =>
    cases hrr : redirSpec s.env.pwd .init r.redirs with
    | none => rfl
    | some rspec =>
      rw [← capture_stage hl hlr, ← capture_stage hr hrr]
      rfl

def Command.atoms : Command → List Atom
  | single st => st.atoms
  | piped l r => l.atoms ++ (chars [32, 124, 32] ++ r.atoms)

theorem spell_command (c : Command) : spell c.atoms = c.spelling := by
  cases c with
  | single st => exact spell_stage st
  | piped l r =>
    rw [Command.atoms, spell_append, spell_append, spell_stage, spell_stage, spell_chars]
    rfl

theorem closed_command {c : Command} (h : c.Ok) : Closed isDelim c.atoms := by
  have hstage : ∀ {st : Stage}, st.Ok → Closed isDelim st.atoms :=
    fun h => closed_stage cuts_line (by decide +kernel) h
  cases c with
  | single st => exact hstage h
  | piped l r => exact (hstage h.1).append ((closed_chars (by decide +kernel) (by decide +kernel)).append (hstage h.2))

theorem cutLine_lineOf {c : Command} {cs : List (UInt8 × Command)} (hc : c.Ok)
    (hcs : ∀ x ∈ cs, isDelim x.1 = true ∧ x.2.Ok) :
    cutLine (lineOf c cs) false false [] = (c.spelling :: cs.map fun x => x.2.spelling, false) := by
  induction cs generalizing c with
  | nil =>
    have hcut : cutLine (spell c.atoms ++ []) false false [] = _ :=
      cutLine_calm (q := .none) (closed_command hc).calm
    rw [(closed_command hc).back, spell_command] at hcut
    exact hcut
  | cons x cs ih =>
    obtain ⟨d, c'⟩ := x
    obtain ⟨hd, hc'⟩ := hcs (d, c') List.mem_cons_self
    have hcut : cutLine (spell c.atoms ++ d :: lineOf c' cs) false false [] = _ :=
      cutLine_calm (q := .none) (closed_command hc).calm
    rw [(closed_command hc).back, spell_command] at hcut
    have hrest := ih hc' fun x hx => hcs x (List.mem_cons_of_mem _ hx)
    refine hcut.trans ((cutLine_delim hd).trans ?_)
    rw [hrest]
    rfl

theorem starts_command {c : Command} (h : c.Ok) : Starts c.spelling := by
  cases c with
  | single st => exact starts_stage h
  | piped l r => exact (starts_stage h.1).append

theorem stops_command {c : Command} (h : c.Ok) : Stops c.spelling := by
  cases c with
  | single st => exact stops_stage h
  | piped l r =>
    have hr : Stops ([32, 124, 32] ++ r.spelling) := (stops_stage h.2).prepend
    exact hr.prepend

theorem execWithRedirOrPipe_command {c : Command} (h : c.Ok) (hlen : c.spelling.length < maxLine) :
    s.execWithRedirOrPipe o c.spelling = c.run o s := by
  cases c with
  | single st => exact execWithRedirOrPipe_single h hlen
  | piped l r => exact execWithRedirOrPipe_piped h.1 h.2 hlen

theorem execSegments_commands (cs : List Command) (h : ∀ c ∈ cs, c.Ok ∧ c.spelling.length < maxLine)
    (s : Session K) : s.execSegments o (cs.map Command.spelling) = runCommands o s cs := by
  induction cs generalizing s with
  | nil => rfl
  | cons c cs ih =>
    obtain ⟨hc, hlen⟩ := h c List.mem_cons_self
    have htrim : trimWs c.spelling = c.spelling := by
      simpa using trimWs_pad (starts_command hc) (stops_command hc) 0 0
    have hne : c.spelling ≠ [] := by
      obtain ⟨d, t, hd, -⟩ := starts_command hc
      rw [hd]
      exact List.cons_ne_nil d t
    have hstep : (if s.exited.isSome ∨ trimWs c.spelling = [] then s
        else s.execWithRedirOrPipe o (trimWs c.spelling)) =
        if s.exited.isSome then s else c.run o s := by
      rw [htrim, execWithRedirOrPipe_command hc hlen]
      exact if_congr (or_iff_left hne) rfl rfl
    exact (congrArg (Session.execSegments o · (cs.map Command.spelling)) hstep).trans
      (ih (fun d hd => h d (List.mem_cons_of_mem c hd)) _)

theorem execLine_lineOf {c : Command} {cs : List (UInt8 × Command)} (hc : c.Ok)
    (hcs : ∀ x ∈ cs, isDelim x.1 = true ∧ x.2.Ok) :
    s.execLine o (lineOf c cs) =
      (0, s.execSegments o ((c :: cs.map Prod.snd).map Command.spelling)) := by
  rw [Session.execLine, cutLine_lineOf hc hcs, List.map_cons, List.map_map]
  exact if_neg fun h => Bool.false_ne_true h.2

def bareWord (text : Text) : Word := text.map Piece.bare

theorem bareWord_ok {text : Text} (hne : text ≠ []) (h : ∀ c ∈ text, isSpecial c = false) :
    (bareWord text).Ok := by
  refine ⟨by simpa [bareWord] using hne, fun p hp => ?_⟩
  obtain ⟨c, hc, rfl⟩ := List.mem_map.mp hp
  exact h c hc

def logCalls : ShellCalls Text where
  openFile k _ _ := (3, k)
  read k _ _ := (some [127, 69, 76, 70], k)
  write k _ text := (text.length, k)
  append k _ text := (text.length, k)
  close k _ := k
  list k _ _ := (some [], k)
  ttyInfo _ := some (.vesa, 1)
  spawnv k _ _ cmdline := (7, k ++ cmdline)
  setFgPid k _ _ := k
  waitEnd k _ := k
  print k _ text := k ++ text

def newSession : Session Text := ⟨boot (byteText "tty1"), [], none⟩

end Running

section Programs

variable {K : Type} {o : ShellCalls K} {s : Session K}

def builtins : List Text := ["export", "set", "unset", "cd", "exit", "ls"].map byteText

structure NamesProgram (name : Text) (args : List Text) : Prop where
  assigns : ¬(args = [] ∧ 61 ∈ name)
  builtin : name ∉ builtins
  inBin : 47 ∉ name
  short : name.length + 6 < 192

theorem execArgv_program {name : Text} {args : List Text} (h : NamesProgram name args) :
    s.execArgv o (name :: args) = s.execExternal o (name :: args) name := by
  have hne : ∀ b ∈ builtins, name ≠ b := fun b hb he => h.builtin (he ▸ hb)
  exact (if_neg h.assigns).trans <| (if_neg (hne (byteText "export") (by decide))).trans <|
    (if_neg (hne (byteText "set") (by decide))).trans <|
    (if_neg (hne (byteText "unset") (by decide))).trans <|
    (if_neg (hne (byteText "cd") (by decide))).trans <|
    (if_neg (hne (byteText "exit") (by decide))).trans <| if_neg (hne (byteText "ls") (by decide))

theorem execExternal_elf {name cmdline : Text} {argv : List Text} (hbin : 47 ∉ name)
    (hshort : name.length + 6 < 192) (hfits : buildCmdlineFromArgv argv = some cmdline)
    (helf : (o.isElfFile s.kernel (byteText "/bin/" ++ name)).1 = true)
    (hspawn : (o.spawnAndWait (o.isElfFile s.kernel (byteText "/bin/" ++ name)).2
      (byteText "/bin/" ++ name) cmdline).1 = true) :
    s.execExternal o argv name = { s with
      kernel := (o.spawnAndWait (o.isElfFile s.kernel (byteText "/bin/" ++ name)).2
        (byteText "/bin/" ++ name) cmdline).2 } := by
  have hstart : o.startElf s.kernel (byteText "/bin/" ++ name) cmdline =
      o.spawnAndWait (o.isElfFile s.kernel (byteText "/bin/" ++ name)).2
        (byteText "/bin/" ++ name) cmdline := by
    rw [ShellCalls.startElf]
    dsimp only
    rw [if_pos helf]
  have htry : s.tryExecFromPath o name cmdline = (true, { s with
      kernel := (o.spawnAndWait (o.isElfFile s.kernel (byteText "/bin/" ++ name)).2
        (byteText "/bin/" ++ name) cmdline).2 }) := by
    rw [Session.tryExecFromPath, if_neg hbin, if_neg (by omega), hstart]
    dsimp only
    rw [hspawn]
  rw [Session.execExternal, hfits]
  dsimp only
  rw [htry]
  rfl

theorem typed_program_gets_its_words (s : Session K) (hlive : s.exited = none) (st : Stage) (hst : st.Ok)
    (hlen : st.spelling.length < maxLine) (hplain : ¬(62 ∈ st.spelling ∨ 60 ∈ st.spelling))
    {name : Text} {args : List Text} (hargv : argvOf s.env st.words = some (name :: args))
    (hname : NamesProgram name args) {cmdline : Text}
    (hfits : buildCmdlineFromArgv (name :: args) = some cmdline)
    (hwords : ∀ w ∈ name :: args, w ≠ [] ∧ w.length ≤ 127)
    (helf : (o.isElfFile s.kernel (byteText "/bin/" ++ name)).1 = true)
    (hspawn : (o.spawnAndWait (o.isElfFile s.kernel (byteText "/bin/" ++ name)).2
      (byteText "/bin/" ++ name) cmdline).1 = true) :
    s.execLine o st.spelling = (0, { s with
      kernel := (o.spawnAndWait (o.isElfFile s.kernel (byteText "/bin/" ++ name)).2
        (byteText "/bin/" ++ name) cmdline).2 }) ∧
      splitCmdline cmdline = some (name :: args) := by
  have hcount : (name :: args).length ≤ maxArgs := by
    rw [argvOf] at hargv
    split at hargv
    · rename_i h
      rw [← Option.some.inj hargv, List.length_map]
      exact h.1
    · cases hargv
  have hkeep : (name :: args).filter (Encoder.keeps .shell) = name :: args :=
    List.filter_eq_self.mpr fun w hw => by simpa [Encoder.keeps] using (hwords w hw).1
  refine ⟨?_, ?_⟩
  · have hline : lineOf (.single st) [] = st.spelling := List.append_nil _
    have hrun : s.execLine o (lineOf (.single st) []) = _ := execLine_lineOf hst (List.forall_mem_nil _)
    have hsegs := execSegments_commands (o := o) [.single st] (fun c hc => by
      rw [List.mem_singleton.mp hc]
      exact ⟨hst, hlen⟩) s
    have hone : runCommands o s [.single st] = st.run o s := by
      rw [runCommands, List.foldl_cons, List.foldl_nil, hlive]
      rfl
    rw [← hline, hrun]
    refine congrArg (Prod.mk 0) (hsegs.trans ?_)
    rw [hone, Stage.run, if_neg hplain, hargv]
    exact (execArgv_program hname).trans (execExternal_elf hname.inBin hname.short hfits helf hspawn)
  · have hcmd : cmdline = Args.joined ((name :: args).map (Encoder.word .shell)) :=
      Args.encode_some (e := .shell) hfits
    rw [hcmd, Args.splitCmdline_joined (fun w hw => (hwords w hw).2) (by rw [hkeep]; exact hcount), hkeep]

theorem typed_program_gets_its_words_cat :
    newSession.execLine logCalls
        (Stage.spelling ⟨[bareWord (byteText "cat"), [.single (byteText "a b")]], []⟩) =
        (0, { newSession with
          kernel := (logCalls.spawnAndWait (logCalls.isElfFile newSession.kernel (byteText "/bin/cat")).2
            (byteText "/bin/cat") (byteText "cat \"a b\"")).2 }) ∧
      splitCmdline (byteText "cat \"a b\"") = some [byteText "cat", byteText "a b"] := by
  refine typed_program_gets_its_words newSession rfl _ ⟨List.cons_ne_nil _ _, fun w hw => ?_, by simp⟩
    (by decide) (by decide) (by decide) ⟨by decide, by decide, by decide, by decide⟩ (by decide) (by decide)
    (by decide) (by decide)
  rcases List.mem_cons.mp hw with rfl | hw
  · exact bareWord_ok (by decide +kernel) (by decide +kernel)
  · rw [List.mem_singleton.mp hw]
    refine ⟨List.cons_ne_nil _ _, fun p hp => ?_⟩
    rw [List.mem_singleton.mp hp]
    exact (by decide +kernel : ∀ c ∈ byteText "a b", c ≠ 0 ∧ c ≠ 39 ∧ c ≠ 92)

end Programs

end HouseOS.Shell
