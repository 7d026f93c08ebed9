import HouseOS.Netd.Model
import HouseOS.Composd.Delivery

namespace HouseOS.Netd

open HouseOS.Words
open HouseOS.Composd (Text decimal decimalFrom digit? carried setFields setFields_carried parseU32_decimal)

section Address

variable {s : Text}

def octet? (s : Text) : Option Nat := (decimal s).bind fun n => if n ≤ 255 then some n else none

def address? (s : Text) : Option Nat :=
  match (s.splitOn 46).mapM octet? with
  | some [a, b, c, d] => some (a * 2 ^ 24 + b * 2 ^ 16 + c * 2 ^ 8 + d)
  | _ => none

theorem digit?_isDigit (c : UInt8) :
    digit? c = if isDigit c then some (c.toNat - 48) else none := by
  unfold digit? isDigit
  have hiff : (c < 48 || 57 < c) = !(48 ≤ c && c ≤ 57) := by
    rw [Bool.not_and, ← decide_not, ← decide_not]
    simp only [UInt8.not_le]
  rw [hiff]
  cases h : (decide (48 ≤ c) && decide (c ≤ 57)) <;> rfl

theorem decimalFrom_ge : ∀ {s : Text} {v n : Nat}, decimalFrom v s = some n → v ≤ n := by
  intro s
  induction s with
  | nil =>
    intro v n h
    exact (Option.some.inj h).le
  | cons c s ih =>
    intro v n h
    obtain ⟨d, -, hrest⟩ := Option.bind_eq_some_iff.mp h
    have := ih hrest
    omega

-- the digits of a part end at its last one, or where the value leaves the byte
theorem octetFrom_eq : ∀ (s : Text) (v digs : Nat), v ≤ 255 → octetFrom v digs s =
    ((decimalFrom v (s.takeWhile isDigit)).bind fun n => if n ≤ 255 then some n else none).map
      fun n => (n, digs + (s.takeWhile isDigit).length, s.dropWhile isDigit) := by
  intro s
  induction s with
  | nil =>
    intro v digs hv
    change _ = (if v ≤ 255 then some v else none).map _
    rw [if_pos hv]
    rfl
  | cons c s ih =>
    intro v digs hv
    rw [octetFrom, List.takeWhile_cons, List.dropWhile_cons]
    cases hc : isDigit c with
    | false =>
      change _ = (if v ≤ 255 then some v else none).map _
      rw [if_pos hv]
      rfl
    | true =>
      rw [if_pos rfl, if_pos rfl, if_pos rfl, decimalFrom, digit?_isDigit, hc, if_pos rfl,
        Option.bind_some, List.length_cons]
      dsimp only
      by_cases hbig : 255 < v * 10 + (c.toNat - 48)
      · rw [if_pos hbig]
        cases hdec : decimalFrom (v * 10 + (c.toNat - 48)) (s.takeWhile isDigit) with
        | none => rfl
        | some n =>
          have := decimalFrom_ge hdec
          rw [Option.bind_some, if_neg (by omega)]
          rfl
      · rw [if_neg hbig, ih _ _ (by omega), Nat.add_assoc, Nat.add_comm 1]

theorem decimalFrom_bare : ∀ {s : Text} {c : UInt8} (v : Nat), c ∈ s → isDigit c = false →
    decimalFrom v s = none := by
  intro s
  induction s with
  | nil => exact fun _ hc => absurd hc List.not_mem_nil
  | cons d s ih =>
    intro c v hc hdigit
    rw [decimalFrom, digit?_isDigit]
    split
    · rename_i hd
      refine ih _ ((List.mem_cons.mp hc).resolve_left ?_) hdigit
      rintro rfl
      rw [hd] at hdigit
      cases hdigit
    · rfl

theorem octet?_bare {c : UInt8} (hc : c ∈ s) (hdigit : isDigit c = false) : octet? s = none := by
  rw [octet?, decimal, if_neg (List.ne_nil_of_mem hc), decimalFrom_bare 0 hc hdigit]
  rfl

theorem octetsFrom_step (left : Nat) (parts : List Nat) (s : Text) :
    octetsFrom left parts s = (octet? (s.takeWhile isDigit)).bind fun n =>
      match left, s.dropWhile isDigit with
      | 0, [] => some (parts ++ [n])
      | left + 1, c :: rest => if c = 46 then octetsFrom left (parts ++ [n]) rest else none
      | _, _ => none := by
  rw [octetsFrom, octetFrom_eq s 0 0 (by decide), octet?, decimal, Nat.zero_add]
  by_cases hw : s.takeWhile isDigit = []
  · rw [if_pos hw, hw]
    rfl
  · rw [if_neg hw]
    cases (decimalFrom 0 (s.takeWhile isDigit)).bind fun n => if n ≤ 255 then some n else none with
    | none => rfl
    | some n =>
      rw [Option.map_some, Option.bind_some]
      dsimp only
      rw [if_neg (by rwa [List.length_eq_zero_iff])]
      cases left with
      | zero => cases s.dropWhile isDigit <;> rfl
      | succ left => cases s.dropWhile isDigit <;> rfl

theorem splitOn_head {c : UInt8} {w r : Text} (hw : 46 ∉ w) (hc : c ≠ 46) :
    ∃ p ps, (w ++ c :: r).splitOn 46 = p :: ps ∧ c ∈ p := by
  have hwc : (46 : UInt8) ∉ w ++ [c] := by
    rw [List.mem_append, List.mem_singleton]
    rintro (h | h)
    · exact hw h
    · exact hc h.symm
  by_cases hr : 46 ∈ r
  · obtain ⟨a, b, rfl, ha⟩ := List.eq_append_cons_of_mem hr
    refine ⟨w ++ [c] ++ a, b.splitOn 46, ?_, by simp⟩
    have hline : w ++ c :: (a ++ 46 :: b) = (w ++ [c] ++ a) ++ 46 :: b := by simp
    rw [hline, List.splitOn_append_cons_self_of_not_mem]
    rw [List.mem_append]
    rintro (h | h)
    · exact hwc h
    · exact ha h
  · refine ⟨w ++ c :: r, [], List.splitOn_eq_singleton ?_, by simp⟩
    have hline : w ++ c :: r = (w ++ [c]) ++ r := by simp
    rw [hline, List.mem_append]
    rintro (h | h)
    · exact hwc h
    · exact hr h

theorem mapM_octet? (s : Text) :
    (s.splitOn 46).mapM octet? = (octet? (s.takeWhile isDigit)).bind fun n =>
      match s.dropWhile isDigit with
      | [] => some [n]
      | c :: rest => if c = 46 then ((rest.splitOn 46).mapM octet?).map (n :: ·) else none := by
  have hdot : (46 : UInt8) ∉ s.takeWhile isDigit := by
    intro hmem
    exact absurd (List.mem_takeWhile_imp hmem) (by decide)
  have hsplit := List.takeWhile_append_dropWhile (p := isDigit) (l := s)
  cases hrest : s.dropWhile isDigit with
  | nil =>
    rw [hrest, List.append_nil] at hsplit
    rw [hsplit] at hdot ⊢
    rw [List.splitOn_eq_singleton hdot, List.mapM_cons, List.mapM_nil]
    rfl
  | cons c rest =>
    rw [hrest] at hsplit
    have hdigit : isDigit c = false := by
      have := List.head?_dropWhile_not isDigit s
      rw [hrest] at this
      simpa using this
    by_cases hc : c = 46
    · subst hc
      conv_lhs => rw [← hsplit]
      rw [List.splitOn_append_cons_self_of_not_mem hdot, List.mapM_cons]
      cases octet? (s.takeWhile isDigit) with
      | none => rfl
      | some n =>
        rw [Option.bind_some]
        dsimp only
        rw [if_pos rfl]
        cases (rest.splitOn 46).mapM octet? <;> rfl
    · obtain ⟨p, ps, hps, hmem⟩ := splitOn_head (r := rest) hdot hc
      conv_lhs => rw [← hsplit]
      rw [hps, List.mapM_cons, octet?_bare hmem hdigit]
      cases octet? (s.takeWhile isDigit) with
      | none => rfl
      | some n => exact (if_neg hc).symm

theorem mapM_octet?_ne_nil {l : List Nat} (h : (s.splitOn 46).mapM octet? = some l) : l ≠ [] := by
  rw [mapM_octet?] at h
  obtain ⟨n, -, h⟩ := Option.bind_eq_some_iff.mp h
  split at h
  · cases h
    exact List.cons_ne_nil n []
  · split at h
    · obtain ⟨l', -, rfl⟩ := Option.map_eq_some_iff.mp h
      exact List.cons_ne_nil n l'
    · cases h

theorem octetsFrom_eq : ∀ (left : Nat) (parts : List Nat) (s : Text), octetsFrom left parts s =
    ((s.splitOn 46).mapM octet?).bind fun l =>
      if l.length = left + 1 then some (parts ++ l) else none := by
  intro left
  induction left with
  | zero =>
    intro parts s
    rw [octetsFrom_step, mapM_octet?]
    cases octet? (s.takeWhile isDigit) with
    | none => rfl
    | some n =>
      cases s.dropWhile isDigit with
      | nil => rfl
      | cons c rest =>
        rw [Option.bind_some, Option.bind_some]
        dsimp only
        split
        · cases hmap : (rest.splitOn 46).mapM octet? with
          | none => rfl
          | some l =>
            have hpos := List.length_pos_iff.mpr (mapM_octet?_ne_nil hmap)
            rw [Option.map_some, Option.bind_some, if_neg (by rw [List.length_cons]; omega)]
        · rfl
  | succ left ih =>
    intro parts s
    rw [octetsFrom_step, mapM_octet?]
    cases octet? (s.takeWhile isDigit) with
    | none => rfl
    | some n =>
      cases s.dropWhile isDigit with
      | nil => rfl
      | cons c rest =>
        rw [Option.bind_some, Option.bind_some]
        dsimp only
        split
        · rw [ih]
          cases (rest.splitOn 46).mapM octet? with
          | none => rfl
          | some l => simp
        · rfl

theorem mapM_octet?_le : ∀ {ws : List Text} {l : List Nat}, ws.mapM octet? = some l →
    ∀ n ∈ l, n ≤ 255 := by
  intro ws
  induction ws with
  | nil =>
    rintro l h n hn
    cases h
    exact absurd hn List.not_mem_nil
  | cons w ws ih =>
    intro l h n hn
    rw [List.mapM_cons] at h
    obtain ⟨m, hm, h⟩ := Option.bind_eq_some_iff.mp h
    obtain ⟨l', hl', h⟩ := Option.bind_eq_some_iff.mp h
    cases h
    rcases List.mem_cons.mp hn with rfl | hn
    · obtain ⟨k, -, hk⟩ := Option.bind_eq_some_iff.mp hm
      split at hk
      · cases hk
        assumption
      · cases hk
    · exact ih hl' n hn

theorem parts_value {a b c d : Nat} (hb : b < 2 ^ 8) (hc : c < 2 ^ 8) (hd : d < 2 ^ 8) :
    a <<< 24 ||| b <<< 16 ||| c <<< 8 ||| d = a * 2 ^ 24 + b * 2 ^ 16 + c * 2 ^ 8 + d := by
  have hab : a <<< 24 ||| b <<< 16 = (a * 2 ^ 8 + b) <<< 16 := by
    rw [← Nat.shiftLeft_eq, Nat.shiftLeft_add_eq_or_of_lt hb, Nat.shiftLeft_or_distrib,
      ← Nat.shiftLeft_add]
  have habc : (a * 2 ^ 8 + b) <<< 16 ||| c <<< 8 = ((a * 2 ^ 8 + b) * 2 ^ 8 + c) <<< 8 := by
    rw [← Nat.shiftLeft_eq (a * 2 ^ 8 + b) 8, Nat.shiftLeft_add_eq_or_of_lt hc,
      Nat.shiftLeft_or_distrib, ← Nat.shiftLeft_add]
  rw [hab, habc, ← Nat.shiftLeft_add_eq_or_of_lt hd, Nat.shiftLeft_eq]
  omega

theorem parseIpv4_eq (s : Text) : parseIpv4 s = address? s := by
  rw [parseIpv4, octetsFrom_eq, address?]
  cases hparts : (s.splitOn 46).mapM octet? with
  | none => rfl
  | some l =>
    match l with
    | [] | [_] | [_, _] | [_, _, _] => rfl
    | _ :: _ :: _ :: _ :: _ :: l =>
      rw [Option.bind_some, if_neg (by simp only [List.length_cons]; omega)]
    | [a, b, c, d] =>
      have hle := mapM_octet?_le hparts
      simp only [List.mem_cons, List.not_mem_nil, or_false, forall_eq_or_imp, forall_eq] at hle
      have hvalue := parts_value (a := a) (b := b) (c := c) (d := d) (by omega) (by omega) (by omega)
      exact congrArg some hvalue

end Address

section Tokens

variable {pre text post w v : Text} {ws : List Text}

-- the assignments the loop makes: a token without `=` is given everything behind the next `=`
def reached : List Text → List (Text × Text)
  | [] => []
  | w :: ws =>
      match cut? 61 w, cut? 61 ([32].intercalate ws) with
      | some field, _ => field :: reached ws
      | none, none => reached ws
      | none, some (_, rest) => if w = [] then reached ws else [(w, rest)]

theorem cut?_eq_none (h : cut? 61 w = none) : 61 ∉ w := by
  intro hmem
  unfold cut? at h
  split at h
  · rename_i hdrop
    rw [List.dropWhile_eq_nil_iff] at hdrop
    simpa using hdrop 61 hmem
  · cases h

theorem cut?_bare (h : 61 ∉ w) : cut? 61 w = none := by
  cases hcut : cut? 61 w with
  | none => rfl
  | some f =>
    obtain ⟨rfl, -⟩ := cut?_eq_some hcut
    exact absurd (List.mem_append_right _ List.mem_cons_self) h

theorem reached_blank (ws : List Text) : reached ([] :: ws) = reached ws := by
  rw [reached]
  cases cut? 61 ([32].intercalate ws) <;> rfl

theorem reached_bare : ∀ {ws : List Text}, 61 ∉ [(32 : UInt8)].intercalate ws → reached ws = [] := by
  intro ws
  induction ws with
  | nil => exact fun _ => rfl
  | cons w ws ih =>
    intro h
    have hparts : 61 ∉ w ∧ 61 ∉ [(32 : UInt8)].intercalate ws := by
      cases ws with
      | nil =>
        rw [List.intercalate_singleton] at h
        exact ⟨h, List.not_mem_nil⟩
      | cons u us =>
        rw [List.intercalate_cons_cons] at h
        exact ⟨fun hmem => h (List.mem_append_left _ (List.mem_append_left _ hmem)),
          fun hmem => h (List.mem_append_right _ hmem)⟩
    rw [reached, cut?_bare hparts.1, cut?_bare hparts.2]
    exact ih hparts.2

theorem reached_blanks {sp : Text} (hsp : ∀ c ∈ sp, c = 32) (text : Text) :
    reached ((sp ++ text).splitOn 32) = reached (text.splitOn 32) := by
  induction sp with
  | nil => rfl
  | cons c sp ih =>
    obtain rfl := hsp c List.mem_cons_self
    have hsplit : (32 :: (sp ++ text)).splitOn 32 = [] :: (sp ++ text).splitOn 32 :=
      List.splitOn_append_cons_self_of_not_mem List.not_mem_nil (sp ++ text)
    rw [List.cons_append, hsplit, reached_blank, ih fun c hc => hsp c (List.mem_cons_of_mem _ hc)]

end Tokens

section Buffer

variable {pre text post w sp rest a v : Text}

theorem strchr_none (hno : 0 ∉ text) (h : cut? 61 text = none) :
    strchr (pre ++ (text ++ 0 :: post)) pre.length 61 = none := by
  rw [strchr, cstr_at hno, if_neg (cut?_eq_none h)]

theorem takeWhile_ne {c : UInt8} (h : c ∉ w) : (w ++ c :: rest).takeWhile (· ≠ c) = w := by
  rw [List.takeWhile_append_of_pos, List.takeWhile_cons]
  · simp
  · exact fun d hd => by simpa using fun hdc : d = c => h (hdc ▸ hd)

theorem strchr_some (hno : 0 ∉ a ++ 61 :: v) (ha : 61 ∉ a) :
    strchr (pre ++ (a ++ 61 :: v ++ 0 :: post)) pre.length 61 = some (pre.length + a.length) := by
  rw [strchr, cstr_at hno, if_pos (by simp), takeWhile_ne ha]

theorem endToken_last (hno : 0 ∉ w) (hw : 32 ∉ w) :
    endToken (pre ++ (w ++ 0 :: post)) pre.length =
      (pre ++ (w ++ 0 :: post), pre.length + w.length) := by
  have hword : w.takeWhile (· ≠ 32) = w :=
    List.takeWhile_eq_self_iff.mpr fun c hc => by simpa using fun h : c = 32 => hw (h ▸ hc)
  have hend : cstr 0 (pre ++ (w ++ 0 :: post)) (pre.length + w.length) = [] := by
    rw [← List.append_assoc, ← List.length_append]
    exact cstr_at (show 0 ∉ ([] : Text) from List.not_mem_nil)
  rw [endToken, skipWord, cstr_at hno, hword]
  dsimp only
  rw [hend, if_neg (by simp)]

theorem takeWhile_blanks (hsp : ∀ c ∈ sp, c = 32) (hrest : rest.head? ≠ some 32) :
    (sp ++ rest).takeWhile (· = 32) = sp := by
  rw [List.takeWhile_append_of_pos fun c hc => by simpa using hsp c hc]
  cases rest with
  | nil => rw [List.takeWhile_nil, List.append_nil]
  | cons c rest =>
    rw [List.takeWhile_cons, if_neg, List.append_nil]
    simpa using fun h : c = 32 => hrest (congrArg some h)

theorem endToken_more (hno : 0 ∉ w ++ 32 :: (sp ++ rest)) (hw : 32 ∉ w) (hsp : ∀ c ∈ sp, c = 32)
    (hrest : rest.head? ≠ some 32) :
    endToken (pre ++ (w ++ 32 :: (sp ++ rest) ++ 0 :: post)) pre.length =
      (pre ++ w ++ [0] ++ sp ++ (rest ++ 0 :: post), (pre ++ w ++ [0] ++ sp).length) := by
  have hno' : 0 ∉ sp ++ rest := fun h =>
    hno (List.mem_append_right w (List.mem_cons_of_mem _ h))
  have hline : pre ++ (w ++ 32 :: (sp ++ rest) ++ 0 :: post) =
      (pre ++ w) ++ (32 :: (sp ++ rest) ++ 0 :: post) := by simp
  have hstop : cstr 0 (pre ++ (w ++ 32 :: (sp ++ rest) ++ 0 :: post)) (pre.length + w.length) =
      32 :: (sp ++ rest) := by
    rw [hline, ← List.length_append]
    exact cstr_at fun h => hno (List.mem_append_right w h)
  have hset : (pre ++ (w ++ 32 :: (sp ++ rest) ++ 0 :: post)).set (pre.length + w.length) 0 =
      (pre ++ w ++ [0]) ++ (sp ++ rest ++ 0 :: post) := by
    rw [hline, ← List.length_append, List.cons_append, set_at]
    simp
  have hlen : pre.length + w.length + 1 = (pre ++ w ++ [0]).length := by simp [Nat.add_assoc]
  rw [endToken, skipWord, cstr_at hno, takeWhile_ne hw]
  dsimp only
  rw [hstop, if_pos List.head?_cons, hset, skipSpaces, hlen, cstr_at hno',
    takeWhile_blanks hsp hrest]
  simp only [List.append_assoc, List.length_append, Nat.add_assoc]

end Buffer

section Run

variable {pre text post w sp rest : Text}

theorem exists_word (text : Text) : ∃ w, 32 ∉ w ∧ (text = w ∨ ∃ sp rest, (∀ c ∈ sp, c = 32) ∧
    rest.head? ≠ some (32 : UInt8) ∧ text = w ++ 32 :: (sp ++ rest)) := by
  refine ⟨text.takeWhile (· ≠ 32), fun h => by simpa using List.mem_takeWhile_imp h, ?_⟩
  have hsplit := List.takeWhile_append_dropWhile (p := fun c => decide (c ≠ (32 : UInt8))) (l := text)
  cases hmore : text.dropWhile (· ≠ 32) with
  | nil =>
    left
    rw [hmore, List.append_nil] at hsplit
    exact hsplit.symm
  | cons c more =>
    right
    have hc : c = 32 := by
      have := List.head?_dropWhile_not (fun c => decide (c ≠ (32 : UInt8))) text
      rw [hmore] at this
      simpa using this
    refine ⟨more.takeWhile (· = 32), more.dropWhile (· = 32),
      fun c h => by simpa using List.mem_takeWhile_imp h, fun h => ?_, ?_⟩
    · have := List.head?_dropWhile_not (fun c => decide (c = (32 : UInt8))) more
      rw [h] at this
      simp at this
    · rw [hc] at hmore
      rw [List.takeWhile_append_dropWhile, ← hmore, hsplit]

theorem parseTokens_end (fuel : Nat) (pre post : Text) (st : NetdState) :
    parseTokens fuel (pre ++ 0 :: post) pre.length st = st := by
  cases fuel with
  | zero => rfl
  | succ fuel =>
    have hend : cstr 0 (pre ++ 0 :: post) pre.length = [] :=
      cstr_at (show 0 ∉ ([] : Text) from List.not_mem_nil)
    rw [parseTokens, if_pos hend]

theorem setEq {pre k v post : Text} (hk : 0 ∉ k) (hv : 0 ∉ v) :
    (pre ++ (k ++ 61 :: (v ++ 0 :: post))).set (pre.length + k.length) 0 =
        pre ++ (k ++ 0 :: (v ++ 0 :: post)) ∧
      cstr 0 (pre ++ (k ++ 0 :: (v ++ 0 :: post))) pre.length = k ∧
      cstr 0 (pre ++ (k ++ 0 :: (v ++ 0 :: post))) (pre.length + k.length + 1) = v := by
  refine ⟨?_, cstr_at hk, ?_⟩
  · rw [← List.append_assoc, ← List.length_append, set_at, List.append_assoc]
  · have hline : pre ++ (k ++ 0 :: (v ++ 0 :: post)) = (pre ++ k ++ [0]) ++ (v ++ 0 :: post) := by simp
    have hlen : pre.length + k.length + 1 = (pre ++ k ++ [0]).length := by simp [Nat.add_assoc]
    rw [hline, hlen]
    exact cstr_at hv

theorem parseTokens_last (fuel : Nat) (pre post : Text) (st : NetdState) (hno : 0 ∉ w)
    (hw : 32 ∉ w) (hne : w ≠ []) :
    parseTokens (fuel + 1) (pre ++ (w ++ 0 :: post)) pre.length st =
      setFields putField st (reached [w]) := by
  rw [parseTokens, cstr_at hno, if_neg hne, endToken_last hno hw, reached, List.intercalate_nil]
  cases hcut : cut? 61 w with
  | none =>
    rw [strchr_none hno hcut]
    dsimp only
    rw [← List.append_assoc, ← List.length_append, parseTokens_end]
    rfl
  | some f =>
    obtain ⟨k, v⟩ := f
    obtain ⟨rfl, hk⟩ := cut?_eq_some hcut
    obtain ⟨hset, hkey, hval⟩ := @setEq pre k v post (fun h => hno (List.mem_append_left _ h))
      (fun h => hno (List.mem_append_right _ (List.mem_cons_of_mem _ h)))
    rw [strchr_some hno hk]
    dsimp only
    rw [List.append_assoc, List.cons_append, hset, hkey, hval]
    have hline : pre ++ (k ++ 0 :: (v ++ 0 :: post)) = (pre ++ k ++ [0] ++ v) ++ 0 :: post := by simp
    have hlen : pre.length + (k ++ 61 :: v).length = (pre ++ k ++ [0] ++ v).length := by simp
    rw [hline, hlen, parseTokens_end]
    rfl

theorem reached_split (hw : 32 ∉ w) (more : Text) : reached ((w ++ 32 :: more).splitOn 32) =
    match cut? 61 w, cut? 61 more with
    | some field, _ => field :: reached (more.splitOn 32)
    | none, none => reached (more.splitOn 32)
    | none, some (_, rest) => if w = [] then reached (more.splitOn 32) else [(w, rest)] := by
  rw [List.splitOn_append_cons_self_of_not_mem hw, reached, List.intercalate_splitOn]

theorem parseTokens_field (fuel : Nat) (pre post : Text) (st : NetdState) {k v : Text} (hk : 61 ∉ k)
    (hno : 0 ∉ k ++ 61 :: v ++ 32 :: (sp ++ rest)) (hw : 32 ∉ k ++ 61 :: v)
    (hsp : ∀ c ∈ sp, c = 32) (hrest : rest.head? ≠ some 32) :
    ∃ pre', parseTokens (fuel + 1)
        (pre ++ (k ++ 61 :: v ++ 32 :: (sp ++ rest) ++ 0 :: post)) pre.length st =
      parseTokens fuel (pre' ++ (rest ++ 0 :: post)) pre'.length (putField st k v) := by
  have hno' : 0 ∉ k ++ 61 :: v := fun h => hno (List.mem_append_left _ h)
  obtain ⟨hset, hkey, hval⟩ := @setEq pre k v (sp ++ (rest ++ 0 :: post))
    (fun h => hno' (List.mem_append_left _ h))
    (fun h => hno' (List.mem_append_right _ (List.mem_cons_of_mem _ h)))
  have heq : strchr (pre ++ (k ++ 61 :: v ++ 32 :: (sp ++ rest) ++ 0 :: post)) pre.length 61 =
      some (pre.length + k.length) := by
    have hline : k ++ 61 :: v ++ 32 :: (sp ++ rest) = k ++ 61 :: (v ++ 32 :: (sp ++ rest)) := by simp
    rw [hline] at hno ⊢
    exact strchr_some hno hk
  have hbuf : pre ++ (k ++ 61 :: v) ++ [0] ++ sp ++ (rest ++ 0 :: post) =
      pre ++ (k ++ 61 :: (v ++ 0 :: (sp ++ (rest ++ 0 :: post)))) := by simp
  have hline : pre ++ (k ++ 0 :: (v ++ 0 :: (sp ++ (rest ++ 0 :: post)))) =
      (pre ++ k ++ [0] ++ v ++ [0] ++ sp) ++ (rest ++ 0 :: post) := by simp
  have hlen : (pre ++ (k ++ 61 :: v) ++ [0] ++ sp).length =
      (pre ++ k ++ [0] ++ v ++ [0] ++ sp).length := by simp
  refine ⟨pre ++ k ++ [0] ++ v ++ [0] ++ sp, ?_⟩
  rw [parseTokens, cstr_at hno, if_neg (by simp), endToken_more hno hw hsp hrest, heq]
  dsimp only
  rw [hbuf, hset, hkey, hval, hline, hlen]

theorem parseTokens_bare (fuel : Nat) (pre post : Text) (st : NetdState)
    (hno : 0 ∉ w ++ 32 :: (sp ++ rest)) (hw : 32 ∉ w) (hsp : ∀ c ∈ sp, c = 32)
    (hrest : rest.head? ≠ some 32) (heq : 61 ∉ w ++ 32 :: (sp ++ rest)) :
    ∃ pre', parseTokens (fuel + 1) (pre ++ (w ++ 32 :: (sp ++ rest) ++ 0 :: post)) pre.length st =
      parseTokens fuel (pre' ++ (rest ++ 0 :: post)) pre'.length st := by
  refine ⟨pre ++ w ++ [0] ++ sp, ?_⟩
  rw [parseTokens, cstr_at hno, if_neg (by simp), endToken_more hno hw hsp hrest,
    strchr_none hno (cut?_bare heq)]

-- the `=` behind a bare token ends the string there
theorem parseTokens_behind (fuel : Nat) (pre post : Text) (st : NetdState) {a v : Text}
    (hno : 0 ∉ w ++ 32 :: (sp ++ (a ++ 61 :: v))) (hw : 32 ∉ w) (hsp : ∀ c ∈ sp, c = 32)
    (ha : a.head? ≠ some 32) (heq : 61 ∉ w ++ 32 :: (sp ++ a)) :
    ∃ pre', parseTokens (fuel + 1)
        (pre ++ (w ++ 32 :: (sp ++ (a ++ 61 :: v)) ++ 0 :: post)) pre.length st =
      parseTokens fuel (pre' ++ (a ++ 0 :: (v ++ 0 :: post))) pre'.length (putField st w v) := by
  have hrest : (a ++ 61 :: v).head? ≠ some 32 := by
    cases a with
    | nil => simp
    | cons c a => exact ha
  have hw0 : 0 ∉ w := fun h => hno (List.mem_append_left _ h)
  have hav : 0 ∉ a ++ 61 :: v := fun h =>
    hno (List.mem_append_right _ (List.mem_cons_of_mem _ (List.mem_append_right _ h)))
  have hat : strchr (pre ++ (w ++ 32 :: (sp ++ (a ++ 61 :: v)) ++ 0 :: post)) pre.length 61 =
      some ((pre ++ w ++ [0] ++ sp).length + a.length) := by
    have hline : w ++ 32 :: (sp ++ (a ++ 61 :: v)) = (w ++ 32 :: (sp ++ a)) ++ 61 :: v := by simp
    have hlen : (pre ++ w ++ [0] ++ sp).length + a.length =
        pre.length + (w ++ 32 :: (sp ++ a)).length := by
      simp [Nat.add_assoc, Nat.add_comm, Nat.add_left_comm]
    have hno' := hno
    rw [hline] at hno' ⊢
    rw [strchr_some hno' heq, hlen]
  obtain ⟨hset, -, hval⟩ := @setEq (pre ++ w ++ [0] ++ sp) a v post
    (fun h => hav (List.mem_append_left _ h))
    (fun h => hav (List.mem_append_right _ (List.mem_cons_of_mem _ h)))
  have hkey : cstr 0 (pre ++ w ++ [0] ++ sp ++ (a ++ 0 :: (v ++ 0 :: post))) pre.length = w := by
    have hline : pre ++ w ++ [0] ++ sp ++ (a ++ 0 :: (v ++ 0 :: post)) =
        pre ++ (w ++ 0 :: (sp ++ (a ++ 0 :: (v ++ 0 :: post)))) := by simp
    rw [hline]
    exact cstr_at hw0
  refine ⟨pre ++ w ++ [0] ++ sp, ?_⟩
  rw [parseTokens, cstr_at hno, if_neg (by simp), endToken_more hno hw hsp hrest, hat]
  dsimp only
  rw [List.append_assoc a, List.cons_append, hset, hkey, hval]

theorem parseTokens_reached : ∀ (fuel : Nat) {pre text post : Text} {st : NetdState},
    text.length < fuel → 0 ∉ text → text.head? ≠ some 32 →
      parseTokens fuel (pre ++ (text ++ 0 :: post)) pre.length st =
        setFields putField st (reached (text.splitOn 32)) := by
  intro fuel
  induction fuel with
  | zero => exact fun h => absurd h (Nat.not_lt_zero _)
  | succ fuel ih =>
    intro pre text post st hfuel hno hhead
    by_cases hempty : text = []
    · subst hempty
      exact parseTokens_end _ pre post st
    obtain ⟨w, hw, rfl | ⟨sp, rest, hsp, hrest, rfl⟩⟩ := exists_word text
    · rw [List.splitOn_eq_singleton hw]
      exact parseTokens_last fuel pre post st hno hw hempty
    have hne : w ≠ [] := by
      rintro rfl
      exact hhead rfl
    have hno' : 0 ∉ sp ++ rest := fun h =>
      hno (List.mem_append_right _ (List.mem_cons_of_mem _ h))
    have hrest0 : 0 ∉ rest := fun h => hno' (List.mem_append_right _ h)
    simp only [List.length_append, List.length_cons] at hfuel
    rw [reached_split hw]
    cases hcut : cut? 61 w with
    | some f =>
      obtain ⟨k, v⟩ := f
      obtain ⟨rfl, hk⟩ := cut?_eq_some hcut
      obtain ⟨pre', hstep⟩ := parseTokens_field fuel pre post st hk hno hw hsp hrest
      rw [hstep, ih (by omega) hrest0 hrest]
      dsimp only
      rw [reached_blanks hsp]
      rfl
    | none =>
      have hw61 := cut?_eq_none hcut
      cases hmore : cut? 61 (sp ++ rest) with
      | none =>
        have hmore61 := cut?_eq_none hmore
        have hbare : 61 ∉ w ++ 32 :: (sp ++ rest) := by
          rw [List.mem_append, List.mem_cons]
          rintro (h | h | h)
          · exact hw61 h
          · cases h
          · exact hmore61 h
        obtain ⟨pre', hstep⟩ := parseTokens_bare fuel pre post st hno hw hsp hrest hbare
        rw [hstep, ih (by omega) hrest0 hrest]
        dsimp only
        rw [reached_blanks hsp]
      | some f =>
        obtain ⟨b, v⟩ := f
        obtain ⟨hb, hb61⟩ := cut?_eq_some hmore
        obtain ⟨a, rfl, rfl⟩ : ∃ a, b = sp ++ a ∧ rest = a ++ 61 :: v := by
          rcases List.append_eq_append_iff.mp hb with ⟨a, hba, hrest'⟩ | ⟨c, hspc, hv⟩
          · exact ⟨a, hba, hrest'⟩
          · cases c with
            | nil =>
              rw [List.append_nil] at hspc
              exact ⟨[], by rw [hspc, List.append_nil], hv.symm⟩
            | cons d c =>
              have hd := hsp d (by rw [hspc]; exact List.mem_append_right _ List.mem_cons_self)
              rw [hd] at hv
              exact absurd (List.cons.inj hv).1 (by decide)
        have hbare : 61 ∉ w ++ 32 :: (sp ++ a) := by
          rw [List.mem_append, List.mem_cons]
          rintro (h | h | h)
          · exact hw61 h
          · cases h
          · exact hb61 h
        have ha : a.head? ≠ some 32 := by
          cases a with
          | nil => simp
          | cons c a => exact hrest
        obtain ⟨pre', hstep⟩ := parseTokens_behind fuel pre post st hno hw hsp ha hbare
        have ha61 : 61 ∉ [(32 : UInt8)].intercalate (a.splitOn 32) := by
          rw [List.intercalate_splitOn]
          exact fun h => hb61 (List.mem_append_right _ h)
        rw [List.length_append, List.length_cons] at hfuel
        rw [hstep, ih (by omega) (fun h => hrest0 (List.mem_append_left _ h)) ha, reached_bare ha61]
        dsimp only
        rw [if_neg hne]
        rfl

end Run

section Offer

variable {msg : Text} {st : NetdState}

inductive AddressKey where
  | ip
  | mask
  | gw
  | dns1
  | dns2
  deriving DecidableEq, Repr

def AddressKey.name : AddressKey → Text
  | .ip => ipKey
  | .mask => maskKey
  | .gw => gwKey
  | .dns1 => dns1Key
  | .dns2 => dns2Key

def AddressKey.field (st : NetdState) : AddressKey → Nat
  | .ip => st.ip
  | .mask => st.mask
  | .gw => st.gw
  | .dns1 => st.dns1
  | .dns2 => st.dns2

def offered (msg : Text) : List (Text × Text) := (msg.splitOn 32).tail.filterMap (cut? 61)

def Assigned (st : NetdState) (msg : Text) (st' : NetdState) : Prop :=
  (∀ k : AddressKey, k.field st' = (carried address? (offered msg) k.name).getD (k.field st)) ∧
    st'.leaseSeconds = (carried decimal (offered msg) leaseKey).getD st.leaseSeconds ∧
    st'.viaDhcp = st.viaDhcp

def seen (msg : Text) : List (Text × Text) := reached ((msg.take (tmpCap - 1)).splitOn 32).tail

-- what stands in front of the first bare token with an `=` behind it, and that token with all
-- that is behind that `=`, gives every key what the whole message gives it
def NothingHidden (st : NetdState) (msg : Text) : Prop :=
  (∀ k : AddressKey, (carried address? (seen msg) k.name).getD (k.field st) =
    (carried address? (offered msg) k.name).getD (k.field st)) ∧
    (carried parseU32 (seen msg) leaseKey).getD st.leaseSeconds =
      (carried decimal (offered msg) leaseKey).getD st.leaseSeconds

theorem putField_other (st : NetdState) {key : Text} (val : Text) (hkey : ∀ k : AddressKey, key ≠ k.name)
    (hlease : key ≠ leaseKey) : putField st key val = st := by
  have hip : key ≠ ipKey := hkey .ip
  have hmask : key ≠ maskKey := hkey .mask
  have hgw : key ≠ gwKey := hkey .gw
  have hdns1 : key ≠ dns1Key := hkey .dns1
  have hdns2 : key ≠ dns2Key := hkey .dns2
  simp only [putField, hip, hmask, hgw, hdns1, hdns2, hlease, if_false]

theorem field_putField (k : AddressKey) (st : NetdState) (key val : Text) :
    k.field (putField st key val) =
      if key = k.name then (address? val).getD (k.field st) else k.field st := by
  rw [← parseIpv4_eq]
  by_cases hlease : key = leaseKey
  · subst hlease
    cases k <;> rfl
  by_cases hkey : ∃ j : AddressKey, key = j.name
  · obtain ⟨j, rfl⟩ := hkey
    cases j <;> cases k <;> rfl
  · have hother := not_exists.mp hkey
    rw [putField_other st val hother hlease, if_neg (hother k)]

theorem leaseSeconds_putField (st : NetdState) (key val : Text) :
    (putField st key val).leaseSeconds =
      if key = leaseKey then (parseU32 val).getD st.leaseSeconds else st.leaseSeconds := by
  by_cases hlease : key = leaseKey
  · subst hlease
    rfl
  by_cases hkey : ∃ j : AddressKey, key = j.name
  · obtain ⟨j, rfl⟩ := hkey
    cases j <;> rfl
  · rw [putField_other st val (not_exists.mp hkey) hlease, if_neg hlease]

theorem viaDhcp_putField (st : NetdState) (key val : Text) :
    (putField st key val).viaDhcp = st.viaDhcp := by
  unfold putField
  split_ifs <;> rfl

theorem viaDhcp_setFields (st : NetdState) (fields : List (Text × Text)) :
    (setFields putField st fields).viaDhcp = st.viaDhcp := by
  induction fields generalizing st with
  | nil => rfl
  | cons f fields ih => exact (ih (putField st f.1 f.2)).trans (viaDhcp_putField st f.1 f.2)

theorem isOffer_iff {buf : Text} :
    isOffer buf = true ↔ offerName <+: buf ∨ ackName <+: buf := by
  rw [isOffer, Bool.or_eq_true, decide_eq_true_eq, decide_eq_true_eq,
    List.prefix_iff_eq_take, List.prefix_iff_eq_take, eq_comm, @eq_comm _ _ ackName]

theorem copyMsg_eq (msg : Text) : ∃ post, copyMsg msg = msg.take (tmpCap - 1) ++ 0 :: post := by
  have hlen := List.length_take_le (tmpCap - 1) msg
  have hroom : tmpCap - (msg.take (tmpCap - 1)).length =
      tmpCap - 1 - (msg.take (tmpCap - 1)).length + 1 := by
    have : tmpCap = 256 := rfl
    omega
  refine ⟨List.replicate (tmpCap - 1 - (msg.take (tmpCap - 1)).length) 0, ?_⟩
  rw [copyMsg, hroom, List.replicate_succ]

theorem prefix_take {name : Text} (h : name <+: msg) (hlen : name.length ≤ tmpCap - 1) :
    name <+: msg.take (tmpCap - 1) := by
  rw [List.prefix_take_iff]
  exact ⟨h, hlen⟩

theorem offer_word (h : isOffer msg = true) : ∃ w sp rest, 32 ∉ w ∧ (∀ c ∈ sp, c = 32) ∧
    rest.head? ≠ some 32 ∧ msg.take (tmpCap - 1) = w ++ 32 :: (sp ++ rest) := by
  have hblank : 32 ∈ msg.take (tmpCap - 1) := by
    rcases isOffer_iff.mp h with h | h
    · exact (prefix_take h (by decide)).subset (by decide)
    · exact (prefix_take h (by decide)).subset (by decide)
  obtain ⟨w, hw, htext | ⟨sp, rest, hsp, hrest, htext⟩⟩ := exists_word (msg.take (tmpCap - 1))
  · rw [htext] at hblank
    exact absurd hblank hw
  · exact ⟨w, sp, rest, hw, hsp, hrest, htext⟩

theorem parseOffer_seen (st : NetdState) (hno : 0 ∉ msg) (h : isOffer msg = true) :
    (parseOffer msg st).1 = setFields putField st (seen msg) := by
  obtain ⟨post, hcopy⟩ := copyMsg_eq msg
  have hname : isOffer (copyMsg msg) = true := by
    rw [hcopy]
    rcases isOffer_iff.mp h with h | h
    · exact isOffer_iff.mpr (.inl ((prefix_take h (by decide)).trans ( List.prefix_append _ _)))
    · exact isOffer_iff.mpr (.inr ((prefix_take h (by decide)).trans ( List.prefix_append _ _)))
  have hno' : 0 ∉ msg.take (tmpCap - 1) := fun hmem => hno (List.mem_of_mem_take hmem)
  have hshort := List.length_take_le (tmpCap - 1) msg
  obtain ⟨w, sp, rest, hw, hsp, hrest, htext⟩ := offer_word h
  rw [parseOffer, hname, seen, htext, List.splitOn_append_cons_self_of_not_mem hw, List.tail_cons,
    reached_blanks hsp]
  rw [htext] at hcopy hno' hshort
  simp only [List.length_append, List.length_cons] at hshort
  have hskip : skipWord (copyMsg msg) 0 = w.length := by
    have := @cstr_at _ _ 0 [] _ post hno'
    rw [List.nil_append, List.length_nil] at this
    rw [skipWord, hcopy, this, takeWhile_ne hw, Nat.zero_add]
  have hmore : 0 ∉ 32 :: (sp ++ rest) := fun hmem => hno' (List.mem_append_right w hmem)
  have hspaces : skipSpaces (copyMsg msg) w.length = (w ++ [32] ++ sp).length := by
    have hblanks : (32 :: (sp ++ rest)).takeWhile (· = 32) = 32 :: sp := by
      rw [← List.cons_append]
      refine takeWhile_blanks (fun c hc => ?_) hrest
      rcases List.mem_cons.mp hc with rfl | hc
      · rfl
      · exact hsp c hc
    rw [skipSpaces, hcopy, List.append_assoc, cstr_at hmore, hblanks]
    simp
  have hbuf : copyMsg msg = (w ++ [32] ++ sp) ++ (rest ++ 0 :: post) := by
    rw [hcopy]
    simp
  rw [hskip, hspaces, hbuf]
  exact parseTokens_reached tmpCap (by omega)
    (fun hmem => hmore (List.mem_cons_of_mem _ (List.mem_append_right _ hmem))) hrest

theorem offer_assigned_iff (st : NetdState) (hno : 0 ∉ msg) (hoffer : isOffer msg = true) :
    Assigned st msg (parseOffer msg st).1 ↔ NothingHidden st msg := by
  have haddress (k : AddressKey) : k.field (setFields putField st (seen msg)) =
      (carried address? (seen msg) k.name).getD (k.field st) :=
    @setFields_carried _ _ putField (fun st => k.field st) address? k.name (field_putField k) st
      (seen msg)
  have hlease := setFields_carried parseU32 leaseSeconds_putField st (seen msg)
  have hvia := viaDhcp_setFields st (seen msg)
  rw [Assigned, NothingHidden, parseOffer_seen st hno hoffer, hlease, hvia]
  simp only [haddress, and_true]

theorem reached_fields {ws : List Text} (h : ∀ w ∈ ws, w = [] ∨ 61 ∈ w) :
    reached ws = ws.filterMap (cut? 61) := by
  induction ws with
  | nil => rfl
  | cons w ws ih =>
    have hrest := ih fun w hw => h w (List.mem_cons_of_mem _ hw)
    rcases h w List.mem_cons_self with rfl | hw
    · rw [reached_blank, hrest]
      rfl
    · cases hcut : cut? 61 w with
      | none => exact absurd hw (cut?_eq_none hcut)
      | some f => rw [reached, hcut, List.filterMap_cons_some hcut, hrest]

theorem nothingHidden_of_fields (hlen : msg.length ≤ 255)
    (hfields : ∀ w ∈ (msg.splitOn 32).tail, w = [] ∨ 61 ∈ w)
    (hlease : ∀ n, carried decimal (offered msg) leaseKey = some n → n < 2 ^ 32) :
    NothingHidden st msg := by
  have hseen : seen msg = offered msg := by
    have hwhole : msg.take (tmpCap - 1) = msg := List.take_of_length_le hlen
    rw [seen, hwhole, reached_fields hfields, offered]
  have hread : carried parseU32 (offered msg) leaseKey =
      (carried decimal (offered msg) leaseKey).map (· % 2 ^ 32) := by
    rw [← Composd.carried_map, ← funext parseU32_decimal]
    rfl
  refine ⟨fun k => by rw [hseen], ?_⟩
  rw [hseen, hread]
  cases hdec : carried decimal (offered msg) leaseKey with
  | none => rfl
  | some n => exact Nat.mod_eq_of_lt (hlease n hdec)

-- "OFFER ip=10.0.2.15 lease=60"
theorem offer_assigned_iff_pair : Assigned ⟨0, 0, 0, 0, 0, 0, 0⟩
    [79, 70, 70, 69, 82, 32, 105, 112, 61, 49, 48, 46, 48, 46, 50, 46, 49, 53, 32, 108, 101, 97,
      115, 101, 61, 54, 48]
    (parseOffer [79, 70, 70, 69, 82, 32, 105, 112, 61, 49, 48, 46, 48, 46, 50, 46, 49, 53, 32, 108,
      101, 97, 115, 101, 61, 54, 48] ⟨0, 0, 0, 0, 0, 0, 0⟩).1 := by
  refine (offer_assigned_iff ⟨0, 0, 0, 0, 0, 0, 0⟩ (by decide) (by decide)).mpr ⟨?_, by decide⟩
  intro k
  cases k <;> decide

-- "OFFER x ip=10.0.2.15": the address is not read
theorem bare_token_hides_address :
    (0 : UInt8) ∉ [79, 70, 70, 69, 82, 32, 120, 32, 105, 112, 61, 49, 48, 46, 48, 46, 50, 46, 49, 53] ∧
      isOffer [79, 70, 70, 69, 82, 32, 120, 32, 105, 112, 61, 49, 48, 46, 48, 46, 50, 46, 49, 53] =
        true ∧
      ¬ Assigned ⟨0, 0, 0, 0, 0, 0, 0⟩
        [79, 70, 70, 69, 82, 32, 120, 32, 105, 112, 61, 49, 48, 46, 48, 46, 50, 46, 49, 53]
        (parseOffer [79, 70, 70, 69, 82, 32, 120, 32, 105, 112, 61, 49, 48, 46, 48, 46, 50, 46, 49,
          53] ⟨0, 0, 0, 0, 0, 0, 0⟩).1 := by
  refine ⟨by decide, by decide, fun h => ?_⟩
  have hip := h.1 .ip
  revert hip
  decide

end Offer

end HouseOS.Netd
