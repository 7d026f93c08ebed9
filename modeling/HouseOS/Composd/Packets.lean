import HouseOS.Composd.Model

namespace HouseOS.Composd

open HouseOS.Words

section Token

variable {pre sp w more post : Text} {c : UInt8}

structure Cut (text sp w more : Text) : Prop where
  text : text = sp ++ (w ++ more)
  blanks : ∀ c ∈ sp, isSpace c = true
  word : ∀ c ∈ w, isSpace c = false
  ends : ∀ c, more.head? = some c → isSpace c = true

theorem exists_cut (text : Text) : ∃ sp w more, Cut text sp w more ∧ (w = [] → more = []) := by
  refine ⟨text.takeWhile isSpace, (text.dropWhile isSpace).takeWhile fun c => !isSpace c,
    (text.dropWhile isSpace).dropWhile fun c => !isSpace c, ⟨?_, fun c hc => List.mem_takeWhile_imp hc,
    fun c hc => by simpa using List.mem_takeWhile_imp hc, fun c hc => ?_⟩, fun h => ?_⟩
  · rw [List.takeWhile_append_dropWhile, List.takeWhile_append_dropWhile]
  · have := List.head?_dropWhile_not (fun c => !isSpace c) (text.dropWhile isSpace)
    rw [hc] at this
    simpa using this
  · cases hdrop : text.dropWhile isSpace with
    | nil => rfl
    | cons c rest =>
      have hc := List.head?_dropWhile_not isSpace text
      rw [hdrop] at hc h
      simp only [List.head?_cons] at hc
      rw [List.takeWhile_cons, if_pos (by simpa using hc)] at h
      cases h

theorem words_cut {text : Text} (h : Cut text sp w more) (hw : w ≠ []) :
    words isSpace text = w :: words isSpace more := by
  have hskip : text.dropWhile isSpace = w ++ more := by
    obtain ⟨c, v, rfl⟩ := List.exists_cons_of_ne_nil hw
    rw [h.text, List.dropWhile_append_of_pos h.blanks, List.cons_append, List.dropWhile_cons,
      if_neg (by rw [h.word c List.mem_cons_self]; exact Bool.false_ne_true)]
  rw [← words_dropWhile, hskip]
  cases more with
  | nil => rw [List.append_nil, words_single hw h.word]; rfl
  | cons c more =>
    rw [words_cons hw h.word (h.ends c rfl), words_blank (h.ends c rfl)]

theorem words_blanks {text : Text} (h : Cut text sp [] []) : words isSpace text = [] := by
  rw [← words_dropWhile, h.text, List.append_nil, List.append_nil,
    List.dropWhile_eq_nil_iff.mpr h.blanks]
  rfl

theorem nextTok_none (pre post : Text) (h : Cut more sp [] []) (hno : 0 ∉ more) :
    nextTok (pre ++ (more ++ 0 :: post)) pre.length =
      (pre ++ (more ++ 0 :: post), pre.length + more.length, none) := by
  have hall : more.takeWhile isSpace = more := by
    rw [h.text, List.append_nil, List.append_nil]
    exact List.takeWhile_eq_self_iff.mpr h.blanks
  have hend : cstr 0 (pre ++ (more ++ 0 :: post)) (pre.length + more.length) = [] := by
    rw [← List.append_assoc, ← List.length_append]
    exact cstr_at (show 0 ∉ ([] : Text) from List.not_mem_nil)
  rw [nextTok]
  dsimp only
  rw [cstr_at hno, hall, hend]

theorem nextTok_some (pre post : Text) {text : Text} (h : Cut text sp w more) (hw : w ≠ [])
    (hno : 0 ∉ text) :
    nextTok (pre ++ (text ++ 0 :: post)) pre.length =
      match more with
      | [] => (pre ++ (text ++ 0 :: post), pre.length + sp.length + w.length, some (pre.length + sp.length))
      | _ :: more => (pre ++ sp ++ (w ++ 0 :: (more ++ 0 :: post)),
          pre.length + sp.length + w.length + 1, some (pre.length + sp.length)) := by
  obtain ⟨x, v, hxv⟩ := List.exists_cons_of_ne_nil hw
  have hblanks : text.takeWhile isSpace = sp := by
    rw [h.text, List.takeWhile_append_of_pos h.blanks, hxv, List.cons_append, List.takeWhile_cons,
      if_neg (by rw [h.word x (by simp [hxv])]; exact Bool.false_ne_true), List.append_nil]
  have hword : (w ++ more).takeWhile (fun c => !isSpace c) = w := by
    rw [List.takeWhile_append_of_pos fun c hc => by simp [h.word c hc]]
    cases more with
    | nil => rw [List.takeWhile_nil, List.append_nil]
    | cons c more =>
      rw [List.takeWhile_cons, if_neg (by rw [h.ends c rfl]; decide), List.append_nil]
  have hparts : 0 ∉ w ++ more := fun hmem => hno (by rw [h.text]; exact List.mem_append_right sp hmem)
  have hstart : cstr 0 (pre ++ (text ++ 0 :: post)) (pre.length + sp.length) = w ++ more := by
    have hbuf : pre ++ (text ++ 0 :: post) = (pre ++ sp) ++ ((w ++ more) ++ 0 :: post) := by
      rw [h.text]
      simp only [List.append_assoc]
    rw [hbuf, ← List.length_append]
    exact cstr_at hparts
  have hstop : cstr 0 (pre ++ (text ++ 0 :: post)) (pre.length + sp.length + w.length) = more := by
    have hbuf : pre ++ (text ++ 0 :: post) = (pre ++ sp ++ w) ++ (more ++ 0 :: post) := by
      rw [h.text]
      simp only [List.append_assoc]
    rw [hbuf, ← List.length_append, ← List.length_append]
    exact cstr_at fun hmem => hparts (List.mem_append_right w hmem)
  rw [nextTok]
  dsimp only
  rw [cstr_at hno, hblanks, hstart]
  conv_lhs => rw [hxv, List.cons_append]
  dsimp only
  rw [← List.cons_append, ← hxv, hword, hstop]
  cases more with
  | nil => rfl
  | cons c more =>
    have hbuf : pre ++ (text ++ 0 :: post) = (pre ++ sp ++ w) ++ c :: (more ++ 0 :: post) := by
      rw [h.text]
      simp only [List.append_assoc, List.cons_append]
    dsimp only
    rw [hbuf, ← List.length_append, ← List.length_append, set_at]
    simp only [List.append_assoc]

theorem cutAtEq_some {k v : Text} (hno : 0 ∉ w) (h : cut? 61 w = some (k, v)) :
    cutAtEq (pre ++ (w ++ 0 :: post)) pre.length =
      some (pre ++ (k ++ 0 :: (v ++ 0 :: post)), k, v) := by
  obtain ⟨rfl, hk⟩ := cut?_eq_some h
  have hkey : (k ++ 61 :: v).takeWhile (fun x => decide (x ≠ 61)) = k := by
    rw [List.takeWhile_append_of_pos, List.takeWhile_cons]
    · simp
    · exact fun c hc => by simpa using fun hc' : c = 61 => hk (hc' ▸ hc)
  have hbuf : (pre ++ (k ++ 61 :: v ++ 0 :: post)).set (pre.length + k.length) 0 =
      pre ++ (k ++ 0 :: (v ++ 0 :: post)) := by
    have hline : pre ++ (k ++ 61 :: v ++ 0 :: post) = (pre ++ k) ++ 61 :: (v ++ 0 :: post) := by simp
    rw [hline, ← List.length_append, set_at]
    simp
  have hk0 : (0 : UInt8) ∉ k := fun hmem => hno (List.mem_append_left _ hmem)
  have hv0 : (0 : UInt8) ∉ v := fun hmem => hno (List.mem_append_right k (List.mem_cons_of_mem _ hmem))
  have hval : cstr 0 (pre ++ (k ++ 0 :: (v ++ 0 :: post))) (pre.length + k.length + 1) = v := by
    have hline : pre ++ (k ++ 0 :: (v ++ 0 :: post)) = (pre ++ k ++ [0]) ++ (v ++ 0 :: post) := by simp
    have hlen : pre.length + k.length + 1 = (pre ++ k ++ [0]).length := by simp [Nat.add_assoc]
    rw [hline, hlen]
    exact cstr_at hv0
  rw [cutAtEq]
  dsimp only
  rw [cstr_at hno, if_pos (by simp), hkey, hbuf, cstr_at hk0, hval]

theorem cutAtEq_none (hno : 0 ∉ w) (h : cut? 61 w = none) :
    cutAtEq (pre ++ (w ++ 0 :: post)) pre.length = none := by
  have hmem : (61 : UInt8) ∉ w := by
    intro hmem
    unfold cut? at h
    split at h
    · rename_i hdrop
      rw [List.dropWhile_eq_nil_iff] at hdrop
      simpa using hdrop 61 hmem
    · cases h
  rw [cutAtEq]
  dsimp only
  rw [cstr_at hno, if_neg hmem]

end Token

section Fields

variable {α : Type} {put : α → Text → Text → α} {pre post text : Text}

def wordFields (ws : List Text) : List (Text × Text) := ws.filterMap (cut? 61)

def setFields (put : α → Text → Text → α) (out : α) (fields : List (Text × Text)) : α :=
  fields.foldl (fun out f => put out f.1 f.2) out

theorem parseFields_none (fuel : Nat) (out : α) :
    (parseFields put fuel (pre ++ 0 :: post) pre.length out).2 = out := by
  cases fuel with
  | zero => rfl
  | succ fuel =>
    have hblank : Cut ([] : Text) [] [] [] := ⟨rfl, nofun, nofun, nofun⟩
    have htok := nextTok_none pre post hblank List.not_mem_nil
    rw [List.nil_append] at htok
    rw [parseFields, htok]

theorem parseFields_words : ∀ (fuel : Nat) {pre text post : Text} {out : α}, text.length < fuel →
    0 ∉ text → (parseFields put fuel (pre ++ (text ++ 0 :: post)) pre.length out).2 =
      setFields put out (wordFields (words isSpace text)) := by
  intro fuel
  induction fuel with
  | zero => exact fun h => absurd h (Nat.not_lt_zero _)
  | succ fuel ih =>
    intro pre text post out hfuel hno
    obtain ⟨sp, w, more, hcut, hnil⟩ := exists_cut text
    by_cases hw : w = []
    · obtain rfl := hnil hw
      subst hw
      rw [parseFields, nextTok_none pre post hcut hno, words_blanks hcut]
      rfl
    have hno' : 0 ∉ w ++ more := fun hmem => hno (by rw [hcut.text]; exact List.mem_append_right sp hmem)
    have hwno : 0 ∉ w := fun hmem => hno' (List.mem_append_left _ hmem)
    have hwords := words_cut hcut hw
    have hlen : text.length = sp.length + (w.length + more.length) := by
      rw [hcut.text, List.length_append, List.length_append]
    have hpos := List.length_pos_iff.mpr hw
    rw [parseFields, nextTok_some pre post hcut hw hno, hwords]
    cases more with
    | nil =>
      have hbuf : pre ++ (text ++ 0 :: post) = (pre ++ sp) ++ (w ++ 0 :: post) := by
        rw [hcut.text]
        simp
      dsimp only
      rw [hbuf, ← List.length_append]
      cases hf : cut? 61 w with
      | none =>
        have hline : pre ++ sp ++ (w ++ 0 :: post) = (pre ++ sp ++ w) ++ 0 :: post := by simp
        rw [cutAtEq_none hwno hf, wordFields, List.filterMap_cons_none hf, hline, ← List.length_append]
        exact parseFields_none fuel out
      | some f =>
        obtain ⟨k, v⟩ := f
        obtain ⟨rfl, -⟩ := cut?_eq_some hf
        have hline : pre ++ sp ++ (k ++ 0 :: (v ++ 0 :: post)) =
            (pre ++ sp ++ k ++ [0] ++ v) ++ 0 :: post := by simp
        have hat : (pre ++ sp).length + (k ++ 61 :: v).length = (pre ++ sp ++ k ++ [0] ++ v).length := by
          simp [Nat.add_assoc]
        rw [cutAtEq_some hwno hf, wordFields, List.filterMap_cons_some hf]
        dsimp only
        rw [hline, hat]
        exact parseFields_none fuel (put out k v)
    | cons c more =>
      have hmore : 0 ∉ more := fun hmem =>
        hno' (List.mem_append_right w (List.mem_cons_of_mem c hmem))
      rw [List.length_cons] at hlen
      rw [words_blank (hcut.ends c rfl)]
      dsimp only
      rw [← List.length_append]
      cases hf : cut? 61 w with
      | none =>
        have hline : pre ++ sp ++ (w ++ 0 :: (more ++ 0 :: post)) =
            (pre ++ sp ++ w ++ [0]) ++ (more ++ 0 :: post) := by simp
        have hat : (pre ++ sp).length + w.length + 1 = (pre ++ sp ++ w ++ [0]).length := by
          simp [Nat.add_assoc]
        rw [cutAtEq_none hwno hf, wordFields, List.filterMap_cons_none hf]
        dsimp only
        rw [hline, hat]
        exact ih (by omega) hmore
      | some f =>
        obtain ⟨k, v⟩ := f
        obtain ⟨rfl, -⟩ := cut?_eq_some hf
        have hline : pre ++ sp ++ (k ++ 0 :: (v ++ 0 :: (more ++ 0 :: post))) =
            (pre ++ sp ++ k ++ [0] ++ v ++ [0]) ++ (more ++ 0 :: post) := by simp
        have hat : (pre ++ sp).length + (k ++ 61 :: v).length + 1 =
            (pre ++ sp ++ k ++ [0] ++ v ++ [0]).length := by
          simp [Nat.add_assoc, Nat.add_comm, Nat.add_left_comm]
        rw [cutAtEq_some hwno hf, wordFields, List.filterMap_cons_some hf]
        dsimp only
        rw [hline, hat]
        exact ih (by omega) hmore

end Fields

section Packet

variable {α : Type} {put : α → Text → Text → α} {name text post w sp more : Text} {start : α}

theorem parsePacket_named (hno : 0 ∉ text) {ws : List Text} (hne : name ≠ [])
    (hwords : words isSpace text = name :: ws) :
    (parsePacket name start put (text ++ 0 :: post)).2 = some (setFields put start (wordFields ws)) := by
  obtain ⟨sp, w, more, hcut, hnil⟩ := exists_cut text
  have hw : w ≠ [] := by
    rintro rfl
    obtain rfl := hnil rfl
    rw [words_blanks hcut] at hwords
    cases hwords
  have hno' : 0 ∉ w ++ more := fun hmem => hno (by rw [hcut.text]; exact List.mem_append_right sp hmem)
  have hwno : 0 ∉ w := fun hmem => hno' (List.mem_append_left _ hmem)
  rw [words_cut hcut hw, List.cons.injEq] at hwords
  obtain ⟨rfl, rfl⟩ := hwords
  have htok := nextTok_some [] post hcut hw hno
  rw [List.nil_append, List.length_nil, Nat.zero_add] at htok
  rw [parsePacket, htok]
  cases more with
  | nil =>
    have hbuf : text ++ 0 :: post = sp ++ (w ++ 0 :: post) := by
      rw [hcut.text]
      simp
    dsimp only
    rw [hbuf, cstr_at hwno, if_pos rfl]
    have hline : sp ++ (w ++ 0 :: post) = (sp ++ w) ++ 0 :: post := by simp
    dsimp only
    rw [hline, ← List.length_append, parseFields_none]
    rfl
  | cons c more =>
    have hmore : 0 ∉ more := fun hmem =>
      hno' (List.mem_append_right w (List.mem_cons_of_mem c hmem))
    dsimp only
    rw [List.nil_append, cstr_at hwno, if_pos rfl]
    have hline : sp ++ (w ++ 0 :: (more ++ 0 :: post)) = (sp ++ w ++ [0]) ++ (more ++ 0 :: post) := by
      simp
    have hat : sp.length + w.length + 1 = (sp ++ w ++ [0]).length := by simp [Nat.add_assoc]
    dsimp only
    rw [hline, hat, parseFields_words _ (by simp; omega) hmore, words_blank (hcut.ends c rfl)]

-- a parser that finds another name leaves only that name in the buffer
theorem parsePacket_other (put : α → Text → Text → α) (start : α) (post : Text) (hno : 0 ∉ text)
    {ws : List Text} (hw : w ≠ name)
    (hwords : words isSpace text = w :: ws) :
    (parsePacket name start put (text ++ 0 :: post)).2 = none ∧
      ∃ left post', 0 ∉ left ∧ words isSpace left = [w] ∧
        (parsePacket name start put (text ++ 0 :: post)).1 = left ++ 0 :: post' := by
  obtain ⟨sp, w', more, hcut, hnil⟩ := exists_cut text
  have hw' : w' ≠ [] := by
    rintro rfl
    obtain rfl := hnil rfl
    rw [words_blanks hcut] at hwords
    cases hwords
  have hno' : 0 ∉ w' ++ more := fun hmem => hno (by rw [hcut.text]; exact List.mem_append_right sp hmem)
  have hwno : 0 ∉ w' := fun hmem => hno' (List.mem_append_left _ hmem)
  rw [words_cut hcut hw', List.cons.injEq] at hwords
  obtain ⟨rfl, -⟩ := hwords
  have hleft : 0 ∉ sp ++ w' := by
    intro hmem
    apply hno
    rw [hcut.text, ← List.append_assoc]
    exact List.mem_append_left more hmem
  have hname : words isSpace (sp ++ w') = [w'] :=
    words_cut (show Cut (sp ++ w') sp w' [] from ⟨by rw [List.append_nil], hcut.blanks, hcut.word, nofun⟩) hw'
  have htok := nextTok_some [] post hcut hw' hno
  rw [List.nil_append, List.length_nil, Nat.zero_add] at htok
  rw [parsePacket, htok]
  cases more with
  | nil =>
    have hbuf : text ++ 0 :: post = sp ++ (w' ++ 0 :: post) := by
      rw [hcut.text]
      simp
    dsimp only
    rw [hbuf, cstr_at hwno, if_neg hw]
    exact ⟨rfl, sp ++ w', post, hleft, hname, by rw [List.append_assoc]⟩
  | cons c more =>
    dsimp only
    rw [List.nil_append, cstr_at hwno, if_neg hw]
    exact ⟨rfl, sp ++ w', more ++ 0 :: post, hleft, hname, by rw [List.append_assoc]⟩

theorem parsePacket_blanks (hno : 0 ∉ text) (hwords : words isSpace text = []) :
    parsePacket name start put (text ++ 0 :: post) = (text ++ 0 :: post, none) := by
  obtain ⟨sp, w, more, hcut, hnil⟩ := exists_cut text
  have hw : w = [] := by
    by_contra hw
    rw [words_cut hcut hw] at hwords
    cases hwords
  obtain rfl := hnil hw
  subst hw
  have htok := nextTok_none [] post hcut hno
  rw [List.nil_append, List.length_nil] at htok
  rw [parsePacket, htok]

end Packet

end HouseOS.Composd
