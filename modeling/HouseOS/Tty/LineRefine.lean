import HouseOS.Tty.LineBounds

namespace HouseOS.Tty

open HouseOS.ByteMem
open HouseOS.Keyboard (KeyEvent)

namespace LineRead

variable {s t : LineRead} {e : Editor} {layout : Nat} {xs ys : Line} {c : UInt8}

def position : Option Nat → Int
  | none => -1
  | some pos => pos

-- the line set aside when the history was entered
structure SetAside (savedLine : Mem) (len cursor size : Nat) (saved : Line × Line) : Prop where
  line : BytesAt savedLine 0 (saved.1 ++ saved.2)
  len_eq : len = (saved.1 ++ saved.2).length
  cursor_eq : cursor = saved.1.length
  room : len < size
  plain : 0 ∉ saved.1 ++ saved.2

-- what the line under way and the editor have in common
structure Shows (s : LineRead) (e : Editor) : Prop where
  line : BytesAt s.out 0 (e.before ++ e.after)
  n_eq : s.n = (e.before ++ e.after).length
  cursor_eq : s.cursor = e.before.length
  plain : 0 ∉ e.before ++ e.after
  pos_eq : s.historyPos = position e.historyPos
  pos_lt : ∀ pos, e.historyPos = some pos → pos < s.history.count
  saved : ∀ pos, e.historyPos = some pos →
    SetAside s.savedLine s.savedLen s.savedCursor s.size e.saved
  history : s.history.lines = e.history
  ring : s.history.Terminated
  running : s.result = none
  editing : e.ending = none

structure Ended (s : LineRead) (e : Editor) (ending : Ending) : Prop where
  ending_eq : e.ending = some ending
  result : s.result = some ending.result
  bytes : BytesAt s.out 0 ending.bytes
  short : ending.bytes.length < s.size
  history : s.history.lines = e.history

namespace Shows

theorem setLine (h : Shows s e) {out : Mem} (hline : BytesAt out 0 (xs ++ ys)) {n cursor : Nat}
    (hn : n = (xs ++ ys).length) (hcursor : cursor = xs.length) (hplain : 0 ∉ xs ++ ys) :
    Shows { s with out := out, n := n, cursor := cursor } (e.setLine xs ys) :=
  ⟨hline, hn, hcursor, hplain, h.pos_eq, h.pos_lt, h.saved, h.history, h.ring, h.running, h.editing⟩

theorem moveTo (h : Shows s e) (hsame : xs ++ ys = e.before ++ e.after) {cursor : Nat}
    (hcursor : cursor = xs.length) : Shows { s with cursor := cursor } (e.setLine xs ys) := by
  refine h.setLine ?_ ?_ hcursor ?_
  · rw [hsame]
    exact h.line
  · rw [hsame]
    exact h.n_eq
  · rw [hsame]
    exact h.plain

theorem after_at (h : Shows s e) : BytesAt s.out s.cursor e.after := by
  have hafter := (bytesAt_append.mp h.line).2
  rwa [Nat.zero_add, ← h.cursor_eq] at hafter

theorem before_at (h : Shows s e) : BytesAt s.out 0 e.before := (bytesAt_append.mp h.line).1

theorem after_length (h : Shows s e) : s.n - s.cursor = e.after.length := by
  rw [h.n_eq, h.cursor_eq, List.length_append, Nat.add_sub_cancel_left]

theorem insert (h : Shows s e) (hc : c ≠ 0) :
    Shows (s.insert c) (e.setLine (e.before ++ [c]) e.after) := by
  have hlength : (e.before ++ [c]).length = s.cursor + 1 := by
    rw [List.length_append, List.length_singleton, h.cursor_eq]
  have hcursor := h.cursor_eq
  refine h.setLine ?_ ?_ hlength.symm ?_
  · refine bytesAt_append.mpr ⟨bytesAt_append.mpr ⟨?_, ?_⟩, ?_⟩
    · refine bytesAt_store8_apart (bytesAt_copyFrom_apart h.before_at (.inl ?_)) (.inr ?_)
      · omega
      · omega
    · rw [Nat.zero_add, ← hcursor]
      exact bytesAt_singleton.mpr (if_pos rfl)
    · rw [Nat.zero_add, hlength]
      refine bytesAt_store8_apart (bytesAt_copyFrom h.after_at ?_) (.inl (Nat.lt_succ_self _))
      rw [h.after_length]
  · rw [List.length_append, hlength, h.n_eq, List.length_append, ← hcursor]
    omega
  · have hplain := h.plain
    simp only [List.mem_append, List.mem_singleton, not_or] at hplain ⊢
    exact ⟨⟨hplain.1, hc.symm⟩, hplain.2⟩

theorem erase (h : Shows s e) : Shows s.erase (e.setLine e.before.dropLast e.after) := by
  have hcursor := h.cursor_eq
  rw [LineRead.erase]
  split
  case isTrue hpos =>
    have hlength : e.before.dropLast.length = s.cursor - 1 := by
      rw [List.length_dropLast, hcursor]
    refine h.setLine ?_ ?_ hlength.symm ?_
    · refine bytesAt_append.mpr ⟨?_, ?_⟩
      · refine bytesAt_copyFrom_apart ?_ (.inl ?_)
        · have hsplit := List.dropLast_append_getLast (List.ne_nil_of_length_pos (hcursor ▸ hpos))
          have hbefore := h.before_at
          rw [← hsplit] at hbefore
          exact (bytesAt_append.mp hbefore).1
        · omega
      · rw [Nat.zero_add, hlength]
        refine bytesAt_copyFrom h.after_at ?_
        rw [h.after_length]
    · rw [List.length_append, hlength, h.n_eq, List.length_append, ← hcursor]
      omega
    · intro hzero
      refine h.plain (List.mem_append.mpr ?_)
      exact (List.mem_append.mp hzero).imp_left fun hmem => (List.dropLast_sublist _).subset hmem
  case isFalse hzero =>
    have hnil : e.before = [] := List.length_eq_zero_iff.mp (by omega)
    refine h.moveTo ?_ ?_
    · rw [hnil]
      rfl
    · rw [hnil, hcursor, hnil]
      rfl

theorem left (h : Shows s e) : Shows (if 0 < s.cursor then { s with cursor := s.cursor - 1 } else s)
    (e.setLine e.before.dropLast (e.before.getLast?.toList ++ e.after)) := by
  have hcursor := h.cursor_eq
  split
  · refine h.moveTo e.left_line ?_
    rw [List.length_dropLast, hcursor]
  · refine h.moveTo e.left_line ?_
    rw [List.length_dropLast]
    omega

theorem right (h : Shows s e) : Shows (if s.cursor < s.n then { s with cursor := s.cursor + 1 } else s)
    (e.setLine (e.before ++ e.after.take 1) (e.after.drop 1)) := by
  have hafter := h.after_length
  have hcursor := h.cursor_eq
  have hsame : e.before ++ e.after.take 1 ++ e.after.drop 1 = e.before ++ e.after := by
    rw [List.append_assoc, List.take_append_drop]
  split
  · refine h.moveTo hsame ?_
    rw [List.length_append, List.length_take]
    omega
  · refine h.moveTo hsame ?_
    rw [List.length_append, List.length_take]
    omega

theorem home (h : Shows s e) : Shows (if 0 < s.cursor then { s with cursor := 0 } else s)
    (e.setLine [] e.line) := by
  have hsame : [] ++ e.line = e.before ++ e.after := rfl
  split
  case isTrue => exact h.moveTo hsame rfl
  case isFalse hzero => exact h.moveTo hsame (Nat.eq_zero_of_not_pos hzero)

theorem fin (h : Shows s e) : Shows (if s.cursor < s.n then { s with cursor := s.n } else s)
    (e.setLine e.line []) := by
  have hn := h.n_eq
  have hcursor := h.cursor_eq
  have hafter := h.after_length
  have hsame : e.line ++ [] = e.before ++ e.after := List.append_nil _
  split
  · exact h.moveTo hsame hn
  · refine h.moveTo hsame (Eq.trans ?_ hn)
    rw [List.length_append] at hn
    omega

end Shows

section History

theorem bytesAt_take {m : Mem} {a : Nat} (h : BytesAt m a xs) (k : Nat) : BytesAt m a (xs.take k) := by
  rw [← List.take_append_drop k xs] at h
  exact (bytesAt_append.mp h).1

theorem shows_entry {pos : Nat} (hsize : 0 < s.size) (hpos : s.historyPos = pos)
    (hlt : pos < s.history.count)
    (hsaved : SetAside s.savedLine s.savedLen s.savedCursor s.size e.saved)
    (hhistory : s.history.lines = e.history) (hring : s.history.Terminated)
    (hrun : s.result = none) (hedit : e.ending = none) :
    Shows s.showEntry (e.showLine (s.size - 1) pos ((e.history.getD []).getD pos [])) := by
  obtain ⟨m, a, hget, hentry, -⟩ := HistoryRing.ttyHistoryGet_eq hring hlt
  rw [hhistory] at hentry
  have hfound : s.history.ttyHistoryGet s.historyPos.toNat = some (m, a) := by
    rw [hpos, Int.toNat_natCast, hget]
  rw [hentry, LineRead.showEntry, hfound]
  have hlen : ((cstrAt m a historyLineMax).take (s.size - 1)).length =
      if s.size ≤ (cstrAt m a historyLineMax).length then s.size - 1
      else (cstrAt m a historyLineMax).length := by
    rw [List.length_take]
    split <;> omega
  refine ⟨?_, ?_, hlen.symm, ?_, hpos, ?_, fun _ _ => hsaved, hhistory, hring, hrun, hedit⟩
  · rw [Editor.showLine, List.append_nil]
    exact bytesAt_copyFrom (bytesAt_take ( cstrAt_prefix _ _ _) _) hlen.le
  · rw [Editor.showLine, List.append_nil]
    exact hlen.symm
  · rw [Editor.showLine, List.append_nil]
    exact fun hzero => zero_not_mem_cstrAt m a historyLineMax (List.mem_of_mem_take hzero)
  · intro k hk
    cases hk
    exact hlt

theorem Shows.count_eq (h : Shows s e) : (e.history.getD []).length = s.history.count := by
  rw [← h.history, HistoryRing.length_lines h.ring]

theorem Shows.setAside (h : Shows s e) (hn : s.n < s.size) :
    SetAside s.saveLine.savedLine s.n s.cursor s.size (e.before, e.after) :=
  ⟨bytesAt_copyFrom h.line h.n_eq.ge, h.n_eq, h.cursor_eq, hn, h.plain⟩

theorem Shows.up (h : Shows s e) (hn : s.n < s.size) : Shows s.up (e.older (s.size - 1)) := by
  have hsize : 0 < s.size := by omega
  have hcount := h.count_eq
  rw [LineRead.up, Editor.older]
  cases hlines : e.history.getD [] with
  | nil =>
    rw [hlines, List.length_nil] at hcount
    rw [if_pos hcount.symm]
    exact h
  | cons latest lines =>
    rw [hlines, List.length_cons] at hcount
    rw [if_neg (by omega), LineRead.stepBack, h.pos_eq]
    cases hpos : e.historyPos with
    | none =>
      rw [if_pos (show position none < ((s.history.count - 1 : Nat) : Int) by rw [position]; omega),
        if_pos (by decide)]
      have hfirst : latest = (e.history.getD []).getD 0 [] := by rw [hlines]; rfl
      have hnext : s.historyPos + 1 = ((0 : Nat) : Int) := by
        rw [h.pos_eq, hpos]
        rfl
      have hlt : 0 < s.history.count := by omega
      dsimp only
      rw [hfirst]
      exact shows_entry (s := { s.saveLine with historyPos := s.saveLine.historyPos + 1 })
        (e := { e with saved := (e.before, e.after) }) hsize hnext hlt (h.setAside hn) h.history h.ring
        h.running h.editing
    | some pos =>
      have hlt := h.pos_lt pos hpos
      have hsaved := h.saved pos hpos
      have hneg : ¬position (some pos) < 0 := by rw [position]; omega
      dsimp only
      rw [← hlines, h.count_eq]
      by_cases hlast : pos + 1 < s.history.count
      · rw [if_pos (show position (some pos) < ((s.history.count - 1 : Nat) : Int) by
          rw [position]; omega), if_neg hneg, if_pos hlast]
        have hnext : s.historyPos + 1 = ((pos + 1 : Nat) : Int) := by
          rw [h.pos_eq, hpos]
          rfl
        exact shows_entry (s := { s with historyPos := s.historyPos + 1 }) hsize hnext hlast hsaved
          h.history h.ring h.running h.editing
      · rw [if_neg (show ¬position (some pos) < ((s.history.count - 1 : Nat) : Int) by
          rw [position]; omega), if_neg hlast]
        exact shows_entry hsize (h.pos_eq.trans (by rw [hpos]; rfl)) hlt hsaved h.history h.ring
          h.running h.editing

theorem Shows.restore (h : Shows s e) (hpos : e.historyPos = some 0) : Shows s.restoreLine
    { e with before := e.saved.1, after := e.saved.2, historyPos := none } := by
  have hsaved := h.saved 0 hpos
  have hroom := hsaved.room
  have hlen := hsaved.len_eq
  have hcursor : s.savedCursor ≤ s.savedLen := by
    rw [hlen, hsaved.cursor_eq, List.length_append]
    exact Nat.le_add_right _ _
  rw [restoreLine, if_neg (Nat.not_le.mpr hroom), if_pos hcursor]
  exact ⟨bytesAt_copyFrom hsaved.line hlen.ge, hlen, hsaved.cursor_eq, hsaved.plain, rfl, nofun, nofun,
    h.history, h.ring, h.running, h.editing⟩

theorem Shows.down (h : Shows s e) (hsize : 0 < s.size) : Shows s.down (e.newer (s.size - 1)) := by
  rw [LineRead.down, Editor.newer, h.pos_eq]
  cases hpos : e.historyPos with
  | none =>
    rw [if_pos (by decide)]
    exact h
  | some pos =>
    have hlt := h.pos_lt pos hpos
    have hsaved := h.saved pos hpos
    rw [if_neg (by rw [position]; omega)]
    cases pos with
    | zero =>
      rw [if_neg (by decide)]
      exact h.restore hpos
    | succ pos =>
      rw [if_pos (by rw [position]; omega)]
      have hback : position (some (pos + 1)) - 1 = pos := by rw [position]; omega
      exact shows_entry (s := { s with historyPos := position (some (pos + 1)) - 1 }) hsize hback
        (Nat.lt_of_succ_lt hlt) hsaved h.history h.ring h.running h.editing

end History

theorem Shows.enter (h : Shows s e) (hn : s.n < historyLineMax) (hroom : s.n < s.size - 1) (cap : Nat) :
    Ended s.enter (e.press cap .enter) (.entered e.line) := by
  have hline := h.line
  have hlen : e.line.length = s.n := h.n_eq.symm
  have hkept (c : UInt8) : BytesAt (store8 (store8 s.out s.n 10) (s.n + 1) c) 0 e.line := by
    refine bytesAt_store8_apart (bytesAt_store8_apart hline (.inr ?_)) (.inr ?_)
    · rw [hlen, Nat.zero_add]
    · rw [hlen, Nat.zero_add]
      exact Nat.le_succ _
  refine ⟨rfl, ?_, ?_, ?_, ?_⟩
  · show some ((s.n + 1 : Nat) : Int) = some (((e.line ++ [10]).length : Nat) : Int)
    rw [List.length_append, hlen]
    rfl
  · refine bytesAt_append.mpr ⟨hkept 0, ?_⟩
    rw [Nat.zero_add, hlen]
    refine bytesAt_singleton.mpr ((store8_ne 0 (Nat.ne_of_lt (Nat.lt_succ_self _))).trans ?_)
    exact if_pos rfl
  · show (e.line ++ [10]).length < s.size
    rw [List.length_append, List.length_singleton, hlen]
    omega
  · show (if 1 < s.n + 1 then s.history.ttyHistoryStore _ (s.n + 1 - 1) else s.history).lines =
      historyStore e.history e.line
    by_cases hpos : 1 < s.n + 1
    · rw [if_pos hpos, Nat.add_sub_cancel, ← h.history]
      exact (HistoryRing.store_refines h.ring (hkept 0) hlen h.plain hn).1
    · have hnil : e.line = [] := List.length_eq_zero_iff.mp (by omega)
      rw [if_neg hpos, h.history, hnil]
      exact (Editor.historyStore_nil _).symm

theorem Shows.press (h : Shows s e) (hb : Bounded s) (hroom : s.n < s.size - 1) (k : EditKey)
    (hk : ∀ c, k = .char c → c ≠ 0) :
    Shows (s.press k) (e.press (s.size - 1) k) ∨
      ∃ ending, Ended (s.press k) (e.press (s.size - 1) k) ending := by
  have hsize := hb.size_ge
  have hmax := hb.size_le
  have hn : s.n < s.size := by omega
  have hpos : 0 < s.size := by omega
  cases k with
  | char c =>
    rw [LineRead.press, if_pos hroom]
    exact .inl (h.insert (hk c rfl))
  | erase => exact .inl h.erase
  | left => exact .inl h.left
  | right => exact .inl h.right
  | home => exact .inl h.home
  | fin => exact .inl h.fin
  | up => exact .inl (h.up hn)
  | down => exact .inl (h.down hpos)
  | enter => exact .inr ⟨_, h.enter (by omega) hroom _⟩
  | interrupt => exact .inr ⟨.interrupted, rfl, rfl, bytesAt_nil, hpos, h.history⟩
  | eof => exact .inr ⟨.eof, rfl, rfl, bytesAt_nil, hpos, h.history⟩
  | other => exact .inl h

theorem printable_ne (h : 32 ≤ c) : c ≠ 0 := by
  rintro rfl
  exact absurd h (by decide)

theorem charKey_char {d : UInt8} (h : charKey d = .char c) : c ≠ 0 := by
  rw [charKey] at h
  generalize fromReturn d = d at h
  split_ifs at h with h1 h2 h3 h4 h5
  cases h
  exact printable_ne h5

theorem eventCharKey_char {ev : KeyEvent} {queued : Option UInt8}
    (h : eventCharKey layout ev queued = .char c) : c ≠ 0 := by
  rw [eventCharKey] at h
  generalize ttyTakeInputChar layout ev queued = d at h
  split_ifs at h with h1 h2 h3 h4 h5
  cases h
  exact printable_ne h5.1

theorem keyOf_char {k : Handled} (h : keyOf layout k = .char c) : c ≠ 0 := by
  cases k with
  | char d => exact charKey_char h
  | event ev queued =>
    rw [keyOf] at h
    split_ifs at h
    exact eventCharKey_char h

def Refines (s : LineRead) (e : Editor) : Prop :=
  Shows s e ∧ s.n < s.size - 1 ∨ ∃ ending, Ended s e ending

theorem refines_next (hb : Bounded s) (h : Refines s e) (k : Handled) :
    Refines (s.next layout k) (e.step (s.size - 1) (keyOf layout k)) := by
  rcases h with ⟨h, hroom⟩ | ⟨ending, h⟩
  · rw [LineRead.next, if_neg (not_not.mpr h.running), Editor.step, if_pos h.editing, handle_eq]
    have hmoves := hb.press hroom (keyOf layout k)
    have hsize := hmoves.outside.size_eq
    dsimp only
    rcases h.press hb hroom (keyOf layout k) fun c hc => keyOf_char hc with hshows | ⟨ending, hended⟩
    · have hlen : (e.press (s.size - 1) (keyOf layout k)).line.length = (s.press (keyOf layout k)).n :=
        hshows.n_eq.symm
      by_cases hmore : (s.press (keyOf layout k)).n < (s.press (keyOf layout k)).size - 1
      · rw [if_pos (.inr hmore), Editor.fill, if_neg]
        · exact .inl ⟨hshows, hmore⟩
        · rw [hlen]
          omega
      · rw [if_neg (not_or.mpr ⟨not_not.mpr hshows.running, hmore⟩), Editor.fill,
          if_pos ⟨hshows.editing, by rw [hlen]; omega⟩]
        refine .inr ⟨.full (e.press (s.size - 1) (keyOf layout k)).line, rfl, ?_, ?_, ?_, hshows.history⟩
        · show some _ = some (((e.press (s.size - 1) (keyOf layout k)).line.length : Nat) : Int)
          rw [hlen]
        · refine bytesAt_store8_apart hshows.line (.inr ?_)
          rw [Nat.zero_add]
          exact hlen.le
        · show (e.press (s.size - 1) (keyOf layout k)).line.length < (s.press (keyOf layout k)).size
          rw [hlen, hsize]
          have hn := hmoves.n_le
          have hge := hb.size_ge
          omega
    · have hdone : (s.press (keyOf layout k)).result ≠ none := by
        rw [hended.result]
        exact Option.some_ne_none _
      have hstop : ¬((e.press (s.size - 1) (keyOf layout k)).ending = none ∧
          s.size - 1 ≤ (e.press (s.size - 1) (keyOf layout k)).line.length) := by
        rw [hended.ending_eq]
        exact fun hnone => Option.some_ne_none _ hnone.1
      rw [if_pos (.inl hdone), Editor.fill, if_neg hstop]
      exact .inr ⟨ending, hended⟩
  · have hdone : s.result ≠ none := by
      rw [h.result]
      exact Option.some_ne_none _
    have hstop : e.ending ≠ none := by
      rw [h.ending_eq]
      exact Option.some_ne_none _
    rw [LineRead.next, if_pos hdone, Editor.step, if_neg hstop]
    exact .inr ⟨ending, h⟩

theorem refines_run (hb : Bounded s) (h : Refines s e) (layout : Nat) (keys : List Handled) :
    Refines (s.run layout keys) (e.run (s.size - 1) (keys.map (keyOf layout))) := by
  induction keys generalizing s e with
  | nil => exact h
  | cons k keys ih =>
    have hnext := hb.next layout k
    have hrest := ih hnext.1 (refines_next hb h k)
    rw [hnext.2.size_eq] at hrest
    exact hrest

theorem refines_started {size : Nat} (hsize : 2 ≤ size) (out savedLine : Mem) {history : HistoryRing}
    (hring : history.Terminated) :
    Refines (.started size out savedLine history) (.opened history.lines) := by
  have hroom := (Bounded.started hsize out savedLine history).room rfl
  refine .inl ⟨⟨bytesAt_nil, rfl, rfl, List.not_mem_nil, rfl, fun _ hpos => ?_, fun _ hpos => ?_, rfl, hring,
    rfl, rfl⟩, hroom⟩
  · cases hpos
  · cases hpos

-- a call of `tty_vesa_read` next to the editor that is given the same keys
structure Edits (size : Nat) (out savedLine : Mem) (history : HistoryRing) (s : LineRead) (e : Editor) :
    Prop where
  cursor_le : s.cursor ≤ s.n
  n_le : s.n ≤ size - 1
  result : s.result = e.ending.map Ending.result
  bytes : ∀ ending, e.ending = some ending → ending.bytes.length < size ∧ BytesAt s.out 0 ending.bytes
  buffer : ∀ x, size ≤ x → s.out x = out x
  savedLine : ∀ x, historyLineMax ≤ x → s.savedLine x = savedLine x
  entered : ∀ line, e.ending = some (.entered line) → line ≠ [] →
    s.history.lines = history.lines.map fun lines =>
      if lines.head? = some line then lines else (line :: lines).take historyMax
  kept : (∀ line, e.ending = some (.entered line) → line = []) → s.history.lines = history.lines

theorem Refines.result_eq (h : Refines s e) : s.result = e.ending.map Ending.result := by
  rcases h with ⟨h, -⟩ | ⟨ending, h⟩
  · rw [h.running, h.editing]
    rfl
  · rw [h.result, h.ending_eq]
    rfl

theorem Refines.ended {ending : Ending} (h : Refines s e) (hending : e.ending = some ending) :
    Ended s e ending := by
  rcases h with ⟨h, -⟩ | ⟨ending', h⟩
  · rw [h.editing] at hending
    cases hending
  · have hsame := h.ending_eq
    rw [hending] at hsame
    cases hsame
    exact h

theorem Refines.history_eq (h : Refines s e) : s.history.lines = e.history := by
  rcases h with ⟨h, -⟩ | ⟨ending, h⟩
  · exact h.history
  · exact h.history

theorem historyStore_entered {history : History} (hne : xs ≠ []) (hlen : xs.length < historyLineMax) :
    historyStore history xs = history.map fun lines =>
      if lines.head? = some xs then lines else (xs :: lines).take historyMax := by
  cases history with
  | none => rfl
  | some lines =>
    rw [HistoryRing.historyStore_some hlen, Option.map_some]
    simp only [hne, false_or]

theorem read_edits {size : Nat} (hsize : 2 ≤ size) (out savedLine : Mem) {history : HistoryRing}
    (hring : history.Terminated) (layout : Nat) (keys : List Handled) :
    Edits size out savedLine history ((started size out savedLine history).run layout keys)
      ((Editor.opened history.lines).run (min size historyLineMax - 1) (keys.map (keyOf layout))) := by
  have hstart := Bounded.started hsize out savedLine history
  obtain ⟨hbounded, houtside⟩ := hstart.run layout keys
  have hclip : (started size out savedLine history).size = min size historyLineMax := by
    show (if historyLineMax < size then historyLineMax else size) = _
    split <;> omega
  have href := refines_run hstart (refines_started hsize out savedLine hring) layout keys
  rw [hclip] at href
  have hsizes := houtside.size_eq.trans hclip
  have hstores := Editor.stores_run (min size historyLineMax - 1)
    (Editor.stores_of_none (e := .opened history.lines) rfl rfl) (keys.map (keyOf layout))
  refine ⟨hbounded.cursor_le, ?_, href.result_eq, fun ending hending => ?_, fun x hx => ?_,
    houtside.savedLine_eq, fun line hline hne => ?_, fun hnone => ?_⟩
  · have hn := hbounded.n_le
    omega
  · have hended := href.ended hending
    exact ⟨by have := hended.short; omega, hended.bytes⟩
  · exact houtside.out_eq x (by omega)
  · have hshort := (href.ended hline).short
    have hlen : (line ++ [10]).length = line.length + 1 := List.length_append
    have hmax := hbounded.size_le
    have hfits : line.length < historyLineMax := by
      have hsame : (Ending.entered line).bytes.length = line.length + 1 := hlen
      omega
    rw [Editor.Stores, hline] at hstores
    rw [href.history_eq, hstores]
    exact historyStore_entered hne hfits
  · rw [href.history_eq]
    exact hstores.kept hnone

theorem read_edits_word :
    let s := (started 8 (fun _ => 0) (fun _ => 0) (.opened (some fun _ => 0))).run 0
      [.char 97, .char 98, .event ⟨keyLeft, 0, true, false, false, false, false⟩ none, .char 99, .char 10]
    s.result = some 4 ∧ BytesAt s.out 0 [97, 99, 98, 10] ∧ s.history.lines = some [[97, 99, 98]] := by
  have h := read_edits (show 2 ≤ 8 by decide) (fun _ => 0) (fun _ => 0)
    (HistoryRing.opened_terminated (some fun _ => 0)) 0
    [.char 97, .char 98, .event ⟨keyLeft, 0, true, false, false, false, false⟩ none, .char 99, .char 10]
  have hending : ((Editor.opened (some [])).run 7
      [.char 97, .char 98, .left, .char 99, .enter]).ending = some (.entered [97, 99, 98]) := by decide
  have hhistory := h.entered [97, 99, 98] hending (by decide)
  exact ⟨h.result.trans (congrArg _ hending), (h.bytes _ hending).2, hhistory⟩

end LineRead

end HouseOS.Tty
