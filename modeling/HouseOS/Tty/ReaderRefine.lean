import HouseOS.Tty.LineRefine

namespace HouseOS.Tty

open HouseOS.ByteMem (BytesAt)
open HouseOS.Keyboard (KeyEvent)

def charEdit (scan : Scan) (c : UInt8) (raw : Bool) : EditKey :=
  if c = 4 then .eof
  else if c = 3 then .interrupt
  else if c = 10 ∨ scan = .enter then .enter
  else if c = 8 ∨ (raw ∧ c = 127) ∨ scan = .erase then .erase
  else if isPrintable c ∧ (raw ∨ c < 128) then .char c
  else .other

def Key.edit : Key → EditKey
  | .queued c => charEdit .other (fromReturn c) true
  | .event .left _ => .left
  | .event .right _ => .right
  | .event .home _ => .home
  | .event .fin _ => .fin
  | .event .up _ => .up
  | .event .down _ => .down
  | .event scan c => charEdit scan c false

namespace Editor

variable {e : Editor} {cap : Nat} {k : EditKey}

-- only the enter key puts in a new line, and it ends the call
structure Plain (e : Editor) : Prop where
  line : 10 ∉ e.before ++ e.after
  saved : 10 ∉ e.saved.1 ++ e.saved.2
  history : ∀ l ∈ e.history.getD [], 10 ∉ l

theorem Plain.setLine (h : e.Plain) {xs ys : Line} (hline : 10 ∉ xs ++ ys) : (e.setLine xs ys).Plain :=
  ⟨hline, h.saved, h.history⟩

theorem Plain.showLine (h : e.Plain) {entry : Line} (hentry : 10 ∉ entry) (pos : Nat) :
    (e.showLine cap pos entry).Plain := by
  refine ⟨?_, h.saved, h.history⟩
  rw [Editor.showLine, List.append_nil]
  exact fun hmem => hentry (List.mem_of_mem_take hmem)

theorem Plain.entry (h : e.Plain) (pos : Nat) : 10 ∉ (e.history.getD []).getD pos [] := by
  by_cases hlt : pos < (e.history.getD []).length
  · rw [List.getD_eq_getElem _ _ hlt]
    exact h.history _ (List.getElem_mem hlt)
  · rw [List.getD_eq_default _ _ (by omega)]
    exact List.not_mem_nil

theorem Plain.older (h : e.Plain) : (e.older cap).Plain := by
  rw [Editor.older]
  split
  · exact h
  · rename_i latest lines hlines hpos
    have hsaved : Plain { e with saved := (e.before, e.after) } := ⟨h.line, h.line, h.history⟩
    refine hsaved.showLine (h.history latest ?_) 0
    rw [hlines]
    exact List.mem_cons_self
  · exact h.showLine (h.entry _) _

theorem Plain.newer (h : e.Plain) : (e.newer cap).Plain := by
  rw [Editor.newer]
  split
  · exact h
  · exact ⟨h.saved, h.saved, h.history⟩
  · exact h.showLine (h.entry _) _

theorem Plain.press (h : e.Plain) (hk : k ≠ .char 10) (henter : k ≠ .enter) : (e.press cap k).Plain := by
  have hline := h.line
  rw [List.mem_append, not_or] at hline
  cases k with
  | char c =>
    refine h.setLine ?_
    simp only [List.mem_append, List.mem_singleton, not_or]
    exact ⟨⟨hline.1, fun hc => hk (by rw [← hc])⟩, hline.2⟩
  | erase =>
    refine h.setLine fun hmem => h.line ?_
    rw [List.mem_append] at hmem ⊢
    exact hmem.imp_left fun hmem => (List.dropLast_sublist _).subset hmem
  | left => exact h.setLine (by rw [e.left_line]; exact h.line)
  | right => exact h.setLine (by rw [List.append_assoc, List.take_append_drop]; exact h.line)
  | home => exact h.setLine h.line
  | fin => exact h.setLine (by rw [List.append_nil]; exact h.line)
  | up => exact h.older
  | down => exact h.newer
  | enter => exact absurd rfl henter
  | interrupt => exact ⟨h.line, h.saved, h.history⟩
  | eof => exact ⟨h.line, h.saved, h.history⟩
  | other => exact h

end Editor

theorem charEdit_ne {scan : Scan} {c : UInt8} {raw : Bool} : charEdit scan c raw ≠ .char 10 := by
  rw [charEdit]
  intro h
  split_ifs at h with h1 h2 h3 h4 h5
  cases h
  exact h3 (.inl rfl)

theorem Key.edit_ne (k : Key) : k.edit ≠ .char 10 := by
  cases k with
  | queued c => exact charEdit_ne
  | event scan c =>
    cases scan with
    | left | right | home | fin | up | down => rintro ⟨⟩
    | enter | erase | other => exact charEdit_ne

namespace Reader

variable {r : Reader} {e : Editor} {xs ys : Line} {c : UInt8}

structure Shows (r : Reader) (e : Editor) : Prop where
  out_eq : r.out = e.before ++ e.after
  cursor_eq : r.cursor = e.before.length
  pos_eq : r.historyPos = e.historyPos
  pos_lt : ∀ pos, e.historyPos = some pos → pos < historyCount e.history
  saved : ∀ pos, e.historyPos = some pos → r.savedLine = e.saved.1 ++ e.saved.2 ∧
    r.savedCursor = e.saved.1.length ∧ r.savedLine.length ≤ r.size - 1
  running : r.done = false
  editing : e.ending = none

structure Ended (r : Reader) (e : Editor) (ending : Ending) : Prop where
  ending_eq : e.ending = some ending
  done : r.done = true
  entered : r.entered? = match ending with
    | .entered line => some line
    | _ => none

theorem Shows.setLine (h : Shows r e) {out : Line} (hout : out = xs ++ ys) {cursor : Nat}
    (hcursor : cursor = xs.length) : Shows { r with out := out, cursor := cursor } (e.setLine xs ys) :=
  ⟨hout, hcursor, h.pos_eq, h.pos_lt, h.saved, h.running, h.editing⟩

theorem Shows.moveTo (h : Shows r e) (hsame : xs ++ ys = e.before ++ e.after) {cursor : Nat}
    (hcursor : cursor = xs.length) : Shows { r with cursor := cursor } (e.setLine xs ys) :=
  h.setLine (h.out_eq.trans hsame.symm) hcursor

theorem Shows.take_out (h : Shows r e) : r.out.take r.cursor = e.before := by
  rw [h.out_eq, h.cursor_eq, List.take_left]

theorem Shows.drop_out (h : Shows r e) : r.out.drop r.cursor = e.after := by
  rw [h.out_eq, h.cursor_eq, List.drop_left]

theorem Shows.insert (h : Shows r e) (c : UInt8) :
    Shows (r.insert c).1 (e.setLine (e.before ++ [c]) e.after) := by
  refine h.setLine ?_ ?_
  · rw [h.take_out, h.drop_out, List.append_assoc, List.singleton_append]
  · rw [List.length_append, List.length_singleton, h.cursor_eq]

theorem Shows.erase (h : Shows r e) : Shows r.erase.1 (e.setLine e.before.dropLast e.after) := by
  have hcursor := h.cursor_eq
  rw [Reader.erase]
  split
  case isTrue hzero =>
    have hnil : e.before = [] := List.length_eq_zero_iff.mp (by omega)
    refine h.moveTo ?_ ?_
    · rw [hnil]
      rfl
    · rw [hnil, hcursor, hnil]
      rfl
  case isFalse hpos =>
    refine h.setLine ?_ ?_
    · rw [h.out_eq, List.eraseIdx_append_of_lt_length (by omega), hcursor, List.eraseIdx_length_sub_one]
    · rw [List.length_dropLast, hcursor]

theorem historyGet_eq {history : History} {pos : Nat} (h : pos < historyCount history) :
    historyGet history pos = some ((history.getD []).getD pos []) := by
  cases history with
  | none => cases h
  | some lines =>
    have hlt : pos < lines.length := h
    rw [historyGet, Option.bind_some, List.getElem?_eq_getElem hlt, Option.getD_some,
      List.getD_eq_getElem _ _ hlt]

theorem shows_entry {pos : Nat} (hlt : pos < historyCount e.history)
    (hsaved : r.savedLine = e.saved.1 ++ e.saved.2 ∧ r.savedCursor = e.saved.1.length ∧
      r.savedLine.length ≤ r.size - 1)
    (hrun : r.done = false) (hedit : e.ending = none) :
    let line := ((e.history.getD []).getD pos []).take (r.size - 1)
    Shows ({ r with historyPos := some pos }.redraw line line.length).1
      (e.showLine (r.size - 1) pos ((e.history.getD []).getD pos [])) := by
  refine ⟨?_, rfl, rfl, ?_, fun _ _ => hsaved, hrun, hedit⟩
  · rw [Editor.showLine, List.append_nil]
    rfl
  · rintro _ ⟨⟩
    exact hlt

theorem Shows.up (h : Shows r e) (hroom : r.out.length ≤ r.size - 1) :
    Shows (r.up e.history).1 (e.older (r.size - 1)) := by
  have hcount : historyCount e.history = (e.history.getD []).length := rfl
  rw [Reader.up, Editor.older, h.pos_eq]
  cases hlines : e.history.getD [] with
  | nil =>
    rw [hlines, List.length_nil] at hcount
    rw [if_pos hcount]
    exact h
  | cons latest lines =>
    rw [hlines, List.length_cons] at hcount
    rw [if_neg (by omega)]
    cases hpos : e.historyPos with
    | none =>
      have hlt : 0 < historyCount e.history := by omega
      have hfirst : latest = (e.history.getD []).getD 0 [] := by rw [hlines]; rfl
      dsimp only [Option.getD_some]
      rw [historyGet_eq hlt, hfirst]
      exact shows_entry (r := { r with savedLine := r.out, savedCursor := r.cursor })
        (e := { e with saved := (e.before, e.after) }) hlt ⟨h.out_eq, h.cursor_eq, hroom⟩ h.running
        h.editing
    | some pos =>
      have hlt := h.pos_lt pos hpos
      have hsaved := h.saved pos hpos
      dsimp only
      rw [← hlines, hcount]
      by_cases hlast : pos + 1 < (e.history.getD []).length
      · rw [if_pos (by rw [hlines, List.length_cons] at hlast; omega), if_pos hlast]
        dsimp only [Option.getD_some]
        rw [historyGet_eq hlast]
        exact shows_entry hlast hsaved h.running h.editing
      · have hsame : r = { r with historyPos := some pos } := by rw [← hpos, ← h.pos_eq]
        rw [if_neg (by rw [hlines, List.length_cons] at hlast; omega), if_neg hlast, h.pos_eq, hpos,
          Option.getD_some, historyGet_eq hlt, hsame]
        exact shows_entry hlt hsaved h.running h.editing

theorem Shows.down (h : Shows r e) : Shows (r.down e.history).1 (e.newer (r.size - 1)) := by
  rw [Reader.down, Editor.newer, h.pos_eq]
  cases hpos : e.historyPos with
  | none => exact h
  | some pos =>
    have hlt := h.pos_lt pos hpos
    have hsaved := h.saved pos hpos
    cases pos with
    | zero =>
      obtain ⟨hline, hcursor, hfits⟩ := hsaved
      have hlen : r.savedCursor ≤ r.savedLine.length := by
        rw [hline, hcursor, List.length_append]
        exact Nat.le_add_right _ _
      dsimp only
      rw [List.take_of_length_le hfits, min_eq_left hlen]
      exact ⟨hline, hcursor, rfl, by rintro _ ⟨⟩, by rintro _ ⟨⟩, h.running, h.editing⟩
    | succ pos =>
      dsimp only
      rw [historyGet_eq (Nat.lt_of_succ_lt hlt)]
      exact shows_entry (Nat.lt_of_succ_lt hlt) hsaved h.running h.editing

theorem entered?_none (h : 10 ∉ r.out) : r.entered? = none := by
  rw [entered?, if_neg]
  rintro ⟨-, -, -, hlast⟩
  exact h (List.mem_of_getLast? hlast)

theorem Shows.plain_out (h : Shows r e) (hp : e.Plain) : 10 ∉ r.out := by
  rw [h.out_eq]
  exact hp.line

theorem Shows.enter (h : Shows r e) (hsize : r.size ≠ 1) (hvesa : r.vga = false) (cap : Nat) :
    Ended r.enter.1 (e.press cap .enter) (.entered e.line) := by
  refine ⟨rfl, rfl, ?_⟩
  have hlast : (r.out ++ [10]).getLast? = some 10 := List.getLast?_concat
  show (if true = true ∧ r.size ≠ 1 ∧ ¬r.vga = true ∧ (r.out ++ [10]).getLast? = some 10 then
    some (r.out ++ [10]).dropLast else none) = some e.line
  rw [if_pos ⟨rfl, hsize, by rw [hvesa]; exact Bool.false_ne_true, hlast⟩, List.dropLast_concat, h.out_eq]
  rfl

def Alike (r : Reader) (e : Editor) : Prop := Shows r e ∨ ∃ ending, Ended r e ending

theorem Shows.vesaChar (h : Shows r e) (hp : e.Plain) (hsize : r.size ≠ 1) (hvesa : r.vga = false)
    (type : TtyType) (scan : Scan) (c : UInt8) (raw : Bool) (cap : Nat) :
    Alike (r.vesaChar type scan c raw).1 (e.press cap (charEdit scan c raw)) := by
  rw [Reader.vesaChar, charEdit]
  split_ifs with heof hint henter herase hprint
  · exact .inr ⟨.eof, rfl, rfl, entered?_none (h.plain_out hp)⟩
  · exact .inr ⟨.interrupted, rfl, rfl, entered?_none (h.plain_out hp)⟩
  · exact .inr ⟨_, h.enter hsize hvesa cap⟩
  · exact .inl h.erase
  · exact .inl (h.insert c)
  · exact .inl h

theorem Shows.vesaKey (h : Shows r e) (hp : e.Plain) (hsize : r.size ≠ 1) (hvesa : r.vga = false)
    (hroom : r.out.length ≤ r.size - 1) (type : TtyType) (k : Key) :
    Alike (r.vesaKey type e.history k).1 (e.press (r.size - 1) k.edit) := by
  have hcursor := h.cursor_eq
  have hlen : r.out.length = e.before.length + e.after.length := by
    rw [h.out_eq, List.length_append]
  cases k with
  | queued c => exact h.vesaChar hp hsize hvesa type _ _ _ _
  | event scan c =>
    cases scan with
    | left =>
      refine .inl ?_
      rw [Reader.vesaKey, Key.edit, Editor.press]
      split
      · refine h.moveTo e.left_line ?_
        rw [List.length_dropLast]
        omega
      · refine h.moveTo e.left_line ?_
        rw [List.length_dropLast, hcursor]
    | right =>
      refine .inl ?_
      have hsame : e.before ++ e.after.take 1 ++ e.after.drop 1 = e.before ++ e.after := by
        rw [List.append_assoc, List.take_append_drop]
      rw [Reader.vesaKey, Key.edit, Editor.press]
      split
      · refine h.moveTo hsame ?_
        rw [List.length_append, List.length_take]
        omega
      · refine h.moveTo hsame ?_
        rw [List.length_append, List.length_take]
        omega
    | home =>
      refine .inl ?_
      have hsame : [] ++ e.line = e.before ++ e.after := rfl
      rw [Reader.vesaKey, Key.edit, Editor.press]
      split
      case isTrue hzero => exact h.moveTo hsame hzero
      case isFalse => exact h.moveTo hsame rfl
    | fin =>
      refine .inl ?_
      have hsame : e.line ++ [] = e.before ++ e.after := List.append_nil _
      rw [Reader.vesaKey, Key.edit, Editor.press]
      split
      · refine h.moveTo hsame ?_
        rw [Editor.line, List.length_append]
        omega
      · exact h.moveTo hsame (congrArg List.length h.out_eq)
    | up => exact .inl (h.up hroom)
    | down => exact .inl h.down
    | enter | erase | other => exact h.vesaChar hp hsize hvesa type _ _ _ _

theorem vesaKey_kept (r : Reader) (type : TtyType) (history : History) (k : Key) :
    (r.vesaKey type history k).1.size = r.size ∧ (r.vesaKey type history k).1.vga = r.vga := by
  have hchar (scan : Scan) (c : UInt8) (raw : Bool) :
      (r.vesaChar type scan c raw).1.size = r.size ∧ (r.vesaChar type scan c raw).1.vga = r.vga := by
    rw [Reader.vesaChar]
    split_ifs
    · exact ⟨rfl, rfl⟩
    · exact ⟨rfl, rfl⟩
    · exact ⟨rfl, rfl⟩
    · rw [Reader.erase]
      split <;> exact ⟨rfl, rfl⟩
    · exact ⟨rfl, rfl⟩
    · exact ⟨rfl, rfl⟩
  cases k with
  | queued c => exact hchar _ _ _
  | event scan c =>
    cases scan with
    | left | right | home | fin =>
      rw [Reader.vesaKey]
      split <;> exact ⟨rfl, rfl⟩
    | up =>
      rw [Reader.vesaKey, Reader.up]
      split
      · exact ⟨rfl, rfl⟩
      · cases r.historyPos with
        | none =>
          dsimp only
          split <;> exact ⟨rfl, rfl⟩
        | some pos =>
          dsimp only
          split_ifs <;> split <;> exact ⟨rfl, rfl⟩
    | down =>
      rw [Reader.vesaKey, Reader.down]
      split
      · exact ⟨rfl, rfl⟩
      · exact ⟨rfl, rfl⟩
      · dsimp only
        split <;> exact ⟨rfl, rfl⟩
    | enter | erase | other => exact hchar _ _ _

-- under way in step with room left, or ended alike
structure Refines (r : Reader) (e : Editor) : Prop where
  vesa : r.vga = false
  sized : r.size ≠ 1
  plain : e.ending = none → e.Plain
  alike : Shows r e ∧ r.out.length < r.size - 1 ∨ ∃ ending, Ended r e ending

theorem filled_eq {acts : List Act} : (r.filled acts).1 =
    if r.done = true ∨ r.out.length < r.size - 1 then r else { r with done := true } := by
  rw [filled]
  split
  · rfl
  · rfl

theorem Shows.filled (h : Shows r e) (hp : e.Plain) (hvesa : r.vga = false) (hsize : r.size ≠ 1)
    (acts : List Act) : Refines (r.filled acts).1 (e.fill (r.size - 1)) := by
  have hlen : e.line.length = r.out.length := congrArg List.length h.out_eq.symm
  rw [filled_eq, Editor.fill, h.running, h.editing]
  by_cases hroom : r.out.length < r.size - 1
  · rw [if_pos (.inr hroom), if_neg (by rw [hlen]; omega)]
    exact ⟨hvesa, hsize, fun _ => hp, .inl ⟨h, hroom⟩⟩
  · rw [if_neg (by simpa using hroom), if_pos ⟨rfl, by rw [hlen]; omega⟩]
    refine ⟨hvesa, hsize, by rintro ⟨⟩, .inr ⟨.full e.line, rfl, rfl, ?_⟩⟩
    exact entered?_none (r := { r with done := true }) (h.plain_out hp)

theorem Ended.filled {ending : Ending} (h : Ended r e ending) (hvesa : r.vga = false)
    (hsize : r.size ≠ 1) (acts : List Act) : Refines (r.filled acts).1 (e.fill (r.size - 1)) := by
  have hstop : ¬(e.ending = none ∧ r.size - 1 ≤ e.line.length) := by
    rw [h.ending_eq]
    exact fun hnone => Option.some_ne_none _ hnone.1
  rw [filled_eq, if_pos (.inl h.done), Editor.fill, if_neg hstop]
  refine ⟨hvesa, hsize, fun hnone => ?_, .inr ⟨ending, h⟩⟩
  rw [h.ending_eq] at hnone
  cases hnone
theorem key_eq (hsize : r.size ≠ 1) (hvesa : r.vga = false) (type : TtyType) (history : History)
    (k : Key) : r.key type history k =
      (r.vesaKey type history k).1.filled (r.vesaKey type history k).2 := by
  unfold Reader.key
  rw [if_neg hsize, if_neg (by rw [hvesa]; exact Bool.false_ne_true)]

theorem Refines.key (h : Refines r e) (hrun : r.done = false) (type : TtyType) (k : Key) :
    Refines (r.key type e.history k).1 (e.step (r.size - 1) k.edit) := by
  obtain ⟨hvesa, hsize, hplain, ⟨hshows, hroom⟩ | ⟨ending, hended⟩⟩ := h
  · obtain ⟨hsize', hvesa'⟩ := vesaKey_kept r type e.history k
    have hp := hplain hshows.editing
    rw [key_eq hsize hvesa, Editor.step, if_pos hshows.editing, ← hsize']
    rw [← hsize'] at hsize
    rw [← hvesa'] at hvesa
    have halike := hshows.vesaKey hp (hsize' ▸ hsize) (hvesa' ▸ hvesa) hroom.le type k
    rw [← hsize'] at halike
    rcases halike with hnext | ⟨ending, hended⟩
    · refine hnext.filled (hp.press k.edit_ne fun henter => ?_) hvesa hsize _
      have hediting := hnext.editing
      rw [henter] at hediting
      cases hediting
    · exact hended.filled hvesa hsize _
  · rw [hended.done] at hrun
    cases hrun

-- a reader alone at its keys, with the history of its device
def next (type : TtyType) (p : Reader × History) (k : Key) : Reader × History :=
  if p.1.done then p
  else
    ((p.1.key type p.2 k).1,
      match (p.1.key type p.2 k).1.entered? with
      | none => p.2
      | some line => historyStore p.2 line)

theorem perform_key (type : TtyType) (p : Reader × History) (k : Key) :
    (Session.perform type ⟨p.2, [p.1]⟩ (.key 0 k)).1 = ⟨(next type p k).2, [(next type p k).1]⟩ := by
  show (if p.1.done then _ else _ : Session × List Act).1 = _
  rw [next]
  split
  · rfl
  · rfl

theorem Refines.next {p : Reader × History} (h : Refines p.1 e) (hhistory : p.2 = e.history)
    (type : TtyType) (k : Key) :
    Refines (next type p k).1 (e.step (p.1.size - 1) k.edit) ∧
      (Reader.next type p k).2 = (e.step (p.1.size - 1) k.edit).history := by
  rw [Reader.next]
  by_cases hrun : p.1.done = true
  · rw [if_pos hrun]
    have hstop : e.ending ≠ none := by
      rcases h.alike with ⟨hshows, -⟩ | ⟨ending, hended⟩
      · rw [hshows.running] at hrun
        cases hrun
      · rw [hended.ending_eq]
        exact Option.some_ne_none _
    rw [Editor.step, if_neg hstop]
    exact ⟨h, hhistory⟩
  · rw [Bool.not_eq_true] at hrun
    have hediting : e.ending = none := by
      rcases h.alike with ⟨hshows, -⟩ | ⟨ending, hended⟩
      · exact hshows.editing
      · rw [hended.done] at hrun
        cases hrun
    rw [if_neg (by rw [hrun]; exact Bool.false_ne_true), hhistory]
    have hkey := h.key hrun type k
    have hstores : Editor.Stores e.history (e.step (p.1.size - 1) k.edit) :=
      Editor.stores_step (Editor.stores_of_none hediting rfl) k.edit
    refine ⟨hkey, ?_⟩
    rw [hstores]
    dsimp only
    rcases hkey.alike with ⟨hshows, -⟩ | ⟨ending, hended⟩
    · rw [hshows.editing, entered?, if_neg]
      rw [hshows.running]
      exact fun hdone => Bool.false_ne_true hdone.1
    · rw [hended.ending_eq, hended.entered]
      cases ending with
      | entered line => rfl
      | full | eof | interrupted => rfl

theorem next_size (type : TtyType) (p : Reader × History) (k : Key) (hvesa : p.1.vga = false)
    (hsize : p.1.size ≠ 1) : (next type p k).1.size = p.1.size := by
  rw [next]
  split
  · rfl
  · show (p.1.key type p.2 k).1.size = p.1.size
    rw [key_eq hsize hvesa, filled_eq]
    split_ifs <;> exact (vesaKey_kept p.1 type p.2 k).1

theorem refines_run (type : TtyType) (keys : List Key) {p : Reader × History} {e : Editor}
    (h : Refines p.1 e) (hhistory : p.2 = e.history) :
    Refines (keys.foldl (next type) p).1 (e.run (p.1.size - 1) (keys.map Key.edit)) ∧
      (keys.foldl (next type) p).2 = (e.run (p.1.size - 1) (keys.map Key.edit)).history := by
  induction keys generalizing p e with
  | nil => exact ⟨h, hhistory⟩
  | cons k keys ih =>
    obtain ⟨hnext, hkept⟩ := h.next hhistory type k
    have hrest := ih hnext hkept
    rw [next_size type p k h.vesa h.sized] at hrest
    exact hrest

end Reader

def scanOf (scancode : UInt8) : Scan :=
  if scancode = keyLeft then .left
  else if scancode = keyRight then .right
  else if scancode = keyHome then .home
  else if scancode = keyEnd then .fin
  else if scancode = keyUp then .up
  else if scancode = keyDown then .down
  else if scancode = Keyboard.keyEnter then .enter
  else if scancode = Keyboard.keyBackspace ∨ scancode = keyDel then .erase
  else .other

def Handled.key? (layout : Nat) : Handled → Option Key
  | .char c => some (.queued c)
  | .event ev queued =>
      if ev.pressed then some (.event (scanOf ev.scancode) (ttyTakeInputChar layout ev queued)) else none

theorem charKey_eq (c : UInt8) : charKey c = charEdit .other (fromReturn c) true := by
  rw [charKey, charEdit]
  generalize fromReturn c = c
  simp only [reduceCtorEq, or_false, true_and, true_or, and_true, isPrintable, decide_eq_true_eq]
  split_ifs with heof hint henter herase hprint hboth
  · rfl
  · rfl
  · rfl
  · rfl
  · rfl
  · exact absurd ⟨hprint, fun h => herase (.inr h)⟩ hboth
  · rename_i hboth
    exact absurd hboth.1 hprint
  · rfl

theorem eventCharKey_eq (layout : Nat) (ev : KeyEvent) (queued : Option UInt8) {scan : Scan}
    (henter : ev.scancode = Keyboard.keyEnter ↔ scan = .enter)
    (herase : ev.scancode = Keyboard.keyBackspace ∨ ev.scancode = keyDel ↔ scan = .erase) :
    eventCharKey layout ev queued = charEdit scan (ttyTakeInputChar layout ev queued) false := by
  have hprint (c : UInt8) : 32 ≤ c ∧ c < 127 ↔ isPrintable c = true ∧ c < 128 := by
    simp only [isPrintable, decide_eq_true_eq, ne_eq, UInt8.le_iff_toNat_le, UInt8.lt_iff_toNat_lt,
      ← UInt8.toNat_inj, UInt8.reduceToNat]
    omega
  rw [eventCharKey, charEdit]
  simp only [henter, herase, hprint, Bool.false_eq_true, false_and, false_or]

theorem keyOf_eq (layout : Nat) (k : Handled) : keyOf layout k = match k.key? layout with
    | some key => key.edit
    | none => .other := by
  cases k with
  | char c => exact charKey_eq c
  | event ev queued =>
    rw [keyOf, Handled.key?]
    cases ev.pressed with
    | false => rfl
    | true =>
      rw [if_neg (by decide), if_pos rfl]
      dsimp only
      rw [scanOf]
      split_ifs with hleft hright hhome hend hup hdown henter herase
      · rfl
      · rfl
      · rfl
      · rfl
      · rfl
      · rfl
      · refine eventCharKey_eq layout ev queued (iff_of_true henter rfl) (iff_of_false ?_ (by decide))
        rw [henter]
        decide
      · exact eventCharKey_eq layout ev queued (iff_of_false henter (by decide)) (iff_of_true herase rfl)
      · exact eventCharKey_eq layout ev queued (iff_of_false henter (by decide))
          (iff_of_false herase (by decide))

-- the call on its buffers and the reader of the terminal model hold the same line
structure SameLine (s : LineRead) (p : Reader × History) : Prop where
  done : p.1.done = true ↔ s.result ≠ none
  line : p.1.done = false →
    s.n = p.1.out.length ∧ s.cursor = p.1.cursor ∧ BytesAt s.out 0 p.1.out
  entered : ∀ line, p.1.entered? = some line →
    s.result = some (Ending.entered line).result ∧ BytesAt s.out 0 (line ++ [10])
  history : s.history.lines = p.2

section Same

variable {s : LineRead} {p : Reader × History} {e : Editor} {layout : Nat}

theorem sameLine_of_refines (hs : s.Refines e) (hr : p.1.Refines e) (hhistory : p.2 = e.history) :
    SameLine s p := by
  obtain ⟨hvesa, hsize, hplain, hr⟩ := hr
  rcases hs with ⟨hs, -⟩ | ⟨ending, hs⟩
  · have hr : Reader.Shows p.1 e := by
      rcases hr with ⟨hr, -⟩ | ⟨ending, hr⟩
      · exact hr
      · have hnone := hs.editing
        rw [hr.ending_eq] at hnone
        cases hnone
    refine ⟨?_, fun _ => ⟨?_, ?_, ?_⟩, fun line hline => ?_, hs.history.trans hhistory.symm⟩
    · rw [hr.running, hs.running]
      exact iff_of_false Bool.false_ne_true fun h => h rfl
    · rw [hs.n_eq, hr.out_eq]
    · rw [hs.cursor_eq, hr.cursor_eq]
    · rw [hr.out_eq]
      exact hs.line
    · rw [Reader.entered?, hr.running, if_neg fun h => Bool.false_ne_true h.1] at hline
      cases hline
  · have hr : Reader.Ended p.1 e ending := by
      rcases hr with ⟨hr, -⟩ | ⟨ending', hr⟩
      · have hnone := hr.editing
        rw [hs.ending_eq] at hnone
        cases hnone
      · have hsame := hr.ending_eq
        rw [hs.ending_eq] at hsame
        cases hsame
        exact hr
    refine ⟨?_, fun hrun => ?_, fun line hline => ?_, hs.history.trans hhistory.symm⟩
    · rw [hr.done, hs.result]
      exact iff_of_true rfl (Option.some_ne_none _)
    · rw [hr.done] at hrun
      cases hrun
    · rw [hr.entered] at hline
      cases ending with
      | entered line' =>
        cases hline
        exact ⟨hs.result, hs.bytes⟩
      | full | eof | interrupted => cases hline

theorem step_other (hr : p.1.Refines e) : e.step (p.1.size - 1) .other = e := by
  rw [Editor.step]
  rcases hr.alike with ⟨hr, hroom⟩ | ⟨ending, hr⟩
  · have hlen : e.line.length = p.1.out.length := congrArg List.length hr.out_eq.symm
    rw [if_pos hr.editing, Editor.press, Editor.fill, if_neg]
    rw [hlen]
    omega
  · rw [if_neg]
    rw [hr.ending_eq]
    exact Option.some_ne_none _

theorem reader_run (hr : p.1.Refines e) (hhistory : p.2 = e.history) (type : TtyType)
    (keys : List Handled) :
    let p' := (keys.filterMap (Handled.key? layout)).foldl (Reader.next type) p
    let e' := e.run (p.1.size - 1) (keys.map (keyOf layout))
    p'.1.Refines e' ∧ p'.2 = e'.history := by
  induction keys generalizing p e with
  | nil => exact ⟨hr, hhistory⟩
  | cons k keys ih =>
    have hkey := keyOf_eq layout k
    dsimp only
    rw [List.map_cons, Editor.run, List.foldl_cons, hkey]
    cases hk : k.key? layout with
    | none =>
      rw [List.filterMap_cons_none hk]
      dsimp only
      rw [step_other hr]
      exact ih hr hhistory
    | some key =>
      rw [List.filterMap_cons_some hk, List.foldl_cons]
      obtain ⟨hnext, hkept⟩ := hr.next hhistory type key
      have hrest := ih hnext hkept
      rw [Reader.next_size type p key hr.vesa hr.sized] at hrest
      exact hrest

theorem reader_reads_line {size : Nat} (hsize : 2 ≤ size) (out savedLine : ByteMem.Mem)
    {history : HistoryRing} (hring : history.Terminated) (hplain : ∀ l ∈ history.lines.getD [], 10 ∉ l)
    (type : TtyType) (layout : Nat) (keys : List Handled) :
    SameLine ((LineRead.started size out savedLine history).run layout keys)
      ((keys.filterMap (Handled.key? layout)).foldl (Reader.next type)
        (.started false size, history.lines)) := by
  have hs := LineRead.refines_run (LineRead.Bounded.started hsize out savedLine history)
    (LineRead.refines_started hsize out savedLine hring) layout keys
  have hclip : (LineRead.started size out savedLine history).size = min size historyLineMax := by
    show (if historyLineMax < size then historyLineMax else size) = _
    split <;> omega
  have hmax : 2 ≤ min size historyLineMax := le_min hsize (by decide)
  have hstart : (Reader.started false size).Refines (.opened history.lines) := by
    refine ⟨rfl, ?_, fun _ => ⟨List.not_mem_nil, List.not_mem_nil, hplain⟩, .inl ⟨?_, ?_⟩⟩
    · show min size historyLineMax ≠ 1
      omega
    · exact ⟨rfl, rfl, rfl, by rintro _ ⟨⟩, by rintro _ ⟨⟩, rfl, rfl⟩
    · show 0 < min size historyLineMax - 1
      omega
  obtain ⟨hr, hhistory⟩ := reader_run (p := (.started false size, history.lines))
    hstart rfl type keys
  rw [hclip] at hs
  exact sameLine_of_refines hs hr hhistory

end Same

end HouseOS.Tty
