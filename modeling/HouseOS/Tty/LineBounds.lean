import HouseOS.Tty.LineEditor
import HouseOS.Tty.LineRead

namespace HouseOS.Tty

open HouseOS.ByteMem
open HouseOS.Keyboard (KeyEvent)

def charKey (c : UInt8) : EditKey :=
  let c := fromReturn c
  if c = 4 then .eof
  else if c = 3 then .interrupt
  else if c = 10 then .enter
  else if c = 8 ∨ c = 127 then .erase
  else if 32 ≤ c then .char c
  else .other

def eventCharKey (layout : Nat) (ev : KeyEvent) (queued : Option UInt8) : EditKey :=
  let c := ttyTakeInputChar layout ev queued
  if c = 4 then .eof
  else if c = 3 then .interrupt
  else if c = 10 ∨ ev.scancode = Keyboard.keyEnter then .enter
  else if c = 8 ∨ ev.scancode = Keyboard.keyBackspace ∨ ev.scancode = keyDel then .erase
  else if 32 ≤ c ∧ c < 127 then .char c
  else .other

def keyOf (layout : Nat) : Handled → EditKey
  | .char c => charKey c
  | .event ev queued =>
      if !ev.pressed then .other
      else if ev.scancode = keyLeft then .left
      else if ev.scancode = keyRight then .right
      else if ev.scancode = keyHome then .home
      else if ev.scancode = keyEnd then .fin
      else if ev.scancode = keyUp then .up
      else if ev.scancode = keyDown then .down
      else eventCharKey layout ev queued

namespace LineRead

variable {s s' s'' : LineRead} {layout : Nat}

def press (s : LineRead) : EditKey → LineRead
  | .char c => if s.n < s.size - 1 then s.insert c else s
  | .erase => s.erase
  | .left => if 0 < s.cursor then { s with cursor := s.cursor - 1 } else s
  | .right => if s.cursor < s.n then { s with cursor := s.cursor + 1 } else s
  | .home => if 0 < s.cursor then { s with cursor := 0 } else s
  | .fin => if s.cursor < s.n then { s with cursor := s.n } else s
  | .up => s.up
  | .down => s.down
  | .enter => s.enter
  | .interrupt => { s with result := some (-1) }
  | .eof => { s with result := some 0 }
  | .other => s

-- the compare of the event's character is signed
theorem signed_printable (c : UInt8) :
    (c = 0 ∨ c.toInt8 < 32 ∨ c = 127) ↔ ¬(32 ≤ c ∧ c < 127) := by
  have hall : ∀ n < 256, (UInt8.ofNat n = 0 ∨ (UInt8.ofNat n).toInt8 < 32 ∨ UInt8.ofNat n = 127) ↔
      ¬(32 ≤ UInt8.ofNat n ∧ UInt8.ofNat n < 127) := by decide +kernel
  have hc := hall c.toNat c.toNat_lt
  rwa [UInt8.ofNat_toNat] at hc

theorem queuedChar_eq (s : LineRead) (c : UInt8) : s.queuedChar c = s.press (charKey c) := by
  rw [queuedChar, charKey]
  generalize fromReturn c = c
  by_cases heof : c = 4
  · rw [heof]
    rfl
  by_cases hint : c = 3
  · rw [hint]
    rfl
  have hctrl : ctrlChar? c = none := by rw [ctrlChar?, if_neg heof, if_neg hint]
  simp only [hctrl, if_neg heof, if_neg hint]
  by_cases henter : c = 10
  · rw [if_pos henter, if_pos henter, press]
  by_cases herase : c = 8 ∨ c = 127
  · rw [if_neg henter, if_neg henter, if_pos herase, if_pos herase, press]
  rw [if_neg henter, if_neg henter, if_neg herase, if_neg herase]
  have hdel : c ≠ 127 := fun h => herase (.inr h)
  by_cases hprint : 32 ≤ c
  · by_cases hroom : s.n < s.size - 1
    · rw [if_pos ⟨hprint, hdel, hroom⟩, if_pos hprint, press, if_pos hroom]
    · rw [if_neg fun h => hroom h.2.2, if_pos hprint, press, if_neg hroom]
  · rw [if_neg fun h => hprint h.1, if_neg hprint, press]

theorem eventChar_eq (s : LineRead) (layout : Nat) (ev : KeyEvent) (queued : Option UInt8) :
    s.eventChar layout ev queued = s.press (eventCharKey layout ev queued) := by
  rw [eventChar, eventCharKey]
  generalize ttyTakeInputChar layout ev queued = c
  by_cases heof : c = 4
  · rw [heof]
    rfl
  by_cases hint : c = 3
  · rw [hint]
    rfl
  have hctrl : ctrlChar? c = none := by rw [ctrlChar?, if_neg heof, if_neg hint]
  simp only [hctrl, if_neg heof, if_neg hint]
  by_cases henter : c = 10 ∨ ev.scancode = Keyboard.keyEnter
  · rw [if_pos henter, if_pos henter, press]
  by_cases herase : c = 8 ∨ ev.scancode = Keyboard.keyBackspace ∨ ev.scancode = keyDel
  · rw [if_neg henter, if_neg henter, if_pos herase, if_pos herase, press]
  rw [if_neg henter, if_neg henter, if_neg herase, if_neg herase]
  by_cases hprint : 32 ≤ c ∧ c < 127
  · rw [if_neg fun h => (signed_printable c).mp h hprint, if_pos hprint, press]
  · rw [if_pos ((signed_printable c).mpr hprint), if_neg hprint, press]

theorem handle_eq (s : LineRead) (layout : Nat) (k : Handled) :
    s.handle layout k = s.press (keyOf layout k) := by
  cases k with
  | char c => exact s.queuedChar_eq c
  | event ev queued =>
    rw [handle, keyOf, eventChar_eq]
    split_ifs <;> simp only [press, *, if_true, if_false]

structure Bounded (s : LineRead) : Prop where
  size_ge : 2 ≤ s.size
  size_le : s.size ≤ historyLineMax
  cursor_le : s.cursor ≤ s.n
  n_le : s.n ≤ s.size - 1
  room : s.result = none → s.n < s.size - 1

structure KeepsOutside (s s' : LineRead) : Prop where
  size_eq : s'.size = s.size
  out_eq : ∀ x, s.size ≤ x → s'.out x = s.out x
  savedLine_eq : ∀ x, historyLineMax ≤ x → s'.savedLine x = s.savedLine x

structure Moves (s s' : LineRead) : Prop where
  outside : KeepsOutside s s'
  cursor_le : s'.cursor ≤ s'.n
  n_le : s'.n ≤ s.size - 1

theorem KeepsOutside.refl (s : LineRead) : KeepsOutside s s := ⟨rfl, fun _ _ => rfl, fun _ _ => rfl⟩

theorem KeepsOutside.of_eq (hsize : s'.size = s.size) (hout : s'.out = s.out)
    (hsaved : s'.savedLine = s.savedLine) : KeepsOutside s s' :=
  ⟨hsize, fun _ _ => by rw [hout], fun _ _ => by rw [hsaved]⟩

theorem KeepsOutside.trans (h : KeepsOutside s s') (h' : KeepsOutside s' s'') :
    KeepsOutside s s'' := by
  refine ⟨h'.size_eq.trans h.size_eq, fun x hx => ?_, fun x hx => ?_⟩
  · rw [h'.out_eq x (h.size_eq ▸ hx), h.out_eq x hx]
  · rw [h'.savedLine_eq x hx, h.savedLine_eq x hx]

theorem Moves.of_outside (houtside : KeepsOutside s s') (h : Moves s' s'') : Moves s s'' := by
  refine ⟨houtside.trans h.outside, h.cursor_le, ?_⟩
  rw [← houtside.size_eq]
  exact h.n_le

theorem clipped_lt {size : Nat} (hsize : 2 ≤ size) (len : Nat) :
    (if size ≤ len then size - 1 else len) < size := by
  split <;> omega

namespace Bounded

theorem same (h : Bounded s) : Moves s s := ⟨.refl s, h.cursor_le, h.n_le⟩

theorem enter (h : Bounded s) (hroom : s.n < s.size - 1) : Moves s s.enter := by
  have hle := h.cursor_le
  refine ⟨⟨rfl, fun x hx => ?_, fun x _ => rfl⟩, hle.trans (Nat.le_succ _), hroom⟩
  exact (store8_ne _ (by omega)).trans (store8_ne _ (by omega))

theorem erase (h : Bounded s) : Moves s s.erase := by
  have hcursor := h.cursor_le
  have hn := h.n_le
  rw [LineRead.erase]
  split
  case isTrue hpos =>
    refine ⟨⟨rfl, fun x hx => copyFrom_out (.inr (by omega)), fun x _ => rfl⟩, ?_, ?_⟩
    · exact Nat.sub_le_sub_right hcursor 1
    · exact (Nat.sub_le _ _).trans hn
  case isFalse => exact h.same

theorem insert (h : Bounded s) (hroom : s.n < s.size - 1) (c : UInt8) : Moves s (s.insert c) := by
  have hcursor := h.cursor_le
  refine ⟨⟨rfl, fun x hx => ?_, fun x _ => rfl⟩, Nat.succ_le_succ hcursor, hroom⟩
  exact (store8_ne _ (by omega)).trans (copyFrom_out (.inr (by omega)))

theorem showEntry (h : Bounded s) : Moves s s.showEntry := by
  have hsize := h.size_ge
  rw [LineRead.showEntry]
  split
  · exact h.same
  · have hlen := clipped_lt hsize
    refine ⟨⟨rfl, fun x hx => copyFrom_out (.inr ?_), fun x _ => rfl⟩, le_rfl, ?_⟩
    · exact (Nat.zero_add _).trans_le ((hlen _).le.trans hx)
    · exact Nat.le_sub_one_of_lt (hlen _)

theorem saveLine (h : Bounded s) : KeepsOutside s s.saveLine := by
  have hn := h.n_le
  have hsize := h.size_le
  exact ⟨rfl, fun x _ => rfl, fun x hx => copyFrom_out (.inr (by omega))⟩

theorem stepBack (h : Bounded s) : Bounded s.stepBack ∧ KeepsOutside s s.stepBack := by
  rw [LineRead.stepBack]
  split
  · split
    · have hsave := h.saveLine
      exact ⟨⟨h.size_ge, h.size_le, h.cursor_le, h.n_le, h.room⟩, rfl, hsave.out_eq,
        hsave.savedLine_eq⟩
    · exact ⟨⟨h.size_ge, h.size_le, h.cursor_le, h.n_le, h.room⟩, rfl, fun _ _ => rfl,
        fun _ _ => rfl⟩
  · exact ⟨h, .refl s⟩

theorem restoreLine (h : Bounded s) : Moves s s.restoreLine := by
  have hsize := h.size_ge
  have hn : s.restoreLine.n < s.size := clipped_lt hsize s.savedLen
  refine ⟨⟨rfl, fun x hx => copyFrom_out (.inr ?_), fun x _ => rfl⟩, ?_, Nat.le_sub_one_of_lt hn⟩
  · exact (Nat.zero_add _).trans_le (hn.le.trans hx)
  · show (if s.savedCursor ≤ s.restoreLine.n then _ else s.restoreLine.n) ≤ s.restoreLine.n
    split
    case isTrue hle => exact hle
    case isFalse => exact le_rfl

theorem up (h : Bounded s) : Moves s s.up := by
  rw [LineRead.up]
  split
  · exact h.same
  · exact .of_outside h.stepBack.2 h.stepBack.1.showEntry

theorem down (h : Bounded s) : Moves s s.down := by
  rw [LineRead.down]
  split
  · exact h.same
  · split
    · have hbounded : Bounded { s with historyPos := s.historyPos - 1 } :=
        ⟨h.size_ge, h.size_le, h.cursor_le, h.n_le, h.room⟩
      have houtside : KeepsOutside s { s with historyPos := s.historyPos - 1 } := .of_eq rfl rfl rfl
      exact .of_outside houtside hbounded.showEntry
    · exact h.restoreLine

theorem press (h : Bounded s) (hroom : s.n < s.size - 1) (k : EditKey) : Moves s (s.press k) := by
  have hcursor := h.cursor_le
  have hmoved {c : Nat} (hc : c ≤ s.n) : Moves s { s with cursor := c } :=
    ⟨.of_eq rfl rfl rfl, hc, h.n_le⟩
  cases k with
  | char c =>
    rw [LineRead.press, if_pos hroom]
    exact h.insert hroom c
  | erase => exact h.erase
  | left =>
    rw [LineRead.press]
    split
    · exact hmoved ((Nat.sub_le _ _).trans hcursor)
    · exact h.same
  | right =>
    rw [LineRead.press]
    split
    case isTrue hlt => exact hmoved hlt
    case isFalse => exact h.same
  | home =>
    rw [LineRead.press]
    split
    · exact hmoved (Nat.zero_le _)
    · exact h.same
  | fin =>
    rw [LineRead.press]
    split
    · exact hmoved le_rfl
    · exact h.same
  | up => exact h.up
  | down => exact h.down
  | enter => exact h.enter hroom
  | interrupt => exact ⟨.of_eq rfl rfl rfl, hcursor, h.n_le⟩
  | eof => exact ⟨.of_eq rfl rfl rfl, hcursor, h.n_le⟩
  | other => exact h.same

theorem next (h : Bounded s) (layout : Nat) (k : Handled) :
    Bounded (s.next layout k) ∧ KeepsOutside s (s.next layout k) := by
  rw [LineRead.next]
  split
  · exact ⟨h, .refl s⟩
  case isFalse hnone =>
    have hmoves := h.press (h.room (not_not.mp hnone)) (keyOf layout k)
    rw [← handle_eq] at hmoves
    generalize s.handle layout k = t at hmoves
    have hsize := hmoves.outside.size_eq
    have hn := hsize ▸ hmoves.n_le
    have hge := hsize ▸ h.size_ge
    have hle := hsize ▸ h.size_le
    dsimp only
    split
    case isTrue hgo =>
      exact ⟨⟨hge, hle, hmoves.cursor_le, hn, hgo.resolve_left ∘ not_not.mpr⟩, hmoves.outside⟩
    case isFalse =>
      have hend : KeepsOutside t { t with out := store8 t.out t.n 0, result := some t.n } :=
        ⟨rfl, fun x hx => store8_ne 0 (by omega), fun _ _ => rfl⟩
      exact ⟨⟨hge, hle, hmoves.cursor_le, hn, fun hres => nomatch hres⟩, hmoves.outside.trans hend⟩

theorem run (h : Bounded s) (layout : Nat) (keys : List Handled) :
    Bounded (s.run layout keys) ∧ KeepsOutside s (s.run layout keys) := by
  induction keys generalizing s with
  | nil => exact ⟨h, .refl s⟩
  | cons k keys ih =>
    have hnext := h.next layout k
    have hrest := ih hnext.1
    exact ⟨hrest.1, hnext.2.trans hrest.2⟩

theorem started {size : Nat} (hsize : 2 ≤ size) (out savedLine : Mem) (history : HistoryRing) :
    Bounded (.started size out savedLine history) := by
  have hclip : (if historyLineMax < size then historyLineMax else size) ≤ historyLineMax ∧
      2 ≤ (if historyLineMax < size then historyLineMax else size) := by
    rw [historyLineMax]
    split <;> omega
  have hpos : 0 < (if historyLineMax < size then historyLineMax else size) - 1 := by omega
  exact ⟨hclip.2, hclip.1, le_rfl, Nat.zero_le _, fun _ => hpos⟩

end Bounded

end LineRead

end HouseOS.Tty
