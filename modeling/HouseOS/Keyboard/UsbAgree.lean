import HouseOS.Keyboard.Keys
import HouseOS.Keyboard.Usb
import HouseOS.Library.Run
import Mathlib.Logic.Function.Basic
import Mathlib.Data.List.Perm.Basic

namespace HouseOS.Keyboard.Usb

open Decoder

-- the usages of the keys both keyboards have, with the prefix and the code of the press
def usages : List (UInt8 × Bool × UInt8) :=
  [(0x04, false, 0x1E), (0x05, false, 0x30), (0x06, false, 0x2E), (0x07, false, 0x20),
   (0x08, false, 0x12), (0x09, false, 0x21), (0x0A, false, 0x22), (0x0B, false, 0x23),
   (0x0C, false, 0x17), (0x0D, false, 0x24), (0x0E, false, 0x25), (0x0F, false, 0x26),
   (0x10, false, 0x32), (0x11, false, 0x31), (0x12, false, 0x18), (0x13, false, 0x19),
   (0x14, false, 0x10), (0x15, false, 0x13), (0x16, false, 0x1F), (0x17, false, 0x14),
   (0x18, false, 0x16), (0x19, false, 0x2F), (0x1A, false, 0x11), (0x1B, false, 0x2D),
   (0x1C, false, 0x15), (0x1D, false, 0x2C), (0x1E, false, 0x02), (0x1F, false, 0x03),
   (0x20, false, 0x04), (0x21, false, 0x05), (0x22, false, 0x06), (0x23, false, 0x07),
   (0x24, false, 0x08), (0x25, false, 0x09), (0x26, false, 0x0A), (0x27, false, 0x0B),
   (0x28, false, 0x1C), (0x29, false, 0x01), (0x2A, false, 0x0E), (0x2B, false, 0x0F),
   (0x2C, false, 0x39), (0x2D, false, 0x0C), (0x2E, false, 0x0D), (0x2F, false, 0x1A),
   (0x30, false, 0x1B), (0x31, false, 0x2B), (0x32, false, 0x2B), (0x33, false, 0x27),
   (0x34, false, 0x28), (0x35, false, 0x29), (0x36, false, 0x33), (0x37, false, 0x34),
   (0x38, false, 0x35), (0x39, false, 0x3A), (0x3A, false, 0x3B), (0x3B, false, 0x3C),
   (0x3C, false, 0x3D), (0x3D, false, 0x3E), (0x3E, false, 0x3F), (0x3F, false, 0x40),
   (0x40, false, 0x41), (0x41, false, 0x42), (0x42, false, 0x43), (0x43, false, 0x44),
   (0x44, false, 0x57), (0x45, false, 0x58), (0x46, true, 0x37), (0x47, false, 0x46),
   (0x49, true, 0x52), (0x4A, true, 0x47), (0x4B, true, 0x49), (0x4C, true, 0x53),
   (0x4D, true, 0x4F), (0x4E, true, 0x51), (0x4F, true, 0x4D), (0x50, true, 0x4B),
   (0x51, true, 0x50), (0x52, true, 0x48), (0x53, false, 0x45), (0x54, true, 0x35),
   (0x55, false, 0x37), (0x56, false, 0x4A), (0x57, false, 0x4E), (0x58, true, 0x1C),
   (0x59, false, 0x4F), (0x5A, false, 0x50), (0x5B, false, 0x51), (0x5C, false, 0x4B),
   (0x5D, false, 0x4C), (0x5E, false, 0x4D), (0x5F, false, 0x47), (0x60, false, 0x48),
   (0x61, false, 0x49), (0x62, false, 0x52), (0x63, false, 0x53), (0x64, false, 0x56),
   (0x65, true, 0x5D)]

def keyOf (extended : Bool) (code : UInt8) : Option Key :=
  if h : code < 0x80 ∧ code ≠ 0x60 ∧ code ≠ 0x61 then some ⟨extended, code, h⟩ else none

def usageKey (hid : UInt8) : Option Key := (usages.lookup hid).bind fun k => keyOf k.1 k.2

def capsUsage : UInt8 := 0x39

def pauseUsage : UInt8 := 0x48

def isFunctionUsage (hid : UInt8) : Bool := 0x3A ≤ hid && hid ≤ 0x41

-- ctrl, shift, alt and the system key, left and then right, as the bits of a report's first byte
def modKey (b : Fin 8) : Key :=
  match b with
  | 0 => ⟨false, 0x1D, by decide⟩
  | 1 => ⟨false, 0x2A, by decide⟩
  | 2 => ⟨false, 0x38, by decide⟩
  | 3 => ⟨true, 0x5B, by decide⟩
  | 4 => ⟨true, 0x1D, by decide⟩
  | 5 => ⟨false, 0x36, by decide⟩
  | 6 => ⟨true, 0x38, by decide⟩
  | 7 => ⟨true, 0x5C, by decide⟩

def maskOf (b : Fin 8) : UInt8 := UInt8.ofNat (2 ^ b.val)

section Characters

def typedChars (ascii : UInt8) (ctrl alt : Bool) : List UInt8 :=
  if ascii = 0 then [] else if ctrl then [ctrlChar ascii] else if alt then [] else [ascii]

def usbChars (hid : UInt8) (shift ctrl alt caps : Bool) : List UInt8 :=
  let sc := hidToSet1 hid
  typedChars (if sc < 255 then mapAt 0 (if shift ^^ caps then 1 else 0) sc else 0) ctrl alt

def extChars (code : UInt8) : List UInt8 :=
  if extKind code ≠ none ∨ extAscii code = 0 then [] else [extAscii code]

def plainChars (code : UInt8) (shift ctrl alt caps : Bool) : List UInt8 :=
  if keyF1 ≤ code && code ≤ keyF8 && (alt || (ctrl && shift)) then []
  else
    let row := if keyboardEffectiveShift code shift caps then 1 else 0
    typedChars (if scMax < code then 0 else mapAt 0 row code) ctrl alt

def ps2Chars (k : Key) (shift ctrl alt caps : Bool) : List UInt8 :=
  if k.extended then extChars k.code else plainChars k.code shift ctrl alt caps

def Matches (hid : UInt8) (ctrl alt caps : Bool) : Prop :=
  hid ≠ 0x58 ∧
    (alt = true ∧ ctrl = false ∨
      hid ∉ ([0x32, 0x4D, 0x50, 0x55, 0x59, 0x5C] : List UInt8) ∧
        (caps = false ∨ 0x04 ≤ hid ∧ hid ≤ 0x1D ∨
          hid ∈ ([0x28, 0x29, 0x2A, 0x2B, 0x2C] : List UInt8) ∨ capsUsage ≤ hid))

instance (hid : UInt8) (ctrl alt caps : Bool) : Decidable (Matches hid ctrl alt caps) :=
  inferInstanceAs (Decidable (_ ∧ _))

theorem usages_all {p : UInt8 → Key → Prop} [∀ hid k, Decidable (p hid k)]
    (hall : (usages.all fun u => (keyOf u.2.1 u.2.2).all fun k => decide (p u.1 k)) = true)
    {hid : UInt8} {k : Key} (h : usageKey hid = some k) : p hid k := by
  obtain ⟨v, hv, hk⟩ := Option.bind_eq_some_iff.mp h
  obtain ⟨l, r, husages, -⟩ := List.lookup_eq_some_iff.mp hv
  have hmem : (hid, v) ∈ usages := by
    rw [husages]
    exact List.mem_append_right l List.mem_cons_self
  have hone := List.all_eq_true.mp hall _ hmem
  rw [hk] at hone
  exact of_decide_eq_true hone

theorem matches_iff {hid : UInt8} {k : Key} (h : usageKey hid = some k)
    (shift ctrl alt caps : Bool) :
    ps2Chars k shift ctrl alt caps = usbChars hid shift ctrl alt caps ↔ Matches hid ctrl alt caps := by
  exact usages_all (p := fun hid k => ∀ shift ctrl alt caps : Bool,
    ps2Chars k shift ctrl alt caps = usbChars hid shift ctrl alt caps ↔ Matches hid ctrl alt caps)
    (by decide +kernel) h shift ctrl alt caps

theorem usageKey_plain {hid : UInt8} {k : Key} (h : usageKey hid = some k) :
    k.kind = none ∧ k.isCaps = decide (hid = capsUsage) ∧ hid ≠ 0 := by
  exact usages_all (p := fun hid k =>
    k.kind = none ∧ k.isCaps = decide (hid = capsUsage) ∧ hid ≠ 0) (by decide +kernel) h

theorem usageKey_function {hid : UInt8} {k : Key} (h : usageKey hid = some k) :
    k.isFunction = isFunctionUsage hid := by
  exact usages_all (p := fun hid k => k.isFunction = isFunctionUsage hid) (by decide +kernel) h

theorem function_silent {sc : UInt8} (h : (keyF1 ≤ sc && sc ≤ keyF8) = true) (shifted : Bool) :
    mapAt 0 (if shifted then 1 else 0) sc = 0 := by
  have hall : ∀ sc : UInt8, (keyF1 ≤ sc && sc ≤ keyF8) = true → ∀ shifted : Bool,
      mapAt 0 (if shifted then 1 else 0) sc = 0 := forall_byte (by decide +kernel)
  exact hall sc h shifted

end Characters

section Ps2

variable {s : Decoder}

theorem buffer_special (s : Decoder) (code : UInt8) (pressed : Bool) :
    (s.handleSpecialKey code pressed).buffer = s.buffer := by
  simp only [handleSpecialKey, echo]
  split_ifs <;> rfl

theorem buffer_noted (s : Decoder) (code keycode : UInt8) (pressed : Bool) :
    (s.noted code keycode pressed).buffer = s.buffer := by
  simp only [noted, handleCtrlAltCombo]
  split_ifs <;> rfl

theorem buffer_hotkey (hempty : s.buffer = []) (code : UInt8) : (s.hotkey code).buffer = [] := by
  simp only [hotkey]
  split_ifs <;> first | rfl | exact hempty

theorem put_empty (c : UInt8) : put keyboardBufferSize [] c = [c] := rfl

theorem putTyped_chars (hempty : s.buffer = []) (ascii : UInt8) :
    (s.putTyped ascii).buffer = typedChars ascii s.ctrlPressed s.altPressed := by
  have hput (c : UInt8) : (s.bufferPut c).buffer = [c] := by
    rw [bufferPut, hempty, put_empty]
  have hecho (t : Decoder) (as : List Action) : (t.echo as).buffer = t.buffer := by
    rw [echo]
    split <;> rfl
  rw [putTyped, typedChars]
  split_ifs
  · exact hempty
  · exact hput _
  · rw [hecho, hempty]
  · rw [hecho, hput]

theorem handleKey_chars (hempty : s.buffer = []) (hlayout : s.currentLayout = 0) (code : UInt8) :
    let t := s.handleSpecialKey code true
    (s.handleKey code true).buffer =
      plainChars code t.shiftPressed t.ctrlPressed t.altPressed t.capsLock := by
  intro t
  have hbuffer : t.buffer = [] := (buffer_special s code true).trans hempty
  have hzero : t.currentLayout = 0 := (handleSpecialKey_changes s code true).layout.trans hlayout
  rw [handleKey_down, plainChars]
  by_cases hhot : (keyF1 ≤ code && code ≤ keyF8 && (t.altPressed || (t.ctrlPressed && t.shiftPressed))) = true
  · exact (congrArg _ (if_pos hhot)).trans ((buffer_hotkey hbuffer code).trans (if_pos hhot).symm)
  · refine (congrArg _ (if_neg hhot)).trans (.trans ?_ (if_neg hhot).symm)
    have hevent (event : KeyEvent) : (t.eventBufferPut event).buffer = [] := hbuffer
    refine (putTyped_chars (hevent _) _).trans ?_
    rw [getAscii, hzero]
    rfl

theorem handleExtended_chars (hempty : s.buffer = []) (code : UInt8) (pressed : Bool) :
    (s.handleExtendedScancode code pressed).buffer = if pressed then extChars code else [] := by
  have hecho (t : Decoder) (as : List Action) : (t.echo as).buffer = t.buffer := by
    rw [echo]
    split <;> rfl
  have hput (t : Decoder) (ht : t.buffer = []) (c : UInt8) : (t.bufferPut c).buffer = [c] := by
    rw [bufferPut, ht, put_empty]
  have htyped (t : Decoder) (ht : t.buffer = []) :
      (if extAscii code ≠ 0 then t.bufferPut (extAscii code) else t).buffer =
        if extAscii code = 0 then [] else [extAscii code] := by
    by_cases hzero : extAscii code = 0
    · rw [if_neg (not_not.mpr hzero), if_pos hzero, ht]
    · rw [if_pos hzero, if_neg hzero, hput t ht]
  have hnone (kind : Kind) :
      (if some kind ≠ none ∨ extAscii code = 0 then [] else [extAscii code]) = [] :=
    if_pos (.inl (Option.some_ne_none kind))
  rw [handleExtendedScancode, extChars, extKind]
  by_cases hctrl : code = keyLctrl
  · rw [if_pos hctrl, if_pos hctrl, hnone, ite_self]
    exact hempty
  by_cases halt : code = keyLalt
  · rw [if_neg hctrl, if_neg hctrl, if_pos halt, if_pos halt, hnone, ite_self]
    exact hempty
  simp only [if_neg hctrl, if_neg halt, ne_eq, not_true_eq_false, false_or]
  cases pressed with
  | false => exact hempty
  | true =>
    refine htyped _ ?_
    rw [eventBufferPut]
    dsimp only
    split
    · rw [hecho, hempty]
    · exact hempty

theorem handleKey_released (hempty : s.buffer = []) (code : UInt8) :
    (s.handleKey code false).buffer = [] := by
  have hbuffer := (buffer_special s code false).trans hempty
  rw [handleKey_up]
  dsimp only
  split
  · exact hbuffer
  · exact hbuffer

theorem feed_chars (h : Ready s) (hempty : s.buffer = []) (hlayout : s.currentLayout = 0) (k : Key)
    (pressed : Bool) (hquiet : s.switches k pressed = false) :
    let t := s.feed (k.codes pressed)
    t.buffer = if pressed then
      ps2Chars k (t.flag .shift) (t.flag .ctrl) (t.flag .alt) t.capsLock else [] := by
  intro t
  cases hext : k.extended with
  | false =>
    have hnoted := (buffer_noted s (codeOf k.code pressed) k.code pressed).trans hempty
    have hsame := modes_noted s (codeOf k.code pressed) k.code pressed
    have hzero := hsame.layout.trans hlayout
    have ht : t = _ := feed_plain h hext pressed
    rw [ht]
    cases pressed with
    | false => exact handleKey_released hnoted k.code
    | true =>
      have hmodes := handleKey_modes (s.noted (codeOf k.code true) k.code true) k.code true
        (noted_quiet hext hquiet)
      rw [if_pos rfl, ps2Chars, hext, hmodes.flags, hmodes.flags, hmodes.flags, hmodes.caps]
      exact handleKey_chars hnoted hzero k.code
  | true =>
    have hnoted := (buffer_noted s.prefixed (codeOf k.code pressed) k.code pressed).trans hempty
    have ht : t = _ := feed_extended h hext pressed
    rw [ht, ps2Chars, hext, if_pos rfl]
    exact handleExtended_chars hnoted k.code pressed

end Ps2

section Reports

variable {d : UsbKbd} {r : Report} {hid : UInt8}

theorem inject_reaches {s : Decoder} (hempty : s.buffer = []) (scancode ascii : UInt8)
    (pressed shift ctrl alt caps : Bool) :
    ∃ t : Decoder, t.buffer = [] ∧
      ((keyF1 ≤ scancode && scancode ≤ keyF8) = false → t.ctrlPressed = ctrl ∧ t.altPressed = alt) ∧
      s.keyboardInjectEvent scancode ascii pressed shift ctrl alt caps =
        if pressed && ascii ≠ 0 then
          if t.ctrlPressed then t.bufferPut (ctrlChar ascii)
          else if !t.altPressed then t.bufferPut ascii
          else t
        else t := by
  refine ⟨_, ?_, fun hkey => ?_, rfl⟩
  · dsimp only [eventBufferPut, hotkey]
    split_ifs <;> first | rfl | exact hempty
  · simp only [isHotkey, hkey, Bool.false_and, Bool.and_false, Bool.false_eq_true, if_false]
    split_ifs <;> exact ⟨rfl, rfl⟩

theorem emit_prev (d : UsbKbd) (r : Report) (scancode ascii : UInt8) (pressed : Bool) :
    (d.emit r scancode ascii pressed).prev = d.prev := by rw [UsbKbd.emit]

theorem emit_caps (d : UsbKbd) (r : Report) (scancode ascii : UInt8) (pressed : Bool) :
    (d.emit r scancode ascii pressed).caps = d.caps := by rw [UsbKbd.emit]

theorem emit_silent (hempty : d.decoder.buffer = []) (r : Report) (scancode : UInt8) {ascii : UInt8}
    {pressed : Bool} (h : pressed = false ∨ ascii = 0) :
    (d.emit r scancode ascii pressed).decoder.buffer = [] := by
  obtain ⟨t, hbuffer, -, heq⟩ := inject_reaches hempty scancode ascii pressed (shiftOf r)
    (ctrlOf r) (altOf r) d.caps
  have hnone : (pressed && decide (ascii ≠ 0)) = false := by
    rcases h with rfl | rfl
    · rfl
    · exact Bool.and_false _
  have hemit : (d.emit r scancode ascii pressed).decoder = _ := heq
  rw [hemit, hnone]
  exact hbuffer

theorem emit_chars (hempty : d.decoder.buffer = []) (r : Report) {scancode ascii : UInt8}
    (hfunction : (keyF1 ≤ scancode && scancode ≤ keyF8) = true → ascii = 0) :
    (d.emit r scancode ascii true).decoder.buffer = typedChars ascii (ctrlOf r) (altOf r) := by
  by_cases hkey : (keyF1 ≤ scancode && scancode ≤ keyF8) = true
  · rw [emit_silent hempty r scancode (.inr (hfunction hkey)), hfunction hkey]
    rfl
  obtain ⟨t, hbuffer, hmods, heq⟩ := inject_reaches hempty scancode ascii true (shiftOf r)
    (ctrlOf r) (altOf r) d.caps
  obtain ⟨hctrl, halt⟩ := hmods (eq_false_of_ne_true hkey)
  have hput (c : UInt8) : (t.bufferPut c).buffer = [c] := by
    rw [bufferPut, hbuffer, put_empty]
  have hemit : (d.emit r scancode ascii true).decoder = _ := heq
  rw [hemit, hctrl, halt, typedChars, Bool.true_and]
  by_cases hzero : ascii = 0
  · simp only [hzero, ne_eq, not_true_eq_false, decide_false, Bool.false_eq_true, if_false, if_true]
    exact hbuffer
  · rw [decide_eq_true hzero, if_pos rfl, if_neg hzero]
    cases ctrlOf r with
    | true => exact hput _
    | false =>
      cases altOf r with
      | true => exact hbuffer
      | false => exact hput _

structure Quiet (d d' : UsbKbd) : Prop where
  prev : d'.prev = d.prev
  caps : d'.caps = d.caps
  buffer : d.decoder.buffer = [] → d'.decoder.buffer = []

theorem Quiet.refl (d : UsbKbd) : Quiet d d := ⟨rfl, rfl, id⟩

theorem Quiet.trans {d' d'' : UsbKbd} (h : Quiet d d') (g : Quiet d' d'') : Quiet d d'' :=
  ⟨g.prev.trans h.prev, g.caps.trans h.caps, fun hempty => g.buffer (h.buffer hempty)⟩

theorem quiet_handleModifier (d : UsbKbd) (r : Report) (mask scancode : UInt8) :
    Quiet d (d.handleModifier r mask scancode) := by
  rw [UsbKbd.handleModifier]
  split
  · exact ⟨emit_prev _ _ _ _ _, emit_caps _ _ _ _ _, fun h => emit_silent h r scancode (.inr rfl)⟩
  · exact .refl d

theorem quiet_handleModifiers (d : UsbKbd) (r : Report) : Quiet d (d.handleModifiers r) := by
  rw [UsbKbd.handleModifiers]
  split
  · exact .refl d
  · exact ((((((quiet_handleModifier d r _ _).trans (quiet_handleModifier _ r _ _)).trans
      (quiet_handleModifier _ r _ _)).trans (quiet_handleModifier _ r _ _)).trans
      (quiet_handleModifier _ r _ _)).trans (quiet_handleModifier _ r _ _))

theorem quiet_keyUp (d : UsbKbd) (r : Report) (i : Nat) : Quiet d (d.keyUp r i) := by
  rw [UsbKbd.keyUp]
  split
  · exact .refl d
  · exact ⟨emit_prev _ _ _ _ _, emit_caps _ _ _ _ _, fun h => emit_silent h r _ (.inl rfl)⟩

theorem quiet_foldl {f : UsbKbd → Nat → UsbKbd} {l : List Nat}
    (h : ∀ i ∈ l, ∀ e : UsbKbd, e.prev = d.prev → Quiet e (f e i)) : Quiet d (l.foldl f d) := by
  induction l generalizing d with
  | nil => exact .refl d
  | cons i l ih =>
    have hfirst := h i List.mem_cons_self d rfl
    refine hfirst.trans (ih fun j hj e he => ?_)
    exact h j (List.mem_cons_of_mem i hj) e (he.trans hfirst.prev)

theorem keyDown_old {i : Nat} (h : r i = 0 ∨ hidInReport d.prev (r i)) : d.keyDown r i = d := by
  rw [UsbKbd.keyDown]
  exact if_pos h

theorem keyDown_new {i : Nat} (hempty : d.decoder.buffer = []) (hzero : r i ≠ 0)
    (hnew : hidInReport d.prev (r i) = false) :
    (d.keyDown r i).prev = d.prev ∧ (d.keyDown r i).caps = (d.caps ^^ decide (r i = capsUsage)) ∧
      (d.keyDown r i).decoder.buffer = usbChars (r i) (shiftOf r) (ctrlOf r) (altOf r)
        (d.caps ^^ decide (r i = capsUsage)) := by
  have hgo : ¬(r i = 0 ∨ hidInReport d.prev (r i) = true) := by
    rw [hnew]
    simpa using hzero
  have hsilent (shifted : Bool) (hkey : (keyF1 ≤ hidToSet1 (r i) && hidToSet1 (r i) ≤ keyF8) = true) :
      (if hidToSet1 (r i) < 255 then mapAt 0 (if shifted then 1 else 0) (hidToSet1 (r i)) else 0) =
        0 := by
    rw [function_silent hkey, ite_self]
  rw [UsbKbd.keyDown, if_neg hgo, usbChars]
  by_cases hcaps : r i = 0x39
  · have hlock : decide (r i = capsUsage) = true := decide_eq_true hcaps
    rw [hlock, Bool.xor_true]
    simp only [if_pos hcaps]
    have hlocked : ({ d with caps := !d.caps } : UsbKbd).decoder.buffer = [] := hempty
    exact ⟨emit_prev _ _ _ _ _, emit_caps _ _ _ _ _, emit_chars hlocked r (hsilent _)⟩
  · have hlock : decide (r i = capsUsage) = false := decide_eq_false hcaps
    rw [hlock, Bool.xor_false]
    simp only [if_neg hcaps]
    exact ⟨emit_prev _ _ _ _ _, emit_caps _ _ _ _ _, emit_chars hempty r (hsilent _)⟩

end Reports

end HouseOS.Keyboard.Usb
