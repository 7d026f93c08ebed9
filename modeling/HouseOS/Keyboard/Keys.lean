import HouseOS.Keyboard.Model

namespace HouseOS.Keyboard

structure Key where
  extended : Bool
  code : UInt8
  valid : code < 0x80 ∧ code ≠ 0x60 ∧ code ≠ 0x61
  deriving DecidableEq

inductive Kind where
  | shift
  | ctrl
  | alt
  deriving DecidableEq, Repr

-- the codes 0x2A and 0x36 behind the prefix belong to other keys
def Key.kind (k : Key) : Option Kind :=
  if !k.extended ∧ (k.code = keyLshift ∨ k.code = keyRshift) then some .shift
  else if k.code = keyLctrl then some .ctrl
  else if k.code = keyLalt then some .alt
  else none

-- F1 to F8 change the console when alt, or ctrl and shift, are held
def Key.isFunction (k : Key) : Bool := !k.extended && keyF1 ≤ k.code && k.code ≤ keyF8

def Key.codes (k : Key) (pressed : Bool) : List UInt8 :=
  (if k.extended then [0xE0] else []) ++ [if pressed then k.code else k.code ||| 0x80]

inductive KeyChange where
  | key (k : Key) (pressed : Bool)
  | pause
  deriving DecidableEq

def KeyChange.codes : KeyChange → List UInt8
  | .key k pressed => k.codes pressed
  | .pause => [0xE1, 0x1D, 0x45, 0xE1, 0x9D, 0xC5]

theorem forall_byte {p : UInt8 → Prop} (h : ∀ n < 256, p (UInt8.ofNat n)) (c : UInt8) : p c := by
  have hc := h c.toNat c.toNat_lt
  rwa [UInt8.ofNat_toNat] at hc

theorem function_kind {k : Key} (h : k.isFunction = true) : k.kind = none := by
  have hall : ∀ code : UInt8, (keyF1 ≤ code && code ≤ keyF8) = true →
      code ≠ keyLshift ∧ code ≠ keyRshift ∧ code ≠ keyLctrl ∧ code ≠ keyLalt :=
    forall_byte (by decide +kernel)
  rw [Key.isFunction, Bool.and_assoc, Bool.and_eq_true] at h
  obtain ⟨hl, hr, hctrl, halt⟩ := hall k.code h.2
  simp [Key.kind, hl, hr, hctrl, halt]

namespace Decoder

variable {s t u : Decoder}

def flag (s : Decoder) : Kind → Bool
  | .shift => s.shiftPressed
  | .ctrl => s.ctrlPressed
  | .alt => s.altPressed

-- no prefix and no pause code under way, and the handler was not run
structure Ready (s : Decoder) : Prop where
  ext : s.extScancode = false
  pause : s.pauseBreak = false
  latch : s.hotkeyHandler = true → s.hotkeyLatched = none

def switches (s : Decoder) (k : Key) (pressed : Bool) : Bool :=
  pressed && k.isFunction && s.hotkeyHandler && (s.altPressed || (s.ctrlPressed && s.shiftPressed))

theorem switches_plain {k : Key} (hplain : k.extended = false) (s : Decoder) (pressed : Bool) :
    s.switches k pressed = (pressed && s.isHotkey k.code && s.hotkeyHandler) := by
  rw [switches, Key.isFunction, isHotkey, hplain, Bool.not_false, Bool.true_and]
  ac_rfl

theorem not_switches {k : Key} (h : k.isFunction = false) (pressed : Bool) :
    s.switches k pressed = false := by
  rw [switches, h, Bool.and_false, Bool.false_and, Bool.false_and]

structure SameModes (s t : Decoder) : Prop where
  flags : ∀ kind, t.flag kind = s.flag kind
  caps : t.capsLock = s.capsLock
  ext : t.extScancode = s.extScancode
  pause : t.pauseBreak = s.pauseBreak
  layout : t.currentLayout = s.currentLayout
  handler : t.hotkeyHandler = s.hotkeyHandler
  latch : s.hotkeyHandler = true → s.hotkeyLatched = none → t.hotkeyLatched = none

theorem SameModes.refl (s : Decoder) : SameModes s s :=
  ⟨fun _ => rfl, rfl, rfl, rfl, rfl, rfl, fun _ => id⟩

theorem SameModes.trans (h : SameModes s t) (g : SameModes t u) : SameModes s u :=
  ⟨fun kind => (g.flags kind).trans (h.flags kind), g.caps.trans h.caps, g.ext.trans h.ext,
    g.pause.trans h.pause, g.layout.trans h.layout, g.handler.trans h.handler,
    fun hon hnone => g.latch (h.handler.trans hon) (h.latch hon hnone)⟩

theorem SameModes.ite {p : Prop} [Decidable p] (h : SameModes s t) (g : SameModes s u) :
    SameModes s (if p then t else u) := by
  split
  · exact h
  · exact g

theorem modes_act (s : Decoder) (as : List Action) : SameModes s (s.act as) :=
  ⟨fun kind => by cases kind <;> rfl, rfl, rfl, rfl, rfl, rfl, fun _ => id⟩

theorem modes_echo (s : Decoder) (as : List Action) : SameModes s (s.echo as) :=
  (modes_act s as).ite (.refl s)

theorem modes_bufferPut (s : Decoder) (c : UInt8) : SameModes s (s.bufferPut c) :=
  ⟨fun kind => by cases kind <;> rfl, rfl, rfl, rfl, rfl, rfl, fun _ => id⟩

theorem modes_eventBufferPut (s : Decoder) (event : KeyEvent) :
    SameModes s (s.eventBufferPut event) :=
  ⟨fun kind => by cases kind <;> rfl, rfl, rfl, rfl, rfl, rfl, fun _ => id⟩

theorem modes_scancode (s : Decoder) (scancode : UInt8) :
    SameModes s ({ s with lastScancode := scancode }.scancodeBufferPut scancode) :=
  ⟨fun kind => by cases kind <;> rfl, rfl, rfl, rfl, rfl, rfl, fun _ => id⟩

theorem modes_putTyped (s : Decoder) (ascii : UInt8) : SameModes s (s.putTyped ascii) := by
  rw [putTyped]
  refine .ite (.refl s) (.ite (modes_bufferPut s _) (.ite (modes_echo s _) ?_))
  exact (modes_bufferPut s ascii).trans (modes_echo _ _)

theorem modes_handleCtrlAltCombo (s : Decoder) (keycode : UInt8) (pressed : Bool) :
    SameModes s (s.handleCtrlAltCombo keycode pressed) :=
  (modes_act s _).ite (.refl s)

theorem modes_latch (s : Decoder) (latched : Option UInt8)
    (hlatch : s.hotkeyHandler = true → s.hotkeyLatched = none → latched = none) :
    SameModes s { s with hotkeyLatched := latched } :=
  ⟨fun kind => by cases kind <;> rfl, rfl, rfl, rfl, rfl, rfl, hlatch⟩

theorem modes_hotkey (hoff : s.hotkeyHandler = false) (keycode : UInt8) :
    SameModes s (s.hotkey keycode) := by
  rw [hotkey]
  refine .ite (.refl s) ?_
  rw [hoff, if_neg Bool.false_ne_true]
  refine modes_latch s _ fun hon => ?_
  rw [hoff] at hon
  cases hon

theorem flag_hotkey (hon : s.hotkeyHandler = true) (hlatch : s.hotkeyLatched = none)
    (keycode : UInt8) (kind : Kind) : (s.hotkey keycode).flag kind = false := by
  rw [hotkey, hlatch, if_neg (Option.some_ne_none keycode).symm, if_pos hon]
  cases kind <;> rfl

structure Changed (kind : Option Kind) (pressed toggles : Bool) (s t : Decoder) : Prop where
  flags : ∀ other, t.flag other = if kind = some other then pressed else s.flag other
  caps : t.capsLock = (s.capsLock ^^ toggles)
  ext : t.extScancode = s.extScancode
  pause : t.pauseBreak = s.pauseBreak
  layout : t.currentLayout = s.currentLayout
  handler : t.hotkeyHandler = s.hotkeyHandler
  latch : s.hotkeyHandler = true → s.hotkeyLatched = none → t.hotkeyLatched = none

theorem SameModes.changed (h : SameModes s t) (pressed : Bool) : Changed none pressed false s t :=
  ⟨h.flags, h.caps.trans (Bool.xor_false _).symm, h.ext, h.pause, h.layout, h.handler, h.latch⟩

theorem Changed.then {kind : Option Kind} {pressed toggles : Bool} (h : Changed kind pressed toggles s t)
    (g : SameModes t u) : Changed kind pressed toggles s u :=
  ⟨fun other => (g.flags other).trans (h.flags other), g.caps.trans h.caps, g.ext.trans h.ext,
    g.pause.trans h.pause, g.layout.trans h.layout, g.handler.trans h.handler,
    fun hon hnone => g.latch (h.handler.trans hon) (h.latch hon hnone)⟩

theorem SameModes.then {kind : Option Kind} {pressed toggles : Bool} (g : SameModes s t)
    (h : Changed kind pressed toggles t u) : Changed kind pressed toggles s u := by
  refine ⟨fun other => ?_, ?_, h.ext.trans g.ext, h.pause.trans g.pause, h.layout.trans g.layout,
    h.handler.trans g.handler, fun hon hnone => h.latch (g.handler.trans hon) (g.latch hon hnone)⟩
  · rw [h.flags, g.flags]
  · rw [h.caps, g.caps]

def plainKind (code : UInt8) : Option Kind :=
  if code = keyLshift ∨ code = keyRshift then some .shift
  else if code = keyLctrl then some .ctrl
  else if code = keyLalt then some .alt
  else none

def extKind (code : UInt8) : Option Kind :=
  if code = keyLctrl then some .ctrl
  else if code = keyLalt then some .alt
  else none

theorem changed_lock (scroll num : Bool) (as : List Action) :
    Changed none true true s ((s.keyboardSetLeds scroll num (!s.capsLock)).echo as) := by
  have hleds : Changed none true true s (s.keyboardSetLeds scroll num (!s.capsLock)) :=
    ⟨fun kind => by cases kind <;> rfl, by rw [Bool.xor_true]; rfl, rfl, rfl, rfl, rfl, fun _ => id⟩
  exact hleds.then (modes_echo _ _)

theorem modes_leds (scroll num : Bool) (as : List Action) :
    SameModes s ((s.keyboardSetLeds scroll num s.capsLock).echo as) := by
  have hleds : SameModes s (s.keyboardSetLeds scroll num s.capsLock) :=
    ⟨fun kind => by cases kind <;> rfl, rfl, rfl, rfl, rfl, rfl, fun _ => id⟩
  exact hleds.trans (modes_echo _ _)

theorem handleSpecialKey_changes (s : Decoder) (code : UInt8) (pressed : Bool) :
    Changed (plainKind code) pressed (decide (code = keyCaps) && pressed) s
      (s.handleSpecialKey code pressed) := by
  rw [handleSpecialKey, plainKind]
  by_cases hshift : code = keyLshift ∨ code = keyRshift
  · have hcaps : code ≠ keyCaps := by rcases hshift with rfl | rfl <;> decide
    rw [if_pos hshift, if_pos hshift, decide_eq_false hcaps, Bool.false_and]
    exact ⟨fun kind => by cases kind <;> rfl, (Bool.xor_false _).symm, rfl, rfl, rfl, rfl, fun _ => id⟩
  rw [if_neg hshift, if_neg hshift]
  by_cases hctrl : code = keyLctrl
  · rw [if_pos hctrl, if_pos hctrl, hctrl]
    exact ⟨fun kind => by cases kind <;> rfl, (Bool.xor_false _).symm, rfl, rfl, rfl, rfl, fun _ => id⟩
  rw [if_neg hctrl, if_neg hctrl]
  by_cases halt : code = keyLalt
  · rw [if_pos halt, if_pos halt, halt]
    exact ⟨fun kind => by cases kind <;> rfl, (Bool.xor_false _).symm, rfl, rfl, rfl, rfl, fun _ => id⟩
  rw [if_neg halt, if_neg halt]
  by_cases hcaps : code = keyCaps
  · rw [if_pos hcaps, decide_eq_true hcaps, Bool.true_and]
    cases pressed with
    | true => exact changed_lock _ _ _
    | false => exact (SameModes.refl s).changed false
  rw [if_neg hcaps, decide_eq_false hcaps, Bool.false_and]
  refine SameModes.changed ?_ pressed
  refine .ite (.ite (modes_leds _ _ _) (.refl s)) (.ite (.ite ?_ (.refl s)) (.refl s))
  exact modes_leds _ _ _

theorem isHotkey_congr (h : ∀ kind, t.flag kind = s.flag kind) (code : UInt8) :
    t.isHotkey code = s.isHotkey code := by
  have hshift : t.shiftPressed = s.shiftPressed := h .shift
  have hctrl : t.ctrlPressed = s.ctrlPressed := h .ctrl
  have halt : t.altPressed = s.altPressed := h .alt
  rw [isHotkey, isHotkey, hshift, hctrl, halt]

theorem special_isHotkey (s : Decoder) (code : UInt8) (pressed : Bool) :
    (s.handleSpecialKey code pressed).isHotkey code = s.isHotkey code := by
  by_cases hrange : (keyF1 ≤ code && code ≤ keyF8) = true
  · have hplain : plainKind code = none :=
      forall_byte (p := fun c => (keyF1 ≤ c && c ≤ keyF8) = true → plainKind c = none)
        (by decide +kernel) code hrange
    have hflags (kind : Kind) : (s.handleSpecialKey code pressed).flag kind = s.flag kind := by
      have hchange := (handleSpecialKey_changes s code pressed).flags kind
      rwa [hplain, if_neg (Option.some_ne_none kind).symm] at hchange
    exact isHotkey_congr hflags code
  · rw [isHotkey, isHotkey, eq_false_of_ne_true hrange, Bool.false_and, Bool.false_and]

theorem handleKey_down (s : Decoder) (code : UInt8) :
    s.handleKey code true =
      let t := s.handleSpecialKey code true
      if t.isHotkey code then t.hotkey code
      else
        let ascii := t.getAscii code (keyboardEffectiveShift code t.shiftPressed t.capsLock)
        (t.eventBufferPut (t.keyEvent code ascii)).putTyped ascii := rfl

theorem handleKey_up (s : Decoder) (code : UInt8) :
    s.handleKey code false =
      let t := s.handleSpecialKey code false
      if t.hotkeyLatched = some code then { t with hotkeyLatched := none } else t := by
  simp [handleKey]

theorem handleKey_modes (s : Decoder) (code : UInt8) (pressed : Bool)
    (hquiet : pressed = true → s.isHotkey code = true → s.hotkeyHandler = false) :
    SameModes (s.handleSpecialKey code pressed) (s.handleKey code pressed) := by
  have hsame := special_isHotkey s code pressed
  have hhandler := (handleSpecialKey_changes s code pressed).handler
  cases pressed with
  | false =>
    rw [handleKey_up]
    exact .ite (modes_latch _ none fun _ _ => rfl) (.refl _)
  | true =>
    rw [handleKey_down]
    dsimp only
    by_cases hhot : s.isHotkey code = true
    · rw [hsame, if_pos hhot]
      exact modes_hotkey (hhandler.trans (hquiet rfl hhot)) code
    · rw [hsame, if_neg hhot]
      exact (modes_eventBufferPut _ _).trans (modes_putTyped _ _)

theorem handleKey_changes (s : Decoder) (code : UInt8) (pressed : Bool)
    (hquiet : pressed = true → s.isHotkey code = true → s.hotkeyHandler = false) :
    Changed (plainKind code) pressed (decide (code = keyCaps) && pressed) s
      (s.handleKey code pressed) :=
  (handleSpecialKey_changes s code pressed).then (handleKey_modes s code pressed hquiet)

theorem handleExtendedScancode_changes (s : Decoder) (code : UInt8) (pressed : Bool) :
    Changed (extKind code) pressed false s (s.handleExtendedScancode code pressed) := by
  rw [handleExtendedScancode, extKind]
  by_cases hctrl : code = keyLctrl
  · rw [if_pos hctrl, if_pos hctrl]
    exact ⟨fun kind => by cases kind <;> rfl, (Bool.xor_false _).symm, rfl, rfl, rfl, rfl, fun _ => id⟩
  rw [if_neg hctrl, if_neg hctrl]
  by_cases halt : code = keyLalt
  · rw [if_pos halt, if_pos halt]
    exact ⟨fun kind => by cases kind <;> rfl, (Bool.xor_false _).symm, rfl, rfl, rfl, rfl, fun _ => id⟩
  rw [if_neg halt, if_neg halt]
  refine SameModes.changed (.ite (.refl s) ?_) pressed
  have hecho : SameModes s (if !s.ctrlPressed && !s.altPressed then s.echo (extEcho code) else s) :=
    .ite (modes_echo s _) (.refl s)
  refine hecho.trans ((modes_eventBufferPut _ _).trans (.ite (modes_bufferPut _ _) (.refl _)))

theorem Ready.changed {kind : Option Kind} {pressed toggles : Bool} (h : Ready s)
    (g : Changed kind pressed toggles s t) : Ready t := by
  refine ⟨g.ext.trans h.ext, g.pause.trans h.pause, fun hon => ?_⟩
  rw [g.handler] at hon
  exact g.latch hon (h.latch hon)

def noted (s : Decoder) (code keycode : UInt8) (pressed : Bool) : Decoder :=
  ({ s with lastScancode := code }.scancodeBufferPut code).handleCtrlAltCombo keycode pressed

theorem modes_noted (s : Decoder) (code keycode : UInt8) (pressed : Bool) :
    SameModes s (s.noted code keycode pressed) :=
  (modes_scancode s code).trans (modes_handleCtrlAltCombo _ _ _)

theorem process_code {code : UInt8} (hpause : s.pauseBreak = false) (hmark : code ≠ 0xE1)
    (hlead : code ≠ 0xE0) :
    s.keyboardProcessScancode code =
      let pressed := decide (code &&& 0x80 = 0)
      let keycode := code &&& 0x7F
      let t := s.noted code keycode pressed
      if t.extScancode then { t.handleExtendedScancode keycode pressed with extScancode := false }
      else t.handleKey keycode pressed := by
  have hnot : ({ s with lastScancode := code }.scancodeBufferPut code).pauseBreak = false := hpause
  rw [keyboardProcessScancode]
  simp only [if_neg hmark, if_neg hlead, hnot]
  rfl

def prefixed (s : Decoder) : Decoder :=
  { { s with lastScancode := 0xE0 }.scancodeBufferPut 0xE0 with extScancode := true }

theorem process_prefix (h : Ready s) : s.keyboardProcessScancode 0xE0 = s.prefixed := by
  have hnot : ¬({ s with lastScancode := 0xE0 }.scancodeBufferPut 0xE0).pauseBreak = true :=
    ne_true_of_eq_false h.pause
  have hmark : ¬(0xE0 : UInt8) = 0xE1 := by decide
  rw [keyboardProcessScancode, if_neg hmark]
  dsimp only
  rw [if_neg hnot, if_pos rfl]
  rfl

end Decoder

section Codes

def codeOf (code : UInt8) (pressed : Bool) : UInt8 := if pressed then code else code ||| 0x80

theorem codeOf_read (k : Key) (pressed : Bool) :
    codeOf k.code pressed ≠ 0xE1 ∧ codeOf k.code pressed ≠ 0xE0 ∧
      decide (codeOf k.code pressed &&& 0x80 = 0) = pressed ∧
      codeOf k.code pressed &&& 0x7F = k.code := by
  have hall : ∀ c : UInt8, c < 0x80 ∧ c ≠ 0x60 ∧ c ≠ 0x61 → ∀ pressed : Bool,
      codeOf c pressed ≠ 0xE1 ∧ codeOf c pressed ≠ 0xE0 ∧
        decide (codeOf c pressed &&& 0x80 = 0) = pressed ∧ codeOf c pressed &&& 0x7F = c :=
    forall_byte (by decide +kernel)
  exact hall k.code k.valid pressed

def Key.isCaps (k : Key) : Bool := !k.extended && decide (k.code = keyCaps)

namespace Decoder

variable {s t : Decoder}

theorem feed_plain (h : Ready s) {k : Key} (hplain : k.extended = false) (pressed : Bool) :
    s.feed (k.codes pressed) =
      (s.noted (codeOf k.code pressed) k.code pressed).handleKey k.code pressed := by
  obtain ⟨hmark, hlead, hpressed, hcode⟩ := codeOf_read k pressed
  have hcodes : k.codes pressed = [codeOf k.code pressed] := by
    rw [Key.codes, hplain]
    rfl
  have hext : (s.noted (codeOf k.code pressed) k.code pressed).extScancode = false :=
    (modes_noted s _ _ _).ext.trans h.ext
  rw [hcodes, feed, List.foldl_cons, List.foldl_nil, process_code h.pause hmark hlead]
  simp only [hpressed, hcode, hext]
  rfl

theorem feed_extended (h : Ready s) {k : Key} (hext : k.extended = true) (pressed : Bool) :
    s.feed (k.codes pressed) =
      { (s.prefixed.noted (codeOf k.code pressed) k.code pressed).handleExtendedScancode k.code
          pressed with extScancode := false } := by
  obtain ⟨hmark, hlead, hpressed, hcode⟩ := codeOf_read k pressed
  have hcodes : k.codes pressed = [0xE0, codeOf k.code pressed] := by
    rw [Key.codes, hext]
    rfl
  have hon : (s.prefixed.noted (codeOf k.code pressed) k.code pressed).extScancode = true :=
    (modes_noted _ _ _ _).ext
  rw [hcodes, feed, List.foldl_cons, List.foldl_cons, List.foldl_nil, process_prefix h,
    process_code (s := s.prefixed) h.pause hmark hlead]
  simp only [hpressed, hcode, hon]
  rfl

theorem changed_extended {kind : Option Kind} {pressed : Bool} (h : Ready s)
    (g : Changed kind pressed false s.prefixed t) :
    Changed kind pressed false s { t with extScancode := false } := by
  have hlead (other : Kind) : s.prefixed.flag other = s.flag other := by cases other <;> rfl
  refine ⟨fun other => ?_, g.caps, h.ext.symm, g.pause, g.layout, g.handler, g.latch⟩
  rw [← hlead, ← g.flags other]
  cases other <;> rfl

theorem noted_quiet {k : Key} {pressed : Bool} (hplain : k.extended = false)
    (hquiet : s.switches k pressed = false) (hpressed : pressed = true)
    (hhot : (s.noted (codeOf k.code pressed) k.code pressed).isHotkey k.code = true) :
    (s.noted (codeOf k.code pressed) k.code pressed).hotkeyHandler = false := by
  have hnoted := modes_noted s (codeOf k.code pressed) k.code pressed
  rw [isHotkey_congr hnoted.flags] at hhot
  rw [switches_plain hplain, hpressed, hhot] at hquiet
  exact hnoted.handler.trans hquiet

theorem feed_switches (h : Ready s) {k : Key} {pressed : Bool} (hswitches : s.switches k pressed = true)
    (kind : Kind) : (s.feed (k.codes pressed)).flag kind = false := by
  have hext : k.extended = false := by
    by_contra hext
    rw [switches, Key.isFunction, eq_true_of_ne_false hext] at hswitches
    simp at hswitches
  rw [switches_plain hext, Bool.and_eq_true, Bool.and_eq_true] at hswitches
  obtain ⟨⟨rfl, hhot⟩, hon⟩ := hswitches
  have hnoted := modes_noted s (codeOf k.code true) k.code true
  rw [feed_plain h hext, handleKey_down]
  dsimp only
  rw [special_isHotkey, isHotkey_congr hnoted.flags, if_pos hhot]
  have hspecial := handleSpecialKey_changes (s.noted (codeOf k.code true) k.code true) k.code true
  have hall := hnoted.then hspecial
  exact flag_hotkey (hall.handler.trans hon) (hall.latch hon (h.latch hon)) _ _

theorem feed_key (h : Ready s) (k : Key) (pressed : Bool) (hquiet : s.switches k pressed = false) :
    Changed k.kind pressed (k.isCaps && pressed) s (s.feed (k.codes pressed)) := by
  cases hext : k.extended with
  | false =>
    have hkind : k.kind = plainKind k.code := by
      rw [Key.kind, plainKind, hext]
      simp
    have hcaps : k.isCaps = decide (k.code = keyCaps) := by
      rw [Key.isCaps, hext]
      rfl
    rw [feed_plain h hext, hkind, hcaps]
    exact (modes_noted s _ _ _).then (handleKey_changes _ _ _ (noted_quiet hext hquiet))
  | true =>
    have hkind : k.kind = extKind k.code := by
      rw [Key.kind, extKind, hext]
      simp
    have hcaps : k.isCaps = false := by
      rw [Key.isCaps, hext]
      rfl
    rw [feed_extended h hext, hkind, hcaps, Bool.false_and]
    exact changed_extended h ((modes_noted _ _ _ _).then (handleExtendedScancode_changes _ _ _))

end Decoder

end Codes

end HouseOS.Keyboard
