import HouseOS.Keyboard.UsbAgree
import HouseOS.Library.Run
import Mathlib.Data.List.Count

namespace HouseOS.Keyboard.Usb

open Decoder
open HouseOS.Run (Along)

inductive UsbKey where
  | plain (hid : UInt8)
  | modifier (b : Fin 8)
  deriving DecidableEq

structure Desk where
  mods : Fin 8 → Bool
  down : List UInt8
  caps : Bool

-- a key goes down or up: the report of one keyboard and the codes of the other
structure Stroke where
  key : UsbKey
  pressed : Bool
  report : Report
  sent : List KeyChange

def slots (r : Report) : List UInt8 := (List.range' 2 6).map r

namespace Desk

def flag (d : Desk) : Kind → Bool
  | .shift => d.mods 1 || d.mods 5
  | .ctrl => d.mods 0 || d.mods 4
  | .alt => d.mods 2 || d.mods 6

def holds (d : Desk) : UsbKey → Bool
  | .plain hid => hid ∈ d.down
  | .modifier b => d.mods b

def step (d : Desk) (st : Stroke) : Desk :=
  match st.key, st.pressed with
  | .plain hid, true =>
      { d with down := hid :: d.down, caps := d.caps ^^ decide (hid = capsUsage) }
  | .plain hid, false => { d with down := d.down.erase hid }
  | .modifier b, pressed => { d with mods := Function.update d.mods b pressed }

end Desk

-- six keys at most find room in a report
structure Describes (r : Report) (d : Desk) : Prop where
  mods : ∀ b, bit (r 0) (maskOf b) = d.mods b
  keys : d.down.length ≤ 6 → ((slots r).filter (· ≠ 0)).Perm d.down

-- the shift codes some keys send around their own
def IsFake : KeyChange → Prop
  | .key k _ => k.extended = true ∧ (k.code = keyLshift ∨ k.code = keyRshift)
  | .pause => False

def codesOf : UsbKey → Bool → List KeyChange
  | .plain hid, pressed =>
      if hid = pauseUsage then (if pressed then [.pause] else [])
      else (usageKey hid).toList.map (.key · pressed)
  | .modifier b, pressed => [.key (modKey b) pressed]

structure Happens (d : Desk) (st : Stroke) : Prop where
  known : ∀ hid, st.key = .plain hid → hid = pauseUsage ∨ (usageKey hid).isSome
  turns : st.pressed = !d.holds st.key
  sent : ∃ before after, (∀ c ∈ before ++ after, IsFake c) ∧
    st.sent = before ++ codesOf st.key st.pressed ++ after
  report : Describes st.report (d.step st)

def Desk.changesConsole (d : Desk) (hotkeyHandler : Bool) (hid : UInt8) : Bool :=
  isFunctionUsage hid && hotkeyHandler && (d.flag .alt || (d.flag .ctrl && d.flag .shift))

-- a key with the same characters that keeps the console, and no modifier let go while another of
-- its kind is held
def Agreeing (hotkeyHandler : Bool) (d : Desk) (st : Stroke) : Prop :=
  (d.step st).down.length ≤ 6 ∧
    match st.key, st.pressed with
    | .plain hid, true =>
        hid ≠ pauseUsage ∧ Matches hid (d.flag .ctrl) (d.flag .alt) d.caps ∧
          d.changesConsole hotkeyHandler hid = false
    | .modifier b, false =>
        ∀ other, other ≠ b → d.mods other = true → (modKey other).kind = (modKey b).kind →
          (modKey b).kind = none
    | _, _ => True

def usbCharacters : UsbKbd → List Stroke → List UInt8
  | _, [] => []
  | d, st :: sts =>
      let d' := UsbKbd.usbkbdReport { d with decoder := { d.decoder with buffer := [] } } st.report
      d'.decoder.buffer ++ usbCharacters d' sts

def taken (s : Decoder) (c : KeyChange) : Decoder := Decoder.feed { s with buffer := [] } c.codes

def codeCharacters : Decoder → List KeyChange → List UInt8
  | _, [] => []
  | s, c :: cs => (taken s c).buffer ++ codeCharacters (taken s c) cs

section Ps2

variable {s : Decoder} {desk : Desk} {st : Stroke} {hotkeyHandler : Bool}

theorem codeCharacters_append (s : Decoder) (cs ds : List KeyChange) :
    codeCharacters s (cs ++ ds) = codeCharacters s cs ++ codeCharacters (cs.foldl taken s) ds := by
  induction cs generalizing s with
  | nil => rfl
  | cons c cs ih => rw [List.cons_append, codeCharacters, ih, codeCharacters, List.append_assoc,
      List.foldl_cons]

structure Follows (hotkeyHandler : Bool) (s : Decoder) (desk : Desk) : Prop where
  ready : Ready s
  flags : ∀ kind, s.flag kind = desk.flag kind
  caps : s.capsLock = desk.caps
  layout : s.currentLayout = 0
  handler : s.hotkeyHandler = hotkeyHandler

theorem Follows.drained (h : Follows hotkeyHandler s desk) :
    Follows hotkeyHandler { s with buffer := [] } desk := by
  have hflag (kind : Kind) : ({ s with buffer := [] } : Decoder).flag kind = s.flag kind := by
    cases kind <;> rfl
  exact ⟨⟨h.ready.ext, h.ready.pause, h.ready.latch⟩, fun kind => (hflag kind).trans (h.flags kind),
    h.caps, h.layout, h.handler⟩

theorem Follows.taken (h : Follows hotkeyHandler s desk) (k : Key) (pressed : Bool)
    (hquiet : s.switches k pressed = false) :
    Changed k.kind pressed (k.isCaps && pressed) { s with buffer := [] } (taken s (.key k pressed)) :=
  feed_key h.drained.ready k pressed hquiet

theorem Follows.key (h : Follows hotkeyHandler s desk) {desk' : Desk} (k : Key) (pressed : Bool)
    (hquiet : s.switches k pressed = false)
    (hflags : ∀ kind, desk'.flag kind = if k.kind = some kind then pressed else desk.flag kind)
    (hcaps : desk'.caps = (desk.caps ^^ (k.isCaps && pressed))) :
    Follows hotkeyHandler (Usb.taken s (.key k pressed)) desk' := by
  have hd := h.drained
  have hchange := h.taken k pressed hquiet
  refine ⟨hd.ready.changed hchange, fun kind => ?_, ?_, hchange.layout.trans hd.layout,
    hchange.handler.trans hd.handler⟩
  · rw [hchange.flags, hflags, hd.flags]
  · rw [hchange.caps, hcaps, hd.caps]

theorem Follows.same (h : Follows hotkeyHandler s desk) {desk' : Desk}
    (hmods : desk'.mods = desk.mods) (hcaps : desk'.caps = desk.caps) :
    Follows hotkeyHandler s desk' := by
  have hflag (kind : Kind) : desk'.flag kind = desk.flag kind := by
    cases kind <;> simp only [Desk.flag, hmods]
  exact ⟨h.ready, fun kind => (h.flags kind).trans (hflag kind).symm, h.caps.trans hcaps.symm,
    h.layout, h.handler⟩

theorem Follows.chars (h : Follows hotkeyHandler s desk) (k : Key) (pressed : Bool)
    (hquiet : s.switches k pressed = false) :
    (Usb.taken s (.key k pressed)).buffer = if pressed then
      ps2Chars k ((Usb.taken s (.key k pressed)).flag .shift)
        ((Usb.taken s (.key k pressed)).flag .ctrl) ((Usb.taken s (.key k pressed)).flag .alt)
        (Usb.taken s (.key k pressed)).capsLock else [] :=
  feed_chars h.drained.ready rfl h.drained.layout k pressed hquiet

theorem fakes_quiet {cs : List KeyChange} (h : Follows hotkeyHandler s desk)
    (hcs : ∀ c ∈ cs, IsFake c) :
    codeCharacters s cs = [] ∧ Follows hotkeyHandler (cs.foldl Usb.taken s) desk := by
  induction cs generalizing s with
  | nil => exact ⟨rfl, h⟩
  | cons c cs ih =>
    cases c with
    | pause => exact (hcs .pause List.mem_cons_self).elim
    | key k pressed =>
      obtain ⟨hext, hcode⟩ := hcs _ List.mem_cons_self
      have hkind : k.kind = none := by
        rw [Key.kind, hext]
        rcases hcode with hcode | hcode <;> rw [hcode] <;> decide
      have hcaps : k.isCaps = false := by rw [Key.isCaps, hext, Bool.not_true, Bool.false_and]
      have hquiet : s.switches k pressed = false :=
        not_switches (by rw [Key.isFunction, hext, Bool.not_true, Bool.false_and, Bool.false_and]) _
      have hchars : (Usb.taken s (.key k pressed)).buffer = [] := by
        rw [h.chars k pressed hquiet, ps2Chars, hext, if_pos rfl]
        rcases hcode with hcode | hcode <;> rw [hcode] <;> cases pressed <;> decide
      have hnext : Follows hotkeyHandler (Usb.taken s (.key k pressed)) desk := by
        refine h.key k pressed hquiet (fun kind => ?_) ?_
        · rw [hkind, if_neg fun h => by cases h]
        · rw [hcaps, Bool.false_and, Bool.xor_false]
      obtain ⟨hrest, hfollows⟩ := ih hnext fun c hc => hcs c (List.mem_cons_of_mem _ hc)
      rw [codeCharacters, hchars, hrest]
      exact ⟨rfl, hfollows⟩

theorem modKey_kinds :
    (modKey 0).kind = some .ctrl ∧ (modKey 1).kind = some .shift ∧ (modKey 2).kind = some .alt ∧
      (modKey 3).kind = none ∧ (modKey 4).kind = some .ctrl ∧ (modKey 5).kind = some .shift ∧
      (modKey 6).kind = some .alt ∧ (modKey 7).kind = none := by decide

theorem flag_iff (desk : Desk) (kind : Kind) :
    desk.flag kind = true ↔ ∃ b, desk.mods b = true ∧ (modKey b).kind = some kind := by
  have hex (p : Fin 8 → Prop) :
      (∃ b, p b) ↔ p 0 ∨ p 1 ∨ p 2 ∨ p 3 ∨ p 4 ∨ p 5 ∨ p 6 ∨ p 7 := by
    simp [Fin.exists_fin_succ]
  obtain ⟨h0, h1, h2, h3, h4, h5, h6, h7⟩ := modKey_kinds
  rw [hex, h0, h1, h2, h3, h4, h5, h6, h7]
  cases kind <;> simp [Desk.flag]

theorem flag_modifier {b : Fin 8} {pressed : Bool} (hlast : pressed = false →
      ∀ other, other ≠ b → desk.mods other = true → (modKey other).kind = (modKey b).kind →
        (modKey b).kind = none) (kind : Kind) :
    Desk.flag { desk with mods := Function.update desk.mods b pressed } kind =
      if (modKey b).kind = some kind then pressed else desk.flag kind := by
  rw [Bool.eq_iff_iff, flag_iff]
  by_cases hkind : (modKey b).kind = some kind
  · rw [if_pos hkind]
    constructor
    · rintro ⟨other, hheld, hk⟩
      dsimp only at hheld
      by_cases hne : other = b
      · rwa [hne, Function.update_self] at hheld
      · rw [Function.update_of_ne hne] at hheld
        by_contra hreleased
        have hnone := hlast (eq_false_of_ne_true hreleased) other hne hheld (hk.trans hkind.symm)
        rw [hnone] at hkind
        cases hkind
    · intro hpressed
      exact ⟨b, (Function.update_self ..).trans hpressed, hkind⟩
  · rw [if_neg hkind, flag_iff]
    refine exists_congr fun other => and_congr_left fun hk => ?_
    have hne : other ≠ b := by
      rintro rfl
      exact hkind hk
    dsimp only
    rw [Function.update_of_ne hne]

theorem modKey_silent (b : Fin 8) (shift ctrl alt caps : Bool) :
    ps2Chars (modKey b) shift ctrl alt caps = [] ∧ (modKey b).isCaps = false := by
  have hall : ∀ (b : Fin 8) (shift ctrl alt caps : Bool),
      ps2Chars (modKey b) shift ctrl alt caps = [] ∧ (modKey b).isCaps = false := by decide +kernel
  exact hall b shift ctrl alt caps

theorem modKey_quiet (s : Decoder) (b : Fin 8) (pressed : Bool) :
    s.switches (modKey b) pressed = false := by
  have hall : ∀ b : Fin 8, (modKey b).isFunction = false := by decide
  exact not_switches (hall b) pressed

theorem Follows.switches_iff (h : Follows hotkeyHandler s desk) {hid : UInt8} {k : Key}
    (hk : usageKey hid = some k) (pressed : Bool) :
    s.switches k pressed = (pressed && desk.changesConsole hotkeyHandler hid) := by
  have hshift : s.shiftPressed = desk.flag .shift := h.flags .shift
  have hctrl : s.ctrlPressed = desk.flag .ctrl := h.flags .ctrl
  have halt : s.altPressed = desk.flag .alt := h.flags .alt
  rw [switches, usageKey_function hk, h.handler, hshift, hctrl, halt, Desk.changesConsole]
  ac_rfl

def strokeChars (desk : Desk) (st : Stroke) : List UInt8 :=
  match st.key, st.pressed with
  | .plain hid, true =>
      usbChars hid (desk.flag .shift) (desk.flag .ctrl) (desk.flag .alt) desk.caps
  | _, _ => []

theorem matches_caps (hid : UInt8) (ctrl alt caps : Bool) :
    Matches hid ctrl alt (caps ^^ decide (hid = capsUsage)) ↔ Matches hid ctrl alt caps := by
  by_cases hlock : hid = capsUsage
  · have hall : ∀ ctrl alt caps : Bool, Matches capsUsage ctrl alt caps := by decide
    rw [hlock]
    exact iff_of_true (hall _ _ _) (hall _ _ _)
  · rw [decide_eq_false hlock, Bool.xor_false]

theorem codesOf_stroke (h : Follows hotkeyHandler s desk) (hst : Happens desk st)
    (hag : Agreeing hotkeyHandler desk st) :
    codeCharacters s (codesOf st.key st.pressed) = strokeChars (desk.step st) st ∧
      Follows hotkeyHandler ((codesOf st.key st.pressed).foldl taken s) (desk.step st) := by
  obtain ⟨key, pressed, report, sent⟩ := st
  cases key with
  | modifier b =>
    have hlast : pressed = false → ∀ other, other ≠ b → desk.mods other = true →
        (modKey other).kind = (modKey b).kind → (modKey b).kind = none := by
      rintro rfl
      exact hag.2
    have hquiet := modKey_quiet s b pressed
    have hnext : Follows hotkeyHandler (taken s (.key (modKey b) pressed))
        { desk with mods := Function.update desk.mods b pressed } := by
      refine h.key (modKey b) pressed hquiet (flag_modifier hlast) ?_
      rw [(modKey_silent b false false false false).2, Bool.false_and, Bool.xor_false]
    refine ⟨?_, hnext⟩
    rw [codesOf, codeCharacters, codeCharacters, h.chars _ _ hquiet, (modKey_silent b _ _ _ _).1, ite_self]
    rfl
  | plain hid =>
    have hknown := hst.known hid rfl
    cases pressed with
    | false =>
      by_cases hpause : hid = pauseUsage
      · rw [codesOf, if_pos hpause, if_neg Bool.false_ne_true]
        exact ⟨rfl, h.same rfl rfl⟩
      · obtain ⟨k, hk⟩ := Option.isSome_iff_exists.mp (hknown.resolve_left hpause)
        obtain ⟨hkind, -, -⟩ := usageKey_plain hk
        rw [codesOf, if_neg hpause, hk]
        have hquiet : s.switches k false = false := h.switches_iff hk false
        have hnext : Follows hotkeyHandler (taken s (.key k false))
            { desk with down := desk.down.erase hid } := by
          refine h.key k false hquiet (fun kind => ?_) ?_
          · rw [hkind, if_neg fun h => by cases h]
            rfl
          · rw [Bool.and_false, Bool.xor_false]
        refine ⟨?_, hnext⟩
        show codeCharacters s [.key k false] = []
        rw [codeCharacters, codeCharacters, h.chars _ _ hquiet]
        rfl
    | true =>
      obtain ⟨-, hpause, hmatches, hstays⟩ := hag
      obtain ⟨k, hk⟩ := Option.isSome_iff_exists.mp (hknown.resolve_left hpause)
      obtain ⟨hkind, hcaps, -⟩ := usageKey_plain hk
      have hquiet : s.switches k true = false := (h.switches_iff hk true).trans hstays
      have hnext : Follows hotkeyHandler (taken s (.key k true))
          { desk with down := hid :: desk.down, caps := desk.caps ^^ decide (hid = capsUsage) } := by
        refine h.key k true hquiet (fun kind => ?_) ?_
        · rw [hkind, if_neg fun h => by cases h]
          rfl
        · rw [hcaps, Bool.and_true]
      rw [codesOf, if_neg hpause, hk]
      refine ⟨?_, hnext⟩
      show codeCharacters s [.key k true] = _
      rw [codeCharacters, codeCharacters, h.chars _ _ hquiet, if_pos rfl, List.append_nil, hnext.flags,
        hnext.flags, hnext.flags, hnext.caps]
      exact (matches_iff hk _ _ _ _).mpr ((matches_caps hid _ _ _).mpr hmatches)

theorem ps2_stroke (h : Follows hotkeyHandler s desk) (hst : Happens desk st)
    (hag : Agreeing hotkeyHandler desk st) :
    codeCharacters s st.sent = strokeChars (desk.step st) st ∧
      Follows hotkeyHandler (st.sent.foldl taken s) (desk.step st) := by
  obtain ⟨before, after, hfake, hsent⟩ := hst.sent
  obtain ⟨hbefore, hready⟩ := fakes_quiet h fun c hc => hfake c (List.mem_append_left _ hc)
  obtain ⟨hchars, hnext⟩ := codesOf_stroke hready hst hag
  obtain ⟨hafter, hlast⟩ := fakes_quiet hnext fun c hc => hfake c (List.mem_append_right _ hc)
  rw [hsent, codeCharacters_append, codeCharacters_append, hbefore, hchars, List.foldl_append,
    List.foldl_append, List.foldl_append, hafter, List.nil_append, List.append_nil]
  exact ⟨rfl, hlast⟩

end Ps2

section Reports

variable {d : UsbKbd} {desk : Desk} {st : Stroke} {r : Report} {hid : UInt8} {hotkeyHandler : Bool}

theorem hidInReport_iff : hidInReport r hid = true ↔ hid ∈ slots r := by
  simp only [hidInReport, slots, List.any_eq_true, List.mem_map, decide_eq_true_eq]

theorem Describes.mem (h : Describes r desk) (hfew : desk.down.length ≤ 6) (hhid : hid ≠ 0) :
    hid ∈ slots r ↔ hid ∈ desk.down := by
  rw [← (h.keys hfew).mem_iff, List.mem_filter]
  simp [hhid]

theorem Describes.same {r' : Report} (h : Describes r desk) (hsame : ∀ i < 8, r i = r' i) :
    Describes r' desk := by
  have hslots : slots r' = slots r := by
    refine List.map_congr_left fun i hi => ?_
    rw [List.mem_range'_1] at hi
    exact (hsame i (by omega)).symm
  refine ⟨fun b => ?_, fun hfew => ?_⟩
  · rw [← hsame 0 (by decide)]
    exact h.mods b
  · rw [hslots]
    exact h.keys hfew

theorem Describes.flags (h : Describes r desk) :
    shiftOf r = desk.flag .shift ∧ ctrlOf r = desk.flag .ctrl ∧ altOf r = desk.flag .alt := by
  refine ⟨?_, ?_, ?_⟩
  · rw [shiftOf, Desk.flag, ← h.mods 1, ← h.mods 5]
    rfl
  · rw [ctrlOf, Desk.flag, ← h.mods 0, ← h.mods 4]
    rfl
  · rw [altOf, Desk.flag, ← h.mods 2, ← h.mods 6]
    rfl

structure Tracks (d : UsbKbd) (desk : Desk) : Prop where
  prev : Describes d.prev desk
  caps : d.caps = desk.caps
  few : desk.down.length ≤ 6

theorem foldl_old {l : List Nat} (h : ∀ i ∈ l, r i = 0 ∨ hidInReport d.prev (r i) = true) :
    l.foldl (UsbKbd.keyDown r) d = d := by
  induction l with
  | nil => rfl
  | cons i l ih =>
    rw [List.foldl_cons, keyDown_old (h i List.mem_cons_self)]
    exact ih fun j hj => h j (List.mem_cons_of_mem i hj)

theorem quiet_keyUps (d : UsbKbd) (r : Report) (l : List Nat) :
    Quiet d (l.foldl (UsbKbd.keyUp r) d) :=
  quiet_foldl fun i _ e _ => quiet_keyUp e r i

theorem handleKeys_old (h : ∀ hid ∈ slots r, hid = 0 ∨ hid ∈ slots d.prev) :
    Quiet d (d.handleKeys r) := by
  have hups := quiet_keyUps d r (List.range' 2 6)
  rw [UsbKbd.handleKeys, foldl_old]
  · exact hups
  · intro i hi
    rw [hups.prev, hidInReport_iff]
    exact h (r i) (List.mem_map_of_mem hi)

theorem handleKeys_new (hempty : d.decoder.buffer = []) (hzero : hid ≠ 0)
    (hnew : hid ∉ slots d.prev) (hcount : (slots r).count hid = 1)
    (h : ∀ other ∈ slots r, other ≠ hid → other = 0 ∨ other ∈ slots d.prev) :
    (d.handleKeys r).caps = (d.caps ^^ decide (hid = capsUsage)) ∧
      (d.handleKeys r).decoder.buffer = usbChars hid (shiftOf r) (ctrlOf r) (altOf r)
        (d.caps ^^ decide (hid = capsUsage)) := by
  have hups := quiet_keyUps d r (List.range' 2 6)
  rw [UsbKbd.handleKeys]
  generalize (List.range' 2 6).foldl (UsbKbd.keyUp r) d = e at hups
  rw [← hups.prev] at hnew h
  replace hempty := hups.buffer hempty
  rw [← hups.caps]
  have hmem : hid ∈ slots r := by
    rw [← List.count_pos_iff, hcount]
    exact Nat.one_pos
  obtain ⟨i, hi, rfl⟩ := List.mem_map.mp hmem
  obtain ⟨l₁, l₂, hsplit⟩ := List.append_of_mem hi
  have hslots : slots r = l₁.map r ++ r i :: l₂.map r := by
    rw [slots, hsplit, List.map_append, List.map_cons]
  rw [hslots, List.count_append, List.count_cons_self] at hcount
  have hfirst : r i ∉ l₁.map r := List.count_eq_zero.mp (by omega)
  have hlast : r i ∉ l₂.map r := List.count_eq_zero.mp (by omega)
  have hold {l : List Nat} {e' : UsbKbd} (hprev : e'.prev = e.prev) (hin : ∀ j ∈ l, r j ∈ slots r)
      (hne : r i ∉ l.map r) : l.foldl (UsbKbd.keyDown r) e' = e' := by
    refine foldl_old fun j hj => ?_
    rw [hidInReport_iff, hprev]
    refine h (r j) (hin j hj) ?_
    rintro heq
    exact hne (heq ▸ List.mem_map_of_mem hj)
  have hfresh : hidInReport e.prev (r i) = false := by
    rw [Bool.eq_false_iff, ne_eq, hidInReport_iff]
    exact hnew
  obtain ⟨hprev, hcaps, hchars⟩ := keyDown_new hempty hzero hfresh
  rw [hsplit, List.foldl_append, List.foldl_cons, hold rfl ?_ hfirst, hold hprev ?_ hlast]
  · exact ⟨hcaps, hchars⟩
  · intro j hj
    rw [hslots]
    exact List.mem_append_right _ (List.mem_cons_of_mem _ (List.mem_map_of_mem hj))
  · intro j hj
    rw [hslots]
    exact List.mem_append_left _ (List.mem_map_of_mem hj)

theorem idle_step (h : ∀ hid, st.key = .plain hid → st.pressed = false) :
    strokeChars (desk.step st) st = [] ∧ (desk.step st).caps = desk.caps ∧
      ∀ hid ∈ (desk.step st).down, hid ∈ desk.down := by
  obtain ⟨key, pressed, report, sent⟩ := st
  cases key with
  | modifier b => exact ⟨rfl, rfl, fun _ => id⟩
  | plain hid =>
    obtain rfl := h hid rfl
    exact ⟨rfl, rfl, fun _ => List.mem_of_mem_erase⟩

theorem handled_prev (d : UsbKbd) (r : Report)
    (hdiff : ¬((List.range 8).all fun i => r i = d.prev i) = true) :
    d.usbkbdReport r = { (d.handleModifiers r).handleKeys r with prev := r } := if_neg hdiff

theorem usb_idle (h : Tracks d desk) (hempty : d.decoder.buffer = [])
    (hreport : Describes st.report (desk.step st)) (hfew : (desk.step st).down.length ≤ 6)
    (hidle : ∀ hid, st.key = .plain hid → st.pressed = false) :
    (d.usbkbdReport st.report).decoder.buffer = strokeChars (desk.step st) st ∧
      Tracks (d.usbkbdReport st.report) (desk.step st) := by
  obtain ⟨hnone, hcaps, hdown⟩ := idle_step hidle
  rw [hnone]
  by_cases hsame : ((List.range 8).all fun i => st.report i = d.prev i) = true
  · rw [UsbKbd.usbkbdReport, if_pos hsame]
    simp only [List.all_eq_true, List.mem_range, decide_eq_true_eq] at hsame
    exact ⟨hempty, hreport.same hsame, h.caps.trans hcaps.symm, hfew⟩
  · have hmods := quiet_handleModifiers d st.report
    have hkeys : Quiet (d.handleModifiers st.report)
        ((d.handleModifiers st.report).handleKeys st.report) := by
      refine handleKeys_old fun hid hin => or_iff_not_imp_left.mpr fun hzero => ?_
      rw [hmods.prev, h.prev.mem h.few hzero]
      exact hdown hid ((hreport.mem hfew hzero).mp hin)
    have hquiet := hmods.trans hkeys
    rw [handled_prev d _ hsame]
    exact ⟨hquiet.buffer hempty, hreport, (hquiet.caps.trans h.caps).trans hcaps.symm, hfew⟩

theorem usb_press (h : Tracks d desk) (hempty : d.decoder.buffer = [])
    (hreport : Describes st.report (desk.step st)) (hfew : (desk.step st).down.length ≤ 6)
    (hkey : st.key = .plain hid) (hpressed : st.pressed = true) (hzero : hid ≠ 0)
    (hup : hid ∉ desk.down) :
    (d.usbkbdReport st.report).decoder.buffer = strokeChars (desk.step st) st ∧
      Tracks (d.usbkbdReport st.report) (desk.step st) := by
  obtain ⟨key, pressed, r, sent⟩ := st
  dsimp only at hkey hpressed
  subst hkey hpressed
  have hperm := hreport.keys hfew
  have hdiff : ¬((List.range 8).all fun i => r i = d.prev i) = true := by
    intro hsame
    simp only [List.all_eq_true, List.mem_range, decide_eq_true_eq] at hsame
    have hbefore := (h.prev.keys h.few).length_eq
    have hafter := ((hreport.same hsame).keys hfew).length_eq
    rw [hbefore] at hafter
    exact absurd hafter (Nat.succ_ne_self _).symm
  have hmods := quiet_handleModifiers d r
  have hnew : hid ∉ slots (d.handleModifiers r).prev := by
    rw [hmods.prev, h.prev.mem h.few hzero]
    exact hup
  have hcount : (slots r).count hid = 1 := by
    have hfilter : ((slots r).filter (· ≠ 0)).count hid = (slots r).count hid :=
      List.count_filter (by simpa using hzero)
    rw [← hfilter, hperm.count_eq]
    show (hid :: desk.down).count hid = 1
    rw [List.count_cons_self, List.count_eq_zero.mpr hup]
  have hold : ∀ other ∈ slots r, other ≠ hid →
      other = 0 ∨ other ∈ slots (d.handleModifiers r).prev := by
    intro other hin hne
    refine or_iff_not_imp_left.mpr fun hother => ?_
    rw [hmods.prev, h.prev.mem h.few hother]
    exact List.mem_of_ne_of_mem hne ((hreport.mem hfew hother).mp hin)
  obtain ⟨hcaps, hchars⟩ := handleKeys_new (hmods.buffer hempty) hzero hnew hcount hold
  obtain ⟨hshift, hctrl, halt⟩ := hreport.flags
  rw [hmods.caps, h.caps] at hcaps hchars
  rw [handled_prev d r hdiff]
  refine ⟨?_, hreport, hcaps, hfew⟩
  rw [hshift, hctrl, halt] at hchars
  exact hchars

theorem usb_stroke (h : Tracks d desk) (hempty : d.decoder.buffer = []) (hst : Happens desk st)
    (hag : Agreeing hotkeyHandler desk st) :
    (d.usbkbdReport st.report).decoder.buffer = strokeChars (desk.step st) st ∧
      Tracks (d.usbkbdReport st.report) (desk.step st) := by
  by_cases hidle : ∀ hid, st.key = .plain hid → st.pressed = false
  · exact usb_idle h hempty hst.report hag.1 hidle
  · push Not at hidle
    obtain ⟨hid, hkey, hpressed⟩ := hidle
    have hpress : st.pressed = true := eq_true_of_ne_false hpressed
    have hturns := hst.turns
    rw [hpress, hkey, Desk.holds] at hturns
    have hpause : hid ≠ pauseUsage := by
      have hmatch := hag.2
      rw [hkey, hpress] at hmatch
      exact hmatch.1
    obtain ⟨k, hk⟩ := Option.isSome_iff_exists.mp ((hst.known hid hkey).resolve_left hpause)
    refine usb_press h hempty hst.report hag.1 hkey hpress (usageKey_plain hk).2.2 ?_
    simpa using hturns

end Reports

section Runs

abbrev stepDesk (desk : Desk) (st : Stroke) : Option Desk := some (desk.step st)

def Desk.start : Desk := { mods := fun _ => false, down := [], caps := false }

def UsbKbd.start (hotkeyHandler : Bool) : UsbKbd :=
  { prev := fun _ => 0, caps := false, queue := [], decoder := keyboardInit hotkeyHandler }

theorem characters_agree {hotkeyHandler : Bool} {d : UsbKbd} {s : Decoder} {desk : Desk}
    {strokes : List Stroke} (htracks : Tracks d desk) (hfollows : Follows hotkeyHandler s desk)
    (hhappens : Along stepDesk Happens desk strokes)
    (hagreeing : Along stepDesk (Agreeing hotkeyHandler) desk strokes) :
    usbCharacters d strokes = codeCharacters s (strokes.flatMap (·.sent)) := by
  induction strokes generalizing d s desk with
  | nil => rfl
  | cons st strokes ih =>
    obtain ⟨hst, hmore⟩ := hhappens
    obtain ⟨hag, hrest⟩ := hagreeing
    have hdrained : Tracks { d with decoder := { d.decoder with buffer := [] } } desk :=
      ⟨htracks.prev, htracks.caps, htracks.few⟩
    obtain ⟨husb, htracks'⟩ := usb_stroke hdrained rfl hst hag
    obtain ⟨hps2, hfollows'⟩ := ps2_stroke hfollows hst hag
    rw [usbCharacters, List.flatMap_cons, codeCharacters_append, hps2, ← husb]
    exact congrArg _ (ih htracks' hfollows' (hmore _ rfl) (hrest _ rfl))

theorem start_tracks (hotkeyHandler : Bool) : Tracks (.start hotkeyHandler) .start := by
  have hmods : ∀ b, bit 0 (maskOf b) = false := by decide
  refine ⟨⟨hmods, fun _ => ?_⟩, rfl, Nat.zero_le _⟩
  have hnone : (slots (UsbKbd.start hotkeyHandler).prev).filter (· ≠ 0) = [] := by
    show (slots fun _ => 0).filter (· ≠ 0) = []
    decide
  rw [hnone]
  exact .nil

theorem start_follows (hotkeyHandler : Bool) :
    Follows hotkeyHandler (keyboardInit hotkeyHandler) .start :=
  ⟨⟨rfl, rfl, fun _ => rfl⟩, fun kind => by cases kind <;> rfl, rfl, rfl, rfl⟩

theorem keyboards_agree (hotkeyHandler : Bool) (strokes : List Stroke)
    (hhappens : Along stepDesk Happens .start strokes)
    (hagreeing : Along stepDesk (Agreeing hotkeyHandler) .start strokes) :
    usbCharacters (.start hotkeyHandler) strokes =
      codeCharacters (keyboardInit hotkeyHandler) (strokes.flatMap (·.sent)) :=
  characters_agree (start_tracks hotkeyHandler) (start_follows hotkeyHandler) hhappens hagreeing

def stroke (key : UsbKey) (pressed : Bool) (bytes : List UInt8) : Stroke :=
  { key := key, pressed := pressed, report := fun i => bytes.getD i 0,
    sent := codesOf key pressed }

theorem stroke_happens {desk : Desk} {key : UsbKey} {pressed : Bool} {bytes : List UInt8}
    (hknown : ∀ hid, key = .plain hid → hid = pauseUsage ∨ (usageKey hid).isSome)
    (hturns : pressed = !desk.holds key)
    (hreport : Describes (fun i => bytes.getD i 0) (desk.step (stroke key pressed bytes))) :
    Happens desk (stroke key pressed bytes) :=
  ⟨hknown, hturns, ⟨[], [], nofun, (List.append_nil _).symm⟩, hreport⟩

def capital : List Stroke :=
  [stroke (.modifier 1) true [2], stroke (.plain 0x04) true [2, 0, 0x04],
    stroke (.plain 0x04) false [2], stroke (.modifier 1) false []]

theorem capital_happens : Along stepDesk Happens .start capital := by
  refine ⟨stroke_happens nofun rfl ⟨by decide, fun _ => by decide⟩, fun _ h => ?_⟩
  cases h
  refine ⟨stroke_happens (fun _ h => ?_) rfl ⟨by decide, fun _ => by decide⟩, fun _ h => ?_⟩
  · cases h
    exact .inr (by decide)
  cases h
  refine ⟨stroke_happens (fun _ h => ?_) rfl ⟨by decide, fun _ => by decide⟩, fun _ h => ?_⟩
  · cases h
    exact .inr (by decide)
  cases h
  refine ⟨stroke_happens nofun rfl ⟨by decide, fun _ => by decide⟩, fun _ _ => trivial⟩

theorem capital_agreeing : Along stepDesk (Agreeing true) .start capital := by
  refine ⟨⟨by decide, trivial⟩, fun _ h => ?_⟩
  cases h
  have hletter : (0x04 : UInt8) ≠ pauseUsage ∧ Matches 0x04 false false false := by decide
  refine ⟨⟨by decide, hletter.1, hletter.2, rfl⟩, fun _ h => ?_⟩
  cases h
  refine ⟨⟨by decide, trivial⟩, fun _ h => ?_⟩
  cases h
  refine ⟨⟨by decide, ?_⟩, fun _ _ => trivial⟩
  show ∀ other : Fin 8, other ≠ 1 → Desk.mods _ other = true → _ = _ → _ = _
  decide

theorem keyboards_agree_capital :
    (Along stepDesk Happens .start capital ∧ Along stepDesk (Agreeing true) .start capital) ∧
      usbCharacters (.start true) capital =
        codeCharacters (keyboardInit true) (capital.flatMap (·.sent)) :=
  ⟨⟨capital_happens, capital_agreeing⟩, keyboards_agree true capital capital_happens capital_agreeing⟩

-- the lock shifts the digits of one keyboard only
theorem lock_shifts_digits : ¬∀ strokes, Along stepDesk Happens .start strokes →
    usbCharacters (.start false) strokes =
      codeCharacters (keyboardInit false) (strokes.flatMap (·.sent)) := by
  intro h
  have hchars := h [stroke (.plain capsUsage) true [0, 0, capsUsage],
    stroke (.plain capsUsage) false [], stroke (.plain 0x1E) true [0, 0, 0x1E]] ?_
  · revert hchars
    decide +kernel
  refine ⟨stroke_happens (fun _ h => ?_) rfl ⟨by decide, fun _ => by decide⟩, fun _ h => ?_⟩
  · cases h
    exact .inr (by decide)
  cases h
  refine ⟨stroke_happens (fun _ h => ?_) rfl ⟨by decide, fun _ => by decide⟩, fun _ h => ?_⟩
  · cases h
    exact .inr (by decide)
  cases h
  refine ⟨stroke_happens (fun _ h => ?_) rfl ⟨by decide, fun _ => by decide⟩, fun _ _ => trivial⟩
  cases h
  exact .inr (by decide)

end Runs

end HouseOS.Keyboard.Usb
