import HouseOS.Keyboard.Keys
import HouseOS.Library.Run
import Mathlib.Logic.Function.Basic

namespace HouseOS.Keyboard

open Decoder
open HouseOS.Run (Along)

abbrev Held := Key → Bool

def change (held : Held) : KeyChange → Held
  | .key k pressed => Function.update held k pressed
  | .pause => held

def HoldsKind (held : Held) (kind : Kind) : Prop := ∃ k, held k = true ∧ k.kind = some kind

def FlagsTell (s : Decoder) (held : Held) : Prop := ∀ kind, s.flag kind = true ↔ HoldsKind held kind

-- with the handler, F1 to F8 change the console while alt, or ctrl and shift, are held
def ChangesConsole (hotkeyHandler : Bool) (held : Held) (k : Key) : Prop :=
  hotkeyHandler = true ∧ k.isFunction = true ∧
    (HoldsKind held .alt ∨ HoldsKind held .ctrl ∧ HoldsKind held .shift)

-- the console stays, and no modifier is let go while another one of its kind is held
def KeepsFlags (hotkeyHandler : Bool) (held : Held) : KeyChange → Prop
  | .key k true => ¬ChangesConsole hotkeyHandler held k
  | .key k false => ∀ other, other ≠ k → held other = true → other.kind = k.kind → k.kind = none
  | .pause => False

def typed (s : Decoder) (key : KeyChange) : Decoder := s.feed key.codes

section Steps

variable {s : Decoder} {held : Held} {hotkeyHandler : Bool}

theorem change_self (held : Held) (k : Key) (pressed : Bool) :
    change held (.key k pressed) k = pressed := by
  rw [change, Function.update_self]

theorem change_other {j k : Key} (held : Held) (pressed : Bool) (h : j ≠ k) :
    change held (.key k pressed) j = held j := by
  rw [change, Function.update_of_ne h]

theorem holdsKind_other {kind : Kind} {k : Key} (hother : k.kind ≠ some kind) (pressed : Bool) :
    HoldsKind (change held (.key k pressed)) kind ↔ HoldsKind held kind := by
  have hsame (j : Key) (hj : j.kind = some kind) : change held (.key k pressed) j = held j := by
    refine change_other held pressed ?_
    rintro rfl
    exact hother hj
  constructor
  · rintro ⟨j, hheld, hj⟩
    exact ⟨j, hsame j hj ▸ hheld, hj⟩
  · rintro ⟨j, hheld, hj⟩
    exact ⟨j, (hsame j hj).trans hheld, hj⟩

theorem holdsKind_pressed {kind : Kind} {k : Key} (hkind : k.kind = some kind) :
    HoldsKind (change held (.key k true)) kind :=
  ⟨k, change_self held k true, hkind⟩

theorem holdsKind_released {kind : Kind} {k : Key} :
    HoldsKind (change held (.key k false)) kind ↔
      ∃ other, other ≠ k ∧ held other = true ∧ other.kind = some kind := by
  constructor
  · rintro ⟨j, hheld, hj⟩
    have hne : j ≠ k := by
      rintro rfl
      exact Bool.false_ne_true ((change_self held j false).symm.trans hheld)
    exact ⟨j, hne, (change_other held false hne).symm.trans hheld, hj⟩
  · rintro ⟨j, hne, hheld, hj⟩
    exact ⟨j, (change_other held false hne).trans hheld, hj⟩

theorem switches_iff (hon : s.hotkeyHandler = hotkeyHandler) (htell : FlagsTell s held) (k : Key)
    (pressed : Bool) :
    s.switches k pressed = true ↔ pressed = true ∧ ChangesConsole hotkeyHandler held k := by
  rw [ChangesConsole, ← htell .alt, ← htell .ctrl, ← htell .shift, ← hon]
  simp only [switches, flag, Bool.and_eq_true, Bool.or_eq_true]
  tauto

theorem quiet_of_keeps (hon : s.hotkeyHandler = hotkeyHandler) (htell : FlagsTell s held) {k : Key}
    {pressed : Bool} (hok : KeepsFlags hotkeyHandler held (.key k pressed)) :
    s.switches k pressed = false := by
  refine eq_false_of_ne_true fun hswitches => ?_
  obtain ⟨rfl, hchanges⟩ := (switches_iff hon htell k pressed).mp hswitches
  exact hok hchanges

theorem flagsTell_key (h : Ready s) (htell : FlagsTell s held) (k : Key) (pressed : Bool)
    (hquiet : s.switches k pressed = false) :
    FlagsTell (typed s (.key k pressed)) (change held (.key k pressed)) ↔
      (pressed = false →
        ∀ other, other ≠ k → held other = true → other.kind = k.kind → k.kind = none) := by
  have hflags := (feed_key h k pressed hquiet).flags
  have hother (kind : Kind) (hne : k.kind ≠ some kind) :
      (typed s (.key k pressed)).flag kind = true ↔ HoldsKind (change held (.key k pressed)) kind := by
    rw [holdsKind_other hne, ← htell kind, typed, KeyChange.codes, hflags, if_neg hne]
  constructor
  · rintro hnext rfl other hne hheld hkind
    by_contra hsome
    obtain ⟨kind, hk⟩ := Option.ne_none_iff_exists'.mp hsome
    have hflag := (hnext kind).mpr
      (holdsKind_released.mpr ⟨other, hne, hheld, hkind.trans hk⟩)
    rw [typed, KeyChange.codes, hflags, if_pos hk] at hflag
    cases hflag
  · intro hlast kind
    by_cases hk : k.kind = some kind
    · rw [typed, KeyChange.codes, hflags, if_pos hk]
      cases pressed with
      | true => exact iff_of_true rfl (holdsKind_pressed hk)
      | false =>
        refine iff_of_false Bool.false_ne_true ?_
        rw [holdsKind_released]
        rintro ⟨other, hne, hheld, hkind⟩
        have hnone := hlast rfl other hne hheld (hkind.trans hk.symm)
        rw [hnone] at hk
        cases hk
    · exact hother kind hk

theorem not_flagsTell (h : Ready s) (htell : FlagsTell s held) {k : Key} {pressed : Bool}
    (hswitches : s.switches k pressed = true) :
    ¬FlagsTell (typed s (.key k pressed)) (change held (.key k pressed)) := by
  intro hnext
  obtain ⟨-, hchanges⟩ := (switches_iff rfl htell k pressed).mp hswitches
  have hnone (kind : Kind) : ¬HoldsKind held kind := by
    have hne : k.kind ≠ some kind := function_kind hchanges.2.1 ▸ (Option.some_ne_none kind).symm
    rw [← holdsKind_other hne pressed, ← hnext kind, typed, KeyChange.codes,
      feed_switches h hswitches]
    exact Bool.false_ne_true
  obtain ⟨-, -, halt | ⟨hctrl, -⟩⟩ := hchanges
  · exact hnone .alt halt
  · exact hnone .ctrl hctrl

structure Steady (hotkeyHandler : Bool) (s : Decoder) : Prop where
  ready : Ready s
  handler : s.hotkeyHandler = hotkeyHandler

theorem steady_key (h : Steady hotkeyHandler s) {k : Key} {pressed : Bool}
    (hquiet : s.switches k pressed = false) : Steady hotkeyHandler (typed s (.key k pressed)) := by
  have hchange := feed_key h.ready k pressed hquiet
  exact ⟨h.ready.changed hchange, hchange.handler.trans h.handler⟩

theorem keepsFlags_iff (h : Steady hotkeyHandler s) (htell : FlagsTell s held) (k : Key)
    (pressed : Bool) :
    FlagsTell (typed s (.key k pressed)) (change held (.key k pressed)) ↔
      KeepsFlags hotkeyHandler held (.key k pressed) := by
  have hiff := switches_iff h.handler htell k pressed
  by_cases hswitches : s.switches k pressed = true
  · obtain ⟨rfl, hchanges⟩ := hiff.mp hswitches
    exact iff_of_false (not_flagsTell h.ready htell hswitches) (not_not.mpr hchanges)
  · rw [flagsTell_key h.ready htell k pressed (eq_false_of_ne_true hswitches)]
    cases pressed with
    | true =>
      refine iff_of_true (fun h => by cases h) fun hchanges => ?_
      exact hswitches (hiff.mpr ⟨rfl, hchanges⟩)
    | false => exact forall_prop_of_true rfl

end Steps

def noneHeld : Held := fun _ => false

theorem init_steady (hotkeyHandler : Bool) : Steady hotkeyHandler (keyboardInit hotkeyHandler) :=
  ⟨⟨rfl, rfl, fun _ => rfl⟩, rfl⟩

theorem init_tells (hotkeyHandler : Bool) : FlagsTell (keyboardInit hotkeyHandler) noneHeld := by
  intro kind
  refine iff_of_false ?_ fun ⟨_, hheld, _⟩ => Bool.false_ne_true hheld
  cases kind <;> exact Bool.false_ne_true

def Tracked (hotkeyHandler : Bool) (keys : List KeyChange) : Prop :=
  ∀ pre, pre <+: keys → FlagsTell (pre.foldl typed (keyboardInit hotkeyHandler))
    (pre.foldl change noneHeld)

abbrev stepHeld (held : Held) (key : KeyChange) : Option Held := some (change held key)

theorem along_not_pause {keys : List KeyChange} {held : Held} (h : .pause ∉ keys) :
    Along stepHeld (fun _ key => key ≠ .pause) held keys := by
  induction keys generalizing held with
  | nil => trivial
  | cons key keys ih =>
    rw [List.mem_cons, not_or] at h
    exact ⟨Ne.symm h.1, fun _ _ => ih h.2⟩

theorem not_pause_of_along {hotkeyHandler : Bool} {keys : List KeyChange} {held : Held}
    (h : Along stepHeld (KeepsFlags hotkeyHandler) held keys) : .pause ∉ keys := by
  induction keys generalizing held with
  | nil => exact List.not_mem_nil
  | cons key keys ih =>
    obtain ⟨hkey, hrest⟩ := h
    rw [List.mem_cons, not_or]
    refine ⟨?_, ih (hrest _ rfl)⟩
    rintro rfl
    exact hkey

theorem tracked_iff {keys : List KeyChange} (hotkeyHandler : Bool) (hpause : .pause ∉ keys) :
    Tracked hotkeyHandler keys ↔ Along stepHeld (KeepsFlags hotkeyHandler) noneHeld keys := by
  refine @Lockstep.agree_iff_along _ _ _ _ _ (fun s _ => Steady hotkeyHandler s) FlagsTell
    (fun _ key => key ≠ .pause) (KeepsFlags hotkeyHandler) ?_ ?_ keys _ _ (init_steady hotkeyHandler)
    (init_tells hotkeyHandler) (along_not_pause hpause)
  · intro s held key hsteady htell hkey hok
    cases key with
    | key k pressed => exact steady_key hsteady (quiet_of_keeps hsteady.handler htell hok)
    | pause => exact absurd rfl hkey
  · intro s held key hsteady htell hkey
    cases key with
    | key k pressed => exact keepsFlags_iff hsteady htell k pressed
    | pause => exact absurd rfl hkey

theorem modifiers_tracked (hotkeyHandler : Bool) (keys : List KeyChange) :
    (Along stepHeld (KeepsFlags hotkeyHandler) noneHeld keys → Tracked hotkeyHandler keys) ∧
      (.pause ∉ keys →
        (Tracked hotkeyHandler keys ↔ Along stepHeld (KeepsFlags hotkeyHandler) noneHeld keys)) :=
  ⟨fun h => (tracked_iff hotkeyHandler (not_pause_of_along h)).mpr h, tracked_iff hotkeyHandler⟩

def leftShift : Key := ⟨false, keyLshift, by decide⟩

def rightShift : Key := ⟨false, keyRshift, by decide⟩

-- the right shift is let go while the left one is held
theorem held_shift_lost : ¬Tracked false
    [.key leftShift true, .key rightShift true, .key rightShift false] := by
  intro h
  have hflag := (h _ List.prefix_rfl .shift).mpr ⟨leftShift, by decide, by decide⟩
  exact absurd hflag (by decide)

end HouseOS.Keyboard
