import HouseOS.Keyboard.Model

namespace HouseOS.Keyboard

open Decoder

variable {s : Decoder} {scancode : UInt8} {n : Nat}

-- inside the code that the prefix 0xE1 starts, `n` bytes of it seen
structure Collecting (n : Nat) (s : Decoder) : Prop where
  pauseBreak : s.pauseBreak = true
  pauseIndex : s.pauseIndex = n

structure Silent (s t : Decoder) : Prop where
  events : t.events = s.events
  buffer : t.buffer = s.buffer
  shift : t.shiftPressed = s.shiftPressed
  ctrl : t.ctrlPressed = s.ctrlPressed
  alt : t.altPressed = s.altPressed
  caps : t.capsLock = s.capsLock

theorem Silent.keyEvent {t : Decoder} (h : Silent s t) (keycode ascii : UInt8) :
    t.keyEvent keycode ascii = s.keyEvent keycode ascii := by
  simp only [Decoder.keyEvent, h.shift, h.ctrl, h.alt, h.caps]

-- the prefix starts the count anew wherever it comes
theorem prefix_restarts (s : Decoder) :
    Collecting 0 (s.keyboardProcessScancode 0xE1) ∧ Silent s (s.keyboardProcessScancode 0xE1) :=
  ⟨⟨rfl, rfl⟩, ⟨rfl, rfl, rfl, rfl, rfl, rfl⟩⟩

theorem pauseByte_collects (hroom : s.pauseIndex + 1 < 6) :
    s.pauseByte scancode = { s with
      pauseBuffer := fun j => if j = s.pauseIndex then scancode else s.pauseBuffer j
      pauseIndex := s.pauseIndex + 1 } :=
  if_neg (Nat.not_le_of_lt hroom)

theorem pauseByte_completes (hfull : 6 ≤ s.pauseIndex + 1) :
    s.pauseByte scancode = ({ s with
      pauseBuffer := fun j => if j = s.pauseIndex then scancode else s.pauseBuffer j
      pauseIndex := s.pauseIndex + 1
      pauseBreak := false } : Decoder).eventBufferPut (s.keyEvent keyPause 0) :=
  if_pos hfull

theorem Collecting.pauseByte (h : Collecting n s) (hcode : scancode ≠ 0xE1) :
    s.keyboardProcessScancode scancode =
      ({ s with lastScancode := scancode }.scancodeBufferPut scancode).pauseByte scancode :=
  (if_neg hcode).trans (if_pos h.pauseBreak)

theorem Collecting.step (h : Collecting n s) (hcode : scancode ≠ 0xE1) (hroom : n + 1 < 6) :
    Collecting (n + 1) (s.keyboardProcessScancode scancode) ∧
      Silent s (s.keyboardProcessScancode scancode) := by
  have hmore : s.pauseIndex + 1 < 6 := by
    rw [h.pauseIndex]
    exact hroom
  rw [(h.pauseByte hcode).trans (pauseByte_collects hmore)]
  exact ⟨⟨h.pauseBreak, congrArg (· + 1) h.pauseIndex⟩, ⟨rfl, rfl, rfl, rfl, rfl, rfl⟩⟩

theorem Collecting.last (h : Collecting 5 s) (hcode : scancode ≠ 0xE1) :
    (s.keyboardProcessScancode scancode).pauseBreak = false ∧
      (s.keyboardProcessScancode scancode).events =
        put eventBufferSize s.events (s.keyEvent keyPause 0) ∧
      (s.keyboardProcessScancode scancode).buffer = s.buffer := by
  have hfull : 6 ≤ s.pauseIndex + 1 := by
    have hfive := h.pauseIndex
    omega
  rw [(h.pauseByte hcode).trans (pauseByte_completes hfull)]
  exact ⟨rfl, rfl, rfl⟩

section Output

def drained (s : Decoder) : Decoder := { s with events := [], buffer := [] }

def produces : Decoder → List UInt8 → List KeyEvent × List UInt8
  | _, [] => ([], [])
  | s, code :: codes =>
      let t := (drained s).keyboardProcessScancode code
      ((t.events ++ (produces t codes).1), (t.buffer ++ (produces t codes).2))

theorem Collecting.drained (h : Collecting n s) : Collecting n (drained s) :=
  ⟨h.pauseBreak, h.pauseIndex⟩

theorem Silent.drained {t : Decoder} (h : Silent (drained s) t) (codes : List UInt8) :
    t.events ++ (produces t codes).1 = (produces t codes).1 ∧
      t.buffer ++ (produces t codes).2 = (produces t codes).2 := by
  rw [h.events, h.buffer]
  exact ⟨rfl, rfl⟩

theorem produces_prefix (s : Decoder) (codes : List UInt8) :
    produces s (0xE1 :: codes) = produces ((drained s).keyboardProcessScancode 0xE1) codes := by
  have hsilent := (prefix_restarts (drained s)).2.drained codes
  exact Prod.ext hsilent.1 hsilent.2

theorem Collecting.produces (h : Collecting n s) (codes rest : List UInt8)
    (hcodes : ∀ c ∈ codes, c ≠ 0xE1) (hroom : n + codes.length < 6) :
    ∃ t, Collecting (n + codes.length) t ∧
      (∀ keycode ascii, t.keyEvent keycode ascii = s.keyEvent keycode ascii) ∧
      produces s (codes ++ rest) = produces t rest := by
  induction codes generalizing n s with
  | nil => exact ⟨s, h, fun _ _ => rfl, rfl⟩
  | cons c codes ih =>
    rw [List.length_cons] at hroom
    obtain ⟨hstep, hsilent⟩ := h.drained.step (hcodes c List.mem_cons_self) (by omega)
    obtain ⟨t, ht, hkey, hrest⟩ := ih hstep
      (fun c' hc' => hcodes c' (List.mem_cons_of_mem c hc')) (by omega)
    refine ⟨t, ?_, fun keycode ascii => ?_, ?_⟩
    · rw [List.length_cons, ← Nat.add_assoc, Nat.add_right_comm]
      exact ht
    · rw [hkey, hsilent.keyEvent]
      rfl
    · have hnone := hsilent.drained (codes ++ rest)
      exact (Prod.ext hnone.1 hnone.2 : _).trans hrest

-- the pause code sends its own prefix a second time
def pauseCode : List UInt8 := [0xE1, 0x1D, 0x45, 0xE1, 0x9D, 0xC5]

theorem pauseCode_append (rest : List UInt8) :
    pauseCode ++ rest = 0xE1 :: ([0x1D, 0x45] ++ 0xE1 :: ([0x9D, 0xC5] ++ rest)) := rfl

theorem pair_ne_mark {a b : UInt8} (ha : a ≠ 0xE1) (hb : b ≠ 0xE1) : ∀ c ∈ [a, b], c ≠ 0xE1 := by
  intro c hc
  rcases List.mem_pair.mp hc with rfl | rfl
  · exact ha
  · exact hb

theorem pauseCode_produces (s : Decoder) (rest : List UInt8) :
    ∃ t, Collecting 2 t ∧ (∀ keycode ascii, t.keyEvent keycode ascii = s.keyEvent keycode ascii) ∧
      produces s (pauseCode ++ rest) = produces t rest := by
  obtain ⟨hfirst, hsilent⟩ := prefix_restarts (drained s)
  obtain ⟨t, -, hkey, hfour⟩ := hfirst.produces [0x1D, 0x45] (0xE1 :: ([0x9D, 0xC5] ++ rest))
    (pair_ne_mark (by decide) (by decide)) (by decide)
  obtain ⟨hsecond, hagain⟩ := prefix_restarts (drained t)
  obtain ⟨u, hu, hkey', hsix⟩ := hsecond.produces [0x9D, 0xC5] rest
    (pair_ne_mark (by decide) (by decide)) (by decide)
  refine ⟨u, hu, fun keycode ascii => ?_, ?_⟩
  · rw [hkey', hagain.keyEvent]
    exact (hkey keycode ascii).trans (hsilent.keyEvent keycode ascii)
  · rw [pauseCode_append, produces_prefix, hfour, produces_prefix, hsix]

-- no event comes from the code itself; the four keys after it are taken for its end
theorem pauseCode_eats (s : Decoder) (a b c d : UInt8)
    (hcodes : ∀ x ∈ [a, b, c, d], x ≠ 0xE1) :
    produces s (pauseCode ++ [a, b, c, d]) = ([s.keyEvent keyPause 0], []) := by
  obtain ⟨t, ht, hkey, hcode⟩ := pauseCode_produces s [a, b, c, d]
  obtain ⟨u, hu, hkey', hthree⟩ := ht.produces [a, b, c] [d]
    (fun x hx => hcodes x (by simp only [List.mem_cons, List.not_mem_nil] at hx ⊢; tauto)) (by simp)
  obtain ⟨-, hevents, hbuffer⟩ := hu.drained.last (hcodes d (by simp))
  have hlast : produces u [d] = ([s.keyEvent keyPause 0], []) := by
    refine Prod.ext ?_ ?_
    · show ((drained u).keyboardProcessScancode d).events ++ [] = _
      rw [List.append_nil, hevents, ← hkey, ← hkey']
      rfl
    · show ((drained u).keyboardProcessScancode d).buffer ++ [] = []
      rw [List.append_nil, hbuffer]
      rfl
  exact hcode.trans (hthree.trans hlast)

end Output

section Decoding

def DecodesPause (s : Decoder) (rest : List UInt8) : Prop :=
  (produces s pauseCode).1.countP (fun ev => ev.scancode == keyPause) = 1 ∧
    produces (s.feed pauseCode) rest = produces s rest

theorem pause_never_decoded (s : Decoder) (rest : List UInt8) : ¬DecodesPause s rest := by
  rintro ⟨hone, -⟩
  obtain ⟨t, -, -, hnone⟩ := pauseCode_produces s []
  rw [List.append_nil] at hnone
  rw [hnone] at hone
  exact Nat.zero_ne_one hone

-- four letters typed after the pause key of a fresh keyboard give one event and no character
theorem pause_eats_letters :
    ¬DecodesPause (keyboardInit false) [0x1E, 0x30, 0x2E, 0x20] ∧
      produces (keyboardInit false) pauseCode = ([], []) ∧
      (produces (keyboardInit false) [0x1E, 0x30, 0x2E, 0x20]).2 = [0x61, 0x62, 0x63, 0x64] ∧
      (produces ((keyboardInit false).feed pauseCode) [0x1E, 0x30, 0x2E, 0x20]).2 = [] := by
  refine ⟨fun h => absurd h.1 (by decide), rfl, rfl, rfl⟩

end Decoding

end HouseOS.Keyboard
