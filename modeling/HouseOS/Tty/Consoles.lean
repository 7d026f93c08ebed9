import HouseOS.Tty.Paper
import Mathlib.Logic.Function.Basic

namespace HouseOS.Tty

open HouseOS.Paper

abbrev VgaMem := Nat → UInt16

def vgaWidth : Nat := 80

def vgaHeight : Nat := 25

def vgaEntry (color c : UInt8) : UInt16 := color.toUInt16 <<< 8 ||| c.toUInt16

namespace Vga

variable (color : UInt8)

def fill (mem : VgaMem) : VgaMem := fun i =>
  if i < vgaWidth * vgaHeight then vgaEntry color 32 else mem i

def drawRow (t : Device) (cells : List UInt8) (row : Nat) (mem : VgaMem) : VgaMem :=
  (List.range t.cols).foldl (fun mem x =>
    Function.update mem (row * vgaWidth + x) (vgaEntry color (cells.getD (t.cell x row) 0))) mem

def redrawRow (t : Device) (row : Nat) (mem : VgaMem) : VgaMem :=
  match t.cells with
  | none => mem
  | some cells => if t.rows ≤ row ∨ t.type ≠ .vga then mem else drawRow color t cells row mem

def renderFull (t : Device) (mem : VgaMem) : VgaMem :=
  match t.cells with
  | none => mem
  | some cells =>
      if t.type ≠ .vga then mem
      else (List.range t.rows).foldl (fun mem y => drawRow color t cells y mem) (fill color mem)

-- the cells have been moved up before the last row is drawn again
def scroll (active : Nat) (t : Device) (mem : VgaMem) : VgaMem :=
  if t.cells = none ∨ t.rows = 0 ∨ t.type ≠ .vga ∨ t.index ≠ active then mem
  else
    redrawRow color (t.scroll active) (t.rows - 1) fun i =>
      if i < (vgaHeight - 1) * vgaWidth then mem (i + vgaWidth) else mem i

def nextRow (active : Nat) (t : Device) (mem : VgaMem) : VgaMem :=
  if t.rows ≤ (t.cursorY + 1) % 2 ^ 32 then scroll color active (t.moveTo 0 (t.rows - 1)) mem
  else mem

def eraseStep (active row : Nat) (s : Device × VgaMem) (x : Nat) : Device × VgaMem :=
  let t := s.1.store x row 32
  if t.index = active ∧ t.type = .vga then (t.redrawRow row, redrawRow color t row s.2)
  else (t, s.2)

def eraseToEol (active : Nat) (t : Device) (mem : VgaMem) : VgaMem :=
  if t.cells = none ∨ t.rows ≤ t.cursorY ∨ t.cols ≤ t.cursorX then mem
  else
    ((List.range' t.cursorX (t.cols - t.cursorX)).foldl (eraseStep color active t.cursorY)
      (t, mem)).2

-- of all sequences only those that erase draw anything
def consumeAnsi (active : Nat) (c : UInt8) (t : Device) (mem : VgaMem) : VgaMem :=
  if t.ansiState = .bracket ∧ (c = 75 ∨ c = 88 ∨ c = 74) then eraseToEol color active t mem else mem

def drawCell (active : Nat) (c : UInt8) (t : Device) (mem : VgaMem) : VgaMem :=
  if t.index = active then
    Function.update mem (t.cursorY * vgaWidth + t.cursorX) (vgaEntry color c)
  else mem

def putc (active : Nat) (c : UInt8) (t : Device) (mem : VgaMem) : VgaMem :=
  let mem := consumeAnsi color active c t mem
  let (t, eaten) := t.consumeAnsi active c
  if eaten then mem
  else if c = 13 then mem
  else if c = 10 then nextRow color active t mem
  else if c = 8 then drawCell color active 32 t.cursorLeftRaw mem
  else
    let mem := drawCell color active c t mem
    let t := t.store t.cursorX t.cursorY c
    if t.cols ≤ (t.cursorX + 1) % 2 ^ 32 then nextRow color active t mem else mem

end Vga

structure Consoles where
  ttys : Fin 8 → Device
  active : Fin 8
  mem : VgaMem

namespace Consoles

variable (color : UInt8)

def ttyPutcVga (s : Consoles) (i : Fin 8) (c : UInt8) : Consoles :=
  let t := s.ttys i
  if t.type ≠ .vga ∨ t.cells = none then s
  else if t.cols = 0 ∨ t.rows = 0 then s
  else
    { s with
      ttys := Function.update s.ttys i (t.putcVga s.active c)
      mem := Vga.putc color s.active c t s.mem }

def ttyVgaWrite (s : Consoles) (i : Fin 8) (buf : List UInt8) : Consoles :=
  if (s.ttys i).type ≠ .vga then s else buf.foldl (fun s c => s.ttyPutcVga color i c) s

def ttySetActive (s : Consoles) (idx : Nat) : Consoles :=
  if h : idx < 8 then
    let t := s.ttys ⟨idx, h⟩
    { s with
      active := ⟨idx, h⟩
      mem := Vga.renderFull color t (if t.type = .vga then Vga.fill color s.mem else s.mem) }
  else s

-- a number from 1, and 0 for the first one
def ioctlSetActive (s : Consoles) (raw : Nat) : Consoles :=
  if 1 ≤ raw ∧ raw ≤ 8 then s.ttySetActive color (raw - 1)
  else if raw < 8 then s.ttySetActive color raw
  else s

local instance firstTty : NeZero (8 : Nat) := ⟨by decide⟩

def ttyKlog (s : Consoles) (text : List UInt8) : Consoles :=
  let s := if (s.ttys 0).cells = none then s else text.foldl (fun s c => s.ttyPutcVga color 0 c) s
  if s.active = 0 then s
  else if (s.ttys s.active).cells = none then s
  else text.foldl (fun u c => u.ttyPutcVga color s.active c) s

def ttyInit (got : Fin 8 → Bool) (mem : VgaMem) : Consoles :=
  let ttys := fun i : Fin 8 => Tty.ttyInit .vga i vgaScreen (got i)
  ⟨ttys, 0, Vga.renderFull color (ttys 0) (Vga.fill color mem)⟩

end Consoles

-- `echo`: a key that `tty_vga_read` writes back
inductive ConsoleOp where
  | write (i : Fin 8) (buf : List UInt8)
  | echo (i : Fin 8) (c : UInt8)
  | hotkey (idx : Nat)
  | ioctl (raw : Nat)
  | klog (text : List UInt8)
  deriving DecidableEq, Repr

def Consoles.perform (color : UInt8) (s : Consoles) : ConsoleOp → Consoles
  | .write i buf => s.ttyVgaWrite color i buf
  | .echo i c => s.ttyPutcVga color i c
  | .hotkey idx => s.ttySetActive color idx
  | .ioctl raw => s.ioctlSetActive color raw
  | .klog text => s.ttyKlog color text

section Memory

variable {color : UInt8} {index active : Nat} {d : Decoder} {s : Sheet UInt8} {t : Device}
  {mem : VgaMem}

def Displays (color : UInt8) (s : Sheet UInt8) (mem : VgaMem) : Prop :=
  ∀ r < vgaHeight, ∀ x < vgaWidth, mem (r * vgaWidth + x) = vgaEntry color (s.seen r x)

theorem drawRow_at (h : Shows .vga index vgaScreen d s t) {cells : List UInt8}
    (hcells : t.cells = some cells) {row : Nat} (hrow : row < vgaHeight) {r x : Nat}
    (hx : x < vgaWidth) :
    Vga.drawRow color t cells row mem (r * vgaWidth + x) =
      if r = row then vgaEntry color (s.seen r x) else mem (r * vgaWidth + x) := by
  obtain ⟨cells', hcells', -, hseen⟩ := h.cells
  obtain rfl : cells = cells' := Option.some.inj (hcells.symm.trans hcells')
  have hcols : t.cols = vgaWidth := h.cols_eq
  have hcell (i : Nat) (hi : i < vgaWidth) : cells.getD (t.cell i row) 0 = s.seen row i := by
    have hplace : t.cell i row = row * vgaWidth + i := by
      rw [Device.cell, hcols, Nat.mod_eq_of_lt (Nat.lt_trans (place_lt hrow hi) (by decide))]
    have hthere : cells[row * vgaWidth + i]? = some (s.seen row i) := hseen row hrow i hi
    rw [hplace, List.getD_eq_getElem?_getD, hthere]
    rfl
  have hdrawn : ∀ n ≤ vgaWidth, ((List.range n).foldl (fun mem i =>
      Function.update mem (row * vgaWidth + i) (vgaEntry color (cells.getD (t.cell i row) 0))) mem)
        (r * vgaWidth + x) =
      if r = row ∧ x < n then vgaEntry color (s.seen r x) else mem (r * vgaWidth + x) := by
    intro n
    induction n with
    | zero => exact fun _ => (if_neg (by omega)).symm
    | succ n ih =>
      intro hn
      have hplace := @place_inj vgaWidth r row x n hx (by omega)
      rw [List.range_succ, List.foldl_append, List.foldl_cons, List.foldl_nil, Function.update_apply]
      by_cases heq : r * vgaWidth + x = row * vgaWidth + n
      · obtain ⟨rfl, rfl⟩ := hplace.mp heq
        rw [if_pos rfl, if_pos ⟨rfl, Nat.lt_succ_self x⟩, hcell x hx]
      · rw [if_neg heq, ih (by omega)]
        exact if_congr (by have := mt hplace.mpr heq; omega) rfl rfl
  rw [Vga.drawRow, hcols, hdrawn vgaWidth (Nat.le_refl _)]
  exact if_congr (and_iff_left hx) rfl rfl

theorem redrawRow_at (h : Shows .vga index vgaScreen d s t) {row : Nat} (hrow : row < vgaHeight)
    {r x : Nat} (hx : x < vgaWidth) :
    Vga.redrawRow color t row mem (r * vgaWidth + x) =
      if r = row then vgaEntry color (s.seen r x) else mem (r * vgaWidth + x) := by
  obtain ⟨cells, hcells, -⟩ := h.cells
  have hrows : t.rows = vgaHeight := h.rows_eq
  rw [Vga.redrawRow, hcells]
  dsimp only
  rw [if_neg (by rw [hrows, h.type]; simp; omega)]
  exact drawRow_at h hcells hrow hx

theorem displays_redrawRow (h : Shows .vga index vgaScreen d s t) {row : Nat}
    (hrow : row < vgaHeight)
    (hrest : ∀ r < vgaHeight, r ≠ row → ∀ x < vgaWidth,
      mem (r * vgaWidth + x) = vgaEntry color (s.seen r x)) :
    Displays color s (Vga.redrawRow color t row mem) := by
  intro r hr x hx
  rw [redrawRow_at h hrow hx]
  split
  · rfl
  next hne => exact hrest r hr hne x hx

theorem displays_renderFull (h : Shows .vga index vgaScreen d s t) :
    Displays color s (Vga.renderFull color t mem) := by
  obtain ⟨cells, hcells, -⟩ := h.cells
  have hrows : t.rows = vgaHeight := h.rows_eq
  have hdrawn : ∀ n ≤ vgaHeight, ∀ r < n, ∀ x < vgaWidth,
      ((List.range n).foldl (fun mem y => Vga.drawRow color t cells y mem) (Vga.fill color mem))
        (r * vgaWidth + x) = vgaEntry color (s.seen r x) := by
    intro n
    induction n with
    | zero => exact fun _ r hr => absurd hr (Nat.not_lt_zero r)
    | succ n ih =>
      intro hn r hr x hx
      rw [List.range_succ, List.foldl_append, List.foldl_cons, List.foldl_nil,
        drawRow_at h hcells (by omega) hx]
      split
      · rfl
      next hne => exact ih (by omega) r (by omega) x hx
  rw [Vga.renderFull, hcells]
  dsimp only
  rw [if_neg (by rw [h.type]; simp), hrows]
  exact hdrawn vgaHeight (Nat.le_refl _)

theorem displays_scroll (h : Shows .vga index vgaScreen d s t) (hactive : index = active)
    (hd : Displays color s mem) (hlast : ¬s.row + 1 < vgaHeight) :
    Displays color (s.nextRow vgaHeight)
      (Vga.scroll color active (t.moveTo 0 (vgaHeight - 1)) mem) := by
  have hscrolled := @Shows.scroll _ _ _ _ _ _ active h (by decide) hlast
  have hrows : t.rows = vgaHeight := h.rows_eq
  obtain ⟨cells, hcells, -⟩ := h.cells
  have hon : ¬((t.moveTo 0 (vgaHeight - 1)).cells = none ∨ (t.moveTo 0 (vgaHeight - 1)).rows = 0 ∨
      (t.moveTo 0 (vgaHeight - 1)).type ≠ .vga ∨ (t.moveTo 0 (vgaHeight - 1)).index ≠ active) := by
    rintro (hnone | hzero | htype | hindex)
    · exact absurd (hcells.symm.trans hnone) nofun
    · exact absurd (hrows.symm.trans hzero) (by decide)
    · exact htype h.type
    · exact hindex (h.index.trans hactive)
  rw [Vga.scroll, if_neg hon]
  show Displays color _ (Vga.redrawRow color _ (t.rows - 1) _)
  rw [hrows]
  refine displays_redrawRow hscrolled (by decide) fun r hr hne x hx => ?_
  have hplace : r * vgaWidth + x < (vgaHeight - 1) * vgaWidth := place_lt (by omega) hx
  have hseen : (s.nextRow vgaScreen.rows).seen r x = s.seen (r + 1) x :=
    Sheet.seen_nextRow_last s hlast r x
  rw [if_pos hplace, hseen, ← hd (r + 1) (by omega) x hx, Nat.succ_mul, Nat.add_right_comm]

theorem displays_nextRow (h : Shows .vga index vgaScreen d s t) (hactive : index = active)
    (hd : Displays color s mem) :
    Displays color (s.nextRow vgaHeight) (Vga.nextRow color active t mem) := by
  have hy : s.row < vgaHeight := h.within.row
  have hrows : t.rows = vgaHeight := h.rows_eq
  have hsmall : vgaHeight = 25 := rfl
  rw [Vga.nextRow, h.y, hrows, Nat.mod_eq_of_lt (by omega)]
  split
  next hge => exact displays_scroll h hactive hd (by omega)
  next hlt =>
    intro r hr x hx
    rw [Sheet.seen_nextRow_inner s (by omega)]
    exact hd r hr x hx

theorem displays_stamp (hd : Displays color s mem) {row col : Nat} (hcol : col < vgaWidth)
    (c : UInt8) :
    Displays color (s.stamp row col c)
      (Function.update mem (row * vgaWidth + col) (vgaEntry color c)) := by
  intro r hr x hx
  have hplace := @place_inj vgaWidth r row x col hx hcol
  rw [Function.update_apply, Sheet.seen_stamp, hd r hr x hx]
  by_cases heq : r = row ∧ x = col
  · rw [if_pos (hplace.mpr heq), if_pos heq]
  · rw [if_neg (mt hplace.mp heq), if_neg heq]

theorem displays_eraseSteps {row : Nat} (hrow : row < vgaHeight) (hactive : index = active) :
    ∀ (l : List Nat), (∀ x ∈ l, x < vgaWidth) → ∀ {s : Sheet UInt8} {p : Device × VgaMem},
      Shows .vga index vgaScreen d s p.1 → Displays color s p.2 →
        Displays color (l.foldl (fun s x => s.stamp row x 32) s)
          (l.foldl (Vga.eraseStep color active row) p).2 := by
  intro l
  induction l with
  | nil => exact fun _ _ _ _ hd => hd
  | cons x l ih =>
    intro hl s p h hd
    obtain ⟨hx, hl⟩ := List.forall_mem_cons.mp hl
    have hstored : Shows .vga index vgaScreen d (s.stamp row x 32) (p.1.store x row 32) :=
      h.store hx hrow 32
    have hon : (p.1.store x row 32).index = active ∧ (p.1.store x row 32).type = .vga :=
      ⟨hstored.index.trans hactive, hstored.type⟩
    rw [List.foldl_cons, List.foldl_cons, Vga.eraseStep, if_pos hon]
    refine ih hl (hstored.forget (Shows.forget_redrawRow _ _)) ?_
    refine displays_redrawRow hstored hrow fun r hr hne i hi => ?_
    rw [Sheet.seen_stamp, if_neg fun heq => hne heq.1, hd r hr i hi]

theorem displays_eraseToEol (h : Shows .vga index vgaScreen d s t) (hactive : index = active)
    (hd : Displays color s mem) :
    Displays color (s.clearRight 32 vgaWidth) (Vga.eraseToEol color active t mem) := by
  have hx : s.col < vgaWidth := h.within.col
  have hy : s.row < vgaHeight := h.within.row
  have hcols : t.cols = vgaWidth := h.cols_eq
  have hrows : t.rows = vgaHeight := h.rows_eq
  obtain ⟨cells, hcells, -⟩ := h.cells
  have hon : ¬(t.cells = none ∨ vgaHeight ≤ s.row ∨ vgaWidth ≤ s.col) := by
    rintro (hnone | hge | hge)
    · exact absurd (hcells.symm.trans hnone) nofun
    · omega
    · omega
  rw [Vga.eraseToEol, hcols, hrows, h.x, h.y, if_neg hon, Sheet.clearRight]
  refine displays_eraseSteps hy hactive _ (fun x hmem => ?_) h hd
  obtain ⟨k, hk, rfl⟩ := List.mem_range'.mp hmem
  omega

theorem displays_drawCell (h : Shows .vga index vgaScreen d s t) (hactive : index = active)
    (hd : Displays color s mem) (c : UInt8) :
    Displays color (s.write c) (Vga.drawCell color active c t mem) := by
  rw [Vga.drawCell, if_pos (h.index.trans hactive), h.x, h.y]
  exact displays_stamp hd h.within.col c

theorem displays_plain (h : Shows .vga index vgaScreen d s t) (hactive : index = active)
    (hd : Displays color s mem) (c : UInt8) :
    Displays color ((Decoder.plain c).write vgaWidth vgaHeight s)
      (if c = 13 then mem
       else if c = 10 then Vga.nextRow color active t mem
       else if c = 8 then Vga.drawCell color active 32 t.cursorLeftRaw mem
       else
         let mem := Vga.drawCell color active c t mem
         let t := t.store t.cursorX t.cursorY c
         if t.cols ≤ (t.cursorX + 1) % 2 ^ 32 then Vga.nextRow color active t mem else mem) := by
  have hx : s.col < vgaWidth := h.within.col
  rw [Decoder.plain]
  by_cases hcr : c = 13
  · rw [if_pos hcr, if_pos hcr]
    exact hd
  rw [if_neg hcr, if_neg hcr]
  by_cases hlf : c = 10
  · rw [if_pos hlf, if_pos hlf]
    exact displays_nextRow h hactive hd
  rw [if_neg hlf, if_neg hlf]
  by_cases hbs : c = 8
  · rw [if_pos hbs, if_pos hbs]
    refine displays_drawCell h.cursorLeftRaw hactive ?_ 32
    rw [Displays, Sheet.seen_left]
    exact hd
  rw [if_neg hbs, if_neg hbs]
  have hdrawn := displays_drawCell h hactive hd c
  have hstored : Shows .vga index vgaScreen d (s.write c) (t.store t.cursorX t.cursorY c) := by
    rw [h.x, h.y]
    exact h.store hx h.within.row c
  have hcols : (t.store t.cursorX t.cursorY c).cols = vgaWidth := hstored.cols_eq
  have hcol : (t.store t.cursorX t.cursorY c).cursorX = s.col := h.x
  have hsmall : vgaWidth = 80 := rfl
  dsimp only
  rw [hcols, hcol, Nat.mod_eq_of_lt (by omega)]
  show Displays color (s.typed vgaWidth vgaHeight c) _
  rw [Sheet.typed]
  split
  next hlt =>
    rw [if_neg (by omega)]
    exact hdrawn
  next hge =>
    rw [if_pos (by omega)]
    exact displays_nextRow hstored hactive hdrawn

theorem displays_command (h : Shows .vga index vgaScreen d s t) (hactive : index = active)
    (hd : Displays color s mem) (c : UInt8) :
    Displays color ((d.command c).write vgaWidth vgaHeight s)
      (if c = 75 ∨ c = 88 ∨ c = 74 then Vga.eraseToEol color active t mem else mem) := by
  by_cases herase : c = 75 ∨ c = 88 ∨ c = 74
  · have hcommand : d.command c = .clearRight := by rcases herase with rfl | rfl | rfl <;> rfl
    rw [if_pos herase, hcommand]
    exact displays_eraseToEol h hactive hd
  rw [if_neg herase, Decoder.command]
  by_cases hleft : c = 68
  · rw [if_pos hleft, Displays, Command.write,
      Sheet.seen_iterate s fun s => s.seen_left vgaWidth]
    exact hd
  rw [if_neg hleft]
  by_cases hright : c = 67
  · rw [if_pos hright, Displays, Command.write,
      Sheet.seen_iterate s fun s => s.seen_right vgaWidth vgaHeight]
    exact hd
  rw [if_neg hright]
  by_cases hcol : c = 71
  · rw [if_pos hcol]
    exact hd
  rw [if_neg hcol]
  by_cases hhome : c = 72 ∨ c = 102
  · rw [if_pos hhome]
    exact hd
  · rw [if_neg hhome, if_neg herase]
    exact hd

theorem consumeAnsi_ground (h : t.ansiState = .ground) (c : UInt8) :
    t.consumeAnsi active c =
      if c = 27 then
        ({ t with ansiState := .escape, ansiParam := 0, ansiHaveParam := false }, true)
      else (t, false) := by
  rw [Device.consumeAnsi, h]

theorem consumeAnsi_busy (h : t.ansiState ≠ .ground) (c : UInt8) :
    (t.consumeAnsi active c).2 = true := by
  rw [Device.consumeAnsi]
  split
  next hground => exact absurd hground h
  next =>
    split
    · rfl
    · rfl
  next =>
    split
    · rfl
    split
    · rfl
    split
    · rfl
    · rfl

theorem putc_eaten {c : UInt8} (h : (t.consumeAnsi active c).2 = true) :
    Vga.putc color active c t mem = Vga.consumeAnsi color active c t mem := by
  rw [Vga.putc]
  exact if_pos h

theorem displays_putc (h : Shows .vga index vgaScreen d s t) (hactive : index = active)
    (hd : Displays color s mem) (c : UInt8) :
    Displays color ((d.next c).2.write vgaWidth vgaHeight s) (Vga.putc color active c t mem) := by
  have hdecoder := h.decoder
  subst hdecoder
  cases hstate : t.ansiState with
  | ground =>
    have hquiet : Vga.consumeAnsi color active c t mem = mem := by simp [Vga.consumeAnsi, hstate]
    by_cases hesc : c = 27
    · rw [putc_eaten (by rw [consumeAnsi_ground hstate, if_pos hesc]), hquiet]
      simp only [Decoder.next, if_pos hesc]
      exact hd
    · have hplain := displays_plain h hactive hd c
      rw [Vga.putc, hquiet, consumeAnsi_ground hstate, if_neg hesc]
      simp only [Decoder.next, if_neg hesc]
      exact hplain
  | escape =>
    have hquiet : Vga.consumeAnsi color active c t mem = mem := by simp [Vga.consumeAnsi, hstate]
    rw [putc_eaten (consumeAnsi_busy (by rw [hstate]; decide) c), hquiet]
    exact hd
  | bracket =>
    have hcommand := displays_command h hactive hd c
    rw [putc_eaten (consumeAnsi_busy (by rw [hstate]; decide) c), Vga.consumeAnsi]
    simp only [hstate, true_and]
    by_cases hdigit : 48 ≤ c ∧ c ≤ 57
    · have hno : ¬(c = 75 ∨ c = 88 ∨ c = 74) := by
        rintro (rfl | rfl | rfl) <;> exact absurd hdigit.2 (by decide)
      simp only [Decoder.next, if_pos hdigit, if_neg hno]
      exact hd
    by_cases hsemi : c = 59
    · have hno : ¬(c = 75 ∨ c = 88 ∨ c = 74) := by
        rw [hsemi]
        decide
      simp only [Decoder.next, if_neg hdigit, if_pos hsemi, if_neg hno]
      exact hd
    by_cases hfinal : 0x40 ≤ c ∧ c ≤ 0x7E
    · simp only [Decoder.next, if_neg hdigit, if_neg hsemi, if_pos hfinal]
      rw [hstate] at hcommand
      exact hcommand
    · have hno : ¬(c = 75 ∨ c = 88 ∨ c = 74) := by
        rintro (rfl | rfl | rfl) <;> exact hfinal (by decide)
      simp only [Decoder.next, if_neg hdigit, if_neg hsemi, if_neg hfinal, if_neg hno]
      exact hd

section Inactive

variable (hindex : t.index ≠ active)

include hindex

theorem eraseToEol_inactive : Vga.eraseToEol color active t mem = mem := by
  have hsteps : ∀ (l : List Nat) (row : Nat) (p : Device × VgaMem), p.1.index ≠ active →
      (l.foldl (Vga.eraseStep color active row) p).2 = p.2 := by
    intro l row
    induction l with
    | nil => exact fun _ _ => rfl
    | cons x l ih =>
      intro p hp
      have hoff : ¬((p.1.store x row 32).index = active ∧ (p.1.store x row 32).type = .vga) :=
        fun h => hp h.1
      have hstep : Vga.eraseStep color active row p x = (p.1.store x row 32, p.2) := if_neg hoff
      rw [List.foldl_cons, hstep]
      exact ih _ hp
  rw [Vga.eraseToEol]
  split
  · rfl
  · exact hsteps _ _ (t, mem) hindex

theorem drawCell_inactive (c : UInt8) : Vga.drawCell color active c t mem = mem := if_neg hindex

theorem nextRow_inactive : Vga.nextRow color active t mem = mem := by
  rw [Vga.nextRow]
  split
  · exact if_pos (Or.inr (Or.inr (Or.inr hindex)))
  · rfl

theorem putc_inactive (c : UInt8) : Vga.putc color active c t mem = mem := by
  have hquiet : Vga.consumeAnsi color active c t mem = mem := by
    rw [Vga.consumeAnsi]
    split
    · exact eraseToEol_inactive hindex
    · rfl
  have hleft : t.cursorLeftRaw.index ≠ active := by
    rw [Device.cursorLeftRaw]
    split
    · exact hindex
    split
    · exact hindex
    · exact hindex
  by_cases hground : t.ansiState = .ground
  · by_cases hesc : c = 27
    · rw [putc_eaten (by rw [consumeAnsi_ground hground, if_pos hesc]), hquiet]
    · rw [Vga.putc, consumeAnsi_ground hground, if_neg hesc, hquiet]
      dsimp only
      rw [if_neg Bool.false_ne_true, drawCell_inactive hleft, drawCell_inactive hindex,
        nextRow_inactive hindex, nextRow_inactive (t := t.store t.cursorX t.cursorY c) hindex]
      simp only [ite_self]
  · rw [putc_eaten (consumeAnsi_busy hground c), hquiet]

end Inactive

end Memory

section Coherent

variable {color : UInt8} {s : Consoles}

-- each terminal that has cells shows its paper; the active one's is on the screen
structure Coherent (color : UInt8) (s : Consoles) : Prop where
  shows : ∀ i, (s.ttys i).cells = none ∨ ∃ d sheet, Shows .vga i vgaScreen d sheet (s.ttys i) ∧
    (i = s.active → Displays color sheet s.mem)

theorem Coherent.ttyPutcVga (h : Coherent color s) (i : Fin 8) (c : UInt8) :
    Coherent color (s.ttyPutcVga color i c) := by
  rw [Consoles.ttyPutcVga]
  rcases h.shows i with hnone | ⟨d, sheet, hshows, hscreen⟩
  · rw [if_pos (Or.inr hnone)]
    exact h
  have hput := @Shows.putc _ _ _ _ _ _ s.active.val hshows (by decide) c
  rw [← hshows.putcVga_eq] at hput
  split
  · exact h
  split
  · exact h
  refine ⟨fun j => ?_⟩
  dsimp only
  by_cases hj : j = i
  · subst hj
    rw [Function.update_self]
    refine Or.inr ⟨_, _, hput, fun hactive => ?_⟩
    exact displays_putc hshows (congrArg Fin.val hactive) (hscreen hactive) c
  · rw [Function.update_of_ne hj]
    refine (h.shows j).imp_right ?_
    rintro ⟨d', sheet', hshows', hscreen'⟩
    refine ⟨d', sheet', hshows', fun hactive => ?_⟩
    have hoff : (s.ttys i).index ≠ s.active := by
      rw [hshows.index, ← hactive]
      exact fun heq => hj (Fin.ext heq.symm)
    rw [putc_inactive hoff]
    exact hscreen' hactive

theorem Coherent.putcs (h : Coherent color s) (i : Fin 8) (buf : List UInt8) :
    Coherent color (buf.foldl (fun s c => s.ttyPutcVga color i c) s) := by
  induction buf generalizing s with
  | nil => exact h
  | cons c buf ih => exact ih (h.ttyPutcVga i c)

theorem Coherent.ttySetActive (h : Coherent color s) (idx : Nat) :
    Coherent color (s.ttySetActive color idx) := by
  rw [Consoles.ttySetActive]
  split
  next hlt =>
    refine ⟨fun i => (h.shows i).imp_right ?_⟩
    rintro ⟨d, sheet, hshows, -⟩
    refine ⟨d, sheet, hshows, fun hactive => ?_⟩
    obtain rfl : i = ⟨idx, hlt⟩ := hactive
    exact displays_renderFull hshows
  next => exact h

theorem Coherent.perform (h : Coherent color s) (op : ConsoleOp) :
    Coherent color (s.perform color op) := by
  cases op with
  | write i buf =>
    rw [Consoles.perform, Consoles.ttyVgaWrite]
    split
    · exact h
    · exact h.putcs i buf
  | echo i c => exact h.ttyPutcVga i c
  | hotkey idx => exact h.ttySetActive idx
  | ioctl raw =>
    rw [Consoles.perform, Consoles.ioctlSetActive]
    split
    · exact h.ttySetActive _
    split
    · exact h.ttySetActive _
    · exact h
  | klog text =>
    have hfirst : Coherent color (if (s.ttys 0).cells = none then s
        else text.foldl (fun s c => s.ttyPutcVga color 0 c) s) := by
      split
      · exact h
      · exact h.putcs 0 text
    rw [Consoles.perform, Consoles.ttyKlog]
    generalize (if (s.ttys 0).cells = none then s
      else text.foldl (fun s c => s.ttyPutcVga color 0 c) s) = u at hfirst ⊢
    split
    · exact hfirst
    split
    · exact hfirst
    · exact hfirst.putcs _ text

theorem coherent_ttyInit (color : UInt8) (got : Fin 8 → Bool) (mem : VgaMem) :
    Coherent color (Consoles.ttyInit color got mem) := by
  refine ⟨fun i => ?_⟩
  cases hgot : got i with
  | false =>
    refine Or.inl ?_
    show (Tty.ttyInit .vga i vgaScreen (got i)).cells = none
    rw [hgot]
    rfl
  | true =>
    have hshows : Shows .vga i vgaScreen Teletype.blank.decoder Teletype.blank.sheet
        (Tty.ttyInit .vga i vgaScreen (got i)) := by
      rw [hgot]
      exact shows_ttyInit .vga i (by decide) (by decide)
    refine Or.inr ⟨_, _, hshows, fun hactive => ?_⟩
    obtain rfl : i = 0 := hactive
    exact displays_renderFull hshows

theorem screen_shows_active (color : UInt8) (got : Fin 8 → Bool) (mem : VgaMem)
    (ops : List ConsoleOp) :
    let s := ops.foldl (Consoles.perform color) (Consoles.ttyInit color got mem)
    ∀ cells, (s.ttys s.active).cells = some cells → ∀ r < vgaHeight, ∀ x < vgaWidth,
      ∃ c, cells[r * vgaWidth + x]? = some c ∧ s.mem (r * vgaWidth + x) = vgaEntry color c := by
  have hrun : ∀ (ops : List ConsoleOp) {s : Consoles}, Coherent color s →
      Coherent color (ops.foldl (Consoles.perform color) s) := by
    intro ops
    induction ops with
    | nil => exact fun h => h
    | cons op ops ih => exact fun h => ih (h.perform op)
  have h := hrun ops (coherent_ttyInit color got mem)
  intro s cells hcells r hr x hx
  rcases h.shows s.active with hnone | ⟨d, sheet, hshows, hscreen⟩
  · exact absurd (hcells.symm.trans hnone) nofun
  · obtain ⟨cells', hcells', -, hseen⟩ := hshows.cells
    obtain rfl : cells = cells' := Option.some.inj (hcells.symm.trans hcells')
    exact ⟨sheet.seen r x, hseen r hr x hx, hscreen rfl r hr x hx⟩

end Coherent

end HouseOS.Tty
