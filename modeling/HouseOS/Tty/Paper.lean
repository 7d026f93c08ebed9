import HouseOS.Composd.Term
import HouseOS.Library.Paper
import HouseOS.Library.Run
import HouseOS.Tty.Cursor

namespace HouseOS.Tty

open HouseOS.Composd (Page glyph)
open HouseOS.Paper

inductive Command where
  | put (c : UInt8)
  | start
  | line
  | rubOut
  | left (n : Nat)
  | right (n : Nat)
  | column (n : Nat)
  | home
  | clearRight
  | nothing
  deriving DecidableEq, Repr

structure Decoder where
  state : AnsiState
  param : Nat
  haveParam : Bool
  deriving DecidableEq, Repr

namespace Decoder

def plain (c : UInt8) : Command :=
  if c = 13 then .start else if c = 10 then .line else if c = 8 then .rubOut else .put c

def command (d : Decoder) (c : UInt8) : Command :=
  let n := if d.haveParam then d.param else 1
  let n := if n = 0 then 1 else n
  if c = 68 then .left n
  else if c = 67 then .right n
  else if c = 71 then .column (if d.haveParam then (d.param + 2 ^ 32 - 1) % 2 ^ 32 else 0)
  else if c = 72 ∨ c = 102 then .home
  else if c = 75 ∨ c = 88 ∨ c = 74 then .clearRight
  else .nothing

def next (d : Decoder) (c : UInt8) : Decoder × Command :=
  match d.state with
  | .ground => if c = 27 then (⟨.escape, 0, false⟩, .nothing) else (d, plain c)
  | .escape =>
      (if c = 91 then { d with state := .bracket } else { d with state := .ground }, .nothing)
  | .bracket =>
      if 48 ≤ c ∧ c ≤ 57 then
        (⟨.bracket, (d.param * 10 + (c.toNat - 48)) % 2 ^ 32, true⟩, .nothing)
      else if c = 59 then (d, .nothing)
      else if 0x40 ≤ c ∧ c ≤ 0x7E then (⟨.ground, 0, false⟩, d.command c)
      else ({ d with state := .ground }, .nothing)

end Decoder

-- on paper nothing that scrolls out of sight is lost
def Command.write (cols rows : Nat) (s : Sheet UInt8) : Command → Sheet UInt8
  | .put c => s.typed cols rows c
  | .start => s.moveTo 0 s.row
  | .line => s.nextRow rows
  | .rubOut => s.rubOut 32 cols
  | .left n => (fun s => s.left cols)^[n] s
  | .right n => (fun s => s.right cols rows)^[n] s
  | .column n => s.moveTo (min n (cols - 1)) s.row
  | .home => s.moveTo 0 0
  | .clearRight => s.clearRight 32 cols
  | .nothing => s

structure Teletype where
  decoder : Decoder
  sheet : Sheet UInt8

namespace Teletype

def blank : Teletype := ⟨⟨.ground, 0, false⟩, .fresh 32⟩

def putc (screen : Screen) (tt : Teletype) (c : UInt8) : Teletype :=
  ⟨(tt.decoder.next c).1, (tt.decoder.next c).2.write screen.cols screen.rows tt.sheet⟩

def act (type : TtyType) (screen : Screen) (tt : Teletype) : Act → Teletype
  | .putcVesa c => if type = .vesa then tt.putc screen c else tt
  | .putcVga c => if type = .vga then tt.putc screen c else tt
  | .cursorLeftRaw => { tt with sheet := tt.sheet.left screen.cols }
  | .cursorRightRaw => { tt with sheet := tt.sheet.right screen.cols screen.rows }
  | .inputCursor _ => tt
  | .renderFull => tt

end Teletype

-- the cells are the lines in sight
structure Shows (type : TtyType) (index : Nat) (screen : Screen) (d : Decoder) (s : Sheet UInt8)
    (t : Device) : Prop where
  type : t.type = type
  index : t.index = index
  decoder : (⟨t.ansiState, t.ansiParam, t.ansiHaveParam⟩ : Decoder) = d
  same : t.screen = screen
  within : s.Within 32 screen.cols screen.rows
  x : t.cursorX = s.col
  y : t.cursorY = s.row
  cells : ∃ cells, t.cells = some cells ∧ cells.length = screen.rows * screen.cols ∧
    ∀ r < screen.rows, ∀ x < screen.cols, cells[r * screen.cols + x]? = some (s.seen r x)

def Device.forget (t : Device) : Device := { t with touched := [] }

section Cells

variable {cols : Nat}

theorem place_inj {r r' x x' : Nat} (hx : x < cols) (hx' : x' < cols) :
    r * cols + x = r' * cols + x' ↔ r = r' ∧ x = x' := by
  refine ⟨fun h => ?_, fun h => by rw [h.1, h.2]⟩
  have hdiv (r x : Nat) (hx : x < cols) : (r * cols + x) / cols = r := by
    rw [Nat.mul_comm, Nat.mul_add_div (by omega), Nat.div_eq_of_lt hx, Nat.add_zero]
  have hr : r = r' := by rw [← hdiv r x hx, h, hdiv r' x' hx']
  subst hr
  exact ⟨rfl, Nat.add_left_cancel h⟩

theorem place_lt {rows r x : Nat} (hr : r < rows) (hx : x < cols) : r * cols + x < rows * cols :=
  calc
    r * cols + x < r * cols + cols := Nat.add_lt_add_left hx _
    _ = (r + 1) * cols := (Nat.succ_mul r cols).symm
    _ ≤ rows * cols := Nat.mul_le_mul_right _ hr

end Cells

namespace Shows

variable {type : TtyType} {index : Nat} {screen : Screen} {d : Decoder} {s : Sheet UInt8}
  {t t' : Device} {active : Nat}

theorem cols_eq (h : Shows type index screen d s t) : t.cols = screen.cols := congrArg Screen.cols h.same

theorem rows_eq (h : Shows type index screen d s t) : t.rows = screen.rows := congrArg Screen.rows h.same

theorem forget (h : Shows type index screen d s t) (he : t'.forget = t.forget) : Shows type index screen d s t' := by
  have ht : Shows type index screen d s t.forget := ⟨h.type, h.index, h.decoder, h.same, h.within, h.x, h.y, h.cells⟩
  rw [← he] at ht
  exact ⟨ht.type, ht.index, ht.decoder, ht.same, ht.within, ht.x, ht.y, ht.cells⟩

theorem ansi (h : Shows type index screen d s t) (d' : Decoder) :
    Shows type index screen d' s
      { t with ansiState := d'.state, ansiParam := d'.param, ansiHaveParam := d'.haveParam } :=
  ⟨h.type, h.index, rfl, h.same, h.within, h.x, h.y, h.cells⟩

theorem moveTo (h : Shows type index screen d s t) {x y : Nat} (hx : x < screen.cols)
    (hy : y < screen.rows) : Shows type index screen d (s.moveTo x y) (t.moveTo x y) :=
  ⟨h.type, h.index, h.decoder, h.same, h.within.moveTo hx hy, rfl, rfl, h.cells⟩

theorem store (h : Shows type index screen d s t) {x y : Nat} (hx : x < screen.cols) (hy : y < screen.rows)
    (c : UInt8) : Shows type index screen d (s.stamp y x c) (t.store x y c) := by
  obtain ⟨cells, hcells, hlen, hseen⟩ := h.cells
  refine ⟨h.type, h.index, h.decoder, h.same, h.within.stamp hy x c, h.x, h.y, cells.set (t.cell x y) c, ?_, ?_, ?_⟩
  · show t.cells.map _ = _
    rw [hcells]
    rfl
  · rw [List.length_set, hlen]
  · intro r hr i hi
    have hplace : t.cell x y = y * screen.cols + x := by
      rw [Device.cell, h.cols_eq, Nat.mod_eq_of_lt (Nat.lt_trans (place_lt hy hx) screen.fits)]
    rw [hplace, Sheet.seen_stamp, List.getElem?_set, hlen, if_pos (place_lt hy hx)]
    by_cases heq : y * screen.cols + x = r * screen.cols + i
    · obtain ⟨rfl, rfl⟩ := (place_inj hx hi).mp heq
      rw [if_pos rfl, if_pos ⟨rfl, rfl⟩]
    · rw [if_neg heq, if_neg, hseen r hr i hi]
      rintro ⟨rfl, rfl⟩
      exact heq rfl

theorem cursorLeftRaw (h : Shows type index screen d s t) :
    Shows type index screen d (s.left screen.cols) t.cursorLeftRaw := by
  have hx := h.within.col
  have hy := h.within.row
  rw [Device.cursorLeftRaw, Sheet.left, h.cols_eq, h.x, h.y]
  split
  · exact h.moveTo (by omega) hy
  split
  · rw [if_pos (by omega)]
    exact h.moveTo (by omega) (by omega)
  · exact h

theorem cursorRightRaw (h : Shows type index screen d s t) :
    Shows type index screen d (s.right screen.cols screen.rows) t.cursorRightRaw := by
  have hx := h.within.col
  have hy := h.within.row
  obtain ⟨hcols, hrows⟩ := screen_lt (by omega : 0 < screen.cols) (by omega : 0 < screen.rows)
  rw [Device.cursorRightRaw, Sheet.right, h.cols_eq, h.rows_eq, h.x, h.y,
    Nat.mod_eq_of_lt (by omega), Nat.mod_eq_of_lt (by omega)]
  split
  next hlt => exact h.moveTo hlt hy
  next =>
    refine h.moveTo (by omega) ?_
    split
    next hlt => exact hlt
    next => exact hy

theorem forget_redrawRow (t : Device) (row : Nat) : (t.redrawRow row).forget = t.forget := by
  rw [Device.redrawRow]
  split
  · rfl
  · refine Fold.foldl_keeps Device.forget _ (fun _ _ _ => ?_) t
    rfl

theorem foldl {α : Type} {f : Device → α → Device} {g : Sheet UInt8 → α → Sheet UInt8} {l : List α}
    (hf : ∀ a ∈ l, ∀ s t, Shows type index screen d s t → Shows type index screen d (g s a) (f t a))
    (h : Shows type index screen d s t) : Shows type index screen d (l.foldl g s) (l.foldl f t) := by
  induction l generalizing s t with
  | nil => exact h
  | cons a l ih =>
    exact ih (fun b hb => hf b (List.mem_cons_of_mem _ hb)) (hf a (List.mem_cons_self ..) s t h)

theorem iterate {f : Device → Device} {g : Sheet UInt8 → Sheet UInt8}
    (hf : ∀ s t, Shows type index screen d s t → Shows type index screen d (g s) (f t))
    (h : Shows type index screen d s t) (n : Nat) : Shows type index screen d (g^[n] s) (f^[n] t) := by
  induction n generalizing s t with
  | zero => exact h
  | succ n ih => exact ih (hf s t h)

theorem eraseToEol (h : Shows type index screen d s t) :
    Shows type index screen d (s.clearRight 32 screen.cols) (t.eraseToEol active) := by
  have hx := h.within.col
  have hy := h.within.row
  obtain ⟨cells, hcells, -⟩ := h.cells
  rw [Device.eraseToEol, h.cols_eq, h.rows_eq, h.x, h.y, if_neg, Sheet.clearRight]
  · refine h.foldl fun x hmem s' u hu => ?_
    obtain ⟨k, hk, rfl⟩ := List.mem_range'.mp hmem
    have hstored := hu.store (show s.col + 1 * k < screen.cols by omega) hy 32
    dsimp only
    split
    · exact hstored.forget (forget_redrawRow _ _)
    · exact hstored
  · rw [hcells]
    rintro (hnone | hge | hge)
    · cases hnone
    · omega
    · omega

theorem scroll (h : Shows type index screen d s t) (htype : type ≠ .serial)
    (hlast : ¬s.row + 1 < screen.rows) :
    Shows type index screen d (s.nextRow screen.rows) ((t.moveTo 0 (screen.rows - 1)).scroll active) := by
  have hx := h.within.col
  have hy := h.within.row
  have hfits := screen.fits
  have hcols : screen.cols ≤ screen.rows * screen.cols := Nat.le_mul_of_pos_left _ (by omega)
  have htotal : (screen.rows * screen.cols) % 2 ^ 32 = screen.rows * screen.cols :=
    Nat.mod_eq_of_lt hfits
  have hmoved : (screen.rows * screen.cols + 2 ^ 32 - screen.cols) % 2 ^ 32 =
      screen.rows * screen.cols - screen.cols := by omega
  have hrow : s.row = screen.rows - 1 := by omega
  obtain ⟨cells, hcells, hlen, hseen⟩ := h.cells
  have hnext : (s.nextRow screen.rows) = { s with top := s.top + 1, col := 0 } := by
    rw [Sheet.nextRow, if_neg hlast]
    rfl
  have hbelow (x : Nat) : s.seen screen.rows x = 32 := h.within.below _ x (Nat.le_refl _)
  have hgrid : ∀ r < screen.rows, ∀ x < screen.cols,
      ((cells.drop screen.cols).take (screen.rows * screen.cols - screen.cols) ++
        List.replicate screen.cols 32)[r * screen.cols + x]? = some ((s.nextRow screen.rows).seen r x) := by
    intro r hr x hxc
    have hplace := place_lt hr hxc
    have hshift : (r + 1) * screen.cols + x = r * screen.cols + x + screen.cols := by
      rw [Nat.succ_mul]
      omega
    have hfront : ((cells.drop screen.cols).take
        (screen.rows * screen.cols - screen.cols)).length = screen.rows * screen.cols - screen.cols := by
      rw [List.length_take, List.length_drop, hlen, Nat.min_self]
    rw [Sheet.seen_nextRow_last s hlast]
    by_cases hin : r + 1 < screen.rows
    · have hplace' := place_lt hin hxc
      rw [List.getElem?_append_left (by omega), List.getElem?_take_of_lt (by omega),
        List.getElem?_drop, ← hseen (r + 1) hin x hxc, hshift, Nat.add_comm screen.cols]
    · have heq : r + 1 = screen.rows := by omega
      have hend : screen.rows * screen.cols = r * screen.cols + screen.cols := by
        rw [← heq, Nat.succ_mul]
      rw [List.getElem?_append_right (by omega), List.getElem?_replicate_of_lt (by omega), heq, hbelow]
  have hshown (u : Device) (hu : u.forget = { (t.moveTo 0 (screen.rows - 1)).forget with
      cells := some ((cells.drop screen.cols).take (screen.rows * screen.cols - screen.cols) ++
        List.replicate screen.cols 32) }) : Shows type index screen d (s.nextRow screen.rows) u := by
    refine forget (t := { t.moveTo 0 (screen.rows - 1) with
      cells := some ((cells.drop screen.cols).take (screen.rows * screen.cols - screen.cols) ++
        List.replicate screen.cols 32) }) ?_ hu
    refine ⟨h.type, h.index, h.decoder, h.same, h.within.nextRow, ?_, ?_, _, rfl, ?_, hgrid⟩
    · rw [hnext]
      rfl
    · rw [hnext]
      exact hrow.symm
    · rw [List.length_append, List.length_take, List.length_drop, hlen, Nat.min_self,
        List.length_replicate]
      omega
  have hcols_eq : (t.moveTo 0 (screen.rows - 1)).cols = screen.cols := h.cols_eq
  have hrows_eq : (t.moveTo 0 (screen.rows - 1)).rows = screen.rows := h.rows_eq
  have hscrolled : (t.cells.map fun cells =>
      (cells.drop t.cols).take (screen.rows * screen.cols - screen.cols) ++
        List.replicate t.cols 32) =
      some ((cells.drop screen.cols).take (screen.rows * screen.cols - screen.cols) ++
        List.replicate screen.cols 32) := by
    rw [hcells, h.cols_eq]
    rfl
  rw [Device.scroll, if_neg]
  · simp only [hcols_eq, hrows_eq, htotal, hmoved]
    split
    · exact hshown _ (congrArg (fun cells => { (t.moveTo 0 (screen.rows - 1)).forget with
        cells := cells }) hscrolled)
    · exact hshown _ ((forget_redrawRow _ _).trans
        (congrArg (fun cells => { (t.moveTo 0 (screen.rows - 1)).forget with cells := cells })
          hscrolled))
  · rw [hrows_eq]
    rintro (hnone | hzero | hserial)
    · exact absurd (hcells.symm.trans hnone) (Option.some_ne_none _)
    · omega
    · exact htype (h.type.symm.trans hserial)

theorem nextRow (h : Shows type index screen d s t) (htype : type ≠ .serial) :
    Shows type index screen d (s.nextRow screen.rows) (t.nextRow active) := by
  have hx := h.within.col
  have hy := h.within.row
  obtain ⟨-, hrows⟩ := screen_lt (by omega : 0 < screen.cols) (by omega : 0 < screen.rows)
  simp only [Device.nextRow, h.rows_eq, h.y]
  rw [Nat.mod_eq_of_lt (by omega)]
  split
  next hge => exact h.scroll htype (by omega)
  next hlt =>
    rw [Sheet.nextRow, if_pos (by omega)]
    exact h.moveTo (by omega) (by omega)

theorem typed (h : Shows type index screen d s t) (htype : type ≠ .serial) (c : UInt8) :
    Shows type index screen d (s.typed screen.cols screen.rows c)
      (let u := t.store t.cursorX t.cursorY c
       let x := (u.cursorX + 1) % 2 ^ 32
       if u.cols ≤ x then u.nextRow active else u.moveTo x u.cursorY) := by
  have hx := h.within.col
  have hy := h.within.row
  obtain ⟨hcols, -⟩ := screen_lt (by omega : 0 < screen.cols) (by omega : 0 < screen.rows)
  have hstored : Shows type index screen d (s.write c) (t.store t.cursorX t.cursorY c) := by
    rw [h.x, h.y]
    exact h.store hx hy c
  have hcol : (t.store t.cursorX t.cursorY c).cursorX = s.col := h.x
  have hrow : (t.store t.cursorX t.cursorY c).cursorY = s.row := h.y
  dsimp only
  rw [hstored.cols_eq, hcol, hrow, Nat.mod_eq_of_lt (by omega), Sheet.typed]
  split
  next hlt =>
    rw [if_neg (by omega)]
    exact hstored.moveTo hlt hy
  next hge =>
    rw [if_pos (by omega)]
    exact hstored.nextRow htype

theorem command (h : Shows type index screen d s t) (c : UInt8) :
    Shows type index screen d ((d.command c).write screen.cols screen.rows s)
      (let n := if t.ansiHaveParam then t.ansiParam else 1
       let n := if n = 0 then 1 else n
       if c = 68 then Device.cursorLeftRaw^[n] t
       else if c = 67 then Device.cursorRightRaw^[n] t
       else if c = 71 then
         let col := if t.ansiHaveParam then (t.ansiParam + 2 ^ 32 - 1) % 2 ^ 32 else 0
         let col := if t.cols ≤ col then (if t.cols ≠ 0 then t.cols - 1 else 0) else col
         t.moveTo col t.cursorY
       else if c = 72 ∨ c = 102 then t.moveTo 0 0
       else if c = 75 ∨ c = 88 ∨ c = 74 then t.eraseToEol active
       else t) := by
  have hx := h.within.col
  have hy := h.within.row
  have hdecoder := h.decoder
  subst hdecoder
  dsimp only [Decoder.command]
  generalize (if t.ansiHaveParam then (t.ansiParam + 2 ^ 32 - 1) % 2 ^ 32 else 0) = col
  generalize (if (if t.ansiHaveParam then t.ansiParam else 1) = 0 then 1
    else if t.ansiHaveParam then t.ansiParam else 1) = n
  by_cases hleft : c = 68
  · rw [if_pos hleft, if_pos hleft]
    exact h.iterate (fun _ _ h => h.cursorLeftRaw) n
  rw [if_neg hleft, if_neg hleft]
  by_cases hright : c = 67
  · rw [if_pos hright, if_pos hright]
    exact h.iterate (fun _ _ h => h.cursorRightRaw) n
  rw [if_neg hright, if_neg hright]
  by_cases hcol : c = 71
  · rw [if_pos hcol, if_pos hcol, h.cols_eq, h.y]
    have hclip : (if screen.cols ≤ col then (if screen.cols ≠ 0 then screen.cols - 1 else 0) else col) =
        min col (screen.cols - 1) := by
      rw [if_pos (by omega : screen.cols ≠ 0)]
      split <;> omega
    rw [hclip]
    exact h.moveTo (by omega) hy
  rw [if_neg hcol, if_neg hcol]
  by_cases hhome : c = 72 ∨ c = 102
  · rw [if_pos hhome, if_pos hhome]
    exact h.moveTo (by omega) (by omega)
  rw [if_neg hhome, if_neg hhome]
  by_cases herase : c = 75 ∨ c = 88 ∨ c = 74
  · rw [if_pos herase, if_pos herase]
    exact h.eraseToEol
  rw [if_neg herase, if_neg herase]
  exact h

theorem plain (h : Shows type index screen d s t) (htype : type ≠ .serial) (c : UInt8) :
    Shows type index screen d ((Decoder.plain c).write screen.cols screen.rows s)
      (if c = 13 then t.moveTo 0 t.cursorY
       else if c = 10 then t.nextRow active
       else if c = 8 then
         let t := t.cursorLeftRaw
         t.store t.cursorX t.cursorY 32
       else
         let u := t.store t.cursorX t.cursorY c
         let x := (u.cursorX + 1) % 2 ^ 32
         if u.cols ≤ x then u.nextRow active else u.moveTo x u.cursorY) := by
  have hx := h.within.col
  have hy := h.within.row
  rw [Decoder.plain]
  by_cases hcr : c = 13
  · rw [if_pos hcr, if_pos hcr, h.y]
    exact h.moveTo (by omega) hy
  rw [if_neg hcr, if_neg hcr]
  by_cases hlf : c = 10
  · rw [if_pos hlf, if_pos hlf]
    exact h.nextRow htype
  rw [if_neg hlf, if_neg hlf]
  by_cases hbs : c = 8
  · rw [if_pos hbs, if_pos hbs]
    have hleft := h.cursorLeftRaw
    dsimp only
    rw [hleft.x, hleft.y]
    exact hleft.store hleft.within.col hleft.within.row 32
  rw [if_neg hbs, if_neg hbs]
  exact h.typed htype c

theorem putc_eaten {c : UInt8} {u : Device} (h : t.consumeAnsi active c = (u, true)) :
    t.putc active c = u := by
  rw [Device.putc, h]
  rfl

theorem putc (h : Shows type index screen d s t) (htype : type ≠ .serial) (c : UInt8) :
    Shows type index screen (d.next c).1 ((d.next c).2.write screen.cols screen.rows s)
      (t.putc active c) := by
  have hdecoder := h.decoder
  subst hdecoder
  cases hstate : t.ansiState with
  | ground =>
    by_cases hesc : c = 27
    · rw [putc_eaten (by simp only [Device.consumeAnsi, hstate, if_pos hesc]; rfl)]
      simp only [Decoder.next, if_pos hesc]
      exact h.ansi ⟨.escape, 0, false⟩
    · have hplain := @plain _ _ _ _ _ _ active h htype c
      simp only [Device.putc, Device.consumeAnsi, Decoder.next, hstate, if_neg hesc]
      rw [hstate] at hplain
      exact hplain
  | escape =>
    by_cases hbracket : c = 91
    · rw [putc_eaten (by simp only [Device.consumeAnsi, hstate, if_pos hbracket]; rfl)]
      simp only [Decoder.next, if_pos hbracket]
      exact h.ansi ⟨.bracket, t.ansiParam, t.ansiHaveParam⟩
    · rw [putc_eaten (by simp only [Device.consumeAnsi, hstate, if_neg hbracket]; rfl)]
      simp only [Decoder.next, if_neg hbracket]
      exact h.ansi ⟨.ground, t.ansiParam, t.ansiHaveParam⟩
  | bracket =>
    have hcommand := @command _ _ _ _ _ _ active h c
    by_cases hdigit : 48 ≤ c ∧ c ≤ 57
    · rw [putc_eaten (by simp only [Device.consumeAnsi, hstate, if_pos hdigit]; rfl)]
      simp only [Decoder.next, if_pos hdigit]
      exact h.ansi ⟨.bracket, (t.ansiParam * 10 + (c.toNat - 48)) % 2 ^ 32, true⟩
    by_cases hsemi : c = 59
    · rw [putc_eaten (by simp only [Device.consumeAnsi, hstate, if_neg hdigit, if_pos hsemi]; rfl)]
      simp only [Decoder.next, if_neg hdigit, if_pos hsemi]
      rw [← hstate]
      exact h
    by_cases hfinal : 0x40 ≤ c ∧ c ≤ 0x7E
    · rw [putc_eaten (by
        simp only [Device.consumeAnsi, hstate, if_neg hdigit, if_neg hsemi, if_pos hfinal]; rfl)]
      simp only [Decoder.next, if_neg hdigit, if_neg hsemi, if_pos hfinal]
      rw [hstate] at hcommand
      exact hcommand.ansi ⟨.ground, 0, false⟩
    · rw [putc_eaten (by
        simp only [Device.consumeAnsi, hstate, if_neg hdigit, if_neg hsemi, if_neg hfinal]; rfl)]
      simp only [Decoder.next, if_neg hdigit, if_neg hsemi, if_neg hfinal]
      exact h.ansi ⟨.ground, t.ansiParam, t.ansiHaveParam⟩

theorem forget_inputCursor (t : Device) (visible : Bool) :
    (t.inputCursor active visible).forget = t.forget := by
  rw [Device.inputCursor]
  split
  · rfl
  split
  · rfl
  split
  · rfl
  · rfl

theorem forget_renderFull (t : Device) : t.renderFull.forget = t.forget := by
  rw [Device.renderFull]
  split
  · rfl
  · refine Fold.foldl_keeps Device.forget _ (fun y _ u => ?_) t
    refine Fold.foldl_keeps Device.forget _ (fun x _ u => ?_) u
    rfl

theorem putcVesa_eq (h : Shows .vesa index screen d s t) (c : UInt8) :
    t.putcVesa active c = t.putc active c := by
  obtain ⟨cells, hcells, -⟩ := h.cells
  rw [Device.putcVesa, h.type, hcells, if_neg (by simp)]

theorem putcVga_eq (h : Shows .vga index screen d s t) (c : UInt8) :
    t.putcVga active c = t.putc active c := by
  obtain ⟨cells, hcells, -⟩ := h.cells
  have hx := h.within.col
  have hy := h.within.row
  rw [Device.putcVga, h.type, hcells, h.cols_eq, h.rows_eq, if_neg (by simp), if_neg (by omega)]

theorem act (h : Shows type index screen d s t) (htype : type ≠ .serial) (a : Nat × Act) :
    Shows type index screen (Teletype.act type screen ⟨d, s⟩ a.2).decoder
      (Teletype.act type screen ⟨d, s⟩ a.2).sheet (t.act a) := by
  obtain ⟨active, a⟩ := a
  cases a with
  | putcVesa c =>
    rw [Device.act, Teletype.act]
    by_cases hvesa : type = .vesa
    · subst hvesa
      rw [if_pos rfl, h.putcVesa_eq]
      exact h.putc htype c
    · rw [if_neg hvesa, Device.putcVesa, h.type, if_pos (Or.inl hvesa)]
      exact h
  | putcVga c =>
    rw [Device.act, Teletype.act]
    by_cases hvga : type = .vga
    · subst hvga
      rw [if_pos rfl, h.putcVga_eq]
      exact h.putc htype c
    · rw [if_neg hvga, Device.putcVga, h.type, if_pos (Or.inl hvga)]
      exact h
  | cursorLeftRaw => exact h.cursorLeftRaw
  | cursorRightRaw => exact h.cursorRightRaw
  | inputCursor visible => exact h.forget (forget_inputCursor t visible)
  | renderFull => exact h.forget (forget_renderFull t)

theorem acts (htype : type ≠ .serial) : ∀ (acts : List (Nat × Act)) {tt : Teletype} {t : Device},
    Shows type index screen tt.decoder tt.sheet t →
      Shows type index screen (acts.foldl (fun tt a => tt.act type screen a.2) tt).decoder
        (acts.foldl (fun tt a => tt.act type screen a.2) tt).sheet (acts.foldl Device.act t) := by
  intro acts
  induction acts with
  | nil => exact fun h => h
  | cons a acts ih => exact fun h => ih (h.act htype a)

end Shows

theorem shows_ttyInit (type : TtyType) (index : Nat) {screen : Screen} (hcols : 0 < screen.cols)
    (hrows : 0 < screen.rows) :
    Shows type index screen Teletype.blank.decoder Teletype.blank.sheet
      (ttyInit type index screen true) := by
  refine ⟨rfl, rfl, rfl, rfl, Sheet.within_fresh hcols hrows, rfl, rfl, _, rfl, ?_, ?_⟩
  · exact List.length_replicate ..
  · intro r hr x hx
    exact List.getElem?_replicate_of_lt (place_lt hr hx)

theorem cells_are_window {type : TtyType} (htype : type ≠ .serial) (index : Nat) {screen : Screen}
    (hcols : 0 < screen.cols) (hrows : 0 < screen.rows) (acts : List (Nat × Act)) :
    let s := (acts.foldl (fun tt a => tt.act type screen a.2) Teletype.blank).sheet
    let t := acts.foldl Device.act (ttyInit type index screen true)
    t.cursorX = s.col ∧ t.cursorY = s.row ∧ ∃ cells, t.cells = some cells ∧
      ∀ r < screen.rows, ∀ x < screen.cols, cells[r * screen.cols + x]? = some (s.seen r x) := by
  have h := Shows.acts htype acts (shows_ttyInit type index hcols hrows)
  obtain ⟨cells, hcells, -, hseen⟩ := h.cells
  exact ⟨h.x, h.y, cells, hcells, hseen⟩

theorem cells_are_window_erased :
    let acts : List (Nat × Act) := [(0, .putcVga 65), (0, .putcVga 27), (0, .putcVga 91),
      (0, .putcVga 68), (1, .putcVga 27), (1, .putcVga 91), (1, .putcVga 75)]
    let s := (acts.foldl (fun tt a => tt.act .vga vgaScreen a.2) Teletype.blank).sheet
    let t := acts.foldl Device.act (ttyInit .vga 0 vgaScreen true)
    t.cursorX = s.col ∧ t.cursorY = s.row ∧ ∃ cells, t.cells = some cells ∧
      ∀ r < vgaScreen.rows, ∀ x < vgaScreen.cols,
        cells[r * vgaScreen.cols + x]? = some (s.seen r x) :=
  cells_are_window (by decide) 0 (by decide) (by decide) _

section Text

variable {cols rows : Nat} {p : Page} {s : Sheet UInt8}

def typeset (cols : Nat) (p : Page) (c : UInt8) : Page :=
  if c = 10 then p.endLine
  else if cols ≤ p.cur.length + 1 then { p with cur := p.cur ++ [c] }.endLine
  else { p with cur := p.cur ++ [c] }

structure Printed (cols rows : Nat) (p : Page) (s : Sheet UInt8) : Prop where
  within : s.Within 32 cols rows
  col : s.col = p.cur.length
  last : s.top + s.row + 1 = p.count
  top : s.top = p.count - rows
  ink : ∀ y x, s.ink y x = glyph (p.line y) x

theorem Printed.row_eq (h : Printed cols rows p s) : s.row + 1 = min p.count rows := by
  have hrow := h.within.row
  have hlast := h.last
  have htop := h.top
  omega

theorem printed_endLine (h : s.Within 32 cols rows) (hlast : s.top + s.row + 1 = p.count)
    (htop : s.top = p.count - rows) (hink : ∀ y x, s.ink y x = glyph (p.line y) x) :
    Printed cols rows p.endLine (s.nextRow rows) := by
  have hrow := h.row
  have hcount := p.count_endLine
  have hink (y x : Nat) : s.ink y x = glyph (p.endLine.line y) x := by
    rw [hink, p.line_endLine]
  have hwithin := h.nextRow
  rw [Sheet.nextRow] at hwithin ⊢
  split at hwithin
  next hlt =>
    rw [if_pos hlt]
    refine ⟨hwithin, rfl, ?_, ?_, hink⟩
    · show s.top + (s.row + 1) + 1 = p.endLine.count
      omega
    · show s.top = p.endLine.count - rows
      omega
  next hge =>
    rw [if_neg hge]
    refine ⟨hwithin, rfl, ?_, ?_, hink⟩
    · show s.top + 1 + s.row + 1 = p.endLine.count
      omega
    · show s.top + 1 = p.endLine.count - rows
      omega

theorem Printed.typeset (h : Printed cols rows p s) {c : UInt8} (h8 : c ≠ 8) (h13 : c ≠ 13) :
    Printed cols rows (typeset cols p c) ((Decoder.plain c).write cols rows s) := by
  have hlast := h.last
  have hcol := h.col
  rw [Tty.typeset, Decoder.plain, if_neg h13, if_neg h8]
  by_cases hlf : c = 10
  · rw [if_pos hlf, if_pos hlf]
    exact printed_endLine h.within h.last h.top h.ink
  rw [if_neg hlf, if_neg hlf]
  have hink (y x : Nat) : (s.write c).ink y x =
      glyph (Page.line { p with cur := p.cur ++ [c] } y) x := by
    show (if y = s.top + s.row ∧ x = s.col then c else s.ink y x) = _
    rw [p.line_typed, h.ink, hcol]
    by_cases hy : y + 1 = p.count
    · rw [if_pos hy, Composd.glyph_append, p.line_last hy]
      exact if_congr (by omega) rfl rfl
    · rw [if_neg hy, if_neg]
      rintro ⟨heq, -⟩
      exact hy (by omega)
  show Printed cols rows _ (s.typed cols rows c)
  rw [Sheet.typed]
  split
  next hfull =>
    rw [if_neg (by omega)]
    exact printed_endLine (h.within.write c) h.last h.top hink
  next hroom =>
    have hlt : s.col + 1 < cols := by omega
    rw [if_pos hlt]
    refine ⟨(h.within.write c).moveTo hlt h.within.row, ?_, h.last, h.top, hink⟩
    show s.col + 1 = (p.cur ++ [c]).length
    rw [hcol, List.length_append]
    rfl

theorem printed_fresh (hcols : 0 < cols) (hrows : 0 < rows) :
    Printed cols rows Page.empty (.fresh 32) := by
  refine ⟨Sheet.within_fresh hcols hrows, rfl, rfl, ?_, fun y x => ?_⟩
  · show 0 = 1 - rows
    omega
  · have hline : Page.empty.line y = [] := by
      cases y <;> rfl
    rw [hline]
    rfl

end Text

namespace Device

def ttyVesaWrite (active : Nat) (buf : List UInt8) (t : Device) : Device × Int :=
  (buf.foldl (fun t c => t.putcVesa active c) t, buf.length)

def ttyVgaWrite (active : Nat) (buf : List UInt8) (t : Device) : Device × Int :=
  if t.type ≠ .vga then (t, -1)
  else (buf.foldl (fun t c => t.putcVga active c) t, buf.length)

def write (type : TtyType) (t : Device) (w : Nat × List UInt8) : Device :=
  (if type = .vga then t.ttyVgaWrite w.1 w.2 else t.ttyVesaWrite w.1 w.2).1

end Device

section Write

variable {type : TtyType} {index : Nat} {screen : Screen} {p : Page} {t : Device} {active : Nat}

structure Reads (type : TtyType) (index : Nat) (screen : Screen) (p : Page) (t : Device) : Prop where
  paper : ∃ s, Shows type index screen ⟨.ground, 0, false⟩ s t ∧ Printed screen.cols screen.rows p s

def Plain (c : UInt8) : Prop := c ≠ 8 ∧ c ≠ 13 ∧ c ≠ 27

instance : DecidablePred Plain := fun c => inferInstanceAs (Decidable (c ≠ 8 ∧ c ≠ 13 ∧ c ≠ 27))

theorem Reads.putc (h : Reads type index screen p t) (htype : type ≠ .serial) {c : UInt8} (hc : Plain c) :
    Reads type index screen (typeset screen.cols p c) (t.putc active c) := by
  obtain ⟨h8, h13, h27⟩ := hc
  obtain ⟨s, hshows, hprinted⟩ := h.paper
  have hnext : (⟨.ground, 0, false⟩ : Decoder).next c = (⟨.ground, 0, false⟩, Decoder.plain c) :=
    if_neg h27
  have hput := @Shows.putc _ _ _ _ _ _ active hshows htype c
  rw [hnext] at hput
  exact ⟨_, hput, hprinted.typeset h8 h13⟩

theorem Reads.putcs (htype : type ≠ .serial) {step : Device → UInt8 → Device}
    (hstep : ∀ d s t c, Shows type index screen d s t → step t c = t.putc active c) :
    ∀ (buf : List UInt8) {p : Page} {t : Device}, Reads type index screen p t → (∀ c ∈ buf, Plain c) →
      Reads type index screen (buf.foldl (typeset screen.cols) p) (buf.foldl step t) := by
  intro buf
  induction buf with
  | nil => exact fun h _ => h
  | cons c buf ih =>
    intro p t h hbuf
    obtain ⟨hc, hbuf⟩ := List.forall_mem_cons.mp hbuf
    obtain ⟨s, hshows, -⟩ := h.paper
    refine ih ?_ hbuf
    rw [hstep _ s t c hshows]
    exact h.putc htype hc

theorem Reads.write (h : Reads type index screen p t) (htype : type ≠ .serial) {w : Nat × List UInt8}
    (hw : ∀ c ∈ w.2, Plain c) :
    Reads type index screen (w.2.foldl (typeset screen.cols) p) (t.write type w) := by
  obtain ⟨active, buf⟩ := w
  obtain ⟨s, hshows, -⟩ := h.paper
  cases type with
  | vesa => exact Reads.putcs htype (fun _ _ _ c h => h.putcVesa_eq c) buf h hw
  | serial => exact absurd rfl htype
  | vga =>
    rw [Device.write, if_pos rfl, Device.ttyVgaWrite, hshows.type, if_neg (by simp)]
    exact Reads.putcs htype (fun _ _ _ c h => h.putcVga_eq c) buf h hw

-- a text without backspaces, returns and escapes, however it is divided into calls
theorem text_scrolls {type : TtyType} (htype : type ≠ .serial) (index : Nat) {screen : Screen}
    (hcols : 0 < screen.cols) (hrows : 0 < screen.rows) (writes : List (Nat × List UInt8))
    (hplain : ∀ w ∈ writes, ∀ c ∈ w.2, Plain c) :
    let p := (writes.flatMap Prod.snd).foldl (typeset screen.cols) Page.empty
    let t := writes.foldl (Device.write type) (ttyInit type index screen true)
    t.cursorX = p.cur.length ∧ t.cursorY + 1 = min p.count screen.rows ∧
      ∃ cells, t.cells = some cells ∧ ∀ r < screen.rows, ∀ x < screen.cols,
        cells[r * screen.cols + x]? = some (glyph (p.line (p.count - screen.rows + r)) x) := by
  have hall : ∀ (writes : List (Nat × List UInt8)) {p : Page} {t : Device}, Reads type index screen p t →
      (∀ w ∈ writes, ∀ c ∈ w.2, Plain c) →
        Reads type index screen ((writes.flatMap Prod.snd).foldl (typeset screen.cols) p)
          (writes.foldl (Device.write type) t) := by
    intro writes
    induction writes with
    | nil => exact fun h _ => h
    | cons w writes ih =>
      intro p t h hw
      obtain ⟨hfirst, hrest⟩ := List.forall_mem_cons.mp hw
      rw [List.flatMap_cons, List.foldl_append]
      exact ih (h.write htype hfirst) hrest
  obtain ⟨s, hshows, hprinted⟩ := (hall writes
    ⟨_, shows_ttyInit type index hcols hrows, printed_fresh hcols hrows⟩ hplain).paper
  obtain ⟨cells, hcells, -, hseen⟩ := hshows.cells
  refine ⟨hshows.x.trans hprinted.col, ?_, cells, hcells, fun r hr x hx => ?_⟩
  · rw [hshows.y]
    exact hprinted.row_eq
  · rw [hseen r hr x hx, Sheet.seen, hprinted.ink, hprinted.top]

-- "ab" wraps on a row of two, and the third line moves the first one out of sight
theorem text_scrolls_two_rows :
    let screen : Screen := ⟨2, 2, by decide⟩
    let writes : List (Nat × List UInt8) := [(0, [97, 98, 99]), (1, [10, 100])]
    let p := (writes.flatMap Prod.snd).foldl (typeset screen.cols) Page.empty
    let t := writes.foldl (Device.write .vga) (ttyInit .vga 0 screen true)
    t.cursorX = p.cur.length ∧ t.cursorY + 1 = min p.count screen.rows ∧
      ∃ cells, t.cells = some cells ∧ ∀ r < screen.rows, ∀ x < screen.cols,
        cells[r * screen.cols + x]? = some (glyph (p.line (p.count - screen.rows + r)) x) :=
  text_scrolls (by decide) 0 (by decide) (by decide) _ (by simp [Plain])

end Write

end HouseOS.Tty
