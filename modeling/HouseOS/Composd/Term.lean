import HouseOS.Composd.Model
import Mathlib.Data.List.GetD

namespace HouseOS.Composd

structure Term where
  cols : Nat
  rows : Nat
  curX : Nat
  curY : Nat
  buf : Nat → Nat → UInt8

namespace Term

def termClear (s : Term) : Term := { s with buf := fun _ _ => 32, curX := 0, curY := 0 }

def copyRow (s : Term) (dst src : Nat) : Term :=
  { s with buf := fun y x => if y = dst ∧ x < s.cols then s.buf src x else s.buf y x }

def blankRow (s : Term) (row : Nat) : Term :=
  { s with buf := fun y x => if y = row ∧ x < s.cols then 32 else s.buf y x }

def shiftRows : Nat → Nat → Term → Term
  | 0, _, s => s
  | n + 1, y, s => shiftRows n (y + 1) (s.copyRow (y - 1) y)

def termScroll (s : Term) : Term :=
  if s.rows = 0 ∨ s.cols = 0 then s
  else
    let s := (shiftRows (s.rows - 1) 1 s).blankRow (s.rows - 1)
    if 0 < s.curY then { s with curY := s.curY - 1 } else s

def termNewline (s : Term) : Term :=
  let s := { s with curX := 0, curY := s.curY + 1 }
  if s.rows ≤ s.curY then
    termScroll { s with curY := if 0 < s.rows then s.rows - 1 else 0 }
  else s

def putCell (s : Term) (y x : Nat) (ch : UInt8) : Term :=
  { s with buf := fun j i => if j = y ∧ i = x then ch else s.buf j i }

def printable (ch : UInt8) : Bool := 32 ≤ ch && ch ≤ 126

def termPutc (s : Term) (ch : UInt8) : Term :=
  if s.cols = 0 ∨ s.rows = 0 then s
  else if ch = 13 then s
  else if ch = 10 then s.termNewline
  else if ch = 8 then
    if 0 < s.curX then { s.putCell s.curY (s.curX - 1) 32 with curX := s.curX - 1 } else s
  else if printable ch = false then s
  else
    let s := s.putCell s.curY s.curX ch
    let s := { s with curX := s.curX + 1 }
    if s.cols ≤ s.curX then s.termNewline else s

def termFeed (s : Term) (buf : Text) : Term := buf.foldl termPutc s

end Term

structure Page where
  done : List Text
  cur : Text

namespace Page

def empty : Page := ⟨[], []⟩

def count (p : Page) : Nat := p.done.length + 1

def line (p : Page) (i : Nat) : Text := (p.done ++ [p.cur]).getD i []

def endLine (p : Page) : Page := ⟨p.done ++ [p.cur], []⟩

def put (cols : Nat) (p : Page) (ch : UInt8) : Page :=
  if ch = 10 then p.endLine
  else if ch = 13 ∨ Term.printable ch = false then p
  else if cols ≤ p.cur.length + 1 then { p with cur := p.cur ++ [ch] }.endLine
  else { p with cur := p.cur ++ [ch] }

def wrap (cols : Nat) (stream : Text) : Page := stream.foldl (put cols) empty

end Page

def glyph (line : Text) (x : Nat) : UInt8 := line.getD x 32

def Displays (s : Term) (p : Page) : Prop :=
  ∀ r < s.rows, ∀ x < s.cols, s.buf r x = glyph (p.line (p.count - s.rows + r)) x

def overlay (below above : Text) : Text := above ++ below.drop above.length

-- a line that starts at the bottom of the screen is written over by the next one
def printed (rows : Nat) (p : Page) (i : Nat) : Text :=
  if i + 1 < rows then p.line i else overlay (p.line (2 * i + 1 - rows)) (p.line (2 * i + 2 - rows))

def Undisturbed (rows cols : Nat) (p : Page) : Prop :=
  ∀ r < rows, ∀ x < cols,
    glyph (printed rows p ((p.count - rows + 1) / 2 + r)) x = glyph (p.line (p.count - rows + r)) x

namespace Term

theorem shiftRows_rest (n : Nat) : ∀ (y : Nat) (s : Term), (shiftRows n y s).cols = s.cols ∧
    (shiftRows n y s).rows = s.rows ∧ (shiftRows n y s).curX = s.curX ∧
    (shiftRows n y s).curY = s.curY := by
  induction n with
  | zero => exact fun _ _ => ⟨rfl, rfl, rfl, rfl⟩
  | succ n ih => exact fun y s => ih (y + 1) (s.copyRow (y - 1) y)

theorem shiftRows_buf (n : Nat) : ∀ (y : Nat) (s : Term) (r x : Nat), 0 < y → x < s.cols →
    (shiftRows n y s).buf r x =
      if y ≤ r + 1 ∧ r + 1 < y + n then s.buf (r + 1) x else s.buf r x := by
  induction n with
  | zero =>
    intro y s r x _ _
    rw [if_neg (by omega)]
    rfl
  | succ n ih =>
    intro y s r x hy hx
    rw [shiftRows, ih (y + 1) (s.copyRow (y - 1) y) r x (by omega) hx]
    by_cases hr : r + 1 = y
    · rw [if_neg (by omega), if_pos (by omega)]
      simp only [copyRow, if_pos (⟨by omega, hx⟩ : r = y - 1 ∧ x < s.cols), hr]
    · by_cases hin : y + 1 ≤ r + 1 ∧ r + 1 < y + 1 + n
      · rw [if_pos hin, if_pos (by omega), copyRow]
        exact if_neg (by omega)
      · rw [if_neg hin, if_neg (by omega), copyRow]
        exact if_neg (by omega)

theorem termScroll_spec {s : Term} (hrows : 0 < s.rows) (hcols : 0 < s.cols) :
    s.termScroll.cols = s.cols ∧ s.termScroll.rows = s.rows ∧ s.termScroll.curX = s.curX ∧
    s.termScroll.curY = s.curY - 1 ∧ ∀ r < s.rows, ∀ x < s.cols,
      s.termScroll.buf r x = if r + 1 = s.rows then 32 else s.buf (r + 1) x := by
  obtain ⟨hc, hr, hx, hy⟩ := shiftRows_rest (s.rows - 1) 1 s
  have hbuf (r x : Nat) (hlt : r < s.rows) (hxc : x < s.cols) :
      ((shiftRows (s.rows - 1) 1 s).blankRow (s.rows - 1)).buf r x =
        if r + 1 = s.rows then 32 else s.buf (r + 1) x := by
    simp only [blankRow, hc, hxc, and_true]
    by_cases hlast : r + 1 = s.rows
    · rw [if_pos (by omega), if_pos hlast]
    · rw [if_neg (by omega), if_neg hlast, shiftRows_buf _ _ _ _ _ Nat.one_pos hxc,
        if_pos (by omega)]
  have hty : ((shiftRows (s.rows - 1) 1 s).blankRow (s.rows - 1)).curY = s.curY := hy
  rw [termScroll, if_neg (by omega)]
  dsimp only
  rw [hty]
  split
  next => exact ⟨hc, hr, hx, rfl, fun r hlt x hxc => hbuf r x hlt hxc⟩
  next hpos => exact ⟨hc, hr, hx, hty.trans (by omega), fun r hlt x hxc => hbuf r x hlt hxc⟩

theorem termNewline_inner {s : Term} (h : s.curY + 1 < s.rows) :
    s.termNewline = { s with curX := 0, curY := s.curY + 1 } := by
  simp only [termNewline]
  exact if_neg (by omega)

theorem termNewline_size {s : Term} (hrows : 0 < s.rows) (hcols : 0 < s.cols) :
    s.termNewline.cols = s.cols ∧ s.termNewline.rows = s.rows := by
  simp only [termNewline]
  split
  next =>
    obtain ⟨hc, hr, -⟩ :=
      termScroll_spec (s := { s with curX := 0, curY := s.rows - 1 }) hrows hcols
    exact ⟨hc, hr⟩
  next => exact ⟨rfl, rfl⟩

theorem termNewline_bottom {s : Term} (hcols : 0 < s.cols) (h : s.curY + 1 = s.rows) :
    s.termNewline.cols = s.cols ∧ s.termNewline.rows = s.rows ∧ s.termNewline.curX = 0 ∧
    s.termNewline.curY = s.rows - 2 ∧ ∀ r < s.rows, ∀ x < s.cols,
      s.termNewline.buf r x = if r + 1 = s.rows then 32 else s.buf (r + 1) x := by
  have hrows : 0 < s.rows := by omega
  have heq : s.termNewline = termScroll { s with curX := 0, curY := s.rows - 1 } := by
    simp only [termNewline]
    rw [if_pos (by omega), if_pos hrows]
  rw [heq]
  exact termScroll_spec (s := { s with curX := 0, curY := s.rows - 1 }) hrows hcols

end Term

namespace Page

variable (p : Page)

theorem line_endLine (i : Nat) : p.endLine.line i = p.line i := by
  simp only [line, endLine, List.getD_eq_getElem?_getD]
  by_cases hlt : i < (p.done ++ [p.cur]).length
  · rw [List.getElem?_append_left hlt]
  · rw [List.getElem?_append_right (by omega), List.getElem?_eq_none (Nat.not_lt.mp hlt)]
    cases i - (p.done ++ [p.cur]).length <;> rfl

theorem count_endLine : p.endLine.count = p.count + 1 := by simp [count, endLine]

theorem line_beyond {i : Nat} (h : p.count ≤ i) : p.line i = [] :=
  List.getD_eq_default _ _ (by simpa [count] using h)

theorem line_last {i : Nat} (h : i + 1 = p.count) : p.line i = p.cur := by
  have hi : i = p.done.length := by simpa [count] using h
  simp [line, hi]

theorem line_typed (ch : UInt8) (i : Nat) :
    Page.line { p with cur := p.cur ++ [ch] } i =
      if i + 1 = p.count then p.cur ++ [ch] else p.line i := by
  by_cases hi : i + 1 = p.count
  · rw [if_pos hi]
    exact line_last _ hi
  · rw [if_neg hi, line, line]
    by_cases hlt : i < p.done.length
    · rw [List.getD_append _ _ _ _ hlt, List.getD_append _ _ _ _ hlt]
    · have hge : p.done.length + 1 ≤ i := by
        simp only [count] at hi
        omega
      rw [List.getD_eq_default _ _ (by simpa using hge), List.getD_eq_default _ _ (by simpa using hge)]

end Page

theorem glyph_append (line : Text) (ch : UInt8) (x : Nat) :
    glyph (line ++ [ch]) x = if x = line.length then ch else glyph line x := by
  simp only [glyph]
  rcases Nat.lt_trichotomy x line.length with hlt | heq | hgt
  · rw [List.getD_append _ _ _ _ hlt, if_neg (by omega)]
  · rw [if_pos heq, heq]
    simp
  · rw [if_neg (by omega), List.getD_eq_default _ _ (by simp; omega), List.getD_eq_default _ _ (by omega)]

theorem glyph_overlay (below above : Text) (x : Nat) :
    glyph (overlay below above) x = if x < above.length then glyph above x else glyph below x := by
  simp only [glyph, overlay]
  split
  next hlt => rw [List.getD_append _ _ _ _ hlt]
  next hge =>
    rw [List.getD_append_right _ _ _ _ (by omega), List.getD_eq_getElem?_getD,
      List.getElem?_drop, Nat.add_sub_cancel' (by omega), List.getD_eq_getElem?_getD]

theorem overlay_nil (below : Text) : overlay below [] = below := rfl

section Overprint

variable {s : Term} {p : Page}

def writingRow (rows count : Nat) : Nat :=
  if count ≤ rows then count - 1 else if (count - rows) % 2 = 1 then rows - 2 else rows - 1

structure Overprints (s : Term) (p : Page) : Prop where
  rows : 2 ≤ s.rows
  cols : 0 < s.cols
  curX : s.curX = p.cur.length
  curY : s.curY = writingRow s.rows p.count
  cells : ∀ r < s.rows, ∀ x < s.cols,
    s.buf r x = glyph (printed s.rows p ((p.count - s.rows + 1) / 2 + r)) x

theorem printed_endLine (rows i : Nat) : printed rows p.endLine i = printed rows p i := by
  simp only [printed, Page.line_endLine]

theorem printed_typed (rows i : Nat) (ch : UInt8) (x : Nat) :
    glyph (printed rows { p with cur := p.cur ++ [ch] } i) x =
      if ((i + 1 < rows ∧ i + 1 = p.count) ∨
          (rows ≤ i + 1 ∧ (2 * i + 2 - rows = p.count ∨ 2 * i + 3 - rows = p.count))) ∧
        x = p.cur.length then ch else glyph (printed rows p i) x := by
  simp only [printed, Page.line_typed]
  by_cases hi : i + 1 < rows
  · rw [if_pos hi, if_pos hi]
    by_cases hc : i + 1 = p.count
    · rw [if_pos hc, glyph_append, Page.line_last p hc]
      exact if_congr (by omega) rfl rfl
    · rw [if_neg hc, if_neg (by omega)]
  · rw [if_neg hi, if_neg hi, glyph_overlay, glyph_overlay]
    by_cases hunder : 2 * i + 1 - rows + 1 = p.count
    · have hover : ¬2 * i + 2 - rows + 1 = p.count := by omega
      rw [if_pos hunder, if_neg hover, Page.line_beyond p (by omega), Page.line_last p hunder,
        List.length_nil, if_neg (Nat.not_lt_zero x), if_neg (Nat.not_lt_zero x), glyph_append]
      exact if_congr (by omega) rfl rfl
    · rw [if_neg hunder]
      by_cases hover : 2 * i + 2 - rows + 1 = p.count
      · rw [if_pos hover, Page.line_last p hover, glyph_append, List.length_append]
        rcases Nat.lt_trichotomy x p.cur.length with hlt | heq | hgt
        · rw [if_pos (by omega), if_neg (by omega), if_neg (by omega), if_pos hlt]
        · rw [if_pos (by simp; omega), if_pos heq, if_pos (by omega)]
        · rw [if_neg (by simp; omega), if_neg (by omega), if_neg (by omega)]
      · rw [if_neg hover]
        exact (if_neg (by omega)).symm

theorem writingRow_cases {rows count : Nat} (hpos : 0 < count) :
    (count ≤ rows ∧ writingRow rows count = count - 1 ∧ (count - rows + 1) / 2 = 0) ∨
      (∃ k, count = rows + 2 * k + 1 ∧ writingRow rows count = rows - 2 ∧
        (count - rows + 1) / 2 = k + 1) ∨
      ∃ k, count = rows + 2 * k + 2 ∧ writingRow rows count = rows - 1 ∧
        (count - rows + 1) / 2 = k + 1 := by
  rcases Nat.lt_or_ge rows count with hlt | hle
  · obtain ⟨d, rfl⟩ := Nat.exists_eq_add_of_lt hlt
    rcases Nat.mod_two_eq_zero_or_one d with hd | hd
    · refine .inr (.inl ⟨d / 2, by omega, ?_, by omega⟩)
      rw [writingRow, if_neg (by omega), if_pos (by omega)]
    · refine .inr (.inr ⟨d / 2, by omega, ?_, by omega⟩)
      rw [writingRow, if_neg (by omega), if_neg (by omega)]
  · exact .inl ⟨hle, if_pos hle, by omega⟩

theorem writingRow_inner {rows count : Nat} (hrows : 2 ≤ rows) (hpos : 0 < count)
    (h : writingRow rows count + 1 < rows) :
    writingRow rows (count + 1) = writingRow rows count + 1 ∧
      (count + 1 - rows + 1) / 2 = (count - rows + 1) / 2 := by
  have hnext := @writingRow_cases rows (count + 1) (Nat.succ_pos _)
  rcases @writingRow_cases rows count hpos with ⟨hc, hw, ho⟩ | ⟨k, hc, hw, ho⟩ | ⟨k, hc, hw, ho⟩
  · rcases hnext with ⟨hc', hw', ho'⟩ | ⟨j, hc', hw', ho'⟩ | ⟨j, hc', hw', ho'⟩ <;> omega
  · rcases hnext with ⟨hc', hw', ho'⟩ | ⟨j, hc', hw', ho'⟩ | ⟨j, hc', hw', ho'⟩ <;> omega
  · omega

theorem writingRow_bottom {rows count : Nat} (hrows : 2 ≤ rows) (hpos : 0 < count)
    (h : ¬writingRow rows count + 1 < rows) :
    rows ≤ count ∧ writingRow rows count + 1 = rows ∧ writingRow rows (count + 1) = rows - 2 ∧
      (count + 1 - rows + 1) / 2 = (count - rows + 1) / 2 + 1 := by
  have hnext := @writingRow_cases rows (count + 1) (Nat.succ_pos _)
  rcases @writingRow_cases rows count hpos with ⟨hc, hw, ho⟩ | ⟨k, hc, hw, ho⟩ | ⟨k, hc, hw, ho⟩
  · rcases hnext with ⟨hc', hw', ho'⟩ | ⟨j, hc', hw', ho'⟩ | ⟨j, hc', hw', ho'⟩ <;> omega
  · omega
  · rcases hnext with ⟨hc', hw', ho'⟩ | ⟨j, hc', hw', ho'⟩ | ⟨j, hc', hw', ho'⟩ <;> omega

theorem writingRow_eq_iff {rows count r : Nat} (hrows : 2 ≤ rows) (hpos : 0 < count) (hr : r < rows) :
    r = writingRow rows count ↔
      ((count - rows + 1) / 2 + r + 1 < rows ∧ (count - rows + 1) / 2 + r + 1 = count) ∨
        (rows ≤ (count - rows + 1) / 2 + r + 1 ∧
          (2 * ((count - rows + 1) / 2 + r) + 2 - rows = count ∨
            2 * ((count - rows + 1) / 2 + r) + 3 - rows = count)) := by
  rcases @writingRow_cases rows count hpos with ⟨hc, hw, ho⟩ | ⟨k, hc, hw, ho⟩ | ⟨k, hc, hw, ho⟩
  · rw [hw, ho]
    omega
  · rw [hw, ho]
    omega
  · rw [hw, ho]
    omega

theorem Overprints.newline (h : Overprints s p) : Overprints s.termNewline p.endLine := by
  obtain ⟨hrows, hcols, hx, hy, hcells⟩ := h
  have hcount := p.count_endLine
  have hpos : 0 < p.count := Nat.succ_pos _
  by_cases hin : s.curY + 1 < s.rows
  · obtain ⟨hnext, hoff⟩ := writingRow_inner hrows hpos (hy ▸ hin)
    rw [Term.termNewline_inner hin]
    refine ⟨hrows, hcols, rfl, ?_, ?_⟩
    · show s.curY + 1 = writingRow s.rows p.endLine.count
      rw [hcount, hnext, hy]
    · intro r hr x hxc
      rw [printed_endLine, hcount]
      show s.buf r x = glyph (printed s.rows p ((p.count + 1 - s.rows + 1) / 2 + r)) x
      rw [hcells r hr x hxc, hoff]
  · obtain ⟨hfull, hlast, hnext, hoff⟩ := writingRow_bottom hrows hpos (hy ▸ hin)
    obtain ⟨hc, hr, hx', hy', hbuf⟩ := Term.termNewline_bottom hcols (by rw [hy, hlast])
    refine ⟨hr ▸ hrows, hc ▸ hcols, hx', ?_, ?_⟩
    · rw [hy', hcount, hr, hnext]
    · rw [hr, hc]
      intro r hlt x hxc
      rw [hbuf r hlt x hxc, printed_endLine, hcount, hoff]
      by_cases hlast : r + 1 = s.rows
      · rw [if_pos hlast, printed, if_neg (by omega), Page.line_beyond p (by omega),
          Page.line_beyond p (by omega)]
        rfl
      · rw [if_neg hlast, hcells (r + 1) (by omega) x hxc, Nat.add_assoc, Nat.add_comm 1 r]

theorem Overprints.typed (h : Overprints s p) (ch : UInt8) :
    Overprints { s.putCell s.curY s.curX ch with curX := s.curX + 1 }
      { p with cur := p.cur ++ [ch] } := by
  obtain ⟨hrows, hcols, hx, hy, hcells⟩ := h
  refine ⟨hrows, hcols, by simp [hx], hy, ?_⟩
  intro r hr x hxc
  have hpos : 0 < p.count := Nat.succ_pos _
  show (if r = s.curY ∧ x = s.curX then ch else s.buf r x) =
    glyph (printed s.rows { p with cur := p.cur ++ [ch] } ((p.count - s.rows + 1) / 2 + r)) x
  rw [printed_typed, hcells r hr x hxc, hx, hy]
  exact if_congr (and_congr_left' (writingRow_eq_iff hrows hpos hr)) rfl rfl

end Overprint

section OneRow

variable {s : Term} {p : Page}

structure OneRow (s : Term) (p : Page) : Prop where
  rows : s.rows = 1
  cols : 0 < s.cols
  curX : s.curX = p.cur.length
  curY : s.curY = 0
  cells : ∀ x < s.cols, s.buf 0 x = glyph p.cur x

theorem OneRow.newline (h : OneRow s p) : OneRow s.termNewline p.endLine := by
  obtain ⟨hrows, hcols, hx, hy, -⟩ := h
  obtain ⟨hc, hr, hx', hy', hbuf⟩ := Term.termNewline_bottom hcols (by omega)
  refine ⟨hr.trans hrows, hc ▸ hcols, hx', by omega, ?_⟩
  rw [hc]
  intro x hxc
  rw [hbuf 0 (by omega) x hxc, if_pos (by omega)]
  rfl

theorem OneRow.typed (h : OneRow s p) (ch : UInt8) :
    OneRow { s.putCell s.curY s.curX ch with curX := s.curX + 1 }
      { p with cur := p.cur ++ [ch] } := by
  obtain ⟨hrows, hcols, hx, hy, hcells⟩ := h
  refine ⟨hrows, hcols, by simp [hx], hy, ?_⟩
  intro x hxc
  show (if 0 = s.curY ∧ x = s.curX then ch else s.buf 0 x) = glyph (p.cur ++ [ch]) x
  rw [glyph_append, hcells x hxc, hx]
  exact if_congr (by omega) rfl rfl

end OneRow

section Feed

variable {s : Term} {p : Page}

inductive Tracks (s : Term) (p : Page) : Prop
  | many (h : Overprints s p)
  | one (h : OneRow s p)

theorem Tracks.newline (h : Tracks s p) : Tracks s.termNewline p.endLine := by
  cases h with
  | many h => exact .many h.newline
  | one h => exact .one h.newline

theorem Tracks.typed (h : Tracks s p) (ch : UInt8) :
    Tracks { s.putCell s.curY s.curX ch with curX := s.curX + 1 }
      { p with cur := p.cur ++ [ch] } := by
  cases h with
  | many h => exact .many (h.typed ch)
  | one h => exact .one (h.typed ch)

theorem Tracks.size (h : Tracks s p) : 0 < s.rows ∧ 0 < s.cols ∧ s.curX = p.cur.length := by
  cases h with
  | many h => exact ⟨Nat.lt_of_lt_of_le Nat.two_pos h.rows, h.cols, h.curX⟩
  | one h => exact ⟨by rw [h.rows]; exact Nat.one_pos, h.cols, h.curX⟩

theorem Tracks.newline_size (h : Tracks s p) :
    s.termNewline.cols = s.cols ∧ s.termNewline.rows = s.rows :=
  Term.termNewline_size h.size.1 h.size.2.1

theorem Tracks.putc (h : Tracks s p) {ch : UInt8} (hb : ch ≠ 8) :
    Tracks (s.termPutc ch) (p.put s.cols ch) ∧ (s.termPutc ch).cols = s.cols ∧
      (s.termPutc ch).rows = s.rows := by
  obtain ⟨hrows, hcols, hx⟩ := h.size
  rw [Term.termPutc, Page.put, if_neg (by omega)]
  by_cases hcr : ch = 13
  · rw [if_pos hcr, if_neg (by simp [hcr]), if_pos (Or.inl hcr)]
    exact ⟨h, rfl, rfl⟩
  · rw [if_neg hcr]
    by_cases hlf : ch = 10
    · rw [if_pos hlf, if_pos hlf]
      exact ⟨h.newline, h.newline_size⟩
    · rw [if_neg hlf, if_neg hlf, if_neg hb]
      by_cases hp : Term.printable ch = false
      · rw [if_pos hp, if_pos (Or.inr hp)]
        exact ⟨h, rfl, rfl⟩
      · have hplain : ¬(ch = 13 ∨ Term.printable ch = false) := fun hx => hx.elim hcr hp
        have htyped := h.typed ch
        rw [if_neg hp, if_neg hplain]
        rw [← hx]
        dsimp only
        split
        next hfull =>
          have hfull : s.cols ≤ s.curX + 1 := hfull
          rw [if_pos hfull]
          exact ⟨htyped.newline, htyped.newline_size⟩
        next hroom =>
          have hroom : ¬s.cols ≤ s.curX + 1 := hroom
          rw [if_neg hroom]
          exact ⟨htyped, rfl, rfl⟩

theorem Tracks.feed : ∀ (stream : Text) {s : Term} {p : Page}, Tracks s p → 8 ∉ stream →
    Tracks (s.termFeed stream) (stream.foldl (Page.put s.cols) p) ∧
      (s.termFeed stream).cols = s.cols ∧ (s.termFeed stream).rows = s.rows := by
  intro stream
  induction stream with
  | nil => exact fun h _ => ⟨h, rfl, rfl⟩
  | cons ch stream ih =>
    intro s p h hb
    obtain ⟨hch, hrest⟩ : ¬8 = ch ∧ 8 ∉ stream := by simpa using hb
    obtain ⟨hstep, hcols, hrows⟩ := h.putc (Ne.symm hch)
    obtain ⟨htracks, hcols', hrows'⟩ := ih hstep hrest
    rw [hcols] at htracks
    exact ⟨htracks, hcols'.trans hcols, hrows'.trans hrows⟩

theorem tracks_clear (hrows : 0 < s.rows) (hcols : 0 < s.cols) : Tracks s.termClear Page.empty := by
  have hline (i : Nat) : Page.empty.line i = [] := by
    cases i <;> rfl
  by_cases hone : s.rows = 1
  · exact .one ⟨hone, hcols, rfl, rfl, fun _ _ => rfl⟩
  · refine .many ⟨by show 2 ≤ s.rows; omega, hcols, rfl, ?_, ?_⟩
    · rw [writingRow, if_pos (by show 1 ≤ s.rows; omega)]
      rfl
    · intro r _ x _
      have hblank (i : Nat) : printed s.rows Page.empty i = [] := by
        rw [printed]
        split <;> simp [hline, overlay]
      show (32 : UInt8) = glyph (printed s.rows Page.empty _) x
      rw [hblank]
      rfl

theorem feed_displays_iff (s : Term) (stream : Text) (hrows : 0 < s.rows) (hcols : 0 < s.cols)
    (hb : 8 ∉ stream) :
    Displays (s.termClear.termFeed stream) (Page.wrap s.cols stream) ↔
      s.rows = 1 ∨ Undisturbed s.rows s.cols (Page.wrap s.cols stream) := by
  obtain ⟨htracks, hc, hr⟩ := (tracks_clear hrows hcols).feed stream hb
  have hc : (s.termClear.termFeed stream).cols = s.cols := hc
  have hr : (s.termClear.termFeed stream).rows = s.rows := hr
  have htracks : Tracks (s.termClear.termFeed stream) (Page.wrap s.cols stream) := htracks
  rw [Displays, hr, hc]
  cases htracks with
  | many h =>
    obtain ⟨htwo, -, -, -, hcells⟩ := h
    rw [hr, hc] at hcells
    constructor
    · intro hd
      right
      intro r hlt x hxc
      rw [← hcells r hlt x hxc]
      exact hd r hlt x hxc
    · intro hu r hlt x hxc
      rcases hu with hone | hu
      · omega
      · rw [hcells r hlt x hxc]
        exact hu r hlt x hxc
  | one h =>
    have hone : s.rows = 1 := hr ▸ h.rows
    refine ⟨fun _ => Or.inl hone, fun _ r hlt x hxc => ?_⟩
    have hr0 : r = 0 := by omega
    rw [hr0, h.cells x (hc ▸ hxc), hone,
      Page.line_last (Page.wrap s.cols stream) (by have := Nat.succ_pos (Page.wrap s.cols stream).done.length; simp [Page.count])]

theorem undisturbed_of_count {rows cols : Nat} {p : Page}
    (h : p.count ≤ rows ∨ p.count = rows + 1 ∧ p.cur = []) : Undisturbed rows cols p := by
  intro r hlt x _
  have hpos : 0 < p.count := Nat.succ_pos _
  rcases h with hle | ⟨heq, hcur⟩
  · have h0 : p.count - rows = 0 := by omega
    have hz : (p.count - rows + 1) / 2 + r = r := by omega
    rw [hz, h0, Nat.zero_add, printed]
    split
    next => rfl
    next => rw [Page.line_beyond p (i := 2 * r + 2 - rows) (by omega), overlay_nil,
        show 2 * r + 1 - rows = r by omega]
  · have hz : (p.count - rows + 1) / 2 + r = r + 1 := by omega
    have hlast : p.line rows = [] := (Page.line_last p heq.symm).trans hcur
    rw [hz, show p.count - rows + r = r + 1 by omega, printed]
    split
    next => rfl
    next =>
      by_cases hr : r + 1 = rows
      · rw [hr, hlast, Page.line_beyond p (by omega), Page.line_beyond p (by omega)]
        rfl
      · rw [show 2 * (r + 1) + 1 - rows = r + 1 by omega, show 2 * (r + 1) + 2 - rows = rows by omega,
          hlast, overlay_nil]

theorem disturbed_of_text {rows cols : Nat} {p : Page} {c : UInt8} {rest : Text} (hrows : 0 < rows)
    (hcols : 0 < cols) (hcount : p.count = rows + 1) (hcur : p.cur = c :: rest) (hc : c ≠ 32) :
    ¬Undisturbed rows cols p := by
  intro h
  have hlast := h (rows - 1) (by omega) 0 hcols
  rw [show (p.count - rows + 1) / 2 + (rows - 1) = rows by omega,
    show p.count - rows + (rows - 1) = rows by omega, printed, if_neg (by omega),
    Page.line_beyond p (by omega), Page.line_beyond p (by omega), Page.line_last p hcount.symm,
    hcur] at hlast
  exact hc hlast.symm

theorem feed_displays_two_lines :
    Displays ((⟨80, 2, 0, 0, fun _ _ => 0⟩ : Term).termClear.termFeed [104, 105, 10, 97])
      (Page.wrap 80 [104, 105, 10, 97]) :=
  (feed_displays_iff ⟨80, 2, 0, 0, fun _ _ => 0⟩ [104, 105, 10, 97] (by decide) (by decide)
    (by decide)).mpr (Or.inr (undisturbed_of_count (Or.inl (by decide))))

-- "a", "b" and "c" on two rows: "c" takes the place of "b"
theorem third_line_overwrites_second :
    ∃ (s : Term) (stream : Text), 0 < s.rows ∧ 0 < s.cols ∧ 8 ∉ stream ∧
      ¬Displays (s.termClear.termFeed stream) (Page.wrap s.cols stream) := by
  refine ⟨⟨80, 2, 0, 0, fun _ _ => 0⟩, [97, 10, 98, 10, 99], by decide, by decide, by decide, ?_⟩
  intro h
  exact absurd (h 1 (by decide) 0 (by decide)) (by decide)

end Feed

end HouseOS.Composd
