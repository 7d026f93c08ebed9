import HouseOS.Tty.Reader

namespace HouseOS.Tty

variable {screen : Screen} {t : Device} {active : Nat}

structure OnScreen (screen : Screen) (t : Device) : Prop where
  same : t.screen = screen
  x : t.cursorX < screen.cols
  y : t.cursorY < screen.rows
  within : ∀ a ∈ t.touched, a.1 + a.2 ≤ screen.rows * screen.cols

theorem cell_lt (hs : t.screen = screen) {x y : Nat} (hx : x < screen.cols) (hy : y < screen.rows) :
    t.cell x y < screen.rows * screen.cols := by
  have hrow : y * screen.cols + x < screen.rows * screen.cols :=
    calc
      y * screen.cols + x < y * screen.cols + screen.cols := Nat.add_lt_add_left hx _
      _ = (y + 1) * screen.cols := (Nat.succ_mul y screen.cols).symm
      _ ≤ screen.rows * screen.cols := Nat.mul_le_mul_right _ hy
  rw [Device.cell, Device.cols, hs, Nat.mod_eq_of_lt (Nat.lt_trans hrow screen.fits)]
  exact hrow

theorem screen_lt (hx : 0 < screen.cols) (hy : 0 < screen.rows) :
    screen.cols < 2 ^ 32 ∧ screen.rows < 2 ^ 32 := by
  have hfits := screen.fits
  have hcols : screen.cols ≤ screen.rows * screen.cols := Nat.le_mul_of_pos_left _ hy
  have hrows : screen.rows ≤ screen.rows * screen.cols := Nat.le_mul_of_pos_right _ hx
  omega

namespace OnScreen

theorem touch (h : OnScreen screen t) {start len : Nat}
    (hle : start + len ≤ screen.rows * screen.cols) : OnScreen screen (t.touch start len) where
  same := h.same
  x := h.x
  y := h.y
  within a ha := by
    rcases List.mem_append.mp ha with ha | ha
    · exact h.within a ha
    · rw [List.mem_singleton.mp ha]
      exact hle

theorem touch_cell (h : OnScreen screen t) {x y : Nat} (hx : x < screen.cols)
    (hy : y < screen.rows) : OnScreen screen (t.touch (t.cell x y) 1) :=
  h.touch (cell_lt h.same hx hy)

theorem store (h : OnScreen screen t) {x y : Nat} (hx : x < screen.cols) (hy : y < screen.rows)
    (c : UInt8) : OnScreen screen (t.store x y c) :=
  have ht := h.touch_cell hx hy
  ⟨ht.same, ht.x, ht.y, ht.within⟩

theorem moveTo (h : OnScreen screen t) {x y : Nat} (hx : x < screen.cols) (hy : y < screen.rows) :
    OnScreen screen (t.moveTo x y) :=
  ⟨h.same, hx, hy, h.within⟩

theorem ansi (h : OnScreen screen t) (state : AnsiState) (param : Nat) (have' : Bool) :
    OnScreen screen { t with ansiState := state, ansiParam := param, ansiHaveParam := have' } :=
  ⟨h.same, h.x, h.y, h.within⟩

theorem foldl {α : Type} {f : Device → α → Device} {l : List α}
    (hf : ∀ a ∈ l, ∀ t, OnScreen screen t → OnScreen screen (f t a)) (h : OnScreen screen t) :
    OnScreen screen (l.foldl f t) := by
  induction l generalizing t with
  | nil => exact h
  | cons a l ih =>
    exact ih (fun b hb => hf b (List.mem_cons_of_mem _ hb)) (hf a (List.mem_cons_self ..) t h)

theorem iterate {f : Device → Device} (hf : ∀ t, OnScreen screen t → OnScreen screen (f t))
    (h : OnScreen screen t) (n : Nat) : OnScreen screen (f^[n] t) := by
  induction n generalizing t with
  | zero => exact h
  | succ n ih => exact ih (hf t h)

theorem cols_eq (h : OnScreen screen t) : t.cols = screen.cols := congrArg Screen.cols h.same

theorem rows_eq (h : OnScreen screen t) : t.rows = screen.rows := congrArg Screen.rows h.same

theorem cursorLeftRaw (h : OnScreen screen t) : OnScreen screen t.cursorLeftRaw := by
  have hx := h.x
  have hy := h.y
  rw [Device.cursorLeftRaw, h.cols_eq]
  split
  · exact h.moveTo (by omega) hy
  · split
    · rw [if_pos (by omega)]
      exact h.moveTo (by omega) (by omega)
    · exact h

theorem cursorRightRaw (h : OnScreen screen t) : OnScreen screen t.cursorRightRaw := by
  have hx := h.x
  rw [Device.cursorRightRaw, h.cols_eq, h.rows_eq]
  split
  next hlt => exact h.moveTo hlt h.y
  next =>
    refine h.moveTo (by omega) ?_
    split
    next hlt => exact hlt
    next => exact h.y

theorem redrawRow (h : OnScreen screen t) (row : Nat) : OnScreen screen (t.redrawRow row) := by
  rw [Device.redrawRow, h.cols_eq, h.rows_eq]
  split
  · exact h
  · rename_i hok
    have hrow : row < screen.rows := by
      by_contra hge
      exact hok (Or.inr (Or.inl (by omega)))
    exact h.foldl fun x hx t ht => ht.touch_cell (List.mem_range.mp hx) hrow

theorem eraseToEol (h : OnScreen screen t) : OnScreen screen (t.eraseToEol active) := by
  rw [Device.eraseToEol, h.cols_eq, h.rows_eq]
  split
  · exact h
  · refine h.foldl fun x hx u hu => ?_
    have hlt : x < screen.cols := by
      have hxcols := h.x
      obtain ⟨i, hi, rfl⟩ := List.mem_range'.mp hx
      omega
    have hstored : OnScreen screen (u.store x t.cursorY 32) := hu.store hlt h.y 32
    dsimp only
    split
    · exact hstored.redrawRow _
    · exact hstored

theorem scroll (h : OnScreen screen t) : OnScreen screen (t.scroll active) := by
  have hx := h.x
  have hy := h.y
  have hfits := screen.fits
  have hcols : screen.cols ≤ screen.rows * screen.cols := Nat.le_mul_of_pos_left _ (by omega)
  have htotal : (screen.rows * screen.cols) % 2 ^ 32 = screen.rows * screen.cols :=
    Nat.mod_eq_of_lt hfits
  have hmoved : (screen.rows * screen.cols + 2 ^ 32 - screen.cols) % 2 ^ 32 =
      screen.rows * screen.cols - screen.cols := by omega
  rw [Device.scroll]
  split
  · exact h
  · simp only [h.cols_eq, h.rows_eq, htotal, hmoved]
    have htouched : OnScreen screen
        (((t.touch screen.cols (screen.rows * screen.cols - screen.cols)).touch 0
          (screen.rows * screen.cols - screen.cols)).touch
            (screen.rows * screen.cols - screen.cols) screen.cols) :=
      ((h.touch (by omega)).touch (by omega)).touch (by omega)
    have hcells : ∀ cells, OnScreen screen { (((t.touch screen.cols
        (screen.rows * screen.cols - screen.cols)).touch 0
          (screen.rows * screen.cols - screen.cols)).touch
            (screen.rows * screen.cols - screen.cols) screen.cols) with cells := cells } :=
      fun _ => ⟨htouched.same, htouched.x, htouched.y, htouched.within⟩
    split
    · exact hcells _
    · exact (hcells _).redrawRow _

theorem command (h : OnScreen screen t) (c : UInt8) (n col : Nat) :
    OnScreen screen
      (if c = 68 then Device.cursorLeftRaw^[n] t
      else if c = 67 then Device.cursorRightRaw^[n] t
      else if c = 71 then
        t.moveTo (if t.cols ≤ col then (if t.cols ≠ 0 then t.cols - 1 else 0) else col) t.cursorY
      else if c = 72 ∨ c = 102 then t.moveTo 0 0
      else if c = 75 ∨ c = 88 ∨ c = 74 then t.eraseToEol active
      else t) := by
  have hx := h.x
  have hy := h.y
  split
  · exact h.iterate (fun t ht => ht.cursorLeftRaw) n
  split
  · exact h.iterate (fun t ht => ht.cursorRightRaw) n
  split
  · rw [h.cols_eq]
    refine h.moveTo ?_ hy
    split
    · rw [if_pos (by omega)]
      omega
    · omega
  split
  · exact h.moveTo (by omega) (by omega)
  split
  · exact h.eraseToEol
  · exact h

theorem consumeAnsi (h : OnScreen screen t) (c : UInt8) :
    OnScreen screen (t.consumeAnsi active c).1 := by
  rw [Device.consumeAnsi]
  split
  · split
    · exact h.ansi ..
    · exact h
  · split
    · exact h.ansi ..
    · exact h.ansi ..
  · split
    · exact h.ansi ..
    split
    · exact h
    split
    · exact (h.command c _ _).ansi ..
    · exact h.ansi ..

theorem nextRow (h : OnScreen screen t) : OnScreen screen (t.nextRow active) := by
  have hx := h.x
  have hy := h.y
  simp only [Device.nextRow, h.rows_eq]
  split
  · exact (h.moveTo (by omega) (by omega)).scroll
  · exact h.moveTo (by omega) (by omega)

theorem putc (h : OnScreen screen t) (c : UInt8) : OnScreen screen (t.putc active c) := by
  have hansi : OnScreen screen (t.consumeAnsi active c).1 := h.consumeAnsi c
  rw [Device.putc]
  generalize t.consumeAnsi active c = eaten at hansi ⊢
  obtain ⟨t, eaten⟩ := eaten
  have hx : t.cursorX < screen.cols := hansi.x
  dsimp only at hansi ⊢
  split
  · exact hansi
  split
  · exact hansi.moveTo (by omega) hansi.y
  split
  · exact hansi.nextRow
  split
  · have hleft := hansi.cursorLeftRaw
    exact hleft.store hleft.x hleft.y 32
  · have hstored := hansi.store hansi.x hansi.y c
    rw [hstored.cols_eq]
    split
    · exact hstored.nextRow
    · exact hstored.moveTo (by omega) hstored.y

theorem inputCursor (h : OnScreen screen t) (visible : Bool) :
    OnScreen screen (t.inputCursor active visible) := by
  rw [Device.inputCursor]
  split
  · exact h
  split
  · exact h
  split
  · exact h
  · exact h.touch_cell h.x h.y

theorem renderFull (h : OnScreen screen t) : OnScreen screen t.renderFull := by
  rw [Device.renderFull, h.rows_eq]
  split
  · exact h
  · refine h.foldl fun y hy t ht => ?_
    rw [ht.cols_eq]
    exact ht.foldl fun x hx t ht => ht.touch_cell (List.mem_range.mp hx) (List.mem_range.mp hy)

theorem act (h : OnScreen screen t) (a : Nat × Act) : OnScreen screen (t.act a) := by
  obtain ⟨active, a⟩ := a
  cases a with
  | putcVesa c =>
    rw [Device.act, Device.putcVesa]
    split
    · exact h
    · exact h.putc c
  | putcVga c =>
    rw [Device.act, Device.putcVga]
    split
    · exact h
    split
    · exact h
    · exact h.putc c
  | cursorLeftRaw => exact h.cursorLeftRaw
  | cursorRightRaw => exact h.cursorRightRaw
  | inputCursor visible => exact h.inputCursor visible
  | renderFull => exact h.renderFull

end OnScreen

theorem onScreen_ttyInit (type : TtyType) (index : Nat) (screen : Screen) (got : Bool)
    (hcols : 0 < screen.cols) (hrows : 0 < screen.rows) :
    OnScreen screen (ttyInit type index screen got) :=
  ⟨rfl, hcols, hrows, by simp [ttyInit]⟩

theorem OnScreen.states (h : OnScreen screen t) (active : Nat → Nat) (acts : List Act) :
    ∀ u ∈ t.states active acts, OnScreen screen u := by
  induction acts generalizing t active with
  | nil =>
    intro u hu
    rwa [List.mem_singleton.mp hu]
  | cons a acts ih =>
    intro u hu
    rcases List.mem_cons.mp hu with rfl | hu
    · exact h
    · exact ih (h.act (active 0, a)) _ u hu

def oneCell : Screen := ⟨1, 1, by decide⟩

end HouseOS.Tty
