import HouseOS.Vesa.Copy
import HouseOS.Vesa.Fill

namespace HouseOS.Vesa

open HouseOS.ByteMem HouseOS.Word HouseOS.Assign

namespace Display

section Source

variable (d : Display)

def vesaClear (m : Mem) (color : Nat) : Mem :=
  let screenSize := mul32 d.pitch d.vesaPhysHeight
  if d.rotation = .deg0 ∧ d.bytesPerPixel = 4 then
    fillRow m 0 (screenSize / 4) (packColor d.mode color)
  else d.fillRectSlow m 0 0 d.vesaLogicalWidth d.vesaLogicalHeight color

def moveRow (m : Mem) (dst src : Nat) : Mem :=
  if d.rotation = .deg0 then
    copy m (d.vesaCalculatePixelOffset 0 dst) (d.vesaCalculatePixelOffset 0 src)
      (mul32 d.vesaLogicalWidth d.bytesPerPixel)
  else
    (List.range d.vesaLogicalWidth).foldl
      (fun m x => d.vesaPutPixel m x dst (d.vesaGetPixel m x src)) m

-- a loop `for (y = stop - 1; y >= first; y--)` with `0 < first` has the values of `upTo` backwards
def vesaScroll (m : Mem) (dx dy : Int) (fill : Nat) : Mem :=
  if dx = 0 ∧ dy = 0 then m
  else
    let lw := d.vesaLogicalWidth
    let lh := d.vesaLogicalHeight
    if dx = 0 then
      let absDy := dy.natAbs
      if lh ≤ absDy then d.vesaClear m fill
      else if 0 < dy then
        let m := (upTo absDy lh).reverse.foldl (fun m y => d.moveRow m y (sub32 y absDy)) m
        d.vesaFillRect m 0 0 lw absDy fill
      else
        let m := (upTo 0 (sub32 lh absDy)).foldl (fun m y => d.moveRow m y (add32 y absDy)) m
        d.vesaFillRect m 0 (sub32 lh absDy) lw absDy fill
    else m

end Source

variable {d : Display} {x y srcY dstY n packed fill : Nat} {dy : Int} {m m' : Mem} {l : List Nat}
  {R : Nat → Nat → Prop}

section Rows

def OnRows (d : Display) (srcY dstY : Nat) (l : List Nat) : Prop :=
  ∀ y ∈ l, srcY + y < d.vesaLogicalHeight ∧ dstY + y < d.vesaLogicalHeight

theorem copyW_full (d : Display) : d.copyW 0 0 d.vesaLogicalWidth = d.vesaLogicalWidth := by
  rw [copyW]
  omega

theorem lt_copyH (hsrc : srcY + y < d.vesaLogicalHeight) (hdst : dstY + y < d.vesaLogicalHeight) :
    y < d.copyH srcY dstY d.vesaLogicalHeight := by
  rw [copyH]
  omega

theorem moveRow_eq (d : Display) (m : Mem) (srcY dstY y : Nat) :
    d.moveRow m (dstY + y) (srcY + y) = d.copyRow 0 srcY 0 dstY d.vesaLogicalWidth m y := by
  have hlw := d.logicalWidth_lt
  have hrow : mul32 d.vesaLogicalWidth d.bytesPerPixel = d.vesaLogicalWidth * d.bytesPerPixel := by
    refine Nat.mod_eq_of_lt (Nat.lt_of_le_of_lt (Nat.mul_le_mul_left _ d.bytes_le) ?_)
    omega
  rw [moveRow, copyRow, hrow]
  simp only [Nat.zero_add]

theorem view_copyRows (hl : d.OnRows srcY dstY l) (m : Mem) :
    d.view (l.foldl (d.copyRow 0 srcY 0 dstY d.vesaLogicalWidth) m) =
      assigns (d.view m) (l.flatMap fun y => rowSteps 0 srcY 0 dstY d.vesaLogicalWidth y) := by
  refine foldl_assigns _ (fun y hy t => ?_) m
  have hy : y < d.copyH srcY dstY d.vesaLogicalHeight := lt_copyH (hl y hy).1 (hl y hy).2
  rw [copyRow]
  split
  next hrot =>
    have hrow := view_copyRow hrot 0 0 d.vesaLogicalWidth hy d.vesaLogicalWidth 0 t
      (by rw [copyW_full, Nat.zero_add])
    rw [Nat.zero_mul, Nat.add_zero, Nat.add_zero] at hrow
    rw [hrow, rowSteps, List.range_eq_range']
  next =>
    have hrow := @view_putRow d 0 srcY 0 dstY d.vesaLogicalWidth d.vesaLogicalHeight y hy t
    rwa [copyW_full] at hrow

def RowsInOrder (srcY dstY : Nat) (l : List Nat) : Prop :=
  l.Pairwise fun y y' => y ≠ y' ∧ dstY + y ≠ srcY + y'

theorem rowSteps_simultaneous (hl : RowsInOrder srcY dstY l) (w : Nat) :
    (l.flatMap fun y => rowSteps 0 srcY 0 dstY w y).Pairwise
      fun p q => p.1 ≠ q.1 ∧ p.1 ≠ q.2 := by
  refine List.pairwise_flatMap.mpr ⟨fun y _ => ?_, hl.imp fun {y y'} hyy' => ?_⟩
  · refine List.pairwise_map.mpr (List.pairwise_lt_range.imp fun {x x'} hlt => ?_)
    simp only [copyStep, ne_eq, Prod.mk.injEq]
    omega
  · simp only [rowSteps, List.mem_map]
    rintro _ ⟨x, -, rfl⟩ _ ⟨x', -, rfl⟩
    simp only [copyStep, ne_eq, Prod.mk.injEq]
    omega

theorem getPixel_copyRows (hne : srcY ≠ dstY) (hl : d.OnRows srcY dstY l)
    (hord : RowsInOrder srcY dstY l) (hy : y ∈ l) (hx : x < d.vesaLogicalWidth) (m : Mem) :
    d.vesaGetPixel (l.foldl (d.copyRow 0 srcY 0 dstY d.vesaLogicalWidth) m) x (dstY + y) =
      d.vesaGetPixel m x (srcY + y) := by
  have hmem : ((x, dstY + y), (x, srcY + y)) ∈
      l.flatMap fun y => rowSteps 0 srcY 0 dstY d.vesaLogicalWidth y := by
    refine List.mem_flatMap.mpr ⟨y, hy, List.mem_map.mpr ⟨x, List.mem_range.mpr hx, ?_⟩⟩
    rw [copyStep, Nat.zero_add]
  have hview := congrFun (view_copyRows hl m) (x, dstY + y)
  rw [assigns_simultaneous (rowSteps_simultaneous hord _) hmem] at hview
  exact hview

theorem copyRows_frame (hl : d.OnRows srcY dstY l) (m : Mem) (o : Nat)
    (ho : ∀ x y k, d.Inside x y → k < d.bytesPerPixel → o ≠ d.vesaCalculatePixelOffset x y + k) :
    l.foldl (d.copyRow 0 srcY 0 dstY d.vesaLogicalWidth) m o = m o := by
  refine List.foldlRecOn (motive := fun n : Mem => n o = m o) _ _ rfl fun n hn y hy => ?_
  have hrow := @copyRow_frame d 0 srcY 0 dstY d.vesaLogicalWidth d.vesaLogicalHeight y
    (lt_copyH (hl y hy).1 (hl y hy).2) n o fun i k hi hk => ?_
  · rw [copyW_full] at hrow
    rw [hrow, hn]
  · rw [copyW_full] at hi
    exact ho _ _ k ⟨by rwa [Nat.zero_add], (hl y hy).2⟩ hk

end Rows

section Fills

def shown (d : Display) (color : Nat) : Nat :=
  unpackColor d.mode (packColor d.mode color % 2 ^ (8 * d.bytesPerPixel))

theorem Coloured.getPixel_in (hc : Coloured d packed R m m') (hin : d.Inside x y) (hR : R x y) :
    d.vesaGetPixel m' x y = unpackColor d.mode (packed % 2 ^ (8 * d.bytesPerPixel)) := by
  have hvalue : d.value m' x y = packed % 2 ^ (8 * d.bytesPerPixel) :=
    pixelValue_bytes fun k hk => hc.pixels x y k hin hR hk
  rw [getPixel_eq hin, hvalue]

theorem Coloured.getPixel_out (hc : Coloured d packed R m m') (hin : d.Inside x y) (hR : ¬R x y) :
    d.vesaGetPixel m' x y = d.vesaGetPixel m x y := by
  have hvalue : d.value m' x y = d.value m x y := by
    refine pixelValue_congr _ _ fun k hk => hc.others _ fun i j k' hij hRij hk' heq => ?_
    obtain ⟨rfl, rfl, -⟩ := pixel_unique hin hij hk hk' heq
    exact hR hRij
  rw [getPixel_eq hin, getPixel_eq hin, hvalue]

theorem fillsExactly_within {w h : Nat} (hin : d.Inside x y) (hw : x + w ≤ d.vesaLogicalWidth)
    (hh : y + h ≤ d.vesaLogicalHeight) (color : Nat) : d.FillsExactly x y w h color := by
  have hlw := d.logicalWidth_lt
  have hlh := d.logicalHeight_lt
  refine fillsExactly_of_box hin (by simp only [add32]; omega) fun i j _ => ?_
  simp only [Rect, Box, add32]
  omega

theorem fillRow_apply (hn : 4 * n < 2 ^ 32) (m : Mem) (packed o : Nat) :
    fillRow m 0 n packed o = if o < 4 * n then byte packed (o % 4) else m o := by
  induction n with
  | zero => rfl
  | succ n ih =>
    have hlast : fillRow m 0 (n + 1) packed = store32 (fillRow m 0 n packed) (4 * n) packed := by
      rw [fillRow, List.range_succ, List.foldl_append, List.foldl_cons, List.foldl_nil, Nat.zero_add,
        Nat.mod_eq_of_lt (by omega)]
      rfl
    rw [hlast]
    by_cases hin : 4 * n ≤ o ∧ o < 4 * n + 4
    · obtain ⟨k, hk, rfl⟩ : ∃ k < 4, o = 4 * n + k := ⟨o - 4 * n, by omega, by omega⟩
      have hmod : (4 * n + k) % 4 = k := by omega
      rw [if_pos (by omega), hmod]
      exact store32_byte _ _ _ hk
    · rw [store32_ne _ (by omega), ih (by omega)]
      by_cases hlt : o < 4 * n
      · rw [if_pos hlt, if_pos (by omega)]
      · rw [if_neg hlt, if_neg (by omega)]

end Fills

section Clear

theorem coloured_clear_slow (hslow : ¬(d.rotation = .deg0 ∧ d.bytesPerPixel = 4)) (m : Mem)
    (color : Nat) :
    Coloured d (packColor d.mode color) (fun _ _ => True) m (d.vesaClear m color) := by
  rw [vesaClear, if_neg hslow]
  refine (coloured_slow d m 0 0 _ _ color).congr fun i j hij => iff_of_true ?_ trivial
  exact ⟨⟨Nat.zero_le i, hij.col⟩, Nat.zero_le j, hij.row⟩

-- the words of the framebuffer are the pixels of the screen
def Packed (d : Display) : Prop :=
  d.pitch = 4 * d.vesaPhysWidth ∨ d.vesaPhysHeight = 1 ∧ d.pitch < 4 * d.vesaPhysWidth + 4

theorem words_eq (d : Display) : mul32 d.pitch d.vesaPhysHeight / 4 =
    d.vesaPhysHeight * d.pitch / 4 := by
  have hscreen := d.screen_lt
  rw [mul32, Nat.mul_comm, Nat.mod_eq_of_lt (by omega)]

theorem Packed.words (hp : d.Packed) (hbytes : d.bytesPerPixel = 4) :
    d.vesaPhysHeight * d.pitch / 4 = d.vesaPhysHeight * d.vesaPhysWidth := by
  have hrow := d.row_le_pitch
  rw [hbytes] at hrow
  rcases hp with hpitch | ⟨hone, hpitch⟩
  · rw [hpitch, Nat.mul_left_comm, Nat.mul_div_cancel_left _ (by decide)]
  · rw [hone]
    omega

theorem offset_deg0 (hrot : d.rotation = .deg0) (hbytes : d.bytesPerPixel = 4)
    (hin : d.Inside x y) : d.vesaCalculatePixelOffset x y = y * d.pitch + 4 * x := by
  rw [offset_eq hin, mapXy_eq hin, hrot, hbytes, Nat.mul_comm 4 x]

theorem logical_deg0 (hrot : d.rotation = .deg0) :
    d.vesaLogicalWidth = d.vesaPhysWidth ∧ d.vesaLogicalHeight = d.vesaPhysHeight := by
  rw [vesaLogicalWidth, vesaLogicalHeight, hrot]
  exact ⟨rfl, rfl⟩

theorem Packed.offset (hp : d.Packed) (hrot : d.rotation = .deg0) (hbytes : d.bytesPerPixel = 4)
    (hin : d.Inside x y) :
    d.vesaCalculatePixelOffset x y = 4 * (y * d.vesaPhysWidth + x) := by
  rw [offset_deg0 hrot hbytes hin, Nat.mul_add]
  rcases hp with hpitch | ⟨hone, -⟩
  · rw [hpitch, Nat.mul_left_comm]
  · have hrow := hin.row
    rw [(logical_deg0 hrot).2, hone] at hrow
    obtain rfl : y = 0 := by omega
    rw [Nat.zero_mul, Nat.zero_mul]

theorem words_lt (d : Display) : 4 * (d.vesaPhysHeight * d.pitch / 4) < 2 ^ 32 := by
  have hscreen := d.screen_lt
  omega

theorem coloured_clear_fast (hp : d.Packed) (hrot : d.rotation = .deg0) (hbytes : d.bytesPerPixel = 4)
    (m : Mem) (color : Nat) :
    Coloured d (packColor d.mode color) (fun _ _ => True) m (d.vesaClear m color) := by
  have hsmall := d.words_lt
  obtain ⟨hlw, hlh⟩ := logical_deg0 hrot
  have hwidth := d.physWidth_pos
  have hclear (o : Nat) : d.vesaClear m color o =
      if o < 4 * (d.vesaPhysHeight * d.vesaPhysWidth) then byte (packColor d.mode color) (o % 4)
      else m o := by
    rw [hp.words hbytes] at hsmall
    rw [vesaClear, if_pos ⟨hrot, hbytes⟩, words_eq, hp.words hbytes, fillRow_apply hsmall]
  constructor
  · intro i j k hin _ hk
    have hcell : j * d.vesaPhysWidth + i < d.vesaPhysHeight * d.vesaPhysWidth := by
      have hle := Nat.mul_le_mul_right d.vesaPhysWidth (Nat.succ_le_of_lt (hlh ▸ hin.row))
      have hcol := hlw ▸ hin.col
      rw [Nat.succ_mul] at hle
      omega
    rw [hbytes] at hk
    rw [hclear, hp.offset hrot hbytes hin, if_pos (by omega), Nat.mul_add_mod, Nat.mod_eq_of_lt hk]
  · intro o ho
    rw [hclear]
    refine if_neg fun hlt => ?_
    have hcell : o / 4 < d.vesaPhysHeight * d.vesaPhysWidth := by omega
    have hin : d.Inside (o / 4 % d.vesaPhysWidth) (o / 4 / d.vesaPhysWidth) := by
      refine ⟨?_, ?_⟩
      · rw [hlw]
        exact Nat.mod_lt _ hwidth
      · rw [hlh]
        exact Nat.div_lt_of_lt_mul (by rwa [Nat.mul_comm])
    have hbyte : o % 4 < d.bytesPerPixel := by
      rw [hbytes]
      exact Nat.mod_lt _ (by decide)
    refine ho _ _ (o % 4) hin trivial hbyte ?_
    rw [hp.offset hrot hbytes hin, Nat.div_add_mod', Nat.div_add_mod]

end Clear

structure ScrollsExactly (d : Display) (dy : Int) (fill : Nat) : Prop where
  pixels : ∀ m x y, d.Inside x y → d.vesaGetPixel (d.vesaScroll m 0 dy fill) x y =
    if 0 ≤ (y : Int) - dy ∧ (y : Int) - dy < d.vesaLogicalHeight
    then d.vesaGetPixel m x ((y : Int) - dy).toNat else d.shown fill
  others : ∀ m o, (∀ x y k, d.Inside x y → k < d.bytesPerPixel →
      o ≠ d.vesaCalculatePixelOffset x y + k) →
    d.vesaScroll m 0 dy fill o = m o

section Scroll

theorem scrolls_far (hfar : d.vesaLogicalHeight ≤ dy.natAbs)
    (hclear : ∀ m, Coloured d (packColor d.mode fill) (fun _ _ => True) m (d.vesaClear m fill))
    (hdy : dy ≠ 0) : d.ScrollsExactly dy fill := by
  have hscroll (m : Mem) : d.vesaScroll m 0 dy fill = d.vesaClear m fill := by
    rw [vesaScroll, if_neg fun h => hdy h.2]
    simp only [if_pos hfar, if_true]
  refine ⟨fun m x y hin => ?_, fun m o ho => ?_⟩
  · have hrow := hin.row
    rw [hscroll, (hclear m).getPixel_in hin trivial, if_neg (by omega), shown]
  · rw [hscroll]
    exact (hclear m).others o fun x y k hin _ hk => ho x y k hin hk

theorem upTo_eq_map (a b : Nat) : upTo a b = (List.range (b - a)).map (a + ·) := by
  rw [upTo, List.range'_eq_map_range]

theorem scroll_down (hpos : 0 < dy) (hnear : dy.natAbs < d.vesaLogicalHeight) (m : Mem) :
    d.vesaScroll m 0 dy fill = d.vesaFillRect
      ((List.range (d.vesaLogicalHeight - dy.natAbs)).reverse.foldl
        (d.copyRow 0 0 0 dy.natAbs d.vesaLogicalWidth) m) 0 0 d.vesaLogicalWidth dy.natAbs fill := by
  have hlh := d.logicalHeight_lt
  rw [vesaScroll, if_neg (by omega), if_pos rfl]
  simp only [if_neg (Nat.not_le.mpr hnear), if_pos hpos]
  rw [upTo_eq_map, ← List.map_reverse, List.foldl_map]
  congr 1
  refine foldl_congr_mem _ _ fun y hy t => ?_
  have hlt := List.mem_range.mp (List.mem_reverse.mp hy)
  rw [sub32_eq (by omega) (by omega), Nat.add_sub_cancel_left]
  have hrow := d.moveRow_eq t 0 dy.natAbs y
  rwa [Nat.zero_add] at hrow

theorem scroll_up (hneg : dy < 0) (hnear : dy.natAbs < d.vesaLogicalHeight) (m : Mem) :
    d.vesaScroll m 0 dy fill = d.vesaFillRect
      ((List.range (d.vesaLogicalHeight - dy.natAbs)).foldl
        (d.copyRow 0 dy.natAbs 0 0 d.vesaLogicalWidth) m) 0 (d.vesaLogicalHeight - dy.natAbs)
          d.vesaLogicalWidth dy.natAbs fill := by
  have hlh := d.logicalHeight_lt
  have hrows : sub32 d.vesaLogicalHeight dy.natAbs = d.vesaLogicalHeight - dy.natAbs :=
    sub32_eq (by omega) (by omega)
  rw [vesaScroll, if_neg (by omega), if_pos rfl]
  simp only [if_neg (Nat.not_le.mpr hnear), if_neg (Int.not_lt.mpr (Int.le_of_lt hneg)), hrows]
  rw [upTo_eq_map, Nat.sub_zero, List.foldl_map]
  congr 1
  refine foldl_congr_mem _ _ fun y hy t => ?_
  have hlt := List.mem_range.mp hy
  rw [add32_eq (by omega), Nat.zero_add, Nat.add_comm]
  have hrow := d.moveRow_eq t dy.natAbs 0 y
  rwa [Nat.zero_add] at hrow

theorem scrolls_near (srcY dstY : Nat) (l : List Nat) {h fillY : Nat} (hne : srcY ≠ dstY) (hl : d.OnRows srcY dstY l)
    (hord : RowsInOrder srcY dstY l) (hin : d.Inside 0 fillY) (hband : fillY + h ≤ d.vesaLogicalHeight)
    (hscroll : ∀ m, d.vesaScroll m 0 dy fill = d.vesaFillRect
      (l.foldl (d.copyRow 0 srcY 0 dstY d.vesaLogicalWidth) m) 0 fillY d.vesaLogicalWidth h fill)
    (hfree : ∀ y < d.vesaLogicalHeight, fillY ≤ y ∧ y < fillY + h ↔
      ¬(0 ≤ (y : Int) - dy ∧ (y : Int) - dy < d.vesaLogicalHeight))
    (hkept : ∀ y < d.vesaLogicalHeight, ¬(fillY ≤ y ∧ y < fillY + h) →
      ∃ j ∈ l, y = dstY + j ∧ (y : Int) - dy = (srcY + j : Nat)) :
    d.ScrollsExactly dy fill := by
  have hfill (m : Mem) : Coloured d (packColor d.mode fill) (Rect 0 fillY d.vesaLogicalWidth h)
      (l.foldl (d.copyRow 0 srcY 0 dstY d.vesaLogicalWidth) m) (d.vesaScroll m 0 dy fill) := by
    rw [hscroll]
    exact (fillsExactly_within hin (Nat.le_of_eq (Nat.zero_add _)) hband fill).pixels _
  refine ⟨fun m x y hxy => ?_, fun m o ho => ?_⟩
  · by_cases hrow : fillY ≤ y ∧ y < fillY + h
    · have hR : Rect 0 fillY d.vesaLogicalWidth h x y :=
        ⟨⟨Nat.zero_le x, by rw [Nat.zero_add]; exact hxy.col⟩, hrow⟩
      rw [(hfill m).getPixel_in hxy hR, if_neg ((hfree y hxy.row).mp hrow), shown]
    · have hR : ¬Rect 0 fillY d.vesaLogicalWidth h x y := fun hR => hrow hR.2
      obtain ⟨j, hj, rfl, hsrc⟩ := hkept y hxy.row hrow
      rw [(hfill m).getPixel_out hxy hR, getPixel_copyRows hne hl hord hj hxy.col,
        if_pos (not_not.mp (mt (hfree _ hxy.row).mpr hrow)), hsrc, Int.toNat_natCast]
  · rw [(hfill m).others o fun x y k hxy _ hk => ho x y k hxy hk, copyRows_frame hl m o ho]

theorem scrolls_within (hdy : dy ≠ 0) (hnear : dy.natAbs < d.vesaLogicalHeight) (fill : Nat) :
    d.ScrollsExactly dy fill := by
  obtain ⟨a, ha⟩ : ∃ a, a = dy.natAbs := ⟨_, rfl⟩
  have hwidth : 0 < d.vesaLogicalWidth := by
    obtain ⟨x, y, hin, -⟩ := mapXy_surj d.physWidth_pos d.physHeight_pos
    exact Nat.lt_of_le_of_lt (Nat.zero_le x) hin.col
  rcases Int.lt_or_lt_of_ne hdy with hneg | hpos
  · refine scrolls_near dy.natAbs 0 (List.range (d.vesaLogicalHeight - dy.natAbs)) (by omega)
      (fun y hy => ?_) ?_
      ⟨hwidth, by omega⟩ (by omega) (fun m => scroll_up hneg hnear m) (fun y hy => by omega)
      fun y hy hout => ⟨y, List.mem_range.mpr (by omega), by omega, by omega⟩
    · have hlt := List.mem_range.mp hy
      omega
    · exact List.pairwise_lt_range.imp fun hlt => by omega
  · refine scrolls_near 0 dy.natAbs (List.range (d.vesaLogicalHeight - dy.natAbs)).reverse (by omega)
      (fun y hy => ?_) ?_
      ⟨hwidth, by omega⟩ (by omega) (fun m => scroll_down hpos hnear m) (fun y hy => by omega)
      fun y hy hout => ⟨y - dy.natAbs, List.mem_reverse.mpr (List.mem_range.mpr (by omega)),
        by omega, by omega⟩
    · have hlt := List.mem_range.mp (List.mem_reverse.mp hy)
      omega
    · exact List.pairwise_reverse.mpr (List.pairwise_lt_range.imp fun hlt => by omega)

-- the words reach the bytes between two rows
theorem not_scrolls_padded (hdy : dy ≠ 0) (hfar : d.vesaLogicalHeight ≤ dy.natAbs)
    (hrot : d.rotation = .deg0) (hbytes : d.bytesPerPixel = 4) (hp : ¬d.Packed) (fill : Nat) :
    ¬d.ScrollsExactly dy fill := by
  intro hscrolls
  have hrow := d.row_le_pitch
  have hwidth := d.physWidth_pos
  have hheight := d.physHeight_pos
  have hsmall := d.words_lt
  obtain ⟨hlw, hlh⟩ := logical_deg0 hrot
  rw [hbytes] at hrow
  obtain ⟨v, hv⟩ := exists_unlike (packColor d.mode fill)
  have hpitch : 4 * d.vesaPhysWidth < d.pitch := by
    unfold Packed at hp
    omega
  have hreached : 4 * d.vesaPhysWidth < 4 * (d.vesaPhysHeight * d.pitch / 4) := by
    unfold Packed at hp
    by_cases hone : d.vesaPhysHeight = 1
    · rw [hone]
      omega
    · have htwo := Nat.mul_le_mul_right d.pitch (show 2 ≤ d.vesaPhysHeight by omega)
      omega
  have hclear : d.vesaScroll (fun _ => v) 0 dy fill (4 * d.vesaPhysWidth) =
      byte (packColor d.mode fill) 0 := by
    rw [vesaScroll, if_neg fun h => hdy h.2]
    simp only [if_pos hfar, if_true]
    rw [vesaClear, if_pos ⟨hrot, hbytes⟩, words_eq, fillRow_apply hsmall, if_pos hreached,
      Nat.mul_mod_right]
  refine hv 0 (by decide) ((hscrolls.others (fun _ => v) _ fun x y k hin hk heq => ?_).symm.trans
    hclear)
  rw [offset_deg0 hrot hbytes hin] at heq
  have hcol := hlw ▸ hin.col
  rw [hbytes] at hk
  rcases Nat.eq_zero_or_pos y with rfl | hy
  · omega
  · have hnext := Nat.mul_le_mul_right d.pitch (Nat.succ_le_of_lt hy)
    omega

theorem scroll_exact_iff (d : Display) (dy : Int) (fill : Nat) (hdy : dy ≠ 0) :
    d.ScrollsExactly dy fill ↔
      dy.natAbs < d.vesaLogicalHeight ∨ d.rotation ≠ .deg0 ∨ d.bytesPerPixel ≠ 4 ∨ d.Packed := by
  constructor
  · intro hscrolls
    by_contra hcond
    push Not at hcond
    obtain ⟨hfar, hrot, hbytes, hp⟩ := hcond
    exact not_scrolls_padded hdy hfar hrot hbytes hp fill hscrolls
  · intro hcond
    by_cases hnear : dy.natAbs < d.vesaLogicalHeight
    · exact scrolls_within hdy hnear fill
    · refine scrolls_far (Nat.le_of_not_lt hnear) (fun m => ?_) hdy
      by_cases hfast : d.rotation = .deg0 ∧ d.bytesPerPixel = 4
      · have hp : d.Packed := by
          rcases hcond with hcond | hcond | hcond | hcond
          · exact absurd hcond hnear
          · exact absurd hfast.1 hcond
          · exact absurd hfast.2 hcond
          · exact hcond
        exact coloured_clear_fast hp hfast.1 hfast.2 m fill
      · exact coloured_clear_slow hfast m fill

theorem scroll_exact_one : (screen8888 .deg90).ScrollsExactly (-1) 0xFF0000 :=
  (scroll_exact_iff (screen8888 .deg90) (-1) 0xFF0000 (by decide)).mpr (Or.inl (by decide))

-- four bytes between two rows of four pixels
def screenPadded : Display :=
  { signature := Words.byteText "VESA", mode := { mode8888 4 2 with pitch := 20 },
    bytesPerPixel := 4, rotation := .deg0, accepted := by decide }

theorem scroll_fills_padding : ¬screenPadded.ScrollsExactly 2 0 :=
  not_scrolls_padded (by decide) (by decide) rfl rfl (by unfold Packed; decide) 0

end Scroll

end Display

end HouseOS.Vesa
