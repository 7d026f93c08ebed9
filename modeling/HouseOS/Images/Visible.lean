import HouseOS.Images.Draw
import HouseOS.Library.Run
import HouseOS.Vesa.Pixel

namespace HouseOS.Images

open HouseOS.ByteMem HouseOS.Word
open HouseOS.Vesa (Display)

section Axis

variable {pos size screen src image : Nat}

def Reaches (pos size screen : Nat) : Prop := pos ≤ screen ∨ 2 ^ 32 ≤ pos + size

def Nothing (pos size screen : Nat) : Prop :=
  pos ≤ screen ∧ (size = 0 ∨ (pos = screen ∧ pos + size < 2 ^ 32))

def Wraps (pos size : Nat) : Prop := 2 ^ 32 < pos + size

def Shown (pos size screen : Nat) : Prop := 0 < size ∧ (pos < screen ∨ Wraps pos size)

instance (pos size screen : Nat) : Decidable (Reaches pos size screen) :=
  inferInstanceAs (Decidable (_ ∨ _))

instance (pos size screen : Nat) : Decidable (Nothing pos size screen) :=
  inferInstanceAs (Decidable (_ ∧ _))

instance (pos size : Nat) : Decidable (Wraps pos size) := inferInstanceAs (Decidable (_ < _))

instance (pos size screen : Nat) : Decidable (Shown pos size screen) :=
  inferInstanceAs (Decidable (_ ∧ _))

theorem clipTo_le_iff (hpos : pos < 2 ^ 32) (hsize : size < 2 ^ 32) (hscreen : screen < 2 ^ 32) :
    clipTo pos size screen ≤ size ↔ Reaches pos size screen := by
  unfold clipTo Reaches add32 sub32
  split <;> omega

theorem clipTo_eq_zero_iff (hpos : pos < 2 ^ 32) (hsize : size < 2 ^ 32) (hscreen : screen < 2 ^ 32) :
    clipTo pos size screen = 0 ↔ Nothing pos size screen := by
  unfold clipTo Nothing add32 sub32
  split <;> omega

structure Clipped (count pos room screen : Nat) : Prop where
  posWord : pos < 2 ^ 32
  screenWord : screen < 2 ^ 32
  le : count ≤ room
  covers : ∀ i < room, pos + i < screen → i < count
  wraps : (∃ i < count, add32 pos i < screen ∧ add32 pos i ≠ pos + i) ↔ Wraps pos room

theorem Clipped.shown_iff {count room : Nat} (h : Clipped count pos room screen) :
    (∃ i < count, add32 pos i < screen) ↔ Shown pos room screen := by
  constructor
  · rintro ⟨i, hi, hat⟩
    have hle := h.le
    refine ⟨by omega, ?_⟩
    by_cases hne : add32 pos i = pos + i
    · left
      omega
    · exact .inr (h.wraps.mp ⟨i, hi, hat, hne⟩)
  · rintro ⟨hsome, hat | hwrap⟩
    · refine ⟨0, h.covers 0 hsome hat, ?_⟩
      rw [add32, Nat.add_zero, Nat.mod_eq_of_lt h.posWord]
      exact hat
    · obtain ⟨i, hi, hat, -⟩ := h.wraps.mpr hwrap
      exact ⟨i, hi, hat⟩

theorem clipTo_clipped (hpos : pos < 2 ^ 32) (hsize : size < 2 ^ 32) (h0 : 0 < screen)
    (hscreen : screen < 2 ^ 32) (hle : clipTo pos size screen ≤ size) :
    Clipped (clipTo pos size screen) pos size screen := by
  refine ⟨hpos, hscreen, hle, fun i hi hat => ?_, ?_, fun hwrap => ⟨2 ^ 32 - pos, ?_, ?_, ?_⟩⟩
  · unfold clipTo add32 sub32
    split <;> omega
  · rintro ⟨i, hi, hat, hne⟩
    unfold add32 at hat hne
    unfold Wraps
    omega
  · unfold Wraps at hwrap
    unfold clipTo add32 sub32 at hle ⊢
    split <;> omega
  · unfold Wraps at hwrap
    unfold add32
    omega
  · unfold add32
    omega

def room (src size image : Nat) : Nat := min size (image - src)

def PartReaches (src size image dst screen : Nat) : Prop :=
  src + size < 2 ^ 32 ∨
    (dst ≤ screen ∧ dst + size < 2 ^ 32 ∧ screen - dst ≤ image - src) ∨
    (screen < dst ∧ 2 ^ 32 + screen < dst + size ∧ 2 ^ 32 + screen ≤ dst + (image - src))

def PartNothing (src size dst screen : Nat) : Prop :=
  size = 0 ∨ (dst = screen ∧ (src + size < 2 ^ 32 ∨ dst + size < 2 ^ 32))

instance (src size image dst screen : Nat) : Decidable (PartReaches src size image dst screen) :=
  inferInstanceAs (Decidable (_ ∨ _))

instance (src size dst screen : Nat) : Decidable (PartNothing src size dst screen) :=
  inferInstanceAs (Decidable (_ ∨ _))

section Part

variable {dst : Nat}

structure PartAxis (src size image dst screen : Nat) : Prop where
  inside : src < image
  imageSmall : image < 2 ^ 31
  sizeWord : size < 2 ^ 32
  dstWord : dst < 2 ^ 32
  screenPos : 0 < screen
  screenSmall : screen < 2 ^ 16

variable (h : PartAxis src size image dst screen)

include h

theorem partSize_le_iff : partSize src size image dst screen ≤ image - src ↔
    PartReaches src size image dst screen := by
  obtain ⟨h1, h2, h3, h4, h5, h6⟩ := h
  unfold partSize clipTo PartReaches add32 sub32
  dsimp only
  split_ifs <;> omega

theorem partSize_eq_zero_iff :
    partSize src size image dst screen = 0 ↔ PartNothing src size dst screen := by
  obtain ⟨h1, h2, h3, h4, h5, h6⟩ := h
  unfold partSize clipTo PartNothing add32 sub32
  dsimp only
  split_ifs <;> omega

theorem partSize_clipped (hle : partSize src size image dst screen ≤ image - src) :
    Clipped (partSize src size image dst screen) dst (room src size image) screen := by
  obtain ⟨h1, h2, h3, h4, h5, h6⟩ := h
  have hroom : partSize src size image dst screen ≤ room src size image := by
    unfold room
    unfold partSize clipTo add32 sub32 at hle ⊢
    dsimp only at hle ⊢
    split_ifs at hle ⊢ <;> omega
  refine ⟨h4, by omega, hroom, fun i hi hat => ?_, ?_, fun hwrap => ⟨2 ^ 32 - dst, ?_, ?_, ?_⟩⟩
  · unfold room at hi
    unfold partSize clipTo add32 sub32
    dsimp only
    split_ifs <;> omega
  · rintro ⟨i, hi, hat, hne⟩
    unfold add32 at hat hne
    unfold Wraps
    omega
  · unfold Wraps at hwrap
    unfold room at hwrap hroom
    unfold partSize clipTo add32 sub32 at hle hroom ⊢
    dsimp only at hle hroom ⊢
    split_ifs at hle hroom ⊢ <;> omega
  · unfold Wraps at hwrap
    unfold add32
    omega
  · unfold add32
    omega

end Part

end Axis

section Cells

variable {d : Display} {cx cy ox oy rx ry px py : Nat}

def Visible (d : Display) (ox oy rx ry px py : Nat) (p : Put) : Prop :=
  ∃ i < rx, ∃ j < ry, d.Inside (px + i) (py + j) ∧ p = ⟨px + i, py + j, (ox + i, oy + j)⟩

def DrawsVisible (d : Display) (ox oy rx ry px py : Nat) (puts : List Put) : Prop :=
  ∀ p, (p ∈ puts ∧ d.Inside p.x p.y) ↔ Visible d ox oy rx ry px py p

def cells {β : Type} (cx cy : Nat) (f : Nat → Nat → β) : List β :=
  (List.range cy).flatMap fun j => (List.range cx).flatMap fun i => [f i j]

theorem mem_cells {β : Type} {f : Nat → Nat → β} {b : β} :
    b ∈ cells cx cy f ↔ ∃ j < cy, ∃ i < cx, b = f i j := by
  simp only [cells, List.mem_flatMap, List.mem_range, List.mem_singleton]

def putCell (ox oy px py i j : Nat) : Put := ⟨add32 px i, add32 py j, (ox + i, oy + j)⟩

-- no column or row that wraps round is seen
def Unwrapped (d : Display) (px rx py ry : Nat) : Prop :=
  ¬ (Wraps px rx ∧ Shown py ry d.vesaLogicalHeight) ∧
    ¬ (Shown px rx d.vesaLogicalWidth ∧ Wraps py ry)

instance (d : Display) (px rx py ry : Nat) : Decidable (Unwrapped d px rx py ry) :=
  inferInstanceAs (Decidable (_ ∧ _))

theorem drawsVisible_iff (hx : Clipped cx px rx d.vesaLogicalWidth)
    (hy : Clipped cy py ry d.vesaLogicalHeight) :
    DrawsVisible d ox oy rx ry px py (cells cx cy (putCell ox oy px py)) ↔
      Unwrapped d px rx py ry := by
  constructor
  · intro h
    constructor
    · rintro ⟨hwrap, hshown⟩
      obtain ⟨i, hi, hat, hne⟩ := hx.wraps.mpr hwrap
      obtain ⟨j, hj, hat'⟩ := hy.shown_iff.mpr hshown
      obtain ⟨i', -, j', -, -, heq⟩ :=
        (h (putCell ox oy px py i j)).mp ⟨mem_cells.mpr ⟨j, hj, i, hi, rfl⟩, ⟨hat, hat'⟩⟩
      simp only [putCell, Put.mk.injEq, Prod.mk.injEq] at heq
      omega
    · rintro ⟨hshown, hwrap⟩
      obtain ⟨i, hi, hat⟩ := hx.shown_iff.mpr hshown
      obtain ⟨j, hj, hat', hne⟩ := hy.wraps.mpr hwrap
      obtain ⟨i', -, j', -, -, heq⟩ :=
        (h (putCell ox oy px py i j)).mp ⟨mem_cells.mpr ⟨j, hj, i, hi, rfl⟩, ⟨hat, hat'⟩⟩
      simp only [putCell, Put.mk.injEq, Prod.mk.injEq] at heq
      omega
  · rintro ⟨hwx, hwy⟩ p
    constructor
    · rintro ⟨hp, hat⟩
      obtain ⟨j, hj, i, hi, rfl⟩ := mem_cells.mp hp
      have hxi : add32 px i = px + i := by
        by_contra hne
        exact hwx ⟨hx.wraps.mp ⟨i, hi, hat.1, hne⟩, hy.shown_iff.mp ⟨j, hj, hat.2⟩⟩
      have hyj : add32 py j = py + j := by
        by_contra hne
        exact hwy ⟨hx.shown_iff.mp ⟨i, hi, hat.1⟩, hy.wraps.mp ⟨j, hj, hat.2, hne⟩⟩
      simp only [putCell, hxi, hyj] at hat ⊢
      exact ⟨i, Nat.lt_of_lt_of_le hi hx.le, j, Nat.lt_of_lt_of_le hj hy.le, hat, rfl⟩
    · rintro ⟨i, hi, j, hj, hat, rfl⟩
      have hxi : add32 px i = px + i := add32_eq (Nat.lt_trans hat.1 hx.screenWord)
      have hyj : add32 py j = py + j := add32_eq (Nat.lt_trans hat.2 hy.screenWord)
      refine ⟨mem_cells.mpr ⟨j, hy.covers j hj hat.2, i, hx.covers i hi hat.1, ?_⟩, hat⟩
      rw [putCell, hxi, hyj]

theorem cells_nil {β : Type} {f : Nat → Nat → β} (h : cx = 0 ∨ cy = 0) : cells cx cy f = [] := by
  rw [List.eq_nil_iff_forall_not_mem]
  intro b hb
  obtain ⟨j, hj, i, hi, -⟩ := mem_cells.mp hb
  omega

theorem drawsVisible_nil (h : ∀ i < rx, ∀ j < ry, ¬ d.Inside (px + i) (py + j)) :
    DrawsVisible d ox oy rx ry px py [] := by
  intro p
  constructor
  · rintro ⟨hp, -⟩
    cases hp
  · rintro ⟨i, hi, j, hj, hat, -⟩
    exact absurd hat (h i hi j hj)

theorem cells_congr {β : Type} {f g : Nat → Nat → β} (h : ∀ i < cx, ∀ j < cy, f i j = g i j) :
    cells cx cy f = cells cx cy g := by
  unfold cells
  refine List.flatMap_congr fun j hj => List.flatMap_congr fun i hi => ?_
  rw [h i (List.mem_range.mp hi) j (List.mem_range.mp hj)]

theorem drawn_iff {wx wy : Nat} {puts : List Put}
    (hx : cx ≤ wx → Clipped cx px rx d.vesaLogicalWidth)
    (hy : cy ≤ wy → Clipped cy py ry d.vesaLogicalHeight) (hnil : cx = 0 ∨ cy = 0 → puts = [])
    (hputs : cx ≤ wx → cy ≤ wy → puts = cells cx cy (putCell ox oy px py)) :
    (cx = 0 ∨ cy = 0 ∨ (cx ≤ wx ∧ cy ≤ wy)) ∧ DrawsVisible d ox oy rx ry px py puts ↔
      cx = 0 ∨ cy = 0 ∨ (cx ≤ wx ∧ cy ≤ wy ∧ Unwrapped d px rx py ry) := by
  by_cases hnone : cx = 0 ∨ cy = 0
  · have hdraws : DrawsVisible d ox oy rx ry px py puts := by
      rw [hnil hnone]
      refine drawsVisible_nil fun i hi j hj hat => ?_
      rcases hnone with hzero | hzero
      · have := (hx (by omega)).covers i hi hat.col
        omega
      · have := (hy (by omega)).covers j hj hat.row
        omega
    exact iff_of_true ⟨or_assoc.mp (.inl hnone), hdraws⟩ (or_assoc.mp (.inl hnone))
  · obtain ⟨hcx, hcy⟩ := not_or.mp hnone
    simp only [hcx, hcy, false_or, and_assoc]
    refine and_congr_right fun hlex => and_congr_right fun hley => ?_
    rw [hputs hlex hley]
    exact drawsVisible_iff (hx hlex) (hy hley)

end Cells

section Loop

variable {cx cy : Nat} {step : Nat → Nat → Drawing → Drawing} {s : Drawing}

theorem eachPixel_log {β : Type} (view : Drawing → List β) (f : Nat → Nat → β)
    (h : ∀ i j s, view (step i j s) = view s ++ [f i j]) (s : Drawing) :
    view (eachPixel cx cy step s) = view s ++ cells cx cy f :=
  Fold.foldl_log view (fun j => (List.range cx).flatMap fun i => [f i j]) (List.range cy)
    (fun j s => Fold.foldl_log view (fun i => [f i j]) (List.range cx) (fun i s => h i j s) s) s

theorem eachPixel_keeps {τ : Type} (view : Drawing → τ)
    (h : ∀ i j s, view (step i j s) = view s) (s : Drawing) :
    view (eachPixel cx cy step s) = view s :=
  Fold.foldl_keeps view (List.range cy)
    (fun j _ s => Fold.foldl_keeps view (List.range cx) (fun i _ s => h i j s) s) s

theorem eachPixel_invariant {P : Drawing → Prop} (h : ∀ i j s, P s → P (step i j s)) (hs : P s) :
    P (eachPixel cx cy step s) :=
  List.foldlRecOn (List.range cy) _ hs fun _ hs j _ =>
    List.foldlRecOn (List.range cx) _ hs fun s hs i _ => h i j s hs

end Loop

section Paint

variable {d : Display} {img : Image} {m : Mem} {puts : List Put} {x y : Nat}

def paint (d : Display) (img : Image) (m : Mem) (p : Put) : Mem :=
  d.vesaPutPixel m p.x p.y ((img.pixelColor p.src).getD 0)

def shown (d : Display) (img : Image) (src : Nat × Nat) : Nat :=
  Vesa.packColor d.mode ((img.pixelColor src).getD 0) % 2 ^ (8 * d.bytesPerPixel)

theorem value_paint_other (hat : d.Inside x y) (p : Put) (hp : ¬ (p.x = x ∧ p.y = y)) (m : Mem) :
    d.value (paint d img m p) x y = d.value m x y := by
  rw [paint]
  by_cases hin : d.Inside p.x p.y
  · exact Display.value_put_other hin hat hp m _
  · rw [Display.putPixel_outside hin]

theorem value_unpainted (hat : d.Inside x y) (h : ∀ p ∈ puts, ¬ (p.x = x ∧ p.y = y)) (m : Mem) :
    d.value (puts.foldl (paint d img) m) x y = d.value m x y := by
  induction puts generalizing m with
  | nil => rfl
  | cons p puts ih =>
    rw [List.foldl_cons, ih fun q hq => h q (List.mem_cons_of_mem p hq)]
    exact value_paint_other hat p (h p List.mem_cons_self) m

theorem value_painted (hat : d.Inside x y) {src : Nat × Nat}
    (hsrc : ∀ p ∈ puts, p.x = x → p.y = y → p.src = src) (hhit : ⟨x, y, src⟩ ∈ puts) (m : Mem) :
    d.value (puts.foldl (paint d img) m) x y = shown d img src := by
  induction puts using List.reverseRecOn with
  | nil => cases hhit
  | append_singleton puts p ih =>
    rw [List.foldl_append, List.foldl_cons, List.foldl_nil]
    by_cases hp : p.x = x ∧ p.y = y
    · obtain ⟨rfl, rfl⟩ := hp
      rw [← hsrc p (List.mem_append_right puts List.mem_cons_self) rfl rfl]
      exact Display.value_put_same hat _ _
    · rw [value_paint_other hat p hp]
      refine ih (fun q hq => hsrc q (List.mem_append_left _ hq)) ?_
      rcases List.mem_append.mp hhit with hhit | hhit
      · exact hhit
      · exact absurd ⟨congrArg Put.x (List.mem_singleton.mp hhit).symm,
          congrArg Put.y (List.mem_singleton.mp hhit).symm⟩ hp

variable {ox oy rx ry px py : Nat}

theorem value_visible (h : DrawsVisible d ox oy rx ry px py puts) {i j : Nat} (hi : i < rx)
    (hj : j < ry) (hat : d.Inside (px + i) (py + j)) (m : Mem) :
    d.value (puts.foldl (paint d img) m) (px + i) (py + j) = shown d img (ox + i, oy + j) := by
  refine value_painted hat (fun p hp hx hy => ?_) ((h _).mpr ⟨i, hi, j, hj, hat, rfl⟩).1 m
  obtain ⟨i', -, j', -, -, rfl⟩ := (h p).mp ⟨hp, by rw [hx, hy]; exact hat⟩
  have hxi : px + i' = px + i := hx
  have hyj : py + j' = py + j := hy
  rw [Nat.add_left_cancel hxi, Nat.add_left_cancel hyj]

theorem value_beside (h : DrawsVisible d ox oy rx ry px py puts) (hat : d.Inside x y)
    (hout : ¬ ∃ i < rx, ∃ j < ry, x = px + i ∧ y = py + j) (m : Mem) :
    d.value (puts.foldl (paint d img) m) x y = d.value m x y := by
  refine value_unpainted hat (fun p hp hpx => hout ?_) m
  obtain ⟨i, hi, j, hj, -, rfl⟩ := (h p).mp ⟨hp, by rw [hpx.1, hpx.2]; exact hat⟩
  exact ⟨i, hi, j, hj, hpx.1.symm, hpx.2.symm⟩

theorem copyPixel_paint (src dst : Nat × Nat) (s : Drawing)
    (hs : s.mem = s.puts.foldl (paint d img) m) :
    (copyPixel d img src dst s).mem = (copyPixel d img src dst s).puts.foldl (paint d img) m := by
  rw [copyPixel]
  split
  · rename_i color hcolor
    have hput : paint d img s.mem ⟨dst.1, dst.2, src⟩ = d.vesaPutPixel s.mem dst.1 dst.2 color := by
      rw [paint, hcolor]
      rfl
    change d.vesaPutPixel s.mem dst.1 dst.2 color = (s.puts ++ [(⟨dst.1, dst.2, src⟩ : Put)]).foldl
      (paint d img) m
    rw [List.foldl_append, ← hs, List.foldl_cons, List.foldl_nil, hput]
  · exact hs

theorem imageDraw_paint (x y : Nat) : (imageDraw d img x y ⟨[], [], m⟩).mem =
    (imageDraw d img x y ⟨[], [], m⟩).puts.foldl (paint d img) m :=
  @eachPixel_invariant _ _ _ ⟨[], [], m⟩ (fun s => s.mem = s.puts.foldl (paint d img) m)
    (fun _ _ s hs => copyPixel_paint _ _ s hs) rfl

theorem imageDrawPart_paint (srcX srcY srcW srcH dstX dstY : Nat) :
    (imageDrawPart d img srcX srcY srcW srcH dstX dstY ⟨[], [], m⟩).mem =
      (imageDrawPart d img srcX srcY srcW srcH dstX dstY ⟨[], [], m⟩).puts.foldl (paint d img) m := by
  rw [imageDrawPart]
  split
  · rfl
  · exact @eachPixel_invariant _ _ _ ⟨[], [], m⟩ (fun s => s.mem = s.puts.foldl (paint d img) m)
      (fun _ _ s hs => copyPixel_paint _ _ s hs) rfl

end Paint

section Calls

variable {d : Display} {img : Image} {m : Mem}

structure Image.Matches (img : Image) : Prop where
  depth : img.bpp = 24 ∨ img.bpp = 32
  row : img.width * (img.bpp / 8) ≤ img.pitch
  rows : img.height * img.pitch = img.dataSize
  pitchWord : img.pitch < 2 ^ 32
  heightWord : img.height < 2 ^ 32
  sizeWord : img.dataSize < 2 ^ 32

structure Image.HasPixel (img : Image) (p : Nat × Nat) : Prop where
  col : p.1 < img.width
  row : p.2 < img.height
  bytes : img.pixelOffset p + img.bpp / 8 ≤ img.dataSize

theorem Image.Matches.bytes (hm : img.Matches) : 3 ≤ img.bpp / 8 := by
  rcases hm.depth with h | h <;> omega

theorem Image.Matches.width_lt (hm : img.Matches) : img.width < 2 ^ 31 := by
  have hbytes := Nat.mul_le_mul_left img.width hm.bytes
  have hrow := hm.row
  have hword := hm.pitchWord
  omega

theorem Image.Matches.height_lt (hm : img.Matches) (hw : 0 < img.width) : img.height < 2 ^ 31 := by
  have hbytes := Nat.mul_le_mul hw hm.bytes
  have hrow := hm.row
  have hrows := Nat.mul_le_mul_left img.height (show 3 ≤ img.pitch by omega)
  have hsize := hm.rows
  have hword := hm.sizeWord
  omega

theorem Image.Matches.hasPixel (hm : img.Matches) {p : Nat × Nat} (hx : p.1 < img.width)
    (hy : p.2 < img.height) : img.HasPixel p := by
  refine ⟨hx, hy, ?_⟩
  have hcell : (p.1 + 1) * (img.bpp / 8) ≤ img.width * (img.bpp / 8) := Nat.mul_le_mul_right _ hx
  have hrows : (p.2 + 1) * img.pitch ≤ img.height * img.pitch := Nat.mul_le_mul_right _ hy
  rw [Nat.add_mul, Nat.one_mul] at hcell hrows
  have hrow := hm.row
  have hsize := hm.rows
  have hword := hm.sizeWord
  have hbytes := hm.bytes
  rw [pixelOffset, mul32, mul32, add32, Nat.mod_eq_of_lt (show p.2 * img.pitch < 2 ^ 32 by omega),
    Nat.mod_eq_of_lt (show p.1 * (img.bpp / 8) < 2 ^ 32 by omega),
    Nat.mod_eq_of_lt (show p.2 * img.pitch + p.1 * (img.bpp / 8) < 2 ^ 32 by omega)]
  omega

def ReadsInside (img : Image) (s : Drawing) : Prop := ∀ p ∈ s.reads, img.HasPixel p

def WritesOnScreen (d : Display) (m : Mem) (s : Drawing) : Prop :=
  ∀ o, (∀ x y, d.Inside x y → ∀ k < d.bytesPerPixel, o ≠ d.vesaCalculatePixelOffset x y + k) →
    s.mem o = m o

theorem readsInside_iff (hm : img.Matches) {cx cy wx wy : Nat} {fx fy : Nat → Nat} {s : Drawing}
    (hs : s.reads = cells cx cy fun i j => (fx i, fy j))
    (hx : (∀ i < cx, fx i < img.width) ↔ cx ≤ wx) (hy : (∀ j < cy, fy j < img.height) ↔ cy ≤ wy) :
    ReadsInside img s ↔ cx = 0 ∨ cy = 0 ∨ (cx ≤ wx ∧ cy ≤ wy) := by
  rw [ReadsInside, hs]
  constructor
  · intro h
    by_cases hcx : cx = 0
    · exact .inl hcx
    by_cases hcy : cy = 0
    · exact .inr (.inl hcy)
    refine .inr (.inr ⟨hx.mp fun i hi => ?_, hy.mp fun j hj => ?_⟩)
    · exact (h _ (mem_cells.mpr ⟨0, by omega, i, hi, rfl⟩)).col
    · exact (h _ (mem_cells.mpr ⟨j, hj, 0, by omega, rfl⟩)).row
  · rintro (hcx | hcy | ⟨hwx, hwy⟩) p hp
    · rw [cells_nil (.inl hcx)] at hp
      cases hp
    · rw [cells_nil (.inr hcy)] at hp
      cases hp
    · obtain ⟨j, hj, i, hi, rfl⟩ := mem_cells.mp hp
      exact hm.hasPixel (hx.mpr hwx i hi) (hy.mpr hwy j hj)

theorem put_other {o : Nat} (s : Drawing) (x y : Nat) (src : Nat × Nat) (color : Nat)
    (ho : ∀ x y, d.Inside x y → ∀ k < d.bytesPerPixel, o ≠ d.vesaCalculatePixelOffset x y + k) :
    (s.put d x y src color).mem o = s.mem o := by
  by_cases hat : d.Inside x y
  · exact Display.putPixel_other hat s.mem color (ho x y hat)
  · exact congrFun (Display.putPixel_outside hat s.mem color) o

theorem copyPixel_other {o : Nat} (src dst : Nat × Nat) (s : Drawing)
    (ho : ∀ x y, d.Inside x y → ∀ k < d.bytesPerPixel, o ≠ d.vesaCalculatePixelOffset x y + k) :
    (copyPixel d img src dst s).mem o = s.mem o := by
  rw [copyPixel]
  split
  · exact put_other _ _ _ _ _ ho
  · rfl

theorem blendPixel_other {o : Nat} (src : Nat × Nat) (x y : Nat) (s : Drawing)
    (ho : ∀ x y, d.Inside x y → ∀ k < d.bytesPerPixel, o ≠ d.vesaCalculatePixelOffset x y + k) :
    (blendPixel d img src x y s).mem o = s.mem o := by
  rw [blendPixel]
  dsimp only
  split_ifs
  · rfl
  · exact put_other _ _ _ _ _ ho
  · exact put_other _ _ _ _ _ ho

theorem Call.writes_on_screen (c : Call) : WritesOnScreen d m (c.run d img m) := by
  intro o ho
  have hdraw (x y : Nat) : (imageDraw d img x y ⟨[], [], m⟩).mem o = m o :=
    eachPixel_keeps (fun s => s.mem o) (fun _ _ s => copyPixel_other _ _ s ho) _
  cases c with
  | draw x y => exact hdraw x y
  | transparent x y color =>
    refine eachPixel_keeps (fun s => s.mem o) (fun i j s => ?_) _
    split
    · split
      · exact put_other _ _ _ _ _ ho
      · rfl
    · rfl
  | alpha x y =>
    rw [Call.run, imageDrawAlpha]
    split
    · exact hdraw x y
    · exact eachPixel_keeps (fun s => s.mem o) (fun _ _ s => blendPixel_other _ _ _ s ho) _
  | part srcX srcY srcW srcH dstX dstY =>
    rw [Call.run, imageDrawPart]
    split
    · rfl
    · exact eachPixel_keeps (fun s => s.mem o) (fun _ _ s => copyPixel_other _ _ s ho) _

def Call.Draws (d : Display) (img : Image) (puts : List Put) : Call → Prop
  | .draw x y => DrawsVisible d 0 0 img.width img.height x y puts
  | .part srcX srcY srcW srcH dstX dstY =>
      DrawsVisible d srcX srcY (room srcX srcW img.width) (room srcY srcH img.height) dstX dstY puts
  | _ => True

structure DrawsInside (d : Display) (img : Image) (m : Mem) (c : Call) : Prop where
  reads : ReadsInside img (c.run d img m)
  writes : WritesOnScreen d m (c.run d img m)
  draws : c.Draws d img (c.run d img m).puts

def Call.Words : Call → Prop
  | .draw x y => x < 2 ^ 32 ∧ y < 2 ^ 32
  | .transparent x y color => x < 2 ^ 32 ∧ y < 2 ^ 32 ∧ color < 2 ^ 32
  | .alpha x y => x < 2 ^ 32 ∧ y < 2 ^ 32
  | .part srcX srcY srcW srcH dstX dstY => srcX < 2 ^ 32 ∧ srcY < 2 ^ 32 ∧ srcW < 2 ^ 32 ∧
      srcH < 2 ^ 32 ∧ dstX < 2 ^ 32 ∧ dstY < 2 ^ 32

instance : ∀ c : Call, Decidable c.Words
  | .draw _ _ => inferInstanceAs (Decidable (_ ∧ _))
  | .transparent _ _ _ => inferInstanceAs (Decidable (_ ∧ _))
  | .alpha _ _ => inferInstanceAs (Decidable (_ ∧ _))
  | .part _ _ _ _ _ _ => inferInstanceAs (Decidable (_ ∧ _))

def Covered (d : Display) (img : Image) (x y : Nat) : Prop :=
  Nothing x img.width d.vesaLogicalWidth ∨ Nothing y img.height d.vesaLogicalHeight ∨
    (Reaches x img.width d.vesaLogicalWidth ∧ Reaches y img.height d.vesaLogicalHeight)

def Call.Fits (d : Display) (img : Image) : Call → Prop
  | .draw x y =>
      Nothing x img.width d.vesaLogicalWidth ∨ Nothing y img.height d.vesaLogicalHeight ∨
        (Reaches x img.width d.vesaLogicalWidth ∧ Reaches y img.height d.vesaLogicalHeight ∧
          Unwrapped d x img.width y img.height)
  | .transparent x y _ => Covered d img x y
  | .alpha x y => Covered d img x y
  | .part srcX srcY srcW srcH dstX dstY =>
      img.width ≤ srcX ∨ img.height ≤ srcY ∨
        PartNothing srcX srcW dstX d.vesaLogicalWidth ∨
        PartNothing srcY srcH dstY d.vesaLogicalHeight ∨
        (PartReaches srcX srcW img.width dstX d.vesaLogicalWidth ∧
          PartReaches srcY srcH img.height dstY d.vesaLogicalHeight ∧
          Unwrapped d dstX (room srcX srcW img.width) dstY (room srcY srcH img.height))

instance (d : Display) (img : Image) (x y : Nat) : Decidable (Covered d img x y) :=
  inferInstanceAs (Decidable (_ ∨ _))

instance (d : Display) (img : Image) : ∀ c : Call, Decidable (c.Fits d img)
  | .draw _ _ => inferInstanceAs (Decidable (_ ∨ _))
  | .transparent _ _ _ => inferInstanceAs (Decidable (Covered _ _ _ _))
  | .alpha _ _ => inferInstanceAs (Decidable (Covered _ _ _ _))
  | .part _ _ _ _ _ _ => inferInstanceAs (Decidable (_ ∨ _))

theorem drawsInside_iff {c : Call} : DrawsInside d img m c ↔
    ReadsInside img (c.run d img m) ∧ c.Draws d img (c.run d img m).puts :=
  ⟨fun h => ⟨h.reads, h.draws⟩, fun h => ⟨h.1, c.writes_on_screen, h.2⟩⟩

theorem copyPixel_reads (hm : img.Matches) (src dst : Nat × Nat) (s : Drawing) :
    (copyPixel d img src dst s).reads = s.reads ++ [src] := by
  rw [copyPixel, Image.pixelColor]
  rcases hm.depth with h | h
  · rw [if_pos h]
    rfl
  · rw [if_neg (by omega), if_pos h]
    rfl

theorem copyPixel_puts (hm : img.Matches) (src dst : Nat × Nat) (s : Drawing) :
    (copyPixel d img src dst s).puts = s.puts ++ [⟨dst.1, dst.2, src⟩] := by
  rw [copyPixel, Image.pixelColor]
  rcases hm.depth with h | h
  · rw [if_pos h]
    rfl
  · rw [if_neg (by omega), if_pos h]
    rfl

section Whole

variable {x y : Nat}

theorem covered_iff (hm : img.Matches) (hx : x < 2 ^ 32) (hy : y < 2 ^ 32) {s : Drawing}
    (hs : s.reads = cells (clipTo x img.width d.vesaLogicalWidth)
      (clipTo y img.height d.vesaLogicalHeight) fun i j => (i, j)) :
    ReadsInside img s ↔ Covered d img x y := by
  have hw : img.width < 2 ^ 32 := Nat.lt_trans hm.width_lt (by decide)
  have hlw : d.vesaLogicalWidth < 2 ^ 32 := Nat.lt_trans d.logicalWidth_lt (by decide)
  have hlh : d.vesaLogicalHeight < 2 ^ 32 := Nat.lt_trans d.logicalHeight_lt (by decide)
  have hall (c n : Nat) : (∀ i < c, i < n) ↔ c ≤ n := by
    constructor
    · intro h
      by_contra hlt
      exact Nat.lt_irrefl n (h n (by omega))
    · exact fun h i hi => Nat.lt_of_lt_of_le hi h
  rw [readsInside_iff hm hs (hall _ _) (hall _ _), clipTo_eq_zero_iff hx hw hlw,
    clipTo_eq_zero_iff hy hm.heightWord hlh, clipTo_le_iff hx hw hlw,
    clipTo_le_iff hy hm.heightWord hlh]
  rfl

theorem logicalWidth_pos (d : Display) : 0 < d.vesaLogicalWidth := by
  rw [Display.vesaLogicalWidth]
  split
  · exact d.physHeight_pos
  · exact d.physWidth_pos

theorem logicalHeight_pos (d : Display) : 0 < d.vesaLogicalHeight := by
  rw [Display.vesaLogicalHeight]
  split
  · exact d.physWidth_pos
  · exact d.physHeight_pos

theorem imageDraw_reads (hm : img.Matches) :
    (imageDraw d img x y ⟨[], [], m⟩).reads = cells (clipTo x img.width d.vesaLogicalWidth)
      (clipTo y img.height d.vesaLogicalHeight) fun i j => (i, j) :=
  eachPixel_log Drawing.reads (fun i j => (i, j)) (fun i j s => copyPixel_reads hm (i, j) _ s)
    ⟨[], [], m⟩

theorem imageDraw_puts (hm : img.Matches) :
    (imageDraw d img x y ⟨[], [], m⟩).puts = cells (clipTo x img.width d.vesaLogicalWidth)
      (clipTo y img.height d.vesaLogicalHeight) (putCell 0 0 x y) := by
  have hcell (i j : Nat) : putCell 0 0 x y i j = ⟨add32 x i, add32 y j, (i, j)⟩ := by
    rw [putCell, Nat.zero_add, Nat.zero_add]
  refine eachPixel_log Drawing.puts (putCell 0 0 x y) (fun i j s => ?_) ⟨[], [], m⟩
  rw [hcell]
  exact copyPixel_puts hm (i, j) _ s

theorem draw_iff (hm : img.Matches) (hx : x < 2 ^ 32) (hy : y < 2 ^ 32) :
    DrawsInside d img m (.draw x y) ↔ Call.Fits d img (.draw x y) := by
  have hw : img.width < 2 ^ 32 := Nat.lt_trans hm.width_lt (by decide)
  have hlw : d.vesaLogicalWidth < 2 ^ 32 := Nat.lt_trans d.logicalWidth_lt (by decide)
  have hlh : d.vesaLogicalHeight < 2 ^ 32 := Nat.lt_trans d.logicalHeight_lt (by decide)
  have hputs := imageDraw_puts (d := d) (m := m) (x := x) (y := y) hm
  have hdrawn := drawn_iff (clipTo_clipped hx hw (logicalWidth_pos d) hlw)
    (clipTo_clipped hy hm.heightWord (logicalHeight_pos d) hlh)
    (fun hnone => hputs.trans (cells_nil hnone)) fun _ _ => hputs
  rw [clipTo_eq_zero_iff hx hw hlw, clipTo_eq_zero_iff hy hm.heightWord hlh, clipTo_le_iff hx hw hlw,
    clipTo_le_iff hy hm.heightWord hlh] at hdrawn
  rw [drawsInside_iff, Call.run, covered_iff hm hx hy (imageDraw_reads hm)]
  exact hdrawn

theorem imageDraw_shows (h : DrawsInside d img m (.draw x y)) {i j : Nat} (hi : i < img.width)
    (hj : j < img.height) (hat : d.Inside (x + i) (y + j)) :
    d.value (imageDraw d img x y ⟨[], [], m⟩).mem (x + i) (y + j) = shown d img (i, j) := by
  have hvalue := @value_visible d img _ 0 0 _ _ x y h.draws i j hi hj hat m
  rw [Nat.zero_add, Nat.zero_add] at hvalue
  rw [imageDraw_paint]
  exact hvalue

theorem imageDraw_beside (h : DrawsInside d img m (.draw x y)) {sx sy : Nat} (hat : d.Inside sx sy)
    (hout : ¬ ∃ i < img.width, ∃ j < img.height, sx = x + i ∧ sy = y + j) :
    d.value (imageDraw d img x y ⟨[], [], m⟩).mem sx sy = d.value m sx sy := by
  rw [imageDraw_paint]
  exact value_beside h.draws hat hout m

theorem transparent_iff (hm : img.Matches) (hx : x < 2 ^ 32) (hy : y < 2 ^ 32) (color : Nat) :
    DrawsInside d img m (.transparent x y color) ↔ Covered d img x y := by
  have hreads : (imageDrawTransparent d img x y color ⟨[], [], m⟩).reads =
      cells (clipTo x img.width d.vesaLogicalWidth) (clipTo y img.height d.vesaLogicalHeight)
        fun i j => (i, j) := by
    refine eachPixel_log Drawing.reads (fun i j => (i, j)) (fun i j s => ?_) ⟨[], [], m⟩
    obtain ⟨c, hc⟩ : ∃ c, img.pixelColor (i, j) = some c := by
      rw [Image.pixelColor]
      rcases hm.depth with h | h
      · exact ⟨_, if_pos h⟩
      · exact ⟨_, by rw [if_neg (by omega), if_pos h]⟩
    rw [hc]
    dsimp only
    split <;> rfl
  rw [drawsInside_iff, ← covered_iff hm hx hy hreads]
  exact and_iff_left trivial

theorem alpha_iff (hm : img.Matches) (hx : x < 2 ^ 32) (hy : y < 2 ^ 32) :
    DrawsInside d img m (.alpha x y) ↔ Covered d img x y := by
  have hreads : (imageDrawAlpha d img x y ⟨[], [], m⟩).reads =
      cells (clipTo x img.width d.vesaLogicalWidth) (clipTo y img.height d.vesaLogicalHeight)
        fun i j => (i, j) := by
    rw [imageDrawAlpha]
    split
    · exact imageDraw_reads hm
    · refine eachPixel_log Drawing.reads (fun i j => (i, j)) (fun i j s => ?_) ⟨[], [], m⟩
      rw [blendPixel]
      dsimp only
      split_ifs <;> rfl
  rw [drawsInside_iff, ← covered_iff hm hx hy hreads]
  exact and_iff_left trivial

end Whole

section Part

variable {srcX srcY srcW srcH dstX dstY : Nat}

theorem part_inside_iff {src image c : Nat} (hsrc : src < image) (himage : image < 2 ^ 31) :
    (∀ i < c, add32 src i < image) ↔ c ≤ image - src := by
  constructor
  · intro h
    by_contra hlt
    have hlast := h (image - src) (by omega)
    unfold add32 at hlast
    omega
  · intro hle i hi
    unfold add32
    omega

theorem part_none (hout : img.width ≤ srcX ∨ img.height ≤ srcY) :
    DrawsInside d img m (.part srcX srcY srcW srcH dstX dstY) := by
  rw [drawsInside_iff, Call.run, imageDrawPart, if_pos hout]
  refine ⟨fun _ hp => absurd hp List.not_mem_nil, drawsVisible_nil fun i hi j hj => ?_⟩
  unfold room at hi hj
  omega

theorem part_iff (hm : img.Matches) (hwords : Call.Words (.part srcX srcY srcW srcH dstX dstY)) :
    DrawsInside d img m (.part srcX srcY srcW srcH dstX dstY) ↔
      Call.Fits d img (.part srcX srcY srcW srcH dstX dstY) := by
  by_cases hout : img.width ≤ srcX ∨ img.height ≤ srcY
  · exact iff_of_true (part_none hout) (hout.imp_right .inl)
  obtain ⟨-, -, hsrcW, hsrcH, hdstX, hdstY⟩ := hwords
  have hwidth := hm.width_lt
  have hheight := hm.height_lt (by omega)
  have hcol : PartAxis srcX srcW img.width dstX d.vesaLogicalWidth :=
    ⟨by omega, hwidth, hsrcW, hdstX, logicalWidth_pos d, d.logicalWidth_lt⟩
  have hrow : PartAxis srcY srcH img.height dstY d.vesaLogicalHeight :=
    ⟨by omega, hheight, hsrcH, hdstY, logicalHeight_pos d, d.logicalHeight_lt⟩
  have hreads : (imageDrawPart d img srcX srcY srcW srcH dstX dstY ⟨[], [], m⟩).reads =
      cells (partSize srcX srcW img.width dstX d.vesaLogicalWidth)
        (partSize srcY srcH img.height dstY d.vesaLogicalHeight)
        fun i j => (add32 srcX i, add32 srcY j) := by
    rw [imageDrawPart, if_neg hout]
    exact eachPixel_log Drawing.reads (fun i j => (add32 srcX i, add32 srcY j))
      (fun i j s => copyPixel_reads hm _ _ s) ⟨[], [], m⟩
  have hputs : (imageDrawPart d img srcX srcY srcW srcH dstX dstY ⟨[], [], m⟩).puts =
      cells (partSize srcX srcW img.width dstX d.vesaLogicalWidth)
        (partSize srcY srcH img.height dstY d.vesaLogicalHeight)
        fun i j => ⟨add32 dstX i, add32 dstY j, (add32 srcX i, add32 srcY j)⟩ := by
    rw [imageDrawPart, if_neg hout]
    exact eachPixel_log Drawing.puts
      (fun i j => ⟨add32 dstX i, add32 dstY j, (add32 srcX i, add32 srcY j)⟩)
      (fun i j s => copyPixel_puts hm _ _ s) ⟨[], [], m⟩
  have hinside := readsInside_iff hm hreads (part_inside_iff hcol.inside hcol.imageSmall)
    (part_inside_iff hrow.inside hrow.imageSmall)
  have hdrawn := drawn_iff (partSize_clipped hcol) (partSize_clipped hrow)
    (fun hnone => hputs.trans (cells_nil hnone)) fun hlex hley =>
    hputs.trans (@cells_congr _ _ _ _ (putCell srcX srcY dstX dstY) fun i hi j hj => by
      have hxi : add32 srcX i = srcX + i := add32_eq (by omega)
      have hyj : add32 srcY j = srcY + j := add32_eq (by omega)
      rw [putCell, hxi, hyj])
  rw [partSize_eq_zero_iff hcol, partSize_eq_zero_iff hrow, partSize_le_iff hcol,
    partSize_le_iff hrow] at hdrawn hinside
  obtain ⟨houtX, houtY⟩ := not_or.mp hout
  rw [drawsInside_iff, Call.run, hinside, Call.Fits]
  simp only [houtX, houtY, false_or]
  exact hdrawn

theorem imageDrawPart_shows (h : DrawsInside d img m (.part srcX srcY srcW srcH dstX dstY))
    {i j : Nat} (hi : i < room srcX srcW img.width) (hj : j < room srcY srcH img.height)
    (hat : d.Inside (dstX + i) (dstY + j)) :
    d.value (imageDrawPart d img srcX srcY srcW srcH dstX dstY ⟨[], [], m⟩).mem (dstX + i) (dstY + j) =
      shown d img (srcX + i, srcY + j) := by
  rw [imageDrawPart_paint]
  exact value_visible h.draws hi hj hat m

theorem imageDrawPart_beside (h : DrawsInside d img m (.part srcX srcY srcW srcH dstX dstY))
    {sx sy : Nat} (hat : d.Inside sx sy)
    (hout : ¬ ∃ i < room srcX srcW img.width, ∃ j < room srcY srcH img.height,
      sx = dstX + i ∧ sy = dstY + j) :
    d.value (imageDrawPart d img srcX srcY srcW srcH dstX dstY ⟨[], [], m⟩).mem sx sy =
      d.value m sx sy := by
  rw [imageDrawPart_paint]
  exact value_beside h.draws hat hout m

end Part

theorem image_drawing_iff (hm : img.Matches) {c : Call} (hwords : c.Words) :
    DrawsInside d img m c ↔ c.Fits d img := by
  cases c with
  | draw x y => exact draw_iff hm hwords.1 hwords.2
  | transparent x y color => exact transparent_iff hm hwords.1 hwords.2.1 color
  | alpha x y => exact alpha_iff hm hwords.1 hwords.2
  | part srcX srcY srcW srcH dstX dstY => exact part_iff hm hwords

def stripes : Image :=
  ⟨4, 3, 24, 12, fun a => UInt8.ofNat a, false, .bmp, 36⟩

-- four pixels wide and three high, of which the screen has two and one left
theorem image_drawing_iff_stripes :
    clipTo 2 stripes.width (Vesa.screen8888 .deg0).vesaLogicalWidth = 2 ∧
      clipTo 1 stripes.height (Vesa.screen8888 .deg0).vesaLogicalHeight = 1 ∧
        DrawsInside (Vesa.screen8888 .deg0) stripes (fun _ => 0) (.draw 2 1) :=
  ⟨by decide, by decide, (image_drawing_iff ⟨by decide, by decide, by decide, by decide, by decide,
    by decide⟩ (by decide)).mpr (by decide)⟩

def dot : Image :=
  ⟨1, 1, 24, 4, fun _ => 0, false, .bmp, 4⟩

-- one pixel to the right of the screen's edge the width left is taken below zero
theorem beyond_edge_reads_outside :
    dot.Matches ∧ Call.Words (.draw 5 0) ∧
      ¬ DrawsInside (Vesa.screen8888 .deg0) dot (fun _ => 0) (.draw 5 0) := by
  have hm : dot.Matches := ⟨by decide, by decide, by decide, by decide, by decide, by decide⟩
  refine ⟨hm, by decide, fun h => ?_⟩
  have hcovered := (covered_iff hm (by decide) (by decide) (imageDraw_reads hm)).mp h.reads
  revert hcovered
  decide

end Calls

end HouseOS.Images
