import HouseOS.Vesa.Pixel

namespace HouseOS.Vesa

open HouseOS.ByteMem HouseOS.Word

namespace Display

variable {d : Display} {x y w h xEnd yEnd packed color : Nat} {m m' m'' : Mem}
  {R S : Nat → Nat → Prop}

structure Coloured (d : Display) (packed : Nat) (R : Nat → Nat → Prop) (m m' : Mem) : Prop where
  pixels : ∀ i j k, d.Inside i j → R i j → k < d.bytesPerPixel →
    m' (d.vesaCalculatePixelOffset i j + k) = byte packed k
  others : ∀ o, (∀ i j k, d.Inside i j → R i j → k < d.bytesPerPixel →
    o ≠ d.vesaCalculatePixelOffset i j + k) → m' o = m o

namespace Coloured

theorem refl (d : Display) (packed : Nat) (m : Mem) : Coloured d packed (fun _ _ => False) m m :=
  ⟨fun _ _ _ _ hR => hR.elim, fun _ _ => rfl⟩

theorem congr (hc : Coloured d packed R m m') (hRS : ∀ i j, d.Inside i j → (R i j ↔ S i j)) :
    Coloured d packed S m m' where
  pixels i j k hin hS hk := hc.pixels i j k hin ((hRS i j hin).mpr hS) hk
  others o ho := hc.others o fun i j k hin hR hk => ho i j k hin ((hRS i j hin).mp hR) hk

theorem union (hc : Coloured d packed R m m') (hc' : Coloured d packed S m' m'') :
    Coloured d packed (fun i j => R i j ∨ S i j) m m'' where
  pixels i j k hin hRS hk := by
    by_cases hS : S i j
    · exact hc'.pixels i j k hin hS hk
    · rw [hc'.others _ fun i' j' k' hin' hS' hk' heq => ?_]
      · exact hc.pixels i j k hin (hRS.resolve_right hS) hk
      · obtain ⟨rfl, rfl, -⟩ := pixel_unique hin hin' hk hk' heq
        exact hS hS'
  others o ho := by
    rw [hc'.others o fun i j k hin hS hk => ho i j k hin (Or.inr hS) hk,
      hc.others o fun i j k hin hR hk => ho i j k hin (Or.inl hR) hk]

theorem foldl {α : Type} {f : Mem → α → Mem} {R : α → Nat → Nat → Prop} (l : List α)
    (hf : ∀ a ∈ l, ∀ m, Coloured d packed (R a) m (f m a)) (m : Mem) :
    Coloured d packed (fun i j => ∃ a ∈ l, R a i j) m (l.foldl f m) := by
  induction l generalizing m with
  | nil => exact (refl d packed m).congr fun i j _ => by simp
  | cons a l ih =>
    have hfirst := hf a List.mem_cons_self m
    have hrest := ih (fun b hb => hf b (List.mem_cons_of_mem a hb)) (f m a)
    exact (hfirst.union hrest).congr fun i j _ => by simp

theorem unique (hc : Coloured d packed R m m') (hc' : Coloured d packed R m m'') : m' = m'' := by
  funext o
  by_cases ho : ∃ i j k, d.Inside i j ∧ R i j ∧ k < d.bytesPerPixel ∧
      o = d.vesaCalculatePixelOffset i j + k
  · obtain ⟨i, j, k, hin, hR, hk, rfl⟩ := ho
    rw [hc.pixels i j k hin hR hk, hc'.pixels i j k hin hR hk]
  · have hout (i j k : Nat) (hin : d.Inside i j) (hR : R i j) (hk : k < d.bytesPerPixel) :
        o ≠ d.vesaCalculatePixelOffset i j + k := fun heq => ho ⟨i, j, k, hin, hR, hk, heq⟩
    rw [hc.others o hout, hc'.others o hout]

theorem putPixel (d : Display) (m : Mem) (x y color : Nat) :
    Coloured d (packColor d.mode color) (fun i j => i = x ∧ j = y) m
      (d.vesaPutPixel m x y color) := by
  by_cases hin : d.Inside x y
  · refine ⟨?_, fun o ho => putPixel_other hin m color fun k hk => ho x y k hin ⟨rfl, rfl⟩ hk⟩
    rintro i j k - ⟨rfl, rfl⟩ hk
    exact putPixel_byte hin m color hk
  · rw [putPixel_outside hin]
    refine (refl d _ m).congr fun i j hij => ⟨False.elim, ?_⟩
    rintro ⟨rfl, rfl⟩
    exact hin hij

end Coloured

theorem mem_upTo {a b i : Nat} : i ∈ upTo a b ↔ a ≤ i ∧ i < b := by
  rw [upTo, List.mem_range'_1]
  omega

theorem upTo_empty {a b : Nat} (hab : b ≤ a) : upTo a b = [] := by
  rw [upTo, Nat.sub_eq_zero_of_le hab]
  rfl

def Box (x y xEnd yEnd i j : Nat) : Prop := (x ≤ i ∧ i < xEnd) ∧ y ≤ j ∧ j < yEnd

theorem coloured_slow (d : Display) (m : Mem) (x y xEnd yEnd color : Nat) :
    Coloured d (packColor d.mode color) (Box x y xEnd yEnd) m
      (d.fillRectSlow m x y xEnd yEnd color) := by
  have hrow (cy : Nat) (m : Mem) : Coloured d (packColor d.mode color)
      (fun i j => ∃ cx ∈ upTo x xEnd, i = cx ∧ j = cy) m
      ((upTo x xEnd).foldl (fun m cx => d.vesaPutPixel m cx cy color) m) :=
    Coloured.foldl _ (fun cx _ m => Coloured.putPixel d m cx cy color) m
  refine (Coloured.foldl _ (fun cy _ m => hrow cy m) m).congr fun i j _ => ?_
  simp only [mem_upTo, Box]
  constructor
  · rintro ⟨cy, hcy, cx, hcx, rfl, rfl⟩
    exact ⟨hcx, hcy⟩
  · rintro ⟨hi, hj⟩
    exact ⟨j, hj, i, hi, rfl, rfl⟩

section Fast

theorem offset_row (hrot : d.rotation = .deg0) (hbytes : d.bytesPerPixel = 4) {cx cy : Nat}
    (hx : d.Inside x cy) (hin : d.Inside (x + cx) cy) :
    d.vesaCalculatePixelOffset (x + cx) cy = d.vesaCalculatePixelOffset x cy + 4 * cx := by
  rw [offset_eq hin, offset_eq hx, mapXy_eq hin, mapXy_eq hx]
  simp only [hrot, hbytes]
  omega

theorem coloured_fillRow (hrot : d.rotation = .deg0) (hbytes : d.bytesPerPixel = 4)
    (cy width packed : Nat) (hcol : x < d.vesaLogicalWidth) (hrow : cy < d.vesaLogicalHeight)
    (hwidth : x + width ≤ d.vesaLogicalWidth) (m : Mem) :
    Coloured d packed (fun i j => (x ≤ i ∧ i < x + width) ∧ j = cy) m
      (fillRow m (d.vesaCalculatePixelOffset x cy) width packed) := by
  have hcell (cx : Nat) (hcx : cx ∈ List.range width) (m : Mem) :
      Coloured d packed (fun i j => i = x + cx ∧ j = cy) m
        (store32 m ((d.vesaCalculatePixelOffset x cy + 4 * cx) % 2 ^ 32) packed) := by
    have hlt := List.mem_range.mp hcx
    have hin : d.Inside (x + cx) cy := ⟨by omega, hrow⟩
    have hoff := offset_row hrot hbytes ⟨hcol, hrow⟩ hin
    have hsmall := offset_lt hin d.bytes_pos
    have hscreen := d.screen_lt
    have hstore : store32 m ((d.vesaCalculatePixelOffset x cy + 4 * cx) % 2 ^ 32) packed =
        storePixel 4 m (d.vesaCalculatePixelOffset (x + cx) cy) packed := by
      rw [hoff, Nat.mod_eq_of_lt (by omega)]
      rfl
    rw [hstore]
    constructor
    · rintro i j k - ⟨rfl, rfl⟩ hk
      rw [storePixel_apply (by decide) (by decide), if_pos (by omega), Nat.add_sub_cancel_left]
    · intro o ho
      rw [storePixel_apply (by decide) (by decide), if_neg]
      rintro ⟨hle, hlt⟩
      exact ho _ _ (o - d.vesaCalculatePixelOffset (x + cx) cy) hin ⟨rfl, rfl⟩ (by omega) (by omega)
  refine (Coloured.foldl _ hcell m).congr fun i j _ => ?_
  simp only [List.mem_range]
  constructor
  · rintro ⟨cx, hcx, rfl, rfl⟩
    exact ⟨⟨by omega, by omega⟩, rfl⟩
  · rintro ⟨hi, rfl⟩
    exact ⟨i - x, by omega, by omega, rfl⟩

theorem coloured_fast (hrot : d.rotation = .deg0) (hbytes : d.bytesPerPixel = 4)
    (hcol : x < d.vesaLogicalWidth) (hx : x ≤ xEnd) (hw : xEnd ≤ d.vesaLogicalWidth)
    (hh : yEnd ≤ d.vesaLogicalHeight) (m : Mem) (packed : Nat) :
    Coloured d packed (Box x y xEnd yEnd) m (d.fillRectFast m x y xEnd yEnd packed) := by
  have hlt := d.logicalWidth_lt
  have hwidth : sub32 xEnd x = xEnd - x := sub32_eq (by omega) hx
  unfold fillRectFast
  rw [hwidth]
  have hrow (cy : Nat) (hcy : cy ∈ upTo y yEnd) (m : Mem) :=
    coloured_fillRow hrot hbytes cy (xEnd - x) packed hcol
      (Nat.lt_of_lt_of_le (mem_upTo.mp hcy).2 hh) (by omega) m
  refine (Coloured.foldl _ hrow m).congr fun i j _ => ?_
  simp only [mem_upTo, Box]
  constructor
  · rintro ⟨cy, hcy, hi, rfl⟩
    exact ⟨⟨hi.1, by omega⟩, hcy⟩
  · rintro ⟨hi, hj⟩
    exact ⟨j, hj, ⟨hi.1, by omega⟩, rfl⟩

end Fast

section Wrapped

theorem exists_unlike (packed : Nat) : ∃ v : UInt8, ∀ k < 4, v ≠ byte packed k := by
  have hcard : ((Finset.range 4).image fun k => (byte packed k).toNat).card < (Finset.range 5).card :=
    Nat.lt_of_le_of_lt Finset.card_image_le (by simp)
  obtain ⟨n, hn, hout⟩ := Finset.exists_mem_notMem_of_card_lt_card hcard
  have hsmall : n < 5 := Finset.mem_range.mp hn
  refine ⟨UInt8.ofNat n, fun k hk heq => hout (Finset.mem_image.mpr ⟨k, Finset.mem_range.mpr hk, ?_⟩)⟩
  rw [← heq, UInt8.toNat_ofNat']
  omega

def Touched (packed a : Nat) (m : Mem) : Prop := ∃ k < 4, m a = byte packed k

theorem Touched.store32 {a : Nat} (ht : Touched packed a m) (b : Nat) :
    Touched packed a (store32 m b packed) := by
  obtain ⟨k, hk, hm⟩ := ht
  unfold ByteMem.store32
  unfold Touched
  dsimp only
  split
  · exact ⟨0, by decide, rfl⟩
  split
  · exact ⟨1, by decide, rfl⟩
  split
  · exact ⟨2, by decide, rfl⟩
  split
  · exact ⟨3, by decide, rfl⟩
  · exact ⟨k, hk, hm⟩

theorem touched_foldl {α : Type} {f : Mem → α → Mem} {a : Nat} {b : α} {l : List α}
    (hkeep : ∀ m c, Touched packed a m → Touched packed a (f m c)) (hb : b ∈ l)
    (hmake : ∀ m, Touched packed a (f m b)) (m : Mem) : Touched packed a (l.foldl f m) := by
  induction l generalizing m with
  | nil => cases hb
  | cons c l ih =>
    rw [List.foldl_cons]
    cases hb with
    | head => exact List.foldlRecOn l f (hmake m) fun m hm c _ => hkeep m c hm
    | tail _ hb => exact ih hb (f m c)

theorem Touched.fillRow {a : Nat} (ht : Touched packed a m) (offset width : Nat) :
    Touched packed a (Vesa.Display.fillRow m offset width packed) :=
  List.foldlRecOn _ _ ht fun _ h _ _ => h.store32 _

theorem touched_fillRow {offset width cx : Nat} (hcx : cx < width) (m : Mem) :
    Touched packed ((offset + 4 * cx) % 2 ^ 32) (Vesa.Display.fillRow m offset width packed) := by
  exact touched_foldl
    (f := fun m cx => ByteMem.store32 m ((offset + 4 * cx) % 2 ^ 32) packed)
    (fun _ _ ht => ht.store32 _) (List.mem_range.mpr hcx) (fun _ => ⟨0, by decide, if_pos rfl⟩) m

theorem not_coloured_same (hin : d.Inside x y) (hR : R x y) {v : UInt8}
    (hv : ∀ k < 4, v ≠ byte packed k) :
    ¬Coloured d packed R (fun _ => v) (fun _ => v) := by
  intro hc
  exact hv 0 (by decide) (hc.pixels x y 0 hin hR d.bytes_pos)

end Wrapped

def Rect (x y w h i j : Nat) : Prop := Box x y (x + w) (y + h) i j

structure FillsExactly (d : Display) (x y w h color : Nat) : Prop where
  pixels : ∀ m, Coloured d (packColor d.mode color) (Rect x y w h) m (d.vesaFillRect m x y w h color)
  paths : d.rotation = .deg0 → d.bytesPerPixel = 4 → d.Inside x y → ∀ m,
    d.fillRectFast m x y (min (add32 x w) d.vesaLogicalWidth) (min (add32 y h) d.vesaLogicalHeight)
        (packColor d.mode color) =
      d.fillRectSlow m x y (min (add32 x w) d.vesaLogicalWidth)
        (min (add32 y h) d.vesaLogicalHeight) color

theorem fillRect_outside (hout : ¬d.Inside x y) (m : Mem) (w h color : Nat) :
    d.vesaFillRect m x y w h color = m :=
  if_pos (not_inside.mp hout)

theorem box_empty (hx : xEnd ≤ x ∨ yEnd ≤ y) (i j : Nat) : ¬Box x y xEnd yEnd i j := by
  rintro ⟨⟨hi, hi'⟩, hj, hj'⟩
  omega

theorem fillsExactly_outside (hout : ¬d.Inside x y) (w h color : Nat) :
    d.FillsExactly x y w h color where
  pixels m := by
    rw [fillRect_outside hout]
    refine (Coloured.refl d _ m).congr fun i j hij => ⟨False.elim, ?_⟩
    rintro ⟨hi, hj⟩
    exact hout ⟨Nat.lt_of_le_of_lt hi.1 hij.col, Nat.lt_of_le_of_lt hj.1 hij.row⟩
  paths _ _ hin := absurd hin hout

theorem fillRect_inside (hin : d.Inside x y) (m : Mem) (w h color : Nat) :
    d.vesaFillRect m x y w h color =
      if d.rotation = .deg0 ∧ d.bytesPerPixel = 4 then
        d.fillRectFast m x y (min (add32 x w) d.vesaLogicalWidth)
          (min (add32 y h) d.vesaLogicalHeight) (packColor d.mode color)
      else d.fillRectSlow m x y (min (add32 x w) d.vesaLogicalWidth)
        (min (add32 y h) d.vesaLogicalHeight) color :=
  if_neg fun hc => not_inside.mpr hc hin

theorem fillsExactly_of_box (hin : d.Inside x y)
    (hx : x ≤ min (add32 x w) d.vesaLogicalWidth)
    (hbox : ∀ i j, d.Inside i j → (Box x y (min (add32 x w) d.vesaLogicalWidth)
      (min (add32 y h) d.vesaLogicalHeight) i j ↔ Rect x y w h i j)) :
    d.FillsExactly x y w h color := by
  have hslow (m : Mem) := coloured_slow d m x y (min (add32 x w) d.vesaLogicalWidth)
    (min (add32 y h) d.vesaLogicalHeight) color
  have hfast (hrot : d.rotation = .deg0) (hbytes : d.bytesPerPixel = 4) (m : Mem) :
      Coloured d (packColor d.mode color) (Box x y (min (add32 x w) d.vesaLogicalWidth)
        (min (add32 y h) d.vesaLogicalHeight)) m
        (d.fillRectFast m x y (min (add32 x w) d.vesaLogicalWidth)
          (min (add32 y h) d.vesaLogicalHeight) (packColor d.mode color)) :=
    coloured_fast hrot hbytes hin.col hx (Nat.min_le_right _ _) (Nat.min_le_right _ _) m _
  constructor
  · intro m
    rw [fillRect_inside hin]
    split
    next hc => exact (hfast hc.1 hc.2 m).congr hbox
    next => exact (hslow m).congr hbox
  · exact fun hrot hbytes _ m => (hfast hrot hbytes m).unique (hslow m)

theorem fillRectFast_no_rows (hy : yEnd ≤ y) (m : Mem) :
    d.fillRectFast m x y xEnd yEnd packed = m := by
  rw [fillRectFast, upTo_empty hy]
  rfl

theorem fillRectSlow_no_rows (hy : yEnd ≤ y) (m : Mem) :
    d.fillRectSlow m x y xEnd yEnd color = m := by
  rw [fillRectSlow, upTo_empty hy]
  rfl

theorem fillRectSlow_no_columns (hx : xEnd ≤ x) (m : Mem) :
    d.fillRectSlow m x y xEnd yEnd color = m := by
  rw [fillRectSlow, upTo_empty hx]
  exact List.foldlRecOn (motive := fun n => n = m) _ _ rfl fun _ hn _ _ => hn

theorem fillRect_no_rows (hy : min (add32 y h) d.vesaLogicalHeight ≤ y) (m : Mem) :
    d.vesaFillRect m x y w h color = m := by
  by_cases hin : d.Inside x y
  · rw [fillRect_inside hin, fillRectFast_no_rows hy, fillRectSlow_no_rows hy, ite_self]
  · exact fillRect_outside hin m w h color

theorem fillsExactly_no_rows (hy : min (add32 y h) d.vesaLogicalHeight ≤ y)
    (hempty : ∀ i j, ¬Rect x y w h i j) : d.FillsExactly x y w h color where
  pixels m := by
    rw [fillRect_no_rows hy]
    exact (Coloured.refl d _ m).congr fun i j _ => iff_of_false id (hempty i j)
  paths _ _ _ m := by rw [fillRectFast_no_rows hy, fillRectSlow_no_rows hy]

-- a width beyond the wrap sends the fast path through the whole address space
theorem fast_leaves_screen (hin : d.Inside x y) (hw : w < 2 ^ 32) (hwrap : 2 ^ 32 ≤ x + w)
    (hy : y < yEnd) (m : Mem) : ∃ a, d.vesaPhysHeight * d.pitch ≤ a ∧
      Touched packed a (d.fillRectFast m x y (min (add32 x w) d.vesaLogicalWidth) yEnd packed) := by
  have hlw := d.logicalWidth_lt
  have hcol := hin.col
  have hstart := offset_lt hin d.bytes_pos
  have hscreen := d.screen_lt
  have hwidth : sub32 (min (add32 x w) d.vesaLogicalWidth) x = w := by
    simp only [sub32, add32]
    omega
  obtain ⟨cx, hcx⟩ : ∃ cx, cx = (d.vesaPhysHeight * d.pitch -
    d.vesaCalculatePixelOffset x y + 3) / 4 := ⟨_, rfl⟩
  refine ⟨(d.vesaCalculatePixelOffset x y + 4 * cx) % 2 ^ 32, ?_, ?_⟩
  · rw [Nat.mod_eq_of_lt (by omega)]
    omega
  · have hmany : cx < w := by omega
    simp only [fillRectFast, hwidth]
    exact touched_foldl
      (f := fun m cy => Vesa.Display.fillRow m (d.vesaCalculatePixelOffset x cy) w packed)
      (fun _ _ ht => ht.fillRow _ _) (mem_upTo.mpr ⟨Nat.le_refl y, hy⟩)
      (fun m => touched_fillRow hmany m) m

theorem not_fillsExactly_of_wrap (hin : d.Inside x y) (hw : w < 2 ^ 32) (hh : h < 2 ^ 32)
    (hw0 : 0 < w) (hh0 : 0 < h) (hwrap : 2 ^ 32 ≤ x + w ∨ 2 ^ 32 ≤ y + h) (color : Nat) :
    ¬d.FillsExactly x y w h color := by
  intro hfill
  have hlw := d.logicalWidth_lt
  have hlh := d.logicalHeight_lt
  have hcol := hin.col
  have hrow := hin.row
  have hR : Rect x y w h x y := ⟨⟨by omega, by omega⟩, by omega, by omega⟩
  obtain ⟨v, hv⟩ := exists_unlike (packColor d.mode color)
  have hdone := hfill.pixels fun _ => v
  by_cases hy : min (add32 y h) d.vesaLogicalHeight ≤ y
  · rw [fillRect_no_rows hy] at hdone
    exact not_coloured_same hin hR hv hdone
  · have hwrap : 2 ^ 32 ≤ x + w := by
      simp only [add32] at hy
      omega
    have hxEnd : min (add32 x w) d.vesaLogicalWidth ≤ x := by
      simp only [add32]
      omega
    rw [fillRect_inside hin, fillRectSlow_no_columns hxEnd] at hdone
    split at hdone
    next =>
      obtain ⟨a, ha, k, hk, htouched⟩ :=
        fast_leaves_screen hin hw hwrap (Nat.lt_of_not_le hy) fun _ => v
      refine hv k hk (htouched.symm.trans (hdone.others a ?_)).symm
      intro i j k' hij _ hk' heq
      have hoff := offset_lt hij hk'
      omega
    next => exact not_coloured_same hin hR hv hdone

theorem fillRect_exact_iff (d : Display) (x y w h color : Nat) (hw : w < 2 ^ 32)
    (hh : h < 2 ^ 32) :
    d.FillsExactly x y w h color ↔
      d.vesaLogicalWidth ≤ x ∨ d.vesaLogicalHeight ≤ y ∨ w = 0 ∨ h = 0 ∨
        x + w < 2 ^ 32 ∧ y + h < 2 ^ 32 := by
  have hlw := d.logicalWidth_lt
  have hlh := d.logicalHeight_lt
  constructor
  · intro hfill
    by_contra hcond
    exact not_fillsExactly_of_wrap ⟨by omega, by omega⟩ hw hh (by omega) (by omega) (by omega) color
      hfill
  · intro hcond
    by_cases hin : d.Inside x y
    · have hcol := hin.col
      have hrow := hin.row
      by_cases hh0 : h = 0
      · refine fillsExactly_no_rows (by simp only [add32]; omega) fun i j => ?_
        exact box_empty (Or.inr (by omega)) i j
      · refine fillsExactly_of_box hin (by simp only [add32]; omega) fun i j hij => ?_
        have hi := hij.col
        have hj := hij.row
        simp only [Rect, Box, add32]
        omega
    · exact fillsExactly_outside hin w h color

theorem fillRect_exact_clipped : (screen8888 .deg0).FillsExactly 2 1 7 3 0xFF0000 :=
  (fillRect_exact_iff (screen8888 .deg0) 2 1 7 3 0xFF0000 (by decide) (by decide)).mpr (by decide)

-- the rectangle from column 1 to the right end of the word: too much on one path, nothing on the other
theorem fillRect_wraps : ¬(screen8888 .deg0).FillsExactly 1 0 4294967295 1 0xFF0000 ∧
    ¬(screen8888 .deg180).FillsExactly 1 0 4294967295 1 0xFF0000 :=
  ⟨not_fillsExactly_of_wrap ⟨by decide, by decide⟩ (by decide) (by decide) (by decide) (by decide)
      (Or.inl (by decide)) _,
    not_fillsExactly_of_wrap ⟨by decide, by decide⟩ (by decide) (by decide) (by decide) (by decide)
      (Or.inl (by decide)) _⟩

end Display

end HouseOS.Vesa
