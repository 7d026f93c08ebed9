import HouseOS.Library.Assign
import HouseOS.Vesa.Colour

namespace HouseOS.Vesa

open HouseOS.ByteMem HouseOS.Word HouseOS.Assign

namespace Display

variable {d : Display} {srcX srcY dstX dstY w h x y : Nat} {m : Mem} {p q : Nat × Nat}

def view (d : Display) (m : Mem) (p : Nat × Nat) : Nat := d.vesaGetPixel m p.1 p.2

theorem view_eq_of_value {m' : Mem} (hq : d.Inside q.1 q.2) (hp : d.Inside p.1 p.2)
    (hsame : unpackColor d.mode (d.value m' q.1 q.2) = unpackColor d.mode (d.value m p.1 p.2))
    (hother : ∀ r : Nat × Nat, d.Inside r.1 r.2 → r ≠ q → d.value m' r.1 r.2 = d.value m r.1 r.2) :
    d.view m' = assign (d.view m) (q, p) := by
  funext r
  by_cases hr : r = q
  · subst hr
    rw [assign, Function.update_self]
    simp only [view, getPixel_eq hq, getPixel_eq hp, hsame]
  · rw [assign, Function.update_of_ne hr]
    by_cases hin : d.Inside r.1 r.2
    · simp only [view, getPixel_eq hin, hother r hin hr]
    · simp only [view, getPixel_outside hin]

theorem view_put (hq : d.Inside q.1 q.2) (hp : d.Inside p.1 p.2) :
    d.view (d.vesaPutPixel m q.1 q.2 (d.vesaGetPixel m p.1 p.2)) = assign (d.view m) (q, p) := by
  refine view_eq_of_value hq hp ?_ fun r hr hne => ?_
  · rw [value_put_same hq, getPixel_eq hp]
    exact unpackColor_put_back d.mode d.bytes_le (d.value_lt m p.1 p.2)
  · refine value_put_other hq hr (fun heq => hne ?_) m _
    exact Prod.ext heq.1.symm heq.2.symm

theorem pixels_apart (hq : d.Inside q.1 q.2) (hp : d.Inside p.1 p.2) (hne : p ≠ q) :
    d.vesaCalculatePixelOffset p.1 p.2 + d.bytesPerPixel ≤ d.vesaCalculatePixelOffset q.1 q.2 ∨
      d.vesaCalculatePixelOffset q.1 q.2 + d.bytesPerPixel ≤ d.vesaCalculatePixelOffset p.1 p.2 := by
  by_contra hover
  have hclash (k k' : Nat) (hk : k < d.bytesPerPixel) (hk' : k' < d.bytesPerPixel)
      (heq : d.vesaCalculatePixelOffset p.1 p.2 + k = d.vesaCalculatePixelOffset q.1 q.2 + k') :
      False := by
    obtain ⟨hx, hy, -⟩ := pixel_unique hp hq hk hk' heq
    exact hne (Prod.ext hx hy)
  rcases Nat.le_total (d.vesaCalculatePixelOffset p.1 p.2) (d.vesaCalculatePixelOffset q.1 q.2)
    with hle | hle
  · exact hclash (d.vesaCalculatePixelOffset q.1 q.2 - d.vesaCalculatePixelOffset p.1 p.2) 0
      (by omega) (by omega) (by omega)
  · exact hclash 0 (d.vesaCalculatePixelOffset p.1 p.2 - d.vesaCalculatePixelOffset q.1 q.2)
      (by omega) (by omega) (by omega)

theorem view_copy (hq : d.Inside q.1 q.2) (hp : d.Inside p.1 p.2) :
    d.view (copy m (d.vesaCalculatePixelOffset q.1 q.2) (d.vesaCalculatePixelOffset p.1 p.2)
      d.bytesPerPixel) = assign (d.view m) (q, p) := by
  refine view_eq_of_value hq hp (congrArg _ (pixelValue_congr _ _ fun k hk => ?_))
    fun r hr hne => pixelValue_congr _ _ fun k hk => ?_
  · by_cases hpq : p = q
    · rw [hpq, copy_self]
    · have hapart := pixels_apart hq hp hpq
      rw [copy_apply _ _ _ _ _ hapart, if_pos (by omega), Nat.add_sub_cancel_left]
  · have hapart := pixels_apart hq hr hne
    exact copy_outside (by omega)

def copyStep (srcX srcY dstX dstY x y : Nat) : (Nat × Nat) × (Nat × Nat) :=
  ((dstX + x, dstY + y), (srcX + x, srcY + y))

def rowSteps (srcX srcY dstX dstY copyW y : Nat) : List ((Nat × Nat) × (Nat × Nat)) :=
  (List.range copyW).map fun x => copyStep srcX srcY dstX dstY x y

def copySteps (srcX srcY dstX dstY copyW copyH : Nat) : List ((Nat × Nat) × (Nat × Nat)) :=
  (List.range copyH).flatMap fun y => rowSteps srcX srcY dstX dstY copyW y

def copyW (d : Display) (srcX dstX w : Nat) : Nat := min w (d.vesaLogicalWidth - max srcX dstX)

def copyH (d : Display) (srcY dstY h : Nat) : Nat := min h (d.vesaLogicalHeight - max srcY dstY)

theorem inside_of_lt_copy (hx : x < d.copyW srcX dstX w) (hy : y < d.copyH srcY dstY h) :
    d.Inside (srcX + x) (srcY + y) ∧ d.Inside (dstX + x) (dstY + y) := by
  unfold copyW at hx
  unfold copyH at hy
  exact ⟨⟨by omega, by omega⟩, ⟨by omega, by omega⟩⟩

theorem offset_along (hrot : d.rotation = .deg0) {i : Nat} (hx : d.Inside x y)
    (hin : d.Inside (x + i) y) :
    d.vesaCalculatePixelOffset (x + i) y = d.vesaCalculatePixelOffset x y + i * d.bytesPerPixel := by
  rw [offset_eq hin, offset_eq hx, mapXy_eq hin, mapXy_eq hx]
  simp only [hrot]
  rw [Nat.add_mul, ← Nat.add_assoc]

-- a row copied byte by byte from the left is copied pixel by pixel from the left
theorem view_copyRow (hrot : d.rotation = .deg0) (srcX dstX w : Nat)
    (hy : y < d.copyH srcY dstY h) (n : Nat) : ∀ (x : Nat) (m : Mem), x + n ≤ d.copyW srcX dstX w →
      d.view (copy m (d.vesaCalculatePixelOffset dstX (dstY + y) + x * d.bytesPerPixel)
        (d.vesaCalculatePixelOffset srcX (srcY + y) + x * d.bytesPerPixel) (n * d.bytesPerPixel)) =
      assigns (d.view m)
        ((List.range' x n).map fun x => copyStep srcX srcY dstX dstY x y) := by
  induction n with
  | zero =>
    intro x m _
    rw [Nat.zero_mul]
    rfl
  | succ n ih =>
    intro x m hx
    have hlt : x < d.copyW srcX dstX w := by omega
    have hpos : 0 < d.copyW srcX dstX w := by omega
    obtain ⟨hsrc, hdst⟩ := inside_of_lt_copy hlt hy
    obtain ⟨hsrc0, hdst0⟩ : d.Inside srcX (srcY + y) ∧ d.Inside dstX (dstY + y) :=
      inside_of_lt_copy hpos hy
    rw [Nat.succ_mul, Nat.add_comm (n * _), copy_add, Nat.add_assoc, Nat.add_assoc,
      ← Nat.succ_mul, ih (x + 1) _ (by omega), ← offset_along hrot hdst0 hdst,
      ← offset_along hrot hsrc0 hsrc]
    have hstep := view_copy (m := m) (q := (dstX + x, dstY + y)) (p := (srcX + x, srcY + y)) hdst hsrc
    rw [hstep]
    rfl

theorem view_putRow (hy : y < d.copyH srcY dstY h) (m : Mem) :
    d.view ((List.range (d.copyW srcX dstX w)).foldl (fun m x =>
        d.vesaPutPixel m (dstX + x) (dstY + y) (d.vesaGetPixel m (srcX + x) (srcY + y))) m) =
      assigns (d.view m) (rowSteps srcX srcY dstX dstY (d.copyW srcX dstX w) y) := by
  rw [rowSteps, List.map_eq_flatMap]
  refine foldl_assigns _ (fun x hx t => ?_) m
  obtain ⟨hsrc, hdst⟩ := inside_of_lt_copy (List.mem_range.mp hx) hy
  exact view_put (q := (dstX + x, dstY + y)) (p := (srcX + x, srcY + y)) hdst hsrc

def copyRow (d : Display) (srcX srcY dstX dstY copyW : Nat) (m : Mem) (y : Nat) : Mem :=
  if d.rotation = .deg0 then
    copy m (d.vesaCalculatePixelOffset dstX (dstY + y)) (d.vesaCalculatePixelOffset srcX (srcY + y))
      (copyW * d.bytesPerPixel)
  else
    (List.range copyW).foldl (fun m x => d.vesaPutPixel m (dstX + x) (dstY + y)
      (d.vesaGetPixel m (srcX + x) (srcY + y))) m

theorem foldl_congr_mem {σ γ : Type} {f g : σ → γ → σ} (l : List γ) (s : σ)
    (h : ∀ c ∈ l, ∀ t, f t c = g t c) : l.foldl f s = l.foldl g s := by
  induction l generalizing s with
  | nil => rfl
  | cons c l ih =>
    rw [List.foldl_cons, List.foldl_cons, h c List.mem_cons_self s]
    exact ih _ fun c' hc' => h c' (List.mem_cons_of_mem c hc')

theorem copyW_lt (d : Display) (srcX dstX w : Nat) : d.copyW srcX dstX w < 2 ^ 16 := by
  have hlw := d.logicalWidth_lt
  unfold copyW
  omega

theorem copyRect_eq (hsrc : d.Inside srcX srcY) (hdst : d.Inside dstX dstY) (m : Mem) (w h : Nat) :
    d.vesaCopyRect m srcX srcY dstX dstY w h =
      (List.range (d.copyH srcY dstY h)).foldl
        (d.copyRow srcX srcY dstX dstY (d.copyW srcX dstX w)) m := by
  have hlw := d.logicalWidth_lt
  have hlh := d.logicalHeight_lt
  obtain ⟨hsx, hsy⟩ := hsrc
  obtain ⟨hdx, hdy⟩ := hdst
  have hw : min w (sub32 d.vesaLogicalWidth (max srcX dstX)) = d.copyW srcX dstX w := by
    rw [sub32_eq (by omega) (by omega), copyW]
  have hh : min h (sub32 d.vesaLogicalHeight (max srcY dstY)) = d.copyH srcY dstY h := by
    rw [sub32_eq (by omega) (by omega), copyH]
  have hbytes := d.bytes_le
  have hrow : mul32 (d.copyW srcX dstX w) d.bytesPerPixel =
      d.copyW srcX dstX w * d.bytesPerPixel := by
    refine Nat.mod_eq_of_lt (Nat.lt_of_le_of_lt (Nat.mul_le_mul_left _ hbytes) ?_)
    have hcw := d.copyW_lt srcX dstX w
    omega
  have hadd (a i : Nat) (ha : a < 2 ^ 16) (hi : i < 2 ^ 16) : add32 a i = a + i :=
    add32_eq (by omega)
  simp only [vesaCopyRect, hw, hh, hrow]
  rw [if_neg (by omega)]
  split
  next hzero =>
    rcases hzero with hzero | hzero
    · have hnone (l : List Nat) (m : Mem) :
          l.foldl (d.copyRow srcX srcY dstX dstY 0) m = m :=
        List.foldlRecOn (motive := fun n => n = m) _ _ rfl fun n hn y _ => by
          rw [← hn, copyRow]
          split
          · rw [Nat.zero_mul]
            rfl
          · rfl
      rw [hzero, hnone]
    · rw [hzero]
      rfl
  next =>
    have hy (y : Nat) (hy : y ∈ List.range (d.copyH srcY dstY h)) : y < 2 ^ 16 := by
      have hlt := List.mem_range.mp hy
      unfold copyH at hlt
      omega
    split
    next hrot =>
      refine foldl_congr_mem _ _ fun y hmem t => ?_
      rw [copyRow, if_pos hrot, hadd _ y (by omega) (hy y hmem), hadd _ y (by omega) (hy y hmem)]
    next hrot =>
      refine foldl_congr_mem _ _ fun y hmem t => ?_
      rw [copyRow, if_neg hrot, hadd _ y (by omega) (hy y hmem), hadd _ y (by omega) (hy y hmem)]
      refine foldl_congr_mem _ _ fun x hmem' t => ?_
      have hx := Nat.lt_trans (List.mem_range.mp hmem') (d.copyW_lt srcX dstX w)
      rw [hadd _ x (by omega) hx, hadd _ x (by omega) hx]

theorem view_copyRect (hsrc : d.Inside srcX srcY) (hdst : d.Inside dstX dstY) (m : Mem) (w h : Nat) :
    d.view (d.vesaCopyRect m srcX srcY dstX dstY w h) = assigns (d.view m)
      (copySteps srcX srcY dstX dstY (d.copyW srcX dstX w) (d.copyH srcY dstY h)) := by
  rw [copyRect_eq hsrc hdst, copySteps]
  refine foldl_assigns _ (fun y hy t => ?_) m
  have hy := List.mem_range.mp hy
  rw [copyRow]
  split
  next hrot =>
    have hrow := view_copyRow hrot srcX dstX w hy (d.copyW srcX dstX w) 0 t (by omega)
    rw [Nat.zero_mul, Nat.add_zero, Nat.add_zero] at hrow
    rw [hrow, rowSteps, List.range_eq_range']
  next => exact view_putRow hy t

def Copied (d : Display) (srcX srcY dstX dstY w h i j : Nat) : Prop :=
  i < w ∧ j < h ∧ d.Inside (srcX + i) (srcY + j) ∧ d.Inside (dstX + i) (dstY + j)

theorem copied_iff {i j : Nat} : d.Copied srcX srcY dstX dstY w h i j ↔
    i < d.copyW srcX dstX w ∧ j < d.copyH srcY dstY h := by
  constructor
  · rintro ⟨hi, hj, hsrc, hdst⟩
    have h1 := hsrc.col
    have h2 := hsrc.row
    have h3 := hdst.col
    have h4 := hdst.row
    unfold copyW copyH
    omega
  · rintro ⟨hi, hj⟩
    obtain ⟨hsrc, hdst⟩ := inside_of_lt_copy hi hj
    unfold copyW at hi
    unfold copyH at hj
    exact ⟨by omega, by omega, hsrc, hdst⟩

structure CopiesExactly (d : Display) (srcX srcY dstX dstY w h : Nat) : Prop where
  pixels : ∀ m i j, d.Copied srcX srcY dstX dstY w h i j →
    d.vesaGetPixel (d.vesaCopyRect m srcX srcY dstX dstY w h) (dstX + i) (dstY + j) =
      d.vesaGetPixel m (srcX + i) (srcY + j)
  others : ∀ m o, (∀ i j k, d.Copied srcX srcY dstX dstY w h i j → k < d.bytesPerPixel →
      o ≠ d.vesaCalculatePixelOffset (dstX + i) (dstY + j) + k) →
    d.vesaCopyRect m srcX srcY dstX dstY w h o = m o

theorem copyRect_outside (hout : ¬(d.Inside srcX srcY ∧ d.Inside dstX dstY)) (m : Mem) (w h : Nat) :
    d.vesaCopyRect m srcX srcY dstX dstY w h = m := by
  refine if_pos ?_
  by_contra hin
  exact hout ⟨⟨by omega, by omega⟩, ⟨by omega, by omega⟩⟩

theorem copyRow_frame (hy : y < d.copyH srcY dstY h) (m : Mem) (o : Nat)
    (ho : ∀ i k, i < d.copyW srcX dstX w → k < d.bytesPerPixel →
      o ≠ d.vesaCalculatePixelOffset (dstX + i) (dstY + y) + k) :
    d.copyRow srcX srcY dstX dstY (d.copyW srcX dstX w) m y o = m o := by
  rw [copyRow]
  split
  next hrot =>
    refine copy_outside ?_
    by_contra hin
    have hpos := d.bytes_pos
    obtain ⟨r, hr⟩ : ∃ r, r = o - d.vesaCalculatePixelOffset dstX (dstY + y) := ⟨_, rfl⟩
    have hlt : r / d.bytesPerPixel < d.copyW srcX dstX w :=
      Nat.div_lt_of_lt_mul (by rw [Nat.mul_comm]; omega)
    obtain ⟨-, hdst⟩ := inside_of_lt_copy hlt hy
    obtain ⟨-, hdst0⟩ : d.Inside srcX (srcY + y) ∧ d.Inside dstX (dstY + y) :=
      inside_of_lt_copy (Nat.lt_of_le_of_lt (Nat.zero_le _) hlt) hy
    refine ho (r / d.bytesPerPixel) (r % d.bytesPerPixel) hlt (Nat.mod_lt _ hpos) ?_
    rw [offset_along hrot hdst0 hdst, Nat.add_assoc, Nat.div_add_mod']
    omega
  next =>
    refine List.foldlRecOn (motive := fun n : Mem => n o = m o) _ _ rfl fun n hn x hx => ?_
    have hx := List.mem_range.mp hx
    obtain ⟨-, hdst⟩ := inside_of_lt_copy hx hy
    rw [putPixel_other hdst n _ fun k hk => ho x k hx hk, hn]

theorem copyRect_frame (m : Mem) (o : Nat)
    (ho : ∀ i j k, d.Copied srcX srcY dstX dstY w h i j → k < d.bytesPerPixel →
      o ≠ d.vesaCalculatePixelOffset (dstX + i) (dstY + j) + k) :
    d.vesaCopyRect m srcX srcY dstX dstY w h o = m o := by
  by_cases hin : d.Inside srcX srcY ∧ d.Inside dstX dstY
  · rw [copyRect_eq hin.1 hin.2]
    refine List.foldlRecOn (motive := fun n : Mem => n o = m o) _ _ rfl fun n hn y hy => ?_
    have hy := List.mem_range.mp hy
    rw [copyRow_frame hy n o fun i k hi hk => ho i y k (copied_iff.mpr ⟨hi, hy⟩) hk, hn]
  · rw [copyRect_outside hin]

section Order

variable {R : (Nat × Nat) × (Nat × Nat) → (Nat × Nat) × (Nat × Nat) → Prop} {cw ch : Nat}

theorem mem_copySteps {s : (Nat × Nat) × (Nat × Nat)} :
    s ∈ copySteps srcX srcY dstX dstY cw ch ↔
      ∃ y < ch, ∃ x < cw, copyStep srcX srcY dstX dstY x y = s := by
  simp [copySteps, rowSteps]

theorem copySteps_pairwise (h : ∀ x y x' y', x < cw → y < ch → x' < cw → y' < ch →
      y < y' ∨ y = y' ∧ x < x' →
      R (copyStep srcX srcY dstX dstY x y) (copyStep srcX srcY dstX dstY x' y')) :
    (copySteps srcX srcY dstX dstY cw ch).Pairwise R := by
  refine List.pairwise_flatMap.mpr ⟨fun y hy => ?_, ?_⟩
  · have hy := List.mem_range.mp hy
    refine List.pairwise_map.mpr (List.pairwise_lt_range.imp_of_mem fun hx hx' hlt => ?_)
    exact h _ _ _ _ (List.mem_range.mp hx) hy (List.mem_range.mp hx') hy (Or.inr ⟨rfl, hlt⟩)
  · refine List.pairwise_lt_range.imp_of_mem fun hy hy' hlt => ?_
    simp only [rowSteps, List.mem_map, List.mem_range]
    rintro _ ⟨x, hx, rfl⟩ _ ⟨x', hx', rfl⟩
    exact h _ _ _ _ hx (List.mem_range.mp hy) hx' (List.mem_range.mp hy') (Or.inl hlt)

theorem copyStep_inj {x' y' : Nat}
    (heq : (copyStep srcX srcY dstX dstY x y).1 = (copyStep srcX srcY dstX dstY x' y').1) :
    x = x' ∧ y = y' := by
  obtain ⟨hx, hy⟩ := Prod.mk.injEq _ _ _ _ ▸ heq
  exact ⟨Nat.add_left_cancel hx, Nat.add_left_cancel hy⟩

theorem copySteps_nodup : (copySteps srcX srcY dstX dstY cw ch).Pairwise (fun p q => p.1 ≠ q.1) := by
  refine copySteps_pairwise fun x y x' y' _ _ _ _ hlt heq => ?_
  obtain ⟨rfl, rfl⟩ := copyStep_inj heq
  omega

-- the rectangles do not overlap, or the destination lies above the source, or left of it in its rows
def InOrder (cw ch srcX srcY dstX dstY : Nat) : Prop :=
  cw ≤ max srcX dstX - min srcX dstX ∨ ch ≤ max srcY dstY - min srcY dstY ∨ dstY < srcY ∨
    dstY = srcY ∧ dstX ≤ srcX

theorem copySteps_simultaneous (hord : InOrder cw ch srcX srcY dstX dstY) :
    (copySteps srcX srcY dstX dstY cw ch).Pairwise (fun p q => p.1 ≠ q.1 ∧ p.1 ≠ q.2) ∨
      srcX = dstX ∧ srcY = dstY := by
  by_cases hsame : srcX = dstX ∧ srcY = dstY
  · exact Or.inr hsame
  · refine Or.inl (copySteps_pairwise fun x y x' y' hx hy hx' hy' hlt => ⟨fun heq => ?_, fun heq => ?_⟩)
    · obtain ⟨rfl, rfl⟩ := copyStep_inj heq
      omega
    · obtain ⟨hcol, hrow⟩ := Prod.mk.injEq _ _ _ _ ▸ heq
      unfold InOrder at hord
      omega

end Order

theorem view_copyRect_inOrder (hsrc : d.Inside srcX srcY) (hdst : d.Inside dstX dstY) (m : Mem)
    {i j : Nat} (hij : d.Copied srcX srcY dstX dstY w h i j)
    (hord : InOrder (d.copyW srcX dstX w) (d.copyH srcY dstY h) srcX srcY dstX dstY) :
    d.view (d.vesaCopyRect m srcX srcY dstX dstY w h) (dstX + i, dstY + j) =
      d.view m (srcX + i, srcY + j) := by
  obtain ⟨hi, hj⟩ := copied_iff.mp hij
  have hmem : ((dstX + i, dstY + j), (srcX + i, srcY + j)) ∈ copySteps srcX srcY dstX dstY
      (d.copyW srcX dstX w) (d.copyH srcY dstY h) := mem_copySteps.mpr ⟨j, hj, i, hi, rfl⟩
  rw [view_copyRect hsrc hdst]
  rcases copySteps_simultaneous hord with hpair | ⟨hx, hy⟩
  · exact assigns_simultaneous hpair hmem
  · refine assigns_at copySteps_nodup ?_ hmem
    refine copySteps_pairwise fun x y x' y' _ _ _ _ hlt heq hclash => ?_
    have hlater := congrArg Prod.fst heq
    simp only [copyStep, Prod.mk.injEq] at hlater hclash
    omega

-- the mode stores no bit of a colour field: every pixel always shows the same colour
def Blank (d : Display) : Prop := colourBits d.mode % 2 ^ (8 * d.bytesPerPixel) = 0

theorem pow_bytes_le (d : Display) : 2 ^ (8 * d.bytesPerPixel) ≤ 2 ^ 32 := by
  have hn := d.bytes_le
  exact Nat.pow_le_pow_right (by decide) (by omega)

theorem and_colourBits {p : Nat} (hp : p < 2 ^ (8 * d.bytesPerPixel)) :
    p &&& colourBits d.mode = p &&& colourBits d.mode % 2 ^ (8 * d.bytesPerPixel) := by
  refine Nat.eq_of_testBit_eq fun i => ?_
  rw [Nat.testBit_and, Nat.testBit_and, Nat.testBit_mod_two_pow]
  by_cases hi : i < 8 * d.bytesPerPixel
  · rw [decide_eq_true hi, Bool.true_and]
  · have hnone : p.testBit i = false := Nat.testBit_lt_two_pow
      (Nat.lt_of_lt_of_le hp (Nat.pow_le_pow_right (by decide) (Nat.le_of_not_lt hi)))
    rw [hnone, Bool.false_and, Bool.false_and]

theorem Blank.getPixel (hb : d.Blank) (hin : d.Inside x y) (m : Mem) :
    d.vesaGetPixel m x y = unpackColor d.mode 0 := by
  have hlt := d.value_lt m x y
  rw [getPixel_eq hin, ← unpackColor_and_colourBits d.mode (Nat.lt_of_lt_of_le hlt d.pow_bytes_le),
    and_colourBits hlt, hb, Nat.and_zero]

theorem exists_shown (hb : ¬d.Blank) : ∃ p < 2 ^ (8 * d.bytesPerPixel),
    unpackColor d.mode p ≠ unpackColor d.mode 0 := by
  refine ⟨colourBits d.mode % 2 ^ (8 * d.bytesPerPixel), Nat.mod_lt _ (Nat.two_pow_pos _),
    fun heq => hb ?_⟩
  have hpack := congrArg (packColor d.mode) heq
  rwa [pack_unpackColor, pack_unpackColor, Nat.zero_and,
    and_colourBits (Nat.mod_lt _ (Nat.two_pow_pos _)), Nat.and_self] at hpack

theorem steps_sublist (srcX srcY dstX dstY : Nat) {cw ch x x' y : Nat} (hx : x < cw) (hx' : x' < cw) (hy : y < ch)
    (hlater : 0 < y ∨ y = 0 ∧ x = 0 ∧ 0 < x') :
    [copyStep srcX srcY dstX dstY x 0, copyStep srcX srcY dstX dstY x' y].Sublist
      (copySteps srcX srcY dstX dstY cw ch) := by
  have hzero (n k : Nat) (hk : 0 < k) (hkn : k < n) : [0, k].Sublist (List.range n) := by
    obtain ⟨n, rfl⟩ : ∃ j, n = j + 1 := ⟨n - 1, by omega⟩
    rw [List.range_succ_eq_map]
    refine List.Sublist.cons_cons 0 (List.singleton_sublist.mpr ?_)
    exact List.mem_map.mpr ⟨k - 1, List.mem_range.mpr (by omega), by omega⟩
  have hrow (x y : Nat) (hx : x < cw) :
      [copyStep srcX srcY dstX dstY x y].Sublist (rowSteps srcX srcY dstX dstY cw y) :=
    List.singleton_sublist.mpr (List.mem_map.mpr ⟨x, List.mem_range.mpr hx, rfl⟩)
  rcases hlater with hpos | ⟨rfl, rfl, hpos⟩
  · refine List.Sublist.trans ?_ ((hzero ch y hpos hy).flatMap _)
    exact List.Sublist.append (hrow x 0 hx) (by simpa using hrow x' y hx')
  · refine List.Sublist.trans ?_
      ((List.singleton_sublist.mpr (List.mem_range.mpr hy)).flatMap _)
    simpa [rowSteps] using (hzero cw x' hpos hx').map fun x => copyStep srcX srcY dstX dstY x 0

theorem view_copyRect_passed_on (hsrc : d.Inside srcX srcY) (hdst : d.Inside dstX dstY)
    (hord : ¬InOrder (d.copyW srcX dstX w) (d.copyH srcY dstY h) srcX srcY dstX dstY) :
    ∃ i i' j, d.Copied srcX srcY dstX dstY w h i' j ∧ d.Copied srcX srcY dstX dstY w h i 0 ∧
      srcX + i' = dstX + i ∧ srcY + j = dstY ∧
      ∀ m, d.view (d.vesaCopyRect m srcX srcY dstX dstY w h) (dstX + i', dstY + j) =
        d.view m (srcX + i, srcY) := by
  unfold InOrder at hord
  obtain ⟨i, i', j, hi, hi', hj, hcol, hrow, hlater, hleft⟩ : ∃ i i' j, i < d.copyW srcX dstX w ∧
      i' < d.copyW srcX dstX w ∧ j < d.copyH srcY dstY h ∧ srcX + i' = dstX + i ∧ srcY + j = dstY ∧
      (0 < j ∨ j = 0 ∧ i = 0 ∧ 0 < i') ∧ (dstY = srcY → i = 0) :=
    ⟨srcX - dstX, dstX - srcX, dstY - srcY, by omega, by omega, by omega, by omega, by omega,
      by omega, by omega⟩
  refine ⟨i, i', j, copied_iff.mpr ⟨hi', hj⟩, copied_iff.mpr ⟨hi, by omega⟩, hcol, hrow,
    fun m => ?_⟩
  rw [view_copyRect hsrc hdst]
  have hsub := steps_sublist srcX srcY dstX dstY hi hi' hj hlater
  have hread : copyStep srcX srcY dstX dstY i' j = ((dstX + i', dstY + j), (dstX + i, dstY + 0)) := by
    rw [copyStep, hcol, hrow]
    rfl
  rw [hread] at hsub
  refine assigns_passed_on copySteps_nodup ?_ hsub
  refine copySteps_pairwise fun x y x' y' hx _ _ _ hlt heq hclash => ?_
  have hfirst := congrArg Prod.fst heq
  simp only [copyStep, Prod.mk.injEq] at hfirst hclash
  omega

theorem value_zero (d : Display) (x y : Nat) : d.value (fun _ => 0) x y = 0 := by
  have hbytes : d.value (fun _ => 0) x y = 0 % 2 ^ (8 * d.bytesPerPixel) :=
    pixelValue_bytes fun k _ => by
      rw [byte, Nat.zero_div]
      rfl
  rwa [Nat.zero_mod] at hbytes

theorem copyRect_exact_iff (d : Display) (srcX srcY dstX dstY w h : Nat) :
    d.CopiesExactly srcX srcY dstX dstY w h ↔
      d.Blank ∨ InOrder (d.copyW srcX dstX w) (d.copyH srcY dstY h) srcX srcY dstX dstY := by
  constructor
  · intro hcopy
    by_contra hcond
    obtain ⟨hblank, hord⟩ := not_or.mp hcond
    have hin : d.Inside srcX srcY ∧ d.Inside dstX dstY := by
      unfold InOrder copyW copyH at hord
      exact ⟨⟨by omega, by omega⟩, ⟨by omega, by omega⟩⟩
    obtain ⟨p, hp, hshown⟩ := exists_shown hblank
    obtain ⟨i, i', j, hlast, hfirst, hcol, hrow, hpassed⟩ :=
      view_copyRect_passed_on hin.1 hin.2 hord
    obtain ⟨-, -, hfrom, hto⟩ := hfirst
    have hapart : ¬(srcX + i = dstX + i ∧ srcY + 0 = dstY + 0) := by
      unfold InOrder at hord
      omega
    -- one pixel of the source in a colour of its own
    have hread := hcopy.pixels
      (d.vesaPutPixel (fun _ => 0) (srcX + i) (srcY + 0) (unpackColor d.mode p)) i' j hlast
    have hgot := hpassed (d.vesaPutPixel (fun _ => 0) (srcX + i) (srcY + 0) (unpackColor d.mode p))
    simp only [view] at hgot
    rw [hgot, hcol, hrow] at hread
    refine hshown ?_
    calc unpackColor d.mode p
        = d.vesaGetPixel (d.vesaPutPixel (fun _ => 0) (srcX + i) (srcY + 0) (unpackColor d.mode p))
            (srcX + i) (srcY + 0) := by
          rw [getPixel_put hfrom, unpackColor_put_back d.mode d.bytes_le hp]
      _ = d.vesaGetPixel (d.vesaPutPixel (fun _ => 0) (srcX + i) (srcY + 0) (unpackColor d.mode p))
            (dstX + i) (dstY + 0) := hread
      _ = unpackColor d.mode 0 := by
          rw [getPixel_eq hto, value_put_other hfrom hto hapart, value_zero]
  · rintro (hblank | hord)
    · refine ⟨fun m i j hij => ?_, fun m o ho => copyRect_frame m o ho⟩
      obtain ⟨-, -, hsrc, hdst⟩ := hij
      rw [hblank.getPixel hsrc, hblank.getPixel hdst]
    · refine ⟨fun m i j hij => ?_, fun m o ho => copyRect_frame m o ho⟩
      have hsrc := hij.2.2.1
      have hdst := hij.2.2.2
      exact view_copyRect_inOrder ⟨Nat.lt_of_le_of_lt (Nat.le_add_right _ _) hsrc.col,
        Nat.lt_of_le_of_lt (Nat.le_add_right _ _) hsrc.row⟩
        ⟨Nat.lt_of_le_of_lt (Nat.le_add_right _ _) hdst.col,
        Nat.lt_of_le_of_lt (Nat.le_add_right _ _) hdst.row⟩ m hij hord

-- three pixels moved right by one: the first is repeated
theorem copyRect_smears : ¬(screen8888 .deg0).CopiesExactly 0 0 1 0 3 1 ∧
    ¬(screen8888 .deg180).CopiesExactly 0 0 1 0 3 1 := by
  refine ⟨fun hcopy => ?_, fun hcopy => ?_⟩
  · exact absurd (hcopy.pixels (fun o => UInt8.ofNat o) 1 0
      ⟨by decide, by decide, ⟨by decide, by decide⟩, ⟨by decide, by decide⟩⟩) (by decide)
  · exact absurd (hcopy.pixels (fun o => UInt8.ofNat o) 1 0
      ⟨by decide, by decide, ⟨by decide, by decide⟩, ⟨by decide, by decide⟩⟩) (by decide)

end Display

end HouseOS.Vesa
