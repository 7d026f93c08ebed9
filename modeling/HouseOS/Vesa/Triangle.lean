import HouseOS.Vesa.Line

namespace HouseOS.Vesa

open HouseOS.ByteMem HouseOS.Signed HouseOS.Word

structure Vertex where
  x : Nat
  y : Nat
  deriving DecidableEq

structure Triangle where
  top : Vertex
  middle : Vertex
  bottom : Vertex

def exchange (a b : Vertex) : Vertex × Vertex := if b.y < a.y then (b, a) else (a, b)

def sortVertices (v1 v2 v3 : Vertex) : Triangle :=
  let p := exchange v1 v2
  let q := exchange p.1 v3
  let r := exchange p.2 q.2
  ⟨q.1, r.1, r.2⟩

-- the column of the edge from `a` to `b` on line `y`; `none` is the division by zero
def edgeColumn (a b : Vertex) (y : Nat) : Option Nat :=
  if sub32 b.y a.y = 0 then none
  else some (add32 a.x (mul32 (sub32 b.x a.x) (sub32 y a.y) / sub32 b.y a.y))

namespace Triangle

variable (t : Triangle)

def shortColumn (y : Nat) : Option Nat :=
  if y < t.middle.y then edgeColumn t.top t.middle y
  else if t.middle.y = t.bottom.y then some t.middle.x
  else edgeColumn t.middle t.bottom y

def span (y : Nat) : Option (Nat × Nat) := do
  let xa ← t.shortColumn y
  let xb ← edgeColumn t.top t.bottom y
  some (if int32 xb < int32 xa then (xb, xa) else (xa, xb))

-- `fuel` bounds the scan lines and the rounds of each line
def scanLines {σ : Type} (put : σ → Nat → Nat → σ) (lineFuel : Nat) : Nat → Nat → σ → Option σ
  | 0, _, _ => none
  | fuel + 1, y, m =>
      if y ≤ t.bottom.y then do
        let s ← t.span y
        let m ← drawLine put s.1 y s.2 y lineFuel m
        scanLines put lineFuel fuel (add32 y 1) m
      else some m

end Triangle

def drawTriangle {σ : Type} (put : σ → Nat → Nat → σ) (v1 v2 v3 : Vertex) (filled : Bool)
    (fuel : Nat) (m : σ) : Option σ :=
  if filled then
    let t := sortVertices v1 v2 v3
    t.scanLines put fuel fuel t.top.y m
  else do
    let m ← drawLine put v1.x v1.y v2.x v2.y fuel m
    let m ← drawLine put v2.x v2.y v3.x v3.y fuel m
    drawLine put v3.x v3.y v1.x v1.y fuel m

def Display.vesaDrawTriangle (d : Display) (m : Mem) (v1 v2 v3 : Vertex) (color : Nat)
    (filled : Bool) (fuel : Nat) : Option Mem :=
  drawTriangle (fun m x y => d.vesaPutPixel m x y color) v1 v2 v3 filled fuel m

def trianglePlots (v1 v2 v3 : Vertex) (filled : Bool) (fuel : Nat) : Option (List (Nat × Nat)) :=
  drawTriangle (fun ps x y => ps ++ [(x, y)]) v1 v2 v3 filled fuel []

section Sorting

variable (v1 v2 v3 : Vertex)

def Triangle.vertices (t : Triangle) : List Vertex := [t.top, t.middle, t.bottom]

theorem exchange_perm (a b : Vertex) : [(exchange a b).1, (exchange a b).2].Perm [a, b] := by
  rw [exchange]
  split
  next => exact List.Perm.swap a b []
  next => exact List.Perm.refl _

theorem exchange_y (a b : Vertex) :
    (exchange a b).1.y = min a.y b.y ∧ (exchange a b).2.y = max a.y b.y := by
  rw [exchange]
  split <;> dsimp only <;> omega

theorem sortVertices_perm : (sortVertices v1 v2 v3).vertices.Perm [v1, v2, v3] := by
  have h12 := exchange_perm v1 v2
  have h13 := exchange_perm (exchange v1 v2).1 v3
  have h23 := exchange_perm (exchange v1 v2).2 (exchange (exchange v1 v2).1 v3).2
  refine (h23.cons _).trans ?_
  refine (List.Perm.swap _ _ _).trans ?_
  refine (h13.cons _).trans ?_
  exact (List.Perm.swap _ _ _).trans ((List.perm_append_right_iff [v3]).mpr h12)

theorem sortVertices_sorted :
    (sortVertices v1 v2 v3).top.y ≤ (sortVertices v1 v2 v3).middle.y ∧
      (sortVertices v1 v2 v3).middle.y ≤ (sortVertices v1 v2 v3).bottom.y := by
  have h12 := exchange_y v1 v2
  have h13 := exchange_y (exchange v1 v2).1 v3
  have h23 := exchange_y (exchange v1 v2).2 (exchange (exchange v1 v2).1 v3).2
  simp only [sortVertices]
  omega

end Sorting

section Edges

variable {a b : Vertex} {y : Nat}

def Vertex.interpolate (a b : Vertex) (y : Nat) : Int :=
  a.x + (((b.x : Int) - a.x) * ((y : Int) - a.y)).tdiv ((b.y : Int) - a.y)

-- where the unsigned difference of the columns does no harm
def Vertex.Rightward (a b : Vertex) : Prop := a.x ≤ b.x ∨ b.y ≤ a.y + 1

structure Vertex.Small (a : Vertex) : Prop where
  x : a.x < 2 ^ 16 - 1
  y : a.y < 2 ^ 16 - 1

theorem interpolate_right (hx : a.x ≤ b.x) (hy : a.y ≤ y) (hb : y ≤ b.y) :
    a.interpolate b y = (a.x + (b.x - a.x) * (y - a.y) / (b.y - a.y) : Nat) := by
  rw [Vertex.interpolate, ← Int.natCast_sub hx, ← Int.natCast_sub hy,
    ← Int.natCast_sub (Nat.le_trans hy hb), ← Int.natCast_mul, ← Int.ofNat_tdiv, Int.natCast_add]

theorem interpolate_left (hx : b.x ≤ a.x) (hy : a.y ≤ y) (hb : y ≤ b.y) :
    a.interpolate b y = a.x - ((a.x - b.x) * (y - a.y) / (b.y - a.y) : Nat) := by
  have hneg : ((b.x : Int) - a.x) = -((a.x - b.x : Nat) : Int) := by omega
  rw [Vertex.interpolate, hneg, ← Int.natCast_sub hy, ← Int.natCast_sub (Nat.le_trans hy hb),
    Int.neg_mul, ← Int.natCast_mul, Int.neg_tdiv, ← Int.ofNat_tdiv]
  rfl

theorem share_le {d k h : Nat} (hk : k ≤ h) : d * k / h ≤ d :=
  Nat.div_le_of_le_mul ((Nat.mul_le_mul_left d hk).trans_eq (Nat.mul_comm d h))

theorem interpolate_lt (ha : a.Small) (hb : b.Small) (hy : a.y ≤ y) (hyb : y ≤ b.y) :
    a.interpolate b y < 2 ^ 16 - 1 := by
  have hax := ha.x
  have hbx := hb.x
  rcases Nat.le_total a.x b.x with hx | hx
  · have hshare : (b.x - a.x) * (y - a.y) / (b.y - a.y) ≤ b.x - a.x := share_le (by omega)
    rw [interpolate_right hx hy hyb]
    omega
  · rw [interpolate_left hx hy hyb]
    exact Int.lt_of_le_of_lt (Int.sub_le_self _ (Int.natCast_nonneg _)) (by omega)

theorem edgeColumn_rightward (ha : a.Small) (hb : b.Small) (hedge : a.Rightward b) (hy : a.y ≤ y)
    (hyb : y ≤ b.y) (hlt : a.y < b.y) :
    ∃ v < 2 ^ 16 - 1, edgeColumn a b y = some v ∧ a.interpolate b y = v := by
  have hax := ha.x
  have hay := ha.y
  have hbx := hb.x
  have hby := hb.y
  have hh : sub32 b.y a.y = b.y - a.y := sub32_eq (by omega) (by omega)
  have hk : sub32 y a.y = y - a.y := sub32_eq (by omega) hy
  rw [edgeColumn, if_neg (by omega), hh, hk]
  rcases Nat.le_total a.x b.x with hx | hx
  · have hshare : (b.x - a.x) * (y - a.y) / (b.y - a.y) ≤ b.x - a.x := share_le (by omega)
    have hprod : (b.x - a.x) * (y - a.y) < 2 ^ 32 :=
      Nat.lt_of_le_of_lt (Nat.mul_le_mul (show b.x - a.x ≤ 2 ^ 16 - 1 by omega)
        (show y - a.y ≤ 2 ^ 16 - 1 by omega)) (by decide)
    refine ⟨a.x + (b.x - a.x) * (y - a.y) / (b.y - a.y), by omega, ?_, interpolate_right hx hy hyb⟩
    rw [sub32_eq (show b.x < 2 ^ 32 by omega) hx, mul32, Nat.mod_eq_of_lt hprod,
      add32_eq (by omega)]
  · rw [interpolate_left hx hy hyb]
    rcases Nat.eq_or_lt_of_le hx with heq | hlt'
    · refine ⟨a.x, by omega, ?_, ?_⟩
      · rw [heq, sub32_eq (show a.x < 2 ^ 32 by omega) (Nat.le_refl _), Nat.sub_self, mul32,
          Nat.zero_mul, Nat.zero_mod, Nat.zero_div, add32_eq (by omega), Nat.add_zero]
      · rw [heq, Nat.sub_self, Nat.zero_mul, Nat.zero_div]
        omega
    · have hone : b.y - a.y = 1 := by
        rcases hedge with hright | hshort <;> omega
      rw [hone, Nat.div_one, Nat.div_one]
      obtain hzero | hfull : y - a.y = 0 ∨ y - a.y = 1 := by omega
      · rw [hzero, Nat.mul_zero, mul32, Nat.mul_zero, Nat.zero_mod, add32_eq (by omega)]
        exact ⟨a.x, hax, rfl, by omega⟩
      · rw [hfull, Nat.mul_one, mul32, Nat.mul_one]
        refine ⟨b.x, hbx, ?_, by omega⟩
        simp only [add32, sub32, Option.some.injEq]
        omega

-- an edge to the left over more than one line leaves the screen on its second line
theorem edgeColumn_leftward (ha : a.Small) (hb : b.Small) (hedge : ¬a.Rightward b) :
    ∃ v, edgeColumn a b (a.y + 1) = some v ∧ 2 ^ 16 ≤ v ∧ v < 2 ^ 32 := by
  have hax := ha.x
  have hby := hb.y
  simp only [Vertex.Rightward, not_or, Nat.not_le] at hedge
  have hh : sub32 b.y a.y = b.y - a.y := sub32_eq (by omega) (by omega)
  have hk : sub32 (a.y + 1) a.y = 1 := by
    rw [sub32_eq (by omega) (by omega)]
    omega
  have hd : sub32 b.x a.x = 2 ^ 32 - (a.x - b.x) := by
    simp only [sub32]
    omega
  rw [edgeColumn, if_neg (by omega), hh, hk, hd, mul32, Nat.mul_one,
    Nat.mod_eq_of_lt (show 2 ^ 32 - (a.x - b.x) < 2 ^ 32 by omega)]
  have hlower : 2 ^ 16 ≤ (2 ^ 32 - (a.x - b.x)) / (b.y - a.y) := by
    rw [Nat.le_div_iff_mul_le (by omega)]
    omega
  have hupper : (2 ^ 32 - (a.x - b.x)) / (b.y - a.y) ≤ 2 ^ 31 := by
    refine Nat.div_le_of_le_mul ?_
    omega
  refine ⟨_, rfl, ?_⟩
  rw [add32_eq (by omega)]
  omega

end Edges

section Rows

variable {t : Triangle} {y : Nat}

namespace Triangle

def short (t : Triangle) (y : Nat) : Int :=
  if y < t.middle.y then t.top.interpolate t.middle y
  else if t.middle.y = t.bottom.y then t.middle.x
  else t.middle.interpolate t.bottom y

def long (t : Triangle) (y : Nat) : Int := t.top.interpolate t.bottom y

def Covers (t : Triangle) (x y : Nat) : Prop :=
  t.top.y ≤ y ∧ y ≤ t.bottom.y ∧ Between (t.short y) (t.long y) x

structure Placed (t : Triangle) : Prop where
  top : t.top.Small
  middle : t.middle.Small
  bottom : t.bottom.Small
  upper : t.top.y ≤ t.middle.y
  lower : t.middle.y ≤ t.bottom.y

structure Drawable (t : Triangle) : Prop where
  height : t.top.y < t.bottom.y
  long : t.top.Rightward t.bottom
  upper : t.top.Rightward t.middle
  lower : t.middle.Rightward t.bottom

theorem span_eq (t : Triangle) (y : Nat) : t.span y = (t.shortColumn y).bind fun xa =>
    (edgeColumn t.top t.bottom y).bind fun xb =>
      some (if int32 xb < int32 xa then (xb, xa) else (xa, xb)) := rfl

theorem Placed.short_lt (h : t.Placed) (hy : t.top.y ≤ y) (hyb : y ≤ t.bottom.y) :
    t.short y < 2 ^ 16 - 1 := by
  rw [short]
  split
  next hlt => exact interpolate_lt h.top h.middle hy (Nat.le_of_lt hlt)
  next hge =>
    split
    next =>
      have hx := h.middle.x
      omega
    next => exact interpolate_lt h.middle h.bottom (Nat.le_of_not_lt hge) hyb

theorem Placed.long_lt (h : t.Placed) (hy : t.top.y ≤ y) (hyb : y ≤ t.bottom.y) :
    t.long y < 2 ^ 16 - 1 :=
  interpolate_lt h.top h.bottom hy hyb

theorem Placed.shortColumn_exact (h : t.Placed) (hd : t.Drawable) (hy : t.top.y ≤ y)
    (hyb : y ≤ t.bottom.y) : ∃ v < 2 ^ 16 - 1, t.shortColumn y = some v ∧ t.short y = v := by
  have hlower := h.lower
  rw [shortColumn, short]
  split
  next hlt =>
    exact edgeColumn_rightward h.top h.middle hd.upper hy (Nat.le_of_lt hlt)
      (Nat.lt_of_le_of_lt hy hlt)
  next hge =>
    split
    next => exact ⟨t.middle.x, h.middle.x, rfl, rfl⟩
    next hne =>
      exact edgeColumn_rightward h.middle h.bottom hd.lower (Nat.le_of_not_lt hge) hyb
        (Nat.lt_of_le_of_ne h.lower hne)

theorem Placed.span_exact (h : t.Placed) (hd : t.Drawable) (hy : t.top.y ≤ y)
    (hyb : y ≤ t.bottom.y) :
    ∃ l r, t.span y = some (l, r) ∧ l ≤ r ∧ r < 2 ^ 16 - 1 ∧
      ∀ x : Nat, Between (t.short y) (t.long y) x ↔ l ≤ x ∧ x ≤ r := by
  obtain ⟨xa, hxa, hshort, hshort'⟩ := h.shortColumn_exact hd hy hyb
  obtain ⟨xb, hxb, hlong, hlong'⟩ :=
    edgeColumn_rightward h.top h.bottom hd.long hy hyb hd.height
  have ha : int32 xa = xa := int32_of_range (by omega) (by omega)
  have hb : int32 xb = xb := int32_of_range (by omega) (by omega)
  rw [span_eq, hshort, hlong, Option.bind_some, Option.bind_some, ha, hb, long, hshort', hlong']
  simp only [Between]
  by_cases hlt : (xb : Int) < xa
  · rw [if_pos hlt]
    exact ⟨xb, xa, rfl, by omega, hxa, fun x => by omega⟩
  · rw [if_neg hlt]
    exact ⟨xa, xb, rfl, by omega, hxb, fun x => by omega⟩

end Triangle

end Rows

section Scan

variable {t : Triangle} {y lineFuel fuel : Nat} {qs ps : List (Nat × Nat)}

abbrev snoc (ps : List (Nat × Nat)) (x y : Nat) : List (Nat × Nat) := ps ++ [(x, y)]

theorem drawLine_snoc {x1 y1 x2 y2 fuel' : Nat} (h : linePlots x1 y1 x2 y2 fuel = some ps)
    (hfuel : fuel ≤ fuel') : drawLine snoc x1 y1 x2 y2 fuel' qs = some (qs ++ ps) := by
  rw [drawLine_eq h hfuel, foldl_plots]

theorem linePlots_of_drawLine {x1 y1 x2 y2 : Nat} (h : drawLine snoc x1 y1 x2 y2 fuel qs = some ps) :
    ∃ rs, linePlots x1 y1 x2 y2 fuel = some rs ∧ ps = qs ++ rs := by
  obtain ⟨n, hn, hstop⟩ := Line.stopsAt_of_lineLoop h
  have hline : linePlots x1 y1 x2 y2 fuel = some _ := Line.lineLoop_of_stopsAt hstop hn
  exact ⟨_, hline, Option.some.inj (h.symm.trans (drawLine_snoc hline (Nat.le_refl _)))⟩

theorem scanLines_exact (h : t.Placed) (hd : t.Drawable) (hline : 2 ^ 16 ≤ lineFuel) (n : Nat) :
    ∀ fuel y qs, y + n = t.bottom.y + 1 → t.top.y ≤ y → n < fuel →
      ∃ ps, t.scanLines snoc lineFuel fuel y qs = some ps ∧
        ∀ p, p ∈ ps ↔ p ∈ qs ∨ y ≤ p.2 ∧ t.Covers p.1 p.2 := by
  induction n with
  | zero =>
    intro fuel y qs hn hy hfuel
    obtain ⟨fuel, rfl⟩ : ∃ k, fuel = k + 1 := ⟨fuel - 1, by omega⟩
    refine ⟨qs, if_neg (by omega), fun p => ⟨Or.inl, ?_⟩⟩
    rintro (hp | ⟨hp, -, hp', -⟩)
    · exact hp
    · omega
  | succ n ih =>
    intro fuel y qs hn hy hfuel
    obtain ⟨fuel, rfl⟩ : ∃ k, fuel = k + 1 := ⟨fuel - 1, by omega⟩
    have hbottom := h.bottom.y
    obtain ⟨l, r, hspan, hle, hr, hcovers⟩ := h.span_exact hd hy (show y ≤ t.bottom.y by omega)
    have hplots := linePlots_horizontal hle (show r < 2 ^ 29 by omega) (show y < 2 ^ 32 by omega)
    have hnext : add32 y 1 = y + 1 := add32_eq (by omega)
    obtain ⟨ps, hps, hmem⟩ := ih fuel (y + 1)
      (qs ++ (List.range (r - l + 1)).map fun k => (l + k, y)) (by omega) (by omega) (by omega)
    refine ⟨ps, ?_, fun p => ?_⟩
    · rw [Triangle.scanLines, if_pos (by omega), hspan]
      simp only [Option.bind_eq_bind, Option.bind_some]
      rw [drawLine_snoc hplots (by omega), Option.bind_some, hnext, hps]
    · rw [hmem, List.mem_append, or_assoc]
      refine or_congr_right ?_
      obtain ⟨x, y'⟩ := p
      simp only [List.mem_map, List.mem_range, Prod.mk.injEq, Triangle.Covers]
      constructor
      · rintro (⟨k, hk, rfl, rfl⟩ | ⟨hy', hc⟩)
        · exact ⟨Nat.le_refl _, hy, by omega, (hcovers _).mpr (by omega)⟩
        · exact ⟨by omega, hc⟩
      · rintro ⟨hy', hc⟩
        rcases Nat.eq_or_lt_of_le hy' with rfl | hlt
        · have hx := (hcovers x).mp hc.2.2
          exact Or.inl ⟨x - l, by omega, by omega, rfl⟩
        · exact Or.inr ⟨hlt, hc⟩

theorem scanLines_ends (hbottom : t.bottom.y < 2 ^ 32 - 1) :
    ∀ fuel y qs, t.scanLines snoc lineFuel fuel y qs = some ps → qs ⊆ ps ∧
      ∀ y', y ≤ y' → y' ≤ t.bottom.y → ∃ s, t.span y' = some s ∧ (s.1, y') ∈ ps ∧ (s.2, y') ∈ ps := by
  intro fuel
  induction fuel with
  | zero => exact fun y qs h => nomatch h
  | succ fuel ih =>
    intro y qs h
    rw [Triangle.scanLines] at h
    split at h
    next hle =>
      simp only [Option.bind_eq_bind, Option.bind_eq_some_iff] at h
      obtain ⟨s, hspan, m, hline, hrest⟩ := h
      obtain ⟨rs, hplots, rfl⟩ := linePlots_of_drawLine hline
      obtain ⟨hsub, hrows⟩ := ih _ _ hrest
      rw [add32_eq (show y + 1 < 2 ^ 32 by omega)] at hrows
      obtain ⟨hfirst, hlast⟩ := ends_plotted hplots
      refine ⟨fun p hp => hsub (List.mem_append_left _ hp), fun y' hy' hyb => ?_⟩
      rcases Nat.eq_or_lt_of_le hy' with rfl | hlt
      · exact ⟨s, hspan, hsub (List.mem_append_right _ hfirst), hsub (List.mem_append_right _ hlast)⟩
      · exact hrows y' hlt hyb
    next hgt =>
      obtain rfl := Option.some.inj h
      exact ⟨fun p hp => hp, fun y' hy' hyb => by omega⟩

end Scan

section Filled

variable {d : Display} {v1 v2 v3 : Vertex} {t : Triangle}

def Display.OnScreen (d : Display) (v : Vertex) : Prop :=
  v.x < d.vesaLogicalWidth ∧ v.y < d.vesaLogicalHeight

-- the fill ends without a division by zero, and plots just what lies between the edges
def FillsTriangle (v1 v2 v3 : Vertex) : Prop :=
  ∃ fuel ps, trianglePlots v1 v2 v3 true fuel = some ps ∧
    ∀ p, p ∈ ps ↔ (sortVertices v1 v2 v3).Covers p.1 p.2

theorem trianglePlots_filled (v1 v2 v3 : Vertex) (fuel : Nat) :
    trianglePlots v1 v2 v3 true fuel =
      (sortVertices v1 v2 v3).scanLines snoc fuel fuel (sortVertices v1 v2 v3).top.y [] := by
  rw [trianglePlots, drawTriangle, if_pos rfl]

theorem Display.OnScreen.small {v : Vertex} (h : d.OnScreen v) : v.Small := by
  have hw := d.mode.width.toNat_lt
  have hh := d.mode.height.toNat_lt
  have hx := h.1
  have hy := h.2
  simp only [vesaLogicalWidth, vesaLogicalHeight, vesaPhysWidth, vesaPhysHeight] at hx hy
  constructor
  · split at hx <;> omega
  · split at hy <;> omega

theorem placed_sortVertices (h1 : v1.Small) (h2 : v2.Small) (h3 : v3.Small) :
    (sortVertices v1 v2 v3).Placed := by
  have hsmall : ∀ v ∈ (sortVertices v1 v2 v3).vertices, v.Small := by
    intro v hv
    have hv' := (sortVertices_perm v1 v2 v3).mem_iff.mp hv
    simp only [List.mem_cons, List.not_mem_nil, or_false] at hv'
    rcases hv' with rfl | rfl | rfl
    · exact h1
    · exact h2
    · exact h3
  obtain ⟨hupper, hlower⟩ := sortVertices_sorted v1 v2 v3
  exact ⟨hsmall _ (by simp [Triangle.vertices]), hsmall _ (by simp [Triangle.vertices]),
    hsmall _ (by simp [Triangle.vertices]), hupper, hlower⟩

theorem Triangle.Placed.not_plotted (h : t.Placed) {ps : List (Nat × Nat)}
    (hexact : ∀ p, p ∈ ps ↔ t.Covers p.1 p.2) {v y : Nat} (hv : 2 ^ 16 ≤ v) : (v, y) ∉ ps := by
  intro hp
  obtain ⟨hy, hyb, hbetween⟩ : t.Covers v y := (hexact _).mp hp
  have hshort := h.short_lt hy hyb
  have hlong := h.long_lt hy hyb
  simp only [Between] at hbetween
  omega

theorem drawable_of_plots (h : t.Placed) {ps : List (Nat × Nat)}
    (hrows : ∀ y, t.top.y ≤ y → y ≤ t.bottom.y →
      ∃ s, t.span y = some s ∧ (s.1, y) ∈ ps ∧ (s.2, y) ∈ ps)
    (hexact : ∀ p, p ∈ ps ↔ t.Covers p.1 p.2) : t.Drawable := by
  have hupper := h.upper
  have hlower := h.lower
  have hbottom := h.bottom.y
  have hcolumns (y : Nat) (hy : t.top.y ≤ y) (hyb : y ≤ t.bottom.y) :
      ∃ xa xb, t.shortColumn y = some xa ∧ edgeColumn t.top t.bottom y = some xb ∧
        (xa, y) ∈ ps ∧ (xb, y) ∈ ps := by
    obtain ⟨s, hspan, hfirst, hlast⟩ := hrows y hy hyb
    rw [Triangle.span_eq] at hspan
    simp only [Option.bind_eq_some_iff, Option.some.injEq] at hspan
    obtain ⟨xa, hxa, xb, hxb, rfl⟩ := hspan
    refine ⟨xa, xb, hxa, hxb, ?_⟩
    split at hfirst
    next hlt =>
      rw [if_pos hlt] at hlast
      exact ⟨hlast, hfirst⟩
    next hge =>
      rw [if_neg hge] at hlast
      exact ⟨hfirst, hlast⟩
  refine ⟨?_, ?_, ?_, ?_⟩
  · by_contra hflat
    obtain ⟨-, xb, -, hxb, -⟩ := hcolumns t.top.y (Nat.le_refl _) (by omega)
    have hzero : sub32 t.bottom.y t.top.y = 0 := by
      rw [sub32_eq (by omega) (by omega)]
      omega
    rw [edgeColumn, if_pos hzero] at hxb
    exact nomatch hxb
  · by_contra hleft
    obtain ⟨v, hv, hbig, -⟩ := edgeColumn_leftward h.top h.bottom hleft
    simp only [Vertex.Rightward, not_or, Nat.not_le] at hleft
    obtain ⟨-, xb, -, hxb, -, hplot⟩ := hcolumns (t.top.y + 1) (by omega) (by omega)
    obtain rfl := Option.some.inj (hv.symm.trans hxb)
    exact h.not_plotted hexact hbig hplot
  · by_contra hleft
    obtain ⟨v, hv, hbig, -⟩ := edgeColumn_leftward h.top h.middle hleft
    simp only [Vertex.Rightward, not_or, Nat.not_le] at hleft
    obtain ⟨xa, -, hxa, -, hplot, -⟩ := hcolumns (t.top.y + 1) (by omega) (by omega)
    rw [Triangle.shortColumn, if_pos (by omega)] at hxa
    obtain rfl := Option.some.inj (hv.symm.trans hxa)
    exact h.not_plotted hexact hbig hplot
  · by_contra hleft
    obtain ⟨v, hv, hbig, -⟩ := edgeColumn_leftward h.middle h.bottom hleft
    simp only [Vertex.Rightward, not_or, Nat.not_le] at hleft
    obtain ⟨xa, -, hxa, -, hplot, -⟩ := hcolumns (t.middle.y + 1) (by omega) (by omega)
    rw [Triangle.shortColumn, if_neg (by omega), if_neg (by omega)] at hxa
    obtain rfl := Option.some.inj (hv.symm.trans hxa)
    exact h.not_plotted hexact hbig hplot

theorem fillsTriangle_iff (d : Display) (v1 v2 v3 : Vertex) (h1 : d.OnScreen v1)
    (h2 : d.OnScreen v2) (h3 : d.OnScreen v3) :
    FillsTriangle v1 v2 v3 ↔ (sortVertices v1 v2 v3).Drawable := by
  have h := placed_sortVertices h1.small h2.small h3.small
  have hupper := h.upper
  have hlower := h.lower
  have hbottom := h.bottom.y
  constructor
  · rintro ⟨fuel, ps, hps, hexact⟩
    rw [trianglePlots_filled] at hps
    exact drawable_of_plots h (scanLines_ends (by omega) _ _ _ hps).2 hexact
  · intro hd
    obtain ⟨ps, hps, hmem⟩ := scanLines_exact h hd (Nat.le_refl (2 ^ 16))
      ((sortVertices v1 v2 v3).bottom.y + 1 - (sortVertices v1 v2 v3).top.y) (2 ^ 16)
      (sortVertices v1 v2 v3).top.y [] (by omega) (Nat.le_refl _) (by omega)
    refine ⟨2 ^ 16, ps, (trianglePlots_filled v1 v2 v3 _).trans hps, fun p => ?_⟩
    rw [hmem]
    constructor
    · rintro (hp | ⟨-, hc⟩)
      · exact absurd hp List.not_mem_nil
      · exact hc
    · exact fun hc => Or.inr ⟨hc.1, hc⟩

theorem fillsTriangle_onscreen : FillsTriangle ⟨0, 0⟩ ⟨3, 1⟩ ⟨1, 1⟩ :=
  (fillsTriangle_iff (screen8888 .deg0) ⟨0, 0⟩ ⟨3, 1⟩ ⟨1, 1⟩ ⟨by decide, by decide⟩
    ⟨by decide, by decide⟩ ⟨by decide, by decide⟩).mpr
    ⟨by decide, Or.inl (by decide), Or.inl (by decide), Or.inr (by decide)⟩

def screen640 : Display :=
  { signature := Words.byteText "VESA", mode := mode8888 640 480, bytesPerPixel := 4,
    rotation := .deg0, accepted := by decide }

-- three vertices on one line divide by zero; an edge to the left leaves the screen
theorem triangle_not_filled :
    ((screen640.OnScreen ⟨1, 7⟩ ∧ screen640.OnScreen ⟨5, 7⟩ ∧ screen640.OnScreen ⟨9, 7⟩) ∧
      (∀ fuel, trianglePlots ⟨1, 7⟩ ⟨5, 7⟩ ⟨9, 7⟩ true (fuel + 1) = none) ∧
      ¬FillsTriangle ⟨1, 7⟩ ⟨5, 7⟩ ⟨9, 7⟩) ∧
    (screen640.OnScreen ⟨320, 100⟩ ∧ screen640.OnScreen ⟨220, 300⟩ ∧
      screen640.OnScreen ⟨420, 300⟩) ∧ ¬FillsTriangle ⟨320, 100⟩ ⟨220, 300⟩ ⟨420, 300⟩ := by
  have hflat (fuel : Nat) : trianglePlots ⟨1, 7⟩ ⟨5, 7⟩ ⟨9, 7⟩ true (fuel + 1) = none := by
    rw [trianglePlots_filled, Triangle.scanLines, if_pos (by decide)]
    rfl
  refine ⟨⟨⟨⟨by decide, by decide⟩, ⟨by decide, by decide⟩, ⟨by decide, by decide⟩⟩, hflat, ?_⟩,
    ⟨⟨by decide, by decide⟩, ⟨by decide, by decide⟩, ⟨by decide, by decide⟩⟩, ?_⟩
  · rintro ⟨fuel, ps, hps, -⟩
    cases fuel with
    | zero => exact nomatch hps
    | succ fuel =>
      rw [hflat] at hps
      exact nomatch hps
  · rintro ⟨fuel, ps, hps, hexact⟩
    rw [trianglePlots_filled] at hps
    have h : (sortVertices ⟨320, 100⟩ ⟨220, 300⟩ ⟨420, 300⟩).Placed :=
      placed_sortVertices ⟨by decide, by decide⟩ ⟨by decide, by decide⟩ ⟨by decide, by decide⟩
    have hd := drawable_of_plots h (scanLines_ends (by decide) _ _ _ hps).2 hexact
    have hupper := hd.upper
    exact absurd hupper (by simp only [Vertex.Rightward]; decide)

end Filled

section Memory

variable {σ : Type} {put : σ → Nat → Nat → σ} {t : Triangle} {lineFuel fuel : Nat}
  {ps : List (Nat × Nat)}

theorem scanLines_put (put : σ → Nat → Nat → σ) :
    ∀ fuel y qs (m : σ), t.scanLines snoc lineFuel fuel y qs = some ps → ∃ rs, ps = qs ++ rs ∧
      t.scanLines put lineFuel fuel y m = some (rs.foldl (fun m p => put m p.1 p.2) m) := by
  intro fuel
  induction fuel with
  | zero => exact fun y qs m h => nomatch h
  | succ fuel ih =>
    intro y qs m h
    rw [Triangle.scanLines] at h ⊢
    split at h
    next hle =>
      simp only [Option.bind_eq_bind, Option.bind_eq_some_iff] at h
      obtain ⟨s, hspan, m', hline, hrest⟩ := h
      obtain ⟨rs, hplots, rfl⟩ := linePlots_of_drawLine hline
      obtain ⟨rs', rfl, hput⟩ := ih _ _ (rs.foldl (fun m p => put m p.1 p.2) m) hrest
      refine ⟨rs ++ rs', List.append_assoc _ _ _, ?_⟩
      rw [if_pos hle, hspan]
      simp only [Option.bind_eq_bind, Option.bind_some]
      rw [drawLine_eq hplots (Nat.le_refl _), Option.bind_some, hput, List.foldl_append]
    next hgt =>
      obtain rfl := Option.some.inj h
      exact ⟨[], (List.append_nil qs).symm, if_neg hgt⟩

theorem drawTriangle_eq {v1 v2 v3 : Vertex} {filled : Bool} {m : σ}
    (h : trianglePlots v1 v2 v3 filled fuel = some ps) :
    drawTriangle put v1 v2 v3 filled fuel m =
      some (ps.foldl (fun m p => put m p.1 p.2) m) := by
  cases filled with
  | true =>
    rw [trianglePlots_filled] at h
    obtain ⟨rs, rfl, hput⟩ := scanLines_put put _ _ [] m h
    rw [drawTriangle, if_pos rfl, hput]
  | false =>
    rw [trianglePlots, drawTriangle, if_neg Bool.false_ne_true] at h
    simp only [Option.bind_eq_bind, Option.bind_eq_some_iff] at h
    obtain ⟨m1, h1, m2, h2, h3⟩ := h
    obtain ⟨r1, hr1, rfl⟩ := linePlots_of_drawLine h1
    obtain ⟨r2, hr2, rfl⟩ := linePlots_of_drawLine h2
    obtain ⟨r3, hr3, rfl⟩ := linePlots_of_drawLine h3
    rw [drawTriangle, if_neg Bool.false_ne_true]
    simp only [Option.bind_eq_bind]
    rw [drawLine_eq hr1 (Nat.le_refl _), Option.bind_some, drawLine_eq hr2 (Nat.le_refl _),
      Option.bind_some, drawLine_eq hr3 (Nat.le_refl _), List.foldl_append, List.foldl_append]

theorem vesaDrawTriangle_eq {v1 v2 v3 : Vertex} {filled : Bool}
    (h : trianglePlots v1 v2 v3 filled fuel = some ps) (d : Display) (m : Mem) (color : Nat) :
    d.vesaDrawTriangle m v1 v2 v3 color filled fuel =
      some (ps.foldl (fun m p => d.vesaPutPixel m p.1 p.2 color) m) :=
  drawTriangle_eq h

end Memory

end HouseOS.Vesa
