import HouseOS.Hgui.Object

namespace HouseOS.Hgui

open HouseOS.Graph (Acyclic addEdge)
open HouseOS.Run (Along along_iff_reached run)
open HouseOS.SinglyLinked (Chain)
open Relation (ReflTransGen TransGen)

inductive EventType where
  | none
  | tick
  | paint
  | key
  | mouseMove
  | mouseButton
  | quit
  deriving DecidableEq

structure Event where
  type : EventType
  targetId : Nat

structure Rect where
  x : Int
  y : Int
  w : Int
  h : Int

structure Layout where
  outer : Rect
  cursorX : Int
  cursorY : Int
  gap : Int
  rowH : Int

def layoutBegin (bounds : Rect) (padding rowH gap : Int) : Layout :=
  ⟨bounds, bounds.x + padding, bounds.y + padding, gap, rowH⟩

def Layout.rowHeight (lay : Layout) (h : Int) : Int := if 0 < h then h else lay.rowH

def Layout.takeRow (lay : Layout) (h : Int) : Rect × Layout :=
  (⟨lay.cursorX, lay.cursorY, lay.outer.w - (lay.cursorX - lay.outer.x) * 2, lay.rowHeight h⟩,
    { lay with cursorY := lay.cursorY + (lay.rowHeight h + lay.gap) })

variable {Obj : Type}

-- the handlers are given the rectangles and leave the links alone
structure Widget (Obj : Type) where
  id : Nat
  visible : Bool
  enabled : Bool
  useVbox : Bool
  itemHeight : Nat
  spacing : Nat
  padding : Nat
  onWidgetEvent : Option ((Obj → Rect) → Event → UInt32)
  onEvent : Option ((Obj → Rect) → Event → UInt32)
  onPaint : Bool

def Widget.accepts (w : Widget Obj) (ev : Event) : Bool :=
  w.visible && w.enabled && (ev.targetId == 0 || ev.targetId == w.id)

def Widget.ownHandled (w : Widget Obj) (rects : Obj → Rect) (ev : Event) : UInt32 :=
  let first :=
    match w.onWidgetEvent with
    | some handler => handler rects ev
    | none => 0
  let second :=
    match w.onEvent with
    | some handler => if first = 0 then handler rects ev else first
    | none => first
  if second = 0 ∧ ev.type = .paint ∧ w.onPaint = true then 1 else second

section Dispatch

variable [DecidableEq Obj] (h : Objects Obj) (ws : Obj → Widget Obj)

def layoutLoop (row : Int) : Nat → Option Obj → Layout → (Obj → Rect) → Option (Obj → Rect)
  | 0, _, _, _ => none
  | _ + 1, none, _, rects => some rects
  | n + 1, some child, lay, rects =>
      layoutLoop row n (h.nextSibling child) (lay.takeRow row).2
        (Function.update rects child (lay.takeRow row).1)

def applyLayout (fuel : Nat) (w : Obj) (rects : Obj → Rect) : Option (Obj → Rect) :=
  if (ws w).useVbox then
    layoutLoop h (ws w).itemHeight fuel (h.firstChild w)
      (layoutBegin (rects w) (ws w).padding (ws w).itemHeight (ws w).spacing) rects
  else some rects

variable (ev : Event)

def laidOut (fuel : Nat) (w : Obj) (rects : Obj → Rect) : Option (Obj → Rect) :=
  if ev.type = .paint ∧ (ws w).useVbox = true then applyLayout h ws fuel w rects else some rects

mutual

def widgetDispatch : Nat → Obj → (Obj → Rect) → Option (UInt32 × (Obj → Rect))
  | 0, _, _ => none
  | n + 1, w, rects =>
      if (ws w).accepts ev then
        (laidOut h ws ev n w rects).bind fun rects' =>
          dispatchLoop n (h.firstChild w) rects' ((ws w).ownHandled rects' ev)
      else some (0, rects)

def dispatchLoop : Nat → Option Obj → (Obj → Rect) → UInt32 → Option (UInt32 × (Obj → Rect))
  | 0, _, _, _ => none
  | _ + 1, none, rects, handled => some (handled, rects)
  | n + 1, some child, rects, handled =>
      (widgetDispatch n child rects).bind fun answer =>
        dispatchLoop n (h.nextSibling child) answer.2 (handled ||| answer.1)

end

def DispatchReturns (w : Obj) : Prop :=
  ∃ n, ∀ fuel, n ≤ fuel → ∀ rects, (widgetDispatch h ws ev fuel w rects).isSome

end Dispatch

section Termination

variable [DecidableEq Obj] {h : Objects Obj} {ws : Obj → Widget Obj} {ev : Event}

def Objects.below (h : Objects Obj) (c p : Obj) : Prop := h.parent c = some p

theorem layoutLoop_returns {row : Int} {it : Option Obj} {l : List Obj}
    (hchain : Chain h.nextSibling it l) {fuel : Nat} (hfuel : l.length < fuel) (lay : Layout)
    (rects : Obj → Rect) : (layoutLoop h row fuel it lay rects).isSome := by
  induction l generalizing it fuel lay rects with
  | nil =>
    obtain ⟨n, rfl⟩ : ∃ n, fuel = n + 1 := ⟨fuel - 1, by omega⟩
    obtain rfl : it = none := hchain
    rfl
  | cons c l ih =>
    obtain ⟨n, rfl⟩ : ∃ n, fuel = n + 1 := ⟨fuel - 1, by omega⟩
    obtain ⟨rfl, hl⟩ := hchain
    rw [List.length_cons] at hfuel
    rw [layoutLoop]
    exact ih hl (by omega) _ _

theorem laidOut_returns {w : Obj} {l : List Obj}
    (hchain : Chain h.nextSibling (h.firstChild w) l) {fuel : Nat} (hfuel : l.length < fuel)
    (rects : Obj → Rect) : (laidOut h ws ev fuel w rects).isSome := by
  rw [laidOut]
  split
  · rw [applyLayout]
    split
    · exact layoutLoop_returns hchain hfuel _ _
    · rfl
  · rfl

theorem dispatchLoop_returns {it : Option Obj} {l : List Obj} (hchain : Chain h.nextSibling it l)
    (hl : ∀ c ∈ l, DispatchReturns h ws ev c) :
    ∃ n, ∀ fuel, n ≤ fuel → ∀ rects handled,
      (dispatchLoop h ws ev fuel it rects handled).isSome := by
  induction l generalizing it with
  | nil =>
    obtain rfl : it = none := hchain
    refine ⟨1, fun fuel hfuel rects handled => ?_⟩
    obtain ⟨n, rfl⟩ : ∃ n, fuel = n + 1 := ⟨fuel - 1, by omega⟩
    rw [dispatchLoop]
    rfl
  | cons c l ih =>
    obtain ⟨rfl, hrest⟩ := hchain
    obtain ⟨a, ha⟩ := hl c List.mem_cons_self
    obtain ⟨b, hb⟩ := ih hrest fun x hx => hl x (List.mem_cons_of_mem c hx)
    refine ⟨max a b + 1, fun fuel hfuel rects handled => ?_⟩
    obtain ⟨n, rfl⟩ : ∃ n, fuel = n + 1 := ⟨fuel - 1, by omega⟩
    obtain ⟨answer, hanswer⟩ := Option.isSome_iff_exists.mp (ha n (by omega) rects)
    rw [dispatchLoop, hanswer, Option.bind_some]
    exact hb n (by omega) _ _

theorem dispatch_returns [Finite Obj] {kids : Obj → List Obj} (hl : Listed h kids)
    (hacyclic : Acyclic h.below) (w : Obj) : DispatchReturns h ws ev w := by
  have : IsTrans Obj (TransGen h.below) := ⟨fun _ _ _ hxy hyz => hxy.trans hyz⟩
  have : Std.Irrefl (TransGen h.below) := ⟨hacyclic⟩
  have hwf : WellFounded (TransGen h.below) := Finite.wellFounded_of_trans_of_irrefl _
  -- the induction is on how far the widget stands above the leaves
  induction w using hwf.induction with
  | _ w ih =>
    have hchild (c : Obj) (hc : c ∈ kids w) : DispatchReturns h ws ev c :=
      ih c (TransGen.single ((hl.exact w c).mp hc))
    obtain ⟨n, hn⟩ := dispatchLoop_returns (hl.chains w) hchild
    refine ⟨max n ((kids w).length + 1) + 1, fun fuel hfuel rects => ?_⟩
    obtain ⟨m, rfl⟩ : ∃ m, fuel = m + 1 := ⟨fuel - 1, by omega⟩
    rw [widgetDispatch]
    split
    · have hlaid : (laidOut h ws ev m w rects).isSome :=
        laidOut_returns (hl.chains w) (by omega) rects
      obtain ⟨rects', hrects⟩ := Option.isSome_iff_exists.mp hlaid
      rw [hrects, Option.bind_some]
      exact hn m (by omega) _ _
    · rfl

end Termination

theorem acyclic_blank : Acyclic (blank : Objects Obj).below := by
  intro a ha
  obtain ⟨b, hb, -⟩ := TransGen.head'_iff.mp ha
  exact nomatch hb

section Trees

variable [DecidableEq Obj] {h : Objects Obj} {kids : Obj → List Obj} {p c : Obj}

theorem acyclic_of_cleared (hacyclic : Acyclic h.below) {h' : Objects Obj}
    (hparent : h'.parent = Function.update h.parent c none) : Acyclic h'.below := by
  refine hacyclic.mono fun x y hxy => ?_
  rw [Objects.below, hparent, Function.update_apply] at hxy
  split at hxy
  · exact nomatch hxy
  · exact hxy

-- the link that an attach adds closes a cycle just when the parent is the child or below it
theorem acyclic_attached_iff (hacyclic : Acyclic h.below) {h' : Objects Obj}
    (hparent : h'.parent = Function.update h.parent c (some p)) :
    Acyclic h'.below ↔ ¬ReflTransGen h.below p c := by
  constructor
  · intro hacyclic' hpath
    have hkept (q : Obj) (hq : ReflTransGen h.below q c) : ReflTransGen h'.below q c := by
      induction hq using ReflTransGen.head_induction_on with
      | refl => exact .refl
      | @head a b hstep _ ih =>
        by_cases ha : a = c
        · rw [ha]
        · refine .head ?_ ih
          rw [Objects.below, hparent, Function.update_of_ne ha]
          exact hstep
    have hnew : h'.below c p := by rw [Objects.below, hparent, Function.update_self]
    exact hacyclic' c (TransGen.head' hnew (hkept p hpath))
  · intro hapart
    have hcleared : (h.setParent c none).parent = Function.update h.parent c none := rfl
    have hcut : Acyclic (h.setParent c none).below := acyclic_of_cleared hacyclic hcleared
    have hapart' : ¬ReflTransGen (h.setParent c none).below p c := by
      refine fun hpath => hapart (ReflTransGen.mono (fun x y hxy => ?_) p c hpath)
      rw [Objects.below, hcleared, Function.update_apply] at hxy
      split at hxy
      · exact nomatch hxy
      · exact hxy
    refine (hcut.addEdge hapart').mono fun x y hxy => ?_
    rw [Objects.below, hparent, Function.update_apply] at hxy
    split at hxy
    next heq => exact Or.inr ⟨heq, (Option.some.inj hxy).symm⟩
    next hne =>
      left
      rw [Objects.below, hcleared, Function.update_of_ne hne]
      exact hxy

end Trees

section Runs

variable [DecidableEq Obj] [Fintype Obj]

structure ExactLists (h : Objects Obj) (kids : Obj → List Obj) : Prop where
  chains : ∀ p, Chain h.nextSibling (h.firstChild p) (kids p)
  nodup : ∀ p, (kids p).Nodup
  exact : ∀ p c, c ∈ kids p ↔ h.parent c = some p

structure Tree (h : Objects Obj) : Prop where
  lists : ∃ kids, ExactLists h kids
  acyclic : Acyclic h.below
  returns : ∀ (ws : Obj → Widget Obj) (ev : Event) (w : Obj), DispatchReturns h ws ev w

def Op.Apart (h : Objects Obj) : Op Obj → Prop
  | .attach (some parent) (some child) => ¬ReflTransGen h.below parent child
  | _ => True

def KeepsTree (ops : List (Op Obj)) : Prop :=
  ∀ pre, pre <+: ops → ∃ h, run Objects.step blank pre = some h ∧ Tree h

variable {h : Objects Obj} {kids : Obj → List Obj}

omit [DecidableEq Obj] in
theorem Listed.fuel (hl : Listed h kids) (p : Obj) : (kids p).length < Fintype.card Obj + 1 :=
  Nat.lt_succ_of_le (hl.nodup p).length_le_card

theorem tree_iff (hl : Listed h kids) : Tree h ↔ Acyclic h.below :=
  ⟨Tree.acyclic, fun hacyclic => ⟨⟨kids, hl.chains, hl.nodup, hl.exact⟩, hacyclic, fun _ _ w =>
    dispatch_returns hl hacyclic w⟩⟩

theorem step_keeps (o : Op Obj) (hl : ∃ kids, Listed h kids) (htree : Tree h) :
    ∃ h', h.step o = some h' ∧ (Tree h' → ∃ kids, Listed h' kids) ∧ (Tree h' ↔ o.Apart h) := by
  have hstay : (Tree h → ∃ kids, Listed h kids) ∧ (Tree h ↔ True) :=
    ⟨fun _ => hl, iff_true_intro htree⟩
  obtain ⟨kids, hl⟩ := hl
  cases o with
  | attach parent child =>
    cases parent with
    | none => exact ⟨h, rfl, hstay⟩
    | some p =>
      cases child with
      | none => exact ⟨h, rfl, hstay⟩
      | some c =>
        obtain ⟨h', kids', hattach, hl', hparent⟩ := hl.attach p c hl.fuel
        refine ⟨h', hattach, fun _ => ⟨kids', hl'⟩, ?_⟩
        rw [tree_iff hl']
        exact acyclic_attached_iff htree.acyclic hparent
  | detach child =>
    cases child with
    | none => exact ⟨h, rfl, hstay⟩
    | some c =>
      obtain ⟨h', hdetach, hl', hparent⟩ := hl.detach c hl.fuel
      refine ⟨h', hdetach, fun _ => ⟨_, hl'⟩, ?_⟩
      rw [tree_iff hl']
      exact iff_true_intro (acyclic_of_cleared htree.acyclic hparent)

theorem keeps_tree_iff (ops : List (Op Obj)) :
    KeepsTree ops ↔ Along Objects.step (fun h o => o.Apart h) blank ops :=
  along_iff_reached (fun _ o => step_keeps o) ops blank ⟨_, listed_blank⟩
    ((tree_iff listed_blank).mpr acyclic_blank)

end Runs

theorem attach_to_itself :
    ¬KeepsTree [Op.attach (some (0 : Fin 2)) (some 0), .attach (some 1) (some 0)] := by
  intro hkeeps
  obtain ⟨h, hrun, htree⟩ := hkeeps [.attach (some 0) (some 0)] (List.prefix_append _ _)
  have hparent : h.parent 0 = some 0 := by
    rw [← Option.some.inj hrun]
    rfl
  exact htree.acyclic 0 (TransGen.single hparent)

end HouseOS.Hgui
