import HouseOS.Library.Run
import HouseOS.Library.Window
import HouseOS.Mouse.Model
import Mathlib.Order.Lattice

namespace HouseOS.Mouse

open HouseOS.Run (Along)

section Axis

variable {max x m d : Int}

def clampTo (size : Nat) (v : Int) : Int := Max.max 0 (Min.min v (size - 1))

theorem maxOf_eq {size : Nat} (h : size ≤ 32767) : maxOf size = Max.max 0 ((size : Int) - 1) := by
  simp only [maxOf, int16]
  omega

def nineBit (sign : Bool) (c : UInt8) : Int := if sign then c.toNat - 256 else c.toNat

theorem nineBit_cases (sign : Bool) (c : UInt8) :
    (nineBit sign c = int8 c ∧ -128 ≤ int8 c ∧ int8 c ≤ 127) ∨
      (nineBit sign c = int8 c + 256 ∧ -128 ≤ int8 c ∧ int8 c < 0) ∨
      (nineBit sign c = int8 c - 256 ∧ 0 ≤ int8 c ∧ int8 c ≤ 127) := by
  have hc := c.toNat_lt
  simp only [nineBit, int8]
  split_ifs <;> omega

variable {size : Nat}

theorem bounded_same_iff (hsize : size ≤ 32767) (hx : 0 ≤ x) (hx' : x = clampTo size x)
    (hm : -32768 ≤ m) (hm' : m ≤ 32768) :
    bounded (maxOf size) (int16 (x + m)) = clampTo size (x + m) ↔ size ≤ 1 ∨ x + m ≤ 32767 := by
  rw [maxOf_eq hsize]
  simp only [clampTo, bounded, int16] at hx' ⊢
  omega

theorem bounded_above_iff (hsize : size ≤ 32767) (hx : 0 ≤ x) (hx' : x = clampTo size x)
    (hm : -128 ≤ m) (hm' : m ≤ 0) :
    bounded (maxOf size) (int16 (x + m)) = clampTo size (x + (m + 256)) ↔
      size ≤ 1 ∨ m = 0 ∧ x = size - 1 := by
  rw [maxOf_eq hsize]
  simp only [clampTo, bounded, int16] at hx' ⊢
  omega

theorem bounded_below_iff (hsize : size ≤ 32767) (hx : 0 ≤ x) (hx' : x = clampTo size x)
    (hm : 0 ≤ m) (hm' : m ≤ 128) :
    bounded (maxOf size) (int16 (x + m)) = clampTo size (x + (m - 256)) ↔
      size ≤ 1 ∨ m = 0 ∧ x = 0 := by
  rw [maxOf_eq hsize]
  simp only [clampTo, bounded, int16] at hx' ⊢
  omega

end Axis

structure Desk where
  x : Int
  y : Int
  frame : List UInt8
  deriving DecidableEq, Repr

def isAux (st : UInt8) : Prop := st &&& 0x01 ≠ 0 ∧ st &&& 0x20 ≠ 0

instance (st : UInt8) : Decidable (isAux st) := inferInstanceAs (Decidable (_ ∧ _))

-- bits 4 and 5 of the first byte are the signs of the movements
def xDelta (b0 b1 : UInt8) : Int := nineBit (b0 &&& 0x10 ≠ 0) b1

def yDelta (b0 b2 : UInt8) : Int := nineBit (b0 &&& 0x20 ≠ 0) b2

namespace Desk

variable (s : Screen) (d : Desk)

def move (dx dy : Int) : Desk :=
  { d with x := clampTo s.width (d.x + dx), y := clampTo s.height (d.y - dy) }

def step (d : Desk) : MouseEvent → Desk
  | .irq st data =>
      if isAux st then
        match d.frame with
        | [b0, b1] => { d.move s (xDelta b0 b1) (yDelta b0 data) with frame := [] }
        | frame => { d with frame := frame ++ [data] }
      else d
  | .inject _ dx dy => d.move s dx.toInt dy.toInt
  | .get => d

-- a packet starts with a byte that has bit 3 set and no overflow bit
def Regular (d : Desk) : MouseEvent → Prop
  | .irq st data => isAux st → d.frame = [] → data &&& 0x08 ≠ 0 ∧ data &&& 0xC0 = 0
  | _ => True

-- the movements of PS/2 packets that fit a byte, or that end at an edge already reached
def KeptX (s : Screen) (x dx : Int) : Prop :=
  s.width ≤ 1 ∨ -128 ≤ dx ∧ dx ≤ 127 ∧ x + dx ≤ 32767 ∨ dx = -256 ∧ x = 0

def KeptY (s : Screen) (y dy : Int) : Prop :=
  s.height ≤ 1 ∨ -128 ≤ dy ∧ dy ≤ 127 ∧ y - dy ≤ 32767 ∨ dy = -256 ∧ y = s.height - 1

instance (s : Screen) (x dx : Int) : Decidable (KeptX s x dx) := inferInstanceAs (Decidable (_ ∨ _))

instance (s : Screen) (y dy : Int) : Decidable (KeptY s y dy) := inferInstanceAs (Decidable (_ ∨ _))

def InReach (d : Desk) : MouseEvent → Prop
  | .irq st data =>
      isAux st → ∀ b0 b1, d.frame = [b0, b1] →
        KeptX s d.x (xDelta b0 b1) ∧ KeptY s d.y (yDelta b0 data)
  | .inject _ dx dy =>
      (s.width ≤ 1 ∨ d.x + dx.toInt ≤ 32767) ∧ (s.height ≤ 1 ∨ d.y - dy.toInt ≤ 32767)
  | .get => True

end Desk

section Track

open Desk

variable {s : Screen} {m : MouseState} {d : Desk}

-- the bytes taken so far, the first of them without overflow bits, and a pointer on the screen
structure Framed (s : Screen) (m : MouseState) (d : Desk) : Prop where
  cycle_eq : m.cycle = d.frame.length
  cycle_lt : d.frame.length < 3
  packet_eq : ∀ k b, d.frame[k]? = some b → m.packet k = b
  regular : ∀ b, d.frame.head? = some b → b &&& 0xC0 = 0
  x_inside : 0 ≤ d.x ∧ d.x = clampTo s.width d.x
  y_inside : 0 ≤ d.y ∧ d.y = clampTo s.height d.y

def Tracks (m : MouseState) (d : Desk) : Prop := m.x = d.x ∧ m.y = d.y

theorem clampTo_inside (size : Nat) (v : Int) :
    0 ≤ clampTo size v ∧ clampTo size v = clampTo size (clampTo size v) := by
  simp only [clampTo]
  omega

theorem framed_nil (hcycle : m.cycle = 0) {x y : Int} (hx : 0 ≤ x ∧ x = clampTo s.width x)
    (hy : 0 ≤ y ∧ y = clampTo s.height y) : Framed s m ⟨x, y, []⟩ :=
  ⟨hcycle, Nat.zero_lt_succ 2, fun _ _ hb => by simp at hb, fun _ hb => by simp at hb, hx, hy⟩

theorem Framed.move (h : Framed s m d) (dx dy : Int) : Framed s m (d.move s dx dy) :=
  ⟨h.cycle_eq, h.cycle_lt, h.packet_eq, h.regular, clampTo_inside _ _, clampTo_inside _ _⟩

theorem keptX_iff (hwidth : s.width ≤ 32767) {x : Int} (hx : 0 ≤ x ∧ x = clampTo s.width x)
    (sign : Bool) (c : UInt8) :
    bounded (maxOf s.width) (int16 (x + int8 c)) = clampTo s.width (x + nineBit sign c) ↔
      KeptX s x (nineBit sign c) := by
  rw [KeptX]
  obtain ⟨heq, hlow, hhigh⟩ | ⟨heq, hlow, hneg⟩ | ⟨heq, hpos, hhigh⟩ := nineBit_cases sign c
  · rw [heq, bounded_same_iff hwidth hx.1 hx.2 (by omega) (by omega)]
    omega
  · rw [heq, bounded_above_iff hwidth hx.1 hx.2 hlow (by omega)]
    omega
  · rw [heq, bounded_below_iff hwidth hx.1 hx.2 hpos (by omega)]
    omega

theorem keptY_iff (hheight : s.height ≤ 32767) {y : Int} (hy : 0 ≤ y ∧ y = clampTo s.height y)
    (sign : Bool) (c : UInt8) :
    bounded (maxOf s.height) (int16 (y - int8 c)) = clampTo s.height (y - nineBit sign c) ↔
      KeptY s y (nineBit sign c) := by
  rw [KeptY]
  have hback (k : Int) : y - (int8 c + k) = y + (-int8 c - k) := by omega
  obtain ⟨heq, hlow, hhigh⟩ | ⟨heq, hlow, hneg⟩ | ⟨heq, hpos, hhigh⟩ := nineBit_cases sign c
  · rw [heq, Int.sub_eq_add_neg, bounded_same_iff hheight hy.1 hy.2 (by omega) (by omega)]
    omega
  · rw [heq, hback 256, Int.sub_eq_add_neg, bounded_below_iff hheight hy.1 hy.2 (by omega) (by omega)]
    omega
  · have hup : y - (int8 c - 256) = y + (-int8 c + 256) := by omega
    rw [heq, hup, Int.sub_eq_add_neg, bounded_above_iff hheight hy.1 hy.2 (by omega) (by omega)]
    omega

theorem handler_idle {screen : Option Screen} {st : UInt8} (h : ¬ isAux st) (data : UInt8) :
    m.mouseHandler screen st data = m := by
  rw [MouseState.mouseHandler]
  by_cases hfull : st &&& MouseState.ps2StatusOutFull = 0
  · rw [if_pos hfull]
  · have haux : st &&& MouseState.ps2StatusAuxData = 0 := by
      by_contra hne
      exact h ⟨hfull, hne⟩
    rw [if_neg hfull, if_pos haux]

theorem handler_aux {screen : Option Screen} {st data : UInt8} (h : isAux st)
    (hfirst : m.cycle = 0 → data &&& 0x08 ≠ 0) :
    m.mouseHandler screen st data =
      let m := { m with packet := Function.update m.packet m.cycle data, cycle := (m.cycle + 1) % 3 }
      if m.cycle = 0 then
        if m.packet 0 &&& 0xC0 ≠ 0 then m
        else
          m.mouseInjectPacket screen (m.packet 0 &&& 0x07) (int8 (m.packet 1)) (int8 (m.packet 2))
      else m := by
  have hgo : ¬(m.cycle = 0 ∧ data &&& 0x08 = 0) := fun hskip => hfirst hskip.1 hskip.2
  rw [MouseState.mouseHandler, if_neg (show ¬ st &&& MouseState.ps2StatusOutFull = 0 from h.1),
    if_neg (show ¬ st &&& MouseState.ps2StatusAuxData = 0 from h.2), if_neg hgo]

def taken (m : MouseState) (data : UInt8) : MouseState :=
  { m with packet := Function.update m.packet 2 data, cycle := 0 }

theorem handler_third {screen : Option Screen} {st data : UInt8} (h : isAux st) (hcycle : m.cycle = 2) :
    m.mouseHandler screen st data =
      if m.packet 0 &&& 0xC0 ≠ 0 then taken m data
      else
        (taken m data).mouseInjectPacket screen (m.packet 0 &&& 0x07) (int8 (m.packet 1))
          (int8 data) := by
  rw [handler_aux h fun hzero => by omega]
  simp only [hcycle]
  rfl

theorem step_more {st data : UInt8} (h : isAux st) (hshort : d.frame.length < 2) :
    d.step s (.irq st data) = { d with frame := d.frame ++ [data] } := by
  rw [step, if_pos h]
  split
  · rename_i hframe
    rw [hframe] at hshort
    exact absurd hshort (Nat.lt_irrefl 2)
  · rfl

theorem step_whole {st b0 b1 data : UInt8} (h : isAux st) (hframe : d.frame = [b0, b1]) :
    d.step s (.irq st data) = { d.move s (xDelta b0 b1) (yDelta b0 data) with frame := [] } := by
  rw [step, if_pos h, hframe]

theorem Framed.more (h : Framed s m d) {data : UInt8} (hshort : d.frame.length < 2)
    (hfirst : d.frame = [] → data &&& 0xC0 = 0) :
    Framed s { m with packet := Function.update m.packet m.cycle data, cycle := m.cycle + 1 }
      { d with frame := d.frame ++ [data] } := by
  have hlen : (d.frame ++ [data]).length = d.frame.length + 1 := List.length_append
  refine ⟨?_, hlen.trans_lt (by omega), fun k b hb => ?_, fun b hb => ?_, h.x_inside, h.y_inside⟩
  · exact (congrArg (· + 1) h.cycle_eq).trans hlen.symm
  · by_cases hk : k = d.frame.length
    · subst hk
      rw [List.getElem?_concat_length] at hb
      rw [h.cycle_eq]
      exact (Function.update_self _ _ _).trans (Option.some.inj hb)
    · have hlt : k < (d.frame ++ [data]).length := (List.getElem?_eq_some_iff.mp hb).1
      rw [List.getElem?_append_left (by omega)] at hb
      rw [h.cycle_eq]
      exact (Function.update_of_ne hk _ _).trans (h.packet_eq k b hb)
  · cases hframe : d.frame with
    | nil =>
      rw [hframe] at hb
      obtain rfl := Option.some.inj hb
      exact hfirst hframe
    | cons a frame =>
      rw [hframe] at hb
      exact h.regular b (by rw [hframe]; exact hb)

theorem next_more (h : Framed s m d) (ht : Tracks m d) {st data : UInt8} (haux : isAux st)
    (hreg : d.Regular (.irq st data)) (hshort : d.frame.length < 2) :
    Framed s (m.mouseHandler (some s) st data) (d.step s (.irq st data)) ∧
      Tracks (m.mouseHandler (some s) st data) (d.step s (.irq st data)) := by
  have hcycle := h.cycle_eq
  have hmod : (m.cycle + 1) % 3 = m.cycle + 1 := Nat.mod_eq_of_lt (by omega)
  have hfirst : m.cycle = 0 → data &&& 0x08 ≠ 0 := by
    intro h0
    exact (hreg haux (List.length_eq_zero_iff.mp (hcycle.symm.trans h0))).1
  rw [handler_aux haux hfirst, step_more haux hshort]
  simp only [hmod, if_neg (Nat.succ_ne_zero m.cycle)]
  exact ⟨h.more hshort fun hnil => (hreg haux hnil).2, ht⟩

theorem next_whole (h : Framed s m d) (ht : Tracks m d) (hwidth : s.width ≤ 32767)
    (hheight : s.height ≤ 32767) {st b0 b1 data : UInt8} (haux : isAux st)
    (hframe : d.frame = [b0, b1]) :
    Framed s (m.mouseHandler (some s) st data) (d.step s (.irq st data)) ∧
      (Tracks (m.mouseHandler (some s) st data) (d.step s (.irq st data)) ↔
        KeptX s d.x (xDelta b0 b1) ∧ KeptY s d.y (yDelta b0 data)) := by
  have hcycle : m.cycle = 2 := by rw [h.cycle_eq, hframe]; rfl
  have h0 : m.packet 0 = b0 := h.packet_eq 0 b0 (by rw [hframe]; rfl)
  have h1 : m.packet 1 = b1 := h.packet_eq 1 b1 (by rw [hframe]; rfl)
  have hover : m.packet 0 &&& 0xC0 = 0 := h.regular _ (by rw [hframe, h0]; rfl)
  rw [handler_third haux hcycle, if_neg (not_not.mpr hover), step_whole haux hframe]
  refine ⟨framed_nil rfl (clampTo_inside _ _) (clampTo_inside _ _), ?_⟩
  have hx := keptX_iff hwidth h.x_inside (b0 &&& 0x10 ≠ 0) b1
  have hy := keptY_iff hheight h.y_inside (b0 &&& 0x20 ≠ 0) data
  rw [xDelta, yDelta, ← hx, ← hy, ← ht.1, ← ht.2, ← h1]
  rw [Tracks, move, ← ht.1, ← ht.2]
  exact Iff.rfl

theorem next_inject (h : Framed s m d) (ht : Tracks m d) (hwidth : s.width ≤ 32767)
    (hheight : s.height ≤ 32767) (buttons : UInt8) (dx dy : Int16) :
    Framed s (m.mouseInjectPacket (some s) buttons dx.toInt dy.toInt)
        (d.step s (.inject buttons dx dy)) ∧
      (Tracks (m.mouseInjectPacket (some s) buttons dx.toInt dy.toInt)
          (d.step s (.inject buttons dx dy)) ↔ d.InReach s (.inject buttons dx dy)) := by
  have hxlow := dx.le_toInt
  have hxhigh := dx.toInt_lt
  have hylow := dy.le_toInt
  have hyhigh := dy.toInt_lt
  have hx := bounded_same_iff hwidth h.x_inside.1 h.x_inside.2 (m := dx.toInt) (by omega) (by omega)
  have hy := bounded_same_iff hheight h.y_inside.1 h.y_inside.2 (m := -dy.toInt) (by omega) (by omega)
  refine ⟨⟨h.cycle_eq, h.cycle_lt, h.packet_eq, h.regular, clampTo_inside _ _, clampTo_inside _ _⟩, ?_⟩
  rw [InReach, Int.sub_eq_add_neg, ← hx, ← hy, ← ht.1, ← ht.2, Tracks, step, move, ← ht.1, ← ht.2]
  exact Iff.rfl

def start : Desk := ⟨0, 0, []⟩

def after (s : Screen) (m : MouseState) (events : List MouseEvent) : MouseState :=
  events.foldl (fun m e => (mouseStep (some s) m e).2) m

theorem next_get (h : Framed s m d) (ht : Tracks m d) :
    Framed s m.mouseTryGetPacket.2 d ∧ Tracks m.mouseTryGetPacket.2 d :=
  ⟨⟨h.cycle_eq, h.cycle_lt, h.packet_eq, h.regular, h.x_inside, h.y_inside⟩, ht⟩

theorem next_tracks (hwidth : s.width ≤ 32767) (hheight : s.height ≤ 32767) (h : Framed s m d)
    (ht : Tracks m d) (e : MouseEvent) (hreg : d.Regular e) :
    Framed s (mouseStep (some s) m e).2 (d.step s e) ∧
      (Tracks (mouseStep (some s) m e).2 (d.step s e) ↔ d.InReach s e) := by
  cases e with
  | get => exact ⟨(next_get h ht).1, iff_of_true ht trivial⟩
  | inject buttons dx dy => exact next_inject h ht hwidth hheight buttons dx dy
  | irq st data =>
    by_cases haux : isAux st
    · by_cases hshort : d.frame.length < 2
      · obtain ⟨hnext, htracks⟩ := next_more h ht haux hreg hshort
        refine ⟨hnext, iff_of_true htracks fun _ b0 b1 hframe => ?_⟩
        rw [hframe] at hshort
        exact absurd hshort (Nat.lt_irrefl 2)
      · have hlen : d.frame.length = 2 := by
          have hlt := h.cycle_lt
          omega
        obtain ⟨b0, b1, hframe⟩ := List.length_eq_two.mp hlen
        obtain ⟨hnext, htracks⟩ := next_whole h ht hwidth hheight haux hframe
        refine ⟨hnext, htracks.trans ⟨fun hkept _ c0 c1 hc => ?_, fun hkept => hkept haux b0 b1 hframe⟩⟩
        rw [hframe] at hc
        cases hc
        exact hkept
    · rw [mouseStep, handler_idle haux, step, if_neg haux]
      exact ⟨h, iff_of_true ht fun h' => absurd h' haux⟩

theorem init_framed (s : Screen) (m : MouseState) : Framed s m.mouseInit start := by
  have hzero (size : Nat) : (0 : Int) = clampTo size 0 := by
    simp only [clampTo]
    omega
  exact framed_nil rfl ⟨le_rfl, hzero _⟩ ⟨le_rfl, hzero _⟩

end Track

section Fifo

open HouseOS.Window (Spells recent recent_of_full recent_of_le)

variable {screen : Option Screen} {q : PacketQueue} {m m' : MouseState} {w : List MousePacket}

def delivered (m : MouseState) : MouseEvent → Option (UInt8 × Int × Int)
  | .irq st data =>
      if isAux st ∧ m.cycle = 2 ∧ m.packet 0 &&& 0xC0 = 0 then
        some (m.packet 0 &&& 0x07, int8 (m.packet 1), int8 data)
      else none
  | .inject buttons dx dy => some (buttons, dx.toInt, dy.toInt)
  | .get => none

def produced (screen : Option Screen) (m : MouseState) (e : MouseEvent) : Option MousePacket :=
  (delivered m e).map fun (buttons, dx, dy) =>
    let next := (mouseStep screen m e).2
    ⟨buttons &&& 0x1F, dx, dy, next.x, next.y⟩

def replies (screen : Option Screen) : MouseState → List MouseEvent → List (Option MousePacket)
  | _, [] => []
  | m, e :: es => (mouseStep screen m e).1 :: replies screen (mouseStep screen m e).2 es

def fifoReplies (screen : Option Screen) :
    MouseState → List MousePacket → List MouseEvent → List (Option MousePacket)
  | _, _, [] => []
  | m, w, .get :: es => w.head? :: fifoReplies screen (mouseStep screen m .get).2 w.tail es
  | m, w, e :: es =>
      none :: fifoReplies screen (mouseStep screen m e).2
        (recent mouseQueueSize (w ++ (produced screen m e).toList)) es

def PacketQueue.Spells (q : PacketQueue) (w : List MousePacket) : Prop :=
  Window.Spells mouseQueueSize q.cells q.head q.tail q.count w

theorem spells_queuePush (h : q.Spells w) (p : MousePacket) :
    (q.queuePush p).Spells (recent mouseQueueSize (w ++ [p])) := by
  have hroom := h.room
  have hlen := h.length
  by_cases hfull : mouseQueueSize ≤ q.count
  · have hcount : q.count = (q.count - 1) + 1 := by
      have hpos : 0 < mouseQueueSize := by decide
      omega
    unfold PacketQueue.Spells at h
    rw [hcount] at h
    rw [PacketQueue.queuePush, PacketQueue.dropOldest, if_pos hfull,
      recent_of_full (by decide) (by omega)]
    exact h.pop.2.push (by omega) p
  · have hshort : (w ++ [p]).length ≤ mouseQueueSize := by
      rw [List.length_append, List.length_singleton]
      omega
    rw [PacketQueue.queuePush, PacketQueue.dropOldest, if_neg hfull, recent_of_le hshort]
    exact Window.Spells.push h (by omega) p

theorem spells_tryGet (h : q.Spells w) :
    q.tryGet.1 = w.head? ∧ q.tryGet.2.Spells w.tail := by
  have hlen := h.length
  rw [PacketQueue.tryGet]
  by_cases hzero : q.count = 0
  · have hnil : w = [] := List.length_eq_zero_iff.mp (hlen.trans hzero)
    subst hnil
    rw [if_pos hzero]
    exact ⟨rfl, h⟩
  · have hcount : q.count = (q.count - 1) + 1 := by omega
    unfold PacketQueue.Spells at h
    rw [hcount] at h
    obtain ⟨hw, hrest⟩ := h.pop
    rw [if_neg hzero, hw]
    exact ⟨rfl, hrest⟩

structure Holding (m : MouseState) (w : List MousePacket) : Prop where
  cycle_lt : m.cycle < 3
  spells : m.queue.Spells w

theorem Holding.inject (h : Holding m w) (buttons : UInt8) (dx dy : Int) :
    Holding (m.mouseInjectPacket screen buttons dx dy) (recent mouseQueueSize
      (w ++ [⟨buttons &&& 0x1F, dx, dy, (m.mouseInjectPacket screen buttons dx dy).x,
        (m.mouseInjectPacket screen buttons dx dy).y⟩])) := by
  cases screen with
  | none => exact ⟨h.cycle_lt, spells_queuePush h.spells _⟩
  | some s => exact ⟨h.cycle_lt, spells_queuePush h.spells _⟩

theorem Holding.same (h : Holding m w) (hcycle : m'.cycle < 3) (hqueue : m'.queue = m.queue) :
    Holding m' (recent mouseQueueSize (w ++ ([] : List MousePacket))) := by
  have hroom := h.spells.room
  have hlen := h.spells.length
  rw [List.append_nil, recent_of_le (by omega)]
  exact ⟨hcycle, hqueue ▸ h.spells⟩

theorem handler_skip {st data : UInt8} (hskip : m.cycle = 0 ∧ data &&& 0x08 = 0) :
    m.mouseHandler screen st data = m := by
  rw [MouseState.mouseHandler, if_pos hskip]
  split_ifs <;> rfl

theorem produced_irq_none {st data : UInt8}
    (h : ¬(isAux st ∧ m.cycle = 2 ∧ m.packet 0 &&& 0xC0 = 0)) :
    produced screen m (.irq st data) = none := by
  rw [produced, delivered, if_neg h, Option.map_none]

theorem Holding.irq (h : Holding m w) (st data : UInt8) :
    Holding (m.mouseHandler screen st data)
      (recent mouseQueueSize (w ++ (produced screen m (.irq st data)).toList)) := by
  have hlt := h.cycle_lt
  by_cases haux : isAux st
  · by_cases hskip : m.cycle = 0 ∧ data &&& 0x08 = 0
    · rw [produced_irq_none fun hgo => by omega, handler_skip hskip]
      exact h.same hlt rfl
    · by_cases hlast : m.cycle = 2
      · have htaken : Holding (taken m data) w := ⟨Nat.zero_lt_succ 2, h.spells⟩
        by_cases hover : m.packet 0 &&& 0xC0 = 0
        · have hmade : delivered m (.irq st data) =
              some (m.packet 0 &&& 0x07, int8 (m.packet 1), int8 data) :=
            if_pos ⟨haux, hlast, hover⟩
          rw [produced, hmade, mouseStep, handler_third haux hlast, if_neg (not_not.mpr hover)]
          exact htaken.inject _ _ _
        · rw [produced_irq_none fun hgo => hover hgo.2.2, handler_third haux hlast, if_pos hover]
          exact h.same htaken.cycle_lt rfl
      · have hhandler := @handler_aux m screen _ _ haux fun hzero hbit => hskip ⟨hzero, hbit⟩
        have hmod : (m.cycle + 1) % 3 = m.cycle + 1 := Nat.mod_eq_of_lt (by omega)
        rw [produced_irq_none fun hgo => hlast hgo.2.1, hhandler]
        simp only [hmod, if_neg (Nat.succ_ne_zero m.cycle)]
        exact h.same (by dsimp only; omega) rfl
  · rw [produced_irq_none fun hgo => haux hgo.1, handler_idle haux]
    exact h.same hlt rfl

theorem replies_fifo (events : List MouseEvent) (h : Holding m w) :
    replies screen m events = fifoReplies screen m w events := by
  induction events generalizing m w with
  | nil => rw [replies, fifoReplies]
  | cons e es ih =>
    cases e with
    | get =>
      have hget := spells_tryGet h.spells
      have hrest : Holding (mouseStep screen m .get).2 w.tail := ⟨h.cycle_lt, hget.2⟩
      rw [replies, fifoReplies, ih hrest]
      exact congrArg (· :: _) hget.1
    | inject buttons dx dy =>
      have hrest : Holding (mouseStep screen m (.inject buttons dx dy)).2 (recent mouseQueueSize
          (w ++ (produced screen m (.inject buttons dx dy)).toList)) := h.inject _ _ _
      rw [replies, fifoReplies, ih hrest]
      · rfl
      · exact nofun
    | irq st data =>
      have hrest : Holding (mouseStep screen m (.irq st data)).2 (recent mouseQueueSize
          (w ++ (produced screen m (.irq st data)).toList)) := h.irq st data
      rw [replies, fifoReplies, ih hrest]
      · rfl
      · exact nofun

end Fifo

section Desk

variable {s : Screen}

theorem mouse_tracking_iff (hwidth : s.width ≤ 32767) (hheight : s.height ≤ 32767) (m : MouseState)
    (events : List MouseEvent)
    (hframed : Along (fun d e => some (Desk.step s d e)) Desk.Regular start events) :
    ((∀ pre, pre <+: events → Tracks (after s m.mouseInit pre) (pre.foldl (Desk.step s) start)) ∧
        replies (some s) m.mouseInit events = fifoReplies (some s) m.mouseInit [] events) ↔
      Along (fun d e => some (Desk.step s d e)) (Desk.InReach s) start events := by
  have hfifo := @replies_fifo (some s) m.mouseInit [] events
    ⟨Nat.zero_lt_succ 2, Window.Spells.empty (by decide)⟩
  rw [and_iff_left hfifo]
  exact @Lockstep.agree_iff_along _ _ _ _ _ (Framed s) Tracks Desk.Regular (Desk.InReach s)
    (fun _ _ e h ht hreg _ => (next_tracks hwidth hheight h ht e hreg).1)
    (fun _ _ e h ht hreg => (next_tracks hwidth hheight h ht e hreg).2)
    events m.mouseInit start (init_framed s m) ⟨rfl, rfl⟩ hframed

def idle : MouseState := ⟨⟨fun _ => ⟨0, 0, 0, 0, 0⟩, 0, 0, 0⟩, fun _ => 0, 0, 0, 0, 0⟩

theorem regular_small : Along (fun d e => some (Desk.step ⟨800, 600⟩ d e)) Desk.Regular start
    [.irq 0x21 0x28, .irq 0x21 5, .irq 0x21 251] := by
  refine ⟨fun _ _ => by decide, ?_⟩
  rintro _ ⟨⟩
  refine ⟨fun _ h => absurd h (by decide), ?_⟩
  rintro _ ⟨⟩
  refine ⟨fun _ h => absurd h (by decide), ?_⟩
  rintro _ ⟨⟩
  exact trivial

theorem inReach_small : Along (fun d e => some (Desk.step ⟨800, 600⟩ d e)) (Desk.InReach ⟨800, 600⟩) start
    [.irq 0x21 0x28, .irq 0x21 5, .irq 0x21 251] := by
  refine ⟨fun _ _ _ h => (by cases h), ?_⟩
  rintro _ ⟨⟩
  refine ⟨fun _ _ _ h => (by cases h), ?_⟩
  rintro _ ⟨⟩
  refine ⟨fun _ b0 b1 h => ?_, ?_⟩
  · cases h
    decide
  rintro _ ⟨⟩
  exact trivial

theorem mouse_tracking_small :
    (∀ pre, pre <+: [.irq 0x21 0x28, .irq 0x21 5, .irq 0x21 251] →
      Tracks (after ⟨800, 600⟩ idle.mouseInit pre) (pre.foldl (Desk.step ⟨800, 600⟩) start)) ∧
        replies (some ⟨800, 600⟩) idle.mouseInit [.irq 0x21 0x28, .irq 0x21 5, .irq 0x21 251] =
          fifoReplies (some ⟨800, 600⟩) idle.mouseInit [] [.irq 0x21 0x28, .irq 0x21 5, .irq 0x21 251] :=
  (mouse_tracking_iff (by decide) (by decide) idle _ regular_small).mpr inReach_small

-- the sign is in the first byte: 144 to the right is read as 112 to the left
theorem sign_bit_ignored :
    Along (fun d e => some (Desk.step ⟨800, 600⟩ d e)) Desk.Regular start
        [.irq 0x21 0x08, .irq 0x21 0x90, .irq 0x21 0] ∧
      ([.irq 0x21 0x08, .irq 0x21 0x90, .irq 0x21 0].foldl (Desk.step ⟨800, 600⟩) start).x = 144 ∧
      (after ⟨800, 600⟩ idle.mouseInit [.irq 0x21 0x08, .irq 0x21 0x90, .irq 0x21 0]).x = 0 := by
  refine ⟨⟨fun _ _ => by decide, ?_⟩, by decide, by decide⟩
  rintro _ ⟨⟩
  refine ⟨fun _ h => absurd h (by decide), ?_⟩
  rintro _ ⟨⟩
  refine ⟨fun _ h => absurd h (by decide), ?_⟩
  rintro _ ⟨⟩
  exact trivial

end Desk

end HouseOS.Mouse
