import HouseOS.Library.Run
import Mathlib.Logic.Function.Iterate

namespace HouseOS.Xhci

open HouseOS.Run

abbrev Word := BitVec 32

structure Trb where
  d0 : Word
  d1 : Word
  d2 : Word
  d3 : Word
  deriving DecidableEq, Repr

namespace Trb

def zero : Trb := ⟨0, 0, 0, 0⟩

def cycle (e : Trb) : Bool := e.d3.getLsbD 0

def toggles (e : Trb) : Bool := e.d3.getLsbD 1

def type (e : Trb) : Word := e.d3 >>> 10 &&& 0x3f

end Trb

def xhciTrbNormal : Word := 1

def xhciTrbLink : Word := 6

def xhciTrbCtrlIoc : Word := 1 <<< 5

def xhciCmdTrbs : Nat := 64

def trbBytes : Nat := 16

inductive CmdType
  | enableSlot
  | disableSlot
  | addressDevice
  | configEp
  deriving DecidableEq, Repr

def CmdType.code : CmdType → Word
  | enableSlot => 9
  | disableSlot => 10
  | addressDevice => 11
  | configEp => 12

structure Command where
  param : BitVec 64
  type : CmdType
  slotId : Word
  deriving DecidableEq, Repr

structure Transfer where
  buf : Word
  len : Word
  deriving DecidableEq, Repr

def cycleWord (cycle : Bool) : Word := if cycle then 1 else 0

def cmdTrb (r : Command) (cycle : Bool) : Trb :=
  let ctrl := r.type.code <<< 10 ||| cycleWord cycle
  { d0 := r.param.setWidth 32
    d1 := (r.param >>> 32).setWidth 32
    d2 := 0
    d3 := if r.slotId ≠ 0 then ctrl ||| r.slotId <<< 24 else ctrl }

def normalTrb (r : Transfer) (cycle : Bool) : Trb :=
  { d0 := r.buf
    d1 := 0
    d2 := r.len
    d3 := xhciTrbNormal <<< 10 ||| xhciTrbCtrlIoc ||| cycleWord cycle }

def linkCtrl : Word := xhciTrbLink <<< 10 ||| (1 : Word) <<< 1 ||| 1

def linkTrb (base : Word) : Trb := ⟨base, 0, 0, linkCtrl⟩

theorem cmdTrb_cycle (r : Command) (c : Bool) : (cmdTrb r c).cycle = c := by
  have hword : (cycleWord c).getLsbD 0 = c := by
    cases c <;> rfl
  rw [Trb.cycle, cmdTrb]
  dsimp only
  split
  · rw [BitVec.getLsbD_or, BitVec.getLsbD_or, hword]
    simp
  · rw [BitVec.getLsbD_or, hword]
    simp

theorem cmdTrb_typeBit (r : Command) (c : Bool) {k : Nat} (hk : k < 6) :
    (cmdTrb r c).type.getLsbD k = r.type.code.getLsbD k := by
  have hword : (cycleWord c).getLsbD (10 + k) = false := by
    cases c <;> simp [cycleWord, BitVec.getLsbD_one]
  have hmask : ∀ k < 6, (0x3f : Word).getLsbD k = true := by decide
  have hin : 10 + k < 32 := by omega
  have hslot : 10 + k < 24 := by omega
  rw [Trb.type, cmdTrb, BitVec.getLsbD_and, hmask k hk, Bool.and_true, BitVec.getLsbD_ushiftRight]
  dsimp only
  split
  · rw [BitVec.getLsbD_or, BitVec.getLsbD_or, hword, BitVec.getLsbD_shiftLeft, BitVec.getLsbD_shiftLeft]
    simp [hin, hslot]
  · rw [BitVec.getLsbD_or, hword, BitVec.getLsbD_shiftLeft]
    simp [hin]

theorem cmdTrb_type (r : Command) (c : Bool) : (cmdTrb r c).type ≠ xhciTrbLink := by
  have hcode : r.type.code.getLsbD 0 = true ∨ r.type.code.getLsbD 3 = true := by
    cases r.type <;> decide
  intro hlink
  rcases hcode with h | h
  · rw [← cmdTrb_typeBit r c (by decide), hlink] at h
    exact absurd h (by decide)
  · rw [← cmdTrb_typeBit r c (by decide), hlink] at h
    exact absurd h (by decide)

theorem normalTrb_cycle (r : Transfer) (c : Bool) : (normalTrb r c).cycle = c := by
  have hbit (c : Bool) :
      (xhciTrbNormal <<< 10 ||| xhciTrbCtrlIoc ||| cycleWord c).getLsbD 0 = c := by
    cases c <;> decide
  exact hbit c

theorem normalTrb_type (r : Transfer) (c : Bool) : (normalTrb r c).type ≠ xhciTrbLink := by
  have hbits (c : Bool) :
      (xhciTrbNormal <<< 10 ||| xhciTrbCtrlIoc ||| cycleWord c) >>> 10 &&& 0x3f ≠ xhciTrbLink := by
    cases c <;> decide
  exact hbits c

structure RingCode where
  Req : Type
  accepts : Req → Bool
  trb : Req → Bool → Trb
  base : Word
  slots : Nat
  -- what the set-up leaves behind the slots
  last : Trb
  -- the entry is zeroed before its words are written
  clears : Bool
  -- the index moves on before the wait, not after a successful one
  early : Bool
  slots_pos : 0 < slots
  trb_cycle : ∀ r c, (trb r c).cycle = c
  trb_type : ∀ r c, (trb r c).type ≠ xhciTrbLink
  last_eq : last = Trb.zero ∨ last = linkTrb base ∧ clears = true

def xhciCmdSubmitEx (base : Word) : RingCode where
  Req := Command
  accepts _ := true
  trb := cmdTrb
  base := base
  slots := xhciCmdTrbs - 1
  last := Trb.zero
  clears := false
  early := true
  slots_pos := by decide
  trb_cycle := cmdTrb_cycle
  trb_type := cmdTrb_type
  last_eq := .inl rfl

def transferRing (base : Word) : RingCode where
  Req := Transfer
  accepts r := decide (r.buf ≠ 0 ∧ r.len ≠ 0)
  trb := normalTrb
  base := base
  slots := 15
  last := linkTrb base
  clears := true
  early := false
  slots_pos := by decide
  trb_cycle := normalTrb_cycle
  trb_type := normalTrb_type
  last_eq := .inr ⟨rfl, rfl⟩

def xhciInterruptIn (base : Word) : RingCode := transferRing base

def xhciBulkXfer (base : Word) : RingCode := transferRing base

inductive Call (Req : Type)
  | none
  | writing (slot : Nat) (r : Req) (words : Nat)
  | waiting (slot : Nat)

-- `deq` and `ccs` are the controller's, `queued` and `consumed` the entries so far
structure Ring (code : RingCode) where
  entries : Nat → Trb
  idx : Nat
  cycle : Bool
  call : Call code.Req
  -- the last wait failed and the index stayed
  behind : Bool
  deq : Nat
  ccs : Bool
  queued : List Trb
  consumed : List Trb

inductive Event (Req : Type)
  | call (r : Req)
  | write
  | finish (done : Bool)
  | consume

def Trb.put (e old : Trb) : Nat → Trb
  | 0 => { old with d0 := e.d0 }
  | 1 => { old with d1 := e.d1 }
  | 2 => { old with d2 := e.d2 }
  | _ => { old with d3 := e.d3 }

namespace Ring

variable {code : RingCode}

def setUp (code : RingCode) : Ring code where
  entries i := if i = code.slots then code.last else Trb.zero
  idx := 0
  cycle := true
  call := .none
  behind := false
  deq := 0
  ccs := true
  queued := []
  consumed := []

def wrap (code : RingCode) (idx : Nat) (cycle : Bool) : Nat × Bool :=
  if code.slots ≤ idx then (0, !cycle) else (idx, cycle)

def start (s : Ring code) (r : code.Req) : Ring code :=
  if code.accepts r then
    let (slot, cycle) := wrap code s.idx s.cycle
    { s with
      entries := if code.clears then Function.update s.entries slot Trb.zero else s.entries
      idx := if code.early then slot else s.idx
      cycle := cycle
      call := .writing slot r 0 }
  else s

def moveOn (s : Ring code) (slot : Nat) : Ring code :=
  let (idx, cycle) := wrap code (slot + 1) s.cycle
  { s with idx := idx, cycle := cycle, behind := false }

-- the word with the cycle bit is the last one
def writeWord (s : Ring code) (slot : Nat) (r : code.Req) (words : Nat) : Ring code :=
  let e := code.trb r s.cycle
  let t := { s with entries := Function.update s.entries slot (e.put (s.entries slot) words) }
  if words < 3 then { t with call := .writing slot r (words + 1) }
  else
    let t := { t with call := .waiting slot, queued := s.queued ++ [e] }
    if code.early then t.moveOn slot else t

def finish (s : Ring code) (slot : Nat) (done : Bool) : Ring code :=
  let t := { s with call := .none }
  if code.early then t else if done then t.moveOn slot else { t with behind := true }

def consume (s : Ring code) : Ring code :=
  let e := s.entries s.deq
  if e.cycle ≠ s.ccs then s
  else if e.type = xhciTrbLink then
    { s with deq := (e.d0 - code.base).toNat / trbBytes, ccs := s.ccs ^^ e.toggles }
  else { s with deq := s.deq + 1, consumed := s.consumed ++ [e] }

def step (s : Ring code) : Event code.Req → Option (Ring code)
  | .call r =>
    match s.call with
    | .none => some (s.start r)
    | _ => none
  | .write =>
    match s.call with
    | .writing slot r words => some (s.writeWord slot r words)
    | _ => none
  | .finish done =>
    match s.call with
    | .waiting slot => some (s.finish slot done)
    | _ => none
  | .consume => some s.consume

def Writing (s : Ring code) : Prop := ∃ slot r words, s.call = .writing slot r words

-- in order, and none left out once the controller goes on
structure Delivers (s : Ring code) : Prop where
  ordered : s.consumed <+: s.queued
  complete : ¬s.Writing → ∃ k, (consume^[k] s).consumed = s.queued

end Ring

-- the cycle bit of the link entry is never written again
def RingCode.limit (code : RingCode) : Nat :=
  if code.last = Trb.zero then code.slots else 2 * code.slots

-- `call`: the index is right and the slot is free; `consume`: no half-written entry is owned
def Ring.Allowed {code : RingCode} (s : Ring code) : Event code.Req → Prop
  | .call r => code.accepts r → s.behind = false ∧ s.queued.length < code.limit ∧
      s.queued.length < s.consumed.length + code.slots
  | .consume => ∀ r words, s.call = .writing s.deq r words → code.clears = true → s.ccs = true
  | _ => True

instance {code : RingCode} (s : Ring code) : ∀ e, Decidable (s.Allowed e)
  | .call r => inferInstanceAs (Decidable (code.accepts r = true → _))
  | .write => isTrue trivial
  | .finish _ => isTrue trivial
  | .consume =>
    match h : s.call with
    | .none => isTrue fun r words hcall => by rw [h] at hcall; cases hcall
    | .waiting slot => isTrue fun r words hcall => by rw [h] at hcall; cases hcall
    | .writing slot r words =>
      decidable_of_iff (slot = s.deq → code.clears = true → s.ccs = true)
        ⟨fun hok r' words' hcall => by rw [h] at hcall; cases hcall; exact hok rfl,
          fun hok heq => hok r words (heq ▸ h)⟩

end HouseOS.Xhci
