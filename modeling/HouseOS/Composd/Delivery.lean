import HouseOS.Composd.Packets
import Mathlib.Data.List.Induction

namespace HouseOS.Composd

open HouseOS.Words

section Event

variable {state : WmState} {msg datagram : Text} {queue : List UiEvent}

def received (datagram : Text) : Text := (datagram.take msgCap).takeWhile (· ≠ 0)

def fieldsOf (datagram : Text) : List (Text × Text) :=
  wordFields (words isSpace (received datagram)).tail

-- what a datagram comes to: a key packet loses its fields, since the state parser has already
-- ended the buffer's string behind the name
def packetEvent (state : WmState) (datagram : Text) : Option UiEvent :=
  match words isSpace (received datagram) with
  | [] => none
  | name :: fields =>
      if name = stateName then
        some ⟨.state, setFields putState state (wordFields fields), noKey⟩
      else if name = keyName then some ⟨.key, state, noKey⟩
      else none

theorem zero_not_mem_received (datagram : Text) : 0 ∉ received datagram := by
  intro h
  simpa using List.mem_takeWhile_imp h

theorem recvInto_text (msg datagram : Text) :
    ∃ post, recvInto msg datagram = received datagram ++ 0 :: post := by
  have hsplit := List.takeWhile_append_dropWhile
    (p := fun c => decide (c ≠ 0)) (l := datagram.take msgCap)
  cases hdrop : (datagram.take msgCap).dropWhile fun c => decide (c ≠ 0) with
  | nil =>
    rw [hdrop, List.append_nil] at hsplit
    refine ⟨msg.drop ((datagram.take msgCap).length + 1), ?_⟩
    rw [recvInto, received, hsplit]
  | cons c more =>
    have hc : c = 0 := by
      have := List.head?_dropWhile_not (fun c => decide (c ≠ (0 : UInt8))) (datagram.take msgCap)
      rw [hdrop] at this
      simpa using this
    refine ⟨more ++ 0 :: msg.drop ((datagram.take msgCap).length + 1), ?_⟩
    rw [hdrop, hc] at hsplit
    have hline : datagram.take msgCap = received datagram ++ 0 :: more := hsplit.symm
    rw [recvInto]
    conv_lhs => arg 1; rw [hline]
    rw [List.append_assoc, List.cons_append]

theorem pollPacket_event (state : WmState) (msg : Text) (queue : List UiEvent) (datagram : Text) :
    (pollPacket state msg queue datagram).2 =
      match packetEvent state datagram with
      | none => queue
      | some ev => evtPush queue ev := by
  obtain ⟨post, hbuf⟩ := recvInto_text msg datagram
  have hno := zero_not_mem_received datagram
  rw [pollPacket, packetEvent, hbuf]
  dsimp only [parseStatePacket, parseKeyPacket]
  cases hwords : words isSpace (received datagram) with
  | nil =>
    rw [parsePacket_blanks hno hwords]
    dsimp only
    rw [parsePacket_blanks hno hwords]
  | cons name fields =>
    dsimp only
    by_cases hstate : name = stateName
    · subst hstate
      rw [parsePacket_named hno (by decide) hwords, if_pos rfl]
    · obtain ⟨hnone, left, post', hleftno, hleftname, hleft⟩ :=
        parsePacket_other putState state post hno hstate hwords
      rw [hnone, hleft, if_neg hstate]
      dsimp only
      by_cases hkey : name = keyName
      · subst hkey
        rw [parsePacket_named hleftno (by decide) hleftname, if_pos rfl]
        rfl
      · rw [(parsePacket_other _ _ _ hleftno hkey hleftname).1, if_neg hkey]

theorem pollPackets_events (state : WmState) : ∀ (inbox : List Text) (msg : Text)
    (queue : List UiEvent), pollPackets state msg queue inbox =
      ((inbox.takeWhile (· ≠ [])).filterMap (packetEvent state)).foldl evtPush queue := by
  intro inbox
  induction inbox with
  | nil => exact fun _ _ => rfl
  | cons datagram inbox ih =>
    intro msg queue
    rw [pollPackets]
    by_cases hempty : datagram = []
    · rw [if_pos hempty, List.takeWhile_cons, if_neg (by simpa using hempty)]
      rfl
    · rw [if_neg hempty, List.takeWhile_cons, if_pos (by simpa using hempty)]
      dsimp only
      rw [ih, pollPacket_event]
      cases hev : packetEvent state datagram with
      | none => rw [List.filterMap_cons_none hev]
      | some ev => rw [List.filterMap_cons_some hev, List.foldl_cons]

end Event

section Carried

variable {α β σ : Type} {fields : List (Text × Text)}

def carried (read : Text → Option α) (fields : List (Text × Text)) (key : Text) : Option α :=
  (fields.filterMap fun f => if f.1 = key then read f.2 else none).getLast?

theorem carried_map (read : Text → Option α) (g : α → β) (key : Text) :
    carried (fun v => (read v).map g) fields key = (carried read fields key).map g := by
  have hmap : (fields.filterMap fun f => if f.1 = key then (read f.2).map g else none) =
      (fields.filterMap fun f => if f.1 = key then read f.2 else none).map g := by
    rw [List.map_filterMap]
    congr 1
    funext f
    split <;> rfl
  rw [carried, carried, hmap, List.getLast?_map]

theorem setFields_carried {put : σ → Text → Text → σ} {proj : σ → α} (read : Text → Option α)
    {key : Text} (hput : ∀ out k v, proj (put out k v) =
      if k = key then (read v).getD (proj out) else proj out) (out : σ)
    (fields : List (Text × Text)) :
    proj (setFields put out fields) = (carried read fields key).getD (proj out) := by
  induction fields using List.reverseRecOn with
  | nil => rfl
  | append_singleton fields f ih =>
    rw [setFields, List.foldl_append, List.foldl_cons, List.foldl_nil, hput]
    change (if f.1 = key then (read f.2).getD (proj (setFields put out fields))
      else proj (setFields put out fields)) = _
    have hlast : carried read (fields ++ [f]) key =
        ((fields.filterMap fun f => if f.1 = key then read f.2 else none) ++
          [f].filterMap fun f => if f.1 = key then read f.2 else none).getLast? := by
      rw [carried, List.filterMap_append]
    rw [ih, hlast]
    by_cases hkey : f.1 = key
    · rw [if_pos hkey]
      cases hread : read f.2 with
      | none => simp [hkey, hread, carried]
      | some v => simp [hkey, hread]
    · rw [if_neg hkey]
      simp [hkey, carried]

end Carried

section Decimal

def decimalFrom : Nat → Text → Option Nat
  | v, [] => some v
  | v, c :: cs => (digit? c).bind fun d => decimalFrom (v * 10 + d) cs

def decimal (s : Text) : Option Nat := if s = [] then none else decimalFrom 0 s

def signedDecimal : Text → Option Int
  | [] => none
  | c :: s => if c = 45 then (decimal s).map fun n => -(n : Int) else (decimal (c :: s)).map Int.ofNat

theorem parseU32From_decimal : ∀ (s : Text) (v : Nat),
    parseU32From (v % 2 ^ 32) s = (decimalFrom v s).map (· % 2 ^ 32) := by
  intro s
  induction s with
  | nil => exact fun _ => rfl
  | cons c s ih =>
    intro v
    rw [parseU32From, decimalFrom]
    cases digit? c with
    | none => rfl
    | some d =>
      have hstep : (v % 2 ^ 32 * 10 + d) % 2 ^ 32 = (v * 10 + d) % 2 ^ 32 := by omega
      rw [Option.bind_some, Option.bind_some, hstep, ih]

theorem parseU32_decimal (s : Text) : parseU32 s = (decimal s).map (· % 2 ^ 32) := by
  rw [parseU32, decimal]
  split
  · rfl
  · exact parseU32From_decimal s 0

end Decimal

section Delivery

variable {state : WmState} {msg datagram : Text} {queue : List UiEvent}

inductive PacketKind where
  | state
  | key
  deriving DecidableEq, Repr

def PacketKind.name : PacketKind → Text
  | .state => stateName
  | .key => keyName

def PacketKind.type : PacketKind → EvtType
  | .state => .state
  | .key => .key

def PacketKind.Carries (fields : List (Text × Text)) (ev : UiEvent) : PacketKind → Prop
  | .state =>
      (∀ v, carried some fields modeKey = some v → ev.st.mode = v) ∧
      (∀ v, carried some fields ipKey = some v → ev.st.ip = v) ∧
      (∀ n, carried decimal fields mxKey = some n → ev.st.mx = n) ∧
      (∀ n, carried decimal fields myKey = some n → ev.st.my = n) ∧
      ∀ n, carried decimal fields btnKey = some n → ev.st.btn = n
  | .key =>
      (∀ n, carried signedDecimal fields asciiKey = some n → ev.key.ascii = n) ∧
      (∀ n, carried decimal fields scancodeKey = some n → ev.key.scancode = n) ∧
      (∀ n, carried decimal fields pressedKey = some n → ev.key.pressed = n) ∧
      (∀ n, carried decimal fields shiftKey = some n → ev.key.shift = n) ∧
      (∀ n, carried decimal fields ctrlKey = some n → ev.key.ctrl = n) ∧
      ∀ n, carried decimal fields altKey = some n → ev.key.alt = n

def PacketKind.Fits (fields : List (Text × Text)) : PacketKind → Prop
  | .state =>
      (∀ v, carried some fields modeKey = some v → v.length ≤ 15) ∧
      (∀ v, carried some fields ipKey = some v → v.length ≤ 31) ∧
      ∀ key ∈ [mxKey, myKey, btnKey], ∀ n, carried decimal fields key = some n → n < 2 ^ 32
  | .key =>
      (∀ n, carried signedDecimal fields asciiKey = some n → n = 0) ∧
      ∀ key ∈ [scancodeKey, pressedKey, shiftKey, ctrlKey, altKey], ∀ n,
        carried decimal fields key = some n → n = 0

def Delivered (kind : PacketKind) (state : WmState) (msg : Text) (queue : List UiEvent)
    (datagram : Text) : Prop :=
  ∃ ev, (pollPacket state msg queue datagram).2 = evtPush queue ev ∧ ev.type = kind.type ∧
    kind.Carries (fieldsOf datagram) ev

theorem evtPush_inj {ev ev' : UiEvent} (h : evtPush queue ev = evtPush queue ev') : ev = ev' := by
  have := List.append_cancel_left h
  simpa using this

theorem packetEvent_state (h : (words isSpace (received datagram)).head? = some stateName) :
    packetEvent state datagram =
      some ⟨.state, setFields putState state (fieldsOf datagram), noKey⟩ := by
  obtain ⟨ws, hws⟩ := List.head?_eq_some_iff.mp h
  rw [packetEvent, fieldsOf, hws]
  rfl

theorem packetEvent_key (h : (words isSpace (received datagram)).head? = some keyName) :
    packetEvent state datagram = some ⟨.key, state, noKey⟩ := by
  obtain ⟨ws, hws⟩ := List.head?_eq_some_iff.mp h
  rw [packetEvent, hws]
  dsimp only
  rw [if_neg (by decide), if_pos rfl]

theorem putState_text (proj : WmState → Text) (key : Text) (room : Nat)
    (hput : ∀ out k v, proj (putState out k v) =
      if k = key then (some (v.take room)).getD (proj out) else proj out)
    (state : WmState) (fields : List (Text × Text)) :
    (∀ v, carried some fields key = some v → proj (setFields putState state fields) = v) ↔
      ∀ v, carried some fields key = some v → v.length ≤ room := by
  have hset := setFields_carried (fun v => some (v.take room)) hput state fields
  have hread : carried (fun v : Text => some (v.take room)) fields key =
      (carried some fields key).map (·.take room) := carried_map some (·.take room) key
  rw [hset, hread]
  refine forall₂_congr fun v hv => ?_
  rw [hv]
  constructor
  · intro h
    rw [← h]
    exact List.length_take_le room v
  · exact List.take_of_length_le

theorem putState_number (proj : WmState → Nat) (key : Text)
    (hput : ∀ out k v, proj (putState out k v) =
      if k = key then (parseU32 v).getD (proj out) else proj out)
    (state : WmState) (fields : List (Text × Text)) :
    (∀ n, carried decimal fields key = some n → proj (setFields putState state fields) = n) ↔
      ∀ n, carried decimal fields key = some n → n < 2 ^ 32 := by
  have hset := setFields_carried parseU32 hput state fields
  have hread : carried parseU32 fields key = (carried decimal fields key).map (· % 2 ^ 32) := by
    rw [← carried_map, funext parseU32_decimal]
  rw [hset, hread]
  refine forall₂_congr fun n hn => ?_
  rw [hn]
  constructor
  · intro h
    rw [← h]
    exact Nat.mod_lt _ (by decide)
  · exact Nat.mod_eq_of_lt

theorem state_carries_iff (state : WmState) (fields : List (Text × Text)) :
    PacketKind.Carries fields ⟨.state, setFields putState state fields, noKey⟩ .state ↔
      PacketKind.Fits fields .state := by
  have hmode := putState_text WmState.mode modeKey 15
    (fun out k v => by unfold putState; split_ifs <;> simp_all [modeKey, ipKey, mxKey, myKey, btnKey])
    state fields
  have hip := putState_text WmState.ip ipKey 31
    (fun out k v => by unfold putState; split_ifs <;> simp_all [modeKey, ipKey, mxKey, myKey, btnKey])
    state fields
  have hmx := putState_number WmState.mx mxKey
    (fun out k v => by unfold putState; split_ifs <;> simp_all [modeKey, ipKey, mxKey, myKey, btnKey])
    state fields
  have hmy := putState_number WmState.my myKey
    (fun out k v => by unfold putState; split_ifs <;> simp_all [modeKey, ipKey, mxKey, myKey, btnKey])
    state fields
  have hbtn := putState_number WmState.btn btnKey
    (fun out k v => by unfold putState; split_ifs <;> simp_all [modeKey, ipKey, mxKey, myKey, btnKey])
    state fields
  unfold PacketKind.Carries PacketKind.Fits
  rw [hmode, hip, hmx, hmy, hbtn]
  simp only [List.mem_cons, List.not_mem_nil, or_false, forall_eq_or_imp, forall_eq]

theorem key_carries_iff (state : WmState) (fields : List (Text × Text)) :
    PacketKind.Carries fields ⟨.key, state, noKey⟩ .key ↔ PacketKind.Fits fields .key := by
  unfold PacketKind.Carries PacketKind.Fits noKey
  simp only [List.mem_cons, List.not_mem_nil, or_false, forall_eq_or_imp, forall_eq, eq_comm]

end Delivery

end HouseOS.Composd
