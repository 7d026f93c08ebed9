import HouseOS.Library.Ring
import HouseOS.Xhci.Rings

namespace HouseOS.Xhci

open HouseOS.CycleRing
open HouseOS.Run

theorem linkTrb_cycle (base : Word) : (linkTrb base).cycle = true :=
  (by decide : linkCtrl.getLsbD 0 = true)

theorem linkTrb_toggles (base : Word) : (linkTrb base).toggles = true :=
  (by decide : linkCtrl.getLsbD 1 = true)

theorem linkTrb_type (base : Word) : (linkTrb base).type = xhciTrbLink :=
  (by decide : linkCtrl >>> 10 &&& 0x3f = xhciTrbLink)

theorem linkTrb_ne_zero (base : Word) : linkTrb base ≠ Trb.zero := fun h =>
  absurd (congrArg Trb.d3 h) (by decide : linkCtrl ≠ 0)

theorem RingCode.limit_cases (code : RingCode) :
    (code.last = Trb.zero ∧ code.limit = code.slots) ∨
      code.last = linkTrb code.base ∧ code.clears = true ∧ code.limit = 2 * code.slots := by
  rcases code.last_eq with h | ⟨h, hclears⟩
  · exact .inl ⟨h, if_pos h⟩
  · refine .inr ⟨h, hclears, if_neg ?_⟩
    rw [h]
    exact linkTrb_ne_zero _

theorem RingCode.limit_le (code : RingCode) : code.limit ≤ 2 * code.slots := by
  rcases code.limit_cases with ⟨-, h⟩ | ⟨-, -, h⟩ <;> omega

def Trb.begun (e : Trb) (words : Nat) : Trb :=
  ⟨if 0 < words then e.d0 else 0, if 1 < words then e.d1 else 0, if 2 < words then e.d2 else 0, 0⟩

theorem Trb.put_begun (e : Trb) {words : Nat} (h : words < 3) :
    e.put (e.begun words) words = e.begun (words + 1) := by
  rcases words with _ | _ | _ | words
  · rfl
  · rfl
  · rfl
  · omega

theorem Trb.put_whole (e : Trb) : e.put (e.begun 3) 3 = e := rfl

theorem Trb.begun_cycle (e : Trb) (words : Nat) : (e.begun words).cycle = false := BitVec.getLsbD_zero

namespace Ring

variable {code : RingCode} {s : Ring code}

section Steps

theorem consume_idle (h : (s.entries s.deq).cycle ≠ s.ccs) : s.consume = s := if_pos h

theorem consume_entry {e : Trb} (he : s.entries s.deq = e) (hcycle : e.cycle = s.ccs)
    (htype : e.type ≠ xhciTrbLink) :
    s.consume = { s with deq := s.deq + 1, consumed := s.consumed ++ [e] } := by
  subst he
  rw [consume, if_neg (not_not.mpr hcycle), if_neg htype]

theorem consume_link (he : s.entries s.deq = linkTrb code.base) (hccs : s.ccs = true) :
    s.consume = { s with deq := 0, ccs := false } := by
  have htarget : ((linkTrb code.base).d0 - code.base).toNat / trbBytes = 0 := by
    rw [linkTrb, BitVec.sub_self]
    rfl
  rw [consume, he, if_neg (not_not.mpr (hccs ▸ linkTrb_cycle _)), if_pos (linkTrb_type _), htarget, linkTrb_toggles, hccs]
  rfl

theorem consume_call : s.consume.call = s.call := by
  rw [consume]
  split_ifs <;> rfl

theorem consume_queued : s.consume.queued = s.queued := by
  rw [consume]
  split_ifs <;> rfl

end Steps

structure Ready (code : RingCode) (idx : Nat) (cycle : Bool) (queued : List Trb) : Prop where
  idx : idx = queued.length % code.slots
  cycle : cycle = cycleAt code.slots queued.length

structure Begun (s : Ring code) (slot : Nat) (r : code.Req) (words : Nat) : Prop where
  slot_eq : slot = s.queued.length % code.slots
  cycle : s.cycle = cycleAt code.slots s.queued.length
  limit : s.queued.length < code.limit
  room : s.queued.length < s.consumed.length + code.slots
  words_le : words ≤ 3
  entry : s.entries slot = (code.trb r s.cycle).begun words

-- the entry waited for is the last one, and the index still stands on it
structure Held (code : RingCode) (slot : Nat) (cycle : Bool) (queued : List Trb) : Prop where
  slot_eq : slot = (queued.length - 1) % code.slots
  cycle : cycle = cycleAt code.slots (queued.length - 1)
  queued : 0 < queued.length

def Phase (s : Ring code) : Prop :=
  match s.call with
  | .none => s.behind = false → Ready code s.idx s.cycle s.queued
  | .writing slot r words => s.Begun slot r words
  | .waiting slot => if code.early then Ready code s.idx s.cycle s.queued
      else Held code slot s.cycle s.queued

structure Stored (code : RingCode) (writing : Prop) (entries : Nat → Trb) (queued : List Trb) :
    Prop where
  bits : ∀ j e, queued[j]? = some e → e.cycle = cycleAt code.slots j ∧ e.type ≠ xhciTrbLink
  held : Holds (code.slots - 1) code.slots entries queued
  full : ¬writing → Holds code.slots code.slots entries queued
  last : entries code.slots = code.last
  fresh : ∀ i, queued.length < i → i < code.slots → entries i = Trb.zero
  next : ¬writing → queued.length < code.slots → entries queued.length = Trb.zero

structure Inside (code : RingCode) (deq : Nat) (ccs : Bool) (consumed : Nat) : Prop where
  deq : deq = consumed % code.slots
  ccs : ccs = cycleAt code.slots consumed
  limit : consumed < code.limit

structure AtEnd (code : RingCode) (deq : Nat) (ccs : Bool) (consumed : Nat) : Prop where
  deq : deq = code.slots
  pass : (consumed = code.slots ∧ ccs = true) ∨ consumed = 2 * code.slots ∧ ccs = false

structure Inv (s : Ring code) : Prop where
  ordered : s.consumed <+: s.queued
  limit : s.queued.length ≤ code.limit
  room : s.queued.length ≤ s.consumed.length + code.slots
  stored : Stored code s.Writing s.entries s.queued
  cursor : Inside code s.deq s.ccs s.consumed.length ∨ AtEnd code s.deq s.ccs s.consumed.length
  phase : s.Phase

theorem inv_setUp (code : RingCode) : (setUp code).Inv := by
  have hpos := code.slots_pos
  refine ⟨List.nil_prefix, Nat.zero_le _, Nat.zero_le _, ?_, .inl ⟨?_, ?_, ?_⟩, fun _ => ⟨?_, ?_⟩⟩
  · refine ⟨fun j e he => ?_, Holds.nil, fun _ => Holds.nil, if_pos rfl, fun i _ hi => ?_, fun _ hi => ?_⟩
    · exact nomatch he
    · exact if_neg (by omega)
    · exact if_neg (Nat.ne_of_lt hi)
  · exact (Nat.zero_mod _).symm
  · exact (cycleAt_first hpos).symm
  · show 0 < code.limit
    rcases code.limit_cases with ⟨-, h⟩ | ⟨-, -, h⟩ <;> omega
  · exact (Nat.zero_mod _).symm
  · exact (cycleAt_first hpos).symm

section Driver

variable {r : code.Req} {slot words : Nat}

theorem Phase.none (h : s.Phase) (hcall : s.call = .none) : s.behind = false → Ready code s.idx s.cycle s.queued := by
  rw [Phase, hcall] at h
  exact h

theorem Phase.writing (h : s.Phase) (hcall : s.call = .writing slot r words) : s.Begun slot r words := by
  rw [Phase, hcall] at h
  exact h

theorem Phase.waiting (h : s.Phase) (hcall : s.call = .waiting slot) :
    if code.early then Ready code s.idx s.cycle s.queued else Held code slot s.cycle s.queued := by
  rw [Phase, hcall] at h
  exact h

theorem not_writing_of_none (hcall : s.call = .none) : ¬s.Writing := by
  rintro ⟨slot, r, words, h⟩
  rw [hcall] at h
  cases h

theorem not_writing_of_waiting (hcall : s.call = .waiting slot) : ¬s.Writing := by
  rintro ⟨slot, r, words, h⟩
  rw [hcall] at h
  cases h

theorem wrap_slot (i : Nat) :
    wrap code (i % code.slots) (cycleAt code.slots i) = (i % code.slots, cycleAt code.slots i) :=
  if_neg (Nat.not_le_of_lt (Nat.mod_lt _ code.slots_pos))

theorem wrap_succ (i : Nat) : wrap code (i % code.slots + 1) (cycleAt code.slots i) =
    ((i + 1) % code.slots, cycleAt code.slots (i + 1)) := by
  have hlt := Nat.mod_lt i code.slots_pos
  by_cases hlast : i % code.slots + 1 = code.slots
  · rw [wrap, if_pos (by omega), mod_turn hlast, cycleAt_turn code.slots_pos hlast]
  · rw [wrap, if_neg (by omega), mod_succ (by omega), cycleAt_succ (by omega)]

section Slots

variable {entries : Nat → Trb} {queued : List Trb} {writing : Prop}

theorem unused_ne {i : Nat} (hi : queued.length < i) : i ≠ queued.length % code.slots := by
  have := Nat.mod_le queued.length code.slots
  omega

theorem end_ne : code.slots ≠ queued.length % code.slots := by
  have := Nat.mod_lt queued.length code.slots_pos
  omega

theorem Stored.update (h : Stored code writing entries queued) (e : Trb) {writing' : Prop}
    (hwriting : writing') :
    Stored code writing' (Function.update entries (queued.length % code.slots) e) queued := by
  have hpos := code.slots_pos
  refine ⟨h.bits, h.held.update (by omega) e, fun hno => absurd hwriting hno, ?_, fun i hi hlt => ?_,
    fun hno => absurd hwriting hno⟩
  · rw [Function.update_of_ne end_ne]
    exact h.last
  · rw [Function.update_of_ne (unused_ne hi)]
    exact h.fresh i hi hlt

theorem Stored.clear (h : Stored code writing entries queued) (hno : ¬writing)
    (hq : queued.length < code.limit) :
    (if code.clears then Function.update entries (queued.length % code.slots) Trb.zero else entries) =
      Function.update entries (queued.length % code.slots) Trb.zero := by
  cases hclears : code.clears with
  | true => rfl
  | false =>
    rcases code.limit_cases with ⟨-, hlimit⟩ | ⟨-, hset, -⟩
    · have hlt : queued.length < code.slots := by omega
      rw [Nat.mod_eq_of_lt hlt]
      exact (Function.update_eq_self_iff.mpr (h.next hno hlt).symm).symm
    · rw [hclears] at hset
      cases hset

theorem Stored.push (h : Stored code writing entries queued) {e : Trb}
    (hcycle : e.cycle = cycleAt code.slots queued.length) (htype : e.type ≠ xhciTrbLink)
    (writing' : Prop) :
    Stored code writing' (Function.update entries (queued.length % code.slots) e) (queued ++ [e]) := by
  have hpos := code.slots_pos
  have hheld : Holds code.slots code.slots
      (Function.update entries (queued.length % code.slots) e) (queued ++ [e]) := by
    have hpush := (h.held.update (by omega) e).push (Function.update_self _ _ _)
    rwa [Nat.sub_add_cancel hpos] at hpush
  have hzero {i : Nat} (hi : queued.length < i) (hlt : i < code.slots) :
      Function.update entries (queued.length % code.slots) e i = Trb.zero := by
    rw [Function.update_of_ne (unused_ne hi)]
    exact h.fresh i hi hlt
  refine ⟨fun j x hx => ?_, hheld.mono (by omega), fun _ => hheld, ?_, fun i hi hlt => ?_, fun _ hlt => ?_⟩
  · rw [List.getElem?_append] at hx
    split at hx
    · exact h.bits j x hx
    · rename_i hge
      have hlt := (List.getElem?_eq_some_iff.mp hx).1
      rw [List.length_singleton] at hlt
      have hlast : j = queued.length := by omega
      subst hlast
      rw [Nat.sub_self, List.getElem?_cons_zero] at hx
      cases hx
      exact ⟨hcycle, htype⟩
  · rw [Function.update_of_ne end_ne]
    exact h.last
  · rw [List.length_append, List.length_singleton] at hi
    exact hzero (by omega) hlt
  · rw [List.length_append, List.length_singleton] at hlt ⊢
    exact hzero (by omega) hlt

end Slots

theorem inv_start (h : s.Inv) (hcall : s.call = .none) (hok : s.Allowed (.call r)) :
    (s.start r).Inv := by
  cases haccepts : code.accepts r with
  | false =>
    have hsame : s.start r = s := by
      rw [start, haccepts]
      rfl
    rw [hsame]
    exact h
  | true =>
    obtain ⟨hbehind, hlimit, hroom⟩ := hok haccepts
    have hready := h.phase.none hcall hbehind
    have hno := not_writing_of_none hcall
    have hstart : s.start r = { s with
        entries := Function.update s.entries (s.queued.length % code.slots) Trb.zero
        call := .writing (s.queued.length % code.slots) r 0 } := by
      rw [start, haccepts, hready.idx, hready.cycle, wrap_slot]
      dsimp only
      rw [if_pos rfl, h.stored.clear hno hlimit, ite_self, ← hready.idx, ← hready.cycle]
    rw [hstart]
    refine ⟨h.ordered, h.limit, h.room, h.stored.update Trb.zero ⟨_, _, _, rfl⟩, h.cursor, ?_⟩
    exact ⟨rfl, hready.cycle, hlimit, hroom, by omega, Function.update_self _ _ _⟩

theorem Held.moveOn {t : Ring code} (h : Held code slot t.cycle t.queued) :
    Ready code (t.moveOn slot).idx (t.moveOn slot).cycle t.queued := by
  have hnext := @wrap_succ code (t.queued.length - 1)
  rw [← h.slot_eq, ← h.cycle, Nat.sub_add_cancel h.queued] at hnext
  rw [Ring.moveOn, hnext]
  exact ⟨rfl, rfl⟩

theorem Held.of_push {queued : List Trb} {cycle : Bool} (hslot : slot = queued.length % code.slots)
    (hcycle : cycle = cycleAt code.slots queued.length) (e : Trb) :
    Held code slot cycle (queued ++ [e]) := by
  have hlength : (queued ++ [e]).length = queued.length + 1 := List.length_append
  refine ⟨?_, ?_, ?_⟩
  · rw [hlength, Nat.add_sub_cancel, hslot]
  · rw [hlength, Nat.add_sub_cancel, hcycle]
  · rw [hlength]
    exact Nat.succ_pos _

theorem inv_writeWord (h : s.Inv) (hcall : s.call = .writing slot r words) :
    (s.writeWord slot r words).Inv := by
  have hbegun := h.phase.writing hcall
  have hwords := hbegun.words_le
  rw [writeWord, hbegun.slot_eq]
  dsimp only
  by_cases hlast : words < 3
  · rw [if_pos hlast]
    refine ⟨h.ordered, h.limit, h.room, h.stored.update _ ⟨_, _, _, rfl⟩, h.cursor, ?_⟩
    refine ⟨rfl, hbegun.cycle, hbegun.limit, hbegun.room, hlast, ?_⟩
    dsimp only
    rw [Function.update_self, ← hbegun.slot_eq, hbegun.entry, Trb.put_begun _ hlast]
  · obtain rfl : words = 3 := by omega
    have hentry : (code.trb r s.cycle).put (s.entries (s.queued.length % code.slots)) 3 =
        code.trb r s.cycle := by
      rw [← hbegun.slot_eq, hbegun.entry, Trb.put_whole]
    have hlength : (s.queued ++ [code.trb r s.cycle]).length = s.queued.length + 1 := List.length_append
    have hstored (writing : Prop) := h.stored.push
      ((code.trb_cycle r s.cycle).trans hbegun.cycle) (code.trb_type r s.cycle) writing
    have hordered : s.consumed <+: s.queued ++ [code.trb r s.cycle] :=
      h.ordered.trans (List.prefix_append _ _)
    have hlimit : (s.queued ++ [code.trb r s.cycle]).length ≤ code.limit := hlength ▸ hbegun.limit
    have hroom : (s.queued ++ [code.trb r s.cycle]).length ≤ s.consumed.length + code.slots :=
      hlength ▸ hbegun.room
    have hheld : Held code (s.queued.length % code.slots) s.cycle (s.queued ++ [code.trb r s.cycle]) :=
      .of_push rfl hbegun.cycle _
    rw [if_neg hlast, hentry]
    cases hearly : code.early with
    | false =>
      rw [if_neg Bool.false_ne_true]
      refine ⟨hordered, hlimit, hroom, hstored _, h.cursor, ?_⟩
      rw [Phase]
      dsimp only
      rw [hearly, if_neg Bool.false_ne_true]
      exact hheld
    | true =>
      rw [if_pos rfl]
      refine ⟨hordered, hlimit, hroom, hstored _, h.cursor, ?_⟩
      rw [Phase]
      dsimp only [moveOn]
      rw [hearly, if_pos rfl]
      exact Held.moveOn (t := { s with queued := s.queued ++ [code.trb r s.cycle] }) hheld

theorem Stored.idle {writing : Prop} {entries : Nat → Trb} {queued : List Trb}
    (h : Stored code writing entries queued) (hno : ¬writing) (writing' : Prop) :
    Stored code writing' entries queued :=
  ⟨h.bits, h.held, fun _ => h.full hno, h.last, h.fresh, fun _ => h.next hno⟩

theorem inv_finish (h : s.Inv) (hcall : s.call = .waiting slot) (done : Bool) :
    (s.finish slot done).Inv := by
  have hwait := h.phase.waiting hcall
  have hstored (writing : Prop) := h.stored.idle (not_writing_of_waiting hcall) writing
  rw [finish]
  dsimp only
  cases hearly : code.early with
  | true =>
    rw [hearly, if_pos rfl] at hwait
    rw [if_pos rfl]
    exact ⟨h.ordered, h.limit, h.room, hstored _, h.cursor, fun _ => hwait⟩
  | false =>
    rw [hearly, if_neg Bool.false_ne_true] at hwait
    rw [if_neg Bool.false_ne_true]
    cases done with
    | true => exact ⟨h.ordered, h.limit, h.room, hstored _, h.cursor, fun _ => hwait.moveOn⟩
    | false => exact ⟨h.ordered, h.limit, h.room, hstored _, h.cursor, nofun⟩

end Driver

section Controller

structure NextEntry (s : Ring code) (e : Trb) : Prop where
  inside : Inside code s.deq s.ccs s.consumed.length
  next : s.queued[s.consumed.length]? = some e
  result : s.consume = { s with deq := s.deq + 1, consumed := s.consumed ++ [e] }

structure FollowsLink (s : Ring code) : Prop where
  deq : s.deq = code.slots
  consumed : s.consumed.length = code.slots
  limit : code.limit = 2 * code.slots
  result : s.consume = { s with deq := 0, ccs := false }

theorem entry_of_inside (h : s.Inv) (hin : Inside code s.deq s.ccs s.consumed.length)
    (hlt : s.consumed.length < s.queued.length) : ∃ e, s.NextEntry e := by
  have he : s.queued[s.consumed.length]? = some s.queued[s.consumed.length] :=
    List.getElem?_eq_getElem hlt
  have hpos := code.slots_pos
  have hslot : s.entries s.deq = s.queued[s.consumed.length] := by
    rw [hin.deq]
    by_cases hwriting : s.Writing
    · obtain ⟨slot, r, words, hcall⟩ := hwriting
      have hroom := (h.phase.writing hcall).room
      exact h.stored.held _ _ he (by omega)
    · exact h.stored.full hwriting _ _ he h.room
  obtain ⟨hcycle, htype⟩ := h.stored.bits _ _ he
  exact ⟨_, hin, he, consume_entry hslot (hcycle.trans hin.ccs.symm) htype⟩

theorem idle_of_inside (h : s.Inv) (hok : s.Allowed .consume)
    (hin : Inside code s.deq s.ccs s.consumed.length) (hall : s.consumed.length = s.queued.length) :
    s.consume = s := by
  have hlimit := hin.limit
  have hle := code.limit_le
  have hdeq := hin.deq
  have hccs := hin.ccs
  rw [hall] at hdeq hccs hlimit
  refine consume_idle ?_
  by_cases hwriting : s.Writing
  · obtain ⟨slot, r, words, hcall⟩ := hwriting
    have hbegun := h.phase.writing hcall
    have hslot : slot = s.deq := hbegun.slot_eq.trans hdeq.symm
    rw [← hslot, hbegun.entry, Trb.begun_cycle]
    suffices hset : s.ccs = true by
      rw [hset]
      exact Bool.false_ne_true
    rcases code.limit_cases with ⟨-, hone⟩ | ⟨-, hclears, -⟩
    · rw [hccs]
      exact cycleAt_first (by omega)
    · exact hok r words (hslot ▸ hcall) hclears
  · rcases two_passes (i := s.queued.length) (n := code.slots) (by omega) with
      ⟨hlt, hmod, hcycle⟩ | ⟨hge, hmod, hcycle⟩
    · rw [hdeq, hmod, h.stored.next hwriting hlt, hccs, hcycle]
      exact Bool.false_ne_true
    · have hprev : s.queued.length - code.slots < s.queued.length := by
        have := code.slots_pos
        omega
      have he := List.getElem?_eq_getElem hprev
      have hslot := h.stored.full hwriting _ _ he (by omega)
      rw [Nat.mod_eq_of_lt (by omega)] at hslot
      rw [hdeq, hmod, hslot, (h.stored.bits _ _ he).1, hccs, hcycle, cycleAt_first (by omega)]
      exact Bool.false_ne_true.symm

theorem consume_cases (h : s.Inv) (hok : s.Allowed .consume) :
    (s.consume = s ∧ s.consumed.length = s.queued.length) ∨ s.FollowsLink ∨ ∃ e, s.NextEntry e := by
  have hle := h.ordered.length_le
  have hlimit := h.limit
  have hpos := code.slots_pos
  rcases h.cursor with hin | hend
  · rcases Nat.lt_or_eq_of_le hle with hlt | heq
    · exact .inr (.inr (entry_of_inside h hin hlt))
    · exact .inl ⟨idle_of_inside h hok hin heq, heq⟩
  · have hlast := h.stored.last
    rw [← hend.deq] at hlast
    rcases code.limit_cases with ⟨hzero, hone⟩ | ⟨hlink, -, htwo⟩
    · rcases hend.pass with ⟨hc, hccs⟩ | ⟨hc, hccs⟩
      · refine .inl ⟨consume_idle ?_, by omega⟩
        rw [hlast, hzero, hccs]
        exact Bool.false_ne_true
      · omega
    · rcases hend.pass with ⟨hc, hccs⟩ | ⟨hc, hccs⟩
      · exact .inr (.inl ⟨hend.deq, hc, htwo, consume_link (hlast.trans hlink) hccs⟩)
      · refine .inl ⟨consume_idle ?_, by omega⟩
        rw [hlast, hlink, hccs, linkTrb_cycle]
        exact Bool.false_ne_true.symm

theorem FollowsLink.inside (h : s.FollowsLink) : Inside code 0 false s.consumed.length := by
  have hpos := code.slots_pos
  have hconsumed := h.consumed
  have hlimit := h.limit
  rcases two_passes (i := s.consumed.length) (n := code.slots) (by omega) with
    ⟨hlt, -, -⟩ | ⟨-, hmod, hcycle⟩
  · omega
  · exact ⟨by omega, hcycle.symm, by omega⟩

theorem NextEntry.cursor {e : Trb} (h : s.NextEntry e) (hq : s.queued.length ≤ code.limit) :
    Inside code (s.deq + 1) s.ccs (s.consumed.length + 1) ∨
      AtEnd code (s.deq + 1) s.ccs (s.consumed.length + 1) := by
  have hle := code.limit_le
  have hlt := (List.getElem?_eq_some_iff.mp h.next).1
  have hin := h.inside
  have hslot := Nat.mod_lt s.consumed.length code.slots_pos
  have htwo := two_passes (i := s.consumed.length) (n := code.slots) (by omega)
  by_cases hturn : s.consumed.length % code.slots + 1 = code.slots
  · refine .inr ⟨by rw [hin.deq, hturn], ?_⟩
    rw [hin.ccs]
    rcases htwo with ⟨-, hmod, hcycle⟩ | ⟨hge, hmod, hcycle⟩
    · exact .inl ⟨by omega, hcycle⟩
    · exact .inr ⟨by omega, hcycle⟩
  · refine .inl ⟨?_, ?_, ?_⟩
    · rw [mod_succ (by omega), hin.deq]
    · rw [cycleAt_succ (by omega), hin.ccs]
    · rcases code.limit_cases with ⟨-, hlimit⟩ | ⟨-, -, hlimit⟩ <;> omega

theorem NextEntry.ordered {e : Trb} (h : s.NextEntry e) (hordered : s.consumed <+: s.queued) :
    s.consumed ++ [e] <+: s.queued := by
  obtain ⟨rest, hrest⟩ := hordered
  have hnext := h.next
  rw [← hrest, List.getElem?_append_right (Nat.le_refl _), Nat.sub_self] at hnext
  cases rest with
  | nil => exact nomatch hnext
  | cons x rest =>
    cases hnext
    exact ⟨rest, by rw [← hrest, List.append_assoc, List.singleton_append]⟩

theorem Phase.consumed (h : s.Phase) (deq : Nat) (ccs : Bool) {consumed : List Trb}
    (hle : s.consumed.length ≤ consumed.length) :
    Phase { s with deq := deq, ccs := ccs, consumed := consumed } := by
  rw [Phase] at h ⊢
  dsimp only
  cases hcall : s.call with
  | none =>
    rw [hcall] at h
    exact h
  | waiting slot =>
    rw [hcall] at h
    exact h
  | writing slot r words =>
    rw [hcall] at h
    have hroom := h.room
    exact ⟨h.slot_eq, h.cycle, h.limit, by dsimp only; omega, h.words_le, h.entry⟩

theorem inv_consume (h : s.Inv) (hok : s.Allowed .consume) : s.consume.Inv := by
  rcases consume_cases h hok with ⟨hsame, -⟩ | hlink | ⟨e, he⟩
  · rw [hsame]
    exact h
  · rw [hlink.result]
    exact ⟨h.ordered, h.limit, h.room, h.stored, .inl hlink.inside, h.phase.consumed _ _ (Nat.le_refl _)⟩
  · rw [he.result]
    have hlength : (s.consumed ++ [e]).length = s.consumed.length + 1 := List.length_append
    have hroom := h.room
    refine ⟨he.ordered h.ordered, h.limit, ?_, h.stored, ?_, h.phase.consumed _ _ (by omega)⟩
    · dsimp only
      omega
    · dsimp only
      rw [hlength]
      exact he.cursor h.limit

theorem allowed_consume (hno : ¬s.Writing) : s.Allowed .consume :=
  fun r words hcall _ => absurd ⟨_, r, words, hcall⟩ hno

theorem not_writing_consume (hno : ¬s.Writing) : ¬s.consume.Writing := by
  rwa [Writing, consume_call]

theorem consumes_next (h : s.Inv) (hno : ¬s.Writing) (hlt : s.consumed.length < s.queued.length) :
    ∃ k, (consume^[k] s).Inv ∧ ¬(consume^[k] s).Writing ∧ (consume^[k] s).queued = s.queued ∧
      (consume^[k] s).consumed.length = s.consumed.length + 1 := by
  have hone {t : Ring code} (ht : t.Inv) (hno : ¬t.Writing) {e : Trb} (he : t.NextEntry e) :
      t.consume.Inv ∧ ¬t.consume.Writing ∧ t.consume.queued = t.queued ∧
        t.consume.consumed.length = t.consumed.length + 1 := by
    refine ⟨inv_consume ht (allowed_consume hno), not_writing_consume hno, consume_queued, ?_⟩
    rw [he.result]
    exact List.length_append
  rcases consume_cases h (allowed_consume hno) with ⟨-, hall⟩ | hlink | ⟨e, he⟩
  · omega
  · have hinv := inv_consume h (allowed_consume hno)
    have hin := hlink.inside
    have hqueued : s.consume.queued = s.queued := consume_queued
    have hconsumed : s.consume.consumed = s.consumed := by rw [hlink.result]
    obtain ⟨e, he⟩ := entry_of_inside hinv (by rw [hlink.result]; exact hin)
      (by rw [hconsumed, hqueued]; exact hlt)
    have hnext := hone hinv (not_writing_consume hno) he
    rw [hqueued, hconsumed] at hnext
    exact ⟨2, hnext⟩
  · exact ⟨1, hone h hno he⟩

theorem consumes_all (h : s.Inv) (hno : ¬s.Writing) : ∃ k, (consume^[k] s).consumed = s.queued := by
  obtain ⟨d, hd⟩ : ∃ d, d = s.queued.length - s.consumed.length := ⟨_, rfl⟩
  induction d generalizing s with
  | zero =>
    have hle := h.ordered.length_le
    exact ⟨0, h.ordered.eq_of_length (by omega)⟩
  | succ d ih =>
    obtain ⟨k, hinv, hno', hqueued, hlength⟩ := consumes_next h hno (by omega)
    obtain ⟨j, hj⟩ := ih hinv hno' (by rw [hqueued, hlength]; omega)
    rw [hqueued, ← Function.iterate_add_apply] at hj
    exact ⟨j + k, hj⟩

end Controller

theorem inv_step (s : Ring code) (e : Event code.Req) (s' : Ring code) (h : s.Inv) (hok : s.Allowed e)
    (hstep : s.step e = some s') : s'.Inv := by
  cases e with
  | call r =>
    rw [step] at hstep
    split at hstep
    · rename_i hcall
      cases hstep
      exact inv_start h hcall hok
    · cases hstep
  | write =>
    rw [step] at hstep
    split at hstep
    · rename_i slot r words hcall
      cases hstep
      exact inv_writeWord h hcall
    · cases hstep
  | finish done =>
    rw [step] at hstep
    split at hstep
    · rename_i slot hcall
      cases hstep
      exact inv_finish h hcall done
    · cases hstep
  | consume =>
    cases hstep
    exact inv_consume h hok

theorem delivers_of_inv (h : s.Inv) : s.Delivers := ⟨h.ordered, consumes_all h⟩

end Ring

inductive RingName
  | command
  | interrupt
  | bulk

def RingName.code (base : Word) : RingName → RingCode
  | command => xhciCmdSubmitEx base
  | interrupt => xhciInterruptIn base
  | bulk => xhciBulkXfer base

theorem rings_deliver (name : RingName) (base : Word) (events : List (Event (name.code base).Req))
    (s : Ring (name.code base)) (hrun : run Ring.step (Ring.setUp _) events = some s)
    (hok : Along Ring.step Ring.Allowed (Ring.setUp _) events) : s.Delivers :=
  Ring.delivers_of_inv (run_invariant Ring.inv_step events _ _ (Ring.inv_setUp _) hok hrun)

example : (xhciCmdSubmitEx 0).limit = 63 := rfl

example : (xhciInterruptIn 0).limit = 30 := rfl

def oneTransfer (done : Bool) : List (Event Transfer) :=
  [.call ⟨0x1000, 8⟩, .write, .write, .write, .write, .consume, .consume, .finish done]

def Ring.outcome {code : RingCode} (s : Ring code) : Bool × Nat × Nat :=
  ((match s.call with | .none => true | _ => false) && (s.entries s.deq).cycle != s.ccs,
    s.consumed.length, s.queued.length)

def transfers (n : Nat) (done : Bool) : List (Event (xhciInterruptIn 0).Req) :=
  (List.replicate n (oneTransfer done)).flatten

-- past the link entry and into the second pass of the ring
theorem rings_deliver_twenty : ∃ s : Ring (xhciInterruptIn 0),
    run Ring.step (Ring.setUp _) (transfers 20 true) = some s ∧ s.Delivers ∧ s.queued.length = 20 := by
  have hrun : (run Ring.step (Ring.setUp (xhciInterruptIn 0)) (transfers 20 true)).map Ring.outcome =
      some (true, 20, 20) := by
    decide +kernel
  have hok : Along Ring.step Ring.Allowed (Ring.setUp (xhciInterruptIn 0)) (transfers 20 true) := by
    decide +kernel
  obtain ⟨s, hs, houtcome⟩ := Option.map_eq_some_iff.mp hrun
  exact ⟨s, hs, rings_deliver .interrupt 0 _ s hs hok, congrArg (fun o => o.2.2) houtcome⟩

theorem Ring.not_delivers {code : RingCode} {s : Ring code} (hidle : s.consume = s) (hno : ¬s.Writing)
    (hne : s.consumed.length ≠ s.queued.length) : ¬s.Delivers := by
  intro h
  obtain ⟨k, hk⟩ := h.complete hno
  rw [Function.iterate_fixed hidle k] at hk
  exact hne (congrArg List.length hk)

theorem Ring.not_delivers_of_outcome {code : RingCode} {s : Ring code} {consumed queued : Nat}
    (h : s.outcome = (true, consumed, queued)) (hne : consumed ≠ queued) : ¬s.Delivers := by
  obtain ⟨hidle, hlengths⟩ := Prod.mk.inj h
  obtain ⟨rfl, rfl⟩ := Prod.mk.inj hlengths
  obtain ⟨hcall, hcycle⟩ := Bool.and_eq_true_iff.mp hidle
  refine not_delivers (consume_idle (bne_iff_ne.mp hcycle)) ?_ hne
  rintro ⟨slot, r, words, hwriting⟩
  rw [hwriting] at hcall
  cases hcall

def oneCommand : List (Event Command) :=
  [.call ⟨0, .enableSlot, 0⟩, .write, .write, .write, .write, .consume, .finish true]

def Always (code : RingCode) : Prop :=
  ∀ (events : List (Event code.Req)) (s : Ring code),
    run Ring.step (Ring.setUp code) events = some s → s.Delivers

theorem not_always {code : RingCode} {events : List (Event code.Req)} {consumed queued : Nat}
    (h : (run Ring.step (Ring.setUp code) events).map Ring.outcome = some (true, consumed, queued))
    (hne : consumed ≠ queued) : ¬Always code := by
  intro hall
  obtain ⟨s, hrun, houtcome⟩ := Option.map_eq_some_iff.mp h
  exact Ring.not_delivers_of_outcome houtcome hne (hall events s hrun)

-- the link of the second pass is not the controller's, and the command ring has no link
theorem rings_stall :
    ¬Always (xhciCmdSubmitEx 0) ∧ ¬Always (xhciInterruptIn 0) ∧ ¬Always (xhciBulkXfer 0) := by
  have htransfers : (run Ring.step (Ring.setUp (transferRing 0))
      (transfers 30 true ++ transfers 1 false)).map Ring.outcome =
        some (true, 30, 31) := by
    decide +kernel
  have hcommands : (run Ring.step (Ring.setUp (xhciCmdSubmitEx 0))
      (List.replicate 64 oneCommand).flatten).map Ring.outcome = some (true, 63, 64) := by
    decide +kernel
  exact ⟨not_always hcommands (by decide), not_always htransfers (by decide),
    not_always htransfers (by decide)⟩

end HouseOS.Xhci
