import HouseOS.Udp.Fifo
import Mathlib.Combinatorics.Pigeonhole

namespace HouseOS.Udp

open HouseOS.Run (answers answers_invariant)
open HouseOS.Syscall

section Ports

variable {t t' : Sockets} {i j k : Nat}

def IsBound (s : Socket) : Prop := s.used = true ∧ s.bound = true

structure Bindings (t : Sockets) : Prop where
  range : udpEphemeralStart ≤ t.nextEphemeral ∧ t.nextEphemeral ≤ udpEphemeralEnd
  addrs : ∀ i < udpMaxSockets, IsBound (t.sockets i) →
    (t.sockets i).bindAddr = inaddrAny ∨ (t.sockets i).bindAddr = inaddrLoopback
  apart : ∀ i < udpMaxSockets, ∀ j < udpMaxSockets, i ≠ j → IsBound (t.sockets i) →
    IsBound (t.sockets j) → (t.sockets i).bindPort ≠ (t.sockets j).bindPort

structure SameBinding (s s' : Socket) : Prop where
  used : s'.used = s.used
  bound : s'.bound = s.bound
  addr : s'.bindAddr = s.bindAddr
  port : s'.bindPort = s.bindPort

theorem SameBinding.refl (s : Socket) : SameBinding s s := ⟨rfl, rfl, rfl, rfl⟩

theorem SameBinding.isBound {s s' : Socket} (h : SameBinding s s') : IsBound s' ↔ IsBound s := by
  rw [IsBound, IsBound, h.used, h.bound]

theorem Bindings.same (h : Bindings t) (hnext : t'.nextEphemeral = t.nextEphemeral)
    (hs : ∀ i, SameBinding (t.sockets i) (t'.sockets i)) : Bindings t' := by
  refine ⟨hnext ▸ h.range, fun i hi hb => ?_, fun i hi j hj hij hbi hbj => ?_⟩
  · rw [(hs i).addr]
    exact h.addrs i hi ((hs i).isBound.mp hb)
  · rw [(hs i).port, (hs j).port]
    exact h.apart i hi j hj hij ((hs i).isBound.mp hbi) ((hs j).isBound.mp hbj)

theorem Bindings.setSame (h : Bindings t) {s : Socket} (hs : SameBinding (t.sockets k) s) :
    Bindings (t.setSocket k s) := by
  refine h.same rfl fun i => ?_
  by_cases hi : i = k
  · rw [hi, setSocket_self]
    exact hs
  · rw [setSocket_ne hi]
    exact SameBinding.refl _

theorem Bindings.unbound (h : Bindings t) {s : Socket} (hs : ¬ IsBound s) (k : Nat) :
    Bindings (t.setSocket k s) := by
  have hbound : ∀ i, IsBound ((t.setSocket k s).sockets i) →
      (t.setSocket k s).sockets i = t.sockets i := by
    intro i hi
    by_cases hik : i = k
    · rw [hik, setSocket_self] at hi
      exact absurd hi hs
    · exact setSocket_ne hik
  refine ⟨h.range, fun i hi hb => ?_, fun i hi j hj hij hbi hbj => ?_⟩
  · have hsame := hbound i hb
    rw [hsame] at hb ⊢
    exact h.addrs i hi hb
  · have hsi := hbound i hbi
    have hsj := hbound j hbj
    rw [hsi] at hbi ⊢
    rw [hsj] at hbj ⊢
    exact h.apart i hi j hj hij hbi hbj

def LoopbackOrAny (addr : Nat) : Prop := addr = inaddrAny ∨ addr = inaddrLoopback

theorem matching_iff {s : Socket} {addr port : Nat} (haddr : LoopbackOrAny addr)
    (hs : IsBound s → LoopbackOrAny s.bindAddr) :
    Sockets.matching s addr port = true ↔ IsBound s ∧ s.bindPort = port := by
  simp only [Sockets.matching, Bool.and_eq_true, Bool.or_eq_true, decide_eq_true_eq]
  constructor
  · rintro ⟨⟨⟨hu, hb⟩, hp⟩, -⟩
    exact ⟨⟨hu, hb⟩, hp⟩
  · rintro ⟨⟨hu, hb⟩, hp⟩
    refine ⟨⟨⟨hu, hb⟩, hp⟩, ?_⟩
    rcases hs ⟨hu, hb⟩ with h | h
    · exact Or.inl (Or.inr h)
    · rcases haddr with ha | ha
      · exact Or.inr ha
      · exact Or.inl (Or.inl (h.trans ha.symm))

theorem not_portInUse (h : Bindings t) {addr port : Nat} (haddr : LoopbackOrAny addr) {sid : Int}
    (hfree : t.portInUse addr port sid = false) (hi : i < udpMaxSockets) (hne : (i : Int) ≠ sid)
    (hb : IsBound (t.sockets i)) : (t.sockets i).bindPort ≠ port := by
  intro hport
  have hmatch := (matching_iff haddr (h.addrs i hi)).mpr ⟨hb, hport⟩
  have hall := List.any_eq_false.mp hfree i (List.mem_range.mpr hi)
  rw [hmatch, decide_eq_true hne] at hall
  exact hall rfl

theorem Bindings.bindTo (h : Bindings t) {addr port : Nat} (haddr : LoopbackOrAny addr)
    (hfree : t.portInUse addr port k = false) : Bindings (t.bindTo k addr port) := by
  have hother : ∀ i < udpMaxSockets, i ≠ k → IsBound (t.sockets i) →
      (t.sockets i).bindPort ≠ port := fun i hi hik hb =>
    not_portInUse h haddr hfree hi (by omega) hb
  have hself : ((t.bindTo k addr port).sockets k).bindAddr = addr ∧
      ((t.bindTo k addr port).sockets k).bindPort = port := by
    rw [Sockets.bindTo, setSocket_self]
    exact ⟨rfl, rfl⟩
  have hne : ∀ {i}, i ≠ k → (t.bindTo k addr port).sockets i = t.sockets i := fun hik =>
    setSocket_ne hik
  refine ⟨h.range, fun i hi hb => ?_, fun i hi j hj hij hbi hbj => ?_⟩
  · by_cases hik : i = k
    · rw [hik, hself.1]
      exact haddr
    · rw [hne hik] at hb ⊢
      exact h.addrs i hi hb
  · by_cases hik : i = k
    · have hjk : j ≠ k := fun hjk => hij (hik.trans hjk.symm)
      rw [hne hjk] at hbj ⊢
      rw [hik, hself.2]
      exact (hother j hj hjk hbj).symm
    · rw [hne hik] at hbi ⊢
      by_cases hjk : j = k
      · rw [hjk, hself.2]
        exact hother i hi hik hbi
      · rw [hne hjk] at hbj ⊢
        exact h.apart i hi j hj hij hbi hbj

end Ports

section Autobind

variable {t : Sockets}

def ports : Nat := udpEphemeralEnd - udpEphemeralStart + 1

-- the port that is tried after `k` others
def candidate (t : Sockets) (k : Nat) : Nat :=
  udpEphemeralStart + (t.nextEphemeral - udpEphemeralStart + k) % ports

theorem bump_next (h : Bindings t) :
    t.nextEphemeral = udpEphemeralEnd ∧ t.bumpEphemeral.nextEphemeral = udpEphemeralStart ∨
      t.nextEphemeral < udpEphemeralEnd ∧ t.bumpEphemeral.nextEphemeral = t.nextEphemeral + 1 := by
  have hrange := h.range
  rw [Sockets.bumpEphemeral]
  dsimp only
  by_cases hend : t.nextEphemeral = udpEphemeralEnd
  · rw [hend]
    exact Or.inl ⟨rfl, rfl⟩
  · have hlt : t.nextEphemeral < udpEphemeralEnd := by omega
    have hfits : u16 (t.nextEphemeral + 1) = t.nextEphemeral + 1 :=
      Nat.mod_eq_of_lt (by simp only [udpEphemeralEnd] at hlt; omega)
    rw [hfits, if_neg (by omega)]
    exact Or.inr ⟨hlt, rfl⟩

theorem bump_range (h : Bindings t) : Bindings t.bumpEphemeral := by
  refine ⟨?_, h.addrs, h.apart⟩
  have hrange := h.range
  have hnext := bump_next h
  simp only [udpEphemeralStart, udpEphemeralEnd] at hrange hnext ⊢
  omega

theorem candidate_bump (h : Bindings t) (k : Nat) :
    candidate t.bumpEphemeral k = candidate t (k + 1) := by
  have hrange := h.range
  have hnext := bump_next h
  simp only [candidate, ports, udpEphemeralStart, udpEphemeralEnd] at hrange hnext ⊢
  omega

theorem candidate_zero (h : Bindings t) : candidate t 0 = t.nextEphemeral := by
  have hrange := h.range
  simp only [candidate, ports, udpEphemeralStart, udpEphemeralEnd] at hrange ⊢
  omega

structure Autobound (t : Sockets) (sid : Nat) (t' : Sockets) (port : Nat) : Prop where
  range : udpEphemeralStart ≤ port ∧ port ≤ udpEphemeralEnd
  bindings : Bindings t'
  self : (t'.sockets sid).bound = true ∧ (t'.sockets sid).bindAddr = inaddrAny ∧
    (t'.sockets sid).bindPort = port
  others : ∀ j < udpMaxSockets, j ≠ sid → IsBound (t'.sockets j) → (t'.sockets j).bindPort ≠ port

theorem autobindLoop_spec (sid : Nat) : ∀ (tries : Nat) (t : Sockets), Bindings t →
    (∃ t' port, Sockets.autobindLoop sid tries t = (0, t') ∧ Autobound t sid t' port) ∨
      Bindings (Sockets.autobindLoop sid tries t).2 ∧
      ∀ k < tries, t.portInUse inaddrAny (candidate t k) sid = true := by
  intro tries
  induction tries with
  | zero => exact fun t h => Or.inr ⟨h, nofun⟩
  | succ tries ih =>
    intro t h
    have hbump := bump_range h
    rw [Sockets.autobindLoop]
    by_cases hfree : t.bumpEphemeral.portInUse inaddrAny t.nextEphemeral sid = false
    · rw [hfree]
      refine Or.inl ⟨_, t.nextEphemeral, rfl, h.range, hbump.bindTo (Or.inl rfl) hfree, ?_, ?_⟩
      · rw [Sockets.bindTo, setSocket_self]
        exact ⟨rfl, rfl, rfl⟩
      · intro j hj hne hb
        rw [Sockets.bindTo, setSocket_ne hne] at hb ⊢
        exact not_portInUse hbump (Or.inl rfl) hfree hj (by omega) hb
    · rw [Bool.not_eq_false] at hfree
      rw [hfree]
      rcases ih t.bumpEphemeral hbump with ⟨t', port, hrun, hauto⟩ | ⟨hkept, hall⟩
      · exact Or.inl ⟨t', port, hrun, ⟨hauto.range, hauto.bindings, hauto.self, hauto.others⟩⟩
      · refine Or.inr ⟨hkept, fun k hk => ?_⟩
        cases k with
        | zero =>
          rw [candidate_zero h]
          exact hfree
        | succ k =>
          rw [← candidate_bump h]
          exact hall k (by omega)

-- nine ports that are all taken would need nine sockets
theorem some_port_free (t : Sockets) (sid : Nat) :
    ∃ k < udpMaxSockets + 1, t.portInUse inaddrAny (candidate t k) sid = false := by
  by_contra hnone
  push Not at hnone
  have htaken : ∀ k ∈ Finset.range (udpMaxSockets + 1), ∃ i ∈ Finset.range udpMaxSockets,
      (t.sockets i).bindPort = candidate t k := by
    intro k hk
    have huse := hnone k (Finset.mem_range.mp hk)
    rw [ne_eq, Bool.not_eq_false, Sockets.portInUse, List.any_eq_true] at huse
    obtain ⟨i, hi, hmatch⟩ := huse
    rw [Bool.and_eq_true] at hmatch
    exact ⟨i, Finset.mem_range.mpr (List.mem_range.mp hi), (matching_used hmatch.2).2.2⟩
  choose! f hf hport using htaken
  obtain ⟨a, ha, b, hb, hne, heq⟩ := Finset.exists_ne_map_eq_of_card_lt_of_maps_to
    (by rw [Finset.card_range, Finset.card_range]; exact Nat.lt_succ_self _) hf
  have hsame : candidate t a = candidate t b := by rw [← hport a ha, ← hport b hb, heq]
  have ha := Finset.mem_range.mp ha
  have hb := Finset.mem_range.mp hb
  simp only [udpMaxSockets] at ha hb
  refine hne (Ring.slot_inj ?_ ?_ (Nat.add_left_cancel hsame))
  · simp only [ports, udpEphemeralStart, udpEphemeralEnd]
    omega
  · simp only [ports, udpEphemeralStart, udpEphemeralEnd]
    omega

theorem autobind_spec (h : Bindings t) {sid : Int} (hin : ¬ outside sid) :
    ∃ t' port, t.autobind sid = (0, t') ∧ Autobound t sid.toNat t' port := by
  unfold Sockets.autobind
  rw [if_neg hin]
  rcases autobindLoop_spec sid.toNat ports t h with hdone | ⟨-, hall⟩
  · exact hdone
  · obtain ⟨k, hk, hfree⟩ := some_port_free t sid.toNat
    simp only [udpMaxSockets] at hk
    rw [hall k (by simp only [ports, udpEphemeralStart, udpEphemeralEnd]; omega)] at hfree
    cases hfree

end Autobind

section Calls

variable {t t' : Sockets} {sid : Int}

theorem bindings_socket (h : Bindings t) : Bindings t.socketAlloc.2 := by
  unfold Sockets.socketAlloc
  split
  · exact h
  · exact h.unbound (fun hb => Bool.false_ne_true hb.2) _

theorem bindings_close (h : Bindings t) (sid : Int) : Bindings (t.socketFree sid) := by
  unfold Sockets.socketFree
  split
  · exact h
  · exact h.unbound (fun hb => Bool.false_ne_true hb.1) _

theorem bindings_bind (h : Bindings t) (sid : Int) (ua : Option SockAddr) (addrlen : Nat) :
    Bindings (t.bindSocket sid ua addrlen).2 := by
  unfold Sockets.bindSocket
  cases ua with
  | none => exact h
  | some ua =>
    dsimp only
    split
    · exact h
    rename_i hin
    split
    · exact h
    split
    · exact h
    split
    · exact h
    split
    · exact h
    rename_i haddr
    split
    · exact h
    rename_i hfree
    obtain ⟨-, hsid⟩ := not_outside hin
    have haddr : LoopbackOrAny ua.addr := by
      by_cases hany : ua.addr = inaddrAny
      · exact Or.inl hany
      · exact Or.inr (not_not.mp fun hno => haddr ⟨hany, hno⟩)
    rw [← hsid, Bool.not_eq_true] at hfree
    exact h.bindTo haddr hfree

theorem bindings_deliver (h : Bindings t) (k : Nat) (buf : List UInt8) (addr : SockAddr) :
    Bindings (t.deliver k buf addr).2 := by
  unfold Sockets.deliver
  split
  · exact h
  · split
    · exact h
    · exact h.setSame ⟨rfl, rfl, rfl, rfl⟩

theorem bindings_sendto (h : Bindings t) (sid : Int) (req : SendReq) :
    Bindings (t.sendto sid req).2 := by
  unfold Sockets.sendto
  split
  · rename_i buf addr hbuf haddr
    split
    · exact h
    · rename_i hok
      have hin : ¬ outside sid := by
        simp only [Sockets.sendRefused, hbuf, haddr, decide_eq_true_eq, not_or] at hok
        exact hok.1
      obtain ⟨rc, t₁, hbind⟩ : ∃ rc t₁, (if !(t.sockets sid.toNat).bound then t.autobind sid
        else (0, t)) = (rc, t₁) := ⟨_, _, rfl⟩
      have hkept : Bindings t₁ := by
        split at hbind
        · obtain ⟨t', port, hauto, hdone⟩ := autobind_spec h hin
          rw [hauto] at hbind
          cases hbind
          exact hdone.bindings
        · cases hbind
          exact h
      rw [hbind]
      dsimp only
      split
      · exact hkept
      · exact bindings_deliver hkept _ _ _
  · exact h

theorem bindings_recvfrom (h : Bindings t) {req : RecvReq} {waited : Nat} {a : Received}
    (ha : t.recvfrom sid req waited = some (a, t')) : Bindings t' := by
  unfold Sockets.recvfrom at ha
  split at ha
  · cases ha
    exact h
  dsimp only at ha
  split at ha
  · split at ha
    · cases ha
      exact h
    split at ha
    · cases ha
      exact h
    · cases ha
  · split at ha
    · cases ha
      exact h
    · cases ha
      exact h.setSame ⟨rfl, rfl, rfl, rfl⟩

theorem bindings_setsockopt (h : Bindings t) (sid : Int) (req : SockoptReq) :
    Bindings (t.setsockopt sid req).2 := by
  unfold Sockets.setsockopt
  repeat' split
  all_goals first
    | exact h
    | exact h.setSame ⟨rfl, rfl, rfl, rfl⟩

theorem bindings_step (h : Bindings t) (op : Op) :
    ∃ e t', step t op = some (e, t') ∧ Bindings t' := by
  cases op with
  | socket => exact ⟨_, _, rfl, bindings_socket h⟩
  | close sid => exact ⟨_, _, rfl, bindings_close h sid⟩
  | bind sid ua addrlen => exact ⟨_, _, rfl, bindings_bind h sid ua addrlen⟩
  | sendto sid req => exact ⟨_, _, rfl, bindings_sendto h sid req⟩
  | recvfrom sid req waited =>
    cases ha : t.recvfrom sid req waited with
    | none => exact ⟨_, _, by rw [step, ha], h⟩
    | some r => exact ⟨_, _, by rw [step, ha], bindings_recvfrom h ha⟩
  | setsockopt sid req => exact ⟨_, _, rfl, bindings_setsockopt h sid req⟩

theorem bindings_boot : Bindings boot :=
  ⟨by decide, fun _ _ hb => absurd hb.1 Bool.false_ne_true,
    fun _ _ _ _ _ hb => absurd hb.1 Bool.false_ne_true⟩

theorem bindings_run (ops : List Op) :
    ∃ log t, answers step boot ops = some (log, t) ∧ Bindings t :=
  answers_invariant (J := fun _ t => Bindings t) (fun _ _ op h => bindings_step h op) ops [] boot
    bindings_boot

def Unique (t : Sockets) (addr port : Nat) : Option Nat → Prop
  | some i => i < udpMaxSockets ∧ Sockets.matching (t.sockets i) addr port = true ∧
      ∀ j < udpMaxSockets, Sockets.matching (t.sockets j) addr port = true → j = i
  | none => ∀ j < udpMaxSockets, Sockets.matching (t.sockets j) addr port = false

theorem Bindings.unique (h : Bindings t) (addr port : Nat) :
    Unique t addr port (t.findBound addr port) := by
  cases hfind : t.findBound addr port with
  | none =>
    intro j hj
    have hno := List.find?_eq_none.mp hfind j (List.mem_range.mpr hj)
    exact Bool.eq_false_iff.mpr hno
  | some i =>
    obtain ⟨hlt, hmatch⟩ := findBound_some hfind
    refine ⟨hlt, hmatch, fun j hj hmatch' => ?_⟩
    obtain ⟨hui, hbi, hpi⟩ := matching_used hmatch
    obtain ⟨huj, hbj, hpj⟩ := matching_used hmatch'
    by_contra hne
    exact h.apart j hj i hlt hne ⟨huj, hbj⟩ ⟨hui, hbi⟩ (hpj.trans hpi.symm)

def Conflict (s s' : Socket) : Prop :=
  s.bindPort = s'.bindPort ∧
    (s.bindAddr = s'.bindAddr ∨ s.bindAddr = inaddrAny ∨ s'.bindAddr = inaddrAny)

theorem udp_bindings_never_conflict (ops : List Op) :
    ∃ log t, answers step boot ops = some (log, t) ∧
      (∀ i < udpMaxSockets, ∀ j < udpMaxSockets, i ≠ j → IsBound (t.sockets i) →
        IsBound (t.sockets j) → ¬ Conflict (t.sockets i) (t.sockets j)) ∧
      (∀ addr port, Unique t addr port (t.findBound addr port)) ∧
      ∀ sid, ¬ outside sid → ∃ t' port, t.autobind sid = (0, t') ∧ Autobound t sid.toNat t' port := by
  obtain ⟨log, t, hrun, h⟩ := bindings_run ops
  refine ⟨log, t, hrun, fun i hi j hj hij hbi hbj hc => ?_, h.unique, fun sid hin => ?_⟩
  · exact h.apart i hi j hj hij hbi hbj hc.1
  · exact autobind_spec h hin

end Calls

end HouseOS.Udp
