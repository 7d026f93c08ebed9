import HouseOS.Library.Run
import HouseOS.Udp.Model

namespace HouseOS.Udp

open HouseOS.Ring (contents)
open HouseOS.Run (answers answers_invariant)
open HouseOS.Syscall

section Queue

variable {s s' : Socket} {t t' : Sockets} {sid : Int} {i j : Nat}

def Packet.datagram (p : Packet) : Datagram := ⟨p.srcAddr, p.srcPort, p.payload.take p.len⟩

def waiting (s : Socket) : List Datagram :=
  (contents s.q udpQueueMax s.qHead s.qLen).map Packet.datagram

structure QueueOk (s : Socket) : Prop where
  ring : Ring.Holds (fun p => p.used = true) udpQueueMax s.q s.qHead s.qTail s.qLen
  fits : ∀ p ∈ contents s.q udpQueueMax s.qHead s.qLen, p.len ≤ p.payload.length
  unused : s.used = false → s.qLen = 0

structure SameQueue (s s' : Socket) : Prop where
  used : s'.used = s.used
  q : s'.q = s.q
  qHead : s'.qHead = s.qHead
  qTail : s'.qTail = s.qTail
  qLen : s'.qLen = s.qLen

theorem SameQueue.refl (s : Socket) : SameQueue s s := ⟨rfl, rfl, rfl, rfl, rfl⟩

theorem SameQueue.ok (h : SameQueue s s') (hs : QueueOk s) : QueueOk s' := by
  refine ⟨?_, ?_, ?_⟩
  · rw [h.q, h.qHead, h.qTail, h.qLen]
    exact hs.ring
  · rw [h.q, h.qHead, h.qLen]
    exact hs.fits
  · rw [h.used, h.qLen]
    exact hs.unused

theorem SameQueue.waiting (h : SameQueue s s') : waiting s' = waiting s := by
  rw [Udp.waiting, Udp.waiting, h.q, h.qHead, h.qLen]

theorem length_waiting : (waiting s).length = s.qLen := by
  rw [waiting, List.length_map, Ring.length_contents]

theorem queueOk_empty (h : s.qHead = 0 ∧ s.qTail = 0 ∧ s.qLen = 0) (hq : s.q = fun _ => zeroPacket) :
    QueueOk s ∧ waiting s = [] := by
  obtain ⟨hhead, htail, hlen⟩ := h
  rw [waiting, hhead, hlen, hq]
  refine ⟨⟨?_, ?_, fun _ => hlen⟩, rfl⟩
  · rw [hhead, htail, hlen, hq]
    exact Ring.Holds.empty (by decide) fun _ _ h => Bool.false_ne_true h
  · rw [hlen, hhead, Ring.contents_zero]
    exact nofun

theorem packet_datagram {buf : List UInt8} (hbuf : buf.length ≤ udpPayloadMax) (addr port : Nat) :
    (packet addr port buf).datagram = ⟨addr, port, buf⟩ ∧
      (packet addr port buf).len ≤ (packet addr port buf).payload.length := by
  have hlen : u16 buf.length = buf.length := Nat.mod_eq_of_lt (by
    simp only [udpPayloadMax] at hbuf
    omega)
  rw [Packet.datagram, packet, hlen, List.take_left, List.length_append]
  exact ⟨rfl, Nat.le_add_right _ _⟩

theorem enqueue_ok (hs : QueueOk s) (hused : s.used = true) (hlen : s.qLen < udpQueueMax)
    {p : Packet} (hp : p.used = true) (hfits : p.len ≤ p.payload.length) :
    QueueOk (enqueue s p) ∧ waiting (enqueue s p) = waiting s ++ [p.datagram] := by
  have hlen8 : u8 (s.qLen + 1) = s.qLen + 1 := Nat.mod_eq_of_lt (by
    simp only [udpQueueMax] at hlen
    omega)
  have htail8 : u8 ((s.qTail + 1) % udpQueueMax) = (s.qTail + 1) % udpQueueMax :=
    Nat.mod_eq_of_lt (by
      simp only [udpQueueMax]
      omega)
  have hpush : contents (Function.update s.q s.qTail p) udpQueueMax s.qHead (s.qLen + 1) =
      contents s.q udpQueueMax s.qHead s.qLen ++ [p] := by
    rw [hs.ring.end_eq]
    exact Ring.contents_push hlen p
  rw [enqueue, htail8, hlen8]
  refine ⟨⟨hs.ring.push hlen hp, ?_, fun h => ?_⟩, ?_⟩
  · dsimp only
    rw [hpush]
    intro x hx
    rcases List.mem_append.mp hx with hx | hx
    · exact hs.fits x hx
    · rw [List.mem_singleton.mp hx]
      exact hfits
  · rw [hused] at h
    cases h
  · rw [waiting]
    dsimp only
    rw [hpush, List.map_append, List.map_singleton, waiting]

theorem dequeue_ok (hs : QueueOk s) {n : Nat} (hn : s.qLen = n + 1) :
    QueueOk (dequeue s) ∧ (s.q s.qHead).used = true ∧
      (s.q s.qHead).len ≤ (s.q s.qHead).payload.length ∧
      waiting s = (s.q s.qHead).datagram :: waiting (dequeue s) := by
  have hring := hs.ring
  have hfits := hs.fits
  rw [hn] at hring
  have hhead : u8 ((s.qHead + 1) % udpQueueMax) = (s.qHead + 1) % udpQueueMax :=
    Nat.mod_eq_of_lt (by simp only [udpQueueMax]; omega)
  have hpop : contents s.q udpQueueMax s.qHead (n + 1) =
      s.q s.qHead :: contents s.q udpQueueMax ((s.qHead + 1) % udpQueueMax) n := by
    rw [Ring.contents_pop, Nat.mod_eq_of_lt hring.inside]
  have hclear := Ring.contents_clear (q := s.q) hring.inside hring.room zeroPacket
  have hdeq : dequeue s = { s with
      q := Function.update s.q s.qHead zeroPacket, qHead := (s.qHead + 1) % udpQueueMax
      qLen := n } := by
    rw [dequeue, hhead, hn, Nat.add_sub_cancel]
  rw [hn, hpop] at hfits
  refine ⟨?_, hring.marked_head, hfits _ List.mem_cons_self, ?_⟩
  · rw [hdeq]
    refine ⟨hring.pop (by simp [zeroPacket]), ?_, fun h => ?_⟩
    · dsimp only
      rw [hclear]
      exact fun p hp => hfits p (List.mem_cons_of_mem _ hp)
    · have := hs.unused h
      omega
  · rw [hdeq, waiting, hn, hpop, List.map_cons, waiting]
    dsimp only
    rw [hclear]

end Queue

section Calls

variable {s : Socket} {t t' t'' : Sockets} {sid : Int} {j k : Nat}

def SameQueues (t t' : Sockets) : Prop := ∀ j, SameQueue (t.sockets j) (t'.sockets j)

theorem SameQueues.refl (t : Sockets) : SameQueues t t := fun j => SameQueue.refl (t.sockets j)

theorem setSocket_self : (t.setSocket k s).sockets k = s := Function.update_self ..

theorem setSocket_ne (h : j ≠ k) : (t.setSocket k s).sockets j = t.sockets j :=
  Function.update_of_ne h _ _

theorem sameQueues_setSocket (h : SameQueue (t.sockets k) s) : SameQueues t (t.setSocket k s) := by
  intro j
  by_cases hj : j = k
  · rw [hj, setSocket_self]
    exact h
  · rw [setSocket_ne hj]
    exact SameQueue.refl _

theorem sameQueues_bindTo (k addr port : Nat) : SameQueues t (t.bindTo k addr port) :=
  sameQueues_setSocket ⟨rfl, rfl, rfl, rfl, rfl⟩

theorem sameQueues_autobindLoop (k : Nat) : ∀ (tries : Nat) (t : Sockets),
    SameQueues t (Sockets.autobindLoop k tries t).2 := by
  intro tries
  induction tries with
  | zero => exact SameQueues.refl
  | succ tries ih =>
    intro t
    rw [Sockets.autobindLoop]
    split
    · exact sameQueues_bindTo k _ _
    · exact ih t.bumpEphemeral

theorem sameQueues_autobind (t : Sockets) (sid : Int) : SameQueues t (t.autobind sid).2 := by
  unfold Sockets.autobind
  split
  · exact SameQueues.refl t
  · exact sameQueues_autobindLoop _ _ _

theorem sameQueues_bindSocket (t : Sockets) (sid : Int) (ua : Option SockAddr) (addrlen : Nat) :
    SameQueues t (t.bindSocket sid ua addrlen).2 := by
  unfold Sockets.bindSocket
  cases ua with
  | none => exact SameQueues.refl t
  | some ua =>
    dsimp only
    repeat' split
    all_goals first
      | exact SameQueues.refl t
      | exact sameQueues_bindTo _ _ _

theorem sameQueues_setsockopt (t : Sockets) (sid : Int) (req : SockoptReq) :
    SameQueues t (t.setsockopt sid req).2 := by
  unfold Sockets.setsockopt
  repeat' split
  all_goals first
    | exact SameQueues.refl t
    | exact sameQueues_setSocket ⟨rfl, rfl, rfl, rfl, rfl⟩

theorem findBound_congr (h : ∀ i, Sockets.matching (t'.sockets i) = Sockets.matching (t.sockets i))
    (addr port : Nat) : t'.findBound addr port = t.findBound addr port := by
  simp only [Sockets.findBound, h]

theorem findBound_some {addr port dst : Nat} (h : t.findBound addr port = some dst) :
    dst < udpMaxSockets ∧ Sockets.matching (t.sockets dst) addr port = true := by
  have hmatch := List.find?_some h
  exact ⟨List.mem_range.mp (List.mem_of_find?_eq_some h), hmatch⟩

theorem matching_used {addr port : Nat} (h : Sockets.matching s addr port = true) :
    s.used = true ∧ s.bound = true ∧ s.bindPort = port := by
  simp only [Sockets.matching, Bool.and_eq_true, decide_eq_true_eq] at h
  exact ⟨h.1.1.1, h.1.1.2, h.1.2⟩

inductive Sends (t : Sockets) (sid : Int) (req : SendReq) : Int → Sockets → Prop
  | refused {rc : Int} {t₁ : Sockets} (hneg : rc < 0) (hsame : SameQueues t t₁) : Sends t sid req rc t₁
  | stored {t₁ : Sockets} {buf : List UInt8} {addr : SockAddr} {dst : Nat} (hbuf : req.buf = some buf)
      (haddr : req.addr = some addr) (hshort : buf.length ≤ udpPayloadMax) (hsame : SameQueues t t₁)
      (hdst : t₁.findBound (dstAddr addr) addr.port = some dst)
      (hroom : (t₁.sockets dst).qLen < udpQueueMax) :
      Sends t sid req buf.length (t₁.setSocket dst (enqueue (t₁.sockets dst)
        (packet (srcAddr (t₁.sockets sid.toNat)) (t₁.sockets sid.toNat).bindPort buf)))

theorem deliver_sends {t₁ : Sockets} {req : SendReq} {buf : List UInt8} {addr : SockAddr}
    (hbuf : req.buf = some buf) (haddr : req.addr = some addr) (hshort : buf.length ≤ udpPayloadMax)
    (hsame : SameQueues t t₁) :
    Sends t sid req (t₁.deliver sid.toNat buf addr).1 (t₁.deliver sid.toNat buf addr).2 := by
  unfold Sockets.deliver
  cases hdst : t₁.findBound (dstAddr addr) addr.port with
  | none => exact .refused (show -enoent < 0 by decide) hsame
  | some dst =>
    dsimp only
    split
    · exact .refused (show -eagain < 0 by decide) hsame
    · rename_i hroom
      exact .stored hbuf haddr hshort hsame hdst (by omega)

theorem sendto_sends (t : Sockets) (sid : Int) (req : SendReq) :
    Sends t sid req (t.sendto sid req).1 (t.sendto sid req).2 := by
  have hinval : (-einval : Int) < 0 := by decide
  have hagain : (-eagain : Int) < 0 := by decide
  unfold Sockets.sendto
  split
  · rename_i buf addr hbuf haddr
    split
    · exact .refused hinval (SameQueues.refl t)
    · rename_i hok
      have hshort : buf.length ≤ udpPayloadMax := by
        simp only [Sockets.sendRefused, hbuf, haddr, decide_eq_true_eq, not_or] at hok
        omega
      obtain ⟨rc, t₁, hbind⟩ : ∃ rc t₁, (if !(t.sockets sid.toNat).bound then t.autobind sid
        else (0, t)) = (rc, t₁) := ⟨_, _, rfl⟩
      have hsame : SameQueues t t₁ := by
        split at hbind
        · have hauto := sameQueues_autobind t sid
          rwa [hbind] at hauto
        · cases hbind
          exact SameQueues.refl t
      rw [hbind]
      dsimp only
      split
      · exact .refused hagain hsame
      · exact deliver_sends hbuf haddr hshort hsame
  · exact .refused hinval (SameQueues.refl t)

theorem Sends.used {req : SendReq} {rc : Int} (h : Sends t sid req rc t') (j : Nat) :
    (t'.sockets j).used = (t.sockets j).used := by
  cases h with
  | refused hneg hsame => exact (hsame j).used
  | @stored t₁ buf addr dst hbuf haddr hshort hsame hdst hroom =>
    refine Eq.trans ?_ (hsame j).used
    by_cases hj : j = dst
    · rw [hj, setSocket_self]
      rfl
    · rw [setSocket_ne hj]

theorem recvfrom_used {req : RecvReq} {waited : Nat} {a : Received}
    (h : t.recvfrom sid req waited = some (a, t')) (j : Nat) :
    (t'.sockets j).used = (t.sockets j).used := by
  unfold Sockets.recvfrom at h
  split at h
  · cases h
    rfl
  dsimp only at h
  split at h
  · split at h
    · cases h
      rfl
    split at h
    · cases h
      rfl
    · cases h
  split at h
  · cases h
    rfl
  · cases h
    by_cases hj : j = sid.toNat
    · rw [hj, setSocket_self]
      rfl
    · rw [setSocket_ne hj]

end Calls

section Log

structure Inbox where
  accepted : List Datagram
  got : List (RecvReq × Received)

-- what one event says about the socket `j`
def Inbox.note (j : Nat) (b : Inbox) : Event → Inbox
  | .closed sid => if sid = j then ⟨[], []⟩ else b
  | .sent _ (some (dst, d)) => if dst = j then { b with accepted := b.accepted ++ [d] } else b
  | .received sid req (some a) =>
      if sid = j ∧ 0 ≤ a.eax then { b with got := b.got ++ [(req, a)] } else b
  | _ => b

def inbox (j : Nat) (log : List Event) : Inbox := log.foldl (Inbox.note j) ⟨[], []⟩

-- a datagram cut off only where the receiver's buffer ends
def Returns (d : Datagram) (r : RecvReq × Received) : Prop :=
  r.2.data = d.payload.take r.1.len ∧ r.2.eax = r.2.data.length ∧
    (wantsSource r.1 = true → r.2.src = some (d.srcAddr, d.srcPort))

def Served (b : Inbox) (rest : List Datagram) : Prop :=
  ∃ done, b.accepted = done ++ rest ∧ List.Forall₂ Returns done b.got

variable {t t' : Sockets} {sid : Int} {req : RecvReq} {j : Nat} {log : List Event}

theorem Served.push {b : Inbox} {rest : List Datagram} (h : Served b rest) (d : Datagram) :
    Served { b with accepted := b.accepted ++ [d] } (rest ++ [d]) := by
  obtain ⟨done, hacc, hgot⟩ := h
  exact ⟨done, by rw [hacc, List.append_assoc], hgot⟩

theorem Served.pop {b : Inbox} {d : Datagram} {rest : List Datagram} (h : Served b (d :: rest))
    {r : RecvReq × Received} (hr : Returns d r) : Served { b with got := b.got ++ [r] } rest := by
  obtain ⟨done, hacc, hgot⟩ := h
  refine ⟨done ++ [d], ?_, ?_⟩
  · rw [hacc, List.append_assoc, List.singleton_append]
  · exact List.rel_append hgot (.cons hr .nil)

inductive Receives (t : Sockets) (sid : Int) (req : RecvReq) : Received → Sockets → Prop
  | refused {a : Received} (hneg : a.eax < 0) (hio : a.eax ≠ -eio)
      (hnone : outside sid ∨ req.buf = false ∨ (t.sockets sid.toNat).qLen = 0) :
      Receives t sid req a t
  | taken {a : Received} (hin : ¬ outside sid)
      (hwait : waiting (t.sockets sid.toNat) =
        ((t.sockets sid.toNat).q (t.sockets sid.toNat).qHead).datagram ::
          waiting (dequeue (t.sockets sid.toNat)))
      (hok : QueueOk (dequeue (t.sockets sid.toNat)))
      (hret : Returns ((t.sockets sid.toNat).q (t.sockets sid.toNat).qHead).datagram (req, a)) :
      Receives t sid req a (t.setSocket sid.toNat (dequeue (t.sockets sid.toNat)))

theorem recvfrom_receives (hs : ¬ outside sid → QueueOk (t.sockets sid.toNat)) (req : RecvReq)
    (waited : Nat) :
    t.recvfrom sid req waited = none ∧ (t.sockets sid.toNat).qLen = 0 ∨
      ∃ a t', t.recvfrom sid req waited = some (a, t') ∧ Receives t sid req a t' := by
  unfold Sockets.recvfrom
  split
  · rename_i hbad
    exact Or.inr ⟨_, _, rfl, .refused (show -einval < 0 by decide) (show -einval ≠ -eio by decide)
      (hbad.imp_right Or.inl)⟩
  rename_i hgood
  obtain ⟨hin, -⟩ := not_or.mp hgood
  dsimp only
  split
  · rename_i hzero
    split
    · exact Or.inr ⟨_, _, rfl, .refused (show -eagain < 0 by decide)
        (show -eagain ≠ -eio by decide) (Or.inr (Or.inr hzero))⟩
    split
    · exact Or.inr ⟨_, _, rfl, .refused (show -etimedout < 0 by decide)
        (show -etimedout ≠ -eio by decide) (Or.inr (Or.inr hzero))⟩
    · exact Or.inl ⟨rfl, hzero⟩
  · rename_i hlen
    obtain ⟨n, hn⟩ := Nat.exists_eq_succ_of_ne_zero hlen
    obtain ⟨hok, hused, hfits, hwait⟩ := dequeue_ok (hs hin) hn
    rw [if_neg (by rw [hused]; exact Bool.true_eq_false.mp)]
    refine Or.inr ⟨_, _, rfl, .taken hin hwait hok ⟨?_, ?_, fun hsrc => if_pos hsrc⟩⟩
    · dsimp only [Packet.datagram]
      rw [List.take_take]
      congr 1
      split <;> omega
    · dsimp only
      rw [List.length_take]
      congr 1
      split <;> omega

structure Fifo (log : List Event) (t : Sockets) (j : Nat) : Prop where
  ok : QueueOk (t.sockets j)
  served : Served (inbox j log) (waiting (t.sockets j))

theorem inbox_snoc (e : Event) : inbox j (log ++ [e]) = (inbox j log).note j e := by
  rw [inbox, inbox, List.foldl_append, List.foldl_cons, List.foldl_nil]

theorem Fifo.same {e : Event} (h : Fifo log t j) (hnote : (inbox j log).note j e = inbox j log)
    (hsame : SameQueue (t.sockets j) (t'.sockets j)) : Fifo (log ++ [e]) t' j := by
  refine ⟨hsame.ok h.ok, ?_⟩
  rw [inbox_snoc, hnote, hsame.waiting]
  exact h.served

theorem fifo_boot (j : Nat) : Fifo [] boot j := by
  have hzero : (boot.sockets j).qHead = 0 ∧ (boot.sockets j).qTail = 0 ∧ (boot.sockets j).qLen = 0 :=
    ⟨rfl, rfl, rfl⟩
  obtain ⟨hok, hwait⟩ := queueOk_empty hzero rfl
  exact ⟨hok, by rw [hwait]; exact ⟨[], rfl, .nil⟩⟩

theorem not_outside (h : ¬ outside sid) : sid.toNat < udpMaxSockets ∧ (sid.toNat : Int) = sid := by
  unfold outside at h
  omega

theorem fifo_socket (h : ∀ i < udpMaxSockets, Fifo log t i) (hj : j < udpMaxSockets) (eax : Int) :
    Fifo (log ++ [.other eax]) t.socketAlloc.2 j := by
  unfold Sockets.socketAlloc
  cases hfind : (List.range udpMaxSockets).find? fun i => !(t.sockets i).used with
  | none => exact (h j hj).same rfl (SameQueue.refl _)
  | some i =>
    dsimp only
    by_cases hij : j = i
    · have hfree := List.find?_some hfind
      rw [Bool.not_eq_true', ← hij] at hfree
      have hempty : waiting (t.sockets j) = [] :=
        List.eq_nil_of_length_eq_zero (length_waiting.trans ((h j hj).ok.unused hfree))
      have hserved := (h j hj).served
      have hzero : (0 : Nat) = 0 ∧ (0 : Nat) = 0 ∧ (0 : Nat) = 0 := ⟨rfl, rfl, rfl⟩
      obtain ⟨hok, hwait⟩ := queueOk_empty (s := { zeroed with used := true }) hzero rfl
      rw [hempty] at hserved
      refine ⟨?_, ?_⟩
      · rw [hij, setSocket_self]
        exact hok
      · rw [inbox_snoc, hij, setSocket_self, hwait, ← hij]
        exact hserved
    · refine (h j hj).same rfl ?_
      rw [setSocket_ne hij]
      exact SameQueue.refl _

theorem fifo_close (h : ∀ i < udpMaxSockets, Fifo log t i) (hj : j < udpMaxSockets) (sid : Int) :
    Fifo (log ++ [.closed sid]) (t.socketFree sid) j := by
  have hnote (b : Inbox) : b.note j (.closed sid) = if sid = j then ⟨[], []⟩ else b := rfl
  unfold Sockets.socketFree
  split
  · rename_i hout
    have hne : sid ≠ j := by
      unfold outside at hout
      omega
    exact (h j hj).same ((hnote _).trans (if_neg hne)) (SameQueue.refl _)
  · rename_i hin
    obtain ⟨-, hsid⟩ := not_outside hin
    by_cases hij : j = sid.toNat
    · have hzero : zeroed.qHead = 0 ∧ zeroed.qTail = 0 ∧ zeroed.qLen = 0 := ⟨rfl, rfl, rfl⟩
      obtain ⟨hok, hwait⟩ := queueOk_empty hzero rfl
      refine ⟨?_, ?_⟩
      · rw [hij, setSocket_self]
        exact hok
      · rw [inbox_snoc, hnote, if_pos (by omega), hij, setSocket_self, hwait]
        exact ⟨[], rfl, .nil⟩
    · refine (h j hj).same ((hnote _).trans (if_neg (by omega))) ?_
      rw [setSocket_ne hij]
      exact SameQueue.refl _

theorem stored_header (dst : Nat) (p : Packet) (i : Nat) :
    srcAddr ((t.setSocket dst (enqueue (t.sockets dst) p)).sockets i) = srcAddr (t.sockets i) ∧
      ((t.setSocket dst (enqueue (t.sockets dst) p)).sockets i).bindPort = (t.sockets i).bindPort ∧
      Sockets.matching ((t.setSocket dst (enqueue (t.sockets dst) p)).sockets i) =
        Sockets.matching (t.sockets i) := by
  by_cases hi : i = dst
  · rw [hi, setSocket_self]
    exact ⟨rfl, rfl, rfl⟩
  · rw [setSocket_ne hi]
    exact ⟨rfl, rfl, rfl⟩

theorem accepted_stored {req : SendReq} {buf : List UInt8} {addr : SockAddr} {dst : Nat}
    {p : Packet} (hbuf : req.buf = some buf) (haddr : req.addr = some addr)
    (hdst : t.findBound (dstAddr addr) addr.port = some dst) :
    accepted (t.setSocket dst (enqueue (t.sockets dst) p)) sid req buf.length =
      some (dst, ⟨srcAddr (t.sockets sid.toNat), (t.sockets sid.toNat).bindPort, buf⟩) := by
  obtain ⟨haddr', hport', -⟩ := stored_header (t := t) dst p sid.toNat
  simp only [accepted, hbuf, haddr, if_true, haddr', hport',
    findBound_congr fun i => (stored_header (t := t) dst p i).2.2]
  rw [hdst, Option.map_some]

theorem fifo_sendto (h : ∀ i < udpMaxSockets, Fifo log t i) (hj : j < udpMaxSockets)
    {req : SendReq} {eax : Int} (hs : Sends t sid req eax t') :
    Fifo (log ++ [.sent eax (accepted t' sid req eax)]) t' j := by
  cases hs with
  | refused hneg hsame =>
    have hnone : accepted t' sid req eax = none := by
      unfold accepted
      split
      · exact if_neg (by omega)
      · rfl
    rw [hnone]
    exact (h j hj).same rfl (hsame j)
  | @stored t₁ buf addr dst hbuf haddr hshort hsame hdst hroom =>
    obtain ⟨hlt, hmatch⟩ := findBound_some hdst
    obtain ⟨hused, -, -⟩ := matching_used hmatch
    obtain ⟨hdata, hfits⟩ := packet_datagram hshort (srcAddr (t₁.sockets sid.toNat))
      (t₁.sockets sid.toNat).bindPort
    obtain ⟨p, hp⟩ : ∃ p, p = packet (srcAddr (t₁.sockets sid.toNat))
      (t₁.sockets sid.toNat).bindPort buf := ⟨_, rfl⟩
    rw [accepted_stored hbuf haddr hdst, ← hdata]
    rw [← hp] at hfits ⊢
    by_cases hij : j = dst
    · subst hij
      obtain ⟨hok, hwait⟩ := enqueue_ok ((hsame j).ok (h j hj).ok) hused hroom
        (show p.used = true by rw [hp]; rfl) hfits
      refine ⟨?_, ?_⟩
      · rw [setSocket_self]
        exact hok
      · have hnote : (inbox j log).note j (.sent buf.length (some (j, p.datagram))) =
            { inbox j log with accepted := (inbox j log).accepted ++ [p.datagram] } := if_pos rfl
        rw [inbox_snoc, hnote, setSocket_self, hwait, (hsame j).waiting]
        exact (h j hj).served.push p.datagram
    · refine (h j hj).same (if_neg (Ne.symm hij)) ?_
      rw [setSocket_ne hij]
      exact hsame j

theorem fifo_recvfrom (h : ∀ i < udpMaxSockets, Fifo log t i) (hj : j < udpMaxSockets)
    {a : Received} (hr : Receives t sid req a t') :
    Fifo (log ++ [.received sid req (some a)]) t' j := by
  have hnote (b : Inbox) : b.note j (.received sid req (some a)) =
    if sid = j ∧ 0 ≤ a.eax then { b with got := b.got ++ [(req, a)] } else b := rfl
  cases hr with
  | refused hneg hio hnone =>
    exact (h j hj).same ((hnote _).trans (if_neg (by omega))) (SameQueue.refl _)
  | taken hin hwait hok hret =>
    obtain ⟨-, hsid⟩ := not_outside hin
    by_cases hij : j = sid.toNat
    · have hpos : sid = j ∧ 0 ≤ a.eax := by
        obtain ⟨-, heax, -⟩ := hret
        dsimp only at heax
        omega
      refine ⟨?_, ?_⟩
      · rw [hij, setSocket_self]
        exact hok
      · have hserved := (h j hj).served
        rw [hij, hwait] at hserved
        rw [inbox_snoc, hnote, if_pos hpos, hij, setSocket_self]
        exact hserved.pop hret
    · refine (h j hj).same ((hnote _).trans (if_neg (by omega))) ?_
      rw [setSocket_ne hij]
      exact SameQueue.refl _

theorem fifo_step (h : ∀ i < udpMaxSockets, Fifo log t i) (op : Op) :
    ∃ e t', step t op = some (e, t') ∧ ∀ i < udpMaxSockets, Fifo (log ++ [e]) t' i := by
  cases op with
  | socket => exact ⟨_, _, rfl, fun i hi => fifo_socket h hi _⟩
  | close sid => exact ⟨_, _, rfl, fun i hi => fifo_close h hi sid⟩
  | bind sid ua addrlen =>
    exact ⟨_, _, rfl, fun i hi => (h i hi).same rfl (sameQueues_bindSocket t sid ua addrlen i)⟩
  | sendto sid req => exact ⟨_, _, rfl, fun i hi => fifo_sendto h hi (sendto_sends t sid req)⟩
  | recvfrom sid req waited =>
    have hsock (hin : ¬ outside sid) : QueueOk (t.sockets sid.toNat) :=
      (h _ (not_outside hin).1).ok
    rcases recvfrom_receives hsock req waited with ⟨hsleep, -⟩ | ⟨a, t', hrecv, hdone⟩
    · refine ⟨_, _, by rw [step, hsleep], fun i hi => (h i hi).same rfl (SameQueue.refl _)⟩
    · exact ⟨_, _, by rw [step, hrecv], fun i hi => fifo_recvfrom h hi hdone⟩
  | setsockopt sid req =>
    exact ⟨_, _, rfl, fun i hi => (h i hi).same rfl (sameQueues_setsockopt t sid req i)⟩

theorem fifo_run (ops : List Op) :
    ∃ log t, answers step boot ops = some (log, t) ∧ ∀ j < udpMaxSockets, Fifo log t j :=
  answers_invariant (J := fun log t => ∀ j < udpMaxSockets, Fifo log t j)
    (fun _ _ op h => fifo_step h op) ops [] boot fun j _ => fifo_boot j

end Log

section Holds

structure FifoHolds (log : List Event) (t : Sockets) (j : Nat) : Prop where
  ring : Ring.Holds (fun p => p.used = true) udpQueueMax (t.sockets j).q (t.sockets j).qHead
    (t.sockets j).qTail (t.sockets j).qLen
  served : Served (inbox j log) (waiting (t.sockets j))
  next : ∀ d rest, waiting (t.sockets j) = d :: rest → ∀ req waited, req.buf = true →
    ∃ a t', t.recvfrom j req waited = some (a, t') ∧ Returns d (req, a) ∧
      waiting (t'.sockets j) = rest
  noIo : ∀ req waited a t', t.recvfrom j req waited = some (a, t') → a.eax ≠ -eio

theorem Fifo.holds {log : List Event} {t : Sockets} {j : Nat} (h : Fifo log t j)
    (hj : j < udpMaxSockets) : FifoHolds log t j := by
  have hrecv := recvfrom_receives (t := t) fun _ : ¬ outside (j : Int) => h.ok
  have hin : ¬ outside (j : Int) := by
    unfold outside
    omega
  refine ⟨h.ok.ring, h.served, fun d rest hwait req waited hbuf => ?_, fun req waited a t' ha => ?_⟩
  · have hlen : (t.sockets j).qLen ≠ 0 := by
      rw [← length_waiting, hwait]
      exact Nat.succ_ne_zero _
    rcases hrecv req waited with ⟨-, hzero⟩ | ⟨a, t', ha, hdone⟩
    · exact absurd hzero hlen
    · refine ⟨a, t', ha, ?_⟩
      cases hdone with
      | refused hneg hio hnone =>
        rw [hbuf] at hnone
        rcases hnone with hout | hno | hzero
        · exact absurd hout hin
        · cases hno
        · exact absurd hzero hlen
      | taken hin' hwait' hok hret =>
        rw [Int.toNat_natCast, hwait] at hwait'
        obtain ⟨rfl, rfl⟩ := List.cons.inj hwait'
        rw [Int.toNat_natCast, setSocket_self]
        exact ⟨hret, rfl⟩
  · rcases hrecv req waited with ⟨hnone, -⟩ | ⟨a', t'', ha', hdone⟩
    · rw [hnone] at ha
      cases ha
    · rw [ha'] at ha
      cases ha
      cases hdone with
      | refused hneg hio hnone => exact hio
      | taken hin' hwait' hok hret =>
        obtain ⟨-, heax, -⟩ := hret
        dsimp only at heax
        have hio : -eio < 0 := by decide
        omega

theorem sends_accepted {t t' : Sockets} {sid : Int} {req : SendReq} {buf : List UInt8} {eax : Int}
    (h : Sends t sid req eax t') (hbuf : req.buf = some buf) (hlen : eax = buf.length) :
    ∃ dst, accepted t' sid req eax = some (dst, ⟨srcAddr (t'.sockets sid.toNat),
      (t'.sockets sid.toNat).bindPort, buf⟩) := by
  cases h with
  | refused hneg hsame => omega
  | @stored t₁ buf' addr dst hbuf' haddr hshort hsame hdst hroom =>
    rw [hbuf] at hbuf'
    cases hbuf'
    refine ⟨dst, ?_⟩
    rw [accepted_stored hbuf haddr hdst]
    obtain ⟨haddr', hport', -⟩ := stored_header _ _ sid.toNat
    rw [haddr', hport']

end Holds

end HouseOS.Udp
