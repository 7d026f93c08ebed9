import HouseOS.Library.Ring
import HouseOS.Syscall.Fd

namespace HouseOS.Udp

open HouseOS.Ring (contents)
open HouseOS.Syscall

def udpMaxSockets : Nat := 8

def udpQueueMax : Nat := 8

def udpPayloadMax : Nat := 512

def udpEphemeralStart : Nat := 49152

def udpEphemeralEnd : Nat := 65535

def inaddrAny : Nat := 0

def inaddrLoopback : Nat := 0x7F000001

def afInet : Nat := 2

def sockDgram : Nat := 2

def ipprotoUdp : Nat := 17

def msgDontwait : Nat := 0x40

def sockaddrInBytes : Nat := 16

structure Datagram where
  srcAddr : Nat
  srcPort : Nat
  payload : List UInt8
  deriving DecidableEq, Repr

-- family, port and address after the conversion from network order
structure SockAddr where
  family : Nat
  port : Nat
  addr : Nat
  deriving DecidableEq, Repr

structure Packet where
  used : Bool
  srcAddr : Nat
  srcPort : Nat
  len : Nat
  payload : List UInt8
  deriving DecidableEq, Repr

def zeroPacket : Packet :=
  { used := false, srcAddr := 0, srcPort := 0, len := 0, payload := List.replicate udpPayloadMax 0 }

structure Socket where
  used : Bool
  bound : Bool
  bindAddr : Nat
  bindPort : Nat
  rcvTimeoutMs : Nat
  q : Nat → Packet
  qHead : Nat
  qTail : Nat
  qLen : Nat

def zeroed : Socket :=
  { used := false, bound := false, bindAddr := 0, bindPort := 0, rcvTimeoutMs := 0,
    q := fun _ => zeroPacket, qHead := 0, qTail := 0, qLen := 0 }

structure Sockets where
  sockets : Nat → Socket
  nextEphemeral : Nat

def boot : Sockets := { sockets := fun _ => zeroed, nextEphemeral := udpEphemeralStart }

-- a field of eight or of sixteen bits
def u8 (n : Nat) : Nat := n % 2 ^ 8

def u16 (n : Nat) : Nat := n % 2 ^ 16

structure SendReq where
  buf : Option (List UInt8)
  addr : Option SockAddr
  addrlen : Nat
  deriving DecidableEq, Repr

structure RecvReq where
  buf : Bool
  len : Nat
  flags : Nat
  addr : Bool
  addrlen : Option Nat
  deriving DecidableEq, Repr

structure SockoptReq where
  level : Nat
  optname : Nat
  optval : Option Nat
  optlen : Nat
  deriving DecidableEq, Repr

structure Received where
  eax : Int
  data : List UInt8
  src : Option (Nat × Nat)
  deriving DecidableEq, Repr

def refused (errno : Int) : Received := ⟨-errno, [], none⟩

def solSocket : Nat := 1

def soRcvtimeo : Nat := 20

def soSndtimeo : Nat := 21

def outside (sid : Int) : Prop := sid < 0 ∨ (udpMaxSockets : Int) ≤ sid

instance (sid : Int) : Decidable (outside sid) :=
  inferInstanceAs (Decidable (sid < 0 ∨ (udpMaxSockets : Int) ≤ sid))

-- a datagram is from and to the loopback address, never to all of them
def srcAddr (s : Socket) : Nat := if s.bindAddr = inaddrAny then inaddrLoopback else s.bindAddr

def dstAddr (addr : SockAddr) : Nat := if addr.addr = inaddrAny then inaddrLoopback else addr.addr

def wantsSource (req : RecvReq) : Bool :=
  match req.addrlen with
  | some n => req.addr && decide (sockaddrInBytes ≤ n)
  | none => false

def packet (srcAddr srcPort : Nat) (buf : List UInt8) : Packet where
  used := true
  srcAddr := srcAddr
  srcPort := srcPort
  len := u16 buf.length
  payload := buf ++ List.replicate (udpPayloadMax - buf.length) 0

def enqueue (dst : Socket) (pkt : Packet) : Socket :=
  { dst with
    q := Function.update dst.q dst.qTail pkt
    qTail := u8 ((dst.qTail + 1) % udpQueueMax)
    qLen := u8 (dst.qLen + 1) }

def dequeue (s : Socket) : Socket :=
  { s with
    q := Function.update s.q s.qHead zeroPacket
    qHead := u8 ((s.qHead + 1) % udpQueueMax)
    qLen := s.qLen - 1 }

namespace Sockets

variable (t : Sockets)

def setSocket (sid : Nat) (s : Socket) : Sockets :=
  { t with sockets := Function.update t.sockets sid s }

def matching (s : Socket) (addr port : Nat) : Bool :=
  s.used && s.bound && decide (s.bindPort = port) &&
    (decide (s.bindAddr = addr) || decide (s.bindAddr = inaddrAny) || decide (addr = inaddrAny))

def findBound (addr port : Nat) : Option Nat :=
  (List.range udpMaxSockets).find? fun i => matching (t.sockets i) addr port

def portInUse (addr port : Nat) (excludeSid : Int) : Bool :=
  (List.range udpMaxSockets).any fun i =>
    decide ((i : Int) ≠ excludeSid) && matching (t.sockets i) addr port

def bindTo (sid addr port : Nat) : Sockets :=
  t.setSocket sid { t.sockets sid with bound := true, bindAddr := addr, bindPort := port }

def bumpEphemeral : Sockets :=
  let next := u16 (t.nextEphemeral + 1)
  { t with nextEphemeral := if next < udpEphemeralStart then udpEphemeralStart else next }

def autobindLoop (sid : Nat) : Nat → Sockets → Int × Sockets
  | 0, t => (-1, t)
  | tries + 1, t =>
      let p := t.nextEphemeral
      let t := t.bumpEphemeral
      if !t.portInUse inaddrAny p sid then (0, t.bindTo sid inaddrAny p)
      else autobindLoop sid tries t

def autobind (sid : Int) : Int × Sockets :=
  if outside sid then (-1, t)
  else autobindLoop sid.toNat (udpEphemeralEnd - udpEphemeralStart + 1) t

def socketAlloc : Int × Sockets :=
  match (List.range udpMaxSockets).find? fun i => !(t.sockets i).used with
  | none => (-1, t)
  | some i => (i, t.setSocket i { zeroed with used := true })

def socketFree (sid : Int) : Sockets :=
  if outside sid then t else t.setSocket sid.toNat zeroed

def bindSocket (sid : Int) (ua : Option SockAddr) (addrlen : Nat) : Int × Sockets :=
  match ua with
  | none => (-einval, t)
  | some ua =>
      if outside sid then (-einval, t)
      else if addrlen < sockaddrInBytes then (-einval, t)
      else if ua.family ≠ afInet then (-einval, t)
      else if ua.port = 0 then (-einval, t)
      else if ua.addr ≠ inaddrAny ∧ ua.addr ≠ inaddrLoopback then (-einval, t)
      else if t.portInUse ua.addr ua.port sid then (-ebusy, t)
      else (0, t.bindTo sid.toNat ua.addr ua.port)

def sendRefused (sid : Int) (req : SendReq) : Bool :=
  match req.buf, req.addr with
  | some buf, some addr =>
      decide (outside sid ∨ req.addrlen < sockaddrInBytes ∨ udpPayloadMax < buf.length ∨
        addr.family ≠ afInet ∨ addr.port = 0 ∨
        addr.addr ≠ inaddrLoopback ∧ addr.addr ≠ inaddrAny)
  | _, _ => true

def deliver (sid : Nat) (buf : List UInt8) (addr : SockAddr) : Int × Sockets :=
  match t.findBound (dstAddr addr) addr.port with
  | none => (-enoent, t)
  | some dst =>
      if udpQueueMax ≤ (t.sockets dst).qLen then (-eagain, t)
      else
        (buf.length, t.setSocket dst (enqueue (t.sockets dst)
          (packet (srcAddr (t.sockets sid)) (t.sockets sid).bindPort buf)))

def sendto (sid : Int) (req : SendReq) : Int × Sockets :=
  match req.buf, req.addr with
  | some buf, some addr =>
      if sendRefused sid req then (-einval, t)
      else
        let (rc, t) := if !(t.sockets sid.toNat).bound then t.autobind sid else (0, t)
        if rc ≠ 0 then (-eagain, t) else t.deliver sid.toNat buf addr
  | _, _ => (-einval, t)

-- none: the queue is empty and the caller sleeps before it looks again
def recvfrom (sid : Int) (req : RecvReq) (waited : Nat) : Option (Received × Sockets) :=
  if outside sid ∨ req.buf = false then some (refused einval, t)
  else
    let s := t.sockets sid.toNat
    if s.qLen = 0 then
      if req.flags &&& msgDontwait ≠ 0 then some (refused eagain, t)
      else if 0 < s.rcvTimeoutMs ∧ s.rcvTimeoutMs ≤ waited then some (refused etimedout, t)
      else none
    else
      let pkt := s.q s.qHead
      if pkt.used = false then some (refused eio, t)
      else
        let toCopy := if req.len < pkt.len then req.len else pkt.len
        some (⟨toCopy, pkt.payload.take toCopy,
          if wantsSource req then some (pkt.srcAddr, pkt.srcPort) else none⟩,
          t.setSocket sid.toNat (dequeue s))

def setsockopt (sid : Int) (req : SockoptReq) : Int × Sockets :=
  if req.level ≠ solSocket then (-einval, t)
  else if req.optname = soRcvtimeo then
    match req.optval with
    | none => (-einval, t)
    | some ms =>
        if req.optlen < 4 then (-einval, t)
        else
          let ms := if 600000 < ms then 600000 else ms
          (0, t.setSocket sid.toNat { t.sockets sid.toNat with
            rcvTimeoutMs := u16 (if 65535 < ms then 65535 else ms) })
  else if req.optname = soSndtimeo then (0, t)
  else (-enotsup, t)

end Sockets

inductive Op where
  | socket
  | close (sid : Int)
  | bind (sid : Int) (ua : Option SockAddr) (addrlen : Nat)
  | sendto (sid : Int) (req : SendReq)
  | recvfrom (sid : Int) (req : RecvReq) (waited : Nat)
  | setsockopt (sid : Int) (req : SockoptReq)

-- what a caller sees; a call that returned the length of its text has sent it
inductive Event where
  | closed (sid : Int)
  | sent (eax : Int) (accepted : Option (Nat × Datagram))
  | received (sid : Int) (req : RecvReq) (answer : Option Received)
  | other (eax : Int)

def accepted (t : Sockets) (sid : Int) (req : SendReq) (eax : Int) : Option (Nat × Datagram) :=
  match req.buf, req.addr with
  | some buf, some addr =>
      if eax = buf.length then
        (t.findBound (dstAddr addr) addr.port).map fun dst =>
          (dst, ⟨srcAddr (t.sockets sid.toNat), (t.sockets sid.toNat).bindPort, buf⟩)
      else none
  | _, _ => none

def step (t : Sockets) : Op → Option (Event × Sockets)
  | .socket => some (.other t.socketAlloc.1, t.socketAlloc.2)
  | .close sid => some (.closed sid, t.socketFree sid)
  | .bind sid ua addrlen =>
      some (.other (t.bindSocket sid ua addrlen).1, (t.bindSocket sid ua addrlen).2)
  | .sendto sid req =>
      let (eax, t) := t.sendto sid req
      some (.sent eax (accepted t sid req eax), t)
  | .recvfrom sid req waited =>
      match t.recvfrom sid req waited with
      | some (a, t) => some (.received sid req (some a), t)
      | none => some (.received sid req none, t)
  | .setsockopt sid req => some (.other (t.setsockopt sid req).1, (t.setsockopt sid req).2)

end HouseOS.Udp
