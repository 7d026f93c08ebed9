import HouseOS.Sched.Model
import HouseOS.Udp.Model

namespace HouseOS.Syscall

open HouseOS.Sched (Kernel Task noSlot userSlotCount)
open HouseOS.Udp (Received RecvReq SendReq SockAddr SockoptReq Sockets afInet ipprotoUdp refused
  sockDgram)
open HouseOS.Vfs (Path slash)

structure SpawnReq where
  path : Path
  tty : Path
  cmdline : Path
  deriving DecidableEq, Repr

structure ForkCtx where
  userCr3 : Nat
  userSlot : Nat
  userPhys : Nat
  ttyPath : Path
  progPath : Path
  cmdline : Path
  deriving DecidableEq, Repr

-- where the code of a task stands; everything up to `user` runs in the kernel with interrupts on
inductive Stage where
  | kernel
  | spawned (req : SpawnReq)
  | probing (req : SpawnReq) (idx : Nat)
  | probed (req : SpawnReq) (idx : Nat)
  | holding (req : SpawnReq) (idx : Nat)
  | loading (req : SpawnReq)
  | forked (ctx : ForkCtx)
  | user
  deriving DecidableEq, Repr

structure FifoCalls (Disk : Type) where
  fifo : Disk → Path → Option (List UInt8)
  vfsMkfifo : Disk → Path → Bool × Disk
  vfsUnlink : Disk → Path → Bool × Disk
  vfsOpen : Disk → Path → Bool × Disk
  vfsCreateFile : Disk → Path → Bool × Disk

structure System (Disk : Type) where
  kernel : Kernel
  stage : Nat → Stage
  taskFds : Nat → FdTable
  taskFdInit : Nat → Bool
  gFds : FdTable
  gFdInit : Bool
  udp : Sockets
  pipeSeq : Nat
  disk : Disk
  pageDirs : List Nat
  -- which SYS_SOCKET call made a descriptor, how many there were, and the pipes SYS_PIPE made
  stamp : Nat → Nat → Nat
  socketCalls : Nat
  pipes : List Path

def devTty1 : Path := [47, 100, 101, 118, 47, 116, 116, 121, 47, 49]

def pipeStem : Path := [47, 116, 109, 112, 47, 46, 112, 105, 112, 101, 95]

def ttyPathCap : Nat := 64

def progPathCap : Nat := 256

def cmdlineCap : Nat := 512

def userSlotBasePhys : Nat := 0x02000000

def userSlotSizePhys : Nat := 0x00400000

def userPhys (idx : Nat) : Nat := userSlotBasePhys + userSlotSizePhys * idx

def utoaDigits : Nat → Nat → List UInt8 → List UInt8
  | 0, _, text => text
  | fuel + 1, value, text =>
      let text := UInt8.ofNat (48 + value % 10) :: text
      if value / 10 = 0 then text else utoaDigits fuel (value / 10) text

-- 32 bits have at most ten digits
def utoa (value : Nat) : List UInt8 := utoaDigits 10 value []

def pipePath (pid seq : Nat) : Path := pipeStem ++ utoa pid ++ [95] ++ utoa seq

def nextPipeSeq (seq : Nat) : Nat × Nat :=
  if seq = 0 then (1, 2) else (seq, (seq + 1) % 2 ^ 32)

namespace System

variable {Disk : Type}

def slot (s : System Disk) : Nat := s.kernel.currentTask

def fds (s : System Disk) : FdTable := s.taskFds s.slot

def setFds (s : System Disk) (t : FdTable) : System Disk :=
  { s with taskFds := Function.update s.taskFds s.slot t }

def setFd (s : System Disk) (fd : Nat) (e : FdEntry) : System Disk := s.setFds (s.fds.set fd e)

def setStage (s : System Disk) (i : Nat) (g : Stage) : System Disk :=
  { s with stage := Function.update s.stage i g }

def fdCurrent (s : System Disk) : System Disk :=
  { s.setFds (fdTableInit s.fds (s.taskFdInit s.slot) devTty1) with
    taskFdInit := Function.update s.taskFdInit s.slot true }

section FdCalls

variable (o : FifoCalls Disk)

def freeUdp (s : System Disk) (e : FdEntry) : System Disk :=
  if e.kind = .udp ∧ 0 ≤ e.sockId then { s with udp := s.udp.socketFree e.sockId } else s

def unlinkLast (s : System Disk) (fd : Nat) : System Disk :=
  let e := s.fds fd
  if e.kind = .vfs ∧ e.pipeAutoUnlink = true ∧ s.fds.fdHasPathRef e.path fd = false then
    { s with disk := (o.vfsUnlink s.disk e.path).2 }
  else s

def dropFd (s : System Disk) (fd : Nat) : System Disk :=
  ((s.freeUdp (s.fds fd)).unlinkLast o fd).setFd fd closedFd

def sysClose (s : System Disk) (fd : Nat) : Int × System Disk :=
  if fdMax ≤ fd ∨ (s.fds fd).used = false then (-ebadf, s) else (0, s.dropFd o fd)

def isCloexec (e : FdEntry) : Bool := e.used && decide (e.fdFlags &&& fdCloexec ≠ 0)

def dropCloexec (s : System Disk) (fd : Nat) : System Disk :=
  if isCloexec (s.fds fd) then s.dropFd o fd else s

def closeCloexecFds (s : System Disk) : System Disk :=
  (List.range' 3 (fdMax - 3)).foldl (dropCloexec o) s

def dupEntry (e : FdEntry) : FdEntry :=
  { e with used := true, fdFlags := 0, path := e.path.take (fdPathCap - 1) }

def dupTo (s : System Disk) (oldfd dst : Nat) : Int × System Disk :=
  (dst, s.setFd dst (dupEntry (s.fds oldfd)))

def overwriteFd (s : System Disk) (dst : Nat) : System Disk :=
  if (s.fds dst).used then (s.freeUdp (s.fds dst)).setFd dst closedFd else s

def fdDupFromTo (s : System Disk) (oldfd newfd : Nat) (fixedTarget : Bool) : Int × System Disk :=
  if fdMax ≤ oldfd ∨ (s.fds oldfd).used = false then (-ebadf, s)
  else if (s.fds oldfd).kind = .udp then (-enotsup, s)
  else if fixedTarget = false then
    match s.fds.firstUnused 0 with
    | none => (-enfile, s)
    | some dst => s.dupTo oldfd dst
  else if fdMax ≤ newfd then (-ebadf, s)
  else if newfd = oldfd then (newfd, s)
  else (s.overwriteFd newfd).dupTo oldfd newfd

def fGetfl : Int := 3

def fSetfl : Int := 4

def fGetfd : Int := 1

def fSetfd : Int := 2

def fDupfd : Int := 0

def sysFcntl (s : System Disk) (fd : Nat) (cmd : Int) (arg : Nat) : Int × System Disk :=
  let e := s.fds fd
  if fdMax ≤ fd ∨ e.used = false then (-ebadf, s)
  else if cmd = fGetfl then (e.openFlags, s)
  else if cmd = fSetfl then
    let flags := oAppend ||| oNonblock
    let keep := e.openFlags - (e.openFlags &&& flags)
    (0, s.setFd fd { e with openFlags := keep ||| (arg &&& flags) })
  else if cmd = fGetfd then (if e.fdFlags &&& fdCloexec ≠ 0 then fdCloexec else 0, s)
  else if cmd = fSetfd then
    (0, s.setFd fd { e with fdFlags := if arg &&& fdCloexec ≠ 0 then fdCloexec else 0 })
  else if cmd = fDupfd then
    match s.fds.firstUnused (if arg < 3 then 3 else arg) with
    | none => (-enfile, s)
    | some i => s.fdDupFromTo fd i true
  else (-einval, s)

def openPath (s : System Disk) (path : Path) (flags : Nat) : Int × System Disk :=
  let (opened, d) := o.vfsOpen s.disk path
  if opened then (0, { s with disk := d })
  else if flags &&& oCreat ≠ 0 ∨ flags &&& 1 ≠ 0 then
    let (made, d) := o.vfsCreateFile d path
    if !made then (-eacces, { s with disk := d })
    else
      let (opened, d) := o.vfsOpen d path
      (if opened then 0 else -enoent, { s with disk := d })
  else (-enoent, { s with disk := d })

def sysOpen (s : System Disk) (path : Path) (flags : Nat) : Int × System Disk :=
  if path.head? ≠ some slash ∨ fdPathCap ≤ path.length then (-einval, s)
  else
    let (r, s) := s.openPath o path flags
    if r < 0 then (r, s)
    else
      match s.fds.fdAlloc path flags with
      | none => (-enfile, s)
      | some (fd, t) => (fd, s.setFds t)

def pipeName (s : System Disk) : Path := pipePath s.kernel.current.pid (nextPipeSeq s.pipeSeq).1

def pipeFds (s : System Disk) (path : Path) : Except Int (Nat × Nat) × System Disk :=
  match s.fds.fdAlloc path 0 with
  | none => (.error enfile, { s with disk := (o.vfsUnlink s.disk path).2 })
  | some (fdr, t) =>
      match t.fdAlloc path 0 with
      | none =>
          (.error enfile,
            { s.setFds (t.set fdr closedFd) with disk := (o.vfsUnlink s.disk path).2 })
      | some (fdw, t) =>
          let t := t.set fdr { t fdr with pipeAutoUnlink := true }
          let t := t.set fdw { t fdw with pipeAutoUnlink := true }
          (.ok (fdr, fdw), { s.setFds t with pipes := path :: s.pipes })

def pipeTry (s : System Disk) : Bool × System Disk :=
  let (made, d) := o.vfsMkfifo s.disk s.pipeName
  (made, { s with disk := d, pipeSeq := (nextPipeSeq s.pipeSeq).2 })

def pipeLoop (s : System Disk) : Nat → Except Int (Nat × Nat) × System Disk
  | 0 => (.error ebusy, s)
  | tries + 1 =>
      match s.pipeTry o with
      | (true, s') => s'.pipeFds o s.pipeName
      | (false, s') => pipeLoop s' tries

def sysPipe (s : System Disk) (fdsOut : Nat) : Except Int (Nat × Nat) × System Disk :=
  if fdsOut = 0 then (.error einval, s) else s.pipeLoop o 32

def sysSocket (s : System Disk) (domain type protocol : Nat) : Int × System Disk :=
  if domain ≠ afInet ∨ type ≠ sockDgram ∨ (protocol ≠ 0 ∧ protocol ≠ ipprotoUdp) then (-einval, s)
  else
    let (sid, u) := s.udp.socketAlloc
    if sid < 0 then (-enfile, s)
    else
      match s.fds.fdAllocUdp sid with
      | none => (-enfile, { s with udp := u.socketFree sid })
      | some (fd, t) =>
          (fd, { s.setFds t with
            udp := u
            socketCalls := s.socketCalls + 1
            stamp := Function.update s.stamp s.slot
              (Function.update (s.stamp s.slot) fd s.socketCalls) })

def sysBind (s : System Disk) (fd : Nat) (addr : Option SockAddr) (addrlen : Nat) :
    Int × System Disk :=
  match s.fds.fdUdpSid fd with
  | none => (-ebadf, s)
  | some sid =>
      let (r, u) := s.udp.bindSocket sid addr addrlen
      (r, { s with udp := u })

def sysSendto (s : System Disk) (fd : Nat) (req : Option SendReq) : Int × System Disk :=
  match s.fds.fdUdpSid fd, req with
  | none, _ => (-ebadf, s)
  | some _, none => (-einval, s)
  | some sid, some req =>
      let (r, u) := s.udp.sendto sid req
      (r, { s with udp := u })

-- none: the caller has to sleep and look again
def sysRecvfrom (s : System Disk) (fd : Nat) (req : Option RecvReq) (waited : Nat) :
    Option (Received × System Disk) :=
  match s.fds.fdUdpSid fd, req with
  | none, _ => some (refused ebadf, s)
  | some _, none => some (refused einval, s)
  | some sid, some req =>
      (s.udp.recvfrom sid req waited).map fun (a, u) => (a, { s with udp := u })

def sysSetsockopt (s : System Disk) (fd : Nat) (req : Option SockoptReq) : Int × System Disk :=
  match s.fds.fdUdpSid fd, req with
  | none, _ => (-ebadf, s)
  | some _, none => (-einval, s)
  | some sid, some req =>
      let (r, u) := s.udp.setsockopt sid req
      (r, { s with udp := u })

end FdCalls

end System

end HouseOS.Syscall
