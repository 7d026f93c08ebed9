import HouseOS.Vfs.Model
import Mathlib.Data.Nat.Bitwise

namespace HouseOS.Syscall

open HouseOS.Vfs (Path)

def fdMax : Nat := 32

def fdPathCap : Nat := 256

inductive FdKind where
  | vfs
  | udp
  deriving DecidableEq, Repr

structure FdEntry where
  used : Bool
  kind : FdKind
  pipeAutoUnlink : Bool
  sockId : Int
  fdFlags : Nat
  openFlags : Nat
  offset : Nat
  path : Path
  deriving DecidableEq, Repr

abbrev FdTable := Nat → FdEntry

def oCreat : Nat := 0x0040

def oAppend : Nat := 0x0400

def oNonblock : Nat := 0x0800

def fdCloexec : Nat := 1

def enoent : Int := 2

def eio : Int := 5

def ebadf : Int := 9

def eagain : Int := 11

def enomem : Int := 12

def eacces : Int := 13

def ebusy : Int := 16

def enodev : Int := 19

def einval : Int := 22

def enfile : Int := 23

def enosys : Int := 38

def enotsup : Int := 95

def etimedout : Int := 110

-- what `memset` to 0 leaves
def zeroFd : FdEntry :=
  { used := false, kind := .vfs, pipeAutoUnlink := false, sockId := 0, fdFlags := 0,
    openFlags := 0, offset := 0, path := [] }

def closedFd : FdEntry := { zeroFd with sockId := -1 }

def pathFd (path : Path) (openFlags : Nat) : FdEntry :=
  { used := true, kind := .vfs, pipeAutoUnlink := false, sockId := -1, fdFlags := 0,
    openFlags := openFlags, offset := 0, path := path.take (fdPathCap - 1) }

def udpFd (sid : Int) : FdEntry :=
  { used := true, kind := .udp, pipeAutoUnlink := false, sockId := sid, fdFlags := 0,
    openFlags := 0, offset := 0, path := [] }

namespace FdTable

variable (fds : FdTable)

def set (i : Nat) (e : FdEntry) : FdTable := fun j => if j = i then e else fds j

def bindStdio (path : Path) : FdTable := fun i => if i < 3 then pathFd path 0 else fds i

def firstUnused (lo : Nat) : Option Nat :=
  (List.range' lo (fdMax - lo)).find? (fun i => !(fds i).used)

def fdAlloc (path : Path) (openFlags : Nat) : Option (Nat × FdTable) :=
  (fds.firstUnused 3).map (fun i => (i, fds.set i (pathFd path openFlags)))

def fdAllocUdp (sid : Int) : Option (Nat × FdTable) :=
  (fds.firstUnused 3).map (fun i => (i, fds.set i (udpFd sid)))

def fdPath (fd : Nat) : Option Path :=
  if fdMax ≤ fd ∨ (fds fd).used = false ∨ (fds fd).kind ≠ .vfs then none else some (fds fd).path

def fdUdpSid (fd : Nat) : Option Nat :=
  if fdMax ≤ fd ∨ (fds fd).used = false ∨ (fds fd).kind ≠ .udp ∨ (fds fd).sockId < 0 then none
  else some (fds fd).sockId.toNat

def fdHasPathRef (path : Path) (excludeFd : Nat) : Bool :=
  decide (path ≠ []) && (List.range fdMax).any (fun i =>
    decide (i ≠ excludeFd) && (fds i).used && decide ((fds i).kind = .vfs) &&
      decide ((fds i).path = path))

end FdTable

def fdTableInit (fds : FdTable) (done : Bool) (ttyPath : Path) : FdTable :=
  if done then fds else FdTable.bindStdio (fun _ => zeroFd) ttyPath

end HouseOS.Syscall
