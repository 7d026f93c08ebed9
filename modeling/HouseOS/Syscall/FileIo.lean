import HouseOS.Library.ByteCursor
import HouseOS.Library.Word
import HouseOS.Mm.Alloc
import HouseOS.Syscall.Fd

namespace HouseOS.Syscall

open HouseOS.ByteCursor
open HouseOS.Mm (alignSize)
open HouseOS.Vfs (Path NodeType)
open HouseOS.Word

structure Info where
  type : NodeType
  size : Nat
  deriving DecidableEq, Repr

-- the file calls of the mounted tree: a read gives its return value, the bytes it puts in the
-- buffer and the tree it leaves
structure FileCalls (Disk : Type) where
  vfsGetInfo : Disk → Path → Option Info
  vfsRead : Disk → Path → Nat → Int × List UInt8 × Disk
  vfsWrite : Disk → Path → List UInt8 → Int × Disk

-- a node whose empty read means that no data has come yet
def FileCalls.waits {Disk : Type} (o : FileCalls Disk) (d : Disk) (path : Path) : Bool :=
  match o.vfsGetInfo d path with
  | some info => decide (info.type = .fifo ∨ info.type = .socket)
  | none => false

structure Files (Disk : Type) where
  rootFs : Option Disk
  fds : FdTable

structure Answer where
  eax : Int
  out : List UInt8
  deriving DecidableEq, Repr

def fail (errno : Int) : Answer := ⟨-errno, []⟩

def seekSet : Int := 0

def seekCur : Int := 1

def seekEnd : Int := 2

-- the signed value of 32 bits; a signed sum wraps as the processor's addition does
def toInt32 (v : Int) : Int := v.bmod (2 ^ 32)

theorem toInt32_eq (v : Int) :
    toInt32 v = if v % 2 ^ 32 < 2 ^ 31 then v % 2 ^ 32 else v % 2 ^ 32 - 2 ^ 32 := rfl

attribute [irreducible] toInt32

namespace Files

variable {Disk : Type} (o : FileCalls Disk) (kmalloc : Nat → Option (List UInt8))

def setOffset (s : Files Disk) (fd offset : Nat) : Files Disk :=
  { s with fds := s.fds.set fd { s.fds fd with offset := offset } }

def putDisk (s : Files Disk) (d : Disk) : Files Disk := { s with rootFs := some d }

-- none: an access outside the temporary buffer
def readFile (s : Files Disk) (d : Disk) (fd : Nat) (path : Path) (size edx : Nat) :
    Option (Answer × Files Disk) :=
  let off := (s.fds fd).offset
  if size ≤ off then some (⟨0, []⟩, s)
  else
    let toCopy := if edx < size - off then edx else size - off
    match kmalloc (if size = 0 then 1 else size) with
    | none => some (fail enomem, s)
    | some tmp =>
        let (n, bytes, d') := o.vfsRead d path size
        (put tmp 0 bytes).bind fun tmp =>
          if n < 0 then some (fail eio, s.putDisk d')
          else (get tmp off toCopy).map fun out =>
            (⟨toCopy, out⟩, (s.putDisk d').setOffset fd (off + toCopy))

def readStream (s : Files Disk) (d : Disk) (fd : Nat) (path : Path) (edx : Nat) :
    Answer × Files Disk :=
  let (n, bytes, d') := o.vfsRead d path edx
  if n = 0 ∧ (s.fds fd).openFlags &&& oNonblock ≠ 0 ∧ o.waits d' path = true then
    (fail eagain, s.putDisk d')
  else if n < 0 then (fail eio, s.putDisk d')
  else (⟨n, bytes⟩, s.putDisk d')

def sysRead (s : Files Disk) (ebx ecx edx : Nat) : Option (Answer × Files Disk) :=
  match s.rootFs with
  | none => some (fail enodev, s)
  | some d =>
      if ecx = 0 ∨ edx = 0 then some (⟨0, []⟩, s)
      else
        match s.fds.fdPath ebx with
        | none => some (fail ebadf, s)
        | some path =>
            match o.vfsGetInfo d path with
            | some ⟨.file, size⟩ => s.readFile o kmalloc d ebx path size edx
            | _ => some (s.readStream o d ebx path edx)

def loadOld (d : Disk) (path : Path) (size : Nat) (buf : List UInt8) :
    Option (Int × List UInt8 × Disk) :=
  if 0 < size then
    let (n, bytes, d') := o.vfsRead d path size
    (put buf 0 bytes).map fun buf => (n, buf, d')
  else some (0, buf, d)

def writeFile (s : Files Disk) (d : Disk) (fd : Nat) (path : Path) (size : Nat)
    (data : List UInt8) : Option (Answer × Files Disk) :=
  let off := if (s.fds fd).openFlags &&& oAppend ≠ 0 then size else (s.fds fd).offset
  let dstSize := if size < add32 off data.length then add32 off data.length else size
  match kmalloc (if dstSize = 0 then 1 else dstSize) with
  | none => some (fail enomem, s)
  | some buf =>
      (put buf 0 (List.replicate dstSize 0)).bind fun buf =>
        (loadOld o d path size buf).bind fun (n, buf, d') =>
          if n < 0 then some (fail eio, s.putDisk d')
          else
            (put buf off data).bind fun buf =>
              (get buf 0 dstSize).map fun text =>
                let (r, d'') := o.vfsWrite d' path text
                if r < 0 then (fail eio, s.putDisk d'')
                else (⟨data.length, []⟩, (s.putDisk d'').setOffset fd (add32 off data.length))

def writeStream (s : Files Disk) (d : Disk) (path : Path) (data : List UInt8) :
    Answer × Files Disk :=
  let (n, d') := o.vfsWrite d path data
  if n < 0 then (fail eio, s.putDisk d') else (⟨n, []⟩, s.putDisk d')

def sysWrite (s : Files Disk) (ebx ecx : Nat) (data : List UInt8) : Option (Answer × Files Disk) :=
  match s.rootFs with
  | none => some (fail enodev, s)
  | some d =>
      if ecx = 0 ∨ data.length = 0 then some (⟨0, []⟩, s)
      else
        match s.fds.fdPath ebx with
        | none => some (fail ebadf, s)
        | some path =>
            match o.vfsGetInfo d path with
            | some ⟨.file, size⟩ => s.writeFile o kmalloc d ebx path size data
            | _ => some (s.writeStream o d path data)

def seekTarget (cursor size : Nat) (off whence : Int) : Option Int :=
  if whence = seekSet then some off
  else if whence = seekCur then some (toInt32 (toInt32 cursor + off))
  else if whence = seekEnd then some (toInt32 (toInt32 size + off))
  else none

def seekTo (s : Files Disk) (fd size : Nat) (off whence : Int) : Answer × Files Disk :=
  match seekTarget (s.fds fd).offset size off whence with
  | none => (fail einval, s)
  | some np => if np < 0 then (fail einval, s) else (⟨np, []⟩, s.setOffset fd np.toNat)

def sysLseek (s : Files Disk) (ebx ecx edx : Nat) : Answer × Files Disk :=
  match s.fds.fdPath ebx with
  | none => (fail ebadf, s)
  | some path =>
      match s.rootFs.bind (fun d => o.vfsGetInfo d path) with
      | none => (fail eio, s)
      | some info =>
          if info.type ≠ .file then (fail enotsup, s)
          else s.seekTo ebx info.size (toInt32 ecx) (toInt32 edx)

end Files

inductive IoCall where
  | read (ecx edx : Nat)
  | write (ecx : Nat) (data : List UInt8)
  | lseek (ecx edx : Nat)
  deriving DecidableEq, Repr

-- what kmalloc has when the call is made: the block it gives is never shorter than the rounded size
structure Allocator where
  kmalloc : Nat → Option (List UInt8)
  room : ∀ n block, kmalloc n = some block → alignSize n ≤ block.length

structure IoStep where
  alloc : Allocator
  call : IoCall

def ioStep {Disk : Type} (o : FileCalls Disk) (fd : Nat) (s : Files Disk) (e : IoStep) :
    Option (Answer × Files Disk) :=
  match e.call with
  | .read ecx edx => s.sysRead o e.alloc.kmalloc fd ecx edx
  | .write ecx data => s.sysWrite o e.alloc.kmalloc fd ecx data
  | .lseek ecx edx => some (s.sysLseek o fd ecx edx)

end HouseOS.Syscall
