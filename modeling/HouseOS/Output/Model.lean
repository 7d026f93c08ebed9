import HouseOS.Cmd.Model

namespace HouseOS.Output

open HouseOS.Cmd (bufPtr)
open HouseOS.Syscall
open HouseOS.Vfs (Path)

section Shell

variable {Disk : Type} (o : TreeCalls Disk)

def writeTextToFile (m : Allocator) (s : Files Disk) (path : Path) (text : List UInt8)
    (appendMode : Bool) : Option (Int × Files Disk) :=
  let (fd, s) := s.sysOpen o path 1
  if fd < 0 then some (-1, s)
  else if appendMode then
    let (n, s) := s.sysAppend o fd.toNat bufPtr text
    some (if n < 0 then -1 else 0, (s.sysClose o fd.toNat).2)
  else
    (s.sysWrite o.toFileCalls m.kmalloc fd.toNat bufPtr text).map fun (a, s) =>
      (if a.eax < 0 then -1 else 0, (s.sysClose o fd.toNat).2)

end Shell

section Stdio

def fileModeRead : Nat := 1

def fileModeWrite : Nat := 2

def fileModeAppend : Nat := 4

def poolSize : Nat := 16

structure Stream where
  fd : Nat
  eof : Bool
  error : Bool
  mode : Nat
  deriving DecidableEq, Repr

structure Stdio (Disk : Type) where
  files : Files Disk
  pool : Nat → Stream
  used : Nat → Bool

variable {Disk : Type} (o : TreeCalls Disk)

def modeOf (mode : List UInt8) : Option (Nat × Nat) :=
  match mode with
  | 114 :: _ => some (0, fileModeRead)
  | 119 :: _ => some (1, fileModeWrite)
  | 97 :: _ => some (1, fileModeWrite ||| fileModeAppend)
  | _ => none

namespace Stdio

def setStream (s : Stdio Disk) (k : Nat) (f : Stream) : Stdio Disk :=
  { s with pool := fun j => if j = k then f else s.pool j }

def firstFree (s : Stdio Disk) : Option Nat := (List.range poolSize).find? fun k => !s.used k

def fopen (s : Stdio Disk) (path : Path) (mode : List UInt8) : Option Nat × Stdio Disk :=
  match modeOf mode with
  | none => (none, s)
  | some (flags, m) =>
      let (fd, files) := s.files.sysOpen o path flags
      if fd < 0 then (none, { s with files := files })
      else
        match s.firstFree with
        | none => (none, { s with files := (files.sysClose o fd.toNat).2 })
        | some k =>
            (some k, { setStream s k ⟨fd.toNat, false, false, m⟩ with
              files := files, used := fun j => if j = k then true else s.used j })

def fclose (s : Stdio Disk) (k : Nat) : Int × Stdio Disk :=
  let (rc, files) := s.files.sysClose o (s.pool k).fd
  (rc, { s with files := files, used := fun j => if j = k then false else s.used j })

def fwrite (m : Allocator) (s : Stdio Disk) (k : Nat) (ptr : List UInt8) (size nmemb : Nat) :
    Option (Nat × Stdio Disk) :=
  if size = 0 ∨ nmemb = 0 then some (0, s)
  else if (s.pool k).mode &&& fileModeWrite = 0 then some (0, s)
  else
    let data := ptr.take (size * nmemb % 2 ^ 32)
    let done (n : Int) (files : Files Disk) : Nat × Stdio Disk :=
      if n ≤ 0 then (0, { setStream s k { s.pool k with error := true } with files := files })
      else (n.toNat / size, { s with files := files })
    if (s.pool k).mode &&& fileModeAppend ≠ 0 then
      let (n, files) := s.files.sysAppend o (s.pool k).fd bufPtr data
      some (done n files)
    else
      (s.files.sysWrite o.toFileCalls m.kmalloc (s.pool k).fd bufPtr data).map fun (a, files) =>
        done a.eax files

def fputc (m : Allocator) (s : Stdio Disk) (k : Nat) (c : UInt8) : Option (Int × Stdio Disk) :=
  (fwrite o m s k [c] 1 1).map fun (n, s) => (if n ≠ 1 then -1 else c.toNat, s)

-- the fuel is the length of the text: a round that goes on has written a byte
def writeAllFrom (mem : Nat → Allocator) : Nat → Files Disk → Nat → List UInt8 → Int →
    Option (Int × Files Disk)
  | 0, s, _, _, total => some (total, s)
  | fuel + 1, s, fd, buf, total =>
      if buf = [] then some (total, s)
      else
        (s.sysWrite o.toFileCalls (mem fuel).kmalloc fd bufPtr buf).bind fun (a, s) =>
          if a.eax ≤ 0 then some (if 0 < total then total else -1, s)
          else writeAllFrom mem fuel s fd (buf.drop a.eax.toNat) (total + a.eax)

def writeAll (mem : Nat → Allocator) (s : Files Disk) (fd : Nat) (buf : List UInt8) :
    Option (Int × Files Disk) :=
  writeAllFrom o mem buf.length s fd buf 0

def putS (mem : Nat → Allocator) (s : Stdio Disk) (k : Nat) (text : List UInt8) :
    Option (Int × Stdio Disk) :=
  (writeAll o mem s.files (s.pool k).fd text).map fun (n, files) => (n, { s with files := files })

def putC (mem : Nat → Allocator) (s : Stdio Disk) (k : Nat) (c : UInt8) :
    Option (Int × Stdio Disk) :=
  putS o mem s k [c]

def fputs (mem : Nat → Allocator) (s : Stdio Disk) (k : Nat) (text : List UInt8) :
    Option (Int × Stdio Disk) :=
  (putS o mem s k text).map fun (n, s) => (if n < 0 then -1 else n, s)

end Stdio

-- the writing calls; formatted output is a sequence of the last two
inductive WriteOp where
  | fwrite (ptr : List UInt8) (size nmemb : Nat)
  | fputc (c : UInt8)
  | fputs (text : List UInt8)
  | putC (c : UInt8)
  deriving DecidableEq, Repr

def WriteOp.bytes : WriteOp → List UInt8
  | .fwrite ptr size nmemb => ptr.take (size * nmemb)
  | .fputc c => [c]
  | .fputs text => text
  | .putC c => [c]

def WriteOp.run (mem : Nat → Allocator) (s : Stdio Disk) (k : Nat) :
    WriteOp → Option (Bool × Stdio Disk)
  | .fwrite ptr size nmemb =>
      (s.fwrite o (mem 0) k ptr size nmemb).map fun (n, s) => (decide (n = nmemb), s)
  | .fputc c => (s.fputc o (mem 0) k c).map fun (n, s) => (decide (0 ≤ n), s)
  | .fputs text => (s.fputs o mem k text).map fun (n, s) => (decide (0 ≤ n), s)
  | .putC c => (s.putC o mem k c).map fun (n, s) => (decide (0 ≤ n), s)

def runWrites (k : Nat) : List ((Nat → Allocator) × WriteOp) → Stdio Disk →
    Option (Bool × Stdio Disk)
  | [], s => some (true, s)
  | (mem, op) :: ops, s =>
      (op.run o mem s k).bind fun (ok, s) => if ok then runWrites k ops s else some (false, s)

end Stdio

end HouseOS.Output
