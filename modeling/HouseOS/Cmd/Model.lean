import HouseOS.Syscall.FileTree

namespace HouseOS.Cmd

open HouseOS.Syscall
open HouseOS.Vfs (Path slash)

section Normalize

def tmpCap : Nat := 256

def segMax : Nat := 64

def dot : Path := [46]

def dotdot : Path := [46, 46]

def joinCwd (cwd inp : Path) : Option Path :=
  if inp.head? = some slash then some (inp.take (tmpCap - 1))
  else if cwd = [slash] then some (slash :: inp.take (tmpCap - 2))
  else
    let tmp := cwd.take (tmpCap - 1)
    if tmpCap ≤ tmp.length + 1 ∨ tmpCap ≤ tmp.length + 1 + inp.length then none
    else some (tmp ++ slash :: inp)

-- `segStarts` has the place of the last component first
def addSegments (cap : Nat) : Nat → Path → Path → List Nat → Option Path
  | 0, _, out, _ => some out
  | fuel + 1, tmp, out, segStarts =>
      match tmp.dropWhile (· = slash) with
      | [] => some out
      | c :: rest =>
          let seg := (c :: rest).takeWhile (· ≠ slash)
          let tmp := (c :: rest).dropWhile (· ≠ slash)
          if seg = dot then addSegments cap fuel tmp out segStarts
          else if seg = dotdot then
            match segStarts with
            | [] => addSegments cap fuel tmp out []
            | start :: starts => addSegments cap fuel tmp (out.take start) starts
          else if 1 < out.length ∧ cap - 1 ≤ out.length then none
          else
            let out := if 1 < out.length then out ++ [slash] else out
            if cap ≤ out.length + seg.length ∨ segMax ≤ segStarts.length then none
            else addSegments cap fuel tmp (out ++ seg) (out.length :: segStarts)

def normalizePath (cwd inp : Path) (cap : Nat) : Option Path :=
  if cap < 2 then none
  else (joinCwd cwd inp).bind fun tmp => addSegments cap (tmp.length + 1) tmp [slash] []

end Normalize

section Copy

variable {Disk : Type} (o : TreeCalls Disk) (mem : Nat → Allocator)

def cmdBufSz : Nat := 512

-- any address but NULL
def bufPtr : Nat := 1

-- what read answered, when the bytes it gave were written; none: the command has failed
def copyBlock (s : Files Disk) (inFd outFd : Nat) : Option (Option Int × Files Disk) :=
  (s.sysRead o.toFileCalls (mem 0).kmalloc inFd bufPtr cmdBufSz).bind fun (a, s) =>
    if 0 < a.eax then
      (s.sysWrite o.toFileCalls (mem 1).kmalloc outFd bufPtr a.out).map fun (w, s) =>
        (if w.eax ≠ a.eax then none else some a.eax, s)
    else some (some a.eax, s)

def copyFile (s : Files Disk) (src dst : Path) : Option (Option Int × Files Disk) :=
  let (inFd, s) := s.sysOpen o src 0
  if inFd < 0 then some (none, s)
  else
    let (outFd, s) := s.sysOpen o dst 1
    if outFd < 0 then some (none, (s.sysClose o inFd.toNat).2)
    else
      (copyBlock o mem s inFd.toNat outFd.toNat).map fun (n, s) =>
        (n, ((s.sysClose o outFd.toNat).2.sysClose o inFd.toNat).2)

def cmdArgs (argv : List Path) (arg0 : Nat) (cwd : Path) : Option (Path × Path) :=
  match argv[arg0 + 1]?, argv[arg0 + 2]? with
  | some a, some b =>
      match normalizePath cwd a tmpCap, normalizePath cwd b tmpCap with
      | some src, some dst => some (src, dst)
      | _, _ => none
  | _, _ => none

def cmdCp (argv : List Path) (arg0 : Nat) (cwd : Path) (s : Files Disk) : Option (Int × Files Disk) :=
  match cmdArgs argv arg0 cwd with
  | none => some (1, s)
  | some (src, dst) =>
      if src = dst then some (0, s)
      else
        (copyFile o mem s src dst).map fun (n, s) =>
          match n with
          | none => (1, s)
          | some n => (if n < 0 then 1 else 0, s)

def mvCopy (s : Files Disk) (src dst : Path) : Option (Int × Files Disk) :=
  (copyFile o mem s src dst).map fun (n, s) =>
    match n with
    | none => (1, s)
    | some n =>
        if n < 0 then (1, s)
        else
          let (gone, s) := s.sysUnlink o src
          (if gone ≠ 0 then 1 else 0, s)

def cmdMv (argv : List Path) (arg0 : Nat) (cwd : Path) (s : Files Disk) : Option (Int × Files Disk) :=
  match cmdArgs argv arg0 cwd with
  | none => some (1, s)
  | some (src, dst) =>
      if src = dst then some (0, s)
      else
        let (linked, s) := s.sysLink o src dst
        if linked = 0 then
          let (gone, s) := s.sysUnlink o src
          if gone = 0 then some (0, s) else mvCopy o mem (s.sysUnlink o dst).2 src dst
        else mvCopy o mem s src dst

end Copy

end HouseOS.Cmd
