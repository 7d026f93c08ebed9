import HouseOS.Syscall.FileRefines
import Mathlib.Logic.Function.Basic

namespace HouseOS.Syscall

open HouseOS.ByteCursor
open HouseOS.Vfs (Path NodeType slash)

structure TreeCalls (Disk : Type) extends FileCalls Disk where
  vfsOpen : Disk → Path → Bool × Disk
  vfsCreateFile : Disk → Path → Bool × Disk
  vfsAppend : Disk → Path → List UInt8 → Int × Disk
  vfsLink : Disk → Path → Path → Bool × Disk
  vfsUnlink : Disk → Path → Bool × Disk

def copyUserPath (path : Path) : Option Path :=
  if path.length < fdPathCap ∧ path.head? = some slash then some path else none

namespace Files

variable {Disk : Type} (o : TreeCalls Disk) (s : Files Disk)

def giveFd (path : Path) (flags : Nat) : Int × Files Disk :=
  match s.fds.fdAlloc path flags with
  | none => (-enfile, s)
  | some (fd, t) => (fd, { s with fds := t })

def findOrMake (d : Disk) (path : Path) (flags : Nat) : Int × Disk :=
  let (found, d) := o.vfsOpen d path
  if found then (0, d)
  else if flags &&& oCreat ≠ 0 ∨ flags &&& 1 ≠ 0 then
    let (made, d) := o.vfsCreateFile d path
    if !made then (-eacces, d)
    else
      let (found, d) := o.vfsOpen d path
      (if found then 0 else -enoent, d)
  else (-enoent, d)

def sysOpen (path : Path) (flags : Nat) : Int × Files Disk :=
  match s.rootFs with
  | none => (-enodev, s)
  | some d =>
      match copyUserPath path with
      | none => (-einval, s)
      | some path =>
          let (r, d) := findOrMake o d path flags
          if r < 0 then (r, s.putDisk d) else (s.putDisk d).giveFd path flags

-- a descriptor that holds no socket
def sysClose (fd : Nat) : Int × Files Disk :=
  if fdMax ≤ fd ∨ (s.fds fd).used = false then (-ebadf, s)
  else
    let e := s.fds fd
    let last := decide (e.kind = .vfs) && e.pipeAutoUnlink && !s.fds.fdHasPathRef e.path fd
    let rootFs := if last then s.rootFs.map fun d => (o.vfsUnlink d e.path).2 else s.rootFs
    (0, { rootFs := rootFs, fds := s.fds.set fd closedFd })

def sysLink (oldpath newpath : Path) : Int × Files Disk :=
  match s.rootFs with
  | none => (-enodev, s)
  | some d =>
      match copyUserPath oldpath, copyUserPath newpath with
      | some oldpath, some newpath =>
          let (linked, d) := o.vfsLink d oldpath newpath
          (if linked then 0 else -eio, s.putDisk d)
      | _, _ => (-einval, s)

def sysUnlink (path : Path) : Int × Files Disk :=
  match s.rootFs with
  | none => (-enodev, s)
  | some d =>
      match copyUserPath path with
      | none => (-einval, s)
      | some path =>
          let (gone, d) := o.vfsUnlink d path
          (if gone then 0 else -1, s.putDisk d)

def sysAppend (ebx ecx : Nat) (data : List UInt8) : Int × Files Disk :=
  match s.rootFs with
  | none => (-enodev, s)
  | some d =>
      if ecx = 0 ∨ data.length = 0 then (0, s)
      else
        match s.fds.fdPath ebx with
        | none => (-ebadf, s)
        | some path =>
            let (n, d) := o.vfsAppend d path data
            if n < 0 then (-eio, s.putDisk d)
            else
              match o.vfsGetInfo d path with
              | some info =>
                  (n, if 0 < n then (s.putDisk d).setOffset ebx info.size else s.putDisk d)
              | none => (n, s.putDisk d)

end Files

section Contract

variable {Disk E : Type}

inductive Slot where
  | absent
  | file (i : Nat)
  | other
  deriving DecidableEq, Repr

-- a mounted tree as its files see it: a path spells an entry, an entry holds a file, and two
-- entries may hold the same one
structure View (Disk E : Type) where
  entry : Path → E
  node : Disk → E → Slot
  data : Disk → Nat → List UInt8
  linkable : Disk → Path → Path → Bool

variable [DecidableEq E] (v : View Disk E)

structure View.Same (d d' : Disk) : Prop where
  node : v.node d' = v.node d
  data : v.data d' = v.data d

structure View.Stores (d : Disk) (i : Nat) (bytes : List UInt8) (d' : Disk) : Prop where
  node : v.node d' = v.node d
  data : v.data d' i = bytes
  rest : ∀ j, j ≠ i → v.data d' j = v.data d j

structure View.Creates (d : Disk) (e : E) (d' : Disk) : Prop where
  made : ∃ i, (∀ e, v.node d e ≠ .file i) ∧ v.node d' = Function.update (v.node d) e (.file i) ∧
    v.data d' i = []
  kept : ∀ e i, v.node d e = .file i → v.data d' i = v.data d i

structure View.Removes (d : Disk) (e : E) (d' : Disk) : Prop where
  node : v.node d' = Function.update (v.node d) e .absent
  kept : ∀ e i, v.node d' e = .file i → v.data d' i = v.data d i

-- what the calls are relied on for; reads, writes and new names may be refused, and a refused
-- call leaves the tree
structure Serves (o : TreeCalls Disk) : Prop where
  info : ∀ d p i, v.node d (v.entry p) = .file i →
    o.vfsGetInfo d p = some ⟨.file, (v.data d i).length⟩
  size : ∀ d p i, v.node d (v.entry p) = .file i → (v.data d i).length < 2 ^ 31
  read : ∀ d p i n, v.node d (v.entry p) = .file i → v.Same d (o.vfsRead d p n).2.2 ∧
    (o.vfsRead d p n).2.1.length ≤ n ∧ (0 ≤ (o.vfsRead d p n).1 →
      (o.vfsRead d p n).2.1 = (v.data d i).take n ∧
      (o.vfsRead d p n).1 = ((v.data d i).take n).length)
  write : ∀ d p i bytes, v.node d (v.entry p) = .file i →
    (o.vfsWrite d p bytes).1 < 0 ∧ v.Same d (o.vfsWrite d p bytes).2 ∨
      (o.vfsWrite d p bytes).1 = bytes.length ∧ bytes.length < 2 ^ 31 ∧
        v.Stores d i bytes (o.vfsWrite d p bytes).2
  append : ∀ d p i bytes, v.node d (v.entry p) = .file i →
    (o.vfsAppend d p bytes).1 < 0 ∧ v.Same d (o.vfsAppend d p bytes).2 ∨
      (o.vfsAppend d p bytes).1 = bytes.length ∧
        v.Stores d i (v.data d i ++ bytes) (o.vfsAppend d p bytes).2
  opens : ∀ d p i, v.node d (v.entry p) = .file i →
    (o.vfsOpen d p).1 = true ∧ v.Same d (o.vfsOpen d p).2
  misses : ∀ d p, v.node d (v.entry p) = .absent →
    (o.vfsOpen d p).1 = false ∧ v.Same d (o.vfsOpen d p).2
  create : ∀ d p, v.node d (v.entry p) = .absent →
    (o.vfsCreateFile d p).1 = false ∧ v.Same d (o.vfsCreateFile d p).2 ∨
      (o.vfsCreateFile d p).1 = true ∧ v.Creates d (v.entry p) (o.vfsCreateFile d p).2
  link : ∀ d p q i, v.node d (v.entry p) = .file i →
    if v.linkable d p q = true ∧ v.node d (v.entry q) = .absent then
      (o.vfsLink d p q).1 = true ∧ v.data (o.vfsLink d p q).2 = v.data d ∧
        v.node (o.vfsLink d p q).2 = Function.update (v.node d) (v.entry q) (.file i)
    else (o.vfsLink d p q).1 = false ∧ v.Same d (o.vfsLink d p q).2
  unlink : ∀ d p i, v.node d (v.entry p) = .file i →
    (o.vfsUnlink d p).1 = true ∧ v.Removes d (v.entry p) (o.vfsUnlink d p).2

end Contract

end HouseOS.Syscall
