import HouseOS.Syscall.FileTree
import HouseOS.Vfs.MountTable

namespace HouseOS.Syscall

open HouseOS.Vfs

-- what a mount's `fs_ctx` points at: one of the contexts the mount calls hand out, or another
-- file system's
inductive FsCtx where
  | mountFat (slot : Nat)
  | other (n : Nat)
  deriving DecidableEq, Repr

structure MountState (Fat Ops : Type) where
  rootFs : Option (VfsT FsCtx Ops)
  devfsCtx : Option Nat
  mountFatCtx : Nat → Fat
  mountFatUsed : Nat → Bool
  mountFatPath : Nat → Path

def diskPrefix : Path := [47, 100, 101, 118, 47, 100, 105, 115, 107, 47]

def devfsName : Path := [100, 101, 118, 102, 115]

def fat32Name : Path := [102, 97, 116, 51, 50]

def fsNameCap : Nat := 32

def copyUserString (text : Path) (cap : Nat) : Option Path :=
  if text.length < cap then some text else none

def isDisk (fsName : Path) : Bool := diskPrefix.isPrefixOf fsName

section Calls

variable {Fat Ops : Type}

def setFirstSource (norm source : Path) : List (Mount FsCtx Ops) → List (Mount FsCtx Ops)
  | [] => []
  | m :: ms =>
      if m.mountPath = norm then { m with source := source.take (pathCap - 1) } :: ms
      else m :: setFirstSource norm source ms

def vfsSetMountSource (v : VfsT FsCtx Ops) (mountPath source : Path) : VfsT FsCtx Ops :=
  if source = [] then v
  else
    match normalizeMountPath mountPath pathCap with
    | none => v
    | some norm => { v with mounts := setFirstSource norm source v.mounts }

namespace MountState

def setSlot (s : MountState Fat Ops) (slot : Nat) (used : Bool) (path : Path) : MountState Fat Ops :=
  { s with
    mountFatUsed := Function.update s.mountFatUsed slot used
    mountFatPath := Function.update s.mountFatPath slot path }

def setCtx (s : MountState Fat Ops) (slot : Nat) (fat : Fat) : MountState Fat Ops :=
  { s with mountFatCtx := Function.update s.mountFatCtx slot fat }

def freeSlot (s : MountState Fat Ops) : Option Nat :=
  (List.range maxMounts).find? fun i => !s.mountFatUsed i

-- `init`: whether fat32_init_devpath succeeds, and what it leaves in the context
def takeCtx (s : MountState Fat Ops) (fsName mountPath : Path) (init : Bool × Fat) :
    Int × Option (FsCtx × Path) × MountState Fat Ops :=
  if fsName = devfsName then (0, s.devfsCtx.map fun n => (.other n, fsName), s)
  else if isDisk fsName then
    match normalizeMountPath mountPath pathCap with
    | none => (-einval, none, s)
    | some norm =>
        match s.freeSlot with
        | none => (-enfile, none, s)
        | some slot =>
            let s := s.setCtx slot init.2
            if !init.1 then (-enodev, none, s)
            else (0, some (.mountFat slot, fat32Name), s.setSlot slot true (norm.take (pathCap - 1)))
  else (0, none, s)

def dropCtx (s : MountState Fat Ops) : FsCtx → MountState Fat Ops
  | .mountFat slot => s.setSlot slot false []
  | .other _ => s

def sysMount (s : MountState Fat Ops) (source path : Path) (init : Bool × Fat)
    (getInfo : GetInfo FsCtx Ops) : Int × MountState Fat Ops :=
  match s.rootFs with
  | none => (-enodev, s)
  | some v =>
      match copyUserString source fsNameCap, copyUserPath path with
      | some fsName, some mountPath =>
          let (rc, given, s) := s.takeCtx fsName mountPath init
          if rc ≠ 0 then (rc, s)
          else
            match given with
            | none => (-enodev, s)
            | some (ctx, fsDrv) =>
                match vfsMount v mountPath fsDrv ctx getInfo with
                | none => (-ebusy, s.dropCtx ctx)
                | some v =>
                    (0, { s with
                      rootFs := some (if isDisk fsName then vfsSetMountSource v mountPath fsName else v) })
      | _, _ => (-einval, s)

def ownerSlot (s : MountState Fat Ops) (norm : Path) : Option Nat :=
  (List.range maxMounts).find? fun i => s.mountFatUsed i && decide (s.mountFatPath i = norm)

-- `zero` is the context with every byte cleared
def sysUmount (s : MountState Fat Ops) (zero : Fat) (path : Path) : Int × MountState Fat Ops :=
  match s.rootFs with
  | none => (-enodev, s)
  | some v =>
      match copyUserPath path with
      | none => (-einval, s)
      | some mountPath =>
          match normalizeMountPath mountPath pathCap with
          | none => (-einval, s)
          | some norm =>
              match vfsUmount v mountPath with
              | none => (-ebusy, s)
              | some v =>
                  let s := { s with rootFs := some v }
                  match s.ownerSlot norm with
                  | none => (0, s)
                  | some i => (0, (s.setSlot i false []).setCtx i zero)

end MountState

inductive MountCall (Fat Ops : Type) where
  | mount (source path : Path) (init : Bool × Fat) (getInfo : GetInfo FsCtx Ops)
  | umount (path : Path)

def mountStep (zero : Fat) (s : MountState Fat Ops) :
    MountCall Fat Ops → Option (MountState Fat Ops)
  | .mount source path init getInfo => some (s.sysMount source path init getInfo).2
  | .umount path => some (s.sysUmount zero path).2

end Calls

end HouseOS.Syscall
