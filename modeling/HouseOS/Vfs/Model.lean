import Mathlib.Data.List.Nodup
import Mathlib.Tactic.Common

namespace HouseOS.Vfs

abbrev Path := List UInt8

def slash : UInt8 := 47

def pathCap : Nat := 256

def fsNameMax : Nat := 16

def maxFsDrivers : Nat := 8

def maxMounts : Nat := 8

inductive NodeType where
  | file
  | dir
  | symlink
  | device
  | fifo
  | socket
  | chardev
  | blockdev
  deriving DecidableEq, Repr

structure FsDriver (Ops : Type) where
  name : Path
  ops : Ops

structure Mount (Ctx Ops : Type) where
  mountPath : Path
  source : Path
  fsCtx : Ctx
  ops : Ops

structure VfsT (Ctx Ops : Type) where
  rootFs : Option Ctx
  rootOps : Option Ops
  rootSource : Path
  fsDrivers : List (FsDriver Ops)
  mounts : List (Mount Ctx Ops)

structure Resolved (Ctx Ops : Type) where
  fsCtx : Ctx
  ops : Ops
  localPath : Path

-- the `get_info` entry of an operations table, as it answers at the time of the call
abbrev GetInfo (Ctx Ops : Type) := Ops → Ctx → Path → Option NodeType

def isValidAbsPath (path : Path) : Bool := path.head? == some slash

def normalizeMountPath (inp : Path) (cap : Nat) : Option Path :=
  if inp.head? ≠ some slash then none
  else if inp.length = 0 ∨ cap ≤ inp.length then none
  else if 1 < inp.length ∧ inp.getLast? = some slash then some (inp.take (inp.length - 1))
  else some inp

def pathStartsWithMount (path mount : Path) : Bool :=
  if mount.length = 0 then false
  else if mount = [slash] then path.head? == some slash
  else if ¬ mount <+: path then false
  else path[mount.length]? == none || path[mount.length]? == some slash

def makeLocalPath (path mount : Path) (cap : Nat) : Path :=
  if mount = [slash] then path.take (cap - 1)
  else
    match path.drop mount.length with
    | [] => [slash]
    | suffix => suffix.take (cap - 1)

section

variable {Ctx Ops : Type}

def findFsOps (v : VfsT Ctx Ops) (fsName : Path) : Option Ops :=
  if fsName = [] then none
  else (v.fsDrivers.find? (fun d => decide (d.name = fsName))).map (fun d => d.ops)

def vfsInit : VfsT Ctx Ops :=
  { rootFs := none, rootOps := none, rootSource := [], fsDrivers := [], mounts := [] }

def vfsRegisterFs (v : VfsT Ctx Ops) (fsName : Path) (ops : Ops) : Option (VfsT Ctx Ops) :=
  if fsName.length = 0 ∨ fsNameMax ≤ fsName.length then none
  else if v.fsDrivers.any (fun d => decide (d.name = fsName)) then none
  else if maxFsDrivers ≤ v.fsDrivers.length then none
  else some { v with
    fsDrivers := v.fsDrivers ++ [{ name := fsName.take (fsNameMax - 1), ops := ops }] }

def vfsSetRoot (v : VfsT Ctx Ops) (fsName : Path) (fsCtx : Ctx) : Option (VfsT Ctx Ops) :=
  match findFsOps v fsName with
  | none => none
  | some ops => some { v with
      rootFs := some fsCtx, rootOps := some ops, rootSource := fsName.take (pathCap - 1) }

def scanMounts (path : Path) :
    List (Mount Ctx Ops) → Option (Mount Ctx Ops) → Nat → Option (Mount Ctx Ops)
  | [], best, _ => best
  | m :: ms, best, bestLen =>
      let mlen := m.mountPath.length
      if pathStartsWithMount path m.mountPath ∧ bestLen < mlen then
        scanMounts path ms (some m) mlen
      else scanMounts path ms best bestLen

def bestMount (v : VfsT Ctx Ops) (path : Path) : Option (Mount Ctx Ops) :=
  scanMounts path v.mounts none 0

def vfsResolve (v : VfsT Ctx Ops) (path : Path) : Option (Resolved Ctx Ops) :=
  if ¬ isValidAbsPath path then none
  else
    match v.rootFs, v.rootOps with
    | some rootFs, some rootOps =>
        match bestMount v path with
        | some m => some
            { fsCtx := m.fsCtx, ops := m.ops,
              localPath := makeLocalPath path m.mountPath pathCap }
        | none => some
            { fsCtx := rootFs, ops := rootOps, localPath := path.take (pathCap - 1) }
    | _, _ => none

def vfsMount (v : VfsT Ctx Ops) (mountPath fsName : Path) (fsCtx : Ctx)
    (getInfo : GetInfo Ctx Ops) : Option (VfsT Ctx Ops) :=
  if maxMounts ≤ v.mounts.length then none
  else
    match findFsOps v fsName, normalizeMountPath mountPath pathCap with
    | some ops, some norm =>
        if v.mounts.any (fun m => decide (m.mountPath = norm)) then none
        else
          match vfsResolve v norm with
          | none => none
          | some r =>
              if getInfo r.ops r.fsCtx r.localPath = some .dir then
                some { v with
                  mounts := v.mounts ++
                    [{ mountPath := norm.take (pathCap - 1), source := fsName.take (pathCap - 1),
                       fsCtx := fsCtx, ops := ops }] }
              else none
    | _, _ => none

def mountBelow (norm path : Path) : Bool :=
  decide (norm <+: path) && path[norm.length]? == some slash

def vfsUmount (v : VfsT Ctx Ops) (mountPath : Path) : Option (VfsT Ctx Ops) :=
  match normalizeMountPath mountPath pathCap with
  | none => none
  | some norm =>
      if norm = [slash] then none
      else
        match v.mounts.findIdx? (fun m => decide (m.mountPath = norm)) with
        | none => none
        | some idx =>
            if (v.mounts.eraseIdx idx).any (fun m => mountBelow norm m.mountPath) then none
            else some { v with mounts := v.mounts.eraseIdx idx }

inductive Event (Ctx Ops : Type) where
  | mount (mountPath fsName : Path) (fsCtx : Ctx) (getInfo : GetInfo Ctx Ops)
  | umount (mountPath : Path)

def step (v : VfsT Ctx Ops) : Event Ctx Ops → Option (VfsT Ctx Ops)
  | .mount mountPath fsName fsCtx getInfo => some ((vfsMount v mountPath fsName fsCtx getInfo).getD v)
  | .umount mountPath => some ((vfsUmount v mountPath).getD v)

structure Booted (v : VfsT Ctx Ops) : Prop where
  rootFs : v.rootFs.isSome
  rootOps : v.rootOps.isSome
  noMounts : v.mounts = []

end

end HouseOS.Vfs
