import HouseOS.Procfs.Sizes

namespace HouseOS.Procfs

open HouseOS.ByteCursor
open HouseOS.Sched (Task noSlot)
open HouseOS.Syscall (Answer FdTable FileCalls Files Info)
open HouseOS.Vfs (Path VfsT vfsResolve)

section Blocks

variable {Disk : Type} {o : FileCalls Disk} {m m' : Nat → Option (List UInt8)}

-- two allocators whose blocks differ in their old bytes only
def SameBlocks (m m' : Nat → Option (List UInt8)) : Prop :=
  ∀ n, (m n).map List.length = (m' n).map List.length

theorem readFile_of_full (hm : SameBlocks m m') {s : Files Disk} {d : Disk} {fd : Nat}
    {path : Path} {size : Nat} (edx : Nat)
    (h : 0 ≤ (o.vfsRead d path size).1 → size ≤ (o.vfsRead d path size).2.1.length) :
    s.readFile o m d fd path size edx = s.readFile o m' d fd path size edx := by
  unfold Files.readFile
  by_cases hoff : size ≤ (s.fds fd).offset
  · rw [if_pos hoff, if_pos hoff]
  rw [if_neg hoff, if_neg hoff]
  have hin : (s.fds fd).offset + (if edx < size - (s.fds fd).offset then edx
      else size - (s.fds fd).offset) ≤ size := by
    split <;> omega
  have hblock := hm (if size = 0 then 1 else size)
  cases htmp : m (if size = 0 then 1 else size) with
  | none =>
    rw [htmp, Option.map_none] at hblock
    rw [Option.map_eq_none_iff.mp hblock.symm]
  | some tmp =>
    rw [htmp, Option.map_some] at hblock
    obtain ⟨tmp', htmp', hlen⟩ := Option.map_eq_some_iff.mp hblock.symm
    rw [htmp']
    dsimp only
    by_cases hfit : 0 + (o.vfsRead d path size).2.1.length ≤ tmp.length
    · obtain ⟨b, hb⟩ : ∃ b, put tmp 0 (o.vfsRead d path size).2.1 = some b := ⟨_, put_eq hfit⟩
      obtain ⟨b', hb'⟩ : ∃ b', put tmp' 0 (o.vfsRead d path size).2.1 = some b' :=
        ⟨_, put_eq (by omega)⟩
      rw [hb, hb', Option.bind_some, Option.bind_some]
      by_cases hneg : (o.vfsRead d path size).1 < 0
      · rw [if_pos hneg, if_pos hneg]
      · have hfull := h (by omega)
        rw [if_neg hneg, if_neg hneg, get_put hb (by omega), get_put hb' (by omega)]
    · have hb : put tmp 0 (o.vfsRead d path size).2.1 = none := put_none (by omega)
      have hb' : put tmp' 0 (o.vfsRead d path size).2.1 = none := put_none (by omega)
      rw [hb, hb']

theorem readFile_of_nothing {s : Files Disk} {d d' : Disk} {fd : Nat} {path : Path}
    {size edx : Nat} {tmp : List UInt8} (hread : o.vfsRead d path size = (0, [], d'))
    (hoff : (s.fds fd).offset = 0) (hedx : 0 < edx) (hsize : edx < size) (htmp : m size = some tmp)
    (hlen : tmp.length = size) :
    (s.readFile o m d fd path size edx).map Prod.fst = some ⟨edx, tmp.take edx⟩ := by
  unfold Files.readFile
  have hfirst : ¬ size ≤ 0 := by omega
  have hsome : size ≠ 0 := by omega
  simp only [hoff, if_neg hfirst, Nat.sub_zero, if_pos hsize, if_neg hsome, htmp, hread, put_nil,
    Option.bind_some]
  rw [if_neg (by omega), get_eq (by omega)]
  rfl

end Blocks

inductive Driver where
  | procfs
  | other
  deriving DecidableEq, Repr

def vfsCalls (v : VfsT Unit Driver) (rest : FileCalls ProcState) : FileCalls ProcState where
  vfsGetInfo k path :=
    match vfsResolve v path with
    | none => none
    | some r =>
        match r.ops with
        | .procfs => k.procGetInfoOp r.localPath
        | .other => rest.vfsGetInfo k r.localPath
  vfsRead k path size :=
    match vfsResolve v path with
    | none => (-1, [], k)
    | some r =>
        match r.ops with
        | .procfs => ((k.procReadOp r.localPath size).1, (k.procReadOp r.localPath size).2, k)
        | .other => rest.vfsRead k r.localPath size
  vfsWrite k path data :=
    match vfsResolve v path with
    | none => (-1, k)
    | some r =>
        match r.ops with
        | .procfs => (-1, k)
        | .other => rest.vfsWrite k r.localPath data

def CopiesReadBytes (k : ProcState) (path : Path) : Prop :=
  ∀ (v : VfsT Unit Driver) (rest : FileCalls ProcState) (fds : FdTable) (fd ecx edx : Nat)
    (fdPath : Path) (m m' : Nat → Option (List UInt8)), fds.fdPath fd = some fdPath →
    vfsResolve v fdPath = some ⟨(), .procfs, path⟩ → SameBlocks m m' →
    Files.sysRead (vfsCalls v rest) m ⟨some k, fds⟩ fd ecx edx =
      Files.sysRead (vfsCalls v rest) m' ⟨some k, fds⟩ fd ecx edx

theorem copies_of_sizes {k : ProcState} {path : Path} (h : SizesMatch k path) :
    CopiesReadBytes k path := by
  intro v rest fds fd ecx edx fdPath m m' hfd hres hm
  unfold Files.sysRead
  by_cases hnone : ecx = 0 ∨ edx = 0
  · simp only [if_pos hnone]
  simp only [if_neg hnone, hfd]
  split
  · rename_i size hinfo
    refine readFile_of_full hm edx fun _ => ?_
    simp only [vfsCalls, hres] at hinfo ⊢
    rw [read_length, h size hinfo size (Nat.le_refl size), Int.toNat_natCast]
  · rfl

def kernelTask : Task :=
  { pid := 2, ppid := 0, cr3 := 0, userSlot := noSlot, userPhysBase := 0, state := .running,
    stack := none, next := 0, wakeTick := 0, exitStatus := 0, termSignal := 0, ttyPath := [],
    progPath := [], cmdline := [] }

def oneKernelTask : ProcState :=
  { tasks := fun _ => kernelTask, taskCount := 1, currentTask := some 0, timerTicks := 0,
    totalHeap := 0, usedHeap := 0, freeHeap := 0,
    taskFds := fun _ => FdTable.set (fun _ => HouseOS.Syscall.closedFd) 3
      (HouseOS.Syscall.pathFd (byteText "/2/mem") 0),
    taskFdInit := fun _ => true, mem := fun _ => 0 }

def procfsRoot : VfsT Unit Driver :=
  { rootFs := some (), rootOps := some .procfs, rootSource := [], fsDrivers := [], mounts := [] }

end HouseOS.Procfs
