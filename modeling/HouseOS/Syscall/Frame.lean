import HouseOS.Syscall.Step

namespace HouseOS.Syscall

open HouseOS.Sched (Kernel noSlot userSlotCount)

namespace System

variable {Disk : Type} {o : FifoCalls Disk} {s s' t : System Disk}

structure IoOnly (s s' : System Disk) : Prop where
  kernel : s'.kernel = s.kernel
  stage : s'.stage = s.stage
  pageDirs : s'.pageDirs = s.pageDirs
  fds : ∀ j, j ≠ s.slot → s'.taskFds j = s.taskFds j
  init : ∀ j, j ≠ s.slot → s'.taskFdInit j = s.taskFdInit j
  inited : s.taskFdInit s.slot = true → s'.taskFdInit s.slot = true

theorem IoOnly.refl (s : System Disk) : IoOnly s s :=
  ⟨rfl, rfl, rfl, fun _ _ => rfl, fun _ _ => rfl, fun h => h⟩

theorem IoOnly.slot (h : IoOnly s s') : s'.slot = s.slot := congrArg Kernel.currentTask h.kernel

theorem IoOnly.trans (h : IoOnly s t) (g : IoOnly t s') : IoOnly s s' where
  kernel := g.kernel.trans h.kernel
  stage := g.stage.trans h.stage
  pageDirs := g.pageDirs.trans h.pageDirs
  fds j hj := (g.fds j (h.slot ▸ hj)).trans (h.fds j hj)
  init j hj := (g.init j (h.slot ▸ hj)).trans (h.init j hj)
  inited hi := h.slot ▸ g.inited (h.slot.symm ▸ h.inited hi)

theorem ioOnly_setFds (s : System Disk) (t : FdTable) : IoOnly s (s.setFds t) :=
  ⟨rfl, rfl, rfl, fun _ hj => Function.update_of_ne hj _ _, fun _ _ => rfl, fun h => h⟩

theorem ioOnly_setFd (s : System Disk) (fd : Nat) (e : FdEntry) : IoOnly s (s.setFd fd e) :=
  ioOnly_setFds s _

theorem ioOnly_fdCurrent (s : System Disk) : IoOnly s s.fdCurrent :=
  ⟨rfl, rfl, rfl, fun _ hj => Function.update_of_ne hj _ _,
    fun _ hj => Function.update_of_ne hj _ _, fun _ => Function.update_self ..⟩

theorem ioOnly_io (s : System Disk) (u : Udp.Sockets) (seq : Nat) (d : Disk) (m : Nat → Nat → Nat)
    (n : Nat) (ps : List HouseOS.Vfs.Path) :
    IoOnly s { s with udp := u, pipeSeq := seq, disk := d, stamp := m, socketCalls := n, pipes := ps } :=
  ⟨rfl, rfl, rfl, fun _ _ => rfl, fun _ _ => rfl, fun h => h⟩

theorem ioOnly_udp (s : System Disk) (u : Udp.Sockets) : IoOnly s { s with udp := u } :=
  ioOnly_io s u _ _ _ _ _

theorem ioOnly_disk (s : System Disk) (d : Disk) : IoOnly s { s with disk := d } :=
  ioOnly_io s _ _ d _ _ _

theorem ioOnly_freeUdp (s : System Disk) (e : FdEntry) : IoOnly s (s.freeUdp e) := by
  unfold freeUdp
  split
  · exact ioOnly_udp s _
  · exact IoOnly.refl s

theorem ioOnly_unlinkLast (s : System Disk) (fd : Nat) : IoOnly s (s.unlinkLast o fd) := by
  unfold unlinkLast
  dsimp only
  split
  · exact ioOnly_disk s _
  · exact IoOnly.refl s

theorem ioOnly_dropFd (s : System Disk) (fd : Nat) : IoOnly s (s.dropFd o fd) :=
  ((ioOnly_freeUdp s _).trans (ioOnly_unlinkLast _ fd)).trans (ioOnly_setFd _ fd _)

theorem ioOnly_sysClose (s : System Disk) (fd : Nat) : IoOnly s (s.sysClose o fd).2 := by
  unfold sysClose
  split
  · exact IoOnly.refl s
  · exact ioOnly_dropFd s fd

theorem ioOnly_closeCloexecFds (s : System Disk) : IoOnly s (s.closeCloexecFds o) := by
  unfold closeCloexecFds
  generalize List.range' 3 (fdMax - 3) = fds
  induction fds generalizing s with
  | nil => exact IoOnly.refl s
  | cons fd fds ih =>
    rw [List.foldl_cons]
    refine IoOnly.trans ?_ (ih _)
    unfold dropCloexec
    split
    · exact ioOnly_dropFd s fd
    · exact IoOnly.refl s

theorem ioOnly_overwriteFd (s : System Disk) (dst : Nat) : IoOnly s (s.overwriteFd dst) := by
  unfold overwriteFd
  split
  · exact (ioOnly_freeUdp s _).trans (ioOnly_setFd _ dst _)
  · exact IoOnly.refl s

theorem ioOnly_fdDupFromTo (s : System Disk) (oldfd newfd : Nat) (fixed : Bool) :
    IoOnly s (s.fdDupFromTo oldfd newfd fixed).2 := by
  unfold fdDupFromTo
  split
  · exact IoOnly.refl s
  split
  · exact IoOnly.refl s
  split
  · split
    · exact IoOnly.refl s
    · exact ioOnly_setFd s _ _
  split
  · exact IoOnly.refl s
  split
  · exact IoOnly.refl s
  · exact (ioOnly_overwriteFd s newfd).trans (ioOnly_setFd _ _ _)

theorem ioOnly_sysFcntl (s : System Disk) (fd : Nat) (cmd : Int) (arg : Nat) :
    IoOnly s (s.sysFcntl fd cmd arg).2 := by
  unfold sysFcntl
  dsimp only
  split
  · exact IoOnly.refl s
  split
  · exact IoOnly.refl s
  split
  · exact ioOnly_setFd s _ _
  split
  · exact IoOnly.refl s
  split
  · exact ioOnly_setFd s _ _
  split
  · split
    · exact IoOnly.refl s
    · exact ioOnly_fdDupFromTo s _ _ _
  · exact IoOnly.refl s

theorem ioOnly_openPath (s : System Disk) (path : HouseOS.Vfs.Path) (flags : Nat) :
    IoOnly s (s.openPath o path flags).2 := by
  unfold openPath
  dsimp only
  split
  · exact ioOnly_disk s _
  split
  · split
    · exact ioOnly_disk s _
    · exact ioOnly_disk s _
  · exact ioOnly_disk s _

theorem ioOnly_sysOpen (s : System Disk) (path : HouseOS.Vfs.Path) (flags : Nat) :
    IoOnly s (s.sysOpen o path flags).2 := by
  unfold sysOpen
  split
  · exact IoOnly.refl s
  have h := ioOnly_openPath (o := o) s path flags
  dsimp only
  split
  · exact h
  split
  · exact h
  · exact h.trans (ioOnly_setFds _ _)

theorem ioOnly_pipeFds (s : System Disk) (path : HouseOS.Vfs.Path) :
    IoOnly s (s.pipeFds o path).2 := by
  unfold pipeFds
  split
  · exact ioOnly_disk s _
  split
  · exact (ioOnly_setFds s _).trans (ioOnly_disk _ _)
  · exact (ioOnly_setFds s _).trans (ioOnly_io _ _ _ _ _ _ _)

theorem ioOnly_pipeTry (s : System Disk) : IoOnly s (s.pipeTry o).2 := ioOnly_io s _ _ _ _ _ _

theorem ioOnly_pipeLoop : ∀ (tries : Nat) (s : System Disk), IoOnly s (s.pipeLoop o tries).2 := by
  intro tries
  induction tries with
  | zero => exact IoOnly.refl
  | succ tries ih =>
    intro s
    have htry := ioOnly_pipeTry (o := o) s
    unfold pipeLoop
    split
    · rename_i s' heq
      rw [heq] at htry
      exact htry.trans (ioOnly_pipeFds s' _)
    · rename_i s' heq
      rw [heq] at htry
      exact htry.trans (ih s')

theorem ioOnly_sysPipe (s : System Disk) (fdsOut : Nat) : IoOnly s (s.sysPipe o fdsOut).2 := by
  unfold sysPipe
  split
  · exact IoOnly.refl s
  · exact ioOnly_pipeLoop 32 s

theorem ioOnly_sysSocket (s : System Disk) (domain type protocol : Nat) :
    IoOnly s (s.sysSocket domain type protocol).2 := by
  unfold sysSocket
  split
  · exact IoOnly.refl s
  dsimp only
  split
  · exact IoOnly.refl s
  split
  · exact ioOnly_udp s _
  · exact (ioOnly_setFds s _).trans (ioOnly_io _ _ _ _ _ _ _)

theorem ioOnly_fdCall {call : FdCall} (h : s.fdCall o call = some s') :
    IoOnly s s' ∨ s.schedStep (.sleep 10) = some s' := by
  cases call with
  | openFile path flags =>
    cases h
    exact Or.inl (ioOnly_sysOpen s _ _)
  | close fd =>
    cases h
    exact Or.inl (ioOnly_sysClose s fd)
  | dup fd =>
    cases h
    exact Or.inl (ioOnly_fdDupFromTo s _ _ _)
  | dup2 oldfd newfd =>
    cases h
    exact Or.inl (ioOnly_fdDupFromTo s _ _ _)
  | fcntl fd cmd arg =>
    cases h
    exact Or.inl (ioOnly_sysFcntl s _ _ _)
  | pipe fdsOut =>
    cases h
    exact Or.inl (ioOnly_sysPipe s _)
  | socket domain type protocol =>
    cases h
    exact Or.inl (ioOnly_sysSocket s _ _ _)
  | bind fd addr addrlen =>
    cases h
    refine Or.inl ?_
    unfold sysBind
    split
    · exact IoOnly.refl s
    · exact ioOnly_udp s _
  | sendto fd req =>
    cases h
    refine Or.inl ?_
    unfold sysSendto
    split
    · exact IoOnly.refl s
    · exact IoOnly.refl s
    · exact ioOnly_udp s _
  | recvfrom fd req waited =>
    unfold fdCall at h
    dsimp only at h
    split at h
    · rename_i heq
      cases h
      refine Or.inl ?_
      unfold sysRecvfrom at heq
      split at heq
      · cases heq
        exact IoOnly.refl s
      · cases heq
        exact IoOnly.refl s
      · obtain ⟨⟨a, u⟩, -, heq⟩ := Option.map_eq_some_iff.mp heq
        cases heq
        exact ioOnly_udp s _
    · exact Or.inr h
  | setsockopt fd req =>
    cases h
    refine Or.inl ?_
    unfold sysSetsockopt
    split
    · exact IoOnly.refl s
    · exact IoOnly.refl s
    · exact ioOnly_udp s _

end System

end HouseOS.Syscall
