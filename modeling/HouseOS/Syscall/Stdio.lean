import HouseOS.Syscall.SlotSteps

namespace HouseOS.Syscall

open HouseOS.Sched (Kernel newSlot Created created_of_taskCreate)
open HouseOS.Vfs (Path slash)

def OnlyStdio (t : FdTable) (tty : Path) : Prop :=
  ∀ i < fdMax, if i < 3 then t i = pathFd tty 0 else (t i).used = false

-- what the stage of a task says about its descriptors
def Fresh (t : FdTable) : Stage → Prop
  | .spawned req => req.tty ≠ []
  | .probing req _ => OnlyStdio t req.tty
  | .probed req _ => OnlyStdio t req.tty
  | .holding req _ => OnlyStdio t req.tty
  | .loading req => OnlyStdio t req.tty
  | _ => True

section Created

variable {k k' : Kernel} {stack : Option Nat} {pid : Nat}

theorem created_pids (hc : k.taskCreate stack = (some pid, k')) :
    ∀ j, j ≠ newSlot k → (k'.tasks j).pid = (k.tasks j).pid := by
  intro j hj
  cases stack with
  | none => cases hc
  | some stack =>
    unfold Kernel.taskCreate at hc
    cases hf : k.findTerminated with
    | some i =>
      have hslot : newSlot k = i := by rw [newSlot, hf]; rfl
      obtain ⟨used, released, heq⟩ := Sched.taskReleaseResources_eq k i
      simp only [hf] at hc
      cases hc
      rw [heq]
      rw [hslot] at hj
      simp [Kernel.fillTask, Kernel.setTask, hj]
    | none =>
      have hslot : newSlot k = k.taskCount := by rw [newSlot, hf]; rfl
      rw [hslot] at hj
      simp only [hf] at hc
      split at hc
      · cases hc
      · cases hc
        simp only [Kernel.fillTask, Kernel.setTask, if_neg hj]
        unfold Kernel.linkNewTask
        dsimp only
        split
        · simp only [Kernel.setTask, if_neg hj]
          split
          · rename_i hjt
            rw [if_neg (by rw [← hjt]; exact hj), hjt]
          · rfl
        · simp only [Kernel.setTask, if_neg hj]

theorem taskFindByPid_created (hc : k.taskCreate stack = (some pid, k'))
    (hnew : ∀ j < k.taskCount, j ≠ newSlot k → (k.tasks j).pid ≠ k.nextPid) :
    k'.taskFindByPid pid = some (newSlot k) := by
  obtain ⟨hpid, hcr⟩ := created_of_taskCreate hc
  have hlt : newSlot k < k'.taskCount := by
    rw [hcr.count]
    omega
  have honly : ∀ j < k'.taskCount, (k'.tasks j).pid = pid → j = newSlot k := by
    intro j hj hjp
    by_contra hne
    refine hnew j ?_ hne ?_
    · rw [hcr.count] at hj
      rcases Sched.newSlot_cases k with ⟨hlt, -⟩ | heq
      · omega
      · omega
    · rw [← created_pids hc j hne, hjp, hpid]
  cases hf : k'.taskFindByPid pid with
  | none =>
    have hno := List.find?_eq_none.mp hf (newSlot k) (List.mem_range.mpr hlt)
    simp [hcr.pid, hpid] at hno
  | some i =>
    have hi := List.find?_some hf
    have hmem := List.mem_range.mp (List.mem_of_find?_eq_some hf)
    rw [honly i hmem (of_decide_eq_true hi)]

end Created

namespace System

variable {Disk : Type} {o : FifoCalls Disk} {s s' : System Disk}

def TablesFresh (s : System Disk) : Prop := ∀ j, Fresh (s.taskFds j) (s.stage j)

def NewPid (s : System Disk) : Prop :=
  s.kernel.nextPid < 2 ^ 31 →
    ∀ j < s.kernel.taskCount, j ≠ newSlot s.kernel → (s.task j).pid ≠ s.kernel.nextPid

-- the slot of a task that starts has not kept a table with more than descriptors 0, 1 and 2 open
def TablesSpared (s : System Disk) : Event → Prop
  | .spawn _ _ _ _ => s.kernel.nextPid < 2 ^ 31
  | .bindStdio => s.taskFdInit s.slot = true → ∀ i, 3 ≤ i → i < fdMax → (s.fds i).used = false
  | .fork _ _ _ => s.NewPid
  | _ => True

theorem TablesFresh.same (h : s.TablesFresh) (hfds : s'.taskFds = s.taskFds)
    (hstage : s'.stage = s.stage) : s'.TablesFresh := by
  rw [TablesFresh, hfds, hstage]
  exact h

-- only the running task's own table changes, and it is past its start
theorem TablesFresh.io (h : s.TablesFresh) (hio : IoOnly s s') (huser : s.stage s.slot = .user) :
    s'.TablesFresh := by
  intro j
  rw [hio.stage]
  by_cases hj : j = s.slot
  · rw [hj, huser]
    trivial
  · rw [hio.fds j hj]
    exact h j

theorem TablesFresh.setStage (h : s.TablesFresh) {j : Nat} {g : Stage} (hg : Fresh (s.taskFds j) g) :
    (s.setStage j g).TablesFresh := by
  intro i
  show Fresh (s.taskFds i) (Function.update s.stage j g i)
  by_cases hi : i = j
  · subst hi
    rwa [Function.update_self]
  · rw [Function.update_of_ne hi]
    exact h i

theorem TablesFresh.schedStep (h : s.TablesFresh) {e : Sched.Event}
    (hs : s.schedStep e = some s') : s'.TablesFresh := by
  obtain ⟨k, _, rfl⟩ := Option.map_eq_some_iff.mp hs
  exact h

theorem TablesFresh.create (h : s.TablesFresh) {stack pid : Option Nat} {g : Stage}
    (hg : ∀ t, Fresh t g) (hc : s.taskCreate stack g = (pid, s')) : s'.TablesFresh := by
  cases pid with
  | none =>
    obtain ⟨k, _, rfl⟩ := taskCreate_fails hc
    exact h
  | some pid =>
    obtain ⟨k, _, rfl⟩ := taskCreate_some hc
    exact TablesFresh.setStage h (hg _)

theorem tablesFresh_sysSpawn {req freed : SpawnReq} {mem : Bool} {stack : Option Nat}
    (h : s.TablesFresh) (hpid : s.kernel.nextPid < 2 ^ 31) :
    (s.sysSpawn req freed mem stack).2.TablesFresh := by
  unfold sysSpawn
  rw [if_neg (Nat.not_le_of_lt hpid)]
  split
  · exact h
  rename_i hreq
  split
  · exact h
  have htty : ∀ t, Fresh t (.spawned req) := by
    intro t hnil
    rw [hnil] at hreq
    simp at hreq
  split
  · rename_i t hc
    exact h.create htty hc
  · rename_i pid t hc
    exact h.create htty hc

theorem tablesFresh_copyFds {j : Nat} (h : s.TablesFresh) (hj : ∀ t, Fresh t (s.stage j)) :
    (s.copyFds j).TablesFresh := by
  have hupdate : ∀ (t : FdTable) i, Fresh (Function.update s.taskFds j t i) (s.stage i) := by
    intro t i
    by_cases hi : i = j
    · rw [hi]
      exact hj _
    · rw [Function.update_of_ne hi]
      exact h i
  unfold copyFds
  split
  · exact hupdate _
  split
  · exact hupdate _
  · exact h

theorem tablesFresh_forkUndo {idx pd : Nat} (h : s.TablesFresh) : (s.forkUndo idx pd).TablesFresh := by
  unfold forkUndo mmUserCr3Destroy
  split
  · exact h
  · exact h

theorem tablesFresh_forkTask {idx pd : Nat} {stack : Option Nat} (h : s.TablesFresh)
    (hnew : s.NewPid) : (s.forkTask idx pd stack).2.TablesFresh := by
  unfold forkTask
  split
  · rename_i t hc
    exact tablesFresh_forkUndo (h.create (g := .forked _) (fun _ => trivial) hc)
  · rename_i pid t hc
    have ht := h.create (g := .forked _) (fun _ => trivial) hc
    obtain ⟨k, hk, rfl⟩ := taskCreate_some hc
    unfold forkChild
    split
    · exact tablesFresh_forkUndo ht
    · rename_i hsmall
      rw [(created_of_taskCreate hk).1] at hsmall
      have hfind := taskFindByPid_created hk (hnew (by omega))
      dsimp only
      rw [hfind]
      refine tablesFresh_copyFds (s := nameChild (recordUser _ _ _ _) _) ht fun t => ?_
      show Fresh t (Function.update s.stage (newSlot s.kernel) (.forked (s.forkCtx idx pd))
        (newSlot s.kernel))
      rw [Function.update_self]
      trivial

theorem tablesFresh_sysFork {pd stack : Option Nat} {ctx : Bool} (h : s.TablesFresh)
    (hnew : s.NewPid) : (s.sysFork pd ctx stack).2.TablesFresh := by
  unfold sysFork
  split
  · exact h
  cases halloc : s.mmUserSlotAlloc with
  | none => exact h
  | some p =>
    obtain ⟨idx, t⟩ := p
    obtain ⟨-, -, rfl⟩ := mmUserSlotAlloc_some halloc
    dsimp only
    unfold forkSpace
    split
    · exact h
    · rename_i dir t hcreate
      obtain ⟨rfl, rfl⟩ := mmUserCr3Create_some hcreate
      split
      · exact tablesFresh_forkUndo (s := { s.takeSlot idx with pageDirs := _ }) h
      · exact tablesFresh_forkTask (s := { s.takeSlot idx with pageDirs := _ }) h hnew

theorem ensure_tables (s : System Disk) (pd : Option Nat) :
    (s.ensureCurrentTaskUserSpace pd).2.taskFds = s.taskFds ∧
      (s.ensureCurrentTaskUserSpace pd).2.stage = s.stage ∧
      (s.ensureCurrentTaskUserSpace pd).2.slot = s.slot := by
  unfold ensureCurrentTaskUserSpace
  split
  · exact ⟨rfl, rfl, rfl⟩
  cases halloc : s.mmUserSlotAlloc with
  | none => exact ⟨rfl, rfl, rfl⟩
  | some p =>
    obtain ⟨idx, t⟩ := p
    obtain ⟨-, -, rfl⟩ := mmUserSlotAlloc_some halloc
    dsimp only
    cases hcreate : (s.takeSlot idx).mmUserCr3Create (userPhys idx) pd with
    | none => exact ⟨rfl, rfl, freeSlot_slot _ idx⟩
    | some p =>
      obtain ⟨dir, t⟩ := p
      obtain ⟨-, rfl⟩ := mmUserCr3Create_some hcreate
      exact ⟨rfl, rfl, rfl⟩

theorem tablesFresh_sysExec {pd : Option Nat} {loads : Bool} (h : s.TablesFresh)
    (huser : s.stage s.slot = .user) : (s.sysExec o pd loads).2.TablesFresh := by
  obtain ⟨hfds, hstage, hslot⟩ := ensure_tables s pd
  have hens := h.same hfds hstage
  unfold sysExec
  split
  · rename_i t heq
    rw [heq] at hens
    exact hens
  · rename_i t heq
    rw [heq] at hens hstage hslot
    have hfresh : t.TablesFresh := hens
    have hclose : IoOnly t (t.closeCloexecFds o) := ioOnly_closeCloexecFds t
    generalize t.closeCloexecFds o = u at hclose
    split
    · exact hfresh.io hclose (by rw [hstage, hslot, huser])
    · exact hens

theorem onlyStdio_bindStdio {tty : Path} (htty : tty ≠ [])
    (hinit : s.taskFdInit s.slot = true → ∀ i, 3 ≤ i → i < fdMax → (s.fds i).used = false) :
    OnlyStdio ((s.bindStdio tty).taskFds s.slot) tty := by
  have htable : (s.bindStdio tty).taskFds s.slot =
      (fdTableInit s.fds (s.taskFdInit s.slot) devTty1).bindStdio tty := by
    simp only [System.bindStdio, if_neg htty, setFds, System.fds, fdCurrent, System.slot,
      Function.update_self]
  intro i hi
  rw [htable, FdTable.bindStdio]
  split
  · rfl
  · rename_i h3
    cases hin : s.taskFdInit s.slot with
    | true => exact hinit hin i (by omega) hi
    | false =>
      show (if i < 3 then pathFd devTty1 0 else zeroFd).used = false
      rw [if_neg h3]
      rfl

theorem tablesFresh_bindRequest {req : SpawnReq} (h : s.TablesFresh)
    (hst : s.stage s.slot = .spawned req)
    (hinit : s.taskFdInit s.slot = true → ∀ i, 3 ≤ i → i < fdMax → (s.fds i).used = false) :
    (s.bindRequest req).TablesFresh := by
  have htty : req.tty ≠ [] := by
    have hslot := h s.slot
    rwa [hst] at hslot
  have hio := ioOnly_bindStdio s req.tty
  have hbound : (s.bindStdio req.tty).TablesFresh := by
    intro j
    rw [hio.stage]
    by_cases hj : j = s.slot
    · rw [hj, hst]
      exact htty
    · rw [hio.fds j hj]
      exact h j
  have hstdio : OnlyStdio ((s.bindStdio req.tty).taskFds (s.bindStdio req.tty).slot) req.tty := by
    rw [hio.slot]
    exact onlyStdio_bindStdio htty hinit
  unfold bindRequest
  refine TablesFresh.setStage (s := setTask _ _ _) hbound ?_
  split
  · exact hstdio
  · exact hstdio

theorem tablesFresh_taskExit (h : s.TablesFresh) (hs : s.taskExit = some s') : s'.TablesFresh :=
  h.schedStep hs

theorem tablesFresh_probe {req : SpawnReq} {idx : Nat} (h : s.TablesFresh)
    (hst : s.stage s.slot = .probing req idx) (hs : s.probe req idx = some s') :
    s'.TablesFresh := by
  have hslot := h s.slot
  rw [hst] at hslot
  unfold probe at hs
  split at hs
  · exact tablesFresh_taskExit h hs
  split at hs
  · cases hs
    exact h.setStage hslot
  · cases hs
    exact h.setStage hslot

theorem tablesFresh_take {req : SpawnReq} {idx : Nat} (h : s.TablesFresh)
    (hst : s.stage s.slot = .probed req idx) : (s.take req idx).TablesFresh := by
  have hslot := h s.slot
  rw [hst] at hslot
  exact TablesFresh.setStage (s := s.takeSlot idx) h hslot

theorem tablesFresh_mapUser {req : SpawnReq} {idx : Nat} {pd : Option Nat} (h : s.TablesFresh)
    (hst : s.stage s.slot = .holding req idx) (hs : s.mapUser req idx pd = some s') :
    s'.TablesFresh := by
  have hslot := h s.slot
  rw [hst] at hslot
  unfold mapUser at hs
  split at hs
  · refine tablesFresh_taskExit (TablesFresh.setStage (s := s.freeSlot idx) h ?_) hs
    exact hslot
  · rename_i dir t hcreate
    obtain ⟨-, rfl⟩ := mmUserCr3Create_some hcreate
    cases hs
    exact TablesFresh.setStage
      (s := recordUser { s with pageDirs := dir :: s.pageDirs } s.slot idx dir) h hslot

theorem tablesFresh_step {e : Event} (h : s.TablesFresh) (hok : s.TablesSpared e)
    (hs : s.step o e = some s') : s'.TablesFresh := by
  have hio := ioOnly_fdCurrent s
  unfold step at hs
  split at hs
  · rename_i call hst
    have hcur := h.io hio hst
    rcases ioOnly_fdCall hs with hcall | hsleep
    · exact hcur.io hcall (by rw [hio.stage, hio.slot, hst])
    · exact hcur.schedStep hsleep
  · rename_i hst
    cases hs
    exact tablesFresh_sysSpawn (h.io hio hst) hok
  · rename_i hst
    cases hs
    exact tablesFresh_sysFork (h.io hio hst) hok
  · rename_i hst
    cases hs
    exact tablesFresh_sysExec (h.io hio hst) (by rw [hio.stage, hio.slot, hst])
  · rename_i req hst
    cases hs
    exact tablesFresh_bindRequest h hst hok
  · rename_i req idx hst
    exact tablesFresh_probe h hst hs
  · rename_i req idx hst
    cases hs
    exact tablesFresh_take h hst
  · rename_i pd req idx hst
    exact tablesFresh_mapUser h hst hs
  · rename_i loads req hst
    unfold enter at hs
    split at hs
    · cases hs
      exact h.setStage trivial
    · exact tablesFresh_taskExit h hs
  · cases hs
    exact TablesFresh.setStage (s := setTask _ _ _) h trivial
  · rename_i pid sig hst
    unfold sysTaskKill at hs
    generalize (if sig = 0 then 15 else sig) = sig at hs
    dsimp only at hs
    split at hs
    · cases hs
      exact h.io hio hst
    · exact (h.io hio hst).schedStep hs
  · cases hs
  · exact h.schedStep hs
  · exact h.schedStep hs
  · exact h.schedStep hs
  · rename_i hst
    exact (h.io hio hst).schedStep hs
  · exact h.schedStep hs
  · cases hs

theorem tablesFresh_boot (kernelCr3 idleStack : Nat) (stack : Option Nat) (d : Disk) :
    (boot kernelCr3 idleStack stack d).TablesFresh := by
  unfold boot
  generalize hc : taskCreate _ stack (.spawned bootRequest) = r
  obtain ⟨pid, t⟩ := r
  refine TablesFresh.create ?_ (fun _ => ?_) hc
  · exact fun _ => trivial
  · show devTtyS0 ≠ []
    decide

theorem spawned_stdio {kernelCr3 idleStack : Nat} {stack : Option Nat} {d : Disk} (es : List Event)
    (hok : Run.Along (step o) TablesSpared (boot kernelCr3 idleStack stack d) es)
    (hrun : Run.run (step o) (boot kernelCr3 idleStack stack d) es = some s) {req : SpawnReq}
    (hst : s.stage s.slot = .loading req) (hs : s.step o (.enter true) = some s') :
    s'.stage s'.slot = .user ∧ OnlyStdio s'.fds req.tty := by
  have h : s.TablesFresh := Run.run_invariant (fun _ _ _ => tablesFresh_step) es _ _
    (tablesFresh_boot kernelCr3 idleStack stack d) hok hrun
  have hslot := h s.slot
  rw [hst] at hslot
  simp only [step, hst, enter, if_true] at hs
  cases hs
  exact ⟨Function.update_self .., hslot⟩

section Runs

private def booted : System Unit := boot 4096 8192 (some 16384) ()

private def shellRequest : SpawnReq := { path := [47, 97], tty := [47, 98], cmdline := [] }

private def shellStarts (stack pd : Nat) : List Event :=
  [.spawn shellRequest shellRequest true (some stack), .sched .yield, .bindStdio, .probe, .probe, .take,
    .mapUser (some pd)]

private def oneShell : List Event :=
  [.sched .fault, .bindStdio, .probe, .take, .mapUser (some 20480), .enter true] ++
    shellStarts 28672 32768

-- the first shell opens a socket and exits; the second one gets its slot
private def twoShells : List Event :=
  oneShell ++ [.enter true, .fd (.socket 2 2 0), .sched (.exit 0)] ++ shellStarts 40960 45056

theorem spawned_stdio_shell :
    ∃ s s', Run.run (step noFifos) booted oneShell = some s ∧
      s.stage s.slot = .loading shellRequest ∧ s.step noFifos (.enter true) = some s' ∧
      s'.stage s'.slot = .user ∧ OnlyStdio s'.fds shellRequest.tty := by
  have hok : Run.Along (step noFifos) TablesSpared booted oneShell := by
    refine ⟨trivial, ?_⟩
    rintro _ ⟨⟩
    refine ⟨nofun, ?_⟩
    rintro _ ⟨⟩
    refine ⟨trivial, ?_⟩
    rintro _ ⟨⟩
    refine ⟨trivial, ?_⟩
    rintro _ ⟨⟩
    refine ⟨trivial, ?_⟩
    rintro _ ⟨⟩
    refine ⟨trivial, ?_⟩
    rintro _ ⟨⟩
    refine ⟨(by decide : 4 < 2 ^ 31), ?_⟩
    rintro _ ⟨⟩
    refine ⟨trivial, ?_⟩
    rintro _ ⟨⟩
    refine ⟨nofun, ?_⟩
    rintro _ ⟨⟩
    refine ⟨trivial, ?_⟩
    rintro _ ⟨⟩
    refine ⟨trivial, ?_⟩
    rintro _ ⟨⟩
    refine ⟨trivial, ?_⟩
    rintro _ ⟨⟩
    exact ⟨trivial, fun _ _ => trivial⟩
  exact ⟨_, _, rfl, rfl, rfl, spawned_stdio oneShell hok rfl rfl rfl⟩

theorem second_shell_keeps_socket :
    ∃ s s', Run.run (step noFifos) booted twoShells = some s ∧
      s.stage s.slot = .loading shellRequest ∧ s.step noFifos (.enter true) = some s' ∧
      ¬OnlyStdio s'.fds shellRequest.tty := by
  refine ⟨_, _, rfl, rfl, rfl, fun h => ?_⟩
  have hclosed := h 3 (by decide)
  rw [if_neg (by decide)] at hclosed
  cases hclosed

end Runs

end System

end HouseOS.Syscall
