import HouseOS.Library.Run
import HouseOS.Syscall.Frame
import HouseOS.Syscall.SlotMoves

namespace HouseOS.Syscall

open HouseOS.Sched (Kernel noSlot userSlotCount newSlot Created created_of_taskCreate)

namespace System

variable {Disk : Type} {o : FifoCalls Disk} {s s' : System Disk}

def SlotsHold (s : System Disk) : Prop := Slots s.kernel s.stage s.pageDirs none none

-- what valloc_aligned returns is nobody else's
def NewPage (s : System Disk) (pd : Option Nat) : Prop :=
  ∀ p, pd = some p → p ∉ s.pageDirs ∧ p ≠ 0 ∧ p ≠ s.kernel.kernelCr3

def FreshPages (s : System Disk) : Event → Prop
  | .fork pd _ _ => s.NewPage pd
  | .exec pd _ => s.NewPage pd
  | .mapUser pd => s.NewPage pd
  | _ => True

def SparesStarts (s : System Disk) (d : Option Nat) : Prop := ∀ j, d = some j → ¬ (s.stage j).IsHolding

def SlotsSpared (s : System Disk) : Event → Prop
  | .spawn _ _ _ _ => s.kernel.nextPid < 2 ^ 31
  | .fork _ _ _ => s.kernel.nextPid < 2 ^ 31
  | .take => ∀ req idx, s.stage s.slot = .probed req idx → s.kernel.userSlotUsed idx = false
  | .taskKill pid _ => s.SparesStarts (Sched.diesBy s.kernel (.kill pid 0 0))
  | .sched e => s.SparesStarts (Sched.diesBy s.kernel e)
  | _ => True

theorem slots_schedStep {e : Sched.Event} (h : s.SlotsHold) (hne : ∀ stack, e ≠ .create stack)
    (hspare : s.SparesStarts (Sched.diesBy s.kernel e)) (hs : s.schedStep e = some s') :
    s'.SlotsHold := by
  obtain ⟨k, hk, rfl⟩ := Option.map_eq_some_iff.mp hs
  have hsound := Sched.sound_step h.sound (Sched.sparesZombies_of_ne hne) hk
  rcases Sched.held_step h.sound hne hk with ⟨hfree, hheld⟩ | ⟨i, hfree, hi, hdead, rfl⟩
  · simp only [SlotsHold, hfree]
    exact Slots.held h hheld hsound hspare
  · simp only [SlotsHold, hfree]
    exact Slots.reap h hi hdead

theorem taskCreate_some {stack : Option Nat} {a : Stage} {pid : Nat}
    (hc : s.taskCreate stack a = (some pid, s')) :
    ∃ k, s.kernel.taskCreate stack = (some pid, k) ∧ s' = { s with
      kernel := k
      stage := Function.update s.stage (newSlot s.kernel) a
      pageDirs := match s.kernel.findTerminated with
        | some i => s.pageDirs.erase (s.task i).cr3
        | none => s.pageDirs } := by
  unfold taskCreate at hc
  split at hc
  · cases hc
  · rename_i p k hk
    cases hc
    exact ⟨k, hk, rfl⟩

theorem taskCreate_fails {stack : Option Nat} {a : Stage}
    (hc : s.taskCreate stack a = (none, s')) :
    ∃ k, s.kernel.taskCreate stack = (none, k) ∧ s' = { s with kernel := k } := by
  unfold taskCreate at hc
  split at hc
  · rename_i k hk
    cases hc
    exact ⟨k, hk, rfl⟩
  · cases hc

section Create

variable {k k' : Kernel} {g : Nat → Stage} {pages : List Nat} {slotT dirT : Option Nat}
  {stack : Option Nat} {pid : Nat}

theorem sound_taskCreate (h : Sched.Sound k) (hpid : k.nextPid < 2 ^ 31) (stack : Option Nat) :
    Sched.Sound (k.taskCreate stack).2 :=
  (Sched.create_spec h stack (fun _ => by omega)).1

theorem slots_create_fails (h : Slots k g pages slotT dirT) (hpid : k.nextPid < 2 ^ 31)
    (hc : k.taskCreate stack = (none, k')) : Slots k' g pages slotT dirT := by
  have hsound := sound_taskCreate h.sound hpid stack
  rw [hc] at hsound
  exact h.held (Sched.taskCreate_none hc) hsound nofun

theorem slots_create {a : Stage} (h : Slots k g pages slotT dirT) (hpid : k.nextPid < 2 ^ 31)
    (hc : k.taskCreate stack = (some pid, k')) (ha : ¬ a.IsHolding)
    (hfit : ∀ t : Sched.Task, t.userSlot = noSlot → StageFits t a) :
    Slots k' (Function.update g (newSlot k) a)
      (match k.findTerminated with
        | some i => pages.erase (k.tasks i).cr3
        | none => pages) slotT dirT := by
  have hsound := sound_taskCreate h.sound hpid stack
  rw [hc] at hsound
  obtain ⟨_, hcr⟩ := created_of_taskCreate hc
  refine h.create hcr hsound ha (hfit _ ?_)
  rw [hcr.cleared.userSlot, if_pos rfl]

end Create

theorem slots_sysSpawn {req freed : SpawnReq} {mem : Bool} {stack : Option Nat} (h : s.SlotsHold)
    (hpid : s.kernel.nextPid < 2 ^ 31) : (s.sysSpawn req freed mem stack).2.SlotsHold := by
  unfold sysSpawn
  rw [if_neg (Nat.not_le_of_lt hpid)]
  split
  · exact h
  split
  · exact h
  split
  · rename_i s' hc
    obtain ⟨k, hk, rfl⟩ := taskCreate_fails hc
    exact slots_create_fails h hpid hk
  · rename_i pid s' hc
    obtain ⟨k, hk, rfl⟩ := taskCreate_some hc
    exact slots_create h hpid hk (by rintro ⟨_, _, hx⟩; cases hx) (fun _ ht _ => ht)

theorem mmUserSlotAlloc_some {idx : Nat} (ha : s.mmUserSlotAlloc = some (idx, s')) :
    idx < userSlotCount ∧ s.kernel.userSlotUsed idx = false ∧ s' = s.takeSlot idx := by
  obtain ⟨i, hi, heq⟩ := Option.map_eq_some_iff.mp ha
  cases heq
  have hfree := List.find?_some hi
  refine ⟨List.mem_range.mp (List.mem_of_find?_eq_some hi), ?_, rfl⟩
  simpa using hfree

theorem mmUserCr3Create_some {phys pd : Nat} {fresh : Option Nat}
    (hc : s.mmUserCr3Create phys fresh = some (pd, s')) :
    fresh = some pd ∧ s' = { s with pageDirs := pd :: s.pageDirs } := by
  unfold mmUserCr3Create at hc
  split at hc
  · cases hc
  · obtain ⟨p, hp, heq⟩ := Option.map_eq_some_iff.mp hc
    cases heq
    exact ⟨hp, rfl⟩

theorem mmUserCr3Destroy_dir {pd : Nat} (h0 : pd ≠ 0) (hk : pd ≠ s.kernel.kernelCr3) :
    s.mmUserCr3Destroy pd = { s with pageDirs := s.pageDirs.erase pd } := by
  rw [mmUserCr3Destroy, if_neg (not_or.mpr ⟨h0, hk⟩)]

theorem SlotsHold.newSlot (h : s.SlotsHold) {idx : Nat} (hidx : idx < userSlotCount)
    (hfree : s.kernel.userSlotUsed idx = false) :
    Slots (s.takeSlot idx).kernel s.stage s.pageDirs (some idx) none :=
  Slots.alloc h hidx hfree

theorem SlotsHold.live (h : s.SlotsHold) : (s.task s.slot).state ≠ .terminated := by
  have hrun : (s.task s.slot).state = .running := h.sound.running
  rw [hrun]
  decide

theorem slots_recordUser {k : Kernel} {g : Nat → Stage} {pages : List Nat} {i idx pd : Nat}
    (h : Slots k g pages (some idx) (some pd)) (hi : i < k.taskCount)
    (hlive : (k.tasks i).state ≠ .terminated) (hno : (k.tasks i).userSlot = noSlot)
    (hg : (g i).starting = false) (hf : ∀ ctx, g i ≠ .forked ctx) :
    Slots (k.setTask i { k.tasks i with userSlot := idx, userPhysBase := userPhys idx, cr3 := pd })
      g pages none none := by
  refine h.record hi hlive hno ?_ rfl rfl rfl rfl rfl rfl ?_
  · rintro ⟨_, _, hx⟩
    rw [hx] at hg
    cases hg
  · cases hgi : g i with
    | forked ctx => exact absurd hgi (hf ctx)
    | kernel => exact nofun
    | user => exact nofun
    | loading req => exact nofun
    | spawned req => rw [hgi] at hg; cases hg
    | probing req idx => rw [hgi] at hg; cases hg
    | probed req idx => rw [hgi] at hg; cases hg
    | holding req idx => rw [hgi] at hg; cases hg

theorem copyFds_frame (s : System Disk) (j : Nat) :
    (s.copyFds j).kernel = s.kernel ∧ (s.copyFds j).stage = s.stage ∧
      (s.copyFds j).pageDirs = s.pageDirs := by
  unfold copyFds
  split
  · exact ⟨rfl, rfl, rfl⟩
  split
  · exact ⟨rfl, rfl, rfl⟩
  · exact ⟨rfl, rfl, rfl⟩

-- the child is recorded while it is still a plain kernel task, then its stage is what fork gave it
theorem slots_forkChild {k k' : Kernel} {g : Nat → Stage} {pages : List Nat} {stack : Option Nat}
    {pid idx pd : Nat} {ctx : ForkCtx} (h : Slots k g pages (some idx) (some pd))
    (hpid : k.nextPid < 2 ^ 31) (hc : k.taskCreate stack = (some pid, k'))
    (hslot : ctx.userSlot = idx) (hcr3 : ctx.userCr3 = pd) :
    k'.taskFindByPid pid = some (newSlot k) ∧
      Slots (k'.setTask (newSlot k) { k'.tasks (newSlot k) with
          userSlot := idx, userPhysBase := userPhys idx, cr3 := pd })
        (Function.update g (newSlot k) (.forked ctx))
        (match k.findTerminated with
          | some i => pages.erase (k.tasks i).cr3
          | none => pages) none none := by
  obtain ⟨rfl, hcr⟩ := created_of_taskCreate hc
  have hmade := slots_create (a := .kernel) h hpid hc (by rintro ⟨_, _, hx⟩; cases hx)
    (fun _ _ => nofun)
  have hlt : newSlot k < k'.taskCount := by
    rw [hcr.count]
    omega
  have hlive : (k'.tasks (newSlot k)).state ≠ .terminated := by
    rw [hcr.ready]
    decide
  have hno : (k'.tasks (newSlot k)).userSlot = noSlot := by rw [hcr.cleared.userSlot, if_pos rfl]
  have hrec := slots_recordUser hmade hlt hlive hno (by rw [Function.update_self]; rfl)
    (by rw [Function.update_self]; exact nofun)
  have hpos : k.nextPid ≠ 0 := by
    have := h.sound.pidBelow _ h.sound.cur
    omega
  refine ⟨Sched.taskFindByPid_of_unique hmade.sound hlt hcr.pid hpos, ?_⟩
  have hidxNo := userSlot_ne_noSlot (h.slots.covered none idx rfl).1
  have hset := Kernel.setTask_tasks_same k' (newSlot k)
    { k'.tasks (newSlot k) with userSlot := idx, userPhysBase := userPhys idx, cr3 := pd }
  have hrecNo := congrArg Sched.Task.userSlot hset
  have hrecDir := congrArg Sched.Task.cr3 hset
  have hcount : newSlot k < (k'.setTask (newSlot k) { k'.tasks (newSlot k) with
      userSlot := idx, userPhysBase := userPhys idx, cr3 := pd }).taskCount := hlt
  generalize k'.setTask (newSlot k) { k'.tasks (newSlot k) with
    userSlot := idx, userPhysBase := userPhys idx, cr3 := pd } = q at *
  have hne : (q.tasks (newSlot k)).userSlot ≠ noSlot := by
    rw [hrecNo]
    exact hidxNo
  have hnew := hrec.setStage (i := newSlot k) (a := .forked ctx)
    ((heldSlot_recorded hcount hne).trans (heldSlot_recorded hcount hne).symm)
    (fun _ => ⟨hrecNo.trans hslot.symm, hrecDir.trans hcr3.symm⟩)
  rwa [Function.update_idem] at hnew

theorem slots_nameChild {j : Nat} (h : s.SlotsHold) (hlive : (s.task j).state ≠ .terminated) :
    (s.nameChild j).SlotsHold :=
  Slots.setTask h hlive rfl rfl rfl rfl rfl rfl

theorem slots_copyFds {j : Nat} (h : s.SlotsHold) : (s.copyFds j).SlotsHold := by
  obtain ⟨hk, hg, hp⟩ := copyFds_frame s j
  rw [SlotsHold, hk, hg, hp]
  exact h

theorem slots_forked {t : System Disk} {k : Kernel} {j idx pd : Nat}
    (h : Slots (k.setTask j { k.tasks j with
      userSlot := idx, userPhysBase := userPhys idx, cr3 := pd }) t.stage t.pageDirs none none)
    (hk : t.kernel = k) (hlive : (k.tasks j).state ≠ .terminated) :
    (((t.recordUser j idx pd).nameChild j).copyFds j).SlotsHold := by
  subst hk
  refine slots_copyFds (slots_nameChild h ?_)
  show ((t.kernel.setTask j _).tasks j).state ≠ .terminated
  rwa [Kernel.setTask_tasks_same]

theorem slots_forkUndo {t : System Disk} {idx pd : Nat}
    (h : Slots t.kernel t.stage t.pageDirs (some idx) (some pd)) :
    (t.forkUndo idx pd).SlotsHold := by
  obtain ⟨h0, hk⟩ := h.dirNew pd (h.dirs.covered none pd rfl)
  rw [forkUndo, mmUserCr3Destroy_dir h0 hk]
  exact h.dropDir.freeTransit

theorem forkChild_small {t : System Disk} {idx pd pid j : Nat} (hpid : pid < 2 ^ 31)
    (hfind : t.kernel.taskFindByPid pid = some j) :
    t.forkChild idx pd pid = ((pid : Int), (((t.recordUser j idx pd).nameChild j).copyFds j)) := by
  have hsmall : ¬ 2 ^ 31 ≤ pid := by omega
  rw [forkChild, if_neg hsmall, hfind]

theorem slots_forkTask {stack : Option Nat} {idx pd : Nat}
    (h : Slots s.kernel s.stage s.pageDirs (some idx) (some pd))
    (hpid : s.kernel.nextPid < 2 ^ 31) : (s.forkTask idx pd stack).2.SlotsHold := by
  unfold forkTask
  split
  · rename_i t hc
    obtain ⟨k, hkc, rfl⟩ := taskCreate_fails hc
    exact slots_forkUndo (slots_create_fails h hpid hkc)
  · rename_i pid t hc
    obtain ⟨k, hkc, ht⟩ := taskCreate_some hc
    have hidx : (s.forkCtx idx pd).userSlot = idx := rfl
    obtain ⟨hfind, hchild⟩ := slots_forkChild h hpid hkc hidx rfl
    obtain ⟨hpidEq, hcr⟩ := created_of_taskCreate hkc
    have htk : t.kernel = k := by rw [ht]
    rw [← htk] at hfind
    rw [forkChild_small (hpidEq ▸ hpid) hfind]
    refine slots_forked (k := k) ?_ htk ?_
    · rw [ht]
      exact hchild
    · rw [hcr.ready]
      decide

theorem slots_forkSpace {pd stack : Option Nat} {ctx : Bool} {idx : Nat}
    (h : Slots s.kernel s.stage s.pageDirs (some idx) none) (hnew : s.NewPage pd)
    (hpid : s.kernel.nextPid < 2 ^ 31) : (s.forkSpace idx pd ctx stack).2.SlotsHold := by
  unfold forkSpace
  split
  · exact h.freeTransit
  · rename_i dir t hcreate
    obtain ⟨rfl, rfl⟩ := mmUserCr3Create_some hcreate
    obtain ⟨hout, h0, hk⟩ := hnew dir rfl
    have hdir := h.newDir hout h0 hk
    split
    · exact slots_forkUndo hdir
    · exact slots_forkTask hdir hpid

theorem slots_sysFork {pd stack : Option Nat} {ctx : Bool} (h : s.SlotsHold) (hnew : s.NewPage pd)
    (hpid : s.kernel.nextPid < 2 ^ 31) : (s.sysFork pd ctx stack).2.SlotsHold := by
  unfold sysFork
  split
  · exact h
  cases halloc : s.mmUserSlotAlloc with
  | none => exact h
  | some p =>
    obtain ⟨idx, t⟩ := p
    obtain ⟨hidx, hfree, rfl⟩ := mmUserSlotAlloc_some halloc
    exact slots_forkSpace (h.newSlot hidx hfree) hnew hpid

theorem SlotsHold.noSpace (h : s.SlotsHold) (hno : s.hasUserSpace = false) :
    (s.task s.slot).userSlot = noSlot := by
  by_contra hslot
  have hcur : s.slot < s.kernel.taskCount := h.sound.cur
  have hcr3 : (s.task s.slot).cr3 ≠ s.kernel.kernelCr3 :=
    fun hc => hslot ((h.paired s.slot hcur).mpr hc)
  have hdir : heldDir s.kernel s.slot = some (s.task s.slot).cr3 := if_pos ⟨hcur, hcr3⟩
  have h0 := (h.dirNew _ (h.dirs.covered (some s.slot) _ hdir)).1
  rw [hasUserSpace] at hno
  simp only [hslot, h0, ne_eq, not_false_eq_true, decide_true, Bool.and_self] at hno
  cases hno

theorem slots_ensure {pd : Option Nat} (h : s.SlotsHold) (hnew : s.NewPage pd)
    (huser : s.stage s.slot = .user) : (s.ensureCurrentTaskUserSpace pd).2.SlotsHold := by
  unfold ensureCurrentTaskUserSpace
  split
  · exact h
  rename_i hno
  cases halloc : s.mmUserSlotAlloc with
  | none => exact h
  | some p =>
    obtain ⟨idx, t⟩ := p
    obtain ⟨hidx, hfree, rfl⟩ := mmUserSlotAlloc_some halloc
    have htaken := h.newSlot hidx hfree
    dsimp only
    cases hcreate : (s.takeSlot idx).mmUserCr3Create (userPhys idx) pd with
    | none => exact htaken.freeTransit
    | some p =>
      obtain ⟨dir, t⟩ := p
      obtain ⟨rfl, rfl⟩ := mmUserCr3Create_some hcreate
      obtain ⟨hout, h0, hk⟩ := hnew dir rfl
      refine slots_recordUser (htaken.newDir hout h0 hk) h.sound.cur h.live
        (h.noSpace (by simpa using hno)) ?_ ?_
      · show (s.stage s.slot).starting = false
        rw [huser]
        rfl
      · intro ctx
        show s.stage s.slot ≠ .forked ctx
        rw [huser]
        exact nofun

theorem IoOnly.slotsHold (g : IoOnly s s') (h : s.SlotsHold) : s'.SlotsHold := by
  rw [SlotsHold, g.kernel, g.stage, g.pageDirs]
  exact h

theorem slots_sysExec {pd : Option Nat} {loads : Bool} (h : s.SlotsHold) (hnew : s.NewPage pd)
    (huser : s.stage s.slot = .user) : (s.sysExec o pd loads).2.SlotsHold := by
  have hens := slots_ensure h hnew huser
  unfold sysExec
  split
  · rename_i t heq
    rw [heq] at hens
    exact hens
  · rename_i t heq
    rw [heq] at hens
    split
    · dsimp only
      exact IoOnly.slotsHold (ioOnly_closeCloexecFds t) hens
    · exact hens

theorem ioOnly_bindStdio (s : System Disk) (path : HouseOS.Vfs.Path) : IoOnly s (s.bindStdio path) := by
  unfold bindStdio
  split
  · exact IoOnly.refl s
  · exact (ioOnly_fdCurrent s).trans (ioOnly_setFds _ _)

theorem SlotsHold.setStage {a : Stage} (h : s.SlotsHold) (hold : ¬ (s.stage s.slot).IsHolding)
    (ha : ¬ a.IsHolding) (hfit : StageFits (s.task s.slot) a) : (s.setStage s.slot a).SlotsHold :=
  Slots.setStage h (heldSlot_setStage h.sound.cur hold ha) (fun _ => hfit)

theorem SlotsHold.fits (h : s.SlotsHold) : StageFits (s.task s.slot) (s.stage s.slot) :=
  Slots.fits h s.slot h.sound.cur h.live

theorem SlotsHold.startingFits (h : s.SlotsHold) {a : Stage} (hst : s.stage s.slot = a)
    (ha : a.starting = true) : (s.task s.slot).userSlot = noSlot := by
  have hfits := h.fits
  rw [hst] at hfits
  cases a with
  | spawned req => exact hfits rfl
  | probing req idx => exact hfits rfl
  | probed req idx => exact hfits.1
  | holding req idx => exact hfits rfl
  | kernel => cases ha
  | loading req => cases ha
  | forked ctx => cases ha
  | user => cases ha

theorem slots_bound {req : SpawnReq} (h : s.SlotsHold) (hst : s.stage s.slot = .spawned req) :
    (s.setStage s.slot (if s.hasUserSpace then .loading req else .probing req 0)).SlotsHold := by
  have hno := h.startingFits hst rfl
  refine h.setStage (by rw [hst]; rintro ⟨_, _, hx⟩; cases hx) ?_ ?_
  · split <;> (rintro ⟨_, _, hx⟩; cases hx)
  · split
    · intro hx
      cases hx
    · exact fun _ => hno

theorem slots_bindRequest {req : SpawnReq} (h : s.SlotsHold) (hst : s.stage s.slot = .spawned req) :
    (s.bindRequest req).SlotsHold := by
  have hio := ioOnly_bindStdio s req.tty
  have hbound := hio.slotsHold h
  have hstage : (s.bindStdio req.tty).stage (s.bindStdio req.tty).slot = .spawned req := by
    rw [hio.stage, hio.slot, hst]
  unfold bindRequest
  generalize s.bindStdio req.tty = t at hbound hstage
  have hnamed : (t.setTask t.slot { t.task t.slot with
      ttyPath := req.tty.take (ttyPathCap - 1)
      progPath := req.path.take (progPathCap - 1)
      cmdline := req.cmdline.take (cmdlineCap - 1) }).SlotsHold :=
    Slots.setTask hbound hbound.live rfl rfl rfl rfl rfl rfl
  exact slots_bound hnamed hstage

theorem slots_taskExit (h : s.SlotsHold) (hold : ¬ (s.stage s.slot).IsHolding)
    (hs : s.taskExit = some s') : s'.SlotsHold := by
  refine slots_schedStep (e := .fault) h (fun _ => nofun) ?_ hs
  intro j hj
  cases hj
  exact hold

theorem slots_probe {req : SpawnReq} {idx : Nat} (h : s.SlotsHold)
    (hst : s.stage s.slot = .probing req idx) (hs : s.probe req idx = some s') : s'.SlotsHold := by
  have hno := h.startingFits hst rfl
  have hold : ¬ (s.stage s.slot).IsHolding := by
    rw [hst]
    rintro ⟨_, _, hx⟩
    cases hx
  unfold probe at hs
  split at hs
  · exact slots_taskExit h hold hs
  rename_i hidx
  split at hs
  · cases hs
    exact h.setStage hold (by rintro ⟨_, _, hx⟩; cases hx) (fun _ => hno)
  · cases hs
    exact h.setStage hold (by rintro ⟨_, _, hx⟩; cases hx) ⟨hno, by omega⟩

theorem slots_take {req : SpawnReq} {idx : Nat} (h : s.SlotsHold)
    (hst : s.stage s.slot = .probed req idx) (hfree : s.kernel.userSlotUsed idx = false) :
    (s.take req idx).SlotsHold := by
  have hfits := h.fits
  rw [hst] at hfits
  refine (h.newSlot hfits.2 hfree).hold h.sound.cur h.live hfits.1 ?_
  rw [hst]
  rintro ⟨_, _, hx⟩
  cases hx

theorem freeSlot_slot (s : System Disk) (idx : Nat) : (s.freeSlot idx).slot = s.slot := by
  show (s.kernel.userSlotFree idx).currentTask = s.kernel.currentTask
  unfold Kernel.userSlotFree
  split <;> rfl

theorem slots_mapUser {req : SpawnReq} {idx : Nat} {pd : Option Nat} (h : s.SlotsHold)
    (hnew : s.NewPage pd) (hst : s.stage s.slot = .holding req idx)
    (hs : s.mapUser req idx pd = some s') : s'.SlotsHold := by
  have hno := h.startingFits hst rfl
  have hloose : Slots s.kernel (Function.update s.stage s.slot (.loading req)) s.pageDirs
      (some idx) none :=
    h.unhold h.sound.cur h.live hno hst (by rintro ⟨_, _, hx⟩; cases hx) nofun
  unfold mapUser at hs
  split at hs
  · have hfreed : ((s.freeSlot idx).setStage s.slot (.loading req)).SlotsHold := hloose.freeTransit
    refine slots_taskExit hfreed ?_ hs
    have hslot : ((s.freeSlot idx).setStage s.slot (.loading req)).slot = s.slot :=
      freeSlot_slot s idx
    rw [hslot]
    show ¬ (Function.update s.stage s.slot (.loading req) s.slot).IsHolding
    rw [Function.update_self]
    rintro ⟨_, _, hx⟩
    cases hx
  · rename_i dir t hcreate
    obtain ⟨rfl, rfl⟩ := mmUserCr3Create_some hcreate
    cases hs
    obtain ⟨hout, h0, hk⟩ := hnew dir rfl
    have hrec := slots_recordUser (hloose.newDir hout h0 hk) h.sound.cur h.live hno
      (by rw [slot, Function.update_self]; rfl) (fun ctx => by rw [slot, Function.update_self]; exact nofun)
    exact hrec

theorem slots_enter {req : SpawnReq} {loads : Bool} (h : s.SlotsHold)
    (hst : s.stage s.slot = .loading req) (hs : s.enter loads = some s') : s'.SlotsHold := by
  have hold : ¬ (s.stage s.slot).IsHolding := by
    rw [hst]
    rintro ⟨_, _, hx⟩
    cases hx
  unfold enter at hs
  split at hs
  · cases hs
    exact h.setStage hold (by rintro ⟨_, _, hx⟩; cases hx) nofun
  · exact slots_taskExit h hold hs

theorem slots_childEnter {ctx : ForkCtx} (h : s.SlotsHold) (hst : s.stage s.slot = .forked ctx) :
    (s.childEnter ctx).SlotsHold := by
  have hfits := h.fits
  rw [hst] at hfits
  have hnamed := Slots.setTask (t := { s.task s.slot with
    cr3 := ctx.userCr3, userSlot := ctx.userSlot, userPhysBase := ctx.userPhys
    ttyPath := ctx.ttyPath, progPath := ctx.progPath, cmdline := ctx.cmdline }) h h.live
    hfits.1.symm hfits.2.symm rfl rfl rfl rfl
  refine hnamed.setStage (heldSlot_setStage hnamed.sound.cur ?_ ?_) (fun _ => nofun)
  · show ¬ (s.stage s.slot).IsHolding
    rw [hst]
    rintro ⟨_, _, hx⟩
    cases hx
  · rintro ⟨_, _, hx⟩
    cases hx

theorem slots_sysTaskKill {pid sig : Nat} (h : s.SlotsHold)
    (hspare : s.SparesStarts (Sched.diesBy s.kernel (.kill pid 0 0)))
    (hs : s.sysTaskKill pid sig = some s') : s'.SlotsHold := by
  unfold sysTaskKill at hs
  generalize (if sig = 0 then 15 else sig) = sig at hs
  dsimp only at hs
  split at hs
  · cases hs
    exact h
  · exact slots_schedStep (e := .kill pid _ sig) h (fun _ => nofun) hspare hs

theorem slots_step {e : Event} (h : s.SlotsHold) (hnew : s.FreshPages e) (hspare : s.SlotsSpared e)
    (hs : s.step o e = some s') : s'.SlotsHold := by
  have hcur : s.fdCurrent.SlotsHold := (ioOnly_fdCurrent s).slotsHold h
  unfold step at hs
  split at hs
  · rename_i call hst
    rcases ioOnly_fdCall hs with hio | hsleep
    · exact hio.slotsHold hcur
    · exact slots_schedStep (e := .sleep 10) hcur (fun _ => nofun) nofun hsleep
  · cases hs
    exact slots_sysSpawn hcur hspare
  · cases hs
    exact slots_sysFork hcur hnew hspare
  · rename_i pd loads hst
    cases hs
    exact slots_sysExec hcur hnew hst
  · rename_i req hst
    cases hs
    exact slots_bindRequest h hst
  · rename_i req idx hst
    exact slots_probe h hst hs
  · rename_i req idx hst
    cases hs
    exact slots_take h hst (hspare req idx hst)
  · rename_i pd req idx hst
    exact slots_mapUser h hnew hst hs
  · rename_i loads req hst
    exact slots_enter h hst hs
  · rename_i ctx hst
    cases hs
    exact slots_childEnter h hst
  · rename_i pid sig hst
    exact slots_sysTaskKill hcur hspare hs
  · cases hs
  · exact slots_schedStep (e := .tick) h (fun _ => nofun) hspare hs
  · exact slots_schedStep (e := .fault) h (fun _ => nofun) hspare hs
  · refine slots_schedStep h ?_ hspare hs
    exact fun _ => nofun
  · rename_i e hcreate _ _ _ hst
    exact slots_schedStep hcur hcreate hspare hs
  · exact slots_schedStep (e := .yield) h (fun _ => nofun) hspare hs
  · cases hs

theorem slots_taskInit {kernelCr3 : Nat} (idleStack : Nat) (hk : kernelCr3 ≠ 0) :
    Slots (Kernel.taskInit kernelCr3 idleStack) (fun _ => .kernel) [] none none := by
  have htask : ∀ j < 2, ((Kernel.taskInit kernelCr3 idleStack).tasks j).userSlot = noSlot ∧
      ((Kernel.taskInit kernelCr3 idleStack).tasks j).cr3 = kernelCr3 := by
    intro j hj
    obtain rfl | rfl : j = 0 ∨ j = 1 := by omega
    · exact ⟨rfl, rfl⟩
    · exact ⟨rfl, rfl⟩
  have hslot : ∀ j, heldSlot (Kernel.taskInit kernelCr3 idleStack) (fun _ => .kernel) j = none := by
    intro j
    by_cases hj : 2 ≤ j
    · exact if_pos hj
    · exact heldSlot_none (htask j (by omega)).1 (Or.inr (by rintro ⟨_, _, hx⟩; cases hx))
  have hdir : ∀ j, heldDir (Kernel.taskInit kernelCr3 idleStack) j = none := by
    intro j
    refine if_neg ?_
    rintro ⟨hj, hne⟩
    exact hne (htask j hj).2
  have howner : ∀ b, slotOwner (Kernel.taskInit kernelCr3 idleStack) (fun _ => .kernel) none b = none
    | none => rfl
    | some j => hslot j
  have hdirOwner : ∀ b, dirOwner (Kernel.taskInit kernelCr3 idleStack) none b = none
    | none => rfl
    | some j => hdir j
  refine ⟨Sched.sound_taskInit kernelCr3 idleStack, ⟨?_, ?_⟩, ?_, ⟨?_, ?_⟩, hk, nofun, ?_, ?_⟩
  · intro b b' x hx
    rw [howner] at hx
    cases hx
  · intro b x hx
    rw [howner] at hx
    cases hx
  · rintro x ⟨_, hx⟩
    cases hx
  · intro b b' x hx
    rw [hdirOwner] at hx
    cases hx
  · intro b x hx
    rw [hdirOwner] at hx
    cases hx
  · intro j hj
    exact ⟨fun _ => (htask j hj).2, fun _ => (htask j hj).1⟩
  · exact fun _ _ _ => nofun

theorem slots_boot {kernelCr3 idleStack : Nat} {stack : Option Nat} {d : Disk} (hk : kernelCr3 ≠ 0) :
    (boot kernelCr3 idleStack stack d).SlotsHold := by
  have hinit := slots_taskInit idleStack hk
  have hpid : (Kernel.taskInit kernelCr3 idleStack).nextPid < 2 ^ 31 := by
    show 3 < 2 ^ 31
    decide
  unfold boot
  generalize hc : taskCreate _ stack (.spawned bootRequest) = r
  obtain ⟨made, t⟩ := r
  cases made with
  | none =>
    obtain ⟨k, hkc, rfl⟩ := taskCreate_fails hc
    exact slots_create_fails hinit hpid hkc
  | some pid =>
    obtain ⟨k, hkc, rfl⟩ := taskCreate_some hc
    exact slots_create hinit hpid hkc (by rintro ⟨_, _, hx⟩; cases hx) (fun _ ht _ => ht)

structure OneOwner (s : System Disk) : Prop where
  slotHeld : ∀ x < userSlotCount, s.kernel.userSlotUsed x = true ↔
    ∃! j, heldSlot s.kernel s.stage j = some x
  slotApart : ∀ i < s.kernel.taskCount, ∀ j < s.kernel.taskCount,
    (s.task i).userSlot = (s.task j).userSlot → (s.task i).userSlot ≠ noSlot → i = j
  dirApart : ∀ i < s.kernel.taskCount, ∀ j < s.kernel.taskCount,
    (s.task i).cr3 = (s.task j).cr3 → (s.task i).cr3 ≠ s.kernel.kernelCr3 → i = j

theorem SlotsHold.oneOwner (h : s.SlotsHold) : s.OneOwner where
  slotHeld x hx := by
    constructor
    · intro hused
      obtain ⟨b, hb⟩ := h.tight x ⟨hx, hused⟩
      cases b with
      | none => cases hb
      | some j =>
        exact ⟨j, hb, fun i hi => Option.some.inj (h.slots.apart (some i) (some j) x hi hb)⟩
    · rintro ⟨j, hj, _⟩
      exact (h.slots.covered (some j) x hj).2
  slotApart i hi j hj heq hne := by
    have hi' := heldSlot_recorded (g := s.stage) hi hne
    have hj' := heldSlot_recorded (g := s.stage) hj (by
      show (s.task j).userSlot ≠ noSlot
      rwa [← heq])
    exact Option.some.inj (h.slots.apart (some i) (some j) _ hi' (hj'.trans (congrArg some heq.symm)))
  dirApart i hi j hj heq hne := by
    have hi' : heldDir s.kernel i = some (s.task i).cr3 := if_pos ⟨hi, hne⟩
    have hj' : heldDir s.kernel j = some (s.task i).cr3 := by
      rw [heq]
      exact if_pos ⟨hj, by rwa [heq] at hne⟩
    exact Option.some.inj (h.dirs.apart (some i) (some j) _ hi' hj')

theorem user_slots_one_owner {kernelCr3 idleStack : Nat} {stack : Option Nat} {d : Disk}
    (hk : kernelCr3 ≠ 0) (es : List Event)
    (hok : Run.Along (step o) (fun s e => s.FreshPages e ∧ s.SlotsSpared e)
      (boot kernelCr3 idleStack stack d) es)
    (hrun : Run.run (step o) (boot kernelCr3 idleStack stack d) es = some s) : s.OneOwner :=
  (Run.run_invariant (fun _ _ _ h hok hs => slots_step h hok.1 hok.2 hs) es _ _ (slots_boot hk) hok
    hrun).oneOwner

section Runs

def noFifos : FifoCalls Unit where
  fifo _ _ := none
  vfsMkfifo d _ := (false, d)
  vfsUnlink d _ := (false, d)
  vfsOpen d _ := (false, d)
  vfsCreateFile d _ := (false, d)

private def started : System Unit := boot 4096 8192 (some 16384) ()

private def initRuns : List Event :=
  [.sched .fault, .bindStdio, .probe, .take, .mapUser (some 20480), .enter true]

private def initForks : List Event :=
  initRuns ++ [.fork (some 24576) true (some 28672), .sched .yield, .childEnter]

private def killWhileHolding : List Event :=
  initRuns ++ [.spawn bootRequest bootRequest true (some 28672), .sched .yield, .bindStdio, .probe, .probe, .take,
    .sched .tick, .taskKill 4 9]

theorem user_slots_one_owner_forks :
    ∃ s, Run.run (step noFifos) started initForks = some s ∧ s.kernel.userSlotUsed 0 = true ∧
      s.kernel.userSlotUsed 1 = true ∧ s.OneOwner := by
  have hok : Run.Along (step noFifos) (fun s e => s.FreshPages e ∧ s.SlotsSpared e) started
      initForks := by
    refine ⟨⟨trivial, ?_⟩, ?_⟩
    · rintro j ⟨⟩
      rintro ⟨_, _, hx⟩
      cases hx
    rintro _ ⟨⟩
    refine ⟨⟨trivial, trivial⟩, ?_⟩
    rintro _ ⟨⟩
    refine ⟨⟨trivial, trivial⟩, ?_⟩
    rintro _ ⟨⟩
    refine ⟨⟨trivial, ?_⟩, ?_⟩
    · rintro req idx ⟨⟩
      rfl
    rintro _ ⟨⟩
    refine ⟨⟨?_, trivial⟩, ?_⟩
    · rintro p ⟨⟩
      decide
    rintro _ ⟨⟩
    refine ⟨⟨trivial, trivial⟩, ?_⟩
    rintro _ ⟨⟩
    refine ⟨⟨?_, ?_⟩, ?_⟩
    · rintro p ⟨⟩
      decide
    · show 4 < 2 ^ 31
      decide
    rintro _ ⟨⟩
    refine ⟨⟨trivial, nofun⟩, ?_⟩
    rintro _ ⟨⟩
    exact ⟨⟨trivial, trivial⟩, fun _ _ => trivial⟩
  exact ⟨_, rfl, rfl, rfl, user_slots_one_owner (by decide) initForks hok rfl⟩

theorem not_oneOwner_of_leak {x : Nat} (hx : x < userSlotCount)
    (hused : s.kernel.userSlotUsed x = true)
    (hfree : ∀ j < s.kernel.taskCount, heldSlot s.kernel s.stage j ≠ some x) : ¬ s.OneOwner := by
  intro h
  obtain ⟨j, hj, _⟩ := (h.slotHeld x hx).mp hused
  by_cases hlt : j < s.kernel.taskCount
  · exact hfree j hlt hj
  · rw [heldSlot, if_pos (by omega)] at hj
    cases hj

-- the killed task had marked slot 1 and recorded nothing, so nobody will free it
theorem kill_leaks_slot :
    ∃ s, Run.run (step noFifos) started killWhileHolding = some s ∧ ¬ s.OneOwner :=
  ⟨_, rfl, not_oneOwner_of_leak (show 1 < userSlotCount by decide) rfl (by decide)⟩

end Runs

end System

end HouseOS.Syscall
