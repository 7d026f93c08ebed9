import HouseOS.Sched.RunQueue

namespace HouseOS.Sched

open Kernel

def forgetTask (t : Task) : Task := { t with pid := 0, ppid := 0 }

-- the ring and the states without the pids, which `schedule` does not read
def forget (k : Kernel) : Kernel :=
  { k with tasks := fun j => forgetTask (k.tasks j), nextPid := 1 }

variable {k k' : Kernel} {e : Event}

theorem kernel_ext (htasks : ∀ j, k.tasks j = k'.tasks j)
    (hrest : ({ k with tasks := k'.tasks } : Kernel) = k') : k = k' := by
  rw [← hrest, ← funext htasks]

theorem forget_setTask (k : Kernel) (i : Nat) (t : Task) :
    forget (k.setTask i t) = (forget k).setTask i (forgetTask t) := by
  refine kernel_ext (fun j => ?_) rfl
  show forgetTask (if j = i then t else k.tasks j) = if j = i then forgetTask t else forgetTask (k.tasks j)
  split <;> rfl

theorem forget_setState (k : Kernel) (i : Nat) (s : TaskState) :
    forget (k.setState i s) = (forget k).setState i s :=
  forget_setTask k i _

theorem schedScan_forget (k : Kernel) : ∀ (fuel at_ : Nat) (firstIdle : Option Nat),
    (forget k).schedScan fuel at_ firstIdle = k.schedScan fuel at_ firstIdle := by
  intro fuel
  induction fuel with
  | zero => exact fun _ _ => rfl
  | succ fuel ih =>
    intro at_ firstIdle
    show (if (k.tasks (k.tasks at_).next).state = .ready then _ else _) = _
    simp only [schedScan, ih]
    rfl

theorem switchTo_forget (k : Kernel) (n : Nat) : forget (k.switchTo n) = (forget k).switchTo n := by
  have hset : forget (({ k with currentTask := n } : Kernel).setState n .running) =
      ({ forget k with currentTask := n } : Kernel).setState n .running :=
    forget_setState _ n .running
  have hstate (j : Nat) : ((({ forget k with currentTask := n } : Kernel).setState n .running).tasks j).state =
      ((({ k with currentTask := n } : Kernel).setState n .running).tasks j).state := by
    rw [← hset]
    rfl
  simp only [switchTo]
  have hcur : (forget k).currentTask = k.currentTask := rfl
  rw [hcur, hstate]
  split
  · rw [forget_setState, hset]
  · exact hset

theorem schedule_forget (k : Kernel) : (forget k).schedule = k.schedule.map forget := by
  simp only [schedule]
  have hcur : (forget k).currentTask = k.currentTask := rfl
  rw [hcur, schedScan_forget]
  cases k.schedScan maxTasks k.currentTask none with
  | none => rfl
  | some r =>
    cases r with
    | none => rfl
    | some n => exact congrArg some (switchTo_forget k n).symm

theorem sound_forget (h : Sound k) : Sound (forget k) where
  two := h.two
  max := h.max
  idle := h.idle
  cur := h.cur
  next := h.next
  head := h.head
  tail := h.tail
  idleState := h.idleState
  pidBelow _ _ := Nat.one_pos
  ppidBelow _ _ := Nat.one_pos
  pidUnique _ _ _ _ _ hne := absurd rfl hne
  pidLimit := by show 1 < 2 ^ 32; decide
  running := h.running

def Turning (k : Kernel) : Prop := Sound (forget k)

theorem Turning.of_schedule {q : Kernel} (h : ∃ p, (forget q).schedule = some p ∧ Sound p) :
    ∃ k', q.schedule = some k' ∧ Turning k' := by
  obtain ⟨p, hp, hsound⟩ := h
  rw [schedule_forget] at hp
  obtain ⟨k', hk', rfl⟩ := Option.map_eq_some_iff.mp hp
  exact ⟨k', hk', hsound⟩

theorem Turning.current_ne_idle_terminated (h : Turning k) {i : Nat}
    (hi : (k.tasks i).state = .terminated) : i ≠ k.currentTask ∧ i ≠ 0 :=
  Sound.not_current_of_terminated (k := forget k) h hi

theorem Turning.ring (h : Turning k) (hidle : k'.idleTask = k.idleTask)
    (hhead : k'.readyHead = k.readyHead) (hcur : k'.currentTask = k.currentTask)
    (hstate0 : (k'.tasks 0).state = (k.tasks 0).state)
    (hcount : k.taskCount ≤ k'.taskCount) (hmax : k'.taskCount ≤ maxTasks)
    (htail : k'.readyTail = some (k'.taskCount - 1))
    (hnext : ∀ j < k'.taskCount, (k'.tasks j).next = if j + 1 = k'.taskCount then 0 else j + 1) :
    Ring (forget k') where
  two := Nat.le_trans h.two hcount
  max := hmax
  idle := hidle.trans h.idle
  cur := by
    show k'.currentTask < k'.taskCount
    rw [hcur]
    exact Nat.lt_of_lt_of_le h.cur hcount
  next := hnext
  head := hhead.trans h.head
  tail := htail
  idleState := by
    show (k'.tasks 0).state = .ready ∨ k'.currentTask = 0 ∧ (k'.tasks 0).state = .running
    rw [hstate0, hcur]
    exact h.idleState
  pidBelow _ _ := Nat.one_pos
  ppidBelow _ _ := Nat.one_pos
  pidUnique _ _ _ _ _ hne := absurd rfl hne
  pidLimit := by show 1 < 2 ^ 32; decide

theorem Turning.renewed {i p pp : Nat} (h : Turning k) (r : Renewed k k' i p pp)
    (hi : (k.tasks i).state = .terminated) (hcount : k'.taskCount = k.taskCount)
    (htail : k'.readyTail = k.readyTail) (hnext : ∀ j, (k'.tasks j).next = (k.tasks j).next) :
    Turning k' := by
  obtain ⟨hicur, hi0⟩ := h.current_ne_idle_terminated hi
  refine ⟨h.ring r.idle r.head r.current (r.other 0 hi0.symm).2.2.1 (Nat.le_of_eq hcount.symm)
    (hcount ▸ h.max) ?_ ?_, ?_⟩
  · rw [htail, hcount]
    exact h.tail
  · intro j hj
    rw [hnext, hcount]
    exact h.next j (hcount ▸ hj)
  · show (k'.tasks k'.currentTask).state = .running
    rw [r.current, (r.other _ hicur.symm).2.2.1]
    exact h.running

theorem turning_create (h : Turning k) (stack : Option Nat) : Turning (k.taskCreate stack).2 := by
  have htwo : 2 ≤ k.taskCount := h.two
  have hcur : k.currentTask < k.taskCount := h.cur
  cases stack with
  | none => exact h
  | some stack =>
    simp only [taskCreate]
    cases hfind : k.findTerminated with
    | some i =>
      obtain ⟨hi, hdead⟩ := findTerminated_some hfind
      obtain ⟨hr, hc, ht, -, hx⟩ := recycle_renewed k stack (h.current_ne_idle_terminated hdead).1.symm
      exact h.renewed hr hdead hc ht hx
    | none =>
      by_cases hfull : maxTasks ≤ k.taskCount
      · simp only [if_pos hfull]
        exact ⟨h.ring rfl rfl rfl rfl (Nat.le_refl _) h.max h.tail h.next, h.running⟩
      · simp only [if_neg hfull]
        obtain ⟨hl, hlc, hlt, -, hlx⟩ := linkNewTask_shape (k := k) h.two h.head h.tail h.next
        have hlcur : k.linkNewTask.currentTask = k.currentTask := hl.current
        have hne : k.linkNewTask.currentTask ≠ k.taskCount := by omega
        obtain ⟨hf, hfc, hft, -, hfx, -⟩ := fillTask_renewed k.linkNewTask stack hne
        have hcount : (k.linkNewTask.fillTask k.taskCount stack).taskCount = k.taskCount + 1 :=
          hfc.trans hlc
        have hstate (j : Nat) (hj : j < k.taskCount) :
            ((k.linkNewTask.fillTask k.taskCount stack).tasks j).state = (k.tasks j).state :=
          (hf.other j (by omega)).2.2.1.trans (linkNewTask_state k j)
        refine ⟨h.ring (hf.idle.trans hl.idle) (hf.head.trans hl.head) (hf.current.trans hlcur)
          (hstate 0 (by omega)) (by omega) (by omega) ?_ ?_, ?_⟩
        · rw [hft, hcount]
          exact hlt
        · intro j hj
          rw [hfx, hcount]
          exact hlx j (by rw [hcount] at hj; exact hj)
        · show ((k.linkNewTask.fillTask k.taskCount stack).tasks
            (k.linkNewTask.fillTask k.taskCount stack).currentTask).state = .running
          rw [hf.current.trans hlcur, hstate _ hcur]
          exact h.running

-- the state in which an event calls `schedule`
def scheduleCall (k : Kernel) : Event → Option Kernel
  | .create _ => none
  | .exit status => some ((k.setExit k.currentTask status 0).setState k.currentTask .terminated)
  | .fault => some (k.setState k.currentTask .terminated)
  | .kill pid exitStatus termSignal =>
      if k.taskFindByPid pid = some k.currentTask ∧ k.currentTask ≠ k.idleTask ∧
          k.current.state ≠ .terminated then
        some ((k.setExit k.currentTask exitStatus termSignal).setState k.currentTask .terminated)
      else none
  | .waitpid pid options => if (k.taskWaitpid pid options).1 = .blocked then some k else none
  | .yield => some k
  | .sleep ms =>
      if ms = 0 then none
      else
        let ticksToWait := (ms * 100) % 2 ^ 32 / 1000
        let ticksToWait := if ticksToWait = 0 then 1 else ticksToWait
        some (k.setTask k.currentTask
          { k.current with state := .blocked, wakeTick := (k.ticks + ticksToWait) % 2 ^ 32 })
  | .tick => some ({ k with ticks := (k.ticks + 1) % 2 ^ 32 } : Kernel).wakeExpired

structure AtCall (q : Kernel) : Prop where
  ring : Ring (forget q)
  notReady : (q.tasks q.currentTask).state ≠ .ready

theorem AtCall.schedules {q : Kernel} (h : AtCall q) : ∃ k', q.schedule = some k' ∧ Turning k' := by
  obtain ⟨p, hp, hsound, -⟩ := schedule_spec h.ring h.notReady
  exact Turning.of_schedule ⟨p, hp, hsound⟩

theorem Turning.atCall (h : Turning k) : AtCall k where
  ring := h.toRing
  notReady := by
    have hrun : (k.tasks k.currentTask).state = .running := h.running
    rw [hrun]
    simp

theorem Turning.atCall_setTask (h : Turning k) (h0 : k.currentTask ≠ 0) {t : Task}
    (hnext : t.next = (k.tasks k.currentTask).next) (hready : t.state ≠ .ready) :
    AtCall (k.setTask k.currentTask t) where
  ring := by
    refine h.ring rfl rfl rfl (by rw [setTask_tasks_ne _ _ h0.symm]) (Nat.le_refl _) h.max h.tail ?_
    intro j hj
    by_cases hjc : j = k.currentTask
    · rw [hjc, setTask_tasks_same, hnext]
      exact h.next _ h.cur
    · rw [setTask_tasks_ne _ _ hjc]
      exact h.next j hj
  notReady := by
    show ((k.setTask k.currentTask t).tasks k.currentTask).state ≠ .ready
    rw [setTask_tasks_same]
    exact hready

theorem setExit_setState (k : Kernel) (i : Nat) (exitStatus : Int) (termSignal : Nat)
    (s : TaskState) : (k.setExit i exitStatus termSignal).setState i s =
      k.setTask i { k.tasks i with
        exitStatus := exitStatus, termSignal := termSignal, state := s } := by
  have hset : (k.setExit i exitStatus termSignal).tasks i =
      { k.tasks i with exitStatus := exitStatus, termSignal := termSignal } :=
    setTask_tasks_same k i _
  rw [setState, hset]
  refine kernel_ext (fun j => ?_) rfl
  by_cases hj : j = i
  · rw [hj, setTask_tasks_same, setTask_tasks_same]
  · rw [setTask_tasks_ne _ _ hj, setTask_tasks_ne _ _ hj, setExit, setTask_tasks_ne _ _ hj]

theorem Turning.atCall_tick (h : Turning k) :
    AtCall ({ k with ticks := (k.ticks + 1) % 2 ^ 32 } : Kernel).wakeExpired := by
  have hrun : (k.tasks k.currentTask).state = .running := h.running
  have hidle : (k.tasks 0).state = .ready ∨ k.currentTask = 0 ∧ (k.tasks 0).state = .running :=
    h.idleState
  have hstate (j : Nat) (hj : (k.tasks j).state ≠ .blocked) :
      (({ k with ticks := (k.ticks + 1) % 2 ^ 32 } : Kernel).wakeExpired.tasks j).state =
        (k.tasks j).state :=
    wakeExpired_state hj
  refine ⟨h.ring rfl rfl rfl (hstate 0 ?_) (Nat.le_refl _) h.max h.tail ?_, ?_⟩
  · rcases hidle with hs | ⟨-, hs⟩ <;> simp [hs]
  · intro j hj
    rw [(quiet_wakeExpired { k with ticks := (k.ticks + 1) % 2 ^ 32 }).next]
    exact h.next j hj
  · show (({ k with ticks := (k.ticks + 1) % 2 ^ 32 } : Kernel).wakeExpired.tasks
      k.currentTask).state ≠ .ready
    rw [hstate _ (by simp [hrun]), hrun]
    simp

theorem Turning.atCall_event (h : Turning k) (hen : e.enabled k = true) {q : Kernel}
    (hq : scheduleCall k e = some q) : AtCall q := by
  have hidle : k.idleTask = 0 := h.idle
  have hgone (exitStatus : Int) (termSignal : Nat) (h0 : k.currentTask ≠ 0) :
      AtCall ((k.setExit k.currentTask exitStatus termSignal).setState k.currentTask .terminated) := by
    rw [setExit_setState]
    exact h.atCall_setTask h0 rfl (by simp)
  cases e with
  | create stack => cases hq
  | exit status =>
    cases hq
    exact hgone _ _ (by simpa [Event.enabled, hidle] using hen)
  | fault =>
    cases hq
    exact h.atCall_setTask (by simpa [Event.enabled, hidle] using hen) rfl (by simp)
  | kill pid exitStatus termSignal =>
    simp only [scheduleCall] at hq
    split at hq
    next hc =>
      cases hq
      exact hgone _ _ (hidle ▸ hc.2.1)
    next => cases hq
  | waitpid pid options =>
    simp only [scheduleCall] at hq
    split at hq
    next =>
      cases hq
      exact h.atCall
    next => cases hq
  | yield =>
    cases hq
    exact h.atCall
  | sleep ms =>
    simp only [scheduleCall] at hq
    split at hq
    next => cases hq
    next =>
      cases hq
      exact h.atCall_setTask (by simpa [Event.enabled, hidle] using hen) rfl (by simp)
  | tick =>
    cases hq
    exact h.atCall_tick

theorem step_of_call (hen : e.enabled k = true) {q : Kernel} (hq : scheduleCall k e = some q) :
    step k e = q.schedule := by
  simp only [step, stepReply, if_pos hen]
  cases e with
  | create stack => cases hq
  | exit status =>
    cases hq
    simp [taskExit, Function.comp_def, setExit]
  | fault =>
    cases hq
    simp [taskExit, Function.comp_def]
  | kill pid exitStatus termSignal =>
    simp only [scheduleCall] at hq
    split at hq
    next hc =>
      cases hq
      obtain ⟨hfind, hidle, hlive⟩ := hc
      have hlive : (k.tasks k.currentTask).state ≠ .terminated := hlive
      simp only [taskTerminateByPid, hfind, if_neg hidle, if_neg hlive]
      simp [taskExit, Function.comp_def, setExit]
    next => cases hq
  | waitpid pid options =>
    simp only [scheduleCall] at hq
    split at hq
    next hw =>
      cases hq
      rcases waitpid_effect k pid options with ⟨i, -, -, -, heq⟩ | ⟨w, heq, -⟩
      · rw [heq] at hw
        cases hw
      · rw [heq] at hw
        have hb : w = .blocked := hw
        subst hb
        simp [heq, Function.comp_def]
    next => cases hq
  | yield =>
    cases hq
    simp [Function.comp_def]
  | sleep ms =>
    simp only [scheduleCall] at hq
    split at hq
    next => cases hq
    next hms =>
      cases hq
      simp [Kernel.sleep, hms, Function.comp_def]
  | tick =>
    cases hq
    simp [timerHandler, Function.comp_def]

theorem turning_kill (h : Turning k) {pid : Nat} {exitStatus : Int} {termSignal : Nat} {r : Reply}
    (hother : ¬(k.taskFindByPid pid = some k.currentTask ∧ k.currentTask ≠ k.idleTask ∧
      k.current.state ≠ .terminated))
    (hs : (k.taskTerminateByPid pid exitStatus termSignal).map
      (fun x => (Reply.killed x.1, x.2)) = some (r, k')) : Turning k' := by
  obtain ⟨⟨x, q⟩, hx, hq⟩ := Option.map_eq_some_iff.mp hs
  cases hq
  unfold taskTerminateByPid at hx
  cases hfind : k.taskFindByPid pid with
  | none =>
    rw [hfind] at hx
    cases hx
    exact h
  | some i =>
    simp only [hfind] at hx
    split at hx
    next =>
      cases hx
      exact h
    next hidle =>
      split at hx
      next =>
        cases hx
        exact h
      next hlive =>
        split at hx
        next hcur =>
          subst hcur
          exact absurd ⟨hfind, hidle, hlive⟩ hother
        next hcur =>
          cases hx
          rw [setExit_setState]
          have hi0 : i ≠ 0 := fun hi => hidle (hi.trans (Eq.symm h.idle))
          refine ⟨h.ring rfl rfl rfl (by rw [setTask_tasks_ne _ _ hi0.symm]) (Nat.le_refl _) h.max
            h.tail ?_, ?_⟩
          · intro j hj
            by_cases hji : j = i
            · rw [hji, setTask_tasks_same]
              exact h.next i (hji ▸ hj)
            · rw [setTask_tasks_ne _ _ hji]
              exact h.next j hj
          · show ((k.setTask i _).tasks k.currentTask).state = .running
            rw [setTask_tasks_ne _ _ (Ne.symm hcur)]
            exact h.running

theorem turning_of_no_call (h : Turning k) (hcall : scheduleCall k e = none)
    (hs : step k e = some k') : Turning k' := by
  obtain ⟨r, hr⟩ := step_some hs
  simp only [stepReply] at hr
  split at hr
  next =>
    cases e with
    | create stack =>
      cases hr
      exact turning_create h stack
    | exit status => cases hcall
    | fault => cases hcall
    | kill pid exitStatus termSignal =>
      refine turning_kill h (fun hc => ?_) (by simpa using hr)
      simp [scheduleCall, hc] at hcall
    | waitpid pid options =>
      simp only [scheduleCall] at hcall
      rcases waitpid_effect k pid options with ⟨i, -, hdead, -, heq⟩ | ⟨w, heq, -⟩
      · simp only [heq] at hr
        cases hr
        obtain ⟨hre, hc, ht, -, hx, -⟩ := reapTask_renewed k i
        exact h.renewed hre hdead hc ht hx
      · have hnot : w ≠ .blocked := fun hb => by simp [heq, hb] at hcall
        simp only [heq] at hr
        cases w with
        | blocked => exact absurd rfl hnot
        | reaped p st =>
          cases hr
          exact h
        | noChild =>
          cases hr
          exact h
        | again =>
          cases hr
          exact h
    | yield => cases hcall
    | sleep ms =>
      simp only [scheduleCall] at hcall
      split at hcall
      next hms =>
        simp only [Kernel.sleep, if_pos hms, Option.map_some] at hr
        cases hr
        exact h
      next => cases hcall
    | tick => cases hcall
  next => cases hr

theorem turning_step (h : Turning k) (hs : step k e = some k') : Turning k' := by
  cases hcall : scheduleCall k e with
  | none => exact turning_of_no_call h hcall hs
  | some q =>
    have hen : e.enabled k = true := by
      by_contra hen
      simp [step, stepReply, hen] at hs
    obtain ⟨p, hp, hturn⟩ := (h.atCall_event hen hcall).schedules
    rw [step_of_call hen hcall, hp] at hs
    cases hs
    exact hturn

end HouseOS.Sched
