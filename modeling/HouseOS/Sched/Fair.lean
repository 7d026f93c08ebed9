import HouseOS.Sched.Idle

namespace HouseOS.Sched

open Kernel

variable {k k' q : Kernel} {e : Event} {i : Nat}

-- the steps from the running task to slot `i`, and the slots that new tasks may still put in between
def gap (k : Kernel) (i : Nat) : Nat :=
  (if k.currentTask ≤ i then i - k.currentTask else i + k.taskCount - k.currentTask) +
    (maxTasks - k.taskCount)

def calls : Kernel → List Event → Nat
  | _, [] => 0
  | k, e :: es =>
      (if (scheduleCall k e).isSome then 1 else 0) +
        match step k e with
        | none => 0
        | some k' => calls k' es

-- what a waiting task keeps while nothing is switched
structure Aside (k k' : Kernel) (i : Nat) : Prop where
  idle : k'.idleTask = k.idleTask
  current : k'.currentTask = k.currentTask
  count : k.taskCount ≤ k'.taskCount
  max : k'.taskCount ≤ maxTasks
  pid : (k'.tasks i).pid = (k.tasks i).pid
  state : (k'.tasks i).state = .ready

namespace Aside

theorem same (hidle : k'.idleTask = k.idleTask) (hcur : k'.currentTask = k.currentTask)
    (hcount : k'.taskCount = k.taskCount) (hmax : k.taskCount ≤ maxTasks)
    (hpid : (k'.tasks i).pid = (k.tasks i).pid) (hstate : (k'.tasks i).state = .ready) :
    Aside k k' i :=
  ⟨hidle, hcur, Nat.le_of_eq hcount.symm, hcount ▸ hmax, hpid, hstate⟩

theorem waiting (h : Aside k k' i) (hw : Waiting k i) : Waiting k' i :=
  ⟨h.idle ▸ hw.1, h.state⟩

theorem gap_le (h : Aside k k' i) (hcur : k.currentTask < k.taskCount) :
    gap k' i ≤ gap k i := by
  have hcount := h.count
  have hmax := h.max
  rw [gap, gap, h.current]
  split <;> omega

theorem renewed {j p pp : Nat} (r : Renewed k k' j p pp) (hji : i ≠ j)
    (hcount : k'.taskCount = k.taskCount) (hmax : k.taskCount ≤ maxTasks) (hw : Waiting k i) :
    Aside k k' i :=
  same r.idle r.current hcount hmax (r.other i hji).1 ((r.other i hji).2.2.1.trans hw.2)

end Aside

theorem Turning.waiting_ne_current (h : Turning k) (hw : Waiting k i) : i ≠ k.currentTask := by
  have hrun : (k.tasks k.currentTask).state = .running := h.running
  rintro rfl
  rw [hw.2] at hrun
  cases hrun

theorem waiting_ne_terminated (hw : Waiting k i) {j : Nat} (hj : (k.tasks j).state = .terminated) :
    i ≠ j := by
  rintro rfl
  rw [hw.2] at hj
  cases hj

theorem aside_create (h : Turning k) (hw : Waiting k i) (hi : i < k.taskCount) (stack : Option Nat) :
    Aside k (k.taskCreate stack).2 i := by
  have hmax : k.taskCount ≤ maxTasks := h.max
  have hcur : k.currentTask < k.taskCount := h.cur
  cases stack with
  | none => exact Aside.same rfl rfl rfl hmax rfl hw.2
  | some stack =>
    simp only [taskCreate]
    cases hfind : k.findTerminated with
    | some j =>
      obtain ⟨-, hdead⟩ := findTerminated_some hfind
      obtain ⟨hr, hc, -⟩ := recycle_renewed k stack (h.current_ne_idle_terminated hdead).1.symm
      exact Aside.renewed hr (waiting_ne_terminated hw hdead) hc hmax hw
    | none =>
      by_cases hfull : maxTasks ≤ k.taskCount
      · simp only [if_pos hfull]
        exact Aside.same rfl rfl rfl hmax rfl hw.2
      · simp only [if_neg hfull]
        obtain ⟨hl, hlc, -⟩ := linkNewTask_shape (k := k) h.two h.head h.tail h.next
        have hne : k.linkNewTask.currentTask ≠ k.taskCount := by
          rw [hl.current]
          omega
        obtain ⟨hf, hfc, -⟩ := fillTask_renewed k.linkNewTask stack hne
        have hcount : (k.linkNewTask.fillTask k.taskCount stack).taskCount = k.taskCount + 1 :=
          hfc.trans hlc
        have hslot : i ≠ k.taskCount := Nat.ne_of_lt hi
        exact ⟨hf.idle.trans hl.idle, hf.current.trans hl.current, by omega, by omega,
          (hf.other i hslot).1.trans (hl.other i hslot).1,
          ((hf.other i hslot).2.2.1.trans (hl.other i hslot).2.2.1).trans hw.2⟩

theorem aside_kill (h : Turning k) (hw : Waiting k i) {pid : Nat} {exitStatus : Int}
    {termSignal : Nat} {r : Reply} (hlive : diesBy k (.kill pid exitStatus termSignal) ≠ some i)
    (hother : ¬(k.taskFindByPid pid = some k.currentTask ∧ k.currentTask ≠ k.idleTask ∧
      k.current.state ≠ .terminated))
    (hs : (k.taskTerminateByPid pid exitStatus termSignal).map
      (fun x => (Reply.killed x.1, x.2)) = some (r, k')) : Aside k k' i := by
  have hmax : k.taskCount ≤ maxTasks := h.max
  have hstay : Aside k k i := Aside.same rfl rfl rfl hmax rfl hw.2
  obtain ⟨⟨x, q⟩, hx, hq⟩ := Option.map_eq_some_iff.mp hs
  cases hq
  unfold taskTerminateByPid at hx
  simp only [diesBy] at hlive
  cases hfind : k.taskFindByPid pid with
  | none =>
    rw [hfind] at hx
    cases hx
    exact hstay
  | some j =>
    simp only [hfind] at hx hlive
    split at hx
    next =>
      cases hx
      exact hstay
    next hidle =>
      split at hx
      next =>
        cases hx
        exact hstay
      next halive =>
        rw [if_neg (not_or.mpr ⟨hidle, halive⟩)] at hlive
        have hij : i ≠ j := fun hij => hlive (congrArg some hij.symm)
        split at hx
        next hcur =>
          subst hcur
          exact absurd ⟨hfind, hidle, halive⟩ hother
        next =>
          cases hx
          rw [setExit_setState]
          have htask : ∀ t, (k.setTask j t).tasks i = k.tasks i := fun t => setTask_tasks_ne k t hij
          exact Aside.same rfl rfl rfl hmax (by rw [htask]) (by rw [htask]; exact hw.2)

theorem aside_of_no_call (h : Turning k) (hw : Waiting k i) (hi : i < k.taskCount)
    (hlive : diesBy k e ≠ some i) (hcall : scheduleCall k e = none) (hs : step k e = some k') :
    Aside k k' i := by
  have hmax : k.taskCount ≤ maxTasks := h.max
  have hstay : Aside k k i := Aside.same rfl rfl rfl hmax rfl hw.2
  obtain ⟨r, hr⟩ := step_some hs
  simp only [stepReply] at hr
  split at hr
  next =>
    cases e with
    | create stack =>
      cases hr
      exact aside_create h hw hi stack
    | exit status => cases hcall
    | fault => cases hcall
    | kill pid exitStatus termSignal =>
      refine aside_kill h hw hlive (fun hc => ?_) (by simpa using hr)
      simp [scheduleCall, hc] at hcall
    | waitpid pid options =>
      simp only [scheduleCall] at hcall
      rcases waitpid_effect k pid options with ⟨j, -, hdead, -, heq⟩ | ⟨w, heq, -⟩
      · simp only [heq] at hr
        cases hr
        obtain ⟨hre, hc, -⟩ := reapTask_renewed k j
        exact Aside.renewed hre (waiting_ne_terminated hw hdead) hc hmax hw
      · have hnot : w ≠ .blocked := fun hb => by simp [heq, hb] at hcall
        simp only [heq] at hr
        cases w with
        | blocked => exact absurd rfl hnot
        | reaped p st =>
          cases hr
          exact hstay
        | noChild =>
          cases hr
          exact hstay
        | again =>
          cases hr
          exact hstay
    | yield => cases hcall
    | sleep ms =>
      simp only [scheduleCall] at hcall
      split at hcall
      next hms =>
        simp only [Kernel.sleep, if_pos hms, Option.map_some] at hr
        cases hr
        exact hstay
      next => cases hcall
    | tick => cases hcall
  next => cases hr

theorem aside_of_call (h : Turning k) (hw : Waiting k i) (hq : scheduleCall k e = some q) :
    Aside k q i := by
  have hmax : k.taskCount ≤ maxTasks := h.max
  have hne := h.waiting_ne_current hw
  have hstay : Aside k k i := Aside.same rfl rfl rfl hmax rfl hw.2
  have hset (t : Task) : Aside k (k.setTask k.currentTask t) i :=
    Aside.same rfl rfl rfl hmax (by rw [setTask_tasks_ne _ _ hne])
      (by rw [setTask_tasks_ne _ _ hne]; exact hw.2)
  cases e with
  | create stack => cases hq
  | exit status =>
    cases hq
    rw [setExit_setState]
    exact hset _
  | fault =>
    cases hq
    exact hset _
  | kill pid exitStatus termSignal =>
    simp only [scheduleCall] at hq
    split at hq
    next =>
      cases hq
      rw [setExit_setState]
      exact hset _
    next => cases hq
  | waitpid pid options =>
    simp only [scheduleCall] at hq
    split at hq
    next =>
      cases hq
      exact hstay
    next => cases hq
  | yield =>
    cases hq
    exact hstay
  | sleep ms =>
    simp only [scheduleCall] at hq
    split at hq
    next => cases hq
    next =>
      cases hq
      exact hset _
  | tick =>
    cases hq
    have hready : (k.tasks i).state = .ready := hw.2
    have hquiet := quiet_wakeExpired { k with ticks := (k.ticks + 1) % 2 ^ 32 }
    have hstate : (({ k with ticks := (k.ticks + 1) % 2 ^ 32 } : Kernel).wakeExpired.tasks i).state =
        (k.tasks i).state :=
      wakeExpired_state (by simp [hready])
    exact Aside.same rfl rfl rfl hmax (hquiet.pid i) (hstate.trans hready)

theorem AtCall.closer (h : AtCall q) (hi : i < q.taskCount) (hw : Waiting q i) :
    ∃ k', q.schedule = some k' ∧ k'.taskCount = q.taskCount ∧
      (k'.tasks i).pid = (q.tasks i).pid ∧
      (k'.currentTask = i ∨ Waiting k' i ∧ gap k' i < gap q i) := by
  have hcur : q.currentTask < q.taskCount := h.ring.cur
  obtain ⟨d, hpos, hd, rfl⟩ := h.distance hi hw
  obtain ⟨c, hcpos, hcd, hcw, hsched⟩ := h.nearest hpos hd hw
  have hcne : slotAt q c ≠ q.currentTask :=
    h.ring.mod_ne_current hcpos (Nat.lt_of_le_of_lt hcd hd)
  have hquiet := quiet_switchTo hcw.2 hcne
  refine ⟨_, hsched, hquiet.count, hquiet.pid _, ?_⟩
  by_cases heq : c = d
  · left
    rw [switchTo_currentTask, heq]
  · right
    have hdne : slotAt q d ≠ q.currentTask := h.ring.mod_ne_current hpos hd
    have hslots : slotAt q d = if q.currentTask + d < q.taskCount then q.currentTask + d
        else q.currentTask + d - q.taskCount := wrap_eq hcur hd
    have hslotc : slotAt q c = if q.currentTask + c < q.taskCount then q.currentTask + c
        else q.currentTask + c - q.taskCount := wrap_eq hcur (by omega)
    have hdc : slotAt q d ≠ slotAt q c := by
      rw [hslots, hslotc]
      split_ifs <;> omega
    refine ⟨⟨by rw [hquiet.idle]; exact hw.1, ?_⟩, ?_⟩
    · rw [switchTo_state hcne, if_neg hdc, if_neg fun hx => hdne hx.1]
      exact hw.2
    · rw [gap, gap, switchTo_currentTask, hquiet.count, hslots, hslotc]
      split_ifs <;> omega

theorem waiting_step (h : Turning k) (hi : i < k.taskCount) (hw : Waiting k i)
    (hlive : diesBy k e ≠ some i) (hs : step k e = some k') :
    (k'.tasks i).pid = (k.tasks i).pid ∧
    (k'.currentTask = i ∨ (i < k'.taskCount ∧ Waiting k' i ∧
      (if (scheduleCall k e).isSome then 1 else 0) + gap k' i ≤ gap k i)) := by
  cases hcall : scheduleCall k e with
  | none =>
    have haside := aside_of_no_call h hw hi hlive hcall hs
    refine ⟨haside.pid, Or.inr ⟨Nat.lt_of_lt_of_le hi haside.count, haside.waiting hw, ?_⟩⟩
    have hgap := haside.gap_le h.cur
    simpa using hgap
  | some q =>
    have hen : e.enabled k = true := by
      by_contra hen
      simp [step, stepReply, hen] at hs
    have haside := aside_of_call h hw hcall
    have hgap := haside.gap_le h.cur
    obtain ⟨p, hp, hcount, hpid, hrest⟩ := (h.atCall_event hen hcall).closer
      (Nat.lt_of_lt_of_le hi haside.count) (haside.waiting hw)
    rw [step_of_call hen hcall, hp] at hs
    cases hs
    refine ⟨hpid.trans haside.pid, hrest.imp_right ?_⟩
    rintro ⟨hwait, hless⟩
    refine ⟨hcount ▸ Nat.lt_of_lt_of_le hi haside.count, hwait, ?_⟩
    simp only [Option.isSome_some, if_true]
    omega

theorem Turning.gap_pos (h : Turning k) (hw : Waiting k i) : 0 < gap k i := by
  have hne := h.waiting_ne_current hw
  have hcur : k.currentTask < k.taskCount := h.cur
  rw [gap]
  split <;> omega

theorem Turning.gap_lt (h : Turning k) (hi : i < k.taskCount) : gap k i < maxTasks := by
  have hmax : k.taskCount ≤ maxTasks := h.max
  have hcur : k.currentTask < k.taskCount := h.cur
  rw [gap]
  split <;> omega

theorem waiting_run : ∀ (fs : List Event) {k p : Kernel}, Turning k → i < k.taskCount → Waiting k i →
    Run.run step k fs = some p → Run.Along step (fun k e => diesBy k e ≠ some i) k fs →
    gap k i ≤ calls k fs →
    ∃ pre post q, fs = pre ++ post ∧ calls k pre ≤ gap k i ∧ Run.run step k pre = some q ∧
      q.currentTask = i ∧ (q.tasks i).pid = (k.tasks i).pid := by
  intro fs
  induction fs with
  | nil =>
    intro k p h _ hw _ _ hcalls
    exact absurd hcalls (Nat.not_le.mpr (h.gap_pos hw))
  | cons e fs ih =>
    intro k p h hi hw hrun halong hcalls
    obtain ⟨k', hs, hrest⟩ := Run.run_cons_some.mp hrun
    obtain ⟨hpid, hnext⟩ := waiting_step h hi hw halong.1 hs
    rcases hnext with hcur | ⟨hi', hw', hgap⟩
    · refine ⟨[e], fs, k', rfl, ?_, Run.run_cons_some.mpr ⟨k', hs, rfl⟩, hcur, hpid⟩
      have hpos := h.gap_pos hw
      simp only [calls, hs]
      split <;> omega
    · simp only [calls, hs] at hcalls
      obtain ⟨pre, post, q, hsplit, hpre, hq, hcur, hsame⟩ :=
        ih (turning_step h hs) hi' hw' hrest (halong.2 k' hs) (by omega)
      refine ⟨e :: pre, post, q, by rw [hsplit]; rfl, ?_, Run.run_cons_some.mpr ⟨k', hs, hq⟩, hcur,
        hsame.trans hpid⟩
      simp only [calls, hs]
      omega

theorem along_timer_ticks : ∀ (n : Nat) (k : Kernel),
    Run.Along step (fun k e => diesBy k e ≠ some i) k (List.replicate n .tick) := by
  intro n
  induction n with
  | zero => exact fun _ => trivial
  | succ n ih => exact fun _ => ⟨nofun, fun k' _ => ih k'⟩

theorem waiting_task_runs (kernelCr3 idleStack : Nat) (es fs : List Event) (k p : Kernel)
    (hrun : Run.run step (taskInit kernelCr3 idleStack) es = some k) (i : Nat) (hi : i < k.taskCount)
    (hw : Waiting k i) (hmore : Run.run step k fs = some p)
    (hlive : Run.Along step (fun k e => diesBy k e ≠ some i) k fs) (hcalls : 15 ≤ calls k fs) :
    ∃ pre post q, fs = pre ++ post ∧ calls k pre ≤ 15 ∧ Run.run step k pre = some q ∧
      q.currentTask = i ∧ (q.tasks i).pid = (k.tasks i).pid := by
  have hturn : Turning k := Run.run_invariant (fun _ _ _ ht _ => turning_step ht) es _ k
    (sound_forget (sound_taskInit kernelCr3 idleStack))
    (Run.along_of_forall (fun _ _ => trivial) es _ : Run.Along step (fun _ _ => True) _ es) hrun
  have hgap : gap k i ≤ 15 := Nat.le_of_lt_succ (hturn.gap_lt hi)
  obtain ⟨pre, post, q, hsplit, hpre, hq⟩ :=
    waiting_run fs hturn hi hw hmore hlive (Nat.le_trans hgap hcalls)
  exact ⟨pre, post, q, hsplit, Nat.le_trans hpre hgap, hq⟩

theorem waiting_task_runs_under_the_timer :
    ∃ k p, Run.run step (taskInit 4096 8192) [.create (some 16384)] = some k ∧
      Run.run step k (List.replicate 15 .tick) = some p ∧
      ∃ pre post q, List.replicate 15 Event.tick = pre ++ post ∧ calls k pre ≤ 15 ∧
        Run.run step k pre = some q ∧ q.currentTask = 2 ∧ (q.tasks 2).pid = (k.tasks 2).pid :=
  ⟨_, _, rfl, rfl, waiting_task_runs 4096 8192 [.create (some 16384)] (List.replicate 15 .tick) _ _ rfl
    2 (by decide) ⟨by decide, rfl⟩ rfl (along_timer_ticks 15 _) (by decide)⟩

end HouseOS.Sched
