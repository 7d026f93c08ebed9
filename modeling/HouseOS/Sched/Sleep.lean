import HouseOS.Sched.Idle

namespace HouseOS.Sched

open Kernel

variable {k q k' : Kernel} {e : Event} {i d : Nat}

structure Rests (i : Nat) (k k' : Kernel) : Prop where
  count : k.taskCount ≤ k'.taskCount
  ticks : k'.ticks = k.ticks
  state : (k'.tasks i).state = (k.tasks i).state
  wakeTick : (k'.tasks i).wakeTick = (k.tasks i).wakeTick

namespace Rests

theorem refl (i : Nat) (k : Kernel) : Rests i k k := ⟨Nat.le_refl _, rfl, rfl, rfl⟩

theorem trans (h : Rests i k q) (g : Rests i q k') : Rests i k k' where
  count := Nat.le_trans h.count g.count
  ticks := g.ticks.trans h.ticks
  state := g.state.trans h.state
  wakeTick := g.wakeTick.trans h.wakeTick

theorem of_tasks (hcount : k.taskCount ≤ k'.taskCount) (hticks : k'.ticks = k.ticks)
    (htask : k'.tasks i = k.tasks i) : Rests i k k' :=
  ⟨hcount, hticks, by rw [htask], by rw [htask]⟩

theorem setTask (k : Kernel) {j : Nat} (t : Task) (hij : i ≠ j) : Rests i k (k.setTask j t) :=
  of_tasks (Nat.le_refl _) rfl (setTask_tasks_ne k t hij)

theorem setNext (k : Kernel) (j n : Nat) :
    Rests i k (k.setTask j { k.tasks j with next := n }) := by
  by_cases hij : i = j
  · subst hij
    exact ⟨Nat.le_refl _, rfl, by simp, by simp⟩
  · exact setTask k _ hij

theorem switchTo {n : Nat} (hn : (k.tasks n).state = .ready) (hi : (k.tasks i).state = .blocked) :
    Rests i k (k.switchTo n) := by
  have hin : i ≠ n := by
    rintro rfl
    rw [hi] at hn
    cases hn
  have hset : Rests i k (({ k with currentTask := n } : Kernel).setState n .running) :=
    (of_tasks (Nat.le_refl _) rfl rfl : Rests i k { k with currentTask := n }).trans
      (setTask _ _ hin)
  unfold Kernel.switchTo
  dsimp only
  split
  next hprev =>
    refine hset.trans (setTask _ _ ?_)
    rintro rfl
    rw [hset.state, hi] at hprev
    cases hprev
  next => exact hset

theorem schedule (hs : k.schedule = some k') (hi : (k.tasks i).state = .blocked) :
    Rests i k k' := by
  obtain rfl | ⟨n, rfl, hready⟩ := schedule_selects hs
  · exact refl i _
  · exact switchTo hready hi

theorem taskReleaseResources (k : Kernel) {j : Nat} (hij : i ≠ j) :
    Rests i k (k.taskReleaseResources j) := by
  obtain ⟨used, released, heq⟩ := taskReleaseResources_eq k j
  rw [heq]
  exact of_tasks (Nat.le_refl _) rfl (if_neg hij)

theorem fillTask (k : Kernel) {j : Nat} (stack : Nat) (hij : i ≠ j) :
    Rests i k (k.fillTask j stack) := by
  refine of_tasks (Nat.le_refl _) rfl ?_
  simp [Kernel.fillTask, Kernel.setTask, hij]

theorem linkNewTask (k : Kernel) : Rests i k k.linkNewTask := by
  have hcount : Rests i k { k with taskCount := k.taskCount + 1 } :=
    of_tasks (Nat.le_succ _) rfl rfl
  unfold Kernel.linkNewTask
  dsimp only
  split
  · exact ((hcount.trans (setNext _ _ _)).trans (setNext _ _ _)).trans
      (of_tasks (Nat.le_refl _) rfl rfl)
  · exact (hcount.trans (setNext _ _ _)).trans (of_tasks (Nat.le_refl _) rfl rfl)

theorem taskCreate (k : Kernel) (stack : Option Nat) (hi : i < k.taskCount)
    (hlive : (k.tasks i).state ≠ .terminated) : Rests i k (k.taskCreate stack).2 := by
  unfold Kernel.taskCreate
  cases stack with
  | none => exact refl i k
  | some stack =>
    cases hfind : k.findTerminated with
    | some j =>
      have hij : i ≠ j := by
        rintro rfl
        exact hlive (findTerminated_some hfind).2
      exact (taskReleaseResources k hij).trans (fillTask _ stack hij)
    | none =>
      dsimp only
      split
      · exact of_tasks (Nat.le_refl _) rfl rfl
      · exact (linkNewTask k).trans (fillTask _ stack (Nat.ne_of_lt hi))

theorem reapTask (k : Kernel) {j : Nat} (hij : i ≠ j) : Rests i k (k.reapTask j) :=
  (taskReleaseResources k hij).trans (setTask _ _ hij)

end Rests

structure Sleeps (i d : Nat) (k : Kernel) : Prop where
  turning : Turning k
  slot : i < k.taskCount
  blocked : (k.tasks i).state = .blocked
  wakeTick : (k.tasks i).wakeTick = d

theorem Sleeps.not_current (h : Sleeps i d k) : i ≠ k.currentTask := by
  rintro rfl
  have hrun : (k.tasks k.currentTask).state = .running := h.turning.running
  rw [h.blocked] at hrun
  cases hrun

theorem Sleeps.not_terminated (h : Sleeps i d k) : (k.tasks i).state ≠ .terminated := by
  rw [h.blocked]
  decide

theorem Sleeps.rests (h : Sleeps i d k) (hr : Rests i k k') (ht : Turning k') : Sleeps i d k' :=
  ⟨ht, Nat.lt_of_lt_of_le h.slot hr.count, hr.state.trans h.blocked, hr.wakeTick.trans h.wakeTick⟩

theorem Sleeps.rests_call (h : Sleeps i d k) (hne : e ≠ .tick) (hq : scheduleCall k e = some q) :
    Rests i k q := by
  have hcur := h.not_current
  have hgone (exitStatus : Int) (termSignal : Nat) : Rests i k
      ((k.setExit k.currentTask exitStatus termSignal).setState k.currentTask .terminated) := by
    rw [setExit_setState]
    exact Rests.setTask k _ hcur
  cases e with
  | create stack => cases hq
  | exit status =>
    cases hq
    exact hgone _ _
  | fault =>
    cases hq
    exact Rests.setTask k _ hcur
  | kill pid exitStatus termSignal =>
    simp only [scheduleCall] at hq
    split at hq
    next =>
      cases hq
      exact hgone _ _
    next => cases hq
  | waitpid pid options =>
    simp only [scheduleCall] at hq
    split at hq
    next =>
      cases hq
      exact Rests.refl i k
    next => cases hq
  | yield =>
    cases hq
    exact Rests.refl i k
  | sleep ms =>
    simp only [scheduleCall] at hq
    split at hq
    next => cases hq
    next =>
      cases hq
      exact Rests.setTask k _ hcur
  | tick => exact absurd rfl hne

theorem Sleeps.rests_kill (h : Sleeps i d k) {pid : Nat} {exitStatus x : Int} {termSignal : Nat}
    (hspared : diesBy k (.kill pid exitStatus termSignal) ≠ some i)
    (hs : k.taskTerminateByPid pid exitStatus termSignal = some (x, k')) : Rests i k k' := by
  unfold taskTerminateByPid at hs
  cases hfind : k.taskFindByPid pid with
  | none =>
    rw [hfind] at hs
    cases hs
    exact Rests.refl i k
  | some j =>
    simp only [hfind] at hs
    simp only [diesBy, hfind] at hspared
    split at hs
    next =>
      cases hs
      exact Rests.refl i k
    next hidle =>
      split at hs
      next =>
        cases hs
        exact Rests.refl i k
      next hlive =>
        have hij : i ≠ j := by
          rintro rfl
          simp [hidle, hlive] at hspared
        have hset : Rests i k (k.setTask j { k.tasks j with
            exitStatus := exitStatus, termSignal := termSignal, state := .terminated }) :=
          Rests.setTask k _ hij
        split at hs
        next hcur =>
          obtain ⟨p, hp, hx⟩ := Option.map_eq_some_iff.mp hs
          cases hx
          have hsched : (k.setTask j { k.tasks j with
              exitStatus := exitStatus, termSignal := termSignal,
              state := .terminated }).schedule = some k' := by
            subst hcur
            rw [← setExit_setState]
            exact hp
          exact hset.trans (Rests.schedule hsched (hset.state.trans h.blocked))
        next =>
          cases hs
          rw [setExit_setState]
          exact hset

theorem Sleeps.rests_of_no_call (h : Sleeps i d k) (hspared : diesBy k e ≠ some i)
    (hcall : scheduleCall k e = none) (hs : step k e = some k') : Rests i k k' := by
  obtain ⟨r, hr⟩ := step_some hs
  simp only [stepReply] at hr
  split at hr
  next =>
    cases e with
    | create stack =>
      cases hr
      exact Rests.taskCreate k stack h.slot h.not_terminated
    | exit status => cases hcall
    | fault => cases hcall
    | kill pid exitStatus termSignal =>
      obtain ⟨⟨x, q⟩, hx, hq⟩ := Option.map_eq_some_iff.mp hr
      cases hq
      exact h.rests_kill hspared hx
    | waitpid pid options =>
      simp only [scheduleCall] at hcall
      obtain ⟨j, -, hdead, -, heq⟩ | ⟨w, heq, -⟩ := waitpid_effect k pid options
      · simp only [heq] at hr
        cases hr
        refine Rests.reapTask k ?_
        rintro rfl
        exact h.not_terminated hdead
      · simp only [heq] at hr
        cases w with
        | blocked => simp [heq] at hcall
        | reaped p st =>
          cases hr
          exact Rests.refl i k
        | noChild =>
          cases hr
          exact Rests.refl i k
        | again =>
          cases hr
          exact Rests.refl i k
    | yield => cases hcall
    | sleep ms =>
      simp only [scheduleCall] at hcall
      split at hcall
      next hms =>
        simp only [Kernel.sleep, if_pos hms, Option.map_some] at hr
        cases hr
        exact Rests.refl i k
      next => cases hcall
    | tick => cases hcall
  next => cases hr

theorem Sleeps.rests_step (h : Sleeps i d k) (hne : e ≠ .tick) (hspared : diesBy k e ≠ some i)
    (hs : step k e = some k') : Rests i k k' := by
  cases hcall : scheduleCall k e with
  | none => exact h.rests_of_no_call hspared hcall hs
  | some q =>
    have hen : e.enabled k = true := by
      by_contra hen
      simp [step, stepReply, hen] at hs
    rw [step_of_call hen hcall] at hs
    have hrest := h.rests_call hne hcall
    exact hrest.trans (Rests.schedule hs (hrest.state.trans h.blocked))

def ticked (k : Kernel) : Kernel := { k with ticks := (k.ticks + 1) % 2 ^ 32 }

def TickWakes (k : Kernel) (i : Nat) : Prop :=
  (k.tasks i).state = .blocked ∧ ((ticked k).wakeExpired.tasks i).state = .ready

theorem Sleeps.tickWakes_iff (h : Sleeps i d k) : TickWakes k i ↔ d ≤ (k.ticks + 1) % 2 ^ 32 := by
  have hwake : ((ticked k).wakeExpired.tasks i).state =
      if d ≤ (k.ticks + 1) % 2 ^ 32 then TaskState.ready else .blocked := by
    simp only [wakeExpired, ticked, h.slot, h.blocked, h.wakeTick, true_and]
    split
    · rfl
    · exact h.blocked
  rw [TickWakes, hwake]
  simp [h.blocked]

theorem Sleeps.tick (h : Sleeps i d k) (hlate : ¬d ≤ (k.ticks + 1) % 2 ^ 32)
    (hs : step k .tick = some k') : Sleeps i d k' ∧ k'.ticks = (k.ticks + 1) % 2 ^ 32 := by
  have hturn := turning_step h.turning hs
  have hkeep : (ticked k).wakeExpired.tasks i = k.tasks i := by
    simp only [wakeExpired, ticked, h.wakeTick]
    rw [if_neg (fun hc => hlate hc.2.2)]
  rw [step_of_call rfl rfl] at hs
  have hrest : Rests i (ticked k).wakeExpired k' :=
    Rests.schedule hs (by rw [hkeep]; exact h.blocked)
  exact ⟨⟨hturn, Nat.lt_of_lt_of_le h.slot hrest.count, by rw [hrest.state, hkeep, h.blocked],
    by rw [hrest.wakeTick, hkeep, h.wakeTick]⟩, hrest.ticks⟩

-- ready at exactly the `n`-th tick: asleep through every run of fewer ticks, in which no one ends
-- the task, and woken by the tick after it if and only if that is the `n`-th
def ReadyAtTick (k : Kernel) (i n : Nat) : Prop :=
  ∀ es q, Run.Along step (fun k e => diesBy k e ≠ some i) k es → Run.run step k es = some q →
    es.count .tick < n → (q.tasks i).state = .blocked ∧ (TickWakes q i ↔ es.count .tick + 1 = n)

theorem Sleeps.run {n : Nat}
    (hlate : ∀ m, m + 1 < n → ¬d ≤ (k.ticks + (m + 1)) % 2 ^ 32) (hticks : k.ticks < 2 ^ 32) :
    ∀ (es : List Event) (q : Kernel), Sleeps i d k →
      Run.Along step (fun k e => diesBy k e ≠ some i) k es → Run.run step k es = some q →
      es.count .tick < n → Sleeps i d q ∧ q.ticks = (k.ticks + es.count .tick) % 2 ^ 32 := by
  intro es
  induction es generalizing k n with
  | nil =>
    intro q h _ hrun _
    cases hrun
    exact ⟨h, (Nat.mod_eq_of_lt hticks).symm⟩
  | cons e es ih =>
    intro q h hok hrun hcount
    obtain ⟨p, hp, hruns⟩ := Run.run_cons_some.mp hrun
    by_cases he : e = .tick
    · subst he
      rw [List.count_cons_self] at hcount ⊢
      obtain ⟨hsleeps, hpt⟩ := h.tick (hlate 0 (by omega)) hp
      obtain ⟨hq, hqt⟩ := ih (n := n - 1) (k := p) (fun m hm => by
          have hnext := hlate (m + 1) (by omega)
          rw [hpt]
          rwa [Nat.mod_add_mod, Nat.add_assoc, Nat.add_comm 1 (m + 1)])
        (by rw [hpt]; exact Nat.mod_lt _ (by decide)) q hsleeps (hok.2 p hp) hruns (by omega)
      refine ⟨hq, ?_⟩
      rw [hqt, hpt, Nat.mod_add_mod, Nat.add_assoc, Nat.add_comm 1 _]
    · rw [List.count_cons_of_ne he] at hcount ⊢
      have hrest := h.rests_step he hok.1 hp
      rw [← hrest.ticks]
      exact ih (by rw [hrest.ticks]; exact hlate) (by rw [hrest.ticks]; exact hticks) q
        (h.rests hrest (turning_step h.turning hp)) (hok.2 p hp) hruns hcount

theorem Turning.ticks (h : Turning k) : ∀ n, ∃ q, Run.run step k (List.replicate n .tick) = some q := by
  intro n
  induction n generalizing k with
  | zero => exact ⟨k, rfl⟩
  | succ n ih =>
    obtain ⟨p, hp, hturn⟩ := (h.atCall_event (e := .tick) rfl rfl).schedules
    obtain ⟨q, hq⟩ := ih hturn
    exact ⟨q, Run.run_cons_some.mpr ⟨p, (step_of_call rfl rfl).trans hp, hq⟩⟩

theorem along_ticks (i : Nat) : ∀ (n : Nat) (k : Kernel),
    Run.Along step (fun k e => diesBy k e ≠ some i) k (List.replicate n .tick) := by
  intro n
  induction n with
  | zero => exact fun _ => trivial
  | succ n ih => exact fun k => ⟨by simp [diesBy], fun p _ => ih p⟩

theorem Sleeps.readyAtTick_iff (h : Sleeps i d k) (hticks : k.ticks < 2 ^ 32) (n : Nat) :
    ReadyAtTick k i n ↔
      ∀ m < n, (d ≤ (k.ticks + (m + 1)) % 2 ^ 32 ↔ m + 1 = n) := by
  constructor
  · intro hready m
    induction m using Nat.strong_induction_on with
    | _ m ih =>
      intro hm
      have hlate (j : Nat) (hj : j + 1 < m + 1) : ¬d ≤ (k.ticks + (j + 1)) % 2 ^ 32 := by
        rw [ih j (by omega) (by omega)]
        omega
      obtain ⟨q, hq⟩ := h.turning.ticks m
      have hcount : (List.replicate m Event.tick).count .tick = m := List.count_replicate_self
      obtain ⟨hsleeps, hqt⟩ := h.run hlate hticks _ q (along_ticks i m k) hq (by omega)
      obtain ⟨-, hwakes⟩ := hready _ q (along_ticks i m k) hq (by omega)
      rw [hsleeps.tickWakes_iff, hqt, Nat.mod_add_mod, hcount, Nat.add_assoc] at hwakes
      exact hwakes
  · intro hexact es q hok hrun hcount
    have hlate (m : Nat) (hm : m + 1 < n) : ¬d ≤ (k.ticks + (m + 1)) % 2 ^ 32 := by
      rw [hexact m (by omega)]
      omega
    obtain ⟨hsleeps, hqt⟩ := h.run hlate hticks es q hok hrun hcount
    refine ⟨hsleeps.blocked, ?_⟩
    rw [hsleeps.tickWakes_iff, hqt, Nat.mod_add_mod, Nat.add_assoc]
    exact hexact _ hcount

def ticksToWait (ms : Nat) : Nat :=
  if ms * 100 % 2 ^ 32 / 1000 = 0 then 1 else ms * 100 % 2 ^ 32 / 1000

theorem Turning.sleeps {ms : Nat} (h : Turning k) (hms : 0 < ms)
    (hs : step k (.sleep ms) = some k') :
    Sleeps k.currentTask ((k.ticks + ticksToWait ms) % 2 ^ 32) k' ∧ k'.ticks = k.ticks := by
  have hen : (Event.sleep ms).enabled k = true := by
    by_contra hen
    simp [step, stepReply, hen] at hs
  have hturn := turning_step h hs
  obtain ⟨q, hq⟩ : ∃ q, q = k.setTask k.currentTask { k.current with
    state := .blocked, wakeTick := (k.ticks + ticksToWait ms) % 2 ^ 32 } := ⟨_, rfl⟩
  have hcall : scheduleCall k (.sleep ms) = some q := by
    rw [hq]
    exact if_neg (Nat.ne_of_gt hms)
  rw [step_of_call hen hcall] at hs
  have hset : q.tasks k.currentTask = { k.current with
      state := .blocked, wakeTick := (k.ticks + ticksToWait ms) % 2 ^ 32 } := by
    rw [hq, setTask_tasks_same]
  have hrest : Rests k.currentTask q k' := Rests.schedule hs (by rw [hset])
  refine ⟨⟨hturn, ?_, by rw [hrest.state, hset], by rw [hrest.wakeTick, hset]⟩, ?_⟩
  · have hcur : k.currentTask < k.taskCount := h.cur
    refine Nat.lt_of_lt_of_le hcur ?_
    rw [hq] at hrest
    exact hrest.count
  · rw [hrest.ticks, hq]
    rfl

theorem ticksToWait_eq {ms : Nat} (hms : ms * 100 < 2 ^ 32) :
    ticksToWait ms = max 1 (ms / 10) := by
  rw [ticksToWait, Nat.mod_eq_of_lt hms]
  split <;> omega

theorem ticksToWait_short {ms : Nat} (hms : 2 ^ 32 ≤ ms * 100) :
    0 < ticksToWait ms ∧ ticksToWait ms < max 1 (ms / 10) := by
  have hmod : ms * 100 % 2 ^ 32 + 2 ^ 32 ≤ ms * 100 := by
    have hdiv := Nat.div_add_mod (ms * 100) (2 ^ 32)
    have hone : 1 ≤ ms * 100 / 2 ^ 32 := Nat.div_pos hms (by decide)
    omega
  unfold ticksToWait
  split <;> omega

-- the unsigned deadline test first succeeds at the tick meant for it
theorem deadline_exact_iff {t ms : Nat} (ht : t < 2 ^ 32) (hms : ms < 2 ^ 32) :
    (∀ m < max 1 (ms / 10),
      ((t + ticksToWait ms) % 2 ^ 32 ≤ (t + (m + 1)) % 2 ^ 32 ↔ m + 1 = max 1 (ms / 10))) ↔
      ms * 100 < 2 ^ 32 ∧ (t + max 1 (ms / 10) < 2 ^ 32 ∨ t = 2 ^ 32 - 1) := by
  constructor
  · intro hexact
    by_cases hfits : ms * 100 < 2 ^ 32
    · refine ⟨hfits, ?_⟩
      by_contra hwrap
      have hfirst := hexact 0 (by omega)
      rw [ticksToWait_eq hfits] at hfirst
      omega
    · obtain ⟨hpos, hshort⟩ := ticksToWait_short (Nat.le_of_not_lt hfits)
      have hearly := hexact (ticksToWait ms - 1) (by omega)
      rw [Nat.sub_add_cancel hpos] at hearly
      omega
  · rintro ⟨hfits, hclose⟩ m hm
    rw [ticksToWait_eq hfits]
    omega

end HouseOS.Sched
