import HouseOS.Sched.Wait

namespace HouseOS.Sched

open Kernel

variable {k q k' : Kernel} {e : Event} {r : Reply} {i n : Nat}

section Order

def after (k : Kernel) (i : Nat) : Nat := (k.tasks i).next

theorem Ring.after_iterate (h : Ring k) (hi : i < k.taskCount) (m : Nat) :
    (after k)^[m] i = (i + m) % k.taskCount := by
  have hpos : 0 < k.taskCount := by
    have := h.two
    omega
  induction m with
  | zero => exact (Nat.mod_eq_of_lt hi).symm
  | succ m ih =>
    have hlt := Nat.mod_lt (i + m) hpos
    rw [Function.iterate_succ_apply', ih, after, h.next _ hlt, ← Nat.add_assoc,
      ← Nat.mod_add_mod (i + m) k.taskCount 1]
    split
    next heq => rw [heq, Nat.mod_self]
    next hne => exact (Nat.mod_eq_of_lt (by omega)).symm

theorem wrap_eq {a m n : Nat} (ha : a < n) (hm : m < n) :
    (a + m) % n = if a + m < n then a + m else a + m - n := by
  split
  next hlt => exact Nat.mod_eq_of_lt hlt
  next hge => rw [Nat.mod_eq_sub_mod (by omega), Nat.mod_eq_of_lt (by omega)]

theorem Ring.visits_once (h : Ring k) (hi : i < k.taskCount) {j : Nat} (hj : j < k.taskCount) :
    ∃! m, m < k.taskCount ∧ (after k)^[m] i = j := by
  refine ⟨if i ≤ j then j - i else j + k.taskCount - i, ⟨?_, ?_⟩, ?_⟩
  · split <;> omega
  · rw [h.after_iterate hi, wrap_eq hi (by split <;> omega)]
    split <;> split <;> omega
  · rintro m ⟨hm, heq⟩
    rw [h.after_iterate hi, wrap_eq hi hm] at heq
    split at heq <;> split <;> omega

theorem Ring.returns (h : Ring k) (hi : i < k.taskCount) : (after k)^[k.taskCount] i = i := by
  rw [h.after_iterate hi, Nat.add_mod_right, Nat.mod_eq_of_lt hi]

end Order

section Select

theorem schedScan_ready (k : Kernel) : ∀ (fuel at_ : Nat) (firstIdle : Option Nat) (n : Nat),
    (∀ i, firstIdle = some i → (k.tasks i).state = .ready) →
    k.schedScan fuel at_ firstIdle = some (some n) → (k.tasks n).state = .ready := by
  intro fuel
  induction fuel with
  | zero =>
    intro at_ firstIdle n _ hscan
    cases hscan
  | succ fuel ih =>
    intro at_ firstIdle n hidle hscan
    simp only [schedScan] at hscan
    by_cases hready : (k.tasks (k.tasks at_).next).state = .ready
    · have hidle' : ∀ i, (firstIdle <|> some (k.tasks at_).next) = some i →
          (k.tasks i).state = .ready := by
        intro i hi
        cases firstIdle with
        | none =>
          cases hi
          exact hready
        | some p => exact hidle i hi
      rw [if_pos hready] at hscan
      split at hscan
      · split at hscan
        · exact ih _ _ n hidle' hscan
        · exact hidle' n (Option.some.inj hscan)
      · cases hscan
        exact hready
    · rw [if_neg hready] at hscan
      split at hscan
      · exact ih _ _ n hidle hscan
      · exact hidle n (Option.some.inj hscan)

theorem schedule_selects (hs : q.schedule = some k') :
    k' = q ∨ ∃ n, k' = q.switchTo n ∧ (q.tasks n).state = .ready := by
  unfold schedule at hs
  split at hs
  next => cases hs
  next =>
    cases hs
    exact Or.inl rfl
  next n hscan =>
    cases hs
    exact Or.inr ⟨n, rfl, schedScan_ready q _ _ none n (by simp) hscan⟩

theorem schedule_selects_ready (hs : q.schedule = some k') :
    k' = q ∨ (q.tasks k'.currentTask).state = .ready := by
  rcases schedule_selects hs with heq | ⟨n, rfl, hready⟩
  · exact Or.inl heq
  · rw [switchTo_currentTask]
    exact Or.inr hready

end Select

section Running

def Exclusive (k : Kernel) : Prop := ∀ j, (k.tasks j).state = .running → j = k.currentTask

structure NoneStarts (k q : Kernel) : Prop where
  current : q.currentTask = k.currentTask
  running : ∀ j, (q.tasks j).state = .running → (k.tasks j).state = .running

theorem NoneStarts.refl (k : Kernel) : NoneStarts k k := ⟨rfl, fun _ h => h⟩

theorem NoneStarts.trans (h : NoneStarts k q) (g : NoneStarts q k') : NoneStarts k k' :=
  ⟨g.current.trans h.current, fun j hj => h.running j (g.running j hj)⟩

theorem NoneStarts.setTask (k : Kernel) (i : Nat) (t : Task)
    (ht : t.state = .running → (k.tasks i).state = .running) : NoneStarts k (k.setTask i t) where
  current := rfl
  running j hj := by
    by_cases hji : j = i
    · subst hji
      rw [setTask_tasks_same] at hj
      exact ht hj
    · rwa [setTask_tasks_ne k t hji] at hj

theorem NoneStarts.setState (k : Kernel) (i : Nat) (s : TaskState) (hs : s ≠ .running) :
    NoneStarts k (k.setState i s) :=
  NoneStarts.setTask k i _ (fun h => absurd h hs)

theorem NoneStarts.setExit (k : Kernel) (i : Nat) (exitStatus : Int) (termSignal : Nat) :
    NoneStarts k (k.setExit i exitStatus termSignal) :=
  NoneStarts.setTask k i _ (fun h => h)

theorem Exclusive.of_noneStarts (h : Exclusive k) (g : NoneStarts k q) : Exclusive q := by
  intro j hj
  rw [g.current]
  exact h j (g.running j hj)

theorem Exclusive.schedule (h : Exclusive k) (g : NoneStarts k q)
    (hnot : (q.tasks q.currentTask).state ≠ .ready) (hs : q.schedule = some k') :
    Exclusive k' := by
  have hq := h.of_noneStarts g
  rcases schedule_selects hs with rfl | ⟨n, rfl, hready⟩
  · exact hq
  · have hne : n ≠ q.currentTask := fun heq => hnot (heq ▸ hready)
    intro j hj
    rw [switchTo_currentTask]
    rw [switchTo_state hne] at hj
    by_cases hjn : j = n
    · exact hjn
    · rw [if_neg hjn] at hj
      split at hj
      next => cases hj
      next hold => exact absurd ⟨hq j hj, hj⟩ hold

theorem noneStarts_release (k : Kernel) (i : Nat) : NoneStarts k (k.taskReleaseResources i) := by
  obtain ⟨used, released, heq⟩ := taskReleaseResources_eq k i
  rw [heq]
  refine ⟨rfl, fun j hj => ?_⟩
  by_cases hji : j = i
  · subst hji
    simpa using hj
  · simpa [hji] using hj

theorem noneStarts_fill (k : Kernel) (i stack : Nat) : NoneStarts k (k.fillTask i stack) := by
  refine ⟨rfl, fun j hj => ?_⟩
  by_cases hji : j = i
  · simp [fillTask, setTask, hji] at hj
  · simpa [fillTask, setTask, hji] using hj

theorem linkNewTask_state (k : Kernel) (j : Nat) :
    (k.linkNewTask.tasks j).state = (k.tasks j).state := by
  unfold linkNewTask
  dsimp only
  split
  next =>
    simp only [Kernel.setTask]
    split_ifs <;> simp_all
  next =>
    simp only [Kernel.setTask]
    split_ifs <;> simp_all

theorem noneStarts_link (k : Kernel) : NoneStarts k k.linkNewTask := by
  refine ⟨?_, fun j hj => linkNewTask_state k j ▸ hj⟩
  unfold linkNewTask
  dsimp only
  split <;> rfl

theorem noneStarts_create (k : Kernel) (stack : Option Nat) : NoneStarts k (k.taskCreate stack).2 := by
  cases stack with
  | none => exact NoneStarts.refl k
  | some stack =>
    simp only [taskCreate]
    split
    next i _ => exact (noneStarts_release k i).trans (noneStarts_fill _ i stack)
    next =>
      split
      next => exact ⟨rfl, fun _ h => h⟩
      next => exact (noneStarts_link k).trans (noneStarts_fill _ _ stack)

theorem noneStarts_wake (k : Kernel) : NoneStarts k k.wakeExpired := by
  refine ⟨rfl, fun j hj => ?_⟩
  simp only [wakeExpired] at hj
  split at hj
  next => cases hj
  next => exact hj

theorem noneStarts_reap (k : Kernel) (i : Nat) : NoneStarts k (k.reapTask i) :=
  (noneStarts_release k i).trans (NoneStarts.setTask _ _ _ (fun h => by cases h))

theorem exclusive_exit (hx : Exclusive k) (g : NoneStarts k q)
    (hs : q.taskExit = some k') : Exclusive k' :=
  hx.schedule (g.trans (NoneStarts.setState q _ .terminated (by simp)))
    (by show ((q.setState q.currentTask .terminated).tasks q.currentTask).state ≠ .ready
        rw [setState_state, if_pos rfl]
        simp) hs

theorem exclusive_kill (hx : Exclusive k) {pid : Nat} {exitStatus x : Int} {termSignal : Nat}
    (hs : k.taskTerminateByPid pid exitStatus termSignal = some (x, k')) : Exclusive k' := by
  unfold taskTerminateByPid at hs
  cases hfind : k.taskFindByPid pid with
  | none =>
    rw [hfind] at hs
    cases hs
    exact hx
  | some i =>
    rw [hfind] at hs
    dsimp only at hs
    split at hs
    next => cases hs; exact hx
    next =>
      split at hs
      next => cases hs; exact hx
      next =>
        split at hs
        next =>
          obtain ⟨k₁, hexit, heq⟩ := Option.map_eq_some_iff.mp hs
          cases heq
          exact exclusive_exit hx (NoneStarts.setExit k i exitStatus termSignal) hexit
        next =>
          cases hs
          exact hx.of_noneStarts ((NoneStarts.setExit k i exitStatus termSignal).trans
            (NoneStarts.setState _ i .terminated (by simp)))

theorem exclusive_sleep (hx : Exclusive k) {ms : Nat} (hs : k.sleep ms = some k') :
    Exclusive k' := by
  unfold Kernel.sleep at hs
  split at hs
  next => cases hs; exact hx
  next =>
    refine hx.schedule (NoneStarts.setTask k _ _ (fun hc => by cases hc)) ?_ hs
    show ((k.setTask k.currentTask _).tasks k.currentTask).state ≠ .ready
    simp

theorem exclusive_tick (h : Sound k) (hx : Exclusive k) (hs : k.timerHandler = some k') :
    Exclusive k' := by
  let q : Kernel := { k with ticks := (k.ticks + 1) % 2 ^ 32 }
  have hq : NoneStarts k q := ⟨rfl, fun _ hj => hj⟩
  have hrun : (q.tasks k.currentTask).state = .running := h.running
  refine hx.schedule (hq.trans (noneStarts_wake q)) ?_ hs
  show (q.wakeExpired.tasks k.currentTask).state ≠ .ready
  rw [wakeExpired_state (by simp [hrun]), hrun]
  simp

theorem exclusive_step (h : Sound k) (hx : Exclusive k) (hs : stepReply k e = some (r, k')) :
    Exclusive k' := by
  have hyield : ∀ k₁, k.schedule = some k₁ → Exclusive k₁ := fun k₁ hk =>
    hx.schedule (NoneStarts.refl k) (by rw [h.running]; simp) hk
  unfold stepReply at hs
  split at hs
  next =>
    cases e with
    | create stack =>
      cases hs
      exact hx.of_noneStarts (noneStarts_create k stack)
    | exit status =>
      obtain ⟨k₁, hexit, heq⟩ := Option.map_eq_some_iff.mp hs
      cases heq
      exact exclusive_exit hx (NoneStarts.setExit k _ status 0) hexit
    | fault =>
      obtain ⟨k₁, hexit, heq⟩ := Option.map_eq_some_iff.mp hs
      cases heq
      exact exclusive_exit hx (NoneStarts.refl k) hexit
    | kill pid exitStatus termSignal =>
      obtain ⟨⟨x, k₁⟩, hkill, heq⟩ := Option.map_eq_some_iff.mp hs
      cases heq
      exact exclusive_kill hx hkill
    | waitpid pid options =>
      rcases waitpid_effect k pid options with ⟨i, _, _, _, heq⟩ | ⟨w, heq, hw⟩
      · simp only [heq] at hs
        cases hs
        exact hx.of_noneStarts (noneStarts_reap k i)
      · simp only [heq] at hs
        cases w with
        | blocked =>
          obtain ⟨k₁, hsched, heq⟩ := Option.map_eq_some_iff.mp hs
          cases heq
          exact hyield _ hsched
        | reaped p st => exact absurd rfl (hw p st)
        | noChild => cases hs; exact hx
        | again => cases hs; exact hx
    | yield =>
      obtain ⟨k₁, hsched, heq⟩ := Option.map_eq_some_iff.mp hs
      cases heq
      exact hyield _ hsched
    | sleep ms =>
      obtain ⟨k₁, hsleep, heq⟩ := Option.map_eq_some_iff.mp hs
      cases heq
      exact exclusive_sleep hx hsleep
    | tick =>
      obtain ⟨k₁, htick, heq⟩ := Option.map_eq_some_iff.mp hs
      cases heq
      exact exclusive_tick h hx htick
  next => cases hs

end Running

section Pids

def Named (k : Kernel) : Prop :=
  ∀ i < k.taskCount, (k.tasks i).pid = 0 → (k.tasks i).state = .terminated

theorem named_step (h : Sound k) (hn : Named k) (heff : Effect k e r k') : Named k' := by
  intro j hj hpid
  cases heff with
  | quiet hq _ =>
    rw [hq.pid] at hpid
    exact (hq.dead j (hn j (hq.count ▸ hj) hpid)).1
  | ends hso _ _ =>
    rw [hso.pid] at hpid
    exact (hso.dead j (hn j (hso.count ▸ hj) hpid)).1
  | @renew _ i _ _ hren _ _ hold _ =>
    by_cases hji : j = i
    · rw [hji, hren.pid] at hpid
      have hbelow := h.pidBelow _ h.cur
      omega
    · obtain ⟨hp, _, hst, _⟩ := hren.other j hji
      rw [hst]
      exact hn j (hold j hj hji) (hp ▸ hpid)
  | @reap i _ _ _ =>
    obtain ⟨hren, hcount, _, _, _, hdead⟩ := reapTask_renewed k i
    by_cases hji : j = i
    · rw [hji, hdead]
    · obtain ⟨hp, _, hst, _⟩ := hren.other j hji
      rw [hst]
      exact hn j (hcount ▸ hj) (hp ▸ hpid)

end Pids

section Invariant

structure SchedulerInvariant (k : Kernel) : Prop where
  ring : ∀ i < k.taskCount, (∀ j < k.taskCount, ∃! m, m < k.taskCount ∧ (after k)^[m] i = j) ∧
    (after k)^[k.taskCount] i = i
  current : k.currentTask < k.taskCount
  running : ∀ i < k.taskCount, (k.tasks i).state = .running ↔ i = k.currentTask
  idle : (k.tasks k.idleTask).state ≠ .blocked ∧ (k.tasks k.idleTask).state ≠ .terminated
  pids : ∀ i < k.taskCount, ∀ j < k.taskCount, (k.tasks i).state ≠ .terminated →
    (k.tasks j).state ≠ .terminated → (k.tasks i).pid = (k.tasks j).pid → i = j

structure Settled (k : Kernel) : Prop extends Sound k where
  exclusive : Exclusive k
  named : Named k

theorem Settled.invariant (h : Settled k) : SchedulerInvariant k where
  ring _ hi := ⟨fun _ hj => h.visits_once hi hj, h.returns hi⟩
  current := h.cur
  running i _ := ⟨h.exclusive i, fun heq => heq ▸ h.running⟩
  idle := by
    rw [h.idle]
    rcases h.idleState with hs | ⟨_, hs⟩ <;> simp [hs]
  pids i hi j hj hlive _ heq :=
    h.pidUnique i hi j hj heq (fun h0 => hlive (h.named i hi h0))

theorem settled_step (h : Settled k) (hg : PidsLeft k e) (hs : step k e = some k') :
    Settled k' := by
  obtain ⟨r, hr⟩ := step_some hs
  have hen : e.enabled k = true := by
    by_contra hen
    simp [stepReply, hen] at hr
  obtain ⟨r', q, hq, hsound, heff⟩ := stepReply_total h.toSound hg hen
  rw [hr] at hq
  cases hq
  exact ⟨hsound, exclusive_step h.toSound h.exclusive hr, named_step h.toSound h.named heff⟩

theorem settled_taskInit (kernelCr3 idleStack : Nat) : Settled (taskInit kernelCr3 idleStack) where
  toSound := sound_taskInit kernelCr3 idleStack
  exclusive j hj := by
    simp only [taskInit] at hj ⊢
    split at hj
    next => cases hj
    next =>
      split at hj
      next h => exact h
      next => cases hj
  named i hi hpid := by
    have hi : i < 2 := hi
    obtain rfl | rfl : i = 0 ∨ i = 1 := by omega
    · cases hpid
    · cases hpid

theorem scheduler_invariant (kernelCr3 idleStack : Nat) (es : List Event) (k : Kernel)
    (hg : Run.Along step PidsLeft (taskInit kernelCr3 idleStack) es)
    (hrun : Run.run step (taskInit kernelCr3 idleStack) es = some k) :
    SchedulerInvariant k ∧
      (∀ e, PidsLeft k e → e.enabled k = true → ∃ k', step k e = some k') ∧
      ∀ q k' : Kernel, q.schedule = some k' → k' = q ∨ (q.tasks k'.currentTask).state = .ready := by
  have hset := Run.run_invariant (fun _ _ _ => settled_step) es _ k
    (settled_taskInit kernelCr3 idleStack) hg hrun
  refine ⟨hset.invariant, ?_, fun _ _ => schedule_selects_ready⟩
  intro e he hen
  obtain ⟨r, k', hr, _⟩ := stepReply_total hset.toSound he hen
  exact ⟨k', by simp [step, hr]⟩

theorem scheduler_invariant_spawn_exit_wait :
    ∃ k, Run.run step (taskInit 4096 8192)
        [.create (some 16384), .yield, .exit 3, .waitpid 3 1, .sleep 20, .tick] = some k ∧
      SchedulerInvariant k := by
  have hg : Run.Along step PidsLeft (taskInit 4096 8192)
      [.create (some 16384), .yield, .exit 3, .waitpid 3 1, .sleep 20, .tick] := by
    refine ⟨?_, fun _ _ => ⟨?_, fun _ _ => ⟨?_, fun _ _ => ⟨?_, fun _ _ => ⟨?_, fun _ _ =>
      ⟨?_, fun _ _ => trivial⟩⟩⟩⟩⟩⟩
    · intro _ _
      show 3 + 1 < 2 ^ 32
      decide
    all_goals
      intro stack h
      cases h
  have hsome : (Run.run step (taskInit 4096 8192)
      [.create (some 16384), .yield, .exit 3, .waitpid 3 1, .sleep 20, .tick]).isSome = true := rfl
  obtain ⟨k, hk⟩ := Option.isSome_iff_exists.mp hsome
  exact ⟨k, hk, (scheduler_invariant 4096 8192 _ k hg hk).1⟩

end Invariant

end HouseOS.Sched
