import HouseOS.Sched.RunQueue

namespace HouseOS.Sched

open Kernel

-- nothing a task holds changes hands, and `d` alone dies
structure Held (k k' : Kernel) (d : Option Nat) : Prop where
  count : k'.taskCount = k.taskCount
  kernelCr3 : k'.kernelCr3 = k.kernelCr3
  used : k'.userSlotUsed = k.userSlotUsed
  userSlot : ∀ j, (k'.tasks j).userSlot = (k.tasks j).userSlot
  userPhys : ∀ j, (k'.tasks j).userPhysBase = (k.tasks j).userPhysBase
  cr3 : ∀ j, (k'.tasks j).cr3 = (k.tasks j).cr3
  dead : ∀ j, (k'.tasks j).state = .terminated ↔ (k.tasks j).state = .terminated ∨ d = some j

structure Cleared (k k' : Kernel) (i : Nat) : Prop where
  kernelCr3 : k'.kernelCr3 = k.kernelCr3
  userSlot : ∀ j, (k'.tasks j).userSlot = if j = i then noSlot else (k.tasks j).userSlot
  cr3 : ∀ j, (k'.tasks j).cr3 = if j = i then k.kernelCr3 else (k.tasks j).cr3
  dead : ∀ j, j ≠ i → ((k'.tasks j).state = .terminated ↔ (k.tasks j).state = .terminated)

section Quiet

variable {k k' q : Kernel} {d : Option Nat} {i : Nat}

theorem Held.refl (k : Kernel) : Held k k none :=
  ⟨rfl, rfl, rfl, fun _ => rfl, fun _ => rfl, fun _ => rfl, fun _ => by simp⟩

theorem Held.trans (h : Held k q d) (g : Held q k' none) : Held k k' d where
  count := g.count.trans h.count
  kernelCr3 := g.kernelCr3.trans h.kernelCr3
  used := g.used.trans h.used
  userSlot j := (g.userSlot j).trans (h.userSlot j)
  userPhys j := (g.userPhys j).trans (h.userPhys j)
  cr3 j := (g.cr3 j).trans (h.cr3 j)
  dead j := by
    rw [g.dead, h.dead]
    simp

theorem Held.of_set (k : Kernel) (i : Nat) {t : Task} (hslot : t.userSlot = (k.tasks i).userSlot)
    (hphys : t.userPhysBase = (k.tasks i).userPhysBase) (hcr3 : t.cr3 = (k.tasks i).cr3)
    (hdead : t.state = .terminated ↔ (k.tasks i).state = .terminated) :
    Held k (k.setTask i t) none := by
  refine ⟨rfl, rfl, rfl, ?_, ?_, ?_, ?_⟩
  all_goals
    intro j
    by_cases hj : j = i
    · subst hj
      simp [hslot, hphys, hcr3, hdead]
    · simp [setTask, hj]

theorem Held.of_setState (k : Kernel) (i : Nat) {t : TaskState} (hi : (k.tasks i).state ≠ .terminated)
    (ht : t ≠ .terminated) : Held k (k.setState i t) none :=
  Held.of_set k i rfl rfl rfl ⟨fun h => absurd h ht, fun h => absurd h hi⟩

theorem Held.of_terminated (k : Kernel) (i : Nat) : Held k (k.setState i .terminated) (some i) := by
  refine ⟨rfl, rfl, rfl, ?_, ?_, ?_, ?_⟩
  all_goals
    intro j
    by_cases hj : j = i
    · subst hj
      simp [setState]
    · simp [setState, setTask, hj, Ne.symm hj]

theorem held_setExit (k : Kernel) (i : Nat) (exitStatus : Int) (termSignal : Nat) :
    Held k (k.setExit i exitStatus termSignal) none :=
  Held.of_set k i rfl rfl rfl Iff.rfl

theorem held_switchTo {n : Nat} (hn : (k.tasks n).state = .ready) : Held k (k.switchTo n) none := by
  have hcur : Held k { k with currentTask := n } none :=
    ⟨rfl, rfl, rfl, fun _ => rfl, fun _ => rfl, fun _ => rfl, fun _ => by simp⟩
  have hlive : ({ k with currentTask := n }.tasks n).state ≠ .terminated := by
    show (k.tasks n).state ≠ .terminated
    rw [hn]
    decide
  have hrun := hcur.trans (Held.of_setState { k with currentTask := n } n hlive
    (show TaskState.running ≠ .terminated by decide))
  unfold switchTo
  dsimp only
  split
  · rename_i hprev
    exact hrun.trans (Held.of_setState _ _ (by rw [hprev]; decide) (by decide))
  · exact hrun

theorem held_schedule (hs : k.schedule = some k') : Held k k' none := by
  rcases schedule_selects hs with rfl | ⟨n, rfl, hready⟩
  · exact Held.refl _
  · exact held_switchTo hready

theorem held_wakeExpired (k : Kernel) : Held k k.wakeExpired none := by
  refine ⟨rfl, rfl, rfl, ?_, ?_, ?_, ?_⟩
  all_goals
    intro j
    simp only [wakeExpired]
    split
    · rename_i hwake
      simp [hwake.2.1]
    · simp

theorem held_taskExit (hs : k.taskExit = some k') : Held k k' (some k.currentTask) :=
  (Held.of_terminated k k.currentTask).trans (held_schedule hs)

theorem Held.before (h : Held k q none) (g : Held q k' d) : Held k k' d where
  count := g.count.trans h.count
  kernelCr3 := g.kernelCr3.trans h.kernelCr3
  used := g.used.trans h.used
  userSlot j := (g.userSlot j).trans (h.userSlot j)
  userPhys j := (g.userPhys j).trans (h.userPhys j)
  cr3 j := (g.cr3 j).trans (h.cr3 j)
  dead j := by
    rw [g.dead, h.dead]
    simp

theorem held_exit {exitStatus : Int} {termSignal : Nat}
    (hs : (k.setExit k.currentTask exitStatus termSignal).taskExit = some k') :
    Held k k' (some k.currentTask) :=
  (held_setExit k _ exitStatus termSignal).before (held_taskExit hs)

theorem held_kill {pid : Nat} {exitStatus x : Int} {termSignal : Nat}
    (hs : k.taskTerminateByPid pid exitStatus termSignal = some (x, k')) :
    Held k k' (diesBy k (.kill pid exitStatus termSignal)) := by
  unfold taskTerminateByPid at hs
  unfold diesBy
  split at hs
  · rename_i hnone
    cases hs
    simp only [hnone]
    exact Held.refl k
  rename_i i hi
  simp only [hi]
  split at hs
  · rename_i hidle
    cases hs
    rw [if_pos (Or.inl hidle)]
    exact Held.refl k
  rename_i hidle
  split at hs
  · rename_i hdead
    cases hs
    rw [if_pos (Or.inr hdead)]
    exact Held.refl k
  rename_i hdead
  rw [if_neg (not_or.mpr ⟨hidle, hdead⟩)]
  split at hs
  · rename_i hcur
    obtain ⟨q, hq, heq⟩ := Option.map_eq_some_iff.mp hs
    cases heq
    subst hcur
    exact held_exit hq
  · cases hs
    exact (held_setExit k i exitStatus termSignal).before (Held.of_terminated _ i)

theorem held_sleep {ms : Nat} (hlive : k.current.state ≠ .terminated) (hs : k.sleep ms = some k') :
    Held k k' none := by
  unfold sleep at hs
  split at hs
  · cases hs
    exact Held.refl k
  · refine (Held.of_set k k.currentTask ?_ ?_ ?_ ?_).trans (held_schedule hs)
    · rfl
    · rfl
    · rfl
    · exact ⟨nofun, fun h => absurd h hlive⟩

theorem held_tick (hs : k.timerHandler = some k') : Held k k' none := by
  have hclock : Held k { k with ticks := (k.ticks + 1) % 2 ^ 32 } none :=
    ⟨rfl, rfl, rfl, fun _ => rfl, fun _ => rfl, fun _ => rfl, fun _ => by simp⟩
  exact (hclock.trans (held_wakeExpired _)).trans (held_schedule hs)

end Quiet

section Release

variable {k k' : Kernel} {i : Nat}

theorem userSlotFree_used (k : Kernel) (slot x : Nat) (hx : x < userSlotCount) :
    (k.userSlotFree slot).userSlotUsed x = true ↔ k.userSlotUsed x = true ∧ x ≠ slot := by
  unfold userSlotFree
  split
  · have hne : x ≠ slot := by omega
    simp [hne]
  · by_cases h : x = slot
    · simp [h]
    · simp [h]

theorem release_used (k : Kernel) (i : Nat) {x : Nat} (hx : x < userSlotCount) :
    (k.taskReleaseResources i).userSlotUsed x = true ↔
      k.userSlotUsed x = true ∧ x ≠ (k.tasks i).userSlot := by
  obtain ⟨q, hq⟩ : ∃ q, q = if (k.tasks i).cr3 ≠ 0 ∧ (k.tasks i).cr3 ≠ k.kernelCr3 then
    k.releasePtr (k.tasks i).cr3 else k := ⟨_, rfl⟩
  have hused : q.userSlotUsed = k.userSlotUsed := by
    rw [hq]
    split <;> rfl
  have hall : (k.taskReleaseResources i).userSlotUsed =
      (if (k.tasks i).userSlot ≠ noSlot then q.userSlotFree (k.tasks i).userSlot else q).userSlotUsed := by
    rw [hq]
    unfold taskReleaseResources
    dsimp only
    cases (k.tasks i).stack <;> rfl
  rw [hall, ← hused]
  split
  · exact userSlotFree_used q _ x hx
  · rename_i hno
    have hfar : x ≠ (k.tasks i).userSlot := by
      rw [not_not.mp hno, noSlot]
      simp only [userSlotCount] at hx
      omega
    exact ⟨fun h => ⟨h, hfar⟩, fun h => h.1⟩

theorem cleared_release (k : Kernel) (i : Nat) : Cleared k (k.taskReleaseResources i) i := by
  obtain ⟨used, released, heq⟩ := taskReleaseResources_eq k i
  rw [heq]
  refine ⟨rfl, fun j => ?_, fun j => ?_, fun j hj => ?_⟩
  · by_cases hj : j = i <;> simp [hj]
  · by_cases hj : j = i <;> simp [hj]
  · simp [hj]

theorem Cleared.of_set (h : Cleared k k' i) {t : Task} (hslot : t.userSlot = noSlot)
    (hcr3 : t.cr3 = k.kernelCr3) : Cleared k (k'.setTask i t) i := by
  refine ⟨h.kernelCr3, fun j => ?_, fun j => ?_, fun j hj => ?_⟩
  · by_cases hj : j = i
    · subst hj
      simp [hslot]
    · rw [setTask_tasks_ne k' t hj, h.userSlot]
  · by_cases hj : j = i
    · subst hj
      simp [hcr3]
    · rw [setTask_tasks_ne k' t hj, h.cr3]
  · rw [setTask_tasks_ne k' t hj]
    exact h.dead j hj

theorem cleared_reap (k : Kernel) (i : Nat) : Cleared k (k.reapTask i) i :=
  (cleared_release k i).of_set (by rw [(cleared_release k i).userSlot, if_pos rfl])
    (by rw [(cleared_release k i).cr3, if_pos rfl])

theorem reap_used (k : Kernel) (i : Nat) {x : Nat} (hx : x < userSlotCount) :
    (k.reapTask i).userSlotUsed x = true ↔
      k.userSlotUsed x = true ∧ x ≠ (k.tasks i).userSlot := release_used k i hx

theorem Cleared.fill (h : Cleared k k' i) (stack : Nat) : Cleared k (k'.fillTask i stack) i := by
  refine ⟨h.kernelCr3, fun j => ?_, fun j => ?_, fun j hj => ?_⟩
  · by_cases hj : j = i
    · simp [fillTask, setTask, hj]
    · simp [fillTask, setTask, hj, h.userSlot]
  · by_cases hj : j = i
    · simp [fillTask, setTask, hj, h.kernelCr3]
    · simp [fillTask, setTask, hj, h.cr3]
  · simp [fillTask, setTask, hj, h.dead j hj]

theorem linkNewTask_holds (k : Kernel) (j : Nat) :
    (k.linkNewTask.tasks j).userSlot = (k.tasks j).userSlot ∧
      (k.linkNewTask.tasks j).cr3 = (k.tasks j).cr3 ∧
      (k.linkNewTask.tasks j).userPhysBase = (k.tasks j).userPhysBase := by
  have hset : ∀ (q : Kernel) (i n : Nat),
      ((q.setTask i { q.tasks i with next := n }).tasks j).userSlot = (q.tasks j).userSlot ∧
      ((q.setTask i { q.tasks i with next := n }).tasks j).cr3 = (q.tasks j).cr3 ∧
      ((q.setTask i { q.tasks i with next := n }).tasks j).userPhysBase = (q.tasks j).userPhysBase := by
    intro q i n
    by_cases hj : j = i <;> simp [setTask, hj]
  unfold linkNewTask
  dsimp only
  split
  · rename_i h tl _ _
    obtain ⟨h1, h2, h3⟩ := hset { k with taskCount := k.taskCount + 1 } k.taskCount h
    obtain ⟨g1, g2, g3⟩ := hset (({ k with taskCount := k.taskCount + 1 } : Kernel).setTask k.taskCount
      { k.tasks k.taskCount with next := h }) tl k.taskCount
    exact ⟨g1.trans h1, g2.trans h2, g3.trans h3⟩
  · exact hset { k with taskCount := k.taskCount + 1 } k.taskCount k.taskCount

theorem linkNewTask_same (k : Kernel) :
    k.linkNewTask.userSlotUsed = k.userSlotUsed ∧ k.linkNewTask.kernelCr3 = k.kernelCr3 ∧
      k.linkNewTask.taskCount = k.taskCount + 1 := by
  unfold linkNewTask
  dsimp only
  split <;> exact ⟨rfl, rfl, rfl⟩

end Release

section Create

variable {k k' : Kernel} {i pid : Nat} {stack : Option Nat}

theorem taskFindByPid_of_unique (h : Sound k) (hi : i < k.taskCount) (hp : (k.tasks i).pid = pid)
    (h0 : pid ≠ 0) : k.taskFindByPid pid = some i := by
  have hsome : (k.taskFindByPid pid).isSome := by
    rw [taskFindByPid, List.find?_isSome]
    exact ⟨i, List.mem_range.mpr hi, by simpa using hp⟩
  obtain ⟨j, hj⟩ := Option.isSome_iff_exists.mp hsome
  have hmem := List.mem_range.mp (List.mem_of_find?_eq_some hj)
  have hpj : (k.tasks j).pid = pid := by simpa using List.find?_some hj
  rw [hj, h.pidUnique j hmem i hi (hpj.trans hp.symm) (hpj ▸ h0)]

structure Created (k k' : Kernel) : Prop where
  cleared : Cleared k k' (newSlot k)
  ready : (k'.tasks (newSlot k)).state = .ready
  used : ∀ x < userSlotCount, k'.userSlotUsed x = true ↔ k.userSlotUsed x = true ∧
    ¬ (newSlot k < k.taskCount ∧ x = (k.tasks (newSlot k)).userSlot)
  count : k'.taskCount = max k.taskCount (newSlot k + 1)
  current : k'.currentTask = k.currentTask
  pid : (k'.tasks (newSlot k)).pid = k.nextPid

theorem newSlot_cases (k : Kernel) :
    newSlot k < k.taskCount ∧ (k.tasks (newSlot k)).state = .terminated ∨
      newSlot k = k.taskCount := by
  unfold newSlot
  cases hf : k.findTerminated with
  | none => exact Or.inr rfl
  | some i => exact Or.inl (findTerminated_some hf)

theorem created_of_taskCreate (hc : k.taskCreate stack = (some pid, k')) :
    pid = k.nextPid ∧ Created k k' := by
  cases stack with
  | none => cases hc
  | some stack =>
    unfold taskCreate at hc
    cases hf : k.findTerminated with
    | some i =>
      have hslot : newSlot k = i := by rw [newSlot, hf]; rfl
      have hi := (findTerminated_some hf).1
      simp only [hf] at hc
      cases hc
      have hcl := (cleared_release k i).fill stack
      obtain ⟨used, released, heq⟩ := taskReleaseResources_eq k i
      refine ⟨rfl, ?_, ?_, ?_, ?_, ?_, ?_⟩
      · rw [hslot]
        exact hcl
      · rw [hslot]
        simp [fillTask, setTask]
      · intro x hx
        rw [hslot]
        have hrel := release_used k i hx
        constructor
        · exact fun h => ⟨(hrel.mp h).1, fun hn => (hrel.mp h).2 hn.2⟩
        · exact fun h => hrel.mpr ⟨h.1, fun hn => h.2 ⟨hi, hn⟩⟩
      · rw [hslot]
        show (k.taskReleaseResources i).taskCount = _
        rw [heq]
        dsimp only
        omega
      · show (k.taskReleaseResources i).currentTask = _
        rw [heq]
      · rw [hslot]
        simp only [fillTask, setTask, if_true]
        rw [heq]
    | none =>
      have hslot : newSlot k = k.taskCount := by rw [newSlot, hf]; rfl
      simp only [hf] at hc
      split at hc
      · cases hc
      cases hc
      obtain ⟨hused, hcr3, hcount⟩ := linkNewTask_same k
      have hcl : ∀ j, j ≠ k.taskCount → ((k.linkNewTask.tasks j).state = .terminated ↔
          (k.tasks j).state = .terminated) := fun j _ => by rw [linkNewTask_state]
      refine ⟨rfl, ?_, ?_, ?_, ?_, ?_, ?_⟩
      · rw [hslot]
        refine ⟨hcr3, fun j => ?_, fun j => ?_, fun j hj => ?_⟩
        · by_cases hj : j = k.taskCount
          · simp [fillTask, setTask, hj]
          · simp [fillTask, setTask, hj, (linkNewTask_holds k j).1]
        · by_cases hj : j = k.taskCount
          · simp [fillTask, setTask, hj, hcr3]
          · simp [fillTask, setTask, hj, (linkNewTask_holds k j).2.1]
        · simp [fillTask, setTask, hj, hcl j hj]
      · rw [hslot]
        simp [fillTask, setTask]
      · intro x hx
        rw [hslot]
        show k.linkNewTask.userSlotUsed x = true ↔ _
        rw [hused]
        exact ⟨fun h => ⟨h, fun hn => absurd hn.1 (Nat.lt_irrefl _)⟩, fun h => h.1⟩
      · rw [hslot]
        show k.linkNewTask.taskCount = _
        rw [hcount]
        omega
      · show k.linkNewTask.currentTask = _
        unfold linkNewTask
        dsimp only
        split <;> rfl
      · rw [hslot]
        simp only [fillTask, setTask, if_true]
        unfold linkNewTask
        dsimp only
        split <;> rfl

theorem taskCreate_none (hc : k.taskCreate stack = (none, k')) : Held k k' none := by
  cases stack with
  | none =>
    cases hc
    exact Held.refl k
  | some stack =>
    unfold taskCreate at hc
    split at hc
    · rename_i h
      cases h
    split at hc
    · cases hc
    split at hc
    · cases hc
      exact ⟨rfl, rfl, rfl, fun _ => rfl, fun _ => rfl, fun _ => rfl, fun _ => by simp [releasePtr]⟩
    · cases hc

end Create

section Steps

variable {k k' : Kernel} {e : Event}

theorem sparesZombies_of_ne (hne : ∀ stack, e ≠ .create stack) : SparesZombies k e :=
  fun _ he => absurd he (hne _)

theorem held_waitpid {pid : Int} {options : Nat}
    (hs : stepReply k (.waitpid pid options) = some (r, k')) :
    freedBy k (.waitpid pid options) = none ∧ Held k k' none ∨
      ∃ i, freedBy k (.waitpid pid options) = some i ∧ i < k.taskCount ∧
        (k.tasks i).state = .terminated ∧ k' = k.reapTask i := by
  unfold stepReply at hs
  split at hs
  · unfold taskWaitpid at hs
    cases hscan : k.waitScan pid (List.range k.taskCount) false with
    | mk found hasChild =>
      cases found with
      | some i =>
        obtain ⟨hmem, _, hdead⟩ := waitScan_some hscan
        simp only [hscan] at hs
        cases hs
        exact Or.inr ⟨i, by rw [freedBy, hscan], List.mem_range.mp hmem, hdead, rfl⟩
      | none =>
        refine Or.inl ⟨by rw [freedBy, hscan], ?_⟩
        simp only [hscan] at hs
        cases hasChild with
        | false =>
          cases hs
          exact Held.refl k
        | true =>
          dsimp only at hs
          split at hs
          · rename_i q heq
            split at heq
            · cases heq
            · cases heq
              obtain ⟨q, hq, heq⟩ := Option.map_eq_some_iff.mp hs
              cases heq
              exact held_schedule hq
          · rename_i w q _ heq
            split at heq
            · cases heq
              cases hs
              exact Held.refl k
            · cases heq
              rename_i hnot
              exact (hnot rfl).elim
  · cases hs

theorem held_step (h : Sound k) (hne : ∀ stack, e ≠ .create stack) (hs : step k e = some k') :
    freedBy k e = none ∧ Held k k' (diesBy k e) ∨
      ∃ i, freedBy k e = some i ∧ i < k.taskCount ∧ (k.tasks i).state = .terminated ∧
        k' = k.reapTask i := by
  obtain ⟨r, hr⟩ := step_some hs
  cases e with
  | create stack => exact absurd rfl (hne stack)
  | waitpid pid options => exact held_waitpid hr
  | exit status =>
    unfold stepReply at hr
    split at hr
    · obtain ⟨q, hq, heq⟩ := Option.map_eq_some_iff.mp hr
      cases heq
      exact Or.inl ⟨rfl, held_exit hq⟩
    · cases hr
  | fault =>
    unfold stepReply at hr
    split at hr
    · obtain ⟨q, hq, heq⟩ := Option.map_eq_some_iff.mp hr
      cases heq
      exact Or.inl ⟨rfl, held_taskExit hq⟩
    · cases hr
  | kill pid exitStatus termSignal =>
    unfold stepReply at hr
    split at hr
    · obtain ⟨⟨x, q⟩, hq, heq⟩ := Option.map_eq_some_iff.mp hr
      cases heq
      exact Or.inl ⟨rfl, held_kill hq⟩
    · cases hr
  | yield =>
    unfold stepReply at hr
    split at hr
    · obtain ⟨q, hq, heq⟩ := Option.map_eq_some_iff.mp hr
      cases heq
      exact Or.inl ⟨rfl, held_schedule hq⟩
    · cases hr
  | sleep ms =>
    unfold stepReply at hr
    split at hr
    · obtain ⟨q, hq, heq⟩ := Option.map_eq_some_iff.mp hr
      cases heq
      have hlive : k.current.state ≠ .terminated := by
        rw [current, h.running]
        decide
      exact Or.inl ⟨rfl, held_sleep hlive hq⟩
    · cases hr
  | tick =>
    unfold stepReply at hr
    split at hr
    · obtain ⟨q, hq, heq⟩ := Option.map_eq_some_iff.mp hr
      cases heq
      exact Or.inl ⟨rfl, held_tick hq⟩
    · cases hr

end Steps

section Same

variable {k k' : Kernel} {i : Nat}

theorem Sound.of_same (h : Sound k) (so : StateOnly k k') (hc : k'.currentTask = k.currentTask)
    (hs : ∀ j, (k'.tasks j).state = (k.tasks j).state) : Sound k' where
  toRing := h.toRing.of_stateOnly so (hc ▸ h.cur) (by rw [hs, hc]; exact h.idleState)
  running := by rw [hc, hs]; exact h.running

theorem Sound.setTask (h : Sound k) {t : Task} (hlive : (k.tasks i).state ≠ .terminated)
    (hpid : t.pid = (k.tasks i).pid) (hppid : t.ppid = (k.tasks i).ppid)
    (hnext : t.next = (k.tasks i).next) (hstate : t.state = (k.tasks i).state) :
    Sound (k.setTask i t) := by
  refine Sound.of_same h (StateOnly.of_setTask k i t hlive hpid hppid hnext) rfl (fun j => ?_)
  by_cases hj : j = i
  · subst hj
    rw [Kernel.setTask_tasks_same, hstate]
  · rw [Kernel.setTask_tasks_ne k t hj]

theorem Sound.setUsed (h : Sound k) (used : Nat → Bool) : Sound { k with userSlotUsed := used } :=
  Sound.of_same h ⟨rfl, rfl, rfl, rfl, rfl, fun _ => rfl, fun _ => rfl, fun _ => rfl,
    fun _ hd => ⟨hd, rfl, rfl⟩⟩ rfl (fun _ => rfl)

end Same

end HouseOS.Sched
