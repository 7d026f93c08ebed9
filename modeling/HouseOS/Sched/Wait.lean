import HouseOS.Library.Run
import HouseOS.Sched.Step

namespace HouseOS.Sched

open Kernel

def Alive (k : Kernel) (pid : Nat) : Prop :=
  ∃ j < k.taskCount, (k.tasks j).pid = pid ∧ (k.tasks j).state ≠ .terminated

def Unwaited (k : Kernel) (i : Nat) : Prop :=
  (k.tasks i).pid ≠ 0 ∧ Alive k (k.tasks i).ppid

def PidsLeft (k : Kernel) (e : Event) : Prop :=
  ∀ stack, e = .create (some stack) → k.nextPid + 1 < 2 ^ 32

def SparesZombies (k : Kernel) (e : Event) : Prop :=
  ∀ stack, e = .create (some stack) →
    k.nextPid < 2 ^ 31 ∧ ∀ i, k.findTerminated = some i → ¬ Unwaited k i

def Event.cause (t : Task) : Event → Int × Nat
  | .exit status => (status, 0)
  | .kill _ exitStatus termSignal => (exitStatus, termSignal)
  | _ => (t.exitStatus, t.termSignal)

inductive Effect (k : Kernel) (e : Event) : Reply → Kernel → Prop
  | quiet {r k'} (hq : Quiet k k') (hr : ∀ p st, r ≠ .waited (.reaped p st)) : Effect k e r k'
  | ends {r k'} (hs : StateOnly k k') (hr : ∀ p st, r ≠ .waited (.reaped p st))
      (hcause : ∀ j, (k.tasks j).state ≠ .terminated → (k'.tasks j).state = .terminated →
        ((k'.tasks j).exitStatus, (k'.tasks j).termSignal) = e.cause (k.tasks j)) :
      Effect k e r k'
  | renew {r i k'} (hreply : ∀ p st, r ≠ .waited (.reaped p st)) (hr : Renewed k k' i k.nextPid k.current.pid)
      (hslot : k.findTerminated = some i ∧ (∃ stack, e = .create (some stack)) ∨ i = k.taskCount)
      (hcount : k.taskCount ≤ k'.taskCount)
      (hold : ∀ j < k'.taskCount, j ≠ i → j < k.taskCount)
      (hnext : k.nextPid ≤ k'.nextPid) : Effect k e r k'
  | reap {i} (hi : i < k.taskCount) (hdead : (k.tasks i).state = .terminated)
      (hpid : (k.tasks i).pid ≠ 0) :
      Effect k e (.waited (.reaped (k.tasks i).pid
        (waitCode (k.tasks i).exitStatus (k.tasks i).termSignal))) (k.reapTask i)

theorem waitScan_some {k : Kernel} {pid : Int} {is : List Nat} {b c : Bool} {i : Nat}
    (h : k.waitScan pid is b = (some i, c)) :
    i ∈ is ∧ k.isWaitedChild pid i = true ∧ (k.tasks i).state = .terminated := by
  induction is generalizing b with
  | nil => simp [waitScan] at h
  | cons j is ih =>
    simp only [waitScan] at h
    split at h
    next hc =>
      split at h
      next hd =>
        simp only [Prod.mk.injEq, Option.some.injEq] at h
        rw [← h.1]
        exact ⟨List.mem_cons_self, hc, hd⟩
      next =>
        obtain ⟨hm, hrest⟩ := ih h
        exact ⟨List.mem_cons_of_mem _ hm, hrest⟩
    next =>
      obtain ⟨hm, hrest⟩ := ih h
      exact ⟨List.mem_cons_of_mem _ hm, hrest⟩

theorem waitScan_unique {k : Kernel} {pid : Int} {is : List Nat} {b : Bool} {i : Nat}
    (hmem : i ∈ is) (hchild : k.isWaitedChild pid i = true)
    (hdead : (k.tasks i).state = .terminated)
    (huniq : ∀ j ∈ is, k.isWaitedChild pid j = true → j = i) :
    k.waitScan pid is b = (some i, true) := by
  induction is generalizing b with
  | nil => cases hmem
  | cons j is ih =>
    simp only [waitScan]
    by_cases hj : j = i
    · subst hj
      rw [if_pos hchild, if_pos hdead]
    · have hnot : ¬ k.isWaitedChild pid j = true := fun hc => hj (huniq j List.mem_cons_self hc)
      rw [if_neg hnot]
      exact ih (List.mem_of_ne_of_mem (fun h => hj h.symm) hmem)
        (fun q hq => huniq q (List.mem_cons_of_mem _ hq))

theorem waitpid_effect (k : Kernel) (pid : Int) (options : Nat) :
    (∃ i < k.taskCount, (k.tasks i).state = .terminated ∧ (k.tasks i).pid ≠ 0 ∧
      k.taskWaitpid pid options = (.reaped (k.tasks i).pid
        (waitCode (k.tasks i).exitStatus (k.tasks i).termSignal), k.reapTask i)) ∨
    (∃ w, k.taskWaitpid pid options = (w, k) ∧ ∀ p st, w ≠ .reaped p st) := by
  unfold taskWaitpid
  cases hscan : k.waitScan pid (List.range k.taskCount) false with
  | mk found hasChild =>
    cases found with
    | some i =>
      obtain ⟨hm, hc, hd⟩ := waitScan_some hscan
      simp only [isWaitedChild, decide_eq_true_eq] at hc
      exact Or.inl ⟨i, List.mem_range.mp hm, hd, hc.2.1, rfl⟩
    | none =>
      right
      cases hasChild with
      | false => exact ⟨_, rfl, by simp⟩
      | true =>
        by_cases ho : options &&& 1 = 1
        · exact ⟨.again, by simp only [if_pos ho], by simp⟩
        · exact ⟨.blocked, by simp only [if_neg ho], by simp⟩

theorem quiet_wakeExpired (k : Kernel) : Quiet k k.wakeExpired where
  count := rfl
  nextPid := rfl
  idle := rfl
  head := rfl
  tail := rfl
  pid j := by simp only [wakeExpired]; split <;> rfl
  ppid j := by simp only [wakeExpired]; split <;> rfl
  next j := by simp only [wakeExpired]; split <;> rfl
  exitStatus j := by simp only [wakeExpired]; split <;> rfl
  termSignal j := by simp only [wakeExpired]; split <;> rfl
  dead j hj := by
    simp only [wakeExpired]
    split
    next hb => rw [hb.2.1] at hj; cases hj
    next => exact ⟨hj, rfl, rfl⟩
  alive j hj := by
    simp only [wakeExpired] at hj
    split at hj
    next => cases hj
    next => exact hj

theorem wakeExpired_state {k : Kernel} {i : Nat} (h : (k.tasks i).state ≠ .blocked) :
    (k.wakeExpired.tasks i).state = (k.tasks i).state := by
  simp [wakeExpired, h]

theorem tick_spec {k : Kernel} (h : Sound k) :
    ∃ k', k.timerHandler = some k' ∧ Sound k' ∧ Quiet k k' := by
  let q : Kernel := { k with ticks := (k.ticks + 1) % 2 ^ 32 }
  have hkq : Quiet k q :=
    ⟨⟨rfl, rfl, rfl, rfl, rfl, fun _ => rfl, fun _ => rfl, fun _ => rfl,
      fun _ hd => ⟨hd, rfl, rfl⟩⟩, fun _ => rfl, fun _ => rfl, fun _ hd => hd⟩
  have hq := hkq.trans (quiet_wakeExpired q)
  have hrun : (q.wakeExpired.tasks k.currentTask).state = .running := by
    have hbase : (q.tasks k.currentTask).state = .running := h.running
    rw [wakeExpired_state (by simp [hbase])]
    exact hbase
  have hidle : k.currentTask ≠ 0 → (q.wakeExpired.tasks 0).state = (k.tasks 0).state := by
    intro h0
    have hbase : (q.tasks 0).state = .ready := by
      rcases h.idleState with hr | ⟨hc, _⟩
      · exact hr
      · exact absurd hc h0
    exact wakeExpired_state (by simp [hbase])
  obtain ⟨k', hk', hsound, hquiet⟩ := schedule_after h hq.toStateOnly rfl
    (fun h0 => h0 ▸ hrun) hidle (by simp [hrun])
  exact ⟨k', hk', hsound, hq.trans hquiet⟩

theorem yield_spec {k : Kernel} (h : Sound k) :
    ∃ k', k.schedule = some k' ∧ Sound k' ∧ Quiet k k' :=
  schedule_spec h.toRing (by rw [h.running]; simp)

theorem sleep_spec {k : Kernel} (h : Sound k) (ms : Nat) (h0 : k.currentTask ≠ 0) :
    ∃ k', k.sleep ms = some k' ∧ Sound k' ∧ Quiet k k' := by
  unfold Kernel.sleep
  by_cases hms : ms = 0
  · rw [if_pos hms]
    exact ⟨k, rfl, h, Quiet.refl k⟩
  · simp only [if_neg hms]
    generalize hq : k.setTask k.currentTask _ = q
    have hlive : (k.tasks k.currentTask).state ≠ .terminated := by rw [h.running]; simp
    have hkq : Quiet k q := by
      subst hq
      refine ⟨StateOnly.of_setTask k _ _ hlive rfl rfl rfl, ?_, ?_, ?_⟩
      · intro j
        by_cases hj : j = k.currentTask <;> simp [setTask, current, hj]
      · intro j
        by_cases hj : j = k.currentTask <;> simp [setTask, current, hj]
      · intro j hj
        by_cases hjc : j = k.currentTask
        · simp [hjc] at hj
        · rwa [setTask_tasks_ne k _ hjc] at hj
    obtain ⟨k', hk', hsound, hquiet⟩ := schedule_after h hkq.toStateOnly (by rw [← hq]; rfl)
      (fun hc => absurd hc h0) (fun _ => by rw [← hq, setTask_tasks_ne k _ h0.symm])
      (by rw [← hq]; simp)
    exact ⟨k', hk', hsound, hkq.trans hquiet⟩

theorem end_spec {k q : Kernel} {i : Nat} (exitStatus : Int) (termSignal : Nat)
    (hlive : (k.tasks i).state ≠ .terminated)
    (hq : q = (k.setExit i exitStatus termSignal).setState i .terminated) :
    StateOnly k q ∧ (∀ j, (k.tasks j).state ≠ .terminated → (q.tasks j).state = .terminated →
      ((q.tasks j).exitStatus, (q.tasks j).termSignal) = (exitStatus, termSignal)) ∧
    (q.tasks i).state = .terminated ∧ (∀ j, j ≠ i → q.tasks j = k.tasks j) ∧
    q.currentTask = k.currentTask := by
  subst hq
  have hset : StateOnly k (k.setExit i exitStatus termSignal) :=
    StateOnly.of_setTask k i _ hlive rfl rfl rfl
  refine ⟨hset.trans (StateOnly.of_setState _ _ _ (by simpa [setExit] using hlive)), ?_, ?_, ?_,
    rfl⟩
  · intro j hj hd
    by_cases hji : j = i
    · subst hji
      simp [setState, setExit]
    · rw [setState, setTask_tasks_ne _ _ hji, setExit, setTask_tasks_ne _ _ hji] at hd
      exact absurd hd hj
  · simp [setState]
  · intro j hji
    rw [setState, setTask_tasks_ne _ _ hji, setExit, setTask_tasks_ne _ _ hji]

theorem exit_spec {k : Kernel} (h : Sound k) (h0 : k.currentTask ≠ 0) (exitStatus : Int)
    (termSignal : Nat) :
    ∃ k', (k.setExit k.currentTask exitStatus termSignal).taskExit = some k' ∧ Sound k' ∧
      StateOnly k k' ∧
      (∀ j, (k.tasks j).state ≠ .terminated → (k'.tasks j).state = .terminated →
        ((k'.tasks j).exitStatus, (k'.tasks j).termSignal) = (exitStatus, termSignal)) := by
  have hlive : (k.tasks k.currentTask).state ≠ .terminated := by rw [h.running]; simp
  obtain ⟨hso, hcause, hdead, hother, hcur⟩ := end_spec exitStatus termSignal hlive rfl
  obtain ⟨k', hk', hsound, hquiet⟩ := schedule_after h hso hcur (fun hc => absurd hc h0)
    (fun _ => by rw [hother 0 h0.symm]) (by rw [hdead]; simp)
  refine ⟨k', hk', hsound, hso.trans hquiet.toStateOnly, ?_⟩
  intro j hj hd
  rw [hquiet.exitStatus, hquiet.termSignal]
  exact hcause j hj (hquiet.alive j hd)

theorem fault_spec {k : Kernel} (h : Sound k) (h0 : k.currentTask ≠ 0) :
    ∃ k', k.taskExit = some k' ∧ Sound k' ∧ StateOnly k k' ∧
      (∀ j, (k.tasks j).state ≠ .terminated → (k'.tasks j).state = .terminated →
        ((k'.tasks j).exitStatus, (k'.tasks j).termSignal) =
          ((k.tasks j).exitStatus, (k.tasks j).termSignal)) := by
  have hlive : (k.tasks k.currentTask).state ≠ .terminated := by rw [h.running]; simp
  have hso := StateOnly.of_setState k k.currentTask .terminated hlive
  obtain ⟨k', hk', hsound, hquiet⟩ := schedule_after h hso rfl (fun hc => absurd hc h0)
    (fun _ => by rw [setState_state, if_neg h0.symm]) (by rw [setState_state, if_pos rfl]; simp)
  refine ⟨k', hk', hsound, hso.trans hquiet.toStateOnly, ?_⟩
  intro j _ _
  rw [hquiet.exitStatus, hquiet.termSignal]
  by_cases hj : j = k.currentTask <;> simp [setState, setTask, hj]

theorem kill_spec {k : Kernel} (h : Sound k) (pid : Nat) (exitStatus : Int) (termSignal : Nat) :
    ∃ r k', k.taskTerminateByPid pid exitStatus termSignal = some (r, k') ∧ Sound k' ∧
      StateOnly k k' ∧
      (∀ j, (k.tasks j).state ≠ .terminated → (k'.tasks j).state = .terminated →
        ((k'.tasks j).exitStatus, (k'.tasks j).termSignal) = (exitStatus, termSignal)) := by
  unfold taskTerminateByPid
  cases k.taskFindByPid pid with
  | none => exact ⟨-1, k, rfl, h, StateOnly.refl k, fun j hj hd => absurd hd hj⟩
  | some i =>
    by_cases hidle : i = k.idleTask
    · simp only [if_pos hidle]
      exact ⟨-1, k, rfl, h, StateOnly.refl k, fun j hj hd => absurd hd hj⟩
    by_cases hdead : (k.tasks i).state = .terminated
    · simp only [if_neg hidle, if_pos hdead]
      exact ⟨0, k, rfl, h, StateOnly.refl k, fun j hj hd => absurd hd hj⟩
    have hi0 : i ≠ 0 := fun hi => hidle (hi.trans h.idle.symm)
    simp only [if_neg hidle, if_neg hdead]
    by_cases hcur : i = k.currentTask
    · simp only [if_pos hcur]
      obtain ⟨k', hk', hsound, hso, hcause⟩ :=
        exit_spec h (hcur ▸ hi0) exitStatus termSignal
      exact ⟨0, k', by rw [hcur, hk']; rfl, hsound, hso, hcause⟩
    · simp only [if_neg hcur]
      obtain ⟨hso, hcause, _, hother, hc⟩ := end_spec exitStatus termSignal hdead rfl
      refine ⟨0, _, rfl, ⟨h.toRing.of_stateOnly hso (hc ▸ h.cur) ?_, ?_⟩, hso, hcause⟩
      · rw [hother 0 hi0.symm, hc]
        exact h.idleState
      · rw [hc, hother _ (fun heq => hcur heq.symm)]
        exact h.running

theorem SparesZombies.pidsLeft {k : Kernel} {e : Event} (hg : SparesZombies k e) :
    PidsLeft k e := by
  intro stack he
  have hlt := (hg stack he).1
  omega

theorem stepReply_total {k : Kernel} (h : Sound k) {e : Event} (hg : PidsLeft k e)
    (hen : e.enabled k = true) :
    ∃ r k', stepReply k e = some (r, k') ∧ Sound k' ∧ Effect k e r k' := by
  have hne : (∀ pid a b, e ≠ .kill pid a b) → e ≠ .tick → e ≠ .yield → k.currentTask ≠ 0 := by
    intro hk ht hy h0
    cases e <;> simp_all [Event.enabled, h.idle]
  cases e with
  | create stack =>
    obtain ⟨hsound, hnext, _, hcase⟩ := create_spec h stack (fun hs => by
      obtain ⟨p, rfl⟩ := Option.ne_none_iff_exists'.mp hs
      exact hg p rfl)
    refine ⟨_, _, by simp only [stepReply, hen, if_true]; rfl, hsound, ?_⟩
    rcases hcase with ⟨i, hr, hslot, hcount, hold⟩ | hq
    · refine .renew (by simp) hr ?_ hcount hold hnext
      rcases hslot with ⟨hf, hs⟩ | hi
      · obtain ⟨p, rfl⟩ := Option.ne_none_iff_exists'.mp hs
        exact Or.inl ⟨hf, p, rfl⟩
      · exact Or.inr hi
    · exact .quiet hq (by simp)
  | exit status =>
    obtain ⟨k', hk', hsound, hso, hcause⟩ := exit_spec h (hne (by simp) (by simp) (by simp)) status 0
    exact ⟨.quiet, k', by simp only [stepReply, hen, if_true, hk']; rfl, hsound,
      .ends hso (by simp) hcause⟩
  | fault =>
    obtain ⟨k', hk', hsound, hso, hcause⟩ := fault_spec h (hne (by simp) (by simp) (by simp))
    exact ⟨.quiet, k', by simp only [stepReply, hen, if_true, hk']; rfl, hsound,
      .ends hso (by simp) hcause⟩
  | kill pid exitStatus termSignal =>
    obtain ⟨r, k', hk', hsound, hso, hcause⟩ := kill_spec h pid exitStatus termSignal
    exact ⟨.killed r, k', by simp only [stepReply, hen, if_true, hk']; rfl, hsound,
      .ends hso (by simp) hcause⟩
  | waitpid pid options =>
    rcases waitpid_effect k pid options with ⟨i, hi, hdead, hpid, heq⟩ | ⟨w, heq, hw⟩
    · exact ⟨_, _, by simp only [stepReply, hen, if_true, heq], reap_sound h hdead,
        .reap hi hdead hpid⟩
    · obtain ⟨k', hk', hsound, hquiet⟩ := yield_spec h
      cases w with
      | reaped p st => exact absurd rfl (hw p st)
      | noChild =>
        exact ⟨.waited .noChild, k, by simp only [stepReply, hen, if_true, heq], h,
          .quiet (Quiet.refl k) (by simp)⟩
      | again =>
        exact ⟨.waited .again, k, by simp only [stepReply, hen, if_true, heq], h,
          .quiet (Quiet.refl k) (by simp)⟩
      | blocked =>
        exact ⟨.waited .blocked, k', by simp only [stepReply, hen, if_true, heq, hk']; rfl, hsound,
          .quiet hquiet (by simp)⟩
  | yield =>
    obtain ⟨k', hk', hsound, hquiet⟩ := yield_spec h
    exact ⟨.quiet, k', by simp only [stepReply, hen, if_true, hk']; rfl, hsound,
      .quiet hquiet (by simp)⟩
  | sleep ms =>
    obtain ⟨k', hk', hsound, hquiet⟩ := sleep_spec h ms (hne (by simp) (by simp) (by simp))
    exact ⟨.quiet, k', by simp only [stepReply, hen, if_true, hk']; rfl, hsound,
      .quiet hquiet (by simp)⟩
  | tick =>
    obtain ⟨k', hk', hsound, hquiet⟩ := tick_spec h
    exact ⟨.quiet, k', by simp only [stepReply, hen, if_true, hk']; rfl, hsound,
      .quiet hquiet (by simp)⟩

theorem stepReply_effect {k k' : Kernel} {e : Event} {r : Reply} (h : Sound k)
    (hg : SparesZombies k e) (hs : stepReply k e = some (r, k')) :
    Sound k' ∧ Effect k e r k' := by
  have hen : e.enabled k = true := by
    by_contra hen
    simp [stepReply, hen] at hs
  obtain ⟨r', q, hq, hsound, heff⟩ := stepReply_total h hg.pidsLeft hen
  rw [hs] at hq
  cases hq
  exact ⟨hsound, heff⟩

structure Zombie (k : Kernel) (i pid ppid : Nat) (cause : Int × Nat) : Prop where
  slot : i < k.taskCount
  pidEq : (k.tasks i).pid = pid
  ppidEq : (k.tasks i).ppid = ppid
  dead : (k.tasks i).state = .terminated
  causeEq : ((k.tasks i).exitStatus, (k.tasks i).termSignal) = cause

theorem Effect.nextPid_le {k k' : Kernel} {e : Event} {r : Reply} (h : Effect k e r k') :
    k.nextPid ≤ k'.nextPid := by
  cases h with
  | quiet hq _ => exact le_of_eq hq.nextPid.symm
  | ends hso _ _ => exact le_of_eq hso.nextPid.symm
  | renew _ _ _ _ _ hnext => exact hnext
  | reap _ _ _ => exact le_of_eq (reapTask_renewed k _).2.2.2.1.symm

theorem Zombie.of_stateOnly {k k' : Kernel} {i pid ppid : Nat} {cause : Int × Nat}
    (z : Zombie k i pid ppid cause) (h : StateOnly k k') : Zombie k' i pid ppid cause := by
  obtain ⟨hd, he, ht⟩ := h.dead i z.dead
  exact ⟨h.count ▸ z.slot, (h.pid i).trans z.pidEq, (h.ppid i).trans z.ppidEq, hd, by
    rw [he, ht]
    exact z.causeEq⟩

theorem Zombie.of_renewed {k k' : Kernel} {i j pid ppid p pp : Nat} {cause : Int × Nat}
    (z : Zombie k i pid ppid cause) (h : Renewed k k' j p pp) (hne : i ≠ j)
    (hcount : k.taskCount ≤ k'.taskCount) : Zombie k' i pid ppid cause := by
  obtain ⟨h1, h2, h3, h4, h5⟩ := h.other i hne
  exact ⟨lt_of_lt_of_le z.slot hcount, h1.trans z.pidEq, h2.trans z.ppidEq, h3.trans z.dead, by
    rw [h4, h5]
    exact z.causeEq⟩

theorem Zombie.after_step {k k' : Kernel} {e : Event} {r : Reply} {i pid ppid : Nat}
    {cause : Int × Nat} (z : Zombie k i pid ppid cause) (hpid : pid ≠ 0) (hparent : Alive k ppid)
    (hg : SparesZombies k e) (heff : Effect k e r k')
    (hr : ∀ st, r ≠ .waited (.reaped pid st)) : Zombie k' i pid ppid cause := by
  cases heff with
  | quiet hq _ => exact z.of_stateOnly hq.toStateOnly
  | ends hso _ _ => exact z.of_stateOnly hso
  | @renew _ j _ _ hren hslot hcount _ _ =>
    refine z.of_renewed hren ?_ hcount
    intro hij
    subst hij
    rcases hslot with ⟨hfind, stack, rfl⟩ | hi
    · refine (hg stack rfl).2 i hfind ⟨?_, ?_⟩
      · rw [z.pidEq]
        exact hpid
      · rw [z.ppidEq]
        exact hparent
    · exact absurd z.slot (by omega)
  | @reap j hj _ _ =>
    obtain ⟨hren, hcount, _⟩ := reapTask_renewed k j
    refine z.of_renewed hren ?_ (le_of_eq hcount.symm)
    rintro rfl
    exact hr _ (by rw [z.pidEq])

theorem Alive.step_back {k k' : Kernel} {e : Event} {r : Reply} {pid : Nat}
    (heff : Effect k e r k') (hlt : pid < k.nextPid) (h : Alive k' pid) : Alive k pid := by
  obtain ⟨j, hj, hpid, hlive⟩ := h
  have of_stateOnly : StateOnly k k' → Alive k pid := fun hso =>
    ⟨j, hso.count ▸ hj, (hso.pid j).symm.trans hpid, fun hd => hlive (hso.dead j hd).1⟩
  have of_other : ∀ {i p pp : Nat}, Renewed k k' i p pp → j ≠ i → j < k.taskCount →
      Alive k pid := by
    intro i p pp hr hne hjk
    obtain ⟨h1, _, h3, _⟩ := hr.other j hne
    exact ⟨j, hjk, h1.symm.trans hpid, by rwa [← h3]⟩
  cases heff with
  | quiet hq _ => exact of_stateOnly hq.toStateOnly
  | ends hso _ _ => exact of_stateOnly hso
  | @renew _ i _ _ hr _ _ hold _ =>
    by_cases hne : j = i
    · rw [hne, hr.pid] at hpid
      omega
    · exact of_other hr hne (hold j hj hne)
  | @reap i hi hdead _ =>
    obtain ⟨hr, hcount, _, _, _, hterm⟩ := reapTask_renewed k i
    by_cases hne : j = i
    · exact absurd (hne ▸ hterm) hlive
    · exact of_other hr hne (hcount ▸ hj)

theorem step_some {k k' : Kernel} {e : Event} (h : step k e = some k') :
    ∃ r, stepReply k e = some (r, k') := by
  simpa [step] using h

theorem sound_step {k k' : Kernel} {e : Event} (h : Sound k) (hg : SparesZombies k e)
    (hs : step k e = some k') : Sound k' := by
  obtain ⟨r, hr⟩ := step_some hs
  exact (stepReply_effect h hg hr).1

theorem sound_run {k k' : Kernel} {es : List Event} (h : Sound k)
    (hg : Run.Along step SparesZombies k es) (hs : Run.run step k es = some k') : Sound k' :=
  Run.run_invariant (fun _ _ _ => sound_step) es k k' h hg hs

theorem Alive.run_back {pid : Nat} : ∀ (es : List Event) {k k' : Kernel}, Sound k →
    Run.Along step SparesZombies k es → Run.run step k es = some k' → pid < k.nextPid →
    Alive k' pid → Alive k pid := by
  intro es
  induction es with
  | nil =>
    intro k k' _ _ hrun _ ha
    cases hrun
    exact ha
  | cons e es ih =>
    intro k k' h hg hrun hlt ha
    obtain ⟨t, ht, hrun⟩ := Run.run_cons_some.mp hrun
    obtain ⟨r, hr⟩ := step_some ht
    obtain ⟨hst, heff⟩ := stepReply_effect h hg.1 hr
    exact (ih hst (hg.2 t ht) hrun (lt_of_lt_of_le hlt heff.nextPid_le) ha).step_back heff hlt

theorem Zombie.after_run {i pid ppid : Nat} {cause : Int × Nat} (hpid : pid ≠ 0) :
    ∀ (es : List Event) {k k' : Kernel}, Sound k → Run.Along step SparesZombies k es →
    Run.run step k es = some k' → Zombie k i pid ppid cause → ppid < k.nextPid →
    Alive k' ppid → (∀ st, Reply.waited (.reaped pid st) ∉ replies k es) →
    Zombie k' i pid ppid cause := by
  intro es
  induction es with
  | nil =>
    intro k k' _ _ hrun z _ _ _
    cases hrun
    exact z
  | cons e es ih =>
    intro k k' h hg hrun z hlt ha hquiet
    have hparent := Alive.run_back _ h hg hrun hlt ha
    obtain ⟨t, ht, hrun⟩ := Run.run_cons_some.mp hrun
    obtain ⟨r, hr⟩ := step_some ht
    obtain ⟨hst, heff⟩ := stepReply_effect h hg.1 hr
    simp only [replies, hr, List.mem_cons, not_or] at hquiet
    have zt := z.after_step hpid hparent hg.1 heff (fun st heq => (hquiet st).1 heq.symm)
    exact ih hst (hg.2 t ht) hrun zt (lt_of_lt_of_le hlt heff.nextPid_le) ha
      (fun st => (hquiet st).2)

structure Gone (k : Kernel) (pid : Nat) : Prop where
  below : pid < k.nextPid
  absent : ∀ j < k.taskCount, (k.tasks j).pid ≠ pid

theorem Gone.after_step {k k' : Kernel} {e : Event} {r : Reply} {pid : Nat} (h : Gone k pid)
    (hpid : pid ≠ 0) (heff : Effect k e r k') :
    Gone k' pid ∧ ∀ st, r ≠ .waited (.reaped pid st) := by
  have hbelow := lt_of_lt_of_le h.below heff.nextPid_le
  cases heff with
  | quiet hq hr =>
    exact ⟨⟨hbelow, fun j hj => by rw [hq.pid]; exact h.absent j (hq.count ▸ hj)⟩, hr pid⟩
  | ends hso hr _ =>
    exact ⟨⟨hbelow, fun j hj => by rw [hso.pid]; exact h.absent j (hso.count ▸ hj)⟩, hr pid⟩
  | @renew _ i _ hr hren _ _ hold _ =>
    refine ⟨⟨hbelow, fun j hj => ?_⟩, hr pid⟩
    by_cases hji : j = i
    · rw [hji, hren.pid]
      have := h.below
      omega
    · rw [(hren.other j hji).1]
      exact h.absent j (hold j hj hji)
  | @reap i hi _ _ =>
    obtain ⟨hren, hcount, _⟩ := reapTask_renewed k i
    refine ⟨⟨hbelow, fun j hj => ?_⟩, fun st heq => ?_⟩
    · by_cases hji : j = i
      · rw [hji, hren.pid]
        exact hpid.symm
      · rw [(hren.other j hji).1]
        exact h.absent j (hcount ▸ hj)
    · simp only [Reply.waited.injEq, Wait.reaped.injEq] at heq
      exact h.absent i hi heq.1

theorem Gone.not_replied {pid : Nat} (hpid : pid ≠ 0) : ∀ (es : List Event) {k : Kernel}, Sound k →
    Run.Along step SparesZombies k es → Gone k pid →
    ∀ st, Reply.waited (.reaped pid st) ∉ replies k es := by
  intro es
  induction es with
  | nil =>
    intro k _ _ _ st
    simp [replies]
  | cons e es ih =>
    intro k h hg hgone st
    simp only [replies]
    cases hr : stepReply k e with
    | none => simp
    | some rk =>
      obtain ⟨r, t⟩ := rk
      obtain ⟨hst, heff⟩ := stepReply_effect h hg.1 hr
      obtain ⟨hgt, hne⟩ := hgone.after_step hpid heff
      simp only [List.mem_cons, not_or]
      exact ⟨fun heq => hne st heq.symm, ih hst (hg.2 t (by simp [step, hr])) hgt st⟩

theorem waitpid_reaps {k : Kernel} (options : Nat) (h : Sound k) {i : Nat} {cause : Int × Nat}
    {pid : Nat} (z : Zombie k i pid k.current.pid cause) (hpid : pid ≠ 0)
    (hcur : k.currentTask ≠ k.idleTask) :
    stepReply k (.waitpid pid options) =
      some (.waited (.reaped pid (waitCode cause.1 cause.2)), k.reapTask i) := by
  have hbound : pid < 2 ^ 32 := by
    have h1 := h.pidBelow i z.slot
    have h2 := h.pidLimit
    rw [z.pidEq] at h1
    omega
  have hmod : ((pid : Int) % 2 ^ 32) = pid := by omega
  have hi0 := (h.not_current_of_terminated z.dead).2
  have hmatch : ∀ j, k.isWaitedChild pid j = true → (k.tasks j).pid = pid := by
    intro j hj
    simp only [isWaitedChild, decide_eq_true_eq, hmod] at hj
    have := hj.2.2.2
    omega
  have hchild : k.isWaitedChild pid i = true := by
    simp only [isWaitedChild, decide_eq_true_eq, hmod, z.pidEq, z.ppidEq, h.idle]
    refine ⟨hi0, hpid, trivial, ?_⟩
    simp
  have hscan := waitScan_unique (b := false) (List.mem_range.mpr z.slot) hchild z.dead (by
    intro j hj hjc
    refine h.pidUnique j (List.mem_range.mp hj) i z.slot ?_ ?_
    · rw [hmatch j hjc, z.pidEq]
    · rw [hmatch j hjc]
      exact hpid)
  obtain ⟨h1, h2⟩ := Prod.ext_iff.mp z.causeEq
  simp only at h1 h2
  simp [stepReply, Event.enabled, hcur, taskWaitpid, hscan, z.pidEq, h1, h2]

def Terminates (k k' : Kernel) (i : Nat) : Prop :=
  i < k.taskCount ∧ (k.tasks i).pid ≠ 0 ∧ (k.tasks i).state ≠ .terminated ∧
    (k'.tasks i).pid = (k.tasks i).pid ∧ (k'.tasks i).state = .terminated

def DeliversExitStatus (k₀ : Kernel) (es : List Event) : Prop :=
  ∀ (pre : List Event) (e : Event) (mid : List Event) (options : Nat) (post : List Event)
    (k₁ k₂ k₃ : Kernel) (i : Nat),
    es = pre ++ e :: (mid ++ .waitpid (k₁.tasks i).pid options :: post) →
    Run.run step k₀ pre = some k₁ → step k₁ e = some k₂ → Run.run step k₂ mid = some k₃ →
    Terminates k₁ k₂ i → Alive k₁ (k₁.tasks i).ppid →
    (∀ st, .waited (.reaped (k₁.tasks i).pid st) ∉ replies k₂ mid) →
    k₃.current.pid = (k₁.tasks i).ppid → k₃.currentTask ≠ k₃.idleTask →
    ∃ k₄, stepReply k₃ (.waitpid (k₁.tasks i).pid options) =
        some (.waited (.reaped (k₁.tasks i).pid
          (waitCode (e.cause (k₁.tasks i)).1 (e.cause (k₁.tasks i)).2)), k₄) ∧
      ∀ st, .waited (.reaped (k₁.tasks i).pid st) ∉ replies k₄ post

theorem exit_status_delivered (kernelCr3 idleStack : Nat) (es : List Event)
    (hg : Run.Along step SparesZombies (taskInit kernelCr3 idleStack) es) :
    DeliversExitStatus (taskInit kernelCr3 idleStack) es := by
  intro pre e mid options post k₁ k₂ k₃ i hes hpre he hmid hend hparent hquiet hwaiter hcur
  subst hes
  have hs₀ := sound_taskInit kernelCr3 idleStack
  obtain ⟨hgpre, hgrest⟩ := Run.along_append hg
  have hge := hgrest k₁ hpre
  have hs₁ := sound_run hs₀ hgpre hpre
  obtain ⟨r, hr⟩ := step_some he
  obtain ⟨hs₂, heff⟩ := stepReply_effect hs₁ hge.1 hr
  obtain ⟨hgmid, hgpost⟩ := Run.along_append (hge.2 k₂ he)
  have hs₃ := sound_run hs₂ hgmid hmid
  obtain ⟨hslot, hpid, hlive, hpid₂, hdead⟩ := hend
  have z₂ : Zombie k₂ i (k₁.tasks i).pid (k₁.tasks i).ppid (e.cause (k₁.tasks i)) := by
    cases heff with
    | quiet hq _ => exact absurd (hq.alive i hdead) hlive
    | ends hso _ hcause => exact ⟨hso.count ▸ hslot, hpid₂, hso.ppid i, hdead, hcause i hlive hdead⟩
    | @renew _ j _ _ hren hslot' _ _ _ =>
      have hb := hs₁.pidBelow i hslot
      have hne : i ≠ j := by
        intro hij
        rw [hij, hren.pid, ← hij] at hpid₂
        omega
      exact absurd ((hren.other i hne).2.2.1 ▸ hdead) hlive
    | @reap j _ hj _ =>
      have hne : i ≠ j := fun hij => hlive (hij ▸ hj)
      exact absurd (((reapTask_renewed k₁ j).1.other i hne).2.2.1 ▸ hdead) hlive
  have hbelow : (k₁.tasks i).ppid < k₂.nextPid :=
    lt_of_lt_of_le (hs₁.ppidBelow i hslot) heff.nextPid_le
  have halive₃ : Alive k₃ (k₁.tasks i).ppid :=
    ⟨k₃.currentTask, hs₃.cur, hwaiter, by rw [hs₃.running]; simp⟩
  have z₃ := Zombie.after_run hpid mid hs₂ hgmid hmid z₂ hbelow halive₃ hquiet
  rw [← hwaiter] at z₃
  have hreap := waitpid_reaps options hs₃ z₃ hpid hcur
  refine ⟨_, hreap, ?_⟩
  have hg₃ := hgpost k₃ hmid
  have hs₄ := (stepReply_effect hs₃ hg₃.1 hreap).1
  obtain ⟨hren, hcount, _, hnext, _⟩ := reapTask_renewed k₃ i
  refine Gone.not_replied hpid post hs₄ (hg₃.2 _ (by simp [step, hreap])) ⟨?_, ?_⟩
  · rw [hnext, ← z₃.pidEq]
    exact hs₃.pidBelow i z₃.slot
  · intro j hj heq
    by_cases hji : j = i
    · rw [hji, hren.pid] at heq
      exact hpid heq.symm
    · rw [(hren.other j hji).1] at heq
      refine hji (hs₃.pidUnique j (hcount ▸ hj) i z₃.slot (heq.trans z₃.pidEq.symm) ?_)
      rw [heq]
      exact hpid

theorem exit_status_delivered_spawn_exit_wait :
    DeliversExitStatus (taskInit 4096 8192) [.create (some 16384), .yield, .exit 7, .waitpid 3 0] ∧
      replies (taskInit 4096 8192) [.create (some 16384), .yield, .exit 7, .waitpid 3 0] =
        [.created (some 3), .quiet, .quiet, .waited (.reaped 3 1792)] := by
  refine ⟨exit_status_delivered 4096 8192 _ ⟨?_, fun _ _ => ⟨?_, fun _ _ => ⟨?_, fun _ _ =>
    ⟨?_, fun _ _ => trivial⟩⟩⟩⟩, by decide⟩
  · intro stack _
    exact ⟨by decide, by intro i hi; cases hi⟩
  all_goals
    intro stack h
    cases h

theorem exit_status_lost :
    ¬ DeliversExitStatus (taskInit 4096 8192)
      [.create (some 16384), .yield, .exit 7, .create (some 32768), .waitpid 3 0] := by
  intro h
  obtain ⟨k₄, hreply, _⟩ := h [.create (some 16384), .yield] (.exit 7) [.create (some 32768)] 0 []
    _ _ _ 2 rfl rfl rfl rfl ⟨by decide, by decide, by decide, by decide, by decide⟩
    ⟨1, by decide, by decide, by decide⟩
    (fun st hm => by
      have hm : Reply.waited (.reaped 3 st) ∈ [Reply.created (some 4)] := hm
      simp at hm)
    (by decide) (by decide)
  cases hreply

end HouseOS.Sched
