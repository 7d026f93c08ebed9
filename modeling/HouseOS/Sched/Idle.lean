import HouseOS.Sched.Forget

namespace HouseOS.Sched

open Kernel

variable {k k' q : Kernel} {e : Event}

def slotAt (k : Kernel) (d : Nat) : Nat := (k.currentTask + d) % k.taskCount

def Waiting (k : Kernel) (i : Nat) : Prop := i ≠ k.idleTask ∧ (k.tasks i).state = .ready

def CanRun (q : Kernel) : Prop :=
  ∃ i < q.taskCount, i ≠ q.idleTask ∧
    ((q.tasks i).state = .ready ∨ i = q.currentTask ∧ (q.tasks i).state = .running)

def LoneRunner (q : Kernel) : Prop :=
  q.currentTask ≠ q.idleTask ∧ q.current.state = .running ∧ ∀ i < q.taskCount, ¬Waiting q i

def rounds : Nat → Kernel → Option Kernel
  | 0, k => some k
  | n + 1, k => k.schedule.bind (rounds n)

structure IdleLast (q : Kernel) : Prop where
  notIdle : ∃ k', q.schedule = some k' ∧ (CanRun q → k'.currentTask ≠ k'.idleTask)
  round : ∀ i < q.taskCount, Waiting q i →
    ∃ n p, 0 < n ∧ n < q.taskCount ∧ rounds n q = some p ∧ p.currentTask = i

theorem schedScan_first (h : Ring k) {d : Nat} (hd : d ≤ k.taskCount) (hw : Waiting k (slotAt k d)) :
    ∀ (r m fuel : Nat) (firstIdle : Option Nat), m + (r + 1) = d → r + 1 ≤ fuel →
      (∀ j, m < j → j < d → ¬Waiting k (slotAt k j)) →
      k.schedScan fuel (slotAt k m) firstIdle = some (some (slotAt k d)) := by
  intro r
  induction r with
  | zero =>
    intro m fuel firstIdle hm hf _
    obtain ⟨fuel, rfl⟩ : ∃ f, fuel = f + 1 := ⟨fuel - 1, by omega⟩
    have hnext : (k.tasks (slotAt k m)).next = slotAt k d := by
      rw [slotAt, h.next_mod, ← hm]
      rfl
    simp only [schedScan, hnext, if_pos hw.2, if_neg hw.1]
  | succ r ih =>
    intro m fuel firstIdle hm hf hfree
    obtain ⟨fuel, rfl⟩ : ∃ f, fuel = f + 1 := ⟨fuel - 1, by omega⟩
    have hnext : (k.tasks (slotAt k m)).next = slotAt k (m + 1) := h.next_mod m
    have hcur : slotAt k (m + 1) ≠ k.currentTask := h.mod_ne_current (by omega) (by omega)
    have hrest (fi : Option Nat) : k.schedScan fuel (slotAt k (m + 1)) fi = some (some (slotAt k d)) :=
      ih (m + 1) fuel fi (by omega) (by omega) fun j hj => hfree j (by omega)
    simp only [schedScan, hnext]
    by_cases hready : (k.tasks (slotAt k (m + 1))).state = .ready
    · have hidle : slotAt k (m + 1) = k.idleTask := by
        by_contra hne
        exact hfree (m + 1) (by omega) (by omega) ⟨hne, hready⟩
      rw [if_pos hready, if_pos hidle, if_pos hcur]
      exact hrest _
    · rw [if_neg hready, if_pos hcur]
      exact hrest _

theorem AtCall.first (h : AtCall q) {d : Nat} (hpos : 0 < d) (hd : d ≤ q.taskCount)
    (hw : Waiting q (slotAt q d)) (hfree : ∀ j, 0 < j → j < d → ¬Waiting q (slotAt q j)) :
    q.schedule = some (q.switchTo (slotAt q d)) := by
  have hmax : q.taskCount ≤ maxTasks := h.ring.max
  have hscan := schedScan_first h.ring hd hw (d - 1) 0 maxTasks none (by omega) (by omega) hfree
  have hcur : slotAt (forget q) 0 = q.currentTask := Nat.mod_eq_of_lt h.ring.cur
  rw [hcur, schedScan_forget] at hscan
  simp only [schedule, hscan]
  rfl

theorem Ring.slotAt_of_lt (h : Ring k) {i : Nat} (hi : i < k.taskCount) (hne : i ≠ k.currentTask) :
    ∃ d, 0 < d ∧ d < k.taskCount ∧ slotAt k d = i := by
  have hcur := h.cur
  by_cases hlt : k.currentTask < i
  · refine ⟨i - k.currentTask, by omega, by omega, ?_⟩
    rw [slotAt, Nat.add_sub_cancel' (by omega), Nat.mod_eq_of_lt hi]
  · refine ⟨i + k.taskCount - k.currentTask, by omega, by omega, ?_⟩
    rw [slotAt, Nat.add_sub_cancel' (by omega), Nat.add_mod_right, Nat.mod_eq_of_lt hi]

theorem AtCall.distance (h : AtCall q) {i : Nat} (hi : i < q.taskCount) (hw : Waiting q i) :
    ∃ d, 0 < d ∧ d < q.taskCount ∧ slotAt q d = i :=
  Ring.slotAt_of_lt h.ring hi fun hc => h.notReady (hc ▸ hw.2)

theorem AtCall.nearest (h : AtCall q) {d : Nat} (hpos : 0 < d) (hd : d < q.taskCount)
    (hw : Waiting q (slotAt q d)) :
    ∃ c, 0 < c ∧ c ≤ d ∧ Waiting q (slotAt q c) ∧
      q.schedule = some (q.switchTo (slotAt q c)) := by
  classical
  have hex : ∃ c, 0 < c ∧ Waiting q (slotAt q c) := ⟨d, hpos, hw⟩
  obtain ⟨hcpos, hcw⟩ := Nat.find_spec hex
  have hle : Nat.find hex ≤ d := Nat.find_min' hex ⟨hpos, hw⟩
  refine ⟨Nat.find hex, hcpos, hle, hcw, h.first hcpos (by omega) hcw ?_⟩
  intro j hj hlt hjw
  exact Nat.find_min hex hlt ⟨hj, hjw⟩

-- a waiting task comes closer to the running one with every call that runs another task
theorem AtCall.approaches : ∀ (d : Nat) {q : Kernel}, AtCall q → 0 < d → d < q.taskCount →
    Waiting q (slotAt q d) →
    ∃ n p, 0 < n ∧ n ≤ d ∧ rounds n q = some p ∧ p.currentTask = slotAt q d := by
  intro d
  induction d using Nat.strong_induction_on with
  | _ d ih =>
    intro q h hpos hd hw
    obtain ⟨c, hcpos, hcd, hcw, hsched⟩ := h.nearest hpos hd hw
    by_cases heq : c = d
    · exact ⟨1, q.switchTo (slotAt q d), by omega, by omega, by simp [rounds, hsched, heq], by simp⟩
    · obtain ⟨k', hk', hturn⟩ := h.schedules
      rw [hsched] at hk'
      cases hk'
      have hcne : slotAt q c ≠ q.currentTask := h.ring.mod_ne_current hcpos (by
        show c < q.taskCount
        omega)
      have hquiet := quiet_switchTo hcw.2 hcne
      have hslot : slotAt (q.switchTo (slotAt q c)) (d - c) = slotAt q d := by
        rw [slotAt, switchTo_currentTask, hquiet.count, slotAt, Nat.mod_add_mod, slotAt]
        congr 1
        omega
      have hdne : slotAt q d ≠ q.currentTask := h.ring.mod_ne_current hpos hd
      have hdc : slotAt q d ≠ slotAt q c := by
        intro hsame
        have hcur : q.currentTask < q.taskCount := h.ring.cur
        rw [slotAt, slotAt, wrap_eq hcur hd, wrap_eq hcur (by omega)] at hsame
        split_ifs at hsame <;> omega
      have hwait : Waiting (q.switchTo (slotAt q c)) (slotAt (q.switchTo (slotAt q c)) (d - c)) := by
        rw [hslot]
        refine ⟨by rw [hquiet.idle]; exact hw.1, ?_⟩
        rw [switchTo_state hcne, if_neg hdc, if_neg (fun hx => hdne hx.1)]
        exact hw.2
      obtain ⟨n, p, hn, hle, hp, hcur⟩ :=
        ih (d - c) (by omega) hturn.atCall (by omega) (by rw [hquiet.count]; omega) hwait
      refine ⟨n + 1, p, by omega, by omega, ?_, hcur.trans hslot⟩
      rw [rounds, hsched]
      exact hp

theorem AtCall.runs_idle (h : AtCall q) (hcur : q.currentTask ≠ q.idleTask)
    (hnone : ∀ i < q.taskCount, ¬Waiting q i) :
    ∃ k', q.schedule = some k' ∧ k'.currentTask = k'.idleTask := by
  have hidle : q.idleTask = 0 := h.ring.idle
  have htwo : 2 ≤ q.taskCount := h.ring.two
  have hmax : q.taskCount ≤ maxTasks := h.ring.max
  have hready : (q.tasks 0).state = .ready := by
    rcases h.ring.idleState with hs | ⟨hc, -⟩
    · exact hs
    · exact absurd (Eq.trans hc hidle.symm) hcur
  obtain ⟨res, hres, hsome, hno⟩ := schedScan_spec h.ring (q.taskCount - 1) 0 maxTasks none
    (by show 0 + (q.taskCount - 1 + 1) = q.taskCount; omega) (by omega) (by simp)
  rw [Nat.add_zero, Nat.mod_eq_of_lt h.ring.cur, schedScan_forget] at hres
  have hscan : q.schedScan maxTasks q.currentTask none = some res := hres
  cases res with
  | none =>
    obtain ⟨d, hpos, hd, hslot⟩ := h.ring.slotAt_of_lt (i := 0) (Nat.lt_of_lt_of_le Nat.two_pos htwo)
      (fun hc => hcur (Eq.trans hc.symm hidle.symm))
    have hbusy := (hno rfl).2 d hpos (Nat.le_of_lt hd)
    have hslot : (q.currentTask + d) % q.taskCount = 0 := hslot
    exact absurd (hslot ▸ hready) hbusy
  | some n =>
    obtain ⟨hn, hnready⟩ : n < q.taskCount ∧ (q.tasks n).state = .ready := hsome n rfl
    have hnidle : n = q.idleTask := by
      by_contra hne
      exact hnone n hn ⟨hne, hnready⟩
    have hne : n ≠ q.currentTask := fun hc => hcur (hc.symm.trans hnidle)
    refine ⟨q.switchTo n, by simp [schedule, hscan], ?_⟩
    rw [switchTo_currentTask, (quiet_switchTo hnready hne).idle]
    exact hnidle

theorem AtCall.idleLast_iff (h : AtCall q) : IdleLast q ↔ ¬LoneRunner q := by
  constructor
  · rintro ⟨⟨k', hk', hnot⟩, -⟩ ⟨hcur, hrun, hnone⟩
    obtain ⟨p, hp, hidle⟩ := h.runs_idle hcur hnone
    rw [hk'] at hp
    cases hp
    exact hnot ⟨q.currentTask, h.ring.cur, hcur, Or.inr ⟨rfl, hrun⟩⟩ hidle
  · intro hlone
    refine ⟨?_, ?_⟩
    · by_cases hcan : CanRun q
      · have hwait : ∃ i < q.taskCount, Waiting q i := by
          by_contra hnone
          have hnone (i : Nat) (hi : i < q.taskCount) : ¬Waiting q i := fun hw => hnone ⟨i, hi, hw⟩
          obtain ⟨i, hi, hidle, hs | ⟨rfl, hs⟩⟩ := hcan
          · exact hnone i hi ⟨hidle, hs⟩
          · exact hlone ⟨hidle, hs, hnone⟩
        obtain ⟨i, hi, hw⟩ := hwait
        obtain ⟨d, hpos, hd, rfl⟩ := h.distance hi hw
        obtain ⟨c, hcpos, hcd, hcw, hsched⟩ := h.nearest hpos hd hw
        have hcne : slotAt q c ≠ q.currentTask :=
          h.ring.mod_ne_current hcpos (Nat.lt_of_le_of_lt hcd hd)
        refine ⟨_, hsched, fun _ => ?_⟩
        rw [switchTo_currentTask, (quiet_switchTo hcw.2 hcne).idle]
        exact hcw.1
      · obtain ⟨k', hk', -⟩ := h.schedules
        exact ⟨k', hk', fun hc => absurd hc hcan⟩
    · intro i hi hw
      obtain ⟨d, hpos, hd, rfl⟩ := h.distance hi hw
      obtain ⟨n, p, hn, hle, hp, hcur⟩ := AtCall.approaches d h hpos hd hw
      exact ⟨n, p, hn, by omega, hp, hcur⟩

theorem schedule_runs_idle_last_iff (kernelCr3 idleStack : Nat) (es : List Event) (k q : Kernel)
    (e : Event) (hrun : Run.run step (taskInit kernelCr3 idleStack) es = some k)
    (hen : e.enabled k = true) (hq : scheduleCall k e = some q) :
    step k e = q.schedule ∧ (IdleLast q ↔ ¬LoneRunner q) := by
  have halong : Run.Along step (fun _ _ => True) (taskInit kernelCr3 idleStack) es :=
    Run.along_of_forall (fun _ _ => trivial) es _
  have hturn : Turning k := Run.run_invariant (fun _ _ _ ht _ => turning_step ht) es _ k
    (sound_forget (sound_taskInit kernelCr3 idleStack)) halong hrun
  exact ⟨step_of_call hen hq, (hturn.atCall_event hen hq).idleLast_iff⟩

theorem schedule_runs_idle_last_after_spawn :
    ∃ k q, Run.run step (taskInit 4096 8192) [.create (some 16384)] = some k ∧
      scheduleCall k .tick = some q ∧ step k .tick = q.schedule ∧ (IdleLast q ↔ ¬LoneRunner q) :=
  ⟨_, _, rfl, rfl, schedule_runs_idle_last_iff 4096 8192 [.create (some 16384)] _ _ .tick rfl rfl rfl⟩

-- the init task alone: the first tick gives the processor to the idle task
theorem lone_init_task_loses_the_tick :
    ∃ q k', scheduleCall (taskInit 4096 8192) .tick = some q ∧ CanRun q ∧
      step (taskInit 4096 8192) .tick = some k' ∧ k'.currentTask = k'.idleTask :=
  ⟨_, _, rfl, ⟨1, by decide, by decide, Or.inr ⟨rfl, rfl⟩⟩, rfl, rfl⟩

end HouseOS.Sched
