import HouseOS.Sched.Model
import Mathlib.Tactic

namespace HouseOS.Sched

namespace Kernel

@[simp] theorem setTask_tasks_same (k : Kernel) (i : Nat) (t : Task) :
    (k.setTask i t).tasks i = t := by
  simp [setTask]

theorem setTask_tasks_ne (k : Kernel) {i j : Nat} (t : Task) (h : j ≠ i) :
    (k.setTask i t).tasks j = k.tasks j := by
  simp [setTask, h]

@[simp] theorem setTask_taskCount (k : Kernel) (i : Nat) (t : Task) :
    (k.setTask i t).taskCount = k.taskCount := rfl

@[simp] theorem setTask_nextPid (k : Kernel) (i : Nat) (t : Task) :
    (k.setTask i t).nextPid = k.nextPid := rfl

@[simp] theorem setTask_currentTask (k : Kernel) (i : Nat) (t : Task) :
    (k.setTask i t).currentTask = k.currentTask := rfl

@[simp] theorem setTask_idleTask (k : Kernel) (i : Nat) (t : Task) :
    (k.setTask i t).idleTask = k.idleTask := rfl

end Kernel

open Kernel

structure StateOnly (k k' : Kernel) : Prop where
  count : k'.taskCount = k.taskCount
  nextPid : k'.nextPid = k.nextPid
  idle : k'.idleTask = k.idleTask
  head : k'.readyHead = k.readyHead
  tail : k'.readyTail = k.readyTail
  pid : ∀ j, (k'.tasks j).pid = (k.tasks j).pid
  ppid : ∀ j, (k'.tasks j).ppid = (k.tasks j).ppid
  next : ∀ j, (k'.tasks j).next = (k.tasks j).next
  dead : ∀ j, (k.tasks j).state = .terminated → (k'.tasks j).state = .terminated ∧
    (k'.tasks j).exitStatus = (k.tasks j).exitStatus ∧
    (k'.tasks j).termSignal = (k.tasks j).termSignal

namespace StateOnly

theorem refl (k : Kernel) : StateOnly k k :=
  ⟨rfl, rfl, rfl, rfl, rfl, fun _ => rfl, fun _ => rfl, fun _ => rfl, fun _ h => ⟨h, rfl, rfl⟩⟩

theorem trans {k₁ k₂ k₃ : Kernel} (h : StateOnly k₁ k₂) (g : StateOnly k₂ k₃) :
    StateOnly k₁ k₃ where
  count := g.count.trans h.count
  nextPid := g.nextPid.trans h.nextPid
  idle := g.idle.trans h.idle
  head := g.head.trans h.head
  tail := g.tail.trans h.tail
  pid j := (g.pid j).trans (h.pid j)
  ppid j := (g.ppid j).trans (h.ppid j)
  next j := (g.next j).trans (h.next j)
  dead j hj := by
    obtain ⟨hs, he, ht⟩ := h.dead j hj
    obtain ⟨hs', he', ht'⟩ := g.dead j hs
    exact ⟨hs', he'.trans he, ht'.trans ht⟩

theorem of_setTask (k : Kernel) (i : Nat) (t : Task) (hlive : (k.tasks i).state ≠ .terminated)
    (hpid : t.pid = (k.tasks i).pid) (hppid : t.ppid = (k.tasks i).ppid)
    (hnext : t.next = (k.tasks i).next) : StateOnly k (k.setTask i t) where
  count := rfl
  nextPid := rfl
  idle := rfl
  head := rfl
  tail := rfl
  pid j := by by_cases h : j = i <;> simp [setTask, h, hpid]
  ppid j := by by_cases h : j = i <;> simp [setTask, h, hppid]
  next j := by by_cases h : j = i <;> simp [setTask, h, hnext]
  dead j hj := by
    have hne : j ≠ i := fun h => hlive (h ▸ hj)
    rw [setTask_tasks_ne k t hne]
    exact ⟨hj, rfl, rfl⟩

theorem of_current (k : Kernel) (n : Nat) : StateOnly k { k with currentTask := n } :=
  ⟨rfl, rfl, rfl, rfl, rfl, fun _ => rfl, fun _ => rfl, fun _ => rfl, fun _ h => ⟨h, rfl, rfl⟩⟩

theorem of_setState (k : Kernel) (i : Nat) (s : TaskState)
    (hlive : (k.tasks i).state ≠ .terminated) : StateOnly k (k.setState i s) :=
  of_setTask k i _ hlive rfl rfl rfl

end StateOnly

structure Quiet (k k' : Kernel) : Prop extends StateOnly k k' where
  exitStatus : ∀ j, (k'.tasks j).exitStatus = (k.tasks j).exitStatus
  termSignal : ∀ j, (k'.tasks j).termSignal = (k.tasks j).termSignal
  alive : ∀ j, (k'.tasks j).state = .terminated → (k.tasks j).state = .terminated

namespace Quiet

theorem refl (k : Kernel) : Quiet k k :=
  ⟨StateOnly.refl k, fun _ => rfl, fun _ => rfl, fun _ h => h⟩

theorem trans {k₁ k₂ k₃ : Kernel} (h : Quiet k₁ k₂) (g : Quiet k₂ k₃) : Quiet k₁ k₃ where
  toStateOnly := h.toStateOnly.trans g.toStateOnly
  exitStatus j := (g.exitStatus j).trans (h.exitStatus j)
  termSignal j := (g.termSignal j).trans (h.termSignal j)
  alive j hj := h.alive j (g.alive j hj)

theorem of_current (k : Kernel) (n : Nat) : Quiet k { k with currentTask := n } :=
  ⟨StateOnly.of_current k n, fun _ => rfl, fun _ => rfl, fun _ h => h⟩

theorem of_setState (k : Kernel) (i : Nat) (s : TaskState)
    (hlive : (k.tasks i).state ≠ .terminated) (hs : s ≠ .terminated) :
    Quiet k (k.setState i s) where
  toStateOnly := StateOnly.of_setState k i s hlive
  exitStatus j := by by_cases h : j = i <;> simp [setState, setTask, h]
  termSignal j := by by_cases h : j = i <;> simp [setState, setTask, h]
  alive j hj := by
    by_cases h : j = i
    · simp [setState, h, hs] at hj
    · rwa [setState, setTask_tasks_ne k _ h] at hj

end Quiet

structure Ring (k : Kernel) : Prop where
  two : 2 ≤ k.taskCount
  max : k.taskCount ≤ maxTasks
  idle : k.idleTask = 0
  cur : k.currentTask < k.taskCount
  next : ∀ i < k.taskCount, (k.tasks i).next = if i + 1 = k.taskCount then 0 else i + 1
  head : k.readyHead = some 0
  tail : k.readyTail = some (k.taskCount - 1)
  idleState : (k.tasks 0).state = .ready ∨ k.currentTask = 0 ∧ (k.tasks 0).state = .running
  pidBelow : ∀ i < k.taskCount, (k.tasks i).pid < k.nextPid
  ppidBelow : ∀ i < k.taskCount, (k.tasks i).ppid < k.nextPid
  pidUnique : ∀ i < k.taskCount, ∀ j < k.taskCount, (k.tasks i).pid = (k.tasks j).pid →
    (k.tasks i).pid ≠ 0 → i = j
  pidLimit : k.nextPid < 2 ^ 32

structure Sound (k : Kernel) : Prop extends Ring k where
  running : (k.tasks k.currentTask).state = .running

theorem Ring.of_stateOnly {k k' : Kernel} (h : Ring k) (g : StateOnly k k')
    (hcur : k'.currentTask < k.taskCount)
    (hidle : (k'.tasks 0).state = .ready ∨ k'.currentTask = 0 ∧ (k'.tasks 0).state = .running) :
    Ring k' where
  two := g.count ▸ h.two
  max := g.count ▸ h.max
  idle := g.idle.trans h.idle
  cur := g.count ▸ hcur
  next i hi := by rw [g.next, g.count]; exact h.next i (g.count ▸ hi)
  head := g.head.trans h.head
  tail := by rw [g.tail, g.count]; exact h.tail
  idleState := hidle
  pidBelow i hi := by rw [g.pid, g.nextPid]; exact h.pidBelow i (g.count ▸ hi)
  ppidBelow i hi := by rw [g.ppid, g.nextPid]; exact h.ppidBelow i (g.count ▸ hi)
  pidUnique i hi j hj := by
    rw [g.pid, g.pid]
    exact h.pidUnique i (g.count ▸ hi) j (g.count ▸ hj)
  pidLimit := g.nextPid ▸ h.pidLimit

theorem Ring.next_mod {k : Kernel} (h : Ring k) (m : Nat) :
    (k.tasks ((k.currentTask + m) % k.taskCount)).next =
      (k.currentTask + (m + 1)) % k.taskCount := by
  have hpos : 0 < k.taskCount := by have := h.two; omega
  have hlt := Nat.mod_lt (k.currentTask + m) hpos
  rw [h.next _ hlt, ← Nat.add_assoc, Nat.add_mod (k.currentTask + m) 1 k.taskCount]
  have hone : 1 % k.taskCount = 1 := Nat.mod_eq_of_lt (by have := h.two; omega)
  rw [hone]
  split
  next heq => rw [heq, Nat.mod_self]
  next hne => exact (Nat.mod_eq_of_lt (by omega)).symm

theorem Ring.mod_ne_current {k : Kernel} (h : Ring k) {m : Nat} (h1 : 0 < m)
    (h2 : m < k.taskCount) : (k.currentTask + m) % k.taskCount ≠ k.currentTask := by
  have hcur := h.cur
  intro heq
  by_cases hw : k.currentTask + m < k.taskCount
  · rw [Nat.mod_eq_of_lt hw] at heq
    omega
  · rw [Nat.mod_eq_sub_mod (by omega), Nat.mod_eq_of_lt (by omega)] at heq
    omega

theorem schedScan_spec {k : Kernel} (h : Ring k) : ∀ (r m fuel : Nat) (firstIdle : Option Nat),
    m + (r + 1) = k.taskCount → r + 1 ≤ fuel →
    (∀ n, firstIdle = some n → n < k.taskCount ∧ (k.tasks n).state = .ready) →
    ∃ res, k.schedScan fuel ((k.currentTask + m) % k.taskCount) firstIdle = some res ∧
      (∀ n, res = some n → n < k.taskCount ∧ (k.tasks n).state = .ready) ∧
      (res = none → firstIdle = none ∧ ∀ j, m < j → j ≤ k.taskCount →
        (k.tasks ((k.currentTask + j) % k.taskCount)).state ≠ .ready) := by
  have hpos : 0 < k.taskCount := by have := h.two; omega
  have hself : (k.currentTask + k.taskCount) % k.taskCount = k.currentTask := by
    rw [Nat.add_mod_right, Nat.mod_eq_of_lt h.cur]
  intro r
  induction r with
  | zero =>
    intro m fuel firstIdle hm hf hfi
    obtain ⟨fuel, rfl⟩ : ∃ f, fuel = f + 1 := ⟨fuel - 1, by omega⟩
    have hm : m + 1 = k.taskCount := by omega
    simp only [schedScan, h.next_mod, hm, hself]
    by_cases hr : (k.tasks k.currentTask).state = .ready
    · by_cases hi : k.currentTask = k.idleTask
      · rw [if_pos hr, if_pos hi]
        simp only [ne_eq, not_true_eq_false, if_false]
        refine ⟨_, rfl, ?_, ?_⟩
        · intro n hn
          cases firstIdle with
          | none =>
            cases hn
            exact ⟨hi ▸ h.cur, hi ▸ hr⟩
          | some q => exact hfi n hn
        · intro hn
          cases firstIdle <;> simp at hn
      · simp only [hr, hi, if_true, if_false]
        exact ⟨_, rfl, by rintro n ⟨⟩; exact ⟨h.cur, hr⟩, by simp⟩
    · simp only [hr, if_false, ne_eq, not_true_eq_false]
      refine ⟨_, rfl, hfi, fun hn => ⟨hn, ?_⟩⟩
      intro j hj hjle
      have : j = k.taskCount := by omega
      rw [this, hself]
      exact hr
  | succ r ih =>
    intro m fuel firstIdle hm hf hfi
    obtain ⟨fuel, rfl⟩ : ∃ f, fuel = f + 1 := ⟨fuel - 1, by omega⟩
    have hne := h.mod_ne_current (m := m + 1) (by omega) (by omega)
    have hlt := Nat.mod_lt (k.currentTask + (m + 1)) hpos
    simp only [schedScan, h.next_mod]
    by_cases hr : (k.tasks ((k.currentTask + (m + 1)) % k.taskCount)).state = .ready
    · by_cases hi : (k.currentTask + (m + 1)) % k.taskCount = k.idleTask
      · simp only [hr, if_true, ne_eq, hne, not_false_eq_true]
        rw [if_pos hi]
        obtain ⟨res, hres, hsome, hnone⟩ := ih (m + 1) fuel
          (firstIdle <|> some ((k.currentTask + (m + 1)) % k.taskCount)) (by omega) (by omega) (by
            intro n hn
            cases firstIdle with
            | none =>
              cases hn
              exact ⟨hlt, hr⟩
            | some q => exact hfi n hn)
        refine ⟨res, hres, hsome, fun hn => ?_⟩
        have := (hnone hn).1
        cases firstIdle <;> simp at this
      · simp only [hr, hi, if_true, if_false]
        exact ⟨_, rfl, by rintro n ⟨⟩; exact ⟨hlt, hr⟩, by simp⟩
    · simp only [hr, if_false, ne_eq, hne, not_false_eq_true, if_true]
      obtain ⟨res, hres, hsome, hnone⟩ := ih (m + 1) fuel firstIdle (by omega) (by omega) hfi
      refine ⟨res, hres, hsome, fun hn => ⟨(hnone hn).1, ?_⟩⟩
      intro j hj hjle
      by_cases hjm : j = m + 1
      · rw [hjm]
        exact hr
      · exact (hnone hn).2 j (by omega) hjle

theorem setState_state (k : Kernel) (i j : Nat) (t : TaskState) :
    ((k.setState i t).tasks j).state = if j = i then t else (k.tasks j).state := by
  by_cases h : j = i <;> simp [setState, setTask, h]

theorem switchTo_eq {k : Kernel} {n : Nat} (hne : n ≠ k.currentTask) :
    k.switchTo n =
      if (k.tasks k.currentTask).state = .running then
        (({ k with currentTask := n }).setState n .running).setState k.currentTask .ready
      else ({ k with currentTask := n }).setState n .running := by
  have hcn : k.currentTask ≠ n := fun h => hne h.symm
  simp only [switchTo, setState_state, if_neg hcn]

theorem quiet_switchTo {k : Kernel} {n : Nat} (hready : (k.tasks n).state = .ready)
    (hne : n ≠ k.currentTask) : Quiet k (k.switchTo n) := by
  have hset : Quiet k (({ k with currentTask := n } : Kernel).setState n .running) :=
    (Quiet.of_current k n).trans
      (Quiet.of_setState { k with currentTask := n } n .running (by simp [hready]) (by simp))
  rw [switchTo_eq hne]
  split
  next hrun =>
    refine hset.trans (Quiet.of_setState _ _ _ ?_ (by simp))
    rw [setState_state, if_neg hne.symm]
    simp [hrun]
  next => exact hset

theorem switchTo_state {k : Kernel} {n : Nat} (hne : n ≠ k.currentTask) (j : Nat) :
    ((k.switchTo n).tasks j).state =
      if j = n then .running
      else if j = k.currentTask ∧ (k.tasks j).state = .running then .ready
      else (k.tasks j).state := by
  rw [switchTo_eq hne]
  by_cases hrun : (k.tasks k.currentTask).state = .running
  · rw [if_pos hrun, setState_state, setState_state]
    by_cases hj : j = k.currentTask
    · subst hj
      simp [hne.symm, hrun]
    · simp [hj]
  · rw [if_neg hrun, setState_state]
    by_cases hj : j = k.currentTask
    · subst hj
      simp [hrun]
    · simp [hj]

@[simp] theorem switchTo_currentTask (k : Kernel) (n : Nat) :
    (k.switchTo n).currentTask = n := by
  unfold switchTo
  simp only
  split <;> rfl

theorem schedule_spec {k : Kernel} (h : Ring k) (hnot : (k.tasks k.currentTask).state ≠ .ready) :
    ∃ k', k.schedule = some k' ∧ Sound k' ∧ Quiet k k' := by
  have htwo := h.two
  have hmax := h.max
  obtain ⟨res, hres, hsome, hnone⟩ := schedScan_spec h (k.taskCount - 1) 0 maxTasks none
    (by omega) (by omega) (by simp)
  rw [Nat.add_zero, Nat.mod_eq_of_lt h.cur] at hres
  cases res with
  | none =>
    refine ⟨k, by simp [schedule, hres], ⟨h, ?_⟩, Quiet.refl k⟩
    have hidle : (k.tasks 0).state ≠ .ready := by
      have hj := (hnone rfl).2 (k.taskCount - k.currentTask) (by have := h.cur; omega) (by omega)
      have hz : (k.currentTask + (k.taskCount - k.currentTask)) % k.taskCount = 0 := by
        rw [Nat.add_sub_cancel' (le_of_lt h.cur), Nat.mod_self]
      rwa [hz] at hj
    rcases h.idleState with hs | ⟨hc, hs⟩
    · exact absurd hs hidle
    · rw [hc]
      exact hs
  | some n =>
    obtain ⟨hn, hready⟩ := hsome n rfl
    have hne : n ≠ k.currentTask := fun heq => hnot (heq ▸ hready)
    have hso := quiet_switchTo hready hne
    refine ⟨k.switchTo n, by simp [schedule, hres], ⟨?_, ?_⟩, hso⟩
    · refine h.of_stateOnly hso.toStateOnly (by simpa using hn) ?_
      rw [switchTo_state hne, switchTo_currentTask]
      by_cases h0 : 0 = n
      · exact Or.inr ⟨h0.symm, by simp [h0]⟩
      · left
        rcases h.idleState with hs | ⟨hc, hs⟩
        · simp [h0, hs]
        · simp [h0, hc, hs]
    · rw [switchTo_currentTask, switchTo_state hne]
      simp

theorem ring_taskInit (kernelCr3 idleStack : Nat) : Ring (taskInit kernelCr3 idleStack) where
  two := le_refl 2
  max := by show 2 ≤ 16; decide
  idle := rfl
  cur := by show 1 < 2; decide
  next i hi := by
    have hi : i < 2 := hi
    obtain rfl | rfl : i = 0 ∨ i = 1 := by omega
    · rfl
    · rfl
  head := rfl
  tail := rfl
  idleState := Or.inl rfl
  pidBelow i hi := by
    have hi : i < 2 := hi
    obtain rfl | rfl : i = 0 ∨ i = 1 := by omega
    · show 1 < 3; decide
    · show 2 < 3; decide
  ppidBelow i hi := by
    have hi : i < 2 := hi
    obtain rfl | rfl : i = 0 ∨ i = 1 := by omega
    · show 0 < 3; decide
    · show 0 < 3; decide
  pidUnique i hi j hj heq _ := by
    have hi : i < 2 := hi
    have hj : j < 2 := hj
    obtain rfl | rfl : i = 0 ∨ i = 1 := by omega
    · obtain rfl | rfl : j = 0 ∨ j = 1 := by omega
      · rfl
      · cases heq
    · obtain rfl | rfl : j = 0 ∨ j = 1 := by omega
      · cases heq
      · rfl
  pidLimit := by show 3 < 2 ^ 32; decide

theorem sound_taskInit (kernelCr3 idleStack : Nat) : Sound (taskInit kernelCr3 idleStack) :=
  ⟨ring_taskInit kernelCr3 idleStack, rfl⟩

end HouseOS.Sched
