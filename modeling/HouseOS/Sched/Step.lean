import HouseOS.Sched.Invariant

namespace HouseOS.Sched

open Kernel

theorem taskReleaseResources_eq (k : Kernel) (i : Nat) : ∃ used released,
    k.taskReleaseResources i =
      { k with
        tasks := fun j => if j = i then
            { k.tasks i with stack := none, cr3 := k.kernelCr3, userSlot := noSlot,
                             userPhysBase := 0 }
          else k.tasks j
        userSlotUsed := used
        released := released } := by
  have hfree : ∀ (q : Kernel) (slot : Nat), ∃ used,
      q.userSlotFree slot = { q with userSlotUsed := used } := by
    intro q slot
    unfold userSlotFree
    split <;> exact ⟨_, rfl⟩
  unfold taskReleaseResources
  obtain ⟨u₁, hu₁⟩ := hfree (k.releasePtr (k.tasks i).cr3) (k.tasks i).userSlot
  obtain ⟨u₂, hu₂⟩ := hfree k (k.tasks i).userSlot
  by_cases hcr3 : (k.tasks i).cr3 ≠ 0 ∧ (k.tasks i).cr3 ≠ k.kernelCr3 <;>
    by_cases hslot : (k.tasks i).userSlot ≠ noSlot <;>
      cases hstack : (k.tasks i).stack <;>
        simp only [hcr3, hslot, hstack, if_true, if_false, ne_eq, not_false_eq_true, and_self,
          hu₁, hu₂] <;> exact ⟨_, _, rfl⟩

structure Renewed (k k' : Kernel) (i pid ppid : Nat) : Prop where
  idle : k'.idleTask = k.idleTask
  current : k'.currentTask = k.currentTask
  head : k'.readyHead = k.readyHead
  pid : (k'.tasks i).pid = pid
  ppid : (k'.tasks i).ppid = ppid
  other : ∀ j, j ≠ i → (k'.tasks j).pid = (k.tasks j).pid ∧
    (k'.tasks j).ppid = (k.tasks j).ppid ∧ (k'.tasks j).state = (k.tasks j).state ∧
    (k'.tasks j).exitStatus = (k.tasks j).exitStatus ∧
    (k'.tasks j).termSignal = (k.tasks j).termSignal

theorem fillTask_renewed (k : Kernel) {i : Nat} (stack : Nat) (hi : k.currentTask ≠ i) :
    Renewed k (k.fillTask i stack) i k.nextPid k.current.pid ∧
    (k.fillTask i stack).taskCount = k.taskCount ∧ (k.fillTask i stack).readyTail = k.readyTail ∧
    (k.fillTask i stack).nextPid = (k.nextPid + 1) % 2 ^ 32 ∧
    (∀ j, ((k.fillTask i stack).tasks j).next = (k.tasks j).next) ∧
    ((k.fillTask i stack).tasks i).state = .ready := by
  refine ⟨⟨rfl, rfl, rfl, ?_, ?_, ?_⟩, rfl, rfl, rfl, ?_, ?_⟩
  · simp [fillTask, setTask]
  · simp [fillTask, setTask, current, hi]
  · intro j hj
    simp [fillTask, setTask, hj]
  · intro j
    by_cases hj : j = i <;> simp [fillTask, setTask, hj]
  · simp [fillTask, setTask]

theorem reapTask_renewed (k : Kernel) (i : Nat) :
    Renewed k (k.reapTask i) i 0 0 ∧ (k.reapTask i).taskCount = k.taskCount ∧
    (k.reapTask i).readyTail = k.readyTail ∧ (k.reapTask i).nextPid = k.nextPid ∧
    (∀ j, ((k.reapTask i).tasks j).next = (k.tasks j).next) ∧
    ((k.reapTask i).tasks i).state = .terminated := by
  obtain ⟨used, released, heq⟩ := taskReleaseResources_eq k i
  unfold reapTask
  rw [heq]
  refine ⟨⟨rfl, rfl, rfl, ?_, ?_, ?_⟩, rfl, rfl, rfl, ?_, ?_⟩
  · simp [setTask]
  · simp [setTask]
  · intro j hj
    simp [setTask, hj]
  · intro j
    by_cases hj : j = i <;> simp [setTask, hj]
  · simp [setTask]

theorem linkNewTask_shape {k : Kernel} (htwo : 2 ≤ k.taskCount) (hhead : k.readyHead = some 0)
    (htail : k.readyTail = some (k.taskCount - 1))
    (hnext : ∀ i < k.taskCount, (k.tasks i).next = if i + 1 = k.taskCount then 0 else i + 1) :
    Renewed k k.linkNewTask k.taskCount (k.tasks k.taskCount).pid (k.tasks k.taskCount).ppid ∧
    k.linkNewTask.taskCount = k.taskCount + 1 ∧ k.linkNewTask.readyTail = some k.taskCount ∧
    k.linkNewTask.nextPid = k.nextPid ∧
    (∀ i < k.taskCount + 1, (k.linkNewTask.tasks i).next =
      if i + 1 = k.taskCount + 1 then 0 else i + 1) := by
  have hne : k.taskCount - 1 ≠ k.taskCount := by omega
  unfold linkNewTask
  simp only [hhead, htail]
  refine ⟨⟨rfl, rfl, ?_, ?_, ?_, ?_⟩, rfl, trivial, rfl, ?_⟩
  · simp [setTask, hhead]
  · simp [setTask, hne.symm]
  · simp [setTask, hne.symm]
  · intro j hj
    by_cases hl : j = k.taskCount - 1 <;> simp [setTask, hj, hl, hne]
  · intro i hi
    by_cases hl : i = k.taskCount - 1
    · have : i ≠ k.taskCount := by omega
      simp only [setTask, hl, if_true]
      rw [if_neg (by omega)]
      omega
    · by_cases hc : i = k.taskCount
      · simp [setTask, hc, hne.symm]
      · simp only [setTask, hl, hc, if_false]
        rw [hnext i (by omega), if_neg (by omega), if_neg (by omega)]

theorem recycle_renewed (k : Kernel) {i : Nat} (stack : Nat) (hi : k.currentTask ≠ i) :
    Renewed k ((k.taskReleaseResources i).fillTask i stack) i k.nextPid k.current.pid ∧
    ((k.taskReleaseResources i).fillTask i stack).taskCount = k.taskCount ∧
    ((k.taskReleaseResources i).fillTask i stack).readyTail = k.readyTail ∧
    ((k.taskReleaseResources i).fillTask i stack).nextPid = (k.nextPid + 1) % 2 ^ 32 ∧
    (∀ j, (((k.taskReleaseResources i).fillTask i stack).tasks j).next = (k.tasks j).next) := by
  obtain ⟨used, released, heq⟩ := taskReleaseResources_eq k i
  rw [heq]
  refine ⟨⟨rfl, rfl, rfl, ?_, ?_, ?_⟩, rfl, rfl, rfl, ?_⟩
  · simp [fillTask, setTask]
  · simp [fillTask, setTask, current, hi]
  · intro j hj
    simp [fillTask, setTask, hj]
  · intro j
    by_cases hj : j = i <;> simp [fillTask, setTask, hj]

theorem append_renewed {k : Kernel} (h : Ring k) (stack : Nat) :
    Renewed k (k.linkNewTask.fillTask k.taskCount stack) k.taskCount k.nextPid k.current.pid ∧
    (k.linkNewTask.fillTask k.taskCount stack).taskCount = k.taskCount + 1 ∧
    (k.linkNewTask.fillTask k.taskCount stack).readyTail = some k.taskCount ∧
    (k.linkNewTask.fillTask k.taskCount stack).nextPid = (k.nextPid + 1) % 2 ^ 32 ∧
    (∀ i < k.taskCount + 1, ((k.linkNewTask.fillTask k.taskCount stack).tasks i).next =
      if i + 1 = k.taskCount + 1 then 0 else i + 1) := by
  obtain ⟨hl, hlc, hlt, hln, hlx⟩ := linkNewTask_shape h.two h.head h.tail h.next
  have hcur : k.linkNewTask.currentTask ≠ k.taskCount := by
    rw [hl.current]
    have := h.cur
    omega
  obtain ⟨hf, hfc, hft, hfn, hfx, _⟩ := fillTask_renewed k.linkNewTask stack hcur
  have hpid : k.linkNewTask.current.pid = k.current.pid := by
    have := h.cur
    rw [current, hl.current]
    exact (hl.other _ (by omega)).1
  refine ⟨⟨hf.idle.trans hl.idle, hf.current.trans hl.current, hf.head.trans hl.head,
    hf.pid.trans hln, hf.ppid.trans hpid, ?_⟩, hfc.trans hlc, hft.trans hlt, ?_, ?_⟩
  · intro j hj
    obtain ⟨h1, h2, h3, h4, h5⟩ := hf.other j hj
    obtain ⟨g1, g2, g3, g4, g5⟩ := hl.other j hj
    exact ⟨h1.trans g1, h2.trans g2, h3.trans g3, h4.trans g4, h5.trans g5⟩
  · rw [hfn, hln]
  · intro i hi
    rw [hfx]
    exact hlx i hi

theorem Sound.renew {k k' : Kernel} {i p pp : Nat} (h : Sound k) (r : Renewed k k' i p pp)
    (hcur : i ≠ k.currentTask) (h0 : i ≠ 0)
    (hcount : k'.taskCount = k.taskCount ∨ k'.taskCount = k.taskCount + 1 ∧ i = k.taskCount)
    (hmax : k'.taskCount ≤ maxTasks) (htail : k'.readyTail = some (k'.taskCount - 1))
    (hnext : ∀ j < k'.taskCount, (k'.tasks j).next = if j + 1 = k'.taskCount then 0 else j + 1)
    (hle : k.nextPid ≤ k'.nextPid) (hlim : k'.nextPid < 2 ^ 32) (hp : p < k'.nextPid)
    (hpp : pp < k'.nextPid) (hfresh : p = 0 ∨ k.nextPid ≤ p) : Sound k' := by
  have hold : ∀ j < k'.taskCount, j ≠ i → j < k.taskCount := by
    intro j hj hne
    rcases hcount with hc | ⟨hc, hi⟩ <;> omega
  refine ⟨⟨?_, hmax, r.idle.trans h.idle, ?_, hnext, r.head.trans h.head, htail, ?_, ?_, ?_, ?_,
    hlim⟩, ?_⟩
  · have := h.two
    omega
  · rw [r.current]
    have := h.cur
    omega
  · rw [r.current, (r.other 0 h0.symm).2.2.1]
    exact h.idleState
  · intro j hj
    by_cases hji : j = i
    · rw [hji, r.pid]
      exact hp
    · rw [(r.other j hji).1]
      exact lt_of_lt_of_le (h.pidBelow j (hold j hj hji)) hle
  · intro j hj
    by_cases hji : j = i
    · rw [hji, r.ppid]
      exact hpp
    · rw [(r.other j hji).2.1]
      exact lt_of_lt_of_le (h.ppidBelow j (hold j hj hji)) hle
  · have hclash : ∀ j < k'.taskCount, j ≠ i → (k'.tasks j).pid = p → p ≠ 0 → False := by
      intro j hj hji heq hp0
      have hb := h.pidBelow j (hold j hj hji)
      rw [(r.other j hji).1] at heq
      omega
    intro a ha b hb heq hne
    by_cases hai : a = i <;> by_cases hbi : b = i
    · rw [hai, hbi]
    · rw [hai, r.pid] at heq hne
      exact (hclash b hb hbi heq.symm hne).elim
    · rw [hbi, r.pid] at heq
      exact (hclash a ha hai heq (heq ▸ hne)).elim
    · rw [(r.other a hai).1] at heq hne
      rw [(r.other b hbi).1] at heq
      exact h.pidUnique a (hold a ha hai) b (hold b hb hbi) heq hne
  · rw [r.current, (r.other _ hcur.symm).2.2.1]
    exact h.running

theorem findTerminated_some {k : Kernel} {i : Nat} (h : k.findTerminated = some i) :
    i < k.taskCount ∧ (k.tasks i).state = .terminated := by
  have hmem := List.mem_of_find?_eq_some h
  have hp := List.find?_some h
  exact ⟨List.mem_range.mp hmem, by simpa using hp⟩

theorem Sound.not_current_of_terminated {k : Kernel} (h : Sound k) {i : Nat}
    (hi : (k.tasks i).state = .terminated) : i ≠ k.currentTask ∧ i ≠ 0 := by
  constructor
  · rintro rfl
    rw [h.running] at hi
    cases hi
  · rintro rfl
    rcases h.idleState with hs | ⟨_, hs⟩ <;> rw [hs] at hi <;> cases hi

theorem create_spec {k : Kernel} (h : Sound k) (stack : Option Nat)
    (hpid : stack ≠ none → k.nextPid + 1 < 2 ^ 32) :
    Sound (k.taskCreate stack).2 ∧ k.nextPid ≤ (k.taskCreate stack).2.nextPid ∧
    (k.taskCreate stack).2.currentTask = k.currentTask ∧
    ((∃ i, Renewed k (k.taskCreate stack).2 i k.nextPid k.current.pid ∧
        (k.findTerminated = some i ∧ stack ≠ none ∨ i = k.taskCount) ∧
        k.taskCount ≤ (k.taskCreate stack).2.taskCount ∧
        ∀ j < (k.taskCreate stack).2.taskCount, j ≠ i → j < k.taskCount) ∨
      Quiet k (k.taskCreate stack).2) := by
  have hcurPid := h.pidBelow _ h.cur
  have htwo := h.two
  cases stack with
  | none => exact ⟨h, le_refl _, rfl, Or.inr (Quiet.refl k)⟩
  | some stack =>
    have hlt := hpid (by simp)
    have hmod : (k.nextPid + 1) % 2 ^ 32 = k.nextPid + 1 := Nat.mod_eq_of_lt (by omega)
    cases hfind : k.findTerminated with
    | some i =>
      obtain ⟨hi, hdead⟩ := findTerminated_some hfind
      obtain ⟨hicur, hi0⟩ := h.not_current_of_terminated hdead
      obtain ⟨hr, hc, ht, hn, hx⟩ := recycle_renewed k stack hicur.symm
      rw [hmod] at hn
      simp only [taskCreate, hfind]
      refine ⟨h.renew hr hicur hi0 (Or.inl hc) (hc ▸ h.max) (by rw [ht, hc]; exact h.tail) ?_
        (by omega) (by omega) (by omega) ?_ (Or.inr (le_refl _)), by omega, hr.current,
        Or.inl ⟨i, hr, Or.inl ⟨rfl, by simp⟩, le_of_eq hc.symm, fun j hj _ => hc ▸ hj⟩⟩
      · intro j hj
        rw [hx, hc]
        exact h.next j (hc ▸ hj)
      · rw [hn]
        exact Nat.lt_succ_of_lt hcurPid
    | none =>
      by_cases hfull : maxTasks ≤ k.taskCount
      · simp only [taskCreate, hfind, if_pos hfull]
        have hs : Quiet k (k.releasePtr stack) :=
          ⟨⟨rfl, rfl, rfl, rfl, rfl, fun _ => rfl, fun _ => rfl, fun _ => rfl,
            fun _ hd => ⟨hd, rfl, rfl⟩⟩, fun _ => rfl, fun _ => rfl, fun _ hd => hd⟩
        exact ⟨⟨h.toRing.of_stateOnly hs.toStateOnly h.cur h.idleState, h.running⟩, le_refl _, rfl, Or.inr hs⟩
      · obtain ⟨hr, hc, ht, hn, hx⟩ := append_renewed h.toRing stack
        rw [hmod] at hn
        simp only [taskCreate, hfind, if_neg hfull]
        refine ⟨h.renew hr (by have := h.cur; omega) (by omega) (Or.inr ⟨hc, rfl⟩) (by omega)
          (by rw [ht, hc]; rfl) (by rw [hc]; exact hx) (by omega) (by omega) (by omega) ?_
          (Or.inr (le_refl _)), by omega, hr.current, Or.inl ⟨_, hr, Or.inr rfl, by omega, fun j hj hne => by omega⟩⟩
        rw [hn]
        exact Nat.lt_succ_of_lt hcurPid

theorem reap_sound {k : Kernel} (h : Sound k) {i : Nat} (hi : (k.tasks i).state = .terminated) :
    Sound (k.reapTask i) := by
  obtain ⟨hicur, hi0⟩ := h.not_current_of_terminated hi
  obtain ⟨hr, hc, ht, hn, hx, _⟩ := reapTask_renewed k i
  have hpos : 0 < k.nextPid := lt_of_le_of_lt (Nat.zero_le _) (h.pidBelow _ h.cur)
  exact h.renew hr hicur hi0 (Or.inl hc) (hc ▸ h.max) (by rw [ht, hc]; exact h.tail)
    (by intro j hj; rw [hx, hc]; exact h.next j (hc ▸ hj)) (le_of_eq hn.symm)
    (hn ▸ h.pidLimit) (hn ▸ hpos) (hn ▸ hpos) (Or.inl rfl)

theorem schedule_after {k q : Kernel} (h : Sound k) (hs : StateOnly k q)
    (hcur : q.currentTask = k.currentTask)
    (hidle : k.currentTask = 0 → (q.tasks 0).state = .running)
    (hidle' : k.currentTask ≠ 0 → (q.tasks 0).state = (k.tasks 0).state)
    (hnot : (q.tasks k.currentTask).state ≠ .ready) :
    ∃ k', q.schedule = some k' ∧ Sound k' ∧ Quiet q k' := by
  have hring : Ring q := by
    refine h.toRing.of_stateOnly hs (hcur ▸ h.cur) ?_
    by_cases h0 : k.currentTask = 0
    · exact Or.inr ⟨hcur.trans h0, hidle h0⟩
    · rw [hidle' h0]
      rcases h.idleState with hr | ⟨hc, _⟩
      · exact Or.inl hr
      · exact absurd hc h0
  obtain ⟨k', hk', hsound, hso⟩ := schedule_spec hring (by rw [hcur]; exact hnot)
  exact ⟨k', hk', hsound, hso⟩

end HouseOS.Sched
