import HouseOS.Syscall.SlotOwners

namespace HouseOS.Syscall

open HouseOS.Ownership
open HouseOS.Sched

section Moves

variable {k : Kernel} {g : Nat → Stage} {pages : List Nat} {slotT dirT : Option Nat}
  {i idx pd : Nat}

theorem slotOwner_update {a : Stage} {b : Option Nat} (hb : b ≠ some i) :
    slotOwner k (Function.update g i a) slotT b = slotOwner k g slotT b := by
  cases b with
  | none => rfl
  | some j =>
    have hj : j ≠ i := fun hj => hb (congrArg some hj)
    simp only [slotOwner, heldSlot, Function.update_of_ne hj]

theorem Slots.setStage {a : Stage} (h : Slots k g pages slotT dirT)
    (hheld : heldSlot k (Function.update g i a) i = heldSlot k g i)
    (hfit : (k.tasks i).state ≠ .terminated → StageFits (k.tasks i) a) :
    Slots k (Function.update g i a) pages slotT dirT := by
  have howner : ∀ b, slotOwner k (Function.update g i a) slotT b = slotOwner k g slotT b := by
    intro b
    by_cases hb : b = some i
    · subst hb
      exact hheld
    · exact slotOwner_update hb
  refine { h with
    slots := h.slots.congr howner fun _ => Iff.rfl
    tight := h.tight.congr howner fun _ => Iff.rfl
    fits := fun j hj hlive => ?_ }
  by_cases hji : j = i
  · subst hji
    rw [Function.update_self]
    exact hfit hlive
  · rw [Function.update_of_ne hji]
    exact h.fits j hj hlive

theorem Slots.setTask {t : Task} (h : Slots k g pages slotT dirT)
    (hlive : (k.tasks i).state ≠ .terminated) (hslot : t.userSlot = (k.tasks i).userSlot)
    (hcr3 : t.cr3 = (k.tasks i).cr3) (hpid : t.pid = (k.tasks i).pid)
    (hppid : t.ppid = (k.tasks i).ppid) (hnext : t.next = (k.tasks i).next)
    (hstate : t.state = (k.tasks i).state) : Slots (k.setTask i t) g pages slotT dirT := by
  have hall : ∀ j, ((k.setTask i t).tasks j).userSlot = (k.tasks j).userSlot ∧
      ((k.setTask i t).tasks j).cr3 = (k.tasks j).cr3 ∧
      ((k.setTask i t).tasks j).state = (k.tasks j).state := by
    intro j
    by_cases hj : j = i
    · subst hj
      rw [Kernel.setTask_tasks_same]
      exact ⟨hslot, hcr3, hstate⟩
    · rw [Kernel.setTask_tasks_ne k t hj]
      exact ⟨rfl, rfl, rfl⟩
  have howner : ∀ b, slotOwner (k.setTask i t) g slotT b = slotOwner k g slotT b
    | none => rfl
    | some j => heldSlot_congr (d := none) rfl (hall j).1 (by rw [(hall j).2.2]; simp) nofun rfl
  have hdirOwner : ∀ b, dirOwner (k.setTask i t) dirT b = dirOwner k dirT b
    | none => rfl
    | some j => heldDir_congr rfl rfl (hall j).2.1
  refine { h with
    sound := h.sound.setTask hlive hpid hppid hnext hstate
    slots := h.slots.congr howner fun _ => Iff.rfl
    tight := h.tight.congr howner fun _ => Iff.rfl
    dirs := h.dirs.congr hdirOwner fun _ => Iff.rfl
    paired := fun j hj => ?_
    fits := fun j hj hl => ?_ }
  · rw [(hall j).1, (hall j).2.1]
    exact h.paired j hj
  · rw [(hall j).2.2] at hl
    exact (h.fits j hj hl).congr (hall j).1 (hall j).2.1

theorem heldSlot_setStage {a : Stage} (hi : i < k.taskCount) (hold : ¬ (g i).IsHolding)
    (ha : ¬ a.IsHolding) : heldSlot k (Function.update g i a) i = heldSlot k g i := by
  have ha' : ¬ (Function.update g i a i).IsHolding := by rwa [Function.update_self]
  by_cases hno : (k.tasks i).userSlot = noSlot
  · rw [heldSlot_none hno (Or.inr ha'), heldSlot_none hno (Or.inr hold)]
  · rw [heldSlot_recorded hi hno, heldSlot_recorded hi hno]

theorem heldSlot_setUsed (used : Nat → Bool) (j : Nat) :
    heldSlot { k with userSlotUsed := used } g j = heldSlot k g j := rfl

theorem Slots.alloc (h : Slots k g pages none dirT) (hidx : idx < userSlotCount)
    (hfree : k.userSlotUsed idx = false) :
    Slots { k with userSlotUsed := Function.update k.userSlotUsed idx true } g pages
      (some idx) dirT := by
  have hothers : ∀ b, b ≠ none → slotOwner { k with
      userSlotUsed := Function.update k.userSlotUsed idx true } g (some idx) b =
      slotOwner k g none b := by
    intro b hb
    cases b with
    | none => exact absurd rfl hb
    | some j => exact heldSlot_setUsed _ j
  have hmore : ∀ x, slotUsed { k with
      userSlotUsed := Function.update k.userSlotUsed idx true } x ↔ slotUsed k x ∨ x = idx := by
    intro x
    simp only [slotUsed]
    by_cases hx : x = idx
    · subst hx
      simp [hidx]
    · simp [hx]
  refine { h with
    sound := h.sound.setUsed _
    slots := h.slots.acquire (r := idx) ?_ rfl hothers (fun x hx => (hmore x).mpr (Or.inl hx))
      ((hmore idx).mpr (Or.inr rfl))
    tight := h.tight.acquire rfl rfl hothers (fun x hx => (hmore x).mp hx)
    dirs := h.dirs.congr (fun b => by cases b <;> rfl) fun _ => Iff.rfl
    fits := h.fits }
  rintro ⟨_, hused⟩
  rw [hfree] at hused
  cases hused

theorem Slots.freeTransit (h : Slots k g pages (some idx) dirT) :
    Slots (k.userSlotFree idx) g pages none dirT := by
  obtain ⟨hidx, _⟩ := h.slots.covered none idx rfl
  have hk : k.userSlotFree idx = { k with
      userSlotUsed := fun j => if j = idx then false else k.userSlotUsed j } := by
    rw [Kernel.userSlotFree, if_neg (by omega)]
  have hless : ∀ x, slotUsed (k.userSlotFree idx) x ↔ slotUsed k x ∧ x ≠ idx := by
    intro x
    simp only [slotUsed, and_assoc]
    exact and_congr_right (fun hx => userSlotFree_used k idx x hx)
  have hothers : ∀ b, b ≠ none → slotOwner (k.userSlotFree idx) g none b =
      slotOwner k g (some idx) b := by
    intro b hb
    rw [hk]
    cases b with
    | none => exact absurd rfl hb
    | some j => exact heldSlot_setUsed _ j
  have hslots : Owned (slotOwner (k.userSlotFree idx) g none) (slotUsed (k.userSlotFree idx)) :=
    h.slots.release rfl hothers fun x hx hne =>
      (hless x).mpr ⟨hx, fun heq => hne (congrArg some heq.symm)⟩
  have htight : Tight (slotOwner (k.userSlotFree idx) g none) (slotUsed (k.userSlotFree idx)) :=
    h.tight.release hothers fun x hx =>
      ⟨((hless x).mp hx).1, fun heq => ((hless x).mp hx).2 (Option.some.inj heq).symm⟩
  rw [hk] at hslots htight ⊢
  exact { h with
    sound := h.sound.setUsed _
    slots := hslots
    tight := htight
    dirs := h.dirs.congr (fun b => by cases b <;> rfl) fun _ => Iff.rfl
    fits := h.fits }

theorem Slots.newDir (h : Slots k g pages slotT none) (hnew : pd ∉ pages) (h0 : pd ≠ 0)
    (hk : pd ≠ k.kernelCr3) : Slots k g (pd :: pages) slotT (some pd) where
  sound := h.sound
  slots := h.slots
  tight := h.tight
  dirs := by
    refine h.dirs.acquire (a := none) hnew rfl ?_ (fun _ => List.mem_cons_of_mem _) List.mem_cons_self
    intro b hb
    cases b with
    | none => exact absurd rfl hb
    | some _ => rfl
  kernelDir := h.kernelDir
  dirNew x hx := by
    rcases List.mem_cons.mp hx with rfl | hx
    · exact ⟨h0, hk⟩
    · exact h.dirNew x hx
  paired := h.paired
  fits := h.fits

theorem Slots.dropDir (h : Slots k g pages slotT (some pd)) :
    Slots k g (pages.erase pd) slotT none where
  sound := h.sound
  slots := h.slots
  tight := h.tight
  dirs := by
    refine h.dirs.release (a := none) rfl ?_ ?_
    · intro b hb
      cases b with
      | none => exact absurd rfl hb
      | some _ => rfl
    · intro x hx hne
      exact (List.mem_erase_of_ne (fun heq => hne (congrArg some heq.symm))).mpr hx
  kernelDir := h.kernelDir
  dirNew x hx := h.dirNew x (List.mem_of_mem_erase hx)
  paired := h.paired
  fits := h.fits

theorem Slots.record {t : Task} (h : Slots k g pages (some idx) (some pd)) (hi : i < k.taskCount)
    (hlive : (k.tasks i).state ≠ .terminated) (hno : (k.tasks i).userSlot = noSlot)
    (hg : ¬ (g i).IsHolding) (hslot : t.userSlot = idx) (hcr3 : t.cr3 = pd)
    (hpid : t.pid = (k.tasks i).pid) (hppid : t.ppid = (k.tasks i).ppid)
    (hnext : t.next = (k.tasks i).next) (hstate : t.state = (k.tasks i).state)
    (hfit : StageFits t (g i)) :
    Slots (k.setTask i t) g pages none none := by
  obtain ⟨hidx, _⟩ := h.slots.covered none idx rfl
  have hpd := h.dirNew pd (h.dirs.covered none pd rfl)
  have hidxNo := userSlot_ne_noSlot hidx
  have hsame : ∀ j, j ≠ i → (k.setTask i t).tasks j = k.tasks j :=
    fun j hj => Kernel.setTask_tasks_ne k t hj
  have hother : ∀ b, b ≠ none → b ≠ some i →
      slotOwner (k.setTask i t) g none b = slotOwner k g (some idx) b := by
    intro b hb hbi
    cases b with
    | none => exact absurd rfl hb
    | some j =>
      have hj := hsame j (fun hj => hbi (congrArg some hj))
      simp only [slotOwner, heldSlot, hj, Kernel.setTask_taskCount]
  have hotherDir : ∀ b, b ≠ none → b ≠ some i →
      dirOwner (k.setTask i t) none b = dirOwner k (some pd) b := by
    intro b hb hbi
    cases b with
    | none => exact absurd rfl hb
    | some j =>
      have hj := hsame j (fun hj => hbi (congrArg some hj))
      show heldDir (k.setTask i t) j = heldDir k j
      rw [heldDir, heldDir, hj]
      rfl
  have hmine : slotOwner (k.setTask i t) g none (some i) = some idx := by
    have hrec : ((k.setTask i t).tasks i).userSlot = idx := by rw [Kernel.setTask_tasks_same, hslot]
    have hheld := heldSlot_recorded (k := k.setTask i t) (g := g) hi (by rw [hrec]; exact hidxNo)
    rw [hrec] at hheld
    exact hheld
  have hmineDir : dirOwner (k.setTask i t) none (some i) = some pd := by
    rw [dirOwner, heldDir, Kernel.setTask_tasks_same, hcr3]
    exact if_pos ⟨hi, hpd.2⟩
  refine ⟨h.sound.setTask hlive hpid hppid hnext hstate, ?_, ?_, ?_, h.kernelDir, h.dirNew, ?_, ?_⟩
  · exact h.slots.transfer (by simp) rfl rfl hmine hother
  · exact h.tight.transfer (b := some i) (heldSlot_none hno (Or.inr hg)) rfl hmine hother
  · exact h.dirs.transfer (by simp) rfl rfl hmineDir hotherDir
  · intro j hj
    by_cases hji : j = i
    · subst hji
      rw [Kernel.setTask_tasks_same, hslot, hcr3]
      exact ⟨fun hx => absurd hx hidxNo, fun hx => absurd hx hpd.2⟩
    · rw [hsame j hji]
      exact h.paired j hj
  · intro j hj hl
    by_cases hji : j = i
    · subst hji
      rw [Kernel.setTask_tasks_same]
      exact hfit
    · rw [hsame j hji] at hl ⊢
      exact h.fits j hj hl

theorem Slots.hold {req : SpawnReq} (h : Slots k g pages (some idx) dirT) (hi : i < k.taskCount)
    (hlive : (k.tasks i).state ≠ .terminated) (hno : (k.tasks i).userSlot = noSlot)
    (hg : ¬ (g i).IsHolding) :
    Slots k (Function.update g i (.holding req idx)) pages none dirT := by
  have hother : ∀ b, b ≠ none → b ≠ some i →
      slotOwner k (Function.update g i (.holding req idx)) none b = slotOwner k g (some idx) b := by
    intro b hb hbi
    rw [slotOwner_update hbi]
    cases b with
    | none => exact absurd rfl hb
    | some _ => rfl
  have hmine : slotOwner k (Function.update g i (.holding req idx)) none (some i) = some idx :=
    heldSlot_holding hi hno hlive (Function.update_self ..)
  refine { h with
    slots := h.slots.transfer (by simp) rfl rfl hmine hother
    tight := h.tight.transfer (b := some i) (heldSlot_none hno (Or.inr hg)) rfl hmine hother
    fits := fun j hj hl => ?_ }
  by_cases hji : j = i
  · subst hji
    rw [Function.update_self]
    exact fun _ => hno
  · rw [Function.update_of_ne hji]
    exact h.fits j hj hl

theorem Slots.unhold {req : SpawnReq} {a : Stage} (h : Slots k g pages none dirT)
    (hi : i < k.taskCount) (hlive : (k.tasks i).state ≠ .terminated)
    (hno : (k.tasks i).userSlot = noSlot) (hg : g i = .holding req idx) (ha : ¬ a.IsHolding)
    (hfit : StageFits (k.tasks i) a) :
    Slots k (Function.update g i a) pages (some idx) dirT := by
  have hother : ∀ b, b ≠ some i → b ≠ none →
      slotOwner k (Function.update g i a) (some idx) b = slotOwner k g none b := by
    intro b hbi hb
    rw [slotOwner_update hbi]
    cases b with
    | none => exact absurd rfl hb
    | some _ => rfl
  have hmine : slotOwner k g none (some i) = some idx := heldSlot_holding hi hno hlive hg
  have hgone : slotOwner k (Function.update g i a) (some idx) (some i) = none :=
    heldSlot_none hno (Or.inr (by rw [Function.update_self]; exact ha))
  refine { h with
    slots := h.slots.transfer (by simp) hmine hgone rfl hother
    tight := h.tight.transfer (b := none) rfl hmine rfl hother
    fits := fun j hj hl => ?_ }
  by_cases hji : j = i
  · subst hji
    rw [Function.update_self]
    exact hfit
  · rw [Function.update_of_ne hji]
    exact h.fits j hj hl

end Moves

end HouseOS.Syscall
