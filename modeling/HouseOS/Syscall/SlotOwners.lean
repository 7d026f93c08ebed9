import HouseOS.Library.Ownership
import HouseOS.Sched.Holdings
import HouseOS.Syscall.System

namespace HouseOS.Syscall

open HouseOS.Ownership
open HouseOS.Sched

-- the slot a task has not given back: the recorded one, or the one its start has marked
def heldSlot (k : Kernel) (g : Nat → Stage) (j : Nat) : Option Nat :=
  if k.taskCount ≤ j then none
  else if (k.tasks j).userSlot ≠ noSlot then some (k.tasks j).userSlot
  else if (k.tasks j).state = .terminated then none
  else
    match g j with
    | .holding _ idx => some idx
    | _ => none

def heldDir (k : Kernel) (j : Nat) : Option Nat :=
  if j < k.taskCount ∧ (k.tasks j).cr3 ≠ k.kernelCr3 then some (k.tasks j).cr3 else none

-- `none` stands for the call in progress
def slotOwner (k : Kernel) (g : Nat → Stage) (transit : Option Nat) : Option Nat → Option Nat
  | none => transit
  | some j => heldSlot k g j

def dirOwner (k : Kernel) (transit : Option Nat) : Option Nat → Option Nat
  | none => transit
  | some j => heldDir k j

def slotUsed (k : Kernel) (x : Nat) : Prop := x < userSlotCount ∧ k.userSlotUsed x = true

def Stage.starting : Stage → Bool
  | .spawned _ => true
  | .probing _ _ => true
  | .probed _ _ => true
  | .holding _ _ => true
  | _ => false

def Stage.IsHolding (g : Stage) : Prop := ∃ req idx, g = .holding req idx

def StageFits (t : Task) : Stage → Prop
  | .probed _ idx => t.userSlot = noSlot ∧ idx < userSlotCount
  | .forked ctx => t.userSlot = ctx.userSlot ∧ t.cr3 = ctx.userCr3
  | g => g.starting = true → t.userSlot = noSlot

structure Slots (k : Kernel) (g : Nat → Stage) (pages : List Nat) (slotT dirT : Option Nat) : Prop where
  sound : Sound k
  slots : Owned (slotOwner k g slotT) (slotUsed k)
  tight : Tight (slotOwner k g slotT) (slotUsed k)
  dirs : Owned (dirOwner k dirT) (fun pd => pd ∈ pages)
  kernelDir : k.kernelCr3 ≠ 0
  dirNew : ∀ pd ∈ pages, pd ≠ 0 ∧ pd ≠ k.kernelCr3
  paired : ∀ j < k.taskCount, (k.tasks j).userSlot = noSlot ↔ (k.tasks j).cr3 = k.kernelCr3
  fits : ∀ j < k.taskCount, (k.tasks j).state ≠ .terminated → StageFits (k.tasks j) (g j)

section Owners

variable {k k' : Kernel} {g g' : Nat → Stage} {pages : List Nat} {slotT dirT d : Option Nat}
  {i j idx pd : Nat}

theorem heldSlot_recorded (hj : j < k.taskCount) (hs : (k.tasks j).userSlot ≠ noSlot) :
    heldSlot k g j = some (k.tasks j).userSlot := by
  rw [heldSlot, if_neg (by omega), if_pos hs]

theorem heldSlot_none (hs : (k.tasks j).userSlot = noSlot)
    (hg : (k.tasks j).state = .terminated ∨ ¬ (g j).IsHolding) : heldSlot k g j = none := by
  rw [heldSlot]
  split
  · rfl
  rw [if_neg (not_not.mpr hs)]
  split
  · rfl
  rename_i hlive
  have hnot := hg.resolve_left hlive
  split
  · rename_i req idx heq
    exact absurd ⟨req, idx, heq⟩ hnot
  · rfl

theorem heldSlot_holding {req : SpawnReq} (hj : j < k.taskCount)
    (hs : (k.tasks j).userSlot = noSlot) (hlive : (k.tasks j).state ≠ .terminated)
    (hg : g j = .holding req idx) : heldSlot k g j = some idx := by
  rw [heldSlot, if_neg (by omega), if_neg (not_not.mpr hs), if_neg hlive, hg]

theorem heldSlot_congr (hc : k'.taskCount = k.taskCount)
    (hs : (k'.tasks j).userSlot = (k.tasks j).userSlot)
    (hd : (k'.tasks j).state = .terminated ↔ (k.tasks j).state = .terminated ∨ d = some j)
    (hg : d = some j → ¬ (g j).IsHolding) (hg' : g' j = g j) :
    heldSlot k' g' j = heldSlot k g j := by
  by_cases hdj : d = some j
  · by_cases hno : (k.tasks j).userSlot = noSlot
    · rw [heldSlot_none hno (Or.inr (hg hdj)),
        heldSlot_none (hs.trans hno) (Or.inr (by rw [hg']; exact hg hdj))]
    · rw [heldSlot, heldSlot, hc, hs, if_pos hno, if_pos hno]
  · have hd' : (k'.tasks j).state = .terminated ↔ (k.tasks j).state = .terminated := by
      rw [hd]
      simp [hdj]
    simp only [heldSlot, hc, hs, hd', hg']

theorem heldDir_congr (hc : k'.taskCount = k.taskCount) (hk : k'.kernelCr3 = k.kernelCr3)
    (hr : (k'.tasks j).cr3 = (k.tasks j).cr3) : heldDir k' j = heldDir k j := by
  rw [heldDir, heldDir, hc, hk, hr]

theorem StageFits.congr {t t' : Task} {a : Stage} (h : StageFits t a) (hs : t'.userSlot = t.userSlot)
    (hr : t'.cr3 = t.cr3) : StageFits t' a := by
  cases a <;> simpa only [StageFits, hs, hr] using h

theorem Slots.held (h : Slots k g pages slotT dirT) (hk : Held k k' d) (hs : Sound k')
    (hd : ∀ j, d = some j → ¬ (g j).IsHolding) : Slots k' g pages slotT dirT where
  sound := hs
  slots := h.slots.congr
    (fun | none => rfl | some j => heldSlot_congr hk.count (hk.userSlot j) (hk.dead j) (hd j) rfl)
    (fun x => by rw [slotUsed, slotUsed, hk.used])
  tight := h.tight.congr
    (fun | none => rfl | some j => heldSlot_congr hk.count (hk.userSlot j) (hk.dead j) (hd j) rfl)
    (fun x => by rw [slotUsed, slotUsed, hk.used])
  dirs := h.dirs.congr
    (fun | none => rfl | some j => heldDir_congr hk.count hk.kernelCr3 (hk.cr3 j)) (fun _ => Iff.rfl)
  kernelDir := hk.kernelCr3 ▸ h.kernelDir
  dirNew := hk.kernelCr3 ▸ h.dirNew
  paired j hj := by
    rw [hk.userSlot, hk.cr3, hk.kernelCr3]
    exact h.paired j (hk.count ▸ hj)
  fits j hj hlive := (h.fits j (hk.count ▸ hj)
    (fun hdead => hlive ((hk.dead j).mpr (Or.inl hdead)))).congr (hk.userSlot j) (hk.cr3 j)

theorem heldSlot_dead (hdead : (k.tasks i).state = .terminated ∨ k.taskCount ≤ i) {x : Nat}
    (hx : heldSlot k g i = some x) : i < k.taskCount ∧ (k.tasks i).userSlot = x := by
  rw [heldSlot] at hx
  split at hx
  · cases hx
  rename_i hi
  split at hx
  · exact ⟨by omega, Option.some.inj hx⟩
  rw [if_pos (hdead.resolve_right hi)] at hx
  cases hx

theorem userSlot_ne_noSlot {x : Nat} (hx : x < userSlotCount) : x ≠ noSlot := by
  simp only [userSlotCount] at hx
  simp only [noSlot]
  omega

theorem Slots.clear {pages' : List Nat} (h : Slots k g pages slotT dirT) (hc : Cleared k k' i)
    (hs : Sound k') (hcount : k'.taskCount = max k.taskCount (i + 1))
    (hi : i < k.taskCount ∧ (k.tasks i).state = .terminated ∨ i = k.taskCount)
    (hused : ∀ x < userSlotCount, k'.userSlotUsed x = true ↔
      k.userSlotUsed x = true ∧ ¬ (i < k.taskCount ∧ x = (k.tasks i).userSlot))
    (hg : ∀ j, j ≠ i → g' j = g j) (hend : (k'.tasks i).state = .terminated ∨ ¬ (g' i).IsHolding)
    (hfit : (k'.tasks i).state ≠ .terminated → StageFits (k'.tasks i) (g' i))
    (hpages : ∀ pd, pd ∈ pages' ↔ pd ∈ if i < k.taskCount then pages.erase (k.tasks i).cr3 else pages) :
    Slots k' g' pages' slotT dirT := by
  have hdead : (k.tasks i).state = .terminated ∨ k.taskCount ≤ i := by
    rcases hi with hi | hi
    · exact Or.inl hi.2
    · exact Or.inr (by omega)
  have hnoneSlot : heldSlot k' g' i = none := heldSlot_none (by rw [hc.userSlot, if_pos rfl]) hend
  have hnoneDir : heldDir k' i = none := by
    rw [heldDir, hc.cr3, if_pos rfl, hc.kernelCr3]
    simp
  have hsame : ∀ j, j ≠ i → heldSlot k' g' j = heldSlot k g j := by
    intro j hj
    have hlt : k'.taskCount ≤ j ↔ k.taskCount ≤ j := by omega
    simp only [heldSlot, hlt, hc.userSlot, if_neg hj, hc.dead j hj, hg j hj]
  have hsameDir : ∀ j, j ≠ i → heldDir k' j = heldDir k j := by
    intro j hj
    have hlt : j < k'.taskCount ↔ j < k.taskCount := by omega
    simp only [heldDir, hlt, hc.cr3, if_neg hj, hc.kernelCr3]
  have hothers : ∀ a, a ≠ some i → slotOwner k' g' slotT a = slotOwner k g slotT a := by
    intro a ha
    cases a with
    | none => rfl
    | some j => exact hsame j (fun hj => ha (congrArg some hj))
  have hothersDir : ∀ a, a ≠ some i → dirOwner k' dirT a = dirOwner k dirT a := by
    intro a ha
    cases a with
    | none => rfl
    | some j => exact hsameDir j (fun hj => ha (congrArg some hj))
  refine ⟨hs, ?_, ?_, ?_, ?_, ?_, ?_, ?_⟩
  · refine h.slots.release (show slotOwner k' g' slotT (some i) = none from hnoneSlot) hothers ?_
    rintro x ⟨hx, hux⟩ hne
    refine ⟨hx, (hused x hx).mpr ⟨hux, ?_⟩⟩
    rintro ⟨hlt, rfl⟩
    exact hne (heldSlot_recorded hlt (userSlot_ne_noSlot hx))
  · refine h.tight.release hothers ?_
    rintro x ⟨hx, hux⟩
    obtain ⟨hux, hne⟩ := (hused x hx).mp hux
    refine ⟨⟨hx, hux⟩, fun hown => ?_⟩
    obtain ⟨hlt, heq⟩ := heldSlot_dead hdead hown
    exact hne ⟨hlt, heq.symm⟩
  · refine h.dirs.release (show dirOwner k' dirT (some i) = none from hnoneDir) hothersDir ?_
    intro pd hpd hne
    rw [hpages]
    split
    · rename_i hlt
      refine (List.mem_erase_of_ne ?_).mpr hpd
      rintro rfl
      exact hne (if_pos ⟨hlt, (h.dirNew _ hpd).2⟩)
    · exact hpd
  · rw [hc.kernelCr3]
    exact h.kernelDir
  · intro pd hpd
    rw [hc.kernelCr3]
    refine h.dirNew pd ?_
    rw [hpages] at hpd
    split at hpd
    · exact List.mem_of_mem_erase hpd
    · exact hpd
  · intro j hj
    rw [hc.userSlot, hc.cr3, hc.kernelCr3]
    by_cases hji : j = i
    · rw [if_pos hji, if_pos hji]
      exact ⟨fun _ => rfl, fun _ => rfl⟩
    · rw [if_neg hji, if_neg hji]
      exact h.paired j (by omega)
  · intro j hj hlive
    by_cases hji : j = i
    · subst hji
      exact hfit hlive
    · have hfits := h.fits j (by omega) (fun hd => hlive ((hc.dead j hji).mpr hd))
      rw [hg j hji]
      exact hfits.congr (by rw [hc.userSlot, if_neg hji]) (by rw [hc.cr3, if_neg hji])

theorem Slots.reap (h : Slots k g pages slotT dirT) (hi : i < k.taskCount)
    (hdead : (k.tasks i).state = .terminated) :
    Slots (k.reapTask i) g (pages.erase (k.tasks i).cr3) slotT dirT := by
  obtain ⟨_, hcount, _, _, _, hstate⟩ := reapTask_renewed k i
  refine h.clear (cleared_reap k i) (reap_sound h.sound hdead) (by omega) (Or.inl ⟨hi, hdead⟩) ?_
    (fun _ _ => rfl) (Or.inl hstate) (fun hlive => absurd hstate hlive)
    (fun pd => by rw [if_pos hi])
  intro x hx
  rw [reap_used k i hx]
  simp [hi]

theorem Slots.create {a : Stage} (h : Slots k g pages slotT dirT) (hc : Created k k')
    (hs : Sound k') (ha : ¬ a.IsHolding)
    (hfit : StageFits (k'.tasks (newSlot k)) a) :
    Slots k' (Function.update g (newSlot k) a)
      (match k.findTerminated with
        | some i => pages.erase (k.tasks i).cr3
        | none => pages) slotT dirT := by
  refine h.clear hc.cleared hs hc.count (newSlot_cases k) hc.used
    (fun j hj => Function.update_of_ne hj _ _) (Or.inr ?_) (fun _ => ?_) (fun pd => ?_)
  · rw [Function.update_self]
    exact ha
  · rw [Function.update_self]
    exact hfit
  · cases hf : k.findTerminated with
    | some i =>
      have hi : newSlot k = i := by rw [newSlot, hf]; rfl
      rw [hi, if_pos (findTerminated_some hf).1]
    | none =>
      have hi : newSlot k = k.taskCount := by rw [newSlot, hf]; rfl
      rw [hi, if_neg (Nat.lt_irrefl _)]

end Owners

end HouseOS.Syscall
