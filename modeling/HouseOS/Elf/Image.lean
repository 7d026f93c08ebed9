import HouseOS.Elf.Bounds

namespace HouseOS.Elf

open HouseOS.ByteMem
open HouseOS.Scan
open HouseOS.Vfs
open ElfFile

variable {f : ElfFile} {info : Info} {out : Bool} {cap size i : Nat} {s : Load} {user : Mem}

section Segments

def segmentByte (f : ElfFile) (i x : Nat) : Option UInt8 :=
  if f.pType i ≠ ptLoad then none
  else if f.pVaddr i + f.pFilesz i ≤ x ∧ x < f.pVaddr i + f.pMemsz i then some 0
  else if f.pVaddr i ≤ x ∧ x < f.pVaddr i + f.pFilesz i then
    some (f.at_ (f.pOffset i + (x - f.pVaddr i)))
  else none

-- of two segments that hold the same address the later one wins
def imageByte (f : ElfFile) (is : List Nat) (x : Nat) : Option UInt8 :=
  is.foldl (fun b i => segmentByte f i x <|> b) none

def place (f : ElfFile) (i : Nat) (m : Mem) : Mem := fun x => (segmentByte f i x).getD (m x)

theorem place_foldl (f : ElfFile) (is : List Nat) (b : Option UInt8) (m m' : Mem) (x : Nat)
    (h : m' x = b.getD (m x)) :
    is.foldl (fun t i => place f i t) m' x =
      (is.foldl (fun b i => segmentByte f i x <|> b) b).getD (m x) := by
  induction is generalizing b m' with
  | nil => exact h
  | cons i is ih =>
    rw [List.foldl_cons, List.foldl_cons]
    refine ih _ _ ?_
    rw [place]
    cases segmentByte f i x with
    | none => exact h
    | some c => rfl

theorem place_all (f : ElfFile) (is : List Nat) (m : Mem) (x : Nat) :
    is.foldl (fun t i => place f i t) m x = (imageByte f is x).getD (m x) :=
  place_foldl f is none m m x rfl

theorem loadBody_go (i : Nat) (s : Load) (h : loadPasses f size i) :
    (loadBody f size i s).1 = none ∧ (loadBody f size i s).2.user = place f i s.user := by
  refine ⟨(loadBody_none_iff i s).mpr h, ?_⟩
  by_cases htype : f.pType i = ptLoad
  · obtain ⟨hmem, hsum, hrange⟩ := h htype
    rw [loadBody, if_neg (not_not.mpr htype)]
    dsimp only
    rw [if_neg (by omega), if_neg (by omega), if_neg (by rw [hrange]; simp)]
    have hseg : ∀ x, segmentByte f i x =
        if f.pVaddr i + f.pFilesz i ≤ x ∧ x < f.pVaddr i + f.pMemsz i then some 0
        else if f.pVaddr i ≤ x ∧ x < f.pVaddr i + f.pFilesz i then
          some (f.at_ (f.pOffset i + (x - f.pVaddr i)))
        else none := fun x => if_neg (not_not.mpr htype)
    have hend : f.pVaddr i + f.pFilesz i + (f.pMemsz i - f.pFilesz i) =
        f.pVaddr i + f.pMemsz i := by omega
    split
    next =>
      funext x
      simp only [Load.memset0, Load.memcpy, Load.read, place, hseg, hend]
      split_ifs <;> rfl
    next hfull =>
      funext x
      simp only [Load.memcpy, Load.read, place, hseg]
      rw [if_neg (show ¬ (f.pVaddr i + f.pFilesz i ≤ x ∧ x < f.pVaddr i + f.pMemsz i) by omega)]
      split_ifs <;> rfl
  · have hseg : ∀ x, segmentByte f i x = none := fun x => if_pos htype
    rw [loadBody, if_pos htype]
    funext x
    rw [place, hseg]
    rfl

theorem loadBody_stop (i : Nat) (s : Load) (h : ¬ loadPasses f size i) :
    (loadBody f size i s).1 ≠ none ∧ (loadBody f size i s).2.user = s.user := by
  refine ⟨fun hnone => h ((loadBody_none_iff i s).mp hnone), ?_⟩
  have htype : f.pType i = ptLoad := by
    by_contra hne
    exact h (fun heq => absurd heq hne)
  rw [loadBody, if_neg (not_not.mpr htype)]
  dsimp only
  split
  next => rfl
  next =>
    split
    next => rfl
    next =>
      split
      next => rfl
      next hmem hsum hrange =>
        exact absurd (fun _ => ⟨by omega, by omega, by simpa using hrange⟩) h

theorem interpBody_user (i : Nat) (s : Load) :
    (interpBody f size out cap i s).2.user = s.user := by
  rw [interpBody]
  dsimp only
  split_ifs <;> rfl

theorem interpBody_go (i : Nat) (s : Load) (h : interpPasses f size out cap i) :
    (interpBody f size out cap i s).1 = none ∧ (interpBody f size out cap i s).2.interp =
      if f.pType i = ptInterp then copiedInterp f cap i else s.interp := by
  refine ⟨(interpBody_none_iff i s).mpr h, ?_⟩
  by_cases htype : f.pType i = ptInterp
  · obtain ⟨hout, hcap, hsum, hfile, hslash⟩ := h htype
    rw [interpBody, if_neg (not_not.mpr htype),
      if_neg (not_or.mpr ⟨by rw [hout]; simp, by omega⟩), if_neg (by omega), if_pos htype]
    dsimp only
    split_ifs <;> rfl
  · rw [interpBody, if_pos htype, if_neg htype]
    rfl

theorem loadBody_interp (i : Nat) (s : Load) : (loadBody f size i s).2.interp = s.interp := by
  rw [loadBody]
  dsimp only
  split_ifs <;> rfl

end Segments

section Image

def interpOf (f : ElfFile) (cap : Nat) : List UInt8 :=
  (List.range' 0 f.ePhnum).foldl
    (fun t i => if f.pType i = ptInterp then copiedInterp f cap i else t) []

def InterpsPass (f : ElfFile) (size : Nat) (out : Bool) (cap : Nat) : Prop :=
  ∀ j < f.ePhnum, interpPasses f size out cap j

open Classical in
noncomputable def loadedHeaders (f : ElfFile) (out : Bool) (cap : Nat) : List Nat :=
  match f.info with
  | none => []
  | some info =>
      if Accepted f info ∧ InterpsPass f info.size out cap then
        (List.range' 0 f.ePhnum).takeWhile (fun i => decide (loadPasses f info.size i))
      else []

structure LoadsWhole (f : ElfFile) (info : Info) (out : Bool) (cap : Nat) : Prop where
  accepted : Accepted f info
  interps : InterpsPass f info.size out cap
  loads : ∀ j < f.ePhnum, loadPasses f info.size j
  entry : rangeOk f.eEntry 1 = true

theorem interpScan_passes (f : ElfFile) (size : Nat) (out : Bool) (cap : Nat) (s : Load) :
    (scan (interpBody f size out cap) f.ePhnum 0 s).1 = none ↔ InterpsPass f size out cap := by
  rw [scan_none_iff _ interpBody_none_iff f.ePhnum 0 s]
  simp only [Nat.zero_le, forall_const, Nat.zero_add]
  exact Iff.rfl

theorem interpScan_user (f : ElfFile) (size : Nat) (out : Bool) (cap : Nat) (s : Load) :
    (scan (interpBody f size out cap) f.ePhnum 0 s).2.user = s.user :=
  scan_invariant _ (fun t : Load => t.user = s.user) (fun i t ht => (interpBody_user i t).trans ht)
    f.ePhnum 0 s rfl

open Classical in
theorem loadScan_user (f : ElfFile) (size : Nat) (s : Load) :
    (scan (loadBody f size) f.ePhnum 0 s).2.user =
      ((List.range' 0 f.ePhnum).takeWhile (fun i => decide (loadPasses f size i))).foldl
        (fun t i => place f i t) s.user :=
  scan_project _ _ Load.user (place f)
    (fun i t h => loadBody_go i t (of_decide_eq_true h))
    (fun i t h => loadBody_stop i t (of_decide_eq_false h)) f.ePhnum 0 s

theorem elfLoad_user (f : ElfFile) (out : Bool) (cap : Nat) (user : Mem) (x : Nat) :
    (elfLoadFromVfsEx f out cap user).2.user x =
      (imageByte f (loadedHeaders f out cap) x).getD (user x) := by
  cases hinfo : f.info with
  | none =>
    rw [elfLoadFromVfsEx, loadedHeaders, hinfo]
    rfl
  | some info =>
    by_cases hacc : Accepted f info
    · rw [elfLoad_accepted hinfo hacc]
      have huser := interpScan_user f info.size out cap
        (({ reads := [], writes := [], user := user, interp := [] } : Load).read 0 ehdrBytes)
      have hpass := interpScan_passes f info.size out cap
        (({ reads := [], writes := [], user := user, interp := [] } : Load).read 0 ehdrBytes)
      rcases loadProgram_cases f info.size out cap
        (({ reads := [], writes := [], user := user, interp := [] } : Load).read 0 ehdrBytes) with
        ⟨e, s₁, hscan, hprog⟩ | ⟨s₁, res, hscan, hprog, _⟩
      · rw [hscan] at huser hpass
        have hfail : ¬ InterpsPass f info.size out cap := fun h => by cases hpass.mpr h
        rw [hprog, loadedHeaders, hinfo]
        dsimp only
        rw [if_neg (fun h => hfail h.2)]
        exact congrFun huser x
      · rw [hscan] at huser hpass
        have hall : InterpsPass f info.size out cap := hpass.mp rfl
        rw [hprog, loadedHeaders, hinfo]
        dsimp only
        rw [if_pos ⟨hacc, hall⟩, loadScan_user, huser]
        exact place_all f _ user x
    · obtain ⟨e, t, hload, _, huser, _⟩ := elfLoad_rejected out cap user hinfo hacc
      rw [hload, loadedHeaders, hinfo]
      dsimp only
      rw [if_neg (fun h => hacc h.1), huser]
      rfl

theorem elfLoad_ok_iff (hinfo : f.info = some info) :
    (∃ entry, (elfLoadFromVfsEx f out cap user).1 = .ok entry) ↔ LoadsWhole f info out cap := by
  by_cases hacc : Accepted f info
  · rw [elfLoad_accepted hinfo hacc]
    generalize ({ reads := [], writes := [], user := user, interp := [] } : Load).read 0 ehdrBytes = s
    have hpass := interpScan_passes f info.size out cap s
    rw [loadProgram]
    rcases hscan : scan (interpBody f info.size out cap) f.ePhnum 0 s with ⟨_ | e, s₁⟩
    · have hall : InterpsPass f info.size out cap := hpass.mp (by rw [hscan])
      have hloads := scan_none_iff (loadBody f info.size) loadBody_none_iff f.ePhnum 0 s₁
      simp only [Nat.zero_le, forall_const, Nat.zero_add] at hloads
      dsimp only
      rcases hscan₂ : scan (loadBody f info.size) f.ePhnum 0 s₁ with ⟨_ | e, s₂⟩
      · rw [hscan₂] at hloads
        dsimp only
        by_cases hrange : rangeOk f.eEntry 1 = false
        · rw [if_pos hrange]
          constructor
          · rintro ⟨entry, h⟩
            cases h
          · intro h
            rw [h.entry] at hrange
            cases hrange
        · rw [if_neg hrange]
          exact ⟨fun _ => ⟨hacc, hall, hloads.mp rfl, by simpa using hrange⟩, fun _ => ⟨_, rfl⟩⟩
      · rw [hscan₂] at hloads
        constructor
        · rintro ⟨entry, h⟩
          cases h
        · intro h
          cases hloads.mpr h.loads
    · constructor
      · rintro ⟨entry, h⟩
        cases h
      · intro h
        have hnone := hpass.mpr h.interps
        rw [hscan] at hnone
        cases hnone
  · obtain ⟨e, t, hload, _⟩ := elfLoad_rejected out cap user hinfo hacc
    rw [hload]
    constructor
    · rintro ⟨entry, h⟩
      cases h
    · exact fun h => absurd h.accepted hacc

theorem elfLoad_interp (hinfo : f.info = some info) (h : LoadsWhole f info out cap) :
    (elfLoadFromVfsEx f out cap user).2.interp = interpOf f cap := by
  rw [elfLoad_accepted hinfo h.accepted]
  have hinterp := scan_project_all _ _ Load.interp
    (fun i t => if f.pType i = ptInterp then copiedInterp f cap i else t)
    (fun i t (ht : interpPasses f info.size out cap i) => interpBody_go i t ht) f.ePhnum 0
    (({ reads := [], writes := [], user := user, interp := [] } : Load).read 0 ehdrBytes)
    (fun j _ hj => h.interps j (by omega))
  have hpass := interpScan_passes f info.size out cap
    (({ reads := [], writes := [], user := user, interp := [] } : Load).read 0 ehdrBytes)
  rcases loadProgram_cases f info.size out cap
    (({ reads := [], writes := [], user := user, interp := [] } : Load).read 0 ehdrBytes) with
    ⟨e, s₁, hscan, _⟩ | ⟨s₁, res, hscan, hprog, _⟩
  · have hnone := hpass.mpr h.interps
    rw [hscan] at hnone
    cases hnone
  · rw [hscan] at hinterp
    rw [hprog]
    have hkeep := scan_invariant (loadBody f info.size) (fun t : Load => t.interp = s₁.interp)
      (fun i t ht => (loadBody_interp i t).trans ht) f.ePhnum 0 s₁ rfl
    exact hkeep.trans hinterp

end Image

end HouseOS.Elf
