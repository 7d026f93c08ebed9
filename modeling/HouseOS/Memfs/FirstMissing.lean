import HouseOS.Memfs.Kept

namespace HouseOS.Memfs

open HouseOS.Components
open HouseOS.Loop (Step)
open HouseOS.Vfs (Path slash NodeType)
open World

variable {w w' : World} {n f g cur : Nat} {name : Path}

section Fresh

-- the nodes from `n` on lead to one another only
structure Fresh (n : Nat) (w : World) : Prop where
  le : n ≤ w.nextInode
  entry : ∀ j, n ≤ j → j < w.nextInode → ∀ d ∈ (w.inode j).entries,
    n ≤ d.inode ∧ d.inode < w.nextInode ∧ d.mountedFs = none

theorem Fresh.start (w : World) : Fresh w.nextInode w :=
  ⟨Nat.le_refl _, fun _ hle hlt => absurd hlt (by omega)⟩

theorem Fresh.same (h : Fresh n w) (hnext : w'.nextInode = w.nextInode) (hinode : w'.inode = w.inode) :
    Fresh n w' := by
  refine ⟨by rw [hnext]; exact h.le, fun j hle hlt d hd => ?_⟩
  rw [hnext] at hlt ⊢
  rw [hinode] at hd
  exact h.entry j hle hlt d hd

theorem Fresh.setInode (h : Fresh n w) (i : Nat) {m : Inode}
    (hm : n ≤ i → i < w.nextInode → ∀ d ∈ m.entries,
      n ≤ d.inode ∧ d.inode < w.nextInode ∧ d.mountedFs = none) : Fresh n (w.setInode i m) := by
  refine ⟨h.le, fun j hle hlt d hd => ?_⟩
  rw [setInode_inode] at hd
  split at hd
  · rename_i hj
    subst hj
    exact hm hle hlt d hd
  · exact h.entry j hle hlt d hd

theorem vallocInode_eq (w : World) :
    w.vallocInode =
      if w.grant w.allocs then
        (some w.nextInode, { w with
          allocs := w.allocs + 1
          inode := fun j => if j = w.nextInode then zeroInode else w.inode j
          live := fun j => if j = w.nextInode then true else w.live j
          nextInode := w.nextInode + 1 })
      else (none, { w with allocs := w.allocs + 1 }) := by
  cases hg : w.grant w.allocs <;> simp [World.vallocInode, World.valloc, inodeBytes, hg]

theorem dupName_eq (w : World) (s : Option Path) :
    w.dupName s =
      (if w.grant w.allocs then some ((w.text s).take 255) else none,
        { w with allocs := w.allocs + 1 }) := by
  cases hg : w.grant w.allocs <;> simp [World.dupName, World.valloc, World.text, hg]

theorem dentryCreate_eq (w : World) (child : Nat) (name : Option Path) :
    w.dentryCreate child name =
      if w.grant w.allocs then
        (some ⟨if w.grant (w.allocs + 1) then some ((w.text name).take 255) else none, child, none⟩,
          { w with allocs := w.allocs + 2 })
      else (none, { w with allocs := w.allocs + 1 }) := by
  cases hg : w.grant w.allocs <;>
    simp [World.dentryCreate, World.valloc, dentryBytes, dupName_eq, World.text, hg]

theorem dirAdd_eq (w : World) (dir child : Nat) :
    w.dirAdd dir child =
      if (w.inode dir).type = .dir ∧ w.grant w.allocs = true then
        ({ w with allocs := w.allocs + 2 }.addEntry dir
          ⟨if w.grant (w.allocs + 1) then some ((w.text (w.inode child).name).take 255) else none,
            child, none⟩).addLink child
      else { w with allocs := if (w.inode dir).type = .dir then w.allocs + 1 else w.allocs } := by
  rw [World.dirAdd, dentryCreate_eq]
  by_cases hdir : (w.inode dir).type = .dir
  · rw [if_neg (not_not.mpr hdir)]
    cases hg : w.grant w.allocs <;> simp [hdir]
  · rw [if_pos hdir, if_neg (fun h => hdir h.1), if_neg hdir]

theorem Fresh.dirAdd (h : Fresh n w) (dir : Nat) {child : Nat} (hle : n ≤ child)
    (hlt : child < w.nextInode) : Fresh n (w.dirAdd dir child) := by
  rw [dirAdd_eq]
  split
  · have hsame : Fresh n { w with allocs := w.allocs + 2 } := h.same rfl rfl
    have hmade : Fresh n ({ w with allocs := w.allocs + 2 }.addEntry dir
        ⟨if w.grant (w.allocs + 1) then some ((w.text (w.inode child).name).take 255) else none,
          child, none⟩) := by
      refine hsame.setInode dir fun hdir hdirlt d hd => ?_
      rcases List.mem_cons.mp hd with rfl | hd
      · exact ⟨hle, hlt, rfl⟩
      · exact h.entry dir hdir hdirlt d hd
    exact hmade.setInode child fun hc hclt => hmade.entry child hc hclt
  · exact h.same rfl rfl

def bareDir (w : World) (cur : Nat) (name : Path) : World :=
  { w with
    allocs := w.allocs + 2
    inode := fun j =>
      if j = w.nextInode then
        { zeroInode with type := .dir, name := some (name.take 255), parent := some cur }
      else w.inode j
    live := fun j => if j = w.nextInode then true else w.live j
    nextInode := w.nextInode + 1 }

theorem mkdirHere_eq (w : World) (f cur : Nat) (name : Path) :
    ((w.mkdirHere f cur name).1 = none ∧ Kept w.nextInode w (w.mkdirHere f cur name).2 ∧
        ¬(w.grant w.allocs = true ∧ w.grant (w.allocs + 1) = true)) ∨
      (w.grant w.allocs = true ∧ w.grant (w.allocs + 1) = true ∧
        w.mkdirHere f cur name =
          (some w.nextInode, ((bareDir w cur name).dirAdd cur w.nextInode).countInode f)) := by
  by_cases h₀ : w.grant w.allocs = true
  · have hnode : w.vallocInode = (some w.nextInode, { w with
        allocs := w.allocs + 1
        inode := fun j => if j = w.nextInode then zeroInode else w.inode j
        live := fun j => if j = w.nextInode then true else w.live j
        nextInode := w.nextInode + 1 }) := by rw [vallocInode_eq, if_pos h₀]
    by_cases h₁ : w.grant (w.allocs + 1) = true
    · refine Or.inr ⟨h₀, h₁, ?_⟩
      simp only [World.mkdirHere, hnode, dupName_eq, World.setInode, if_pos h₁, World.text,
        Option.getD_some]
      refine congrArg (fun v => (some w.nextInode, (World.dirAdd v cur w.nextInode).countInode f)) ?_
      simp only [bareDir, if_true, World.mk.injEq, and_true]
      funext j
      split <;> rfl
    · refine Or.inl ⟨?_, ?_, fun h => h₁ h.2⟩
      · simp [World.mkdirHere, hnode, dupName_eq, h₁, World.setInode]
      · have hk : Kept w.nextInode w w.vallocInode.2 := Kept.vallocInode w (Nat.le_refl _)
        rw [hnode] at hk
        simp only [World.mkdirHere, hnode, dupName_eq, World.setInode, if_neg h₁]
        exact (hk.trans (Kept.setInode _ (Nat.le_refl _) _)).trans (Kept.allocs _ _ _)
  · refine Or.inl ⟨?_, ?_, fun h => h₀ h.1⟩
    · simp [World.mkdirHere, vallocInode_eq, h₀]
    · simp only [World.mkdirHere, vallocInode_eq, if_neg h₀]
      exact Kept.allocs _ w _

theorem Kept.bareDir (w : World) (cur : Nat) (name : Path) :
    Kept w.nextInode w (bareDir w cur name) where
  inode j hj := by
    simp only [Memfs.bareDir]
    rw [if_neg (by omega)]
  root _ := rfl
  nextInode := Nat.le_succ _
  nextFs := Nat.le_refl _
  atNull := rfl

theorem Fresh.bareDir (h : Fresh n w) (cur : Nat) (name : Path) : Fresh n (bareDir w cur name) := by
  refine ⟨Nat.le_succ_of_le h.le, fun j hle hlt d hd => ?_⟩
  simp only [Memfs.bareDir] at hlt hd ⊢
  split at hd
  · cases hd
  · obtain ⟨h₁, h₂, h₃⟩ := h.entry j hle (by omega) d hd
    exact ⟨h₁, by omega, h₃⟩

theorem Fresh.mkdirHere (h : Fresh n w) (f cur : Nat) (name : Path) {next : Nat} {w' : World}
    (hmk : w.mkdirHere f cur name = (some next, w')) :
    Fresh n w' ∧ n ≤ next ∧ next < w'.nextInode := by
  have hle := h.le
  rcases mkdirHere_eq w f cur name with ⟨hnone, -⟩ | ⟨-, -, heq⟩
  · rw [hmk] at hnone
    cases hnone
  · rw [hmk] at heq
    cases heq
    have hbare : Fresh n (Memfs.bareDir w cur name) := h.bareDir cur name
    have hnext : w.nextInode < (Memfs.bareDir w cur name).nextInode := Nat.lt_succ_self _
    refine ⟨(hbare.dirAdd cur hle hnext).same rfl rfl, hle, ?_⟩
    show w.nextInode < ((Memfs.bareDir w cur name).dirAdd cur w.nextInode).nextInode
    rw [dirAdd_nextInode]
    exact hnext

theorem Kept.mkdirHere (h : n ≤ w.nextInode) (f : Nat) {cur : Nat} (hcur : n ≤ cur) (name : Path) :
    Kept n w (w.mkdirHere f cur name).2 := by
  have hmono : ∀ v : World, Kept w.nextInode w v → Kept n w v := fun v hv =>
    ⟨fun j hj => hv.inode j (by omega), hv.root, hv.nextInode, hv.nextFs, hv.atNull⟩
  rcases mkdirHere_eq w f cur name with ⟨-, hk, -⟩ | ⟨-, -, heq⟩
  · exact hmono _ hk
  · rw [heq]
    exact ((hmono _ (Kept.bareDir w cur name)).trans (Kept.dirAdd _ hcur h)).trans
      (Kept.countInode _ _ _)

end Fresh

section Scan

def made : Step (World × Nat × Nat) World → World
  | .ret w => w
  | .go s => s.1

theorem scan_fresh (names : List Path) (w : World) (f cur : Nat) (h : Fresh n w) (hcur : n ≤ cur)
    (hlt : cur < w.nextInode) : Kept n w (made (scanLast mkdirStep names (w, f, cur))) := by
  induction names generalizing w f cur with
  | nil => exact Kept.refl n w
  | cons name names ih =>
    rw [scanLast]
    cases hl : w.lookupDentry cur name with
    | none =>
      have hk : Kept n w (w.mkdirHere f cur name).2 := Kept.mkdirHere h.le f hcur name
      cases hmk : w.mkdirHere f cur name with
      | mk r w₁ =>
        rw [hmk] at hk
        cases r with
        | none =>
          simp only [mkdirStep, hl, hmk]
          exact hk
        | some next =>
          obtain ⟨hf₁, hle, hlt₁⟩ := h.mkdirHere f cur name hmk
          simp only [mkdirStep, hl, hmk]
          by_cases hdir : (w₁.inode next).type ≠ .dir
          · rw [if_pos hdir]
            exact hk
          · rw [if_neg hdir]
            exact hk.trans (ih w₁ f next hf₁ hle hlt₁)
    | some d =>
      have hd : n ≤ d.inode ∧ d.inode < w.nextInode ∧ d.mountedFs = none := by
        rw [World.lookupDentry] at hl
        split at hl
        · cases hl
        · exact h.entry cur hcur hlt d (List.mem_of_find?_eq_some hl)
      have henter : w.enter f d = (f, d.inode) := by rw [World.enter, hd.2.2]
      simp only [mkdirStep, hl, henter]
      by_cases hdir : (w.inode d.inode).type ≠ .dir
      · rw [if_pos hdir]
        exact Kept.refl n w
      · rw [if_neg hdir]
        exact ih w f d.inode h hd.1 hd.2.1

def firstMissing (w : World) : List Path → Nat × Nat → Option ((Nat × Nat) × Path)
  | [], _ => none
  | name :: names, s =>
      match w.lookupDentry s.2 name with
      | none => some (s, name)
      | some d =>
          if (w.inode (w.enter s.1 d).2).type ≠ .dir then none
          else firstMissing w names (w.enter s.1 d)

theorem firstMissing_some {names : List Path} {s t : Nat × Nat}
    (h : firstMissing w names s = some (t, name)) :
    name ∈ names ∧ w.lookupDentry t.2 name = none ∧
      ∃ before, before <+: names ∧ scanLast w.lookupStep before s = .go t := by
  induction names generalizing s with
  | nil => cases h
  | cons first names ih =>
    rw [firstMissing] at h
    split at h
    · rename_i hl
      cases h
      exact ⟨List.mem_cons_self .., hl, [], List.nil_prefix, rfl⟩
    · rename_i d hl
      split at h
      · cases h
      · obtain ⟨hmem, hnone, before, hpre, hscan⟩ := ih h
        refine ⟨List.mem_cons_of_mem _ hmem, hnone, first :: before, ?_, ?_⟩
        · exact (List.prefix_cons_inj first).mpr hpre
        · simp only [scanLast, lookupStep_some _ hl]
          exact hscan

theorem scan_existing {names : List Path} {s : Nat × Nat} (h : firstMissing w names s = none) :
    made (scanLast mkdirStep names (w, s)) = w := by
  induction names generalizing s with
  | nil => rfl
  | cons name names ih =>
    obtain ⟨f, cur⟩ := s
    rw [firstMissing] at h
    split at h
    · cases h
    · rename_i d hl
      simp only [scanLast, mkdirStep, hl]
      split at h
      · rename_i hdir
        rw [if_pos hdir]
        rfl
      · rename_i hdir
        rw [if_neg hdir]
        exact ih h

-- before the first missing name a scan changes nothing, behind it only new nodes
theorem scan_missing {names : List Path} {s t : Nat × Nat}
    (h : firstMissing w names s = some (t, name)) :
    Kept w.nextInode (w.mkdirHere t.1 t.2 name).2 (made (scanLast mkdirStep names (w, s))) := by
  induction names generalizing s with
  | nil => cases h
  | cons first names ih =>
    obtain ⟨f, cur⟩ := s
    rw [firstMissing] at h
    split at h
    · rename_i hl
      cases h
      cases hmk : w.mkdirHere f cur name with
      | mk r w₁ =>
        simp only [scanLast, mkdirStep, hl, hmk]
        cases r with
        | none => exact Kept.refl _ _
        | some next =>
          obtain ⟨hf₁, hle, hlt₁⟩ := (Fresh.start w).mkdirHere f cur name hmk
          by_cases hdir : (w₁.inode next).type ≠ .dir
          · simp only [if_pos hdir]
            exact Kept.refl _ _
          · simp only [if_neg hdir]
            exact scan_fresh names w₁ f next hf₁ hle hlt₁
    · rename_i d hl
      simp only [scanLast, mkdirStep, hl]
      split at h
      · cases h
      · rename_i hdir
        rw [if_neg hdir]
        exact ih h

theorem mkdirP_made (w : World) (f : Nat) (path : Path) :
    (w.mkdirP f path).2 =
      made (scanLast mkdirStep (components slash path) (w, f, w.root f)) := by
  have hlen : (skip slash path).length ≤ path.length := (List.dropWhile_sublist _).length_le
  rw [World.mkdirP, pathLoop_eq_scanLast slash _ _ _ _ hlen (skip_head slash path), skip,
    components_skip]
  split
  · rename_i h
    rw [h]
    rfl
  · rename_i h
    rw [h]
    rfl

end Scan

end HouseOS.Memfs
