import HouseOS.Syscall.MountCalls

namespace HouseOS.Syscall

open HouseOS.Vfs

section Seats

variable {Fat Ops : Type} {v v' : VfsT FsCtx Ops} {norm path source : Path} {ctx : FsCtx}

def seats (v : VfsT FsCtx Ops) : List (Path × FsCtx) := v.mounts.map fun m => (m.mountPath, m.fsCtx)

theorem seats_setFirstSource (norm source : Path) (ms : List (Mount FsCtx Ops)) :
    (setFirstSource norm source ms).map (fun m => (m.mountPath, m.fsCtx)) =
      ms.map fun m => (m.mountPath, m.fsCtx) := by
  induction ms with
  | nil => rfl
  | cons m ms ih =>
    rw [setFirstSource]
    split
    · rfl
    · rw [List.map_cons, List.map_cons, ih]

theorem seats_vfsSetMountSource : seats (vfsSetMountSource v path source) = seats v := by
  unfold vfsSetMountSource
  split
  · rfl
  split
  · rfl
  · exact seats_setFirstSource _ _ _

theorem seats_named (b : Bool) :
    seats (if b then vfsSetMountSource v path source else v) = seats v := by
  cases b with
  | true => exact seats_vfsSetMountSource
  | false => rfl

theorem seats_vfsMount {fsDrv : Path} {getInfo : GetInfo FsCtx Ops}
    (h : vfsMount v path fsDrv ctx getInfo = some v') :
    ∃ norm, normalizeMountPath path pathCap = some norm ∧ norm.take (pathCap - 1) = norm ∧
      (∀ e ∈ seats v, e.1 ≠ norm) ∧ seats v' = seats v ++ [(norm, ctx)] := by
  simp only [vfsMount] at h
  split at h
  · cases h
  split at h
  · rename_i ops norm _ hnorm
    split at h
    · cases h
    rename_i hfresh
    split at h
    · cases h
    split at h
    · cases h
      have hshort := take_short (normalize_ok hnorm).short
      refine ⟨norm, hnorm, hshort, fun e he => ?_, ?_⟩
      · obtain ⟨m, hm, rfl⟩ := List.mem_map.mp he
        have hfresh : ∀ m ∈ v.mounts, m.mountPath ≠ norm := by simpa using hfresh
        exact hfresh m hm
      · rw [seats, List.map_append, List.map_singleton, hshort]
        rfl
    · cases h
  · cases h

theorem seats_vfsUmount (hnorm : normalizeMountPath path pathCap = some norm)
    (h : vfsUmount v path = some v') :
    ∃ ctx l r, seats v = l ++ (norm, ctx) :: r ∧ seats v' = l ++ r := by
  simp only [vfsUmount, hnorm] at h
  split at h
  · cases h
  split at h
  · cases h
  rename_i idx hidx
  split at h
  · cases h
  cases h
  obtain ⟨hlt, hat, -⟩ := List.findIdx?_eq_some_iff_getElem.mp hidx
  refine ⟨(v.mounts[idx]).fsCtx, (seats v).take idx, (seats v).drop (idx + 1), ?_, ?_⟩
  · have hlen : idx < (seats v).length := by
      rw [seats, List.length_map]
      exact hlt
    have hcell : (seats v)[idx] = (norm, (v.mounts[idx]).fsCtx) := by
      simp only [seats, List.getElem_map, of_decide_eq_true hat]
    rw [← hcell, List.cons_getElem_drop_succ, List.take_append_drop]
  · rw [seats, seats, List.eraseIdx_eq_take_drop_succ, List.map_append, List.map_take, List.map_drop]

end Seats

section Matches

variable {Fat Ops : Type}

structure Matches (s : MountState Fat Ops) (es : List (Path × FsCtx)) : Prop where
  distinct : (es.map Prod.fst).Nodup
  uses : ∀ i < maxMounts, es.countP (fun e => decide (e.2 = .mountFat i)) =
    if s.mountFatUsed i then 1 else 0
  held : ∀ p i, (p, .mountFat i) ∈ es →
    i < maxMounts ∧ s.mountFatUsed i = true ∧ s.mountFatPath i = p

variable {s s' : MountState Fat Ops} {es l r : List (Path × FsCtx)} {p norm : Path} {i slot : Nat}
  {ctx : FsCtx}

theorem Matches.same (h : Matches s es) (hused : s'.mountFatUsed = s.mountFatUsed)
    (hpath : s'.mountFatPath = s.mountFatPath) : Matches s' es :=
  ⟨h.distinct, hused ▸ h.uses, hused ▸ hpath ▸ h.held⟩

theorem Matches.owner (h : Matches s es) (hi : i < maxMounts) (hused : s.mountFatUsed i = true) :
    (s.mountFatPath i, FsCtx.mountFat i) ∈ es := by
  have hcount := h.uses i hi
  rw [if_pos hused] at hcount
  obtain ⟨⟨q, c⟩, he, hctx⟩ := List.countP_pos_iff.mp (by rw [hcount]; exact Nat.one_pos)
  obtain rfl : c = .mountFat i := of_decide_eq_true hctx
  obtain ⟨-, -, hpath⟩ := h.held q i he
  rwa [hpath]

theorem Matches.free (h : Matches s es) (hused : s.mountFatUsed i = false) (p : Path) :
    (p, FsCtx.mountFat i) ∉ es := by
  intro hmem
  rw [(h.held p i hmem).2.1] at hused
  cases hused

theorem Matches.idle (h : Matches s es) (hfree : s.mountFatUsed slot = false)
    (hused : s'.mountFatUsed = s.mountFatUsed)
    (hpath : ∀ i, i ≠ slot → s'.mountFatPath i = s.mountFatPath i) : Matches s' es := by
  refine ⟨h.distinct, hused ▸ h.uses, fun p i hp => ?_⟩
  have his : i ≠ slot := by
    rintro rfl
    exact h.free hfree p hp
  rw [hused, hpath i his]
  exact h.held p i hp

theorem eq_of_path {e e' : Path × FsCtx} (h : (es.map Prod.fst).Nodup) (he : e ∈ es) (he' : e' ∈ es)
    (heq : e.1 = e'.1) : e = e' :=
  List.inj_on_of_nodup_map h he he' heq

theorem distinct_snoc (h : (es.map Prod.fst).Nodup) (hfresh : ∀ e ∈ es, e.1 ≠ p) :
    ((es ++ [(p, ctx)]).map Prod.fst).Nodup := by
  rw [List.map_append, List.map_singleton]
  refine List.nodup_append.mpr ⟨h, List.nodup_singleton p, fun a ha b hb => ?_⟩
  obtain ⟨e, he, rfl⟩ := List.mem_map.mp ha
  rw [List.mem_singleton.mp hb]
  exact hfresh e he

theorem Matches.mountOther (h : Matches s es) (hfresh : ∀ e ∈ es, e.1 ≠ p) (n : Nat) :
    Matches s (es ++ [(p, .other n)]) := by
  refine ⟨distinct_snoc h.distinct hfresh, fun i hi => ?_, fun q i hq => ?_⟩
  · rw [List.countP_append, h.uses i hi]
    rfl
  · rcases List.mem_append.mp hq with hq | hq
    · exact h.held q i hq
    · cases List.mem_singleton.mp hq

theorem Matches.mountFat (h : Matches s es) (hfresh : ∀ e ∈ es, e.1 ≠ p) (hslot : slot < maxMounts)
    (hfree : s.mountFatUsed slot = false) :
    Matches (s.setSlot slot true p) (es ++ [(p, .mountFat slot)]) := by
  refine ⟨distinct_snoc h.distinct hfresh, fun i hi => ?_, fun q i hq => ?_⟩
  · rw [List.countP_append, h.uses i hi]
    by_cases his : i = slot
    · subst his
      simp [MountState.setSlot, hfree]
    · have hne : ¬ slot = i := Ne.symm his
      simp [MountState.setSlot, Function.update_of_ne his, hne]
  · rcases List.mem_append.mp hq with hold | hq
    · have his : i ≠ slot := by
        rintro rfl
        exact h.free hfree q hold
      simp only [MountState.setSlot, Function.update_of_ne his]
      exact h.held q i hold
    · cases List.mem_singleton.mp hq
      exact ⟨hslot, Function.update_self .., Function.update_self ..⟩

theorem Matches.unmountOther (h : Matches s (l ++ (p, ctx) :: r)) (hctx : ∀ i, ctx ≠ .mountFat i) :
    Matches s (l ++ r) := by
  have hsub : (l ++ r).Sublist (l ++ (p, ctx) :: r) :=
    List.Sublist.append (List.Sublist.refl l) (List.sublist_cons_self _ r)
  refine ⟨h.distinct.sublist (hsub.map _), fun i hi => ?_, fun q i hq => h.held q i (hsub.subset hq)⟩
  have huses := h.uses i hi
  rw [List.countP_append, List.countP_cons_of_neg (by simpa using hctx i)] at huses
  rw [List.countP_append, huses]

theorem Matches.unmountFat (h : Matches s (l ++ (p, .mountFat slot) :: r)) :
    Matches (s.setSlot slot false []) (l ++ r) := by
  have hsub : (l ++ r).Sublist (l ++ (p, .mountFat slot) :: r) :=
    List.Sublist.append (List.Sublist.refl l) (List.sublist_cons_self _ r)
  obtain ⟨hslot, hused, -⟩ := h.held p slot (by simp)
  have hnone : (l ++ r).countP (fun e => decide (e.2 = .mountFat slot)) = 0 := by
    have huses := h.uses slot hslot
    rw [hused, if_pos rfl, List.countP_append, List.countP_cons_of_pos (by simp)] at huses
    rw [List.countP_append]
    omega
  refine ⟨h.distinct.sublist (hsub.map _), fun i hi => ?_, fun q i hq => ?_⟩
  · by_cases his : i = slot
    · subst his
      simp [MountState.setSlot, hnone]
    · have huses := h.uses i hi
      have hne : ¬ slot = i := Ne.symm his
      rw [List.countP_append, List.countP_cons_of_neg (by simpa using hne)] at huses
      simp only [MountState.setSlot, Function.update_of_ne his]
      rw [List.countP_append, huses]
  · have his : i ≠ slot := by
      rintro rfl
      exact absurd (by simp) (List.countP_eq_zero.mp hnone _ hq)
    simp only [MountState.setSlot, Function.update_of_ne his]
    exact h.held q i (hsub.subset hq)

end Matches

section Runs

variable {Fat Ops : Type} {s s' : MountState Fat Ops} {zero : Fat} {source path : Path}

def SlotsMatch (s : MountState Fat Ops) : Prop := ∀ v, s.rootFs = some v → Matches s (seats v)

-- no context is written while its mount stays
def ContextsKept (s s' : MountState Fat Ops) : Prop :=
  ∀ v v', s.rootFs = some v → s'.rootFs = some v' → ∀ p i, (p, .mountFat i) ∈ seats v →
    (p, .mountFat i) ∈ seats v' → s'.mountFatCtx i = s.mountFatCtx i

theorem ContextsKept.refl (s : MountState Fat Ops) : ContextsKept s s := fun _ _ _ _ _ _ _ _ => rfl

theorem freeSlot_some {slot : Nat} (h : s.freeSlot = some slot) :
    slot < maxMounts ∧ s.mountFatUsed slot = false := by
  have hfree := List.find?_some h
  exact ⟨List.mem_range.mp (List.mem_of_find?_eq_some h), Bool.not_eq_true' _ ▸ hfree⟩

-- what `takeCtx` leaves behind: a refusal, a context of another file system or a slot of its own
inductive Takes (s : MountState Fat Ops) (path : Path) :
    Int → Option (FsCtx × Path) → MountState Fat Ops → Prop
  | refused (rc : Int) {given : Option (FsCtx × Path)} (hnone : rc ≠ 0 ∨ given = none) :
      Takes s path rc given s
  | failed {slot : Nat} (rc : Int) (hrc : rc ≠ 0) (fat : Fat) (hfree : s.mountFatUsed slot = false) :
      Takes s path rc none (s.setCtx slot fat)
  | other (n : Nat) (drv : Path) : Takes s path 0 (some (.other n, drv)) s
  | slot {slot : Nat} {norm : Path} (drv : Path) (fat : Fat) (hslot : slot < maxMounts)
      (hfree : s.mountFatUsed slot = false) (hnorm : normalizeMountPath path pathCap = some norm) :
      Takes s path 0 (some (.mountFat slot, drv))
        ((s.setCtx slot fat).setSlot slot true (norm.take (pathCap - 1)))

theorem takeCtx_takes (s : MountState Fat Ops) (fsName path : Path) (init : Bool × Fat) :
    Takes s path (s.takeCtx fsName path init).1 (s.takeCtx fsName path init).2.1
      (s.takeCtx fsName path init).2.2 := by
  unfold MountState.takeCtx
  split
  · cases s.devfsCtx with
    | none => exact .refused 0 (Or.inr rfl)
    | some n => exact .other n fsName
  split
  · split
    · exact .refused _ (Or.inr rfl)
    rename_i norm hnorm
    split
    · exact .refused _ (Or.inr rfl)
    rename_i slot hslot
    obtain ⟨hlt, hfree⟩ := freeSlot_some hslot
    dsimp only
    split
    · exact .failed (-enodev) (by decide) init.2 hfree
    · exact .slot fat32Name init.2 hlt hfree hnorm
  · exact .refused _ (Or.inr rfl)

theorem setCtx_kept (hs : SlotsMatch s) {slot : Nat} (hfree : s.mountFatUsed slot = false)
    (hfat : ∀ i, i ≠ slot → s'.mountFatCtx i = s.mountFatCtx i) : ContextsKept s s' := by
  intro v v' hv _ p i hi _
  refine hfat i fun heq => ?_
  rw [heq] at hi
  exact (hs v hv).free hfree p hi

theorem sysMount_matches (hs : SlotsMatch s) (source path : Path) (init : Bool × Fat)
    (getInfo : GetInfo FsCtx Ops) :
    SlotsMatch (s.sysMount source path init getInfo).2 ∧
      ContextsKept s (s.sysMount source path init getInfo).2 := by
  unfold MountState.sysMount
  cases hroot : s.rootFs with
  | none => exact ⟨hs, ContextsKept.refl s⟩
  | some v =>
    have hm := hs v hroot
    dsimp only
    split
    · rename_i fsName mountPath _ _
      obtain ⟨rc, given, s₁, htake⟩ : ∃ rc given s₁, s.takeCtx fsName mountPath init =
        (rc, given, s₁) := ⟨_, _, _, rfl⟩
      have htakes := takeCtx_takes s fsName mountPath init
      rw [htake] at htakes ⊢
      dsimp only at htakes ⊢
      cases htakes with
      | refused _ hnone =>
        rcases hnone with hrc | rfl
        · rw [if_pos hrc]
          exact ⟨hs, ContextsKept.refl s⟩
        · split <;> exact ⟨hs, ContextsKept.refl s⟩
      | @failed slot _ hrc fat hfree =>
        rw [if_pos hrc]
        refine ⟨fun w hw => (hs w hw).same rfl rfl, ?_⟩
        exact setCtx_kept hs hfree fun i hi => Function.update_of_ne hi _ _
      | other n drv =>
        rw [if_neg (by decide)]
        dsimp only
        cases hmount : vfsMount v mountPath drv (.other n) getInfo with
        | none => exact ⟨hs, ContextsKept.refl s⟩
        | some v' =>
          obtain ⟨norm, -, -, hfresh, hseats⟩ := seats_vfsMount hmount
          dsimp only
          refine ⟨?_, fun _ _ _ _ _ _ _ _ => rfl⟩
          rintro w ⟨⟩
          rw [seats_named, hseats]
          exact (hm.mountOther hfresh n).same rfl rfl
      | @slot slot norm drv fat hslot hfree hnorm =>
        have hfat : ∀ i, i ≠ slot → Function.update s.mountFatCtx slot fat i = s.mountFatCtx i :=
          fun i hi => Function.update_of_ne hi _ _
        rw [if_neg (by decide)]
        dsimp only
        cases hmount : vfsMount v mountPath drv (.mountFat slot) getInfo with
        | none =>
          refine ⟨fun w hw => (hs w hw).idle hfree ?_ fun i hi => ?_, setCtx_kept hs hfree hfat⟩
          · funext i
            by_cases hi : i = slot
            · rw [hi, hfree]
              exact Function.update_self ..
            · exact (Function.update_of_ne hi _ _).trans (Function.update_of_ne hi _ _)
          · exact (Function.update_of_ne hi _ _).trans (Function.update_of_ne hi _ _)
        | some v' =>
          obtain ⟨norm', hnorm', hshort, hfresh, hseats⟩ := seats_vfsMount hmount
          obtain rfl : norm' = norm := Option.some.inj (hnorm'.symm.trans hnorm)
          dsimp only
          refine ⟨?_, setCtx_kept hs hfree hfat⟩
          rintro w ⟨⟩
          rw [seats_named, hseats, hshort]
          exact (hm.mountFat hfresh hslot hfree).same rfl rfl
    · exact ⟨hs, ContextsKept.refl s⟩

theorem ownerSlot_spec {v : VfsT FsCtx Ops} (hm : Matches s (seats v)) (norm : Path) :
    (∀ i, s.ownerSlot norm = some i → (norm, FsCtx.mountFat i) ∈ seats v) ∧
      (s.ownerSlot norm = none → ∀ i, (norm, FsCtx.mountFat i) ∉ seats v) := by
  constructor
  · intro i hi
    have hmatch := List.find?_some hi
    rw [Bool.and_eq_true, decide_eq_true_eq] at hmatch
    rw [← hmatch.2]
    exact hm.owner (List.mem_range.mp (List.mem_of_find?_eq_some hi)) hmatch.1
  · intro hnone i hmem
    obtain ⟨hlt, hused, hpath⟩ := hm.held norm i hmem
    have hno := List.find?_eq_none.mp hnone i (List.mem_range.mpr hlt)
    rw [hused, hpath, decide_eq_true rfl] at hno
    exact hno rfl

theorem sysUmount_matches (hs : SlotsMatch s) (zero : Fat) (path : Path) :
    SlotsMatch (s.sysUmount zero path).2 ∧ ContextsKept s (s.sysUmount zero path).2 := by
  unfold MountState.sysUmount
  cases hroot : s.rootFs with
  | none => exact ⟨hs, ContextsKept.refl s⟩
  | some v =>
    have hm := hs v hroot
    dsimp only
    split
    · exact ⟨hs, ContextsKept.refl s⟩
    rename_i mountPath _
    split
    · exact ⟨hs, ContextsKept.refl s⟩
    rename_i norm hnorm
    split
    · exact ⟨hs, ContextsKept.refl s⟩
    rename_i v' humount
    obtain ⟨ctx, l, r, hold, hnew⟩ := seats_vfsUmount hnorm humount
    obtain ⟨hsome, hnone⟩ := ownerSlot_spec hm norm
    have hgone : ∀ c, (norm, c) ∉ seats v' := by
      intro c hc
      have hdistinct := hm.distinct
      rw [hold, List.map_append, List.map_cons, List.nodup_middle, List.nodup_cons] at hdistinct
      rw [hnew] at hc
      refine hdistinct.1 ?_
      rw [← List.map_append]
      exact List.mem_map.mpr ⟨(norm, c), hc, rfl⟩
    have hself : (norm, ctx) ∈ seats v := by
      rw [hold]
      exact List.mem_append_right l List.mem_cons_self
    have hsame : MountState.ownerSlot { s with rootFs := some v' } norm = s.ownerSlot norm := rfl
    rw [hsame]
    cases howner : s.ownerSlot norm with
    | none =>
      have hctx : ∀ i, ctx ≠ .mountFat i := by
        rintro i rfl
        exact hnone howner i hself
      rw [hold] at hm
      refine ⟨?_, fun _ _ _ _ _ _ _ _ => rfl⟩
      rintro w ⟨⟩
      rw [hnew]
      exact hm.unmountOther hctx |>.same rfl rfl
    | some i =>
      have hi := hsome i howner
      obtain rfl : ctx = .mountFat i :=
        congrArg Prod.snd (eq_of_path hm.distinct hself hi rfl)
      have hheld := hm.held
      rw [hold] at hm
      refine ⟨?_, ?_⟩
      · rintro w ⟨⟩
        rw [hnew]
        exact hm.unmountFat.same rfl rfl
      · intro w w' hw hw' p j hj hj'
        cases hw'
        cases hroot.symm.trans hw
        have hji : j ≠ i := by
          rintro rfl
          obtain ⟨-, -, hp⟩ := hheld p j hj
          obtain ⟨-, -, hp'⟩ := hheld norm j hi
          rw [hp] at hp'
          exact hgone _ (hp' ▸ hj')
        exact Function.update_of_ne hji _ _

theorem mountStep_matches (hs : SlotsMatch s) (c : MountCall Fat Ops)
    (h : mountStep zero s c = some s') : SlotsMatch s' ∧ ContextsKept s s' := by
  cases c with
  | mount source path init getInfo =>
    cases h
    exact sysMount_matches hs source path init getInfo
  | umount path =>
    cases h
    exact sysUmount_matches hs zero path

structure BootedMounts (s : MountState Fat Ops) : Prop where
  distinct : ∀ v, s.rootFs = some v → ((seats v).map Prod.fst).Nodup
  others : ∀ v, s.rootFs = some v → ∀ p i, (p, FsCtx.mountFat i) ∉ seats v
  free : ∀ i < maxMounts, s.mountFatUsed i = false

theorem BootedMounts.slotsMatch (h : BootedMounts s) : SlotsMatch s := by
  intro v hv
  refine ⟨h.distinct v hv, fun i hi => ?_, fun p i hp => absurd hp (h.others v hv p i)⟩
  rw [h.free i hi, if_neg Bool.false_ne_true, List.countP_eq_zero]
  rintro ⟨p, c⟩ he hctx
  obtain rfl : c = .mountFat i := of_decide_eq_true hctx
  exact h.others v hv p i he

def fatMounts (v : VfsT FsCtx Ops) (i : Nat) : List (Mount FsCtx Ops) :=
  v.mounts.filter fun m => decide (m.fsCtx = .mountFat i)

theorem SlotsMatch.exact (hs : SlotsMatch s) {v : VfsT FsCtx Ops} (hv : s.rootFs = some v) {i : Nat}
    (hi : i < maxMounts) : (fatMounts v i).length = if s.mountFatUsed i then 1 else 0 := by
  rw [← (hs v hv).uses i hi, seats, List.countP_map, fatMounts, ← List.countP_eq_length_filter]
  rfl

theorem SlotsMatch.path_eq (hs : SlotsMatch s) {v : VfsT FsCtx Ops} (hv : s.rootFs = some v) {i : Nat}
    {m : Mount FsCtx Ops} (hm : m ∈ fatMounts v i) : m.mountPath = s.mountFatPath i := by
  obtain ⟨hmem, hctx⟩ := List.mem_filter.mp hm
  have hseat : (m.mountPath, FsCtx.mountFat i) ∈ seats v :=
    List.mem_map.mpr ⟨m, hmem, by rw [of_decide_eq_true hctx]⟩
  exact ((hs v hv).held m.mountPath i hseat).2.2.symm

theorem mount_contexts_match {s₀ : MountState Fat Ops} (hboot : BootedMounts s₀) (zero : Fat)
    (calls : List (MountCall Fat Ops)) :
    ∃ s, Run.run (mountStep zero) s₀ calls = some s ∧
      (∀ v, s.rootFs = some v → ∀ i < maxMounts,
        (s.mountFatUsed i = true ↔ (fatMounts v i).length = 1) ∧
        (s.mountFatUsed i = false ↔ fatMounts v i = []) ∧
        ∀ m ∈ fatMounts v i, m.mountPath = s.mountFatPath i) ∧
      ∀ c s', mountStep zero s c = some s' → ContextsKept s s' := by
  have hstep : ∀ (s : MountState Fat Ops) (c : MountCall Fat Ops), SlotsMatch s → True →
      ∃ s', mountStep zero s c = some s' ∧ SlotsMatch s' := by
    intro s c hs _
    cases c with
    | mount source path init getInfo =>
      exact ⟨_, rfl, (sysMount_matches hs source path init getInfo).1⟩
    | umount path => exact ⟨_, rfl, (sysUmount_matches hs zero path).1⟩
  obtain ⟨s, hrun, hs⟩ := Run.run_total hstep calls s₀ hboot.slotsMatch
    (Run.along_of_forall (fun _ _ => trivial) calls s₀)
  refine ⟨s, hrun, fun v hv i hi => ?_, fun c s' hc => (mountStep_matches hs c hc).2⟩
  have hexact := hs.exact hv hi
  refine ⟨?_, ?_, fun m hm => hs.path_eq hv hm⟩
  · rw [hexact]
    cases s.mountFatUsed i <;> simp
  · rw [← List.length_eq_zero_iff, hexact]
    cases s.mountFatUsed i <;> simp

private def bootedState : MountState Nat Unit where
  rootFs := some ⟨some (.other 0), some (), [], [⟨fat32Name, ()⟩], []⟩
  devfsCtx := none
  mountFatCtx := fun _ => 0
  mountFatUsed := fun _ => false
  mountFatPath := fun _ => []

-- a disk mounted on "/mnt" and unmounted as "/mnt/"
theorem mount_contexts_match_disk :
    ∃ s, Run.run (mountStep 0) bootedState [.mount (diskPrefix ++ [48]) [47, 109] (true, 7)
        (fun _ _ _ => some .dir), .umount [47, 109, 47]] = some s ∧
      (∀ v, s.rootFs = some v → ∀ i < maxMounts,
        (s.mountFatUsed i = true ↔ (fatMounts v i).length = 1) ∧
        (s.mountFatUsed i = false ↔ fatMounts v i = []) ∧
        ∀ m ∈ fatMounts v i, m.mountPath = s.mountFatPath i) ∧
      ∀ c s', mountStep 0 s c = some s' → ContextsKept s s' :=
  mount_contexts_match
    { distinct := fun v hv => by
        cases hv
        exact List.nodup_nil
      others := fun v hv p i => by
        cases hv
        exact List.not_mem_nil
      free := fun _ _ => rfl } 0 _

example :
    (Run.run (mountStep 0) bootedState [.mount (diskPrefix ++ [48]) [47, 109] (true, 7)
      (fun _ _ _ => some .dir)]).map (fun s => (s.mountFatUsed 0, s.mountFatPath 0, s.mountFatCtx 0)) =
      some (true, [47, 109], 7) := by decide

end Runs

end HouseOS.Syscall
