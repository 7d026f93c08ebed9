import HouseOS.Library.Components
import HouseOS.Library.Run
import HouseOS.Vfs.Model

namespace HouseOS.Vfs

open HouseOS.Components

variable {Ctx Ops : Type}

def pathComponents (p : Path) : List Path := components slash p

structure MountPathOk (p : Path) : Prop where
  absolute : p.head? = some slash
  short : p.length < pathCap

structure TableSound (v : VfsT Ctx Ops) : Prop where
  rootFs : v.rootFs.isSome
  rootOps : v.rootOps.isSome
  count : v.mounts.length ≤ maxMounts
  paths : ∀ m ∈ v.mounts, MountPathOk m.mountPath
  distinct : (v.mounts.map (fun m => m.mountPath)).Nodup

theorem MountPathOk.ne_nil {p : Path} (h : MountPathOk p) : p ≠ [] := by
  rintro rfl
  simpa using h.absolute

theorem normalize_ok {inp norm : Path} (h : normalizeMountPath inp pathCap = some norm) :
    MountPathOk norm := by
  simp only [normalizeMountPath] at h
  split at h
  · cases h
  · rename_i habs
    split at h
    · cases h
    · rename_i hlen
      split at h
      · cases h
        constructor
        · rw [List.head?_take, if_neg (by omega)]
          simpa using habs
        · rw [List.length_take]
          omega
      · cases h
        exact ⟨by simpa using habs, by omega⟩

theorem take_short {p : Path} (h : p.length < pathCap) : p.take (pathCap - 1) = p :=
  List.take_of_length_le (by simp [pathCap] at h ⊢; omega)

theorem tableSound_booted {v : VfsT Ctx Ops} (h : Booted v) : TableSound v where
  rootFs := h.rootFs
  rootOps := h.rootOps
  count := by simp [h.noMounts]
  paths := by simp [h.noMounts]
  distinct := by simp [h.noMounts]

section Boot

variable {v v' : VfsT Ctx Ops} {fsName : Path} {fsCtx : Ctx} {ops : Ops}

theorem vfsRegisterFs_mounts (h : vfsRegisterFs v fsName ops = some v') : v'.mounts = v.mounts := by
  rw [vfsRegisterFs] at h
  split_ifs at h
  cases h
  rfl

theorem vfsSetRoot_booted (hnone : v.mounts = []) (h : vfsSetRoot v fsName fsCtx = some v') :
    Booted v' := by
  rw [vfsSetRoot] at h
  split at h
  · cases h
  · cases h
    exact ⟨rfl, rfl, hnone⟩

theorem booted_of_drivers (drivers : List (Path × Ops))
    (hreg : drivers.foldlM (fun v d => vfsRegisterFs v d.1 d.2) vfsInit = some v)
    (hroot : vfsSetRoot v fsName fsCtx = some v') : Booted v' := by
  refine vfsSetRoot_booted ?_ hroot
  have hkeeps : ∀ (l : List (Path × Ops)) (u : VfsT Ctx Ops), u.mounts = [] →
      l.foldlM (fun v d => vfsRegisterFs v d.1 d.2) u = some v → v.mounts = [] := by
    intro l
    induction l with
    | nil =>
      rintro u hu ⟨⟩
      exact hu
    | cons d l ih =>
      intro u hu hl
      rw [List.foldlM_cons] at hl
      obtain ⟨u', hu', hl⟩ := Option.bind_eq_some_iff.mp hl
      exact ih u' ((vfsRegisterFs_mounts hu').trans hu) hl
  exact hkeeps drivers vfsInit rfl hreg

end Boot

theorem tableSound_mount {v v' : VfsT Ctx Ops} (h : TableSound v) {mountPath fsName : Path}
    {fsCtx : Ctx} {getInfo : GetInfo Ctx Ops}
    (hm : vfsMount v mountPath fsName fsCtx getInfo = some v') : TableSound v' := by
  simp only [vfsMount] at hm
  split at hm
  · cases hm
  rename_i hroom
  split at hm
  · rename_i ops norm _ hnorm
    split at hm
    · cases hm
    rename_i hfresh
    split at hm
    · cases hm
    split at hm
    · cases hm
      have hok := normalize_ok hnorm
      have hfresh : ∀ m ∈ v.mounts, m.mountPath ≠ norm := by simpa using hfresh
      refine ⟨h.rootFs, h.rootOps, ?_, ?_, ?_⟩
      · simp only [List.length_append, List.length_singleton]
        omega
      · intro m hmem
        rcases List.mem_append.mp hmem with hmem | hmem
        · exact h.paths m hmem
        · obtain rfl := List.mem_singleton.mp hmem
          rwa [take_short hok.short]
      · rw [List.map_append, List.nodup_append]
        refine ⟨h.distinct, by simp, ?_⟩
        intro a ha b hb
        obtain ⟨m, hmem, rfl⟩ := List.mem_map.mp ha
        simp only [List.map_cons, List.map_nil, List.mem_singleton, take_short hok.short] at hb
        exact hb ▸ hfresh m hmem
    · cases hm
  · cases hm

theorem tableSound_umount {v v' : VfsT Ctx Ops} (h : TableSound v) {mountPath : Path}
    (hm : vfsUmount v mountPath = some v') : TableSound v' := by
  simp only [vfsUmount] at hm
  split at hm
  · cases hm
  split at hm
  · cases hm
  split at hm
  · cases hm
  rename_i idx _
  split at hm
  · cases hm
  · cases hm
    have hsub : (v.mounts.eraseIdx idx).Sublist v.mounts := List.eraseIdx_sublist ..
    exact ⟨h.rootFs, h.rootOps, Nat.le_trans hsub.length_le h.count,
      fun m hmem => h.paths m (hsub.subset hmem), h.distinct.sublist (hsub.map _)⟩

theorem tableSound_step {v v' : VfsT Ctx Ops} (h : TableSound v) (e : Event Ctx Ops)
    (hs : step v e = some v') : TableSound v' := by
  cases e with
  | mount mountPath fsName fsCtx getInfo =>
    simp only [step, Option.some.injEq] at hs
    cases hm : vfsMount v mountPath fsName fsCtx getInfo with
    | none =>
      rw [hm, Option.getD_none] at hs
      exact hs ▸ h
    | some w =>
      rw [hm, Option.getD_some] at hs
      exact hs ▸ tableSound_mount h hm
  | umount mountPath =>
    simp only [step, Option.some.injEq] at hs
    cases hm : vfsUmount v mountPath with
    | none =>
      rw [hm, Option.getD_none] at hs
      exact hs ▸ h
    | some w =>
      rw [hm, Option.getD_some] at hs
      exact hs ▸ tableSound_umount h hm

theorem tableSound_run {v₀ v : VfsT Ctx Ops} (h₀ : Booted v₀) {es : List (Event Ctx Ops)}
    (hrun : Run.run step v₀ es = some v) : TableSound v := by
  have hall : Run.Along step (fun _ _ => True) v₀ es :=
    Run.along_of_forall (fun _ _ => trivial) es v₀
  exact Run.run_invariant (fun _ e _ hs _ hstep => tableSound_step hs e hstep) es v₀ v
    (tableSound_booted h₀) hall hrun

end HouseOS.Vfs
