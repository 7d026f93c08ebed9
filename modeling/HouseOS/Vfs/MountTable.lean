import HouseOS.Vfs.Resolve

namespace HouseOS.Vfs

-- what the operation tables of the mounted filesystems do to all of their contents together; the
-- first answer is whether the call returned 0, a missing entry of the table counts as a refusal
structure Backend (Disk Ctx Ops : Type) where
  getInfo : Disk → GetInfo Ctx Ops
  mkdir : Disk → Ops → Ctx → Path → Bool × Disk
  createFile : Disk → Ops → Ctx → Path → Bool × Disk
  link : Disk → Ops → Ctx → Path → Path → Bool × Disk
  unlink : Disk → Ops → Ctx → Path → Bool × Disk
  rmdir : Disk → Ops → Ctx → Path → Bool × Disk

def isRootPath (path : Path) : Bool := decide (path = [slash])

section Calls

variable {Disk Ctx Ops : Type} (b : Backend Disk Ctx Ops) (v : VfsT Ctx Ops) (d : Disk)

def isExactMountPath (path : Path) : Bool :=
  match normalizeMountPath path pathCap with
  | none => false
  | some norm => v.mounts.any (fun m => decide (m.mountPath = norm))

def vfsMkdir (path : Path) : Bool × Disk :=
  if isExactMountPath v path then (false, d)
  else
    match vfsResolve v path with
    | none => (false, d)
    | some r => b.mkdir d r.ops r.fsCtx r.localPath

def vfsCreateFile (path : Path) : Bool × Disk :=
  if isExactMountPath v path then (false, d)
  else
    match vfsResolve v path with
    | none => (false, d)
    | some r => b.createFile d r.ops r.fsCtx r.localPath

def vfsLink [DecidableEq Ctx] [DecidableEq Ops] (oldpath newpath : Path) : Bool × Disk :=
  if isExactMountPath v oldpath ∨ isExactMountPath v newpath then (false, d)
  else
    match vfsResolve v oldpath, vfsResolve v newpath with
    | some ro, some rn =>
        if ro.ops ≠ rn.ops ∨ ro.fsCtx ≠ rn.fsCtx then (false, d)
        else b.link d ro.ops ro.fsCtx ro.localPath rn.localPath
    | _, _ => (false, d)

def vfsUnlink (path : Path) : Bool × Disk :=
  if isExactMountPath v path then (false, d)
  else if isRootPath path then (false, d)
  else
    match vfsResolve v path with
    | none => (false, d)
    | some r =>
        match b.getInfo d r.ops r.fsCtx r.localPath with
        | none => (false, d)
        | some type =>
            if type = .dir then (false, d) else b.unlink d r.ops r.fsCtx r.localPath

def vfsRmdir (path : Path) : Bool × Disk :=
  if isExactMountPath v path then (false, d)
  else if isRootPath path then (false, d)
  else
    match normalizeMountPath path pathCap with
    | none => (false, d)
    | some norm =>
        if v.mounts.any (fun m => mountBelow norm m.mountPath) then (false, d)
        else
          match vfsResolve v path with
          | none => (false, d)
          | some r =>
              match b.getInfo d r.ops r.fsCtx r.localPath with
              | none => (false, d)
              | some type =>
                  if type ≠ .dir then (false, d) else b.rmdir d r.ops r.fsCtx r.localPath

end Calls

-- where a mount sits: the mount that held the directory when it was mounted (none is the root
-- filesystem) and the directory it covers there
structure Seat (Ctx Ops : Type) where
  host : Option Path
  dir : Resolved Ctx Ops

structure System (Disk Ctx Ops : Type) where
  vfs : VfsT Ctx Ops
  disk : Disk
  seat : Path → Option (Seat Ctx Ops)

inductive Call (Ctx : Type) where
  | mount (mountPath fsName : Path) (fsCtx : Ctx)
  | umount (mountPath : Path)
  | mkdir (path : Path)
  | createFile (path : Path)
  | link (oldpath newpath : Path)
  | unlink (path : Path)
  | rmdir (path : Path)

namespace System

variable {Disk Ctx Ops : Type} [DecidableEq Ctx] [DecidableEq Ops] (b : Backend Disk Ctx Ops)

def seatOf (v : VfsT Ctx Ops) (norm : Path) : Option (Seat Ctx Ops) :=
  (vfsResolve v norm).map (fun r => { host := (bestMount v norm).map (fun m => m.mountPath), dir := r })

def mount (s : System Disk Ctx Ops) (mountPath fsName : Path) (fsCtx : Ctx) : System Disk Ctx Ops :=
  match vfsMount s.vfs mountPath fsName fsCtx (b.getInfo s.disk), normalizeMountPath mountPath pathCap with
  | some vfs, some norm =>
      { s with vfs := vfs, seat := fun p => if p = norm then seatOf s.vfs norm else s.seat p }
  | _, _ => s

def umount (s : System Disk Ctx Ops) (mountPath : Path) : System Disk Ctx Ops :=
  match vfsUmount s.vfs mountPath with
  | some vfs => { s with vfs := vfs }
  | none => s

def step (s : System Disk Ctx Ops) : Call Ctx → Option (System Disk Ctx Ops)
  | .mount mountPath fsName fsCtx => some (s.mount b mountPath fsName fsCtx)
  | .umount mountPath => some (s.umount mountPath)
  | .mkdir path => some { s with disk := (vfsMkdir b s.vfs s.disk path).2 }
  | .createFile path => some { s with disk := (vfsCreateFile b s.vfs s.disk path).2 }
  | .link oldpath newpath => some { s with disk := (vfsLink b s.vfs s.disk oldpath newpath).2 }
  | .unlink path => some { s with disk := (vfsUnlink b s.vfs s.disk path).2 }
  | .rmdir path => some { s with disk := (vfsRmdir b s.vfs s.disk path).2 }

end System

section Tables

variable {Ctx Ops : Type} {v v' : VfsT Ctx Ops} {mountPath fsName norm path : Path} {fsCtx : Ctx}
  {getInfo : GetInfo Ctx Ops}

structure Mounted (v v' : VfsT Ctx Ops) (norm : Path) (getInfo : GetInfo Ctx Ops) : Prop where
  fresh : ∀ m ∈ v.mounts, m.mountPath ≠ norm
  ok : MountPathOk norm
  dir : ∃ r, vfsResolve v norm = some r ∧ getInfo r.ops r.fsCtx r.localPath = some .dir
  root : v'.rootFs = v.rootFs ∧ v'.rootOps = v.rootOps
  mounts : ∃ m : Mount Ctx Ops, m.mountPath = norm ∧ v'.mounts = v.mounts ++ [m]

theorem vfsMount_some (h : vfsMount v mountPath fsName fsCtx getInfo = some v') :
    ∃ norm, normalizeMountPath mountPath pathCap = some norm ∧ Mounted v v' norm getInfo := by
  simp only [vfsMount] at h
  split at h
  · cases h
  split at h
  · rename_i ops norm _ hnorm
    split at h
    · cases h
    rename_i hfresh
    split at h
    · cases h
    rename_i r hr
    split at h
    · rename_i hdir
      cases h
      have hok := normalize_ok hnorm
      exact ⟨norm, hnorm, by simpa using hfresh, hok, ⟨r, hr, hdir⟩, ⟨rfl, rfl⟩,
        ⟨_, take_short hok.short, rfl⟩⟩
    · cases h
  · cases h

structure Unmounted (v v' : VfsT Ctx Ops) (norm : Path) : Prop where
  notRoot : norm ≠ [slash]
  free : ∀ m ∈ v'.mounts, mountBelow norm m.mountPath = false
  root : v'.rootFs = v.rootFs ∧ v'.rootOps = v.rootOps
  mounts : v'.mounts = v.mounts.eraseP (fun m => decide (m.mountPath = norm))

theorem vfsUmount_some (h : vfsUmount v mountPath = some v') :
    ∃ norm, normalizeMountPath mountPath pathCap = some norm ∧ Unmounted v v' norm := by
  simp only [vfsUmount] at h
  split at h
  · cases h
  rename_i norm hnorm
  split at h
  · cases h
  rename_i hroot
  split at h
  · cases h
  rename_i idx hidx
  split at h
  · cases h
  rename_i hfree
  cases h
  refine ⟨norm, hnorm, hroot, by simpa using hfree, ⟨rfl, rfl⟩, ?_⟩
  rw [List.eraseP_eq_eraseIdx, hidx]

theorem scanMounts_filter (path : Path) (ms : List (Mount Ctx Ops)) :
    ∀ best n, scanMounts path ms best n =
      scanMounts path (ms.filter (fun m => pathStartsWithMount path m.mountPath)) best n := by
  induction ms with
  | nil => exact fun best n => rfl
  | cons m ms ih =>
    intro best n
    rw [List.filter_cons]
    split
    · rw [scanMounts, scanMounts, ih, ih]
    · rename_i hs
      rw [scanMounts, ← ih]
      simp [hs]

theorem filter_eraseP {α : Type} {p q : α → Bool} (l : List α) (h : ∀ a ∈ l, p a → q a = false) :
    (l.eraseP p).filter q = l.filter q := by
  induction l with
  | nil => rfl
  | cons a l ih =>
    have ih := ih (fun b hb => h b (List.mem_cons_of_mem a hb))
    cases hp : p a with
    | true =>
      rw [List.eraseP_cons_of_pos hp, List.filter_cons_of_neg (by
        rw [h a List.mem_cons_self hp]
        simp)]
    | false => rw [List.eraseP_cons_of_neg (by simp [hp]), List.filter_cons, List.filter_cons, ih]

theorem resolve_congr (hroot : v'.rootFs = v.rootFs ∧ v'.rootOps = v.rootOps)
    (hmounts : v'.mounts.filter (fun m => pathStartsWithMount path m.mountPath) =
      v.mounts.filter (fun m => pathStartsWithMount path m.mountPath)) :
    vfsResolve v' path = vfsResolve v path := by
  have hbest : bestMount v' path = bestMount v path := by
    rw [bestMount, bestMount, scanMounts_filter, scanMounts_filter path v.mounts, hmounts]
  rw [vfsResolve, vfsResolve, hbest, hroot.1, hroot.2]

theorem Mounted.elsewhere (h : Mounted v v' norm getInfo)
    (hpath : pathStartsWithMount path norm = false) : vfsResolve v' path = vfsResolve v path := by
  obtain ⟨m, rfl, hmounts⟩ := h.mounts
  refine resolve_congr h.root ?_
  rw [hmounts, List.filter_append, List.filter_cons_of_neg (by simp [hpath]), List.filter_nil,
    List.append_nil]

theorem Unmounted.elsewhere (h : Unmounted v v' norm)
    (hpath : pathStartsWithMount path norm = false) : vfsResolve v' path = vfsResolve v path := by
  refine resolve_congr h.root ?_
  rw [h.mounts]
  refine filter_eraseP _ ?_
  intro m _ hm
  rw [of_decide_eq_true hm]
  exact hpath

theorem mem_eraseP_path {ms : List (Mount Ctx Ops)} (hnd : (ms.map (fun m => m.mountPath)).Nodup)
    (norm : Path) (m : Mount Ctx Ops) :
    m ∈ ms.eraseP (fun m => decide (m.mountPath = norm)) ↔ m ∈ ms ∧ m.mountPath ≠ norm := by
  induction ms with
  | nil => simp
  | cons a ms ih =>
    rw [List.map_cons, List.nodup_cons] at hnd
    by_cases ha : a.mountPath = norm
    · rw [List.eraseP_cons_of_pos (by simpa using ha)]
      constructor
      · intro hm
        refine ⟨List.mem_cons_of_mem a hm, fun heq => hnd.1 ?_⟩
        exact List.mem_map.mpr ⟨m, hm, heq.trans ha.symm⟩
      · rintro ⟨hm, hne⟩
        rcases List.mem_cons.mp hm with rfl | hm
        · exact absurd ha hne
        · exact hm
    · rw [List.eraseP_cons_of_neg (by simpa using ha), List.mem_cons, ih hnd.2, List.mem_cons]
      constructor
      · rintro (rfl | ⟨hm, hne⟩)
        · exact ⟨Or.inl rfl, ha⟩
        · exact ⟨Or.inr hm, hne⟩
      · rintro ⟨rfl | hm, hne⟩
        · exact Or.inl rfl
        · exact Or.inr ⟨hm, hne⟩

-- a mount whose path goes on after another one's is what the guards call "below"
theorem below_of_starts {m host : Path} (habs : m.head? = some slash) (hroot : host ≠ [slash])
    (h : pathStartsWithMount m host = true) (hne : m ≠ host) : mountBelow host m = true := by
  obtain ⟨hpre, heq | hb⟩ := starts_spec habs h
  · exact absurd heq hroot
  · obtain ⟨rest, rfl⟩ := hpre
    rw [List.drop_left] at hb
    cases rest with
    | nil => exact absurd (List.append_nil host) hne
    | cons c rest =>
      obtain rfl : c = slash := hb c rfl
      simp [mountBelow]

end Tables

end HouseOS.Vfs
