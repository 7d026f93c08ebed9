import HouseOS.Library.Run
import HouseOS.Memfs.Forest
import HouseOS.Vfs.MountTable

namespace HouseOS.Vfs

open HouseOS.Components (components)
open HouseOS.Memfs (World blankWorld LeadsToDir Planted Grows planted_blank)

variable {Disk Ctx Ops K : Type}

section Guard

def IsDir (b : Backend Disk Ctx Ops) (d : Disk) (r : Resolved Ctx Ops) : Prop :=
  b.getInfo d r.ops r.fsCtx r.localPath = some .dir

def Keeps (b : Backend Disk Ctx Ops) (sound : Disk → Prop) (d d' : Disk) : Prop :=
  sound d' ∧ ∀ r, IsDir b d r → IsDir b d' r

-- what the filesystems are relied on for: `key` is the chain of names a path spells for one of
-- them, and a call takes away no directory but the one that `rmdir` names
structure KeepsDirs (b : Backend Disk Ctx Ops) (key : Ops → Path → List K) (sound : Disk → Prop) :
    Prop where
  mkdir : ∀ d o c p, sound d → Keeps b sound d (b.mkdir d o c p).2
  createFile : ∀ d o c p, sound d → Keeps b sound d (b.createFile d o c p).2
  link : ∀ d o c p q, sound d → b.getInfo d o c p ≠ some .dir → Keeps b sound d (b.link d o c p q).2
  unlink : ∀ d o c p, sound d → b.getInfo d o c p ≠ some .dir → Keeps b sound d (b.unlink d o c p).2
  rmdir : ∀ d o c p, sound d → sound (b.rmdir d o c p).2 ∧ ∀ r, IsDir b d r →
    ¬ (r.ops = o ∧ r.fsCtx = c ∧ key o p <+: key r.ops r.localPath) → IsDir b (b.rmdir d o c p).2 r

structure CleanPath (p : Path) : Prop where
  trailing : p ≠ [slash] → p.getLast? ≠ some slash
  repeated : ¬ [slash, slash] <:+: p

def AtOrAbove (key : Ops → Path → List K) (r r' : Resolved Ctx Ops) : Prop :=
  r.ops = r'.ops ∧ r.fsCtx = r'.fsCtx ∧ key r.ops r.localPath <+: key r'.ops r'.localPath

def Recognised (norm mountPath : Path) : Prop :=
  mountPath = norm ∨ mountBelow norm mountPath = true

def Guarded (b : Backend Disk Ctx Ops) (key : Ops → Path → List K) (s : System Disk Ctx Ops) :
    Call Ctx → Prop
  | .mount mountPath _ _ => ∀ norm r, normalizeMountPath mountPath pathCap = some norm →
      vfsResolve s.vfs norm = some r → IsDir b s.disk r → CleanPath norm
  | .link oldpath _ => ∀ r, vfsResolve s.vfs oldpath = some r → ¬ IsDir b s.disk r
  | .rmdir path => ∀ r norm, vfsResolve s.vfs path = some r →
      normalizeMountPath path pathCap = some norm → ∀ m ∈ s.vfs.mounts, ∀ seat,
        s.seat m.mountPath = some seat → AtOrAbove key r seat.dir → Recognised norm m.mountPath
  | _ => True

structure Seated (b : Backend Disk Ctx Ops) (s : System Disk Ctx Ops) (m : Mount Ctx Ops)
    (seat : Seat Ctx Ops) : Prop where
  known : s.seat m.mountPath = some seat
  host : ∀ h, seat.host = some h → ∃ m' ∈ s.vfs.mounts, m'.mountPath = h
  dir : IsDir b s.disk seat.dir

structure MountsKept (b : Backend Disk Ctx Ops) (s : System Disk Ctx Ops) : Prop where
  distinct : (s.vfs.mounts.map (fun m => m.mountPath)).Nodup
  clean : ∀ m ∈ s.vfs.mounts, CleanPath m.mountPath
  seated : ∀ m ∈ s.vfs.mounts, ∃ seat, Seated b s m seat

def Call.point : Call Ctx → Option Path
  | .mount mountPath _ _ => normalizeMountPath mountPath pathCap
  | .umount mountPath => normalizeMountPath mountPath pathCap
  | _ => none

structure StepKept (b : Backend Disk Ctx Ops) (key : Ops → Path → List K)
    (s s' : System Disk Ctx Ops) (e : Call Ctx) : Prop where
  elsewhere : ∀ p, (∀ norm, e.point = some norm → pathStartsWithMount p norm = false) →
    vfsResolve s'.vfs p = vfsResolve s.vfs p
  above : ∀ m ∈ s.vfs.mounts, ∀ seat, s.seat m.mountPath = some seat → ∀ r,
    AtOrAbove key r seat.dir → IsDir b s.disk r → IsDir b s'.disk r

structure Inv (b : Backend Disk Ctx Ops) (sound : Disk → Prop) (s : System Disk Ctx Ops) : Prop where
  table : TableSound s.vfs
  disk : sound s.disk
  kept : MountsKept b s
  starts : ∀ m ∈ s.vfs.mounts, ∀ seat, s.seat m.mountPath = some seat → ∀ h, seat.host = some h →
    pathStartsWithMount m.mountPath h = true

variable {b : Backend Disk Ctx Ops} {key : Ops → Path → List K} {sound : Disk → Prop}
  {s s' : System Disk Ctx Ops}

section Disks

theorem Keeps.refl (d : Disk) (h : sound d) : Keeps b sound d d := ⟨h, fun _ hr => hr⟩

theorem vfsMkdir_keeps (hk : KeepsDirs b key sound) (h : sound s.disk) (p : Path) :
    Keeps b sound s.disk (vfsMkdir b s.vfs s.disk p).2 := by
  rw [vfsMkdir]
  split
  · exact Keeps.refl _ h
  · split
    · exact Keeps.refl _ h
    · exact hk.mkdir _ _ _ _ h

theorem vfsCreateFile_keeps (hk : KeepsDirs b key sound) (h : sound s.disk) (p : Path) :
    Keeps b sound s.disk (vfsCreateFile b s.vfs s.disk p).2 := by
  rw [vfsCreateFile]
  split
  · exact Keeps.refl _ h
  · split
    · exact Keeps.refl _ h
    · exact hk.createFile _ _ _ _ h

theorem vfsLink_keeps [DecidableEq Ctx] [DecidableEq Ops] (hk : KeepsDirs b key sound) (h : sound s.disk) (old new : Path)
    (hold : ∀ r, vfsResolve s.vfs old = some r → ¬ IsDir b s.disk r) :
    Keeps b sound s.disk (vfsLink b s.vfs s.disk old new).2 := by
  rw [vfsLink]
  split
  · exact Keeps.refl _ h
  · split
    · rename_i ro rn hro hrn
      split
      · exact Keeps.refl _ h
      · exact hk.link _ _ _ _ _ h (hold ro hro)
    · exact Keeps.refl _ h

theorem vfsUnlink_keeps (hk : KeepsDirs b key sound) (h : sound s.disk) (p : Path) :
    Keeps b sound s.disk (vfsUnlink b s.vfs s.disk p).2 := by
  rw [vfsUnlink]
  split
  · exact Keeps.refl _ h
  split
  · exact Keeps.refl _ h
  split
  · exact Keeps.refl _ h
  split
  · exact Keeps.refl _ h
  rename_i type htype
  split
  · exact Keeps.refl _ h
  · rename_i hne
    refine hk.unlink _ _ _ _ h ?_
    rw [htype]
    exact fun heq => hne (Option.some.inj heq)

theorem vfsRmdir_keeps (hk : KeepsDirs b key sound) (h : sound s.disk) (p : Path)
    (hg : Guarded b key s (.rmdir p)) :
    sound (vfsRmdir b s.vfs s.disk p).2 ∧ ∀ m ∈ s.vfs.mounts, ∀ seat,
      s.seat m.mountPath = some seat → ∀ r, AtOrAbove key r seat.dir → IsDir b s.disk r →
        IsDir b (vfsRmdir b s.vfs s.disk p).2 r := by
  rw [vfsRmdir]
  split
  · exact ⟨h, fun _ _ _ _ _ _ hr => hr⟩
  rename_i hexact
  split
  · exact ⟨h, fun _ _ _ _ _ _ hr => hr⟩
  split
  · exact ⟨h, fun _ _ _ _ _ _ hr => hr⟩
  rename_i norm hnorm
  split
  · exact ⟨h, fun _ _ _ _ _ _ hr => hr⟩
  rename_i hbelow
  split
  · exact ⟨h, fun _ _ _ _ _ _ hr => hr⟩
  rename_i r hr
  split
  · exact ⟨h, fun _ _ _ _ _ _ hr => hr⟩
  split
  · exact ⟨h, fun _ _ _ _ _ _ hr => hr⟩
  obtain ⟨hsound, hrest⟩ := hk.rmdir s.disk r.ops r.fsCtx r.localPath h
  refine ⟨hsound, fun m hm seat hseat r' habove hdir => hrest r' hdir ?_⟩
  rintro ⟨hops, hctx, hkey⟩
  obtain ⟨hops', hctx', hkey'⟩ := habove
  -- the directory asked for lies at or above the mount's, so the guards know its spelling
  have hrec := hg r norm hr hnorm m hm seat hseat
    ⟨hops.symm.trans hops', hctx.symm.trans hctx', hkey.trans hkey'⟩
  rcases hrec with heq | hb
  · refine hexact ?_
    simp only [isExactMountPath, hnorm, List.any_eq_true, decide_eq_true_eq]
    exact ⟨m, hm, heq⟩
  · exact hbelow (List.any_eq_true.mpr ⟨m, hm, hb⟩)

end Disks

section Steps

theorem inv_disk (h : Inv b sound s) {d : Disk} (hd : sound d)
    (hkeep : ∀ m ∈ s.vfs.mounts, ∀ seat, s.seat m.mountPath = some seat → ∀ r,
      AtOrAbove key r seat.dir → IsDir b s.disk r → IsDir b d r) (e : Call Ctx) :
    Inv b sound { s with disk := d } ∧ StepKept b key s { s with disk := d } e := by
  refine ⟨⟨h.table, hd, ⟨h.kept.distinct, h.kept.clean, ?_⟩, h.starts⟩, fun _ _ => rfl, hkeep⟩
  intro m hm
  obtain ⟨seat, hseat⟩ := h.kept.seated m hm
  exact ⟨seat, hseat.known, hseat.host,
    hkeep m hm seat hseat.known seat.dir ⟨rfl, rfl, List.prefix_refl _⟩ hseat.dir⟩

theorem stepKept_refl (e : Call Ctx) : StepKept b key s s e :=
  ⟨fun _ _ => rfl, fun _ _ _ _ _ _ h => h⟩

theorem inv_mount (h : Inv b sound s) (mountPath fsName : Path) (fsCtx : Ctx)
    (hg : Guarded b key s (.mount mountPath fsName fsCtx)) :
    Inv b sound (s.mount b mountPath fsName fsCtx) ∧
      StepKept b key s (s.mount b mountPath fsName fsCtx) (.mount mountPath fsName fsCtx) := by
  cases hm : vfsMount s.vfs mountPath fsName fsCtx (b.getInfo s.disk) with
  | none =>
    have hsame : s.mount b mountPath fsName fsCtx = s := by simp only [System.mount, hm]
    rw [hsame]
    exact ⟨h, stepKept_refl _⟩
  | some v =>
    obtain ⟨norm, hnorm, hmounted⟩ := vfsMount_some hm
    have hs' : s.mount b mountPath fsName fsCtx = { s with
        vfs := v, seat := fun p => if p = norm then System.seatOf s.vfs norm else s.seat p } := by
      simp only [System.mount, hm, hnorm]
    obtain ⟨new, hnew, hmounts⟩ := hmounted.mounts
    obtain ⟨r, hr, hdir⟩ := hmounted.dir
    have hseatNew : System.seatOf s.vfs norm = some
        { host := (bestMount s.vfs norm).map (fun m => m.mountPath), dir := r } := by
      rw [System.seatOf, hr]
      rfl
    have hcases : ∀ m ∈ v.mounts, m ∈ s.vfs.mounts ∧ m.mountPath ≠ norm ∨ m = new := by
      intro m hmem
      rw [hmounts] at hmem
      rcases List.mem_append.mp hmem with hmem | hmem
      · exact Or.inl ⟨hmem, hmounted.fresh m hmem⟩
      · exact Or.inr (List.mem_singleton.mp hmem)
    have hold : ∀ m ∈ s.vfs.mounts, m ∈ v.mounts := by
      intro m hmem
      rw [hmounts]
      exact List.mem_append_left _ hmem
    have hhost : ∀ host, (bestMount s.vfs norm).map (fun m => m.mountPath) = some host →
        ∃ m ∈ s.vfs.mounts, m.mountPath = host ∧ pathStartsWithMount norm host = true := by
      intro host hb
      obtain ⟨m, hbest, rfl⟩ := Option.map_eq_some_iff.mp hb
      obtain ⟨hmem, hlong⟩ := bestMount_some hbest
      exact ⟨m, hmem, rfl, hlong.1⟩
    have htable := tableSound_mount h.table hm
    rw [hs']
    refine ⟨⟨htable, h.disk, ⟨htable.distinct, ?_, ?_⟩, ?_⟩, ?_, fun _ _ _ _ _ _ hd => hd⟩
    · intro m hmem
      rcases hcases m hmem with ⟨hmem, _⟩ | rfl
      · exact h.kept.clean m hmem
      · rw [hnew]
        exact hg norm r hnorm hr hdir
    · intro m hmem
      rcases hcases m hmem with ⟨hmem, hne⟩ | rfl
      · obtain ⟨seat, hseat⟩ := h.kept.seated m hmem
        refine ⟨seat, (if_neg hne).trans hseat.known, ?_, hseat.dir⟩
        intro host hh
        obtain ⟨m', hm', heq⟩ := hseat.host host hh
        exact ⟨m', hold m' hm', heq⟩
      · refine ⟨_, (if_pos hnew).trans hseatNew, ?_, hdir⟩
        intro host hh
        obtain ⟨m', hm', heq, _⟩ := hhost host hh
        exact ⟨m', hold m' hm', heq⟩
    · intro m hmem seat hseat host hh
      dsimp only at hseat
      rcases hcases m hmem with ⟨hmem, hne⟩ | rfl
      · rw [if_neg hne] at hseat
        exact h.starts m hmem seat hseat host hh
      · rw [if_pos hnew, hseatNew] at hseat
        obtain rfl := Option.some.inj hseat
        obtain ⟨m', hm', heq, hs⟩ := hhost host hh
        rw [hnew]
        exact hs
    · intro p hp
      exact hmounted.elsewhere (hp norm hnorm)

theorem inv_umount (h : Inv b sound s) (mountPath : Path) :
    Inv b sound (s.umount mountPath) ∧ StepKept b key s (s.umount mountPath) (.umount mountPath) := by
  cases hm : vfsUmount s.vfs mountPath with
  | none =>
    have hsame : s.umount mountPath = s := by simp only [System.umount, hm]
    rw [hsame]
    exact ⟨h, stepKept_refl _⟩
  | some v =>
    obtain ⟨norm, hnorm, hun⟩ := vfsUmount_some hm
    have hs' : s.umount mountPath = { s with vfs := v } := by simp only [System.umount, hm]
    have hmem : ∀ m, m ∈ v.mounts ↔ m ∈ s.vfs.mounts ∧ m.mountPath ≠ norm := by
      intro m
      rw [hun.mounts]
      exact mem_eraseP_path h.kept.distinct norm m
    have htable := tableSound_umount h.table hm
    rw [hs']
    refine ⟨⟨htable, h.disk, ⟨htable.distinct, ?_, ?_⟩, ?_⟩, ?_, fun _ _ _ _ _ _ hd => hd⟩
    · exact fun m hm' => h.kept.clean m ((hmem m).mp hm').1
    · intro m hm'
      obtain ⟨hmem', hne⟩ := (hmem m).mp hm'
      obtain ⟨seat, hseat⟩ := h.kept.seated m hmem'
      refine ⟨seat, hseat.known, ?_, hseat.dir⟩
      intro host hh
      obtain ⟨host', hhost', heq⟩ := hseat.host host hh
      refine ⟨host', (hmem host').mpr ⟨hhost', ?_⟩, heq⟩
      intro hgone
      have hstarts := h.starts m hmem' seat hseat.known host hh
      rw [← heq, hgone] at hstarts
      have hbelow := below_of_starts (h.table.paths m hmem').absolute hun.notRoot hstarts hne
      rw [hun.free m hm'] at hbelow
      cases hbelow
    · exact fun m hm' => h.starts m ((hmem m).mp hm').1
    · intro p hp
      exact hun.elsewhere (hp norm hnorm)

theorem inv_step [DecidableEq Ctx] [DecidableEq Ops] (hk : KeepsDirs b key sound) (h : Inv b sound s)
    (e : Call Ctx) (hg : Guarded b key s e) (hs : s.step b e = some s') :
    Inv b sound s' ∧ StepKept b key s s' e := by
  have hkeeps : ∀ {d : Disk}, Keeps b sound s.disk d →
      Inv b sound { s with disk := d } ∧ StepKept b key s { s with disk := d } e := fun hd =>
    inv_disk h hd.1 (fun _ _ _ _ r _ hr => hd.2 r hr) e
  cases e with
  | mount mountPath fsName fsCtx =>
    cases hs
    exact inv_mount h mountPath fsName fsCtx hg
  | umount mountPath =>
    cases hs
    exact inv_umount h mountPath
  | mkdir p =>
    cases hs
    exact hkeeps (vfsMkdir_keeps hk h.disk p)
  | createFile p =>
    cases hs
    exact hkeeps (vfsCreateFile_keeps hk h.disk p)
  | link old new =>
    cases hs
    exact hkeeps (vfsLink_keeps hk h.disk old new hg)
  | unlink p =>
    cases hs
    exact hkeeps (vfsUnlink_keeps hk h.disk p)
  | rmdir p =>
    cases hs
    obtain ⟨hd, hkeep⟩ := vfsRmdir_keeps hk h.disk p hg
    exact inv_disk h hd hkeep _

end Steps

structure FirstMount (sound : Disk → Prop) (s : System Disk Ctx Ops) : Prop where
  booted : Booted s.vfs
  disk : sound s.disk

section Memfs

def memfsBackend : Backend World Nat Unit where
  getInfo w _ f p := (w.lookupPath f p).map (fun i => (w.inode i).type)
  mkdir w _ f p := ((w.memfsCreateDir f p).1.isSome, (w.memfsCreateDir f p).2)
  createFile w _ f p := ((w.memfsCreateFile f p).1.isSome, (w.memfsCreateFile f p).2)
  link w _ f p q := (decide ((w.memfsLink f p q).1 = 0), (w.memfsLink f p q).2)
  unlink w _ f p := (decide ((w.memfsDeleteFile f p).1 = 0), (w.memfsDeleteFile f p).2)
  rmdir w _ f p := (decide ((w.memfsDeleteDir f p).1 = 0), (w.memfsDeleteDir f p).2)

def memfsTrees (n : Nat) : Backend World (Fin n) Unit where
  getInfo w o f p := if p.length < pathCap then memfsBackend.getInfo w o f p else none
  mkdir w o f p := if p.length < pathCap then memfsBackend.mkdir w o f p else (false, w)
  createFile w o f p := if p.length < pathCap then memfsBackend.createFile w o f p else (false, w)
  link w o f p q :=
    if p.length < pathCap ∧ q.length < pathCap then memfsBackend.link w o f p q else (false, w)
  unlink w o f p := if p.length < pathCap then memfsBackend.unlink w o f p else (false, w)
  rmdir w o f p := if p.length < pathCap then memfsBackend.rmdir w o f p else (false, w)

theorem isDir_memfsTrees {n : Nat} {w : World} {r : Resolved (Fin n) Unit} :
    IsDir (memfsTrees n) w r ↔
      r.localPath.length < pathCap ∧ LeadsToDir w r.fsCtx r.localPath := by
  simp only [IsDir, memfsTrees, memfsBackend, LeadsToDir]
  split
  · rename_i hshort
    exact ⟨fun h => ⟨hshort, h⟩, fun h => h.2⟩
  · rename_i hlong
    exact ⟨fun h => (by cases h), fun h => absurd h.1 hlong⟩

theorem grows_keeps {n : Nat} {w w' : World} (h : Planted n w) (g : Grows n w w') :
    Keeps (memfsTrees n) (Planted n) w w' := by
  refine ⟨g.planted, fun r hr => ?_⟩
  obtain ⟨hshort, hdir⟩ := isDir_memfsTrees.mp hr
  exact isDir_memfsTrees.mpr ⟨hshort, g.leads h r.fsCtx.isLt hdir⟩

theorem memfsTrees_keepsDirs (n : Nat) :
    KeepsDirs (memfsTrees n) (fun _ => components slash) (Planted n) where
  mkdir w o f p h := by
    simp only [memfsTrees]
    split
    · rename_i hshort
      exact grows_keeps h (h.createDir f.isLt hshort)
    · exact Keeps.refl w h
  createFile w o f p h := by
    simp only [memfsTrees]
    split
    · rename_i hshort
      exact grows_keeps h (h.createFile f.isLt hshort)
    · exact Keeps.refl w h
  link w o f p q h hfile := by
    simp only [memfsTrees] at hfile ⊢
    split
    · rename_i hshort
      rw [if_pos hshort.1] at hfile
      exact grows_keeps h (h.link f.isLt hshort.2 hfile)
    · exact Keeps.refl w h
  unlink w o f p h _ := by
    simp only [memfsTrees]
    split
    · obtain ⟨hplanted, hkeep⟩ := h.deleteFile f p
      refine ⟨hplanted, fun r hr => ?_⟩
      obtain ⟨hlen, hdir⟩ := isDir_memfsTrees.mp hr
      exact isDir_memfsTrees.mpr ⟨hlen, hkeep r.fsCtx r.fsCtx.isLt r.localPath hdir⟩
    · exact Keeps.refl w h
  rmdir w o f p h := by
    dsimp only [memfsTrees]
    split
    · obtain ⟨hplanted, hkeep⟩ := h.deleteDir f.isLt p
      refine ⟨hplanted, fun r hr hnot => ?_⟩
      obtain ⟨hlen, hdir⟩ := isDir_memfsTrees.mp hr
      refine isDir_memfsTrees.mpr ⟨hlen, hkeep r.fsCtx r.fsCtx.isLt r.localPath hdir ?_⟩
      rintro ⟨hctx, hkey⟩
      exact hnot ⟨rfl, Fin.ext hctx, hkey⟩
    · exact ⟨h, fun _ hr _ => hr⟩

private def twoMemfs : World := ((((blankWorld []).memfsCreate 4096).2).memfsCreate 4096).2

private theorem planted_twoMemfs : Planted 2 twoMemfs := by
  obtain ⟨h, hn⟩ := (planted_blank []).memfsCreate rfl 4096
  exact (h.memfsCreate hn 4096).1

private def firstTable {Ctx : Type} (root : Ctx) : VfsT Ctx Unit :=
  { rootFs := some root, rootOps := some (), rootSource := [109],
    fsDrivers := [{ name := [109], ops := () }], mounts := [] }

private def treesStart : System World (Fin 2) Unit :=
  { vfs := firstTable 0, disk := twoMemfs, seat := fun _ => none }

private def guardedCalls : List (Call (Fin 2)) :=
  [.mkdir [47, 109], .mount [47, 109, 47] [109] 1, .rmdir [47, 109], .rmdir [47, 109, 47]]

private def memfsStart : System World Nat Unit :=
  { vfs := firstTable 0, disk := twoMemfs, seat := fun _ => none }

private def mountThenRmdir : List (Call Nat) :=
  [.mkdir [47, 109], .mount [47, 109] [109] 1, .rmdir [47, 47, 109]]

private def mountRepeated : List (Call Nat) :=
  [.mkdir [47, 109], .mount [47, 47, 109] [109] 1]

end Memfs

end Guard

end HouseOS.Vfs
