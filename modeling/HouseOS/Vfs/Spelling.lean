import Mathlib.Data.List.MinMax
import HouseOS.Vfs.Resolve

namespace HouseOS.Vfs

open HouseOS.Components

variable {Ctx Ops : Type}

structure Requested (p : Path) : Prop where
  absolute : p.head? = some slash
  short : p.length < pathCap

def Covers (m : Mount Ctx Ops) (p : Path) : Prop :=
  pathComponents m.mountPath <+: pathComponents p

def Deepest (ms : List (Mount Ctx Ops)) (p : Path) (m : Mount Ctx Ops) : Prop :=
  Covers m p ∧ ∀ m' ∈ ms, Covers m' p →
    (pathComponents m'.mountPath).length ≤ (pathComponents m.mountPath).length

instance (m : Mount Ctx Ops) (p : Path) : Decidable (Covers m p) :=
  inferInstanceAs (Decidable (_ <+: _))

instance (ms : List (Mount Ctx Ops)) (p : Path) (m : Mount Ctx Ops) :
    Decidable (Deepest ms p m) :=
  inferInstanceAs (Decidable (_ ∧ ∀ m' ∈ ms, _ → _ ≤ _))

instance (ms : List (Mount Ctx Ops)) (p : Path) (m : Mount Ctx Ops) :
    Decidable (LongestSpelled ms p m) :=
  inferInstanceAs (Decidable (_ ∧ ∀ m' ∈ ms, _ → _ ≤ _))

structure HandsRest (m : Mount Ctx Ops) (p : Path) (r : Resolved Ctx Ops) : Prop where
  fsCtx : r.fsCtx = m.fsCtx
  ops : r.ops = m.ops
  absolute : r.localPath.head? = some slash
  rest : pathComponents r.localPath =
    (pathComponents p).drop (pathComponents m.mountPath).length

def SelectsDeepest (v : VfsT Ctx Ops) (p : Path) : Prop :=
  ∃ r, vfsResolve v p = some r ∧
    match bestMount v p with
    | some m => m ∈ v.mounts ∧ Deepest v.mounts p m ∧ HandsRest m p r
    | none => (∀ m ∈ v.mounts, ¬ Covers m p) ∧
        some r.fsCtx = v.rootFs ∧ some r.ops = v.rootOps ∧ r.localPath = p

def SameFile (v : VfsT Ctx Ops) (p q : Path) : Prop :=
  ∃ r s, vfsResolve v p = some r ∧ vfsResolve v q = some s ∧
    r.fsCtx = s.fsCtx ∧ r.ops = s.ops ∧ pathComponents r.localPath = pathComponents s.localPath

structure ResolvesByComponents (v : VfsT Ctx Ops) (p q : Path) : Prop where
  left : SelectsDeepest v p
  right : SelectsDeepest v q
  same : SameFile v p q

def BeginsAsMounted (v : VfsT Ctx Ops) (p : Path) : Prop :=
  ∀ m ∈ v.mounts, Deepest v.mounts p m →
    ∃ m' ∈ v.mounts, Deepest v.mounts p m' ∧ pathStartsWithMount p m'.mountPath = true

def SpelledAlike (v : VfsT Ctx Ops) (p q : Path) : Prop :=
  ∀ m ∈ v.mounts, ∀ m' ∈ v.mounts, LongestSpelled v.mounts p m → LongestSpelled v.mounts q m' →
    m.fsCtx = m'.fsCtx ∧ m.ops = m'.ops

instance (v : VfsT Ctx Ops) (p : Path) : Decidable (BeginsAsMounted v p) :=
  inferInstanceAs (Decidable (∀ m ∈ v.mounts, _ → ∃ m' ∈ v.mounts, _ ∧ _ = true))

instance [DecidableEq Ctx] [DecidableEq Ops] (v : VfsT Ctx Ops) (p q : Path) :
    Decidable (SpelledAlike v p q) :=
  inferInstanceAs (Decidable (∀ m ∈ v.mounts, ∀ m' ∈ v.mounts, _ → _ → _ ∧ _))

theorem exists_deepest {ms : List (Mount Ctx Ops)} {p : Path} {m : Mount Ctx Ops} (hm : m ∈ ms)
    (hc : Covers m p) : ∃ d ∈ ms, Deepest ms p d := by
  let depth := fun m : Mount Ctx Ops => (pathComponents m.mountPath).length
  cases hd : (ms.filter (fun m => decide (Covers m p))).argmax depth with
  | none =>
    have hmem : m ∈ ms.filter (fun m => decide (Covers m p)) :=
      List.mem_filter.mpr ⟨hm, decide_eq_true hc⟩
    rw [List.argmax_eq_none.mp hd] at hmem
    cases hmem
  | some d =>
    obtain ⟨hdm, hdc⟩ := List.mem_filter.mp (List.argmax_mem hd)
    refine ⟨d, hdm, of_decide_eq_true hdc, ?_⟩
    intro m' hm' hc'
    have hle : depth m' ≤ depth d :=
      List.le_of_mem_argmax (List.mem_filter.mpr ⟨hm', decide_eq_true hc'⟩) hd
    exact hle

section Select

variable {v : VfsT Ctx Ops} {p q : Path}

theorem resolve_best (hsound : TableSound v) (hp : Requested p) {m : Mount Ctx Ops}
    (hb : bestMount v p = some m) :
    ∃ r, vfsResolve v p = some r ∧ HandsRest m p r := by
  obtain ⟨rootFs, hfs⟩ := Option.isSome_iff_exists.mp hsound.rootFs
  obtain ⟨rootOps, hops⟩ := Option.isSome_iff_exists.mp hsound.rootOps
  have hlocal := makeLocalPath_components hp.absolute hp.short (bestMount_some hb).2.1
  refine ⟨⟨m.fsCtx, m.ops, makeLocalPath p m.mountPath pathCap⟩, ?_, rfl, rfl, hlocal.1, hlocal.2⟩
  simp [vfsResolve, isValidAbsPath, hp.absolute, hfs, hops, hb]

theorem resolve_root (hsound : TableSound v) (hp : Requested p) (hb : bestMount v p = none) :
    ∃ r, vfsResolve v p = some r ∧ some r.fsCtx = v.rootFs ∧ some r.ops = v.rootOps ∧
      r.localPath = p := by
  obtain ⟨rootFs, hfs⟩ := Option.isSome_iff_exists.mp hsound.rootFs
  obtain ⟨rootOps, hops⟩ := Option.isSome_iff_exists.mp hsound.rootOps
  refine ⟨⟨rootFs, rootOps, p⟩, ?_, hfs.symm, hops.symm, rfl⟩
  simp [vfsResolve, isValidAbsPath, hp.absolute, hfs, hops, hb, take_short hp.short]

theorem selects_of_begins (hsound : TableSound v) (hp : Requested p)
    (h : BeginsAsMounted v p) : SelectsDeepest v p := by
  cases hb : bestMount v p with
  | none =>
    obtain ⟨r, hr, hroot⟩ := resolve_root hsound hp hb
    refine ⟨r, hr, ?_⟩
    rw [hb]
    refine ⟨?_, hroot⟩
    intro m hm hc
    obtain ⟨d, hd, hdeep⟩ := exists_deepest hm hc
    obtain ⟨m', hm', _, hs⟩ := h d hd hdeep
    rw [bestMount_none hsound hb m' hm'] at hs
    cases hs
  | some m =>
    obtain ⟨r, hr, hrest⟩ := resolve_best hsound hp hb
    obtain ⟨hm, hs, hlong⟩ := bestMount_some hb
    have hc : Covers m p := starts_components hp.absolute hs
    refine ⟨r, hr, ?_⟩
    rw [hb]
    refine ⟨hm, ⟨hc, ?_⟩, hrest⟩
    obtain ⟨d, hd, hdeep⟩ := exists_deepest hm hc
    obtain ⟨m', hm', hdeep', hs'⟩ := h d hd hdeep
    have hdepth := starts_depth_le hp.absolute hs' hs (hlong m' hm' hs')
    intro e he hce
    exact Nat.le_trans (hdeep'.2 e he hce) hdepth

theorem begins_of_selects (h : SelectsDeepest v p) : BeginsAsMounted v p := by
  obtain ⟨r, _, hsel⟩ := h
  intro d hd hdeep
  cases hb : bestMount v p with
  | none =>
    rw [hb] at hsel
    exact absurd hdeep.1 (hsel.1 d hd)
  | some m =>
    rw [hb] at hsel
    exact ⟨m, hsel.1, hsel.2.1, (bestMount_some hb).2.1⟩

theorem covers_congr (hpq : pathComponents p = pathComponents q) (m : Mount Ctx Ops) :
    Covers m p ↔ Covers m q := by
  rw [Covers, Covers, hpq]

theorem depth_eq_of_deepest (hpq : pathComponents p = pathComponents q) {m m' : Mount Ctx Ops}
    (hm : m ∈ v.mounts) (hm' : m' ∈ v.mounts) (hd : Deepest v.mounts p m)
    (hd' : Deepest v.mounts q m') :
    (pathComponents m.mountPath).length = (pathComponents m'.mountPath).length := by
  have h := hd.2 m' hm' ((covers_congr hpq m').mpr hd'.1)
  have h' := hd'.2 m hm ((covers_congr hpq m).mp hd.1)
  omega

theorem best_both_or_neither (hpq : pathComponents p = pathComponents q)
    (hp : SelectsDeepest v p) (hq : SelectsDeepest v q) :
    (bestMount v p = none ∧ bestMount v q = none) ∨
      ∃ m m', bestMount v p = some m ∧ bestMount v q = some m' ∧
        Deepest v.mounts p m ∧ Deepest v.mounts q m' := by
  obtain ⟨_, _, hselp⟩ := hp
  obtain ⟨_, _, hselq⟩ := hq
  cases hbp : bestMount v p with
  | none =>
    rw [hbp] at hselp
    cases hbq : bestMount v q with
    | none => exact Or.inl ⟨rfl, rfl⟩
    | some m' =>
      rw [hbq] at hselq
      exact absurd ((covers_congr hpq m').mpr hselq.2.1.1) (hselp.1 m' hselq.1)
  | some m =>
    rw [hbp] at hselp
    cases hbq : bestMount v q with
    | none =>
      rw [hbq] at hselq
      exact absurd ((covers_congr hpq m).mp hselp.2.1.1) (hselq.1 m hselp.1)
    | some m' =>
      rw [hbq] at hselq
      exact Or.inr ⟨m, m', rfl, rfl, hselp.2.1, hselq.2.1⟩

theorem sameFile_iff (hsound : TableSound v) (hp : Requested p) (hq : Requested q)
    (hpq : pathComponents p = pathComponents q) (hsp : SelectsDeepest v p)
    (hsq : SelectsDeepest v q) : SameFile v p q ↔ SpelledAlike v p q := by
  rcases best_both_or_neither hpq hsp hsq with ⟨hbp, hbq⟩ | ⟨m, m', hbp, hbq, hdp, hdq⟩
  · obtain ⟨r, hr, hrfs, hrops, hrlocal⟩ := resolve_root hsound hp hbp
    obtain ⟨s, hs, hsfs, hsops, hslocal⟩ := resolve_root hsound hq hbq
    refine iff_of_true ⟨r, s, hr, hs, ?_, ?_, ?_⟩ ?_
    · exact Option.some.inj (hrfs.trans hsfs.symm)
    · exact Option.some.inj (hrops.trans hsops.symm)
    · rw [hrlocal, hslocal, hpq]
    · intro m hm _ _ hl _
      have hnone := bestMount_none hsound hbp m hm
      rw [hl.1] at hnone
      cases hnone
  · obtain ⟨r, hr, hrest⟩ := resolve_best hsound hp hbp
    obtain ⟨s, hs, hsrest⟩ := resolve_best hsound hq hbq
    obtain ⟨hm, hlong⟩ := bestMount_some hbp
    obtain ⟨hm', hlong'⟩ := bestMount_some hbq
    have hdepth := depth_eq_of_deepest hpq hm hm' hdp hdq
    constructor
    · rintro ⟨r', s', hr', hs', hfs, hops, _⟩ n hn n' hn' hl hl'
      rw [hr] at hr'
      rw [hs] at hs'
      cases hr'
      cases hs'
      obtain rfl := longestSpelled_unique hsound hp.absolute hm hn hlong hl
      obtain rfl := longestSpelled_unique hsound hq.absolute hm' hn' hlong' hl'
      exact ⟨by rw [← hrest.fsCtx, hfs, hsrest.fsCtx], by rw [← hrest.ops, hops, hsrest.ops]⟩
    · intro h
      obtain ⟨hfs, hops⟩ := h m hm m' hm' hlong hlong'
      refine ⟨r, s, hr, hs, ?_, ?_, ?_⟩
      · rw [hrest.fsCtx, hfs, hsrest.fsCtx]
      · rw [hrest.ops, hops, hsrest.ops]
      · rw [hrest.rest, hsrest.rest, hpq, hdepth]

end Select

theorem resolves_by_components_iff {v₀ v : VfsT Ctx Ops} (h₀ : Booted v₀)
    (es : List (Event Ctx Ops)) (hrun : Run.run step v₀ es = some v) {p q : Path}
    (hp : Requested p) (hq : Requested q) (hpq : pathComponents p = pathComponents q) :
    ResolvesByComponents v p q ↔
      BeginsAsMounted v p ∧ BeginsAsMounted v q ∧ SpelledAlike v p q := by
  have hsound := tableSound_run h₀ hrun
  constructor
  · rintro ⟨hl, hr, hsame⟩
    exact ⟨begins_of_selects hl, begins_of_selects hr,
      (sameFile_iff hsound hp hq hpq hl hr).mp hsame⟩
  · rintro ⟨hl, hr, halike⟩
    have hsl := selects_of_begins hsound hp hl
    have hsr := selects_of_begins hsound hq hr
    exact ⟨hsl, hsr, (sameFile_iff hsound hp hq hpq hsl hsr).mpr halike⟩

private def bootTable : VfsT Nat Nat :=
  { rootFs := some 1, rootOps := some 10, rootSource := [109],
    fsDrivers := [{ name := [109], ops := 10 }, { name := [102], ops := 20 }], mounts := [] }

private def mountMnt : Event Nat Nat := .mount [47, 109] [102] 2 (fun _ _ _ => some .dir)

theorem resolves_by_components_iff_mnt :
    ∃ v, Run.run step bootTable [mountMnt] = some v ∧
      ResolvesByComponents v [47, 109, 47, 97] [47, 109, 47, 47, 97, 47] :=
  ⟨_, rfl, (resolves_by_components_iff ⟨rfl, rfl, rfl⟩ [mountMnt] rfl ⟨rfl, by decide⟩
    ⟨rfl, by decide⟩ (by decide)).mpr ⟨by decide, by decide, by decide⟩⟩

theorem repeated_slash_misses_mount :
    ∃ v, Run.run step bootTable [mountMnt] = some v ∧ Booted bootTable ∧
      Requested [47, 109, 47, 97] ∧ Requested [47, 47, 109, 47, 97] ∧
      pathComponents [47, 109, 47, 97] = pathComponents [47, 47, 109, 47, 97] ∧
      ¬ ResolvesByComponents v [47, 109, 47, 97] [47, 47, 109, 47, 97] := by
  refine ⟨_, rfl, ⟨rfl, rfl, rfl⟩, ⟨rfl, by decide⟩, ⟨rfl, by decide⟩, by decide, ?_⟩
  intro h
  have hbegins := begins_of_selects h.right
  revert hbegins
  decide

end HouseOS.Vfs
