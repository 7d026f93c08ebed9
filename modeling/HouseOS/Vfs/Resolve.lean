import HouseOS.Vfs.Table

namespace HouseOS.Vfs

open HouseOS.Components

variable {Ctx Ops : Type}

theorem starts_spec {path mount : Path} (hpath : path.head? = some slash)
    (h : pathStartsWithMount path mount = true) :
    mount <+: path ∧ (mount = [slash] ∨ AtBoundary slash (path.drop mount.length)) := by
  simp only [pathStartsWithMount] at h
  split at h
  · cases h
  split at h
  · rename_i heq
    subst heq
    cases path with
    | nil => simp at hpath
    | cons c path =>
      obtain rfl : c = slash := by simpa using hpath
      exact ⟨⟨path, rfl⟩, Or.inl rfl⟩
  split at h
  · cases h
  · rename_i hpre
    refine ⟨by simpa using hpre, Or.inr ?_⟩
    intro c hc
    rw [List.head?_drop] at hc
    simpa [hc] using h

theorem pathComponents_slash : pathComponents [slash] = [] := by
  simp [pathComponents]

theorem starts_components {path mount : Path} (hpath : path.head? = some slash)
    (h : pathStartsWithMount path mount = true) :
    pathComponents mount <+: pathComponents path := by
  obtain ⟨hpre, rfl | hb⟩ := starts_spec hpath h
  · rw [pathComponents_slash]
    exact List.nil_prefix
  · exact components_prefix_of_prefix slash hpre hb

theorem starts_depth_le {path m m' : Path} (hpath : path.head? = some slash)
    (h : pathStartsWithMount path m = true) (h' : pathStartsWithMount path m' = true)
    (hlen : m.length ≤ m'.length) :
    (pathComponents m).length ≤ (pathComponents m').length := by
  obtain ⟨hpre, rfl | hb⟩ := starts_spec hpath h
  · rw [pathComponents_slash]
    exact Nat.zero_le _
  · exact prefix_depth_le slash hpre hb (starts_spec hpath h').1 hlen

theorem makeLocalPath_components {path mount : Path} (hpath : path.head? = some slash)
    (hlen : path.length < pathCap) (h : pathStartsWithMount path mount = true) :
    (makeLocalPath path mount pathCap).head? = some slash ∧
      pathComponents (makeLocalPath path mount pathCap) =
        (pathComponents path).drop (pathComponents mount).length := by
  by_cases hroot : mount = [slash]
  · subst hroot
    simp only [makeLocalPath, if_true, take_short hlen, pathComponents_slash]
    exact ⟨hpath, rfl⟩
  · obtain ⟨hpre, heq | hb⟩ := starts_spec hpath h
    · exact absurd heq hroot
    have hcomp := components_drop_of_prefix slash hpre hb
    have hdrop : (path.drop mount.length).length < pathCap := by
      rw [List.length_drop]
      omega
    simp only [makeLocalPath, if_neg hroot]
    cases hsuf : path.drop mount.length with
    | nil =>
      rw [hsuf, components_nil] at hcomp
      exact ⟨rfl, by rw [pathComponents_slash]; exact hcomp⟩
    | cons c rest =>
      rw [hsuf] at hcomp hdrop hb
      show (List.take (pathCap - 1) (c :: rest)).head? = some slash ∧
        pathComponents (List.take (pathCap - 1) (c :: rest)) = _
      rw [take_short hdrop]
      exact ⟨congrArg some (hb c rfl), hcomp⟩

section Scan

variable {path : Path}

def LongestSpelled (ms : List (Mount Ctx Ops)) (path : Path) (m : Mount Ctx Ops) : Prop :=
  pathStartsWithMount path m.mountPath = true ∧
    ∀ m' ∈ ms, pathStartsWithMount path m'.mountPath = true →
      m'.mountPath.length ≤ m.mountPath.length

theorem scanMounts_none (ms : List (Mount Ctx Ops)) :
    ∀ (best : Option (Mount Ctx Ops)) (bestLen : Nat),
      (∀ b, best = some b → b.mountPath.length = bestLen) →
      scanMounts path ms best bestLen = none →
      best = none ∧ ∀ m ∈ ms, pathStartsWithMount path m.mountPath = true →
        m.mountPath.length ≤ bestLen := by
  induction ms with
  | nil => exact fun best bestLen _ h => ⟨h, by simp⟩
  | cons m ms ih =>
    intro best bestLen hbest h
    simp only [scanMounts] at h
    split at h
    · have := (ih (some m) _ (by rintro b ⟨⟩; rfl) h).1
      cases this
    · rename_i hskip
      obtain ⟨hnone, hrest⟩ := ih best bestLen hbest h
      refine ⟨hnone, ?_⟩
      intro m' hm' hs
      rcases List.mem_cons.mp hm' with rfl | hm'
      · by_contra hlt
        exact hskip ⟨hs, by omega⟩
      · exact hrest m' hm' hs

theorem scanMounts_some (ms : List (Mount Ctx Ops)) :
    ∀ (best : Option (Mount Ctx Ops)) (bestLen : Nat) (r : Mount Ctx Ops),
      (∀ b, best = some b → b.mountPath.length = bestLen) →
      scanMounts path ms best bestLen = some r →
      (best = some r ∨ r ∈ ms ∧ pathStartsWithMount path r.mountPath = true) ∧
        bestLen ≤ r.mountPath.length ∧
        ∀ m ∈ ms, pathStartsWithMount path m.mountPath = true →
          m.mountPath.length ≤ r.mountPath.length := by
  induction ms with
  | nil =>
    intro best bestLen r hbest h
    exact ⟨Or.inl h, Nat.le_of_eq (hbest r h).symm, by simp⟩
  | cons m ms ih =>
    intro best bestLen r hbest h
    simp only [scanMounts] at h
    split at h
    · rename_i htake
      obtain ⟨hfrom, hle, hmax⟩ := ih (some m) _ r (by rintro b ⟨⟩; rfl) h
      refine ⟨Or.inr ?_, by omega, ?_⟩
      · rcases hfrom with heq | ⟨hr, hs⟩
        · cases heq
          exact ⟨List.mem_cons_self, htake.1⟩
        · exact ⟨List.mem_cons_of_mem m hr, hs⟩
      · intro m' hm' hs
        rcases List.mem_cons.mp hm' with rfl | hm'
        · exact hle
        · exact hmax m' hm' hs
    · rename_i hskip
      obtain ⟨hfrom, hle, hmax⟩ := ih best bestLen r hbest h
      refine ⟨?_, hle, ?_⟩
      · rcases hfrom with heq | ⟨hr, hs⟩
        · exact Or.inl heq
        · exact Or.inr ⟨List.mem_cons_of_mem m hr, hs⟩
      · intro m' hm' hs
        rcases List.mem_cons.mp hm' with rfl | hm'
        · by_contra hlt
          exact hskip ⟨hs, by omega⟩
        · exact hmax m' hm' hs

theorem bestMount_none {v : VfsT Ctx Ops} (hsound : TableSound v) (h : bestMount v path = none) :
    ∀ m ∈ v.mounts, pathStartsWithMount path m.mountPath = false := by
  intro m hm
  have hle := (scanMounts_none v.mounts none 0 (by simp) h).2 m hm
  have hne := List.length_pos_iff.mpr (hsound.paths m hm).ne_nil
  by_contra hs
  have := hle (by simpa using hs)
  omega

theorem bestMount_some {v : VfsT Ctx Ops} {m : Mount Ctx Ops} (h : bestMount v path = some m) :
    m ∈ v.mounts ∧ LongestSpelled v.mounts path m := by
  obtain ⟨hfrom, _, hmax⟩ := scanMounts_some v.mounts none 0 m (by simp) h
  rcases hfrom with heq | ⟨hm, hs⟩
  · cases heq
  · exact ⟨hm, hs, hmax⟩

theorem eq_of_mountPath_eq {ms : List (Mount Ctx Ops)}
    (hnd : (ms.map (fun m => m.mountPath)).Nodup) {m m' : Mount Ctx Ops} (hm : m ∈ ms)
    (hm' : m' ∈ ms) (h : m.mountPath = m'.mountPath) : m = m' :=
  List.inj_on_of_nodup_map hnd hm hm' h

theorem longestSpelled_unique {v : VfsT Ctx Ops} (hsound : TableSound v)
    (hpath : path.head? = some slash) {m m' : Mount Ctx Ops} (hm : m ∈ v.mounts)
    (hm' : m' ∈ v.mounts) (h : LongestSpelled v.mounts path m)
    (h' : LongestSpelled v.mounts path m') : m = m' := by
  refine eq_of_mountPath_eq hsound.distinct hm hm' ?_
  have hpre := (starts_spec hpath h.1).1
  have hpre' := (starts_spec hpath h'.1).1
  have hle := h.2 m' hm' h'.1
  have hle' := h'.2 m hm h.1
  exact (List.prefix_of_prefix_length_le hpre hpre' hle').eq_of_length (by omega)

end Scan

end HouseOS.Vfs
