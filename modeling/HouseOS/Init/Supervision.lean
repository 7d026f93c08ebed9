import HouseOS.Init.Model
import HouseOS.Library.Run

namespace HouseOS.Init

open HouseOS.Words (byteText)

def IsGui (daemons : List DaemonSlot) (i : Nat) : Prop :=
  ∃ d, daemons[i]? = some d ∧ isGuiStackProg d.prog = true

def IsGuiOnTty2 (daemons : List DaemonSlot) (i : Nat) : Prop :=
  ∃ d, daemons[i]? = some d ∧ isGuiStackProg d.prog = true ∧ d.tty = tty2

-- how often in a row the daemon has been found dead
def deadRun (i : Nat) : List Note → Nat :=
  List.foldl (fun n note =>
    match note with
    | .found j dead => if j = i then (if dead then n + 1 else 0) else n
    | _ => n) 0

def Tried (daemons : List DaemonSlot) (log : List Note) : Prop :=
  ∀ i, IsGuiOnTty2 daemons i → 8 ≤ deadRun i log → .attempted ∈ log

def Retired (daemons : List DaemonSlot) (log : List Note) : Prop :=
  ∀ i before after, IsGui daemons i → log = before ++ .spawned i :: after → .started ∉ before

def Supervised (daemons : List DaemonSlot) (log : List Note) : Prop :=
  Tried daemons log ∧ Retired daemons log

def Refused (v : Visit) (d : DaemonSlot) : Prop :=
  (needsVesa d.prog = true ∧ v.vesaFd < 0) ∨ (if d.cmdline ≠ [] then v.spawnv else v.spawn) < 0

def FoundDead (v : Visit) (d : DaemonSlot) : Prop :=
  0 ≤ d.pid ∧ (v.taskState = taskTerminated ∨ v.taskState < 0)

def Spared (m : Supervisor) (v : Visit) : Prop :=
  match m.pc with
  | .bootDaemons i => ∀ d, m.sys.daemons[i]? = some d → isGuiStackProg d.prog = true →
      m.sys.guiFallbackStarted = true → Refused v d
  | .daemons i => ∀ d, m.sys.daemons[i]? = some d → isGuiStackProg d.prog = true → d.tty = tty2 →
      FoundDead v d → 7 ≤ deadRun i m.log → .attempted ∉ m.log → Refused v d
  | _ => True

section Log

variable {daemons : List DaemonSlot} {log rest : List Note} {i j : Nat}

def NoFound (notes : List Note) : Prop := ∀ n ∈ notes, ∀ j dead, n ≠ .found j dead

theorem deadRun_append (log rest : List Note) (hrest : NoFound rest) :
    deadRun i (log ++ rest) = deadRun i log := by
  rw [deadRun, List.foldl_append]
  generalize List.foldl _ 0 log = n
  induction rest with
  | nil => rfl
  | cons note rest ih =>
    have hnote : ∀ j dead, note ≠ .found j dead := hrest note (List.mem_cons_self ..)
    rw [List.foldl_cons]
    cases note with
    | found j dead => exact absurd rfl (hnote j dead)
    | spawned j | attempted | started => exact ih fun n hn => hrest n (List.mem_cons_of_mem _ hn)

theorem deadRun_found (dead : Bool) :
    deadRun i (log ++ [.found j dead]) =
      if j = i then (if dead then deadRun i log + 1 else 0) else deadRun i log := by
  simp [deadRun, List.foldl_append]

theorem Tried.append (h : Tried daemons log) (hrest : NoFound rest) : Tried daemons (log ++ rest) := by
  intro i hi hrun
  rw [deadRun_append log rest hrest] at hrun
  exact List.mem_append_left _ (h i hi hrun)

theorem Tried.alive (h : Tried daemons log) : Tried daemons (log ++ [.found j false]) := by
  intro i hi hrun
  rw [deadRun_found] at hrun
  refine List.mem_append_left _ (h i hi ?_)
  split at hrun
  · simp at hrun
  · exact hrun

theorem Tried.dead_iff (h : Tried daemons log) (hrest : NoFound rest) :
    Tried daemons (log ++ .found j true :: rest) ↔
      (IsGuiOnTty2 daemons j → 7 ≤ deadRun j log → .attempted ∈ log ++ rest) := by
  have hlog : log ++ .found j true :: rest = log ++ [.found j true] ++ rest := by simp
  have hrun : ∀ i, deadRun i (log ++ .found j true :: rest) =
      if j = i then deadRun i log + 1 else deadRun i log := by
    intro i
    rw [hlog, deadRun_append _ _ hrest, deadRun_found, if_pos rfl]
  have hmem : (Note.attempted ∈ log ++ .found j true :: rest) ↔ .attempted ∈ log ++ rest := by simp
  constructor
  · intro ht hj h7
    refine hmem.mp (ht j hj ?_)
    rw [hrun, if_pos rfl]
    omega
  · intro ht i hi h8
    rw [hrun] at h8
    rw [hmem]
    split at h8
    · rename_i heq
      subst heq
      exact ht hi (by omega)
    · exact List.mem_append_left _ (h i hi h8)

theorem retired_snoc {n : Note} : Retired daemons (log ++ [n]) ↔
    Retired daemons log ∧ ∀ i, n = .spawned i → IsGui daemons i → .started ∉ log := by
  constructor
  · intro h
    refine ⟨fun i before after hi hlog => h i before (after ++ [n]) hi ?_, ?_⟩
    · rw [hlog, List.append_assoc, List.cons_append]
    · rintro i rfl hi
      exact h i log [] hi rfl
  · rintro ⟨h, hn⟩ i before after hi hlog
    rcases List.eq_nil_or_concat after with rfl | ⟨after', a, rfl⟩
    · obtain ⟨rfl, hlast⟩ := List.append_inj' hlog rfl
      cases hlast
      exact hn i rfl hi
    · rw [List.concat_eq_append, ← List.cons_append, ← List.append_assoc] at hlog
      obtain ⟨hlog, -⟩ := List.append_inj' hlog rfl
      exact h i before after' hi hlog

theorem Retired.append (h : Retired daemons log) (hrest : ∀ n ∈ rest, ∀ i, n ≠ .spawned i) :
    Retired daemons (log ++ rest) := by
  induction rest generalizing log with
  | nil => rwa [List.append_nil]
  | cons n rest ih =>
    have hlog : log ++ n :: rest = log ++ [n] ++ rest := by simp
    rw [hlog]
    refine ih (retired_snoc.mpr ⟨h, ?_⟩) fun m hm => hrest m (List.mem_cons_of_mem _ hm)
    intro i hn
    exact absurd hn (hrest n (List.mem_cons_self ..) i)

end Log

section Slots

variable {daemons : List DaemonSlot} {k : Sys} {v : Visit} {d d' : DaemonSlot} {i : Nat}

def DaemonSlot.key (d : DaemonSlot) : Text × Text := (d.prog, d.tty)

theorem spawnDaemon_cases (v : Visit) (d : DaemonSlot) :
    (Refused v d ∧ ∃ rc, (rc = -1 ∨ rc = -2) ∧ spawnDaemon v d = (rc, d)) ∨
      (¬Refused v d ∧ ∃ pid, spawnDaemon v d = (0, { d with pid := pid })) := by
  by_cases hvesa : needsVesa d.prog = true ∧ v.vesaFd < 0
  · exact Or.inl ⟨Or.inl hvesa, -2, Or.inr rfl, by rw [spawnDaemon, if_pos hvesa]⟩
  · by_cases hpid : (if d.cmdline ≠ [] then v.spawnv else v.spawn) < 0
    · exact Or.inl ⟨Or.inr hpid, -1, Or.inl rfl, by simp only [spawnDaemon, if_neg hvesa, if_pos hpid]⟩
    · refine Or.inr ⟨fun h => h.elim hvesa hpid, if d.cmdline ≠ [] then v.spawnv else v.spawn, ?_⟩
      simp only [spawnDaemon, if_neg hvesa, if_neg hpid]

structure Watched (daemons : List DaemonSlot) (k : Sys) (log : List Note) : Prop where
  same : k.daemons.map DaemonSlot.key = daemons.map DaemonSlot.key
  flag : k.guiFallbackStarted = true ↔ .started ∈ log
  tried : .started ∈ log → .attempted ∈ log
  off : .started ∈ log → ∀ (i : Nat) (d : DaemonSlot), k.daemons[i]? = some d →
    isGuiStackProg d.prog = true → d.pid = -2

-- no death has been counted while the fallback was not tried
def Fresh (k : Sys) (log : List Note) : Prop :=
  .attempted ∉ log → ∀ (i : Nat) (d : DaemonSlot), k.daemons[i]? = some d → isGuiStackProg d.prog = true →
    d.tty = tty2 → d.restarts = 0

theorem Watched.key_eq {log : List Note} (h : Watched daemons k log) (hd : k.daemons[i]? = some d) :
    ∃ c, daemons[i]? = some c ∧ c.prog = d.prog ∧ c.tty = d.tty := by
  have hget := congrArg (fun l => l[i]?) h.same
  simp only [List.getElem?_map, hd, Option.map_some] at hget
  obtain ⟨c, hc, hkey⟩ := Option.map_eq_some_iff.mp hget.symm
  rw [DaemonSlot.key, DaemonSlot.key, Prod.mk.injEq] at hkey
  exact ⟨c, hc, hkey.1, hkey.2⟩

theorem Watched.isGui_iff {log : List Note} (h : Watched daemons k log)
    (hd : k.daemons[i]? = some d) : IsGui daemons i ↔ isGuiStackProg d.prog = true := by
  obtain ⟨c, hc, hprog, -⟩ := h.key_eq hd
  simp [IsGui, hc, hprog]

theorem Watched.isGuiOnTty2_iff {log : List Note} (h : Watched daemons k log)
    (hd : k.daemons[i]? = some d) :
    IsGuiOnTty2 daemons i ↔ isGuiStackProg d.prog = true ∧ d.tty = tty2 := by
  obtain ⟨c, hc, hprog, htty⟩ := h.key_eq hd
  simp [IsGuiOnTty2, hc, hprog, htty]

theorem Watched.note {log notes : List Note} (h : Watched daemons k log)
    (hnotes : .started ∉ notes) : Watched daemons k (log ++ notes) where
  same := h.same
  flag := by simp [h.flag, hnotes]
  tried hs := List.mem_append_left _ (h.tried (by simpa [hnotes] using hs))
  off hs := h.off (by simpa [hnotes] using hs)

theorem Watched.setDaemon {log : List Note} (h : Watched daemons k log) (d' : DaemonSlot)
    (hd : k.daemons[i]? = some d) (hkey : d'.key = d.key)
    (hoff : .started ∈ log → isGuiStackProg d'.prog = true → d'.pid = -2) :
    Watched daemons (k.setDaemon i d') log where
  same := by
    obtain ⟨hi, rfl⟩ := List.getElem?_eq_some_iff.mp hd
    have hset := @List.set_getElem_self _ (k.daemons.map DaemonSlot.key) i (by simpa using hi)
    rw [List.getElem_map] at hset
    rw [← h.same, Sys.setDaemon, List.map_set, hkey, hset]
  flag := h.flag
  tried := h.tried
  off hs j e he hgui := by
    rw [Sys.setDaemon, List.getElem?_set] at he
    split at he
    · split at he
      · cases he
        exact hoff hs hgui
      · cases he
    · exact h.off hs j e he hgui

theorem Fresh.note {log : List Note} (h : Fresh k log) (notes : List Note) :
    Fresh k (log ++ notes) :=
  fun hno => h fun hmem => hno (List.mem_append_left _ hmem)

theorem Fresh.setDaemon {log : List Note} (h : Fresh k log) (d' : DaemonSlot)
    (hd' : .attempted ∉ log → isGuiStackProg d'.prog = true → d'.tty = tty2 → d'.restarts = 0) :
    Fresh (k.setDaemon i d') log := by
  intro hno j e he hgui htty
  rw [Sys.setDaemon, List.getElem?_set] at he
  split at he
  · split at he
    · cases he
      exact hd' hno hgui htty
    · cases he
  · exact h hno j e he hgui htty

theorem Watched.ensure {log : List Note} (h : Watched daemons k log) (v : Visit) :
    ∃ k' notes, ensureTty2GuiFallback v k = (k', notes) ∧ Watched daemons k' (log ++ notes) ∧
      .attempted ∈ log ++ notes ∧ NoFound notes ∧ ∀ n ∈ notes, ∀ i, n ≠ .spawned i := by
  by_cases hstarted : k.guiFallbackStarted = true
  · refine ⟨k, [], by rw [ensureTty2GuiFallback, if_pos hstarted], ?_, ?_, ?_, ?_⟩
    · rwa [List.append_nil]
    · exact List.mem_append_left _ (h.tried (h.flag.mp hstarted))
    · rintro n ⟨⟩
    · rintro n ⟨⟩
  · have hnot : .started ∉ log := fun hs => hstarted (h.flag.mpr hs)
    by_cases hpid : 0 ≤ v.guishell
    · refine ⟨_, _, by rw [ensureTty2GuiFallback, if_neg hstarted, if_pos hpid], ?_, by simp, ?_, ?_⟩
      · refine ⟨?_, by simp, by simp, ?_⟩
        · rw [← h.same, disableGuiStackDaemons, List.map_map]
          refine List.map_congr_left fun d _ => ?_
          simp only [Function.comp, DaemonSlot.key]
          split <;> rfl
        · intro _ i d hd hgui
          obtain ⟨c, -, rfl⟩ := Option.map_eq_some_iff.mp ((List.getElem?_map).symm.trans hd)
          split at hgui
          · rw [if_pos ‹_›]
          · exact absurd hgui ‹_›
      · simp [NoFound]
      · simp
    · refine ⟨_, _, by rw [ensureTty2GuiFallback, if_neg hstarted, if_neg hpid], ?_, by simp, ?_, ?_⟩
      · exact ⟨h.same, by simp [hstarted, hnot], by simp, by simp [hnot]⟩
      · simp [NoFound]
      · simp

theorem Watched.spawnFailed {log : List Note} (h : Watched daemons k log) (hfresh : Fresh k log ∨ d.tty = tty2)
    (v : Visit) (rc : Int) :
    ∃ k' notes, spawnFailed v k d rc = (k', notes) ∧ Watched daemons k' (log ++ notes) ∧
      Fresh k' (log ++ notes) ∧ (d.tty = tty2 → .attempted ∈ log ++ notes) ∧ NoFound notes ∧
      ∀ n ∈ notes, ∀ i, n ≠ .spawned i := by
  by_cases htty : d.tty = tty2
  · have hk : Watched daemons (if rc = -2 then { k with haveVesa := false } else k) log := by
      split
      · exact ⟨h.same, h.flag, h.tried, h.off⟩
      · exact h
    obtain ⟨k', notes, heq, hw, hatt, hnf, hns⟩ := hk.ensure v
    refine ⟨k', notes, by rw [Init.spawnFailed, if_pos htty, heq], hw, ?_, fun _ => hatt, hnf, hns⟩
    exact fun hno => absurd hatt hno
  · refine ⟨k, [], by rw [Init.spawnFailed, if_neg htty], ?_, ?_, fun h => absurd h htty, ?_, ?_⟩
    · rwa [List.append_nil]
    · rw [List.append_nil]
      exact hfresh.resolve_right htty
    · rintro n ⟨⟩
    · rintro n ⟨⟩

end Slots

section Steps

variable {daemons : List DaemonSlot} {k : Sys} {log : List Note} {d : DaemonSlot} {i : Nat}

theorem bootDaemon_supervised (hw : Watched daemons k log) (hfresh : Fresh k log)
    (hs : Supervised daemons log) (hd : k.daemons[i]? = some d) (v : Visit) :
    ∃ k' notes, bootDaemon v k i d = (k', notes) ∧
      (Supervised daemons (log ++ notes) ↔
        (isGuiStackProg d.prog = true → k.guiFallbackStarted = true → Refused v d)) ∧
      (Supervised daemons (log ++ notes) → Watched daemons k' (log ++ notes) ∧ Fresh k' (log ++ notes)) := by
  rcases spawnDaemon_cases v d with ⟨href, rc, hrc, heq⟩ | ⟨hok, pid, heq⟩
  · obtain ⟨k', notes, hfail, hw', hfresh', -, hnf, hns⟩ :=
      hw.spawnFailed (d := d) (Or.inl hfresh) v rc
    refine ⟨k', notes, by simp only [bootDaemon, heq, if_pos hrc, hfail], ?_, fun _ => ⟨hw', hfresh'⟩⟩
    exact iff_of_true ⟨hs.1.append hnf, hs.2.append hns⟩ fun _ _ => href
  · have hret : Supervised daemons (log ++ [.spawned i]) ↔
        (isGuiStackProg d.prog = true → .started ∉ log) := by
      have htried : Tried daemons (log ++ [.spawned i]) := hs.1.append (by simp [NoFound])
      rw [Supervised, and_iff_right htried, retired_snoc, and_iff_right hs.2, ← hw.isGui_iff hd]
      constructor
      · exact fun h => h i rfl
      · rintro h j ⟨⟩
        exact h
    refine ⟨k.setDaemon i { d with pid := pid }, [.spawned i], by simp [bootDaemon, heq], ?_, ?_⟩
    · rw [hret]
      refine forall_congr' fun _ => ?_
      rw [hw.flag]
      exact ⟨fun h hst => absurd hst h, fun h hst => hok (h hst)⟩
    · intro hsup
      refine ⟨(hw.setDaemon { d with pid := pid } hd rfl ?_).note (by simp), ?_⟩
      · exact fun hst hgui => absurd hst (hret.mp hsup hgui)
      · exact (hfresh.setDaemon { d with pid := pid }
          fun hno hgui htty => hfresh hno i d hd hgui htty).note _

def DaemonSlot.died (d : DaemonSlot) : DaemonSlot :=
  { d with restarts := (d.restarts + 1) % 2 ^ 32, pid := -1 }

theorem superviseDaemon_dead {v : Visit} (hdead : FoundDead v d) :
    superviseDaemon v k i d =
      if isGuiStackProg d.prog = true ∧ d.tty = tty2 ∧ 8 ≤ d.died.restarts then
        ((ensureTty2GuiFallback v (k.setDaemon i d.died)).1,
          .found i true :: (ensureTty2GuiFallback v (k.setDaemon i d.died)).2)
      else if (spawnDaemon v d.died).1 = -1 ∨ (spawnDaemon v d.died).1 = -2 then
        ((spawnFailed v (k.setDaemon i d.died) d.died (spawnDaemon v d.died).1).1,
          .found i true :: (spawnFailed v (k.setDaemon i d.died) d.died (spawnDaemon v d.died).1).2)
      else ((k.setDaemon i d.died).setDaemon i { (spawnDaemon v d.died).2 with restarts := 0 },
        [.found i true, .spawned i]) := by
  have hpos : 0 ≤ d.pid := hdead.1
  rw [superviseDaemon, if_neg (by omega), if_neg (by omega), if_pos hdead.2]
  rfl

-- a daemon found dead: the fallback is tried, or its respawn is the next note
theorem superviseDaemon_dead_supervised (hw : Watched daemons k log) (hfresh : Fresh k log)
    (hs : Supervised daemons log) (hd : k.daemons[i]? = some d)
    (hlive : isGuiStackProg d.prog = true → .started ∉ log) {v : Visit} (hdead : FoundDead v d) :
    ∃ k' notes, superviseDaemon v k i d = (k', notes) ∧
      (Supervised daemons (log ++ notes) ↔
        (isGuiStackProg d.prog = true → d.tty = tty2 → 7 ≤ deadRun i log →
          .attempted ∉ log → Refused v d)) ∧
      Watched daemons k' (log ++ notes) ∧ Fresh k' (log ++ notes) := by
  have hfound : Retired daemons (log ++ [.found i true]) := hs.2.append (by simp)
  have hw₁ : Watched daemons (k.setDaemon i d.died) (log ++ [.found i true]) :=
    (hw.setDaemon d.died hd rfl fun hst hgui => absurd hst (hlive hgui)).note (by simp)
  have hsplit : ∀ rest, log ++ Note.found i true :: rest = log ++ [.found i true] ++ rest := by simp
  rw [superviseDaemon_dead hdead]
  by_cases hlim : isGuiStackProg d.prog = true ∧ d.tty = tty2 ∧ 8 ≤ d.died.restarts
  · obtain ⟨hgui, htty, h8⟩ := hlim
    have hatt : .attempted ∈ log := by
      by_contra hno
      have hzero : d.restarts = 0 := hfresh hno i d hd hgui htty
      rw [DaemonSlot.died, hzero] at h8
      simp at h8
    obtain ⟨k', notes, heq, hw', hatt', hnf, hns⟩ := hw₁.ensure v
    refine ⟨k', .found i true :: notes, by rw [if_pos ⟨hgui, htty, h8⟩, heq], ?_, ?_, ?_⟩
    · refine iff_of_true ⟨?_, ?_⟩ fun _ _ _ hno => absurd hatt hno
      · exact (hs.1.dead_iff hnf).mpr fun _ _ => List.mem_append_left _ hatt
      · rw [hsplit]
        exact hfound.append hns
    · rwa [hsplit]
    · rw [hsplit]
      exact fun hno => absurd hatt' hno
  rw [if_neg hlim]
  rcases spawnDaemon_cases v d.died with ⟨href, rc, hrc, heq⟩ | ⟨hok, pid, heq⟩
  · have hfresh₁ : Fresh (k.setDaemon i d.died) (log ++ [.found i true]) ∨ d.died.tty = tty2 := by
      by_cases htty : d.died.tty = tty2
      · exact Or.inr htty
      · exact Or.inl ((hfresh.setDaemon d.died fun _ _ h => absurd h htty).note _)
    obtain ⟨k', notes, hfail, hw', hfresh', hatt, hnf, hns⟩ := hw₁.spawnFailed hfresh₁ v rc
    refine ⟨k', .found i true :: notes, by simp only [heq, if_pos hrc, hfail], ?_, ?_, ?_⟩
    · refine iff_of_true ⟨(hs.1.dead_iff hnf).mpr ?_, ?_⟩ fun _ _ _ _ => href
      · intro hgui _
        have htty : d.died.tty = tty2 := ((hw.isGuiOnTty2_iff hd).mp hgui).2
        simpa using hatt htty
      · rw [hsplit]
        exact hfound.append hns
    · rwa [hsplit]
    · rwa [hsplit]
  · have hret : Retired daemons (log ++ [.found i true] ++ [.spawned i]) := by
      refine retired_snoc.mpr ⟨hfound, ?_⟩
      rintro j ⟨⟩ hgui
      simpa using hlive ((hw.isGui_iff hd).mp hgui)
    let revived : DaemonSlot := { d.died with pid := pid, restarts := 0 }
    have hset : (k.setDaemon i d.died).setDaemon i revived = k.setDaemon i revived := by
      simp only [Sys.setDaemon, List.set_set]
    refine ⟨k.setDaemon i revived, [.found i true, .spawned i], ?_, ?_, ?_, ?_⟩
    · rw [← hset, heq, if_neg (by simp)]
    · rw [Supervised, hs.1.dead_iff (by simp [NoFound]), hsplit, and_iff_left hret,
        hw.isGuiOnTty2_iff hd, and_imp]
      refine forall₃_congr fun _ _ _ => ?_
      constructor
      · exact fun h hno => absurd (by simpa using h) hno
      · intro h
        by_contra hno
        exact hok (h fun hmem => hno (List.mem_append_left _ hmem))
    · rw [hsplit]
      refine (Watched.note (hw.setDaemon revived hd rfl fun hst hgui => ?_) (by simp)).note
        (by simp)
      exact absurd hst (hlive hgui)
    · rw [hsplit]
      exact Fresh.note (Fresh.note (hfresh.setDaemon revived fun _ _ _ => rfl) _) _

theorem superviseDaemon_supervised (hw : Watched daemons k log) (hfresh : Fresh k log)
    (hs : Supervised daemons log) (hd : k.daemons[i]? = some d) (v : Visit) :
    ∃ k' notes, superviseDaemon v k i d = (k', notes) ∧
      (Supervised daemons (log ++ notes) ↔
        (isGuiStackProg d.prog = true → d.tty = tty2 → FoundDead v d → 7 ≤ deadRun i log →
          .attempted ∉ log → Refused v d)) ∧
      Watched daemons k' (log ++ notes) ∧ Fresh k' (log ++ notes) := by
  by_cases hoff : d.pid = -2
  · refine ⟨k, [], by rw [superviseDaemon, if_pos hoff], ?_, ?_⟩
    · rw [List.append_nil]
      refine iff_of_true hs fun _ _ hdead => ?_
      have hpos : 0 ≤ d.pid := hdead.1
      omega
    · rw [List.append_nil]
      exact ⟨hw, hfresh⟩
  have hlive : isGuiStackProg d.prog = true → .started ∉ log :=
    fun hgui hst => hoff (hw.off hst i d hd hgui)
  by_cases hneg : d.pid < 0
  · have hidle : ¬FoundDead v d := fun h => by
      have hpos : 0 ≤ d.pid := h.1
      omega
    rcases spawnDaemon_cases v d with ⟨-, rc, hrc, heq⟩ | ⟨-, pid, heq⟩
    · refine ⟨k.setDaemon i d, [], ?_, ?_, ?_, ?_⟩
      · rw [superviseDaemon, if_neg hoff, if_pos hneg, heq]
        rcases hrc with rfl | rfl <;> rfl
      · rw [List.append_nil]
        exact iff_of_true hs fun _ _ hdead => absurd hdead hidle
      · rw [List.append_nil]
        exact hw.setDaemon d hd rfl fun hst hgui => absurd hst (hlive hgui)
      · rw [List.append_nil]
        exact hfresh.setDaemon d fun hno hgui htty => hfresh hno i d hd hgui htty
    · refine ⟨k.setDaemon i { d with pid := pid }, [.spawned i], ?_, ?_, ?_, ?_⟩
      · rw [superviseDaemon, if_neg hoff, if_pos hneg, heq]
        rfl
      · refine iff_of_true ⟨hs.1.append (by simp [NoFound]), retired_snoc.mpr ⟨hs.2, ?_⟩⟩
          fun _ _ hdead => absurd hdead hidle
        rintro j ⟨⟩ hgui
        exact hlive ((hw.isGui_iff hd).mp hgui)
      · exact (hw.setDaemon { d with pid := pid } hd rfl
          fun hst hgui => absurd hst (hlive hgui)).note (by simp)
      · exact (hfresh.setDaemon { d with pid := pid }
          fun hno hgui htty => hfresh hno i d hd hgui htty).note _
  by_cases hdead : v.taskState = taskTerminated ∨ v.taskState < 0
  · have hfound : FoundDead v d := ⟨by omega, hdead⟩
    obtain ⟨k', notes, heq, hiff, hrest⟩ :=
      superviseDaemon_dead_supervised hw hfresh hs hd hlive hfound
    refine ⟨k', notes, heq, hiff.trans ?_, hrest⟩
    exact forall₂_congr fun _ _ => ⟨fun h _ => h, fun h => h hfound⟩
  · refine ⟨k, [.found i false], ?_, ?_, hw.note (by simp), hfresh.note _⟩
    · rw [superviseDaemon, if_neg hoff, if_neg hneg, if_neg hdead]
    · exact iff_of_true ⟨hs.1.alive, hs.2.append (by simp)⟩ fun _ _ h => absurd h.2 hdead

end Steps

section Runs

variable {daemons : List DaemonSlot}

structure Sound (daemons : List DaemonSlot) (m : Supervisor) : Prop where
  watched : Watched daemons m.sys m.log
  fresh : Fresh m.sys m.log

theorem Sound.of_daemons {m m' : Supervisor} (h : Sound daemons m)
    (hds : m'.sys.daemons = m.sys.daemons)
    (hflag : m'.sys.guiFallbackStarted = m.sys.guiFallbackStarted) (hlog : m'.log = m.log) :
    Sound daemons m' where
  watched := by
    rw [hlog]
    exact ⟨by rw [hds]; exact h.watched.same, by rw [hflag]; exact h.watched.flag,
      h.watched.tried, by rw [hds]; exact h.watched.off⟩
  fresh := by
    rw [Fresh, hlog, hds]
    exact h.fresh

theorem sound_step {m : Supervisor} (hm : Sound daemons m) (hs : Supervised daemons m.log)
    (v : Visit) :
    (Supervised daemons (step m v).log ↔ Spared m v) ∧
      (Supervised daemons (step m v).log → Sound daemons (step m v)) := by
  have hsame : ∀ m' : Supervisor, m'.sys.daemons = m.sys.daemons →
      m'.sys.guiFallbackStarted = m.sys.guiFallbackStarted → m'.log = m.log →
      (Supervised daemons m'.log ↔ True) ∧ (Supervised daemons m'.log → Sound daemons m') :=
    fun m' hds hflag hlog =>
      ⟨iff_true_intro (by rw [hlog]; exact hs), fun _ => hm.of_daemons hds hflag hlog⟩
  cases hpc : m.pc with
  | bootDaemons i =>
    cases hd : m.sys.daemons[i]? with
    | none =>
      have hspared : Spared m v ↔ True := by simp [Spared, hpc, hd]
      rw [hspared]
      exact hsame _ (by simp [step, hpc, hd]) (by simp [step, hpc, hd]) (by simp [step, hpc, hd])
    | some d =>
      obtain ⟨k', notes, heq, hiff, hrest⟩ :=
        bootDaemon_supervised hm.watched hm.fresh hs hd v
      have hstep : step m v = ⟨k', .bootDaemons (i + 1), m.log ++ notes⟩ := by
        simp [step, hpc, hd, heq]
      rw [hstep]
      refine ⟨hiff.trans (by simp [Spared, hpc, hd]), fun h => ⟨(hrest h).1, (hrest h).2⟩⟩
  | bootShells i =>
    have hspared : Spared m v ↔ True := by simp [Spared, hpc]
    rw [hspared]
    simp only [step, hpc]
    split
    · exact hsame _ rfl rfl rfl
    · exact hsame _ rfl rfl rfl
  | daemons i =>
    cases hd : m.sys.daemons[i]? with
    | none =>
      have hspared : Spared m v ↔ True := by simp [Spared, hpc, hd]
      rw [hspared]
      exact hsame _ (by simp [step, hpc, hd]) (by simp [step, hpc, hd]) (by simp [step, hpc, hd])
    | some d =>
      obtain ⟨k', notes, heq, hiff, hw, hfresh⟩ :=
        superviseDaemon_supervised hm.watched hm.fresh hs hd v
      have hstep : step m v = ⟨k', .daemons (i + 1), m.log ++ notes⟩ := by
        simp [step, hpc, hd, heq]
      rw [hstep]
      exact ⟨hiff.trans (by simp [Spared, hpc, hd]), fun _ => ⟨hw, hfresh⟩⟩
  | shells i =>
    have hspared : Spared m v ↔ True := by simp [Spared, hpc]
    rw [hspared]
    simp only [step, hpc]
    split
    · exact hsame _ rfl rfl rfl
    · exact hsame _ rfl rfl rfl

theorem supervised_nil (daemons : List DaemonSlot) : Supervised daemons [] := by
  refine ⟨fun i _ h => absurd h (by simp [deadRun]), fun i before after _ hlog => ?_⟩
  exact absurd hlog.symm (by simp)

theorem foldl_restarts (lines : List (Text × Text × Option Text)) : ∀ (ds : List DaemonSlot),
    (∀ d ∈ ds, d.restarts = 0) → ∀ d ∈ lines.foldl
      (fun ds (tty, prog, cmdline) => (addDaemonCfg ds tty prog cmdline).getD ds) ds,
      d.restarts = 0 := by
  induction lines with
  | nil => exact fun ds h => h
  | cons line lines ih =>
    obtain ⟨tty, prog, cmdline⟩ := line
    intro ds h
    refine ih _ fun d hd => ?_
    simp only [addDaemonCfg] at hd
    split at hd
    · exact h d hd
    · rcases List.mem_append.mp hd with hd | hd
      · exact h d hd
      · rw [List.mem_singleton.mp hd]

theorem loadDaemons_restarts (lines : List (Text × Text × Option Text)) :
    ∀ d ∈ loadDaemons lines, d.restarts = 0 :=
  foldl_restarts lines [] (by simp)

theorem sound_boot (shells : List ShellSlot) (lines : List (Text × Text × Option Text))
    (vesaFd : Int) : Sound (loadDaemons lines) (boot shells (loadDaemons lines) vesaFd) where
  watched := ⟨rfl, by simp [boot], by simp [boot], by simp [boot]⟩
  fresh _ _ d hd _ _ := loadDaemons_restarts lines d (List.mem_of_getElem? hd)

theorem boot_supervised_iff (shells : List (Text × Text)) (daemons : List (Text × Text × Option Text))
    (vesaFd : Int) (visits : List Visit) :
    (∀ pre, pre <+: visits →
        Supervised (loadDaemons daemons)
          (pre.foldl step (boot (loadShells shells) (loadDaemons daemons) vesaFd)).log) ↔
      Run.Along (fun m v => some (step m v)) Spared
        (boot (loadShells shells) (loadDaemons daemons) vesaFd) visits :=
  Run.along_iff_prefixes (I := Sound (loadDaemons daemons))
    (P := fun m => Supervised (loadDaemons daemons) m.log)
    (fun _ v hm hs hok => (sound_step hm hs v).2 ((sound_step hm hs v).1.mpr hok))
    (fun _ v hm hs => (sound_step hm hs v).1) visits _ (sound_boot _ _ _) (supervised_nil _)

end Runs

section Examples

def gfxd : Text × Text × Option Text := (tty2, byteText "/bin/gfxd", none)

def composd : Text × Text × Option Text := (tty2, byteText "/bin/composd", none)

def shell1 : Text × Text := (byteText "/dev/tty/1", byteText "/bin/sh")

def respawns : Visit := ⟨3, 5, 5, taskTerminated, 6, 7⟩

def noSpawn : Visit := { respawns with spawn := -1 }

-- `gfxd` dies and is spawned again in each of eight rounds
def eightDeaths : List Note :=
  ((List.replicate 36 respawns).foldl step
    (boot (loadShells [shell1]) (loadDaemons [gfxd]) 3)).log

-- `gfxd` cannot be spawned at the start, the `composd` of the next slot can
def lateComposd : List Note :=
  ([noSpawn, respawns].foldl step (boot (loadShells [shell1]) (loadDaemons [gfxd, composd]) 3)).log

theorem gui_stack_not_supervised :
    (IsGuiOnTty2 (loadDaemons [gfxd]) 0 ∧ deadRun 0 eightDeaths = 8 ∧ .attempted ∉ eightDeaths) ∧
      lateComposd = [.attempted, .started, .spawned 1] ∧
      ¬Supervised (loadDaemons [gfxd]) eightDeaths ∧
      ¬Supervised (loadDaemons [gfxd, composd]) lateComposd := by
  have hgui : IsGuiOnTty2 (loadDaemons [gfxd]) 0 := ⟨_, rfl, by decide, by decide⟩
  have hrun : deadRun 0 eightDeaths = 8 := by decide +kernel
  have hno : .attempted ∉ eightDeaths := by decide +kernel
  have hlog : lateComposd = [.attempted, .started, .spawned 1] := by decide +kernel
  refine ⟨⟨hgui, hrun, hno⟩, hlog, fun h => hno (h.1 0 hgui (by omega)), fun h => ?_⟩
  refine h.2 1 [.attempted, .started] [] ⟨_, rfl, by decide⟩ hlog (by decide)

end Examples

end HouseOS.Init
