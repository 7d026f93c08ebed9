import HouseOS.Cmd.Model
import HouseOS.Syscall.TreeRefines

namespace HouseOS.Cmd

open HouseOS.ByteCursor
open HouseOS.Syscall
open HouseOS.Vfs (Path slash)

variable {Disk E : Type} [DecidableEq E] {v : View Disk E} {o : TreeCalls Disk}
  {mem : Nat → Allocator} {s s' : Files Disk} {d d' : Disk} {src dst : Path} {i : Nat}

def copied (old new : List UInt8) : List UInt8 :=
  new.take cmdBufSz ++ old.drop (new.take cmdBufSz).length

theorem copied_self (text : List UInt8) : copied text text = text := by
  rw [copied, List.length_take, ← List.drop_eq_drop_min, List.take_append_drop]

theorem copied_eq_iff (old new : List UInt8) :
    copied old new = new ↔
      old.drop (min cmdBufSz new.length) = new.drop (min cmdBufSz new.length) := by
  have hnew := copied_self new
  rw [copied, List.length_take] at hnew
  rw [copied, List.length_take]
  conv_lhs => rhs; rw [← hnew]
  exact List.append_right_inj _

section Block

variable {inFd outFd j : Nat} {text old : List UInt8}

theorem overwrite_zero (old data : List UInt8) :
    overwrite 0 old 0 data = data ++ old.drop data.length := by
  simp [overwrite]

theorem readBlock_spec (hs : Serves v o) (hroot : s.rootFs = some d)
    (hin : s.fds inFd = pathFd src 0) (hlt : inFd < fdMax) (hpath : (pathFd src 0).path = src)
    (hi : v.node d (v.entry src) = .file i) (m : Allocator) :
    ∃ a s' d', s.sysRead o.toFileCalls m.kmalloc inFd bufPtr cmdBufSz = some (a, s') ∧
      s'.rootFs = some d' ∧ v.Same d d' ∧ Moves s inFd s' ∧
      (a.eax < 0 ∨ a.out = (v.data d i).take cmdBufSz ∧ a.eax = a.out.length) := by
  have hopen := opened_path (v := v) (i := i) hlt hroot hin hpath
  have hfit : Fits o.toFileCalls (fun d => v.data d i) inFd s ⟨m, .read bufPtr cmdBufSz⟩ := by
    intro d₁ hd₁
    rw [hroot] at hd₁
    cases hd₁
    have := hs.size d src i hi
    exact Or.inr (Or.inr (Or.inr (Or.inr (by dsimp only; omega))))
  obtain ⟨a, s', c', hread, hmeets, hopen'⟩ :=
    sysRead_meets (hs.faithful hi) hopen m bufPtr cmdBufSz hfit
  obtain ⟨d', hroot', hframe, hbytes⟩ := hopen'.disk
  have hsame : c'.bytes = v.data d i ∧
      (a.eax < 0 ∨ a.out = (v.data d i).take cmdBufSz ∧ a.eax = a.out.length) := by
    rcases hmeets with ⟨hneg, -, hc⟩ | ⟨hout, hcount, hc⟩
    · exact ⟨by rw [hc], Or.inl hneg⟩
    · refine ⟨by rw [hc]; rfl, Or.inr ⟨?_, hcount⟩⟩
      rw [hout, if_neg (by decide)]
      rfl
  exact ⟨a, s', d', hread, hroot', hframe.same (hbytes ▸ hsame.1), sysRead_moves hread, hsame.2⟩

theorem writeBlock_spec (hs : Serves v o) (hroot : s.rootFs = some d)
    (hout : s.fds outFd = pathFd dst 1) (hlt : outFd < fdMax) (hpath : (pathFd dst 1).path = dst)
    (hj : v.node d (v.entry dst) = .file j) {data : List UInt8} (hdata : data ≠ [])
    (hshort : data.length ≤ cmdBufSz) (m : Allocator) :
    ∃ a s' d', s.sysWrite o.toFileCalls m.kmalloc outFd bufPtr data = some (a, s') ∧
      s'.rootFs = some d' ∧ v.Frame j d d' ∧ Moves s outFd s' ∧
      (a.eax < 0 ∧ v.data d' j = v.data d j ∨
        a.eax = data.length ∧ v.data d' j = data ++ (v.data d j).drop data.length) := by
  have hopen := opened_path (v := v) (i := j) hlt hroot hout hpath
  rw [not_appends] at hopen
  obtain ⟨a, s', c', hwrite, hopen', hmoves, hcase⟩ :=
    sysWrite_stores hs hj hopen m (by decide : bufPtr ≠ 0) hdata
      (by simp only [cmdBufSz] at hshort; omega)
  obtain ⟨d', hroot', hframe, hbytes⟩ := hopen'.disk
  refine ⟨a, s', d', hwrite, hroot', hframe, hmoves, ?_⟩
  rcases hcase with ⟨hneg, hc⟩ | ⟨hcount, hc⟩
  · exact Or.inl ⟨hneg, by rw [← hbytes, hc]⟩
  · refine Or.inr ⟨hcount, ?_⟩
    rw [← hbytes, hc]
    exact overwrite_zero _ _

theorem copyBlock_spec (mem : Nat → Allocator) (hs : Serves v o) (hroot : s.rootFs = some d)
    (hin : s.fds inFd = pathFd src 0) (hout : s.fds outFd = pathFd dst 1)
    (hinlt : inFd < fdMax) (houtlt : outFd < fdMax) (hne : outFd ≠ inFd)
    (hsrcp : (pathFd src 0).path = src) (hdstp : (pathFd dst 1).path = dst)
    (hi : v.node d (v.entry src) = .file i) (hj : v.node d (v.entry dst) = .file j) :
    ∃ n s' d', copyBlock o mem s inFd outFd = some (n, s') ∧ s'.rootFs = some d' ∧
      v.node d' = v.node d ∧ v.data d' i = v.data d i ∧
      (∀ fd, (s'.fds fd).pipeAutoUnlink = (s.fds fd).pipeAutoUnlink) ∧
      ∀ k, n = some k → 0 ≤ k → v.data d' j = copied (v.data d j) (v.data d i) := by
  obtain ⟨a, s₁, d₁, hread, hroot₁, hsame, hmoves, hgot⟩ :=
    readBlock_spec hs hroot hin hinlt hsrcp hi (mem 0)
  unfold copyBlock
  rw [hread, Option.bind_some]
  dsimp only
  by_cases hpos : 0 < a.eax
  · rw [if_pos hpos]
    obtain ⟨hbytes, hcount⟩ := hgot.resolve_left (by omega)
    have hj₁ : v.node d₁ (v.entry dst) = .file j := by rw [hsame.node, hj]
    have hdata : a.out ≠ [] := by
      intro hnil
      rw [hnil] at hcount
      simp only [List.length_nil] at hcount
      omega
    have hshort : a.out.length ≤ cmdBufSz := by
      rw [hbytes, List.length_take]
      omega
    have hout₁ : s₁.fds outFd = pathFd dst 1 := (hmoves.other hne).trans hout
    obtain ⟨w, s₂, d₂, hwrite, hroot₂, hframe, hmoves₂, hput⟩ :=
      writeBlock_spec hs hroot₁ hout₁ houtlt hdstp hj₁ hdata hshort (mem 1)
    rw [hwrite, Option.map_some]
    have hsource : v.data d₂ j = copied (v.data d j) (v.data d i) ∨ v.data d₂ j = v.data d j := by
      rcases hput with ⟨-, hkept⟩ | ⟨-, hnew⟩
      · exact Or.inr (by rw [hkept, hsame.data])
      · exact Or.inl (by rw [hnew, hbytes, hsame.data, copied])
    refine ⟨_, s₂, d₂, rfl, hroot₂, hframe.node.trans hsame.node, ?_,
      fun fd => hmoves₂.autoUnlink.trans hmoves.autoUnlink, fun k hk _ => ?_⟩
    · by_cases hij : i = j
      · subst hij
        rcases hsource with h | h
        · rw [h, copied_self]
        · exact h
      · rw [hframe.rest i hij, hsame.data]
    · dsimp only at hk
      rcases hput with ⟨hneg, -⟩ | ⟨-, hnew⟩
      · rw [if_pos (by omega)] at hk
        cases hk
      · rw [hnew, hbytes, hsame.data, copied]
  · rw [if_neg hpos]
    refine ⟨_, s₁, d₁, rfl, hroot₁, hsame.node, by rw [hsame.data], fun fd => hmoves.autoUnlink,
      fun k hk hk0 => ?_⟩
    cases hk
    obtain ⟨hbytes, hcount⟩ := hgot.resolve_left (by omega)
    have hempty : (v.data d i).take cmdBufSz = [] := by
      rw [← hbytes]
      exact List.length_eq_zero_iff.mp (by omega)
    rw [copied, hempty, hsame.data]
    rfl

end Block

section File

theorem copyFile_spec (hs : Serves v o) (mem : Nat → Allocator) (hroot : s.rootFs = some d)
    (hi : v.node d (v.entry src) = .file i)
    (hdst : (∃ j, v.node d (v.entry dst) = .file j) ∨ v.node d (v.entry dst) = .absent) :
    ∃ n s' d', copyFile o mem s src dst = some (n, s') ∧ s'.rootFs = some d' ∧
      v.node d' (v.entry src) = .file i ∧ v.data d' i = v.data d i ∧
      ∀ k, n = some k → 0 ≤ k → copyUserPath src = some src ∧ copyUserPath dst = some dst ∧
        v.Holds d' (v.entry dst) (copied (v.old d (v.entry dst)) (v.data d i)) := by
  have hslot : (∃ i, v.node d (v.entry src) = .file i) ∨
      v.node d (v.entry src) = .absent ∧ 0 &&& 1 ≠ 0 := Or.inl ⟨i, hi⟩
  obtain ⟨r₁, s₁, d₁, hopen₁, hroot₁, hkeeps₁, hsame₁, hcase₁⟩ := sysOpen_spec hs hroot hslot
  have hsame := hsame₁ i hi
  obtain ⟨hi₁, hdata₁⟩ := hkeeps₁ _ _ hi
  unfold copyFile
  rw [hopen₁]
  dsimp only
  by_cases hneg₁ : r₁ < 0
  · rw [if_pos hneg₁]
    exact ⟨none, s₁, d₁, rfl, hroot₁, hi₁, hdata₁, nofun⟩
  rw [if_neg hneg₁]
  obtain ⟨fd₁, rfl, hlt₁, -, hfds₁, hpath₁, huser₁, -⟩ := hcase₁.resolve_left fun h => hneg₁ h.1
  have hdst₁ : (∃ j, v.node d₁ (v.entry dst) = .file j) ∨
      v.node d₁ (v.entry dst) = .absent ∧ 1 &&& 1 ≠ 0 := by
    rw [hsame.node]
    exact hdst.imp_right fun h => ⟨h, by decide⟩
  obtain ⟨r₂, s₂, d₂, hopen₂, hroot₂, hkeeps₂, -, hcase₂⟩ := sysOpen_spec hs hroot₁ hdst₁
  obtain ⟨hi₂, hdata₂⟩ := hkeeps₂ _ _ hi₁
  rw [hopen₂]
  dsimp only
  have hentry₁ : s₁.fds fd₁ = pathFd src 0 := by rw [hfds₁, FdTable.set, if_pos rfl]
  by_cases hneg₂ : r₂ < 0
  · have hfds₂ : s₂.fds = s₁.fds := by
      rcases hcase₂ with ⟨-, hfds⟩ | ⟨fd₂, rfl, -⟩
      · exact hfds
      · exact absurd hneg₂ (by omega)
    rw [if_pos hneg₂, Int.toNat_natCast]
    refine ⟨none, _, d₂, rfl, ?_, hi₂, hdata₂.trans hdata₁, nofun⟩
    rw [sysClose_disk]
    · exact hroot₂
    · rw [hfds₂, hentry₁]
      rfl
  rw [if_neg hneg₂]
  obtain ⟨fd₂, rfl, hlt₂, hfree, hfds₂, hpath₂, huser₂, j, hj, hold⟩ := hcase₂.resolve_left fun h => hneg₂ h.1
  have hne : fd₂ ≠ fd₁ := by
    rintro rfl
    rw [hentry₁] at hfree
    cases hfree
  have hin : s₂.fds fd₁ = pathFd src 0 := by
    rw [hfds₂, FdTable.set, if_neg hne.symm, hentry₁]
  have hout : s₂.fds fd₂ = pathFd dst 1 := by rw [hfds₂, FdTable.set, if_pos rfl]
  obtain ⟨n, s₃, d₃, hblock, hroot₃, hnode, hkept, hauto, hdone⟩ :=
    copyBlock_spec mem hs hroot₂ hin hout hlt₁ hlt₂ hne hpath₁ hpath₂ hi₂ hj
  rw [Int.toNat_natCast, Int.toNat_natCast, hblock, Option.map_some]
  refine ⟨n, _, d₃, rfl, ?_, by rw [hnode, hi₂], hkept.trans (hdata₂.trans hdata₁),
    fun k hk hk0 => ⟨huser₁, huser₂, j, by rw [hnode, hj], ?_⟩⟩
  · rw [sysClose_disk, sysClose_disk]
    · exact hroot₃
    · rw [hauto, hout]
      rfl
    · rw [sysClose_other hne.symm, hauto, hin]
      rfl
  · rw [hdone k hk hk0, hold, hdata₂, hdata₁, hsame.old]

end File

section Tools

variable {argv : List Path} {arg0 : Nat} {cwd : Path}

inductive Tool where
  | cp
  | mv
  deriving DecidableEq, Repr

def Tool.run : Tool → TreeCalls Disk → (Nat → Allocator) → List Path → Nat → Path → Files Disk →
    Option (Int × Files Disk)
  | .cp => cmdCp
  | .mv => cmdMv

def Tool.Done (v : View Disk E) (d : Disk) (src dst : Path) (text : List UInt8) : Tool → Prop
  | .cp => v.Holds d (v.entry dst) text ∧ v.Holds d (v.entry src) text
  | .mv => v.Holds d (v.entry dst) text

-- behind the one block that is copied, the old destination already reads as the source
def TailAgrees (old text : List UInt8) : Prop :=
  old.drop (min cmdBufSz text.length) = text.drop (min cmdBufSz text.length)

def Tool.Keeps (v : View Disk E) (d : Disk) (src dst : Path) (text : List UInt8) : Tool → Prop
  | .cp => TailAgrees (v.old d (v.entry dst)) text
  | .mv => src = dst ∨ v.entry src ≠ v.entry dst ∧
      (v.linkable d src dst = true ∧ v.node d (v.entry dst) = .absent ∨
        TailAgrees (v.old d (v.entry dst)) text)

omit [DecidableEq E] in
theorem old_file (hi : v.node d (v.entry src) = .file i) : v.old d (v.entry src) = v.data d i := by
  rw [View.old, hi]

theorem cp_done_iff (hs : Serves v o) (mem : Nat → Allocator)
    (hargs : cmdArgs argv arg0 cwd = some (src, dst)) (hroot : s.rootFs = some d)
    (hi : v.node d (v.entry src) = .file i)
    (hdst : (∃ j, v.node d (v.entry dst) = .file j) ∨ v.node d (v.entry dst) = .absent) :
    ∃ r s' d', cmdCp o mem argv arg0 cwd s = some (r, s') ∧ s'.rootFs = some d' ∧
      (r ≠ 0 → v.Holds d' (v.entry src) (v.data d i)) ∧
      (r = 0 → (Tool.Done v d' src dst (v.data d i) .cp ↔ Tool.Keeps v d src dst (v.data d i) .cp)) := by
  unfold cmdCp
  rw [hargs]
  dsimp only
  by_cases hsame : src = dst
  · subst hsame
    rw [if_pos rfl]
    refine ⟨0, s, d, rfl, hroot, fun h => absurd rfl h, fun _ => iff_of_true ⟨⟨i, hi, rfl⟩, i, hi, rfl⟩ ?_⟩
    rw [Tool.Keeps, old_file hi]
    rfl
  · obtain ⟨n, s', d', hcopy, hroot', hi', hkept, hdone⟩ := copyFile_spec hs mem hroot hi hdst
    have hsrc : v.Holds d' (v.entry src) (v.data d i) := ⟨i, hi', hkept⟩
    rw [if_neg hsame, hcopy, Option.map_some]
    cases n with
    | none => exact ⟨1, s', d', rfl, hroot', fun _ => hsrc, fun h => absurd h (by decide)⟩
    | some n =>
      refine ⟨_, s', d', rfl, hroot', fun _ => hsrc, fun hr => ?_⟩
      have hn : 0 ≤ n := by
        by_contra hneg
        rw [if_pos (by omega)] at hr
        exact absurd hr (by decide)
      obtain ⟨-, -, hholds⟩ := hdone n rfl hn
      rw [Tool.Done, Tool.Keeps, holds_iff hholds, and_iff_left hsrc, copied_eq_iff]
      rfl

theorem mvCopy_spec (hs : Serves v o) (mem : Nat → Allocator) (hroot : s.rootFs = some d)
    (hi : v.node d (v.entry src) = .file i)
    (hdst : (∃ j, v.node d (v.entry dst) = .file j) ∨ v.node d (v.entry dst) = .absent) :
    ∃ r s' d', mvCopy o mem s src dst = some (r, s') ∧ s'.rootFs = some d' ∧
      (r ≠ 0 → v.Holds d' (v.entry src) (v.data d i)) ∧
      (r = 0 → copyUserPath src = some src ∧ copyUserPath dst = some dst ∧
        (v.Holds d' (v.entry dst) (v.data d i) ↔ v.entry src ≠ v.entry dst ∧
          TailAgrees (v.old d (v.entry dst)) (v.data d i))) := by
  obtain ⟨n, s₁, d₁, hcopy, hroot₁, hi₁, hkept, hdone⟩ := copyFile_spec hs mem hroot hi hdst
  have hsrc : v.Holds d₁ (v.entry src) (v.data d i) := ⟨i, hi₁, hkept⟩
  unfold mvCopy
  rw [hcopy, Option.map_some]
  cases n with
  | none => exact ⟨1, s₁, d₁, rfl, hroot₁, fun _ => hsrc, fun h => absurd h (by decide)⟩
  | some n =>
    dsimp only
    by_cases hneg : n < 0
    · rw [if_pos hneg]
      exact ⟨1, s₁, d₁, rfl, hroot₁, fun _ => hsrc, fun h => absurd h (by decide)⟩
    rw [if_neg hneg]
    obtain ⟨huser, huser', j, hj, hbytes⟩ := hdone n rfl (by omega)
    obtain ⟨g, s₂, d₂, hunlink, hroot₂, -, hcase⟩ := sysUnlink_spec hs hroot₁ hi₁
    rcases hcase with ⟨-, -, hbad⟩ | ⟨rfl, hremoves⟩
    · rw [huser] at hbad
      cases hbad
    rw [hunlink]
    refine ⟨0, s₂, d₂, rfl, hroot₂, fun h => absurd rfl h, fun _ => ⟨huser, huser', ?_⟩⟩
    by_cases hentry : v.entry src = v.entry dst
    · refine iff_of_false ?_ fun h => h.1 hentry
      rintro ⟨k, hk, -⟩
      rw [hremoves.node, hentry, Function.update_self] at hk
      cases hk
    · have hj₂ : v.node d₂ (v.entry dst) = .file j := by
        rw [hremoves.node, Function.update_of_ne (fun h => hentry h.symm), hj]
      have hholds : v.Holds d₂ (v.entry dst) (copied (v.old d (v.entry dst)) (v.data d i)) :=
        ⟨j, hj₂, (hremoves.kept _ _ hj₂).trans hbytes⟩
      rw [holds_iff hholds, copied_eq_iff, and_iff_right hentry]
      rfl

theorem mv_done_iff (hs : Serves v o) (mem : Nat → Allocator)
    (hargs : cmdArgs argv arg0 cwd = some (src, dst)) (hroot : s.rootFs = some d)
    (hi : v.node d (v.entry src) = .file i)
    (hdst : (∃ j, v.node d (v.entry dst) = .file j) ∨ v.node d (v.entry dst) = .absent) :
    ∃ r s' d', cmdMv o mem argv arg0 cwd s = some (r, s') ∧ s'.rootFs = some d' ∧
      (r ≠ 0 → v.Holds d' (v.entry src) (v.data d i)) ∧
      (r = 0 → (Tool.Done v d' src dst (v.data d i) .mv ↔ Tool.Keeps v d src dst (v.data d i) .mv)) := by
  unfold cmdMv
  rw [hargs]
  dsimp only
  by_cases hsame : src = dst
  · subst hsame
    rw [if_pos rfl]
    exact ⟨0, s, d, rfl, hroot, fun h => absurd rfl h, fun _ => iff_of_true ⟨i, hi, rfl⟩ (Or.inl rfl)⟩
  rw [if_neg hsame]
  obtain ⟨r₁, s₁, d₁, hlink, hroot₁, -, hcase⟩ := sysLink_spec hs hroot hi
  rw [hlink]
  dsimp only
  rcases hcase with ⟨hfail, htree, hrefused⟩ | ⟨rfl, huser, hlinkable, habsent, hdata, hnode⟩
  · -- no second name: copy the block, then take the source away
    rw [if_neg hfail]
    have hi₁ : v.node d₁ (v.entry src) = .file i := by rw [htree.node, hi]
    have hdst₁ : (∃ j, v.node d₁ (v.entry dst) = .file j) ∨ v.node d₁ (v.entry dst) = .absent := by
      rwa [htree.node]
    obtain ⟨r, s', d', hcopy, hroot', hkept, hdone⟩ := mvCopy_spec hs mem hroot₁ hi₁ hdst₁
    rw [htree.data] at hkept hdone
    refine ⟨r, s', d', hcopy, hroot', hkept, fun hr => ?_⟩
    obtain ⟨hp, hq, hiff⟩ := hdone hr
    rw [htree.old] at hiff
    rw [Tool.Done, Tool.Keeps, hiff, or_iff_right hsame, or_iff_right (hrefused hp hq)]
  · -- renamed
    have hentry : v.entry src ≠ v.entry dst := by
      intro h
      rw [← h, hi] at habsent
      cases habsent
    have hi₁ : v.node d₁ (v.entry src) = .file i := by
      rw [hnode, Function.update_of_ne hentry, hi]
    obtain ⟨g, s₂, d₂, hunlink, hroot₂, -, hcase₂⟩ := sysUnlink_spec hs hroot₁ hi₁
    rcases hcase₂ with ⟨-, -, hbad⟩ | ⟨rfl, hremoves⟩
    · rw [huser] at hbad
      cases hbad
    rw [if_pos rfl, hunlink]
    refine ⟨0, s₂, d₂, rfl, hroot₂, fun h => absurd rfl h,
      fun _ => iff_of_true ?_ (Or.inr ⟨hentry, Or.inl ⟨hlinkable, habsent⟩⟩)⟩
    have hi₂ : v.node d₂ (v.entry dst) = .file i := by
      rw [hremoves.node, Function.update_of_ne (fun h => hentry h.symm), hnode, Function.update_self]
    exact ⟨i, hi₂, by rw [hremoves.kept _ _ hi₂, hdata]⟩

end Tools

section TwoFiles

private def twoFiles : Flat where
  node p := if p = [47, 97] then .file 0 else if p = [47, 98] then .file 1 else .absent
  data i := if i = 0 then ⟨[1], by decide⟩ else ⟨[2, 3], by decide⟩

private def shellFiles : Files Flat where
  rootFs := some twoFiles
  fds := fun _ => closedFd

private def lower (p : Path) : Path := p.map fun c => if 65 ≤ c ∧ c ≤ 90 then c + 32 else c

-- "mv a A" where names differ by case only: the one copy of the text goes
example :
    ∃ s' d', cmdMv (flatTree lower) (fun _ => anyRoom) [[109, 118], [97], [65]] 0 [47] shellFiles =
        some (0, s') ∧ s'.rootFs = some d' ∧ d'.node [47, 97] = .absent :=
  ⟨_, _, rfl, rfl, rfl⟩

end TwoFiles

end HouseOS.Cmd
