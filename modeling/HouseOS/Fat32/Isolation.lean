import HouseOS.Fat32.Geometry
import HouseOS.Library.Run

namespace HouseOS.Fat32

open HouseOS.Disk
open HouseOS.Program
open HouseOS.Word

-- nothing of the drive changes but its device, and it is sent to sectors in [lo, hi) only
structure Within {σ : Type} (lo hi : Nat) (d d' : Drive σ) : Prop where
  total : d'.totalSectors = d.totalSectors
  parts : d'.parts = d.parts
  issued : ∃ sent, d'.issued = sent ++ d.issued ∧ ∀ x ∈ sent, lo ≤ x ∧ x < hi

section Within

variable {σ : Type} {a : Ata σ} {d d' q : Drive σ} {lo hi lba count : Nat}

theorem Within.refl (d : Drive σ) : Within lo hi d d := ⟨rfl, rfl, [], rfl, by simp⟩

theorem Within.of_dev (d : Drive σ) (dev : σ) : Within lo hi d { d with dev := dev } :=
  ⟨rfl, rfl, [], rfl, by simp⟩

theorem Within.trans (h : Within lo hi d q) (g : Within lo hi q d') : Within lo hi d d' := by
  obtain ⟨sent, hsent, hin⟩ := h.issued
  obtain ⟨sent', hsent', hin'⟩ := g.issued
  refine ⟨g.total.trans h.total, g.parts.trans h.parts, sent' ++ sent, ?_, ?_⟩
  · rw [hsent', hsent, List.append_assoc]
  · intro x hx
    rcases List.mem_append.mp hx with hx | hx
    · exact hin' x hx
    · exact hin x hx

theorem addressed_eq {cur : Nat} (h : cur < 2 ^ 28) : addressed cur = cur := by
  simp only [addressed]
  omega

theorem Within.of_issue (d : Drive σ) (dev : σ) {cur : Nat} (hcur : cur < 2 ^ 28) (hlo : lo ≤ cur)
    (hhi : cur < hi) : Within lo hi d (d.issue cur dev) := by
  refine ⟨rfl, rfl, [cur], ?_, ?_⟩
  · simp only [Drive.issue, addressed_eq hcur]
    rfl
  · intro x hx
    obtain rfl := List.mem_singleton.mp hx
    exact ⟨hlo, hhi⟩

theorem within_readLoop (hlba : lo ≤ lba) (hhi : hi ≤ 2 ^ 28) : ∀ (left s : Nat) (d : Drive σ),
    lba + s + left ≤ hi → Within lo hi d (d.readLoop a lba left s).2 := by
  intro left
  induction left with
  | zero => exact fun s d _ => Within.refl d
  | succ left ih =>
    intro s d hend
    have hcur : add32 lba s = lba + s := add32_eq (by omega)
    unfold Drive.readLoop
    dsimp only
    split
    · exact Within.of_dev d _
    have hready : Within lo hi d { d with dev := (a.ready d.dev).2 } := Within.of_dev d _
    have hsent := hready.trans
      (Within.of_issue _ (a.readSector (a.ready d.dev).2 (addressed (add32 lba s))).2
        (show add32 lba s < 2 ^ 28 by omega) (by omega) (by omega))
    split
    · exact hsent
    · exact hsent.trans (ih (s + 1) _ (by omega))

theorem within_writeLoop (buffer : List UInt8) (hlba : lo ≤ lba) (hhi : hi ≤ 2 ^ 28) :
    ∀ (left s : Nat) (d : Drive σ), lba + s + left ≤ hi →
      Within lo hi d (d.writeLoop a lba buffer left s).2 := by
  intro left
  induction left with
  | zero => exact fun s d _ => Within.of_dev d _
  | succ left ih =>
    intro s d hend
    have hcur : add32 lba s = lba + s := add32_eq (by omega)
    unfold Drive.writeLoop
    dsimp only
    split
    · exact Within.of_dev d _
    have hready : Within lo hi d { d with dev := (a.ready d.dev).2 } := Within.of_dev d _
    have hsent := hready.trans
      (Within.of_issue _ (a.writeSector (a.ready d.dev).2 (addressed (add32 lba s))
        ((buffer.drop (s * sectorBytes)).take sectorBytes)).2
        (show add32 lba s < 2 ^ 28 by omega) (by omega) (by omega))
    split
    · exact hsent
    · exact hsent.trans (ih (s + 1) _ (by omega))

theorem within_ataRead28 (hlo : lo ≤ lba) (hend : lba + count ≤ hi) (hhi : hi ≤ 2 ^ 28) :
    Within lo hi d (d.ataRead28 a lba count).2 := by
  unfold Drive.ataRead28
  split
  · exact Within.refl d
  · exact within_readLoop hlo hhi count 0 d (by omega)

theorem within_ataWrite28 (buffer : List UInt8) (hlo : lo ≤ lba) (hend : lba + count ≤ hi)
    (hhi : hi ≤ 2 ^ 28) : Within lo hi d (d.ataWrite28 a lba count buffer).2 := by
  unfold Drive.ataWrite28
  split
  · exact Within.refl d
  · exact within_writeLoop buffer hlo hhi count 0 d (by omega)

theorem outside_small {total : Nat} (h : Drive.outside total lba count = false) : count ≤ 255 := by
  simp only [Drive.outside, Bool.or_eq_false_iff, decide_eq_false_iff_not] at h
  simp only [maxTransfer] at h
  omega

theorem within_diskReadKernel (hlo : lo ≤ lba) (hend : count ≤ 255 → lba + count ≤ hi)
    (hhi : hi ≤ 2 ^ 28) : Within lo hi d (d.diskReadKernel a lba count).2 := by
  unfold Drive.diskReadKernel
  split
  · exact Within.refl d
  · rename_i hok
    exact within_ataRead28 hlo (hend (outside_small (by simpa using hok))) hhi

theorem within_diskWriteKernel (buffer : List UInt8) (hlo : lo ≤ lba)
    (hend : count ≤ 255 → lba + count ≤ hi) (hhi : hi ≤ 2 ^ 28) :
    Within lo hi d (d.diskWriteKernel a lba count buffer).2 := by
  unfold Drive.diskWriteKernel
  split
  · exact Within.refl d
  · rename_i hok
    exact within_ataWrite28 buffer hlo (hend (outside_small (by simpa using hok))) hhi

end Within

def InPart {σ : Type} (start count : Nat) (d d' : Drive σ) : Prop := Within start (start + count) d d'

section Parts

variable {σ : Type} {a : Ata σ} {d d' : Drive σ}

theorem refuses_bounds {fs : Fat32Fs} {rel count : Nat} (hw : fs.partTotalSectors < 2 ^ 32)
    (h : fs.refuses rel count = false) :
    rel < fs.partTotalSectors ∧ (count ≤ 255 → rel + count ≤ fs.partTotalSectors) := by
  simp only [Fat32Fs.refuses, Bool.or_eq_false_iff, decide_eq_false_iff_not] at h
  simp only [add32] at h
  omega

theorem serve_inPart {fs : Fat32Fs} (hend : fs.partStartLba + fs.partTotalSectors ≤ 2 ^ 28)
    (e : SectorReq) : InPart fs.partStartLba fs.partTotalSectors d (fs.serve a d e).2 := by
  have hadd : ∀ rel count, fs.refuses rel count = false →
      add32 fs.partStartLba rel = fs.partStartLba + rel ∧
        (count ≤ 255 → fs.partStartLba + rel + count ≤ fs.partStartLba + fs.partTotalSectors) := by
    intro rel count hok
    obtain ⟨hrel, hin⟩ := refuses_bounds (by omega) hok
    exact ⟨add32_eq (by omega), fun hc => by have := hin hc; omega⟩
  cases e with
  | read rel count =>
    simp only [Fat32Fs.serve]
    unfold Fat32Fs.fat32ReadSectors
    split
    · exact Within.refl d
    rename_i hok
    obtain ⟨heq, hin⟩ := hadd rel count (by simpa using hok)
    split
    · rw [heq]
      exact within_diskReadKernel (by omega) hin hend
    · exact Within.refl d
  | write rel count data =>
    have hwrite : InPart fs.partStartLba fs.partTotalSectors d
        (fs.fat32WriteSectors a d rel count data).2 := by
      unfold Fat32Fs.fat32WriteSectors
      split
      · exact Within.refl d
      rename_i hok
      obtain ⟨heq, hin⟩ := hadd rel count (by simpa using hok)
      split
      · rw [heq]
        exact within_diskWriteKernel data (by omega) hin hend
      · exact Within.refl d
    simp only [Fat32Fs.serve]
    split
    · rename_i q heq
      rw [heq] at hwrite
      exact hwrite
    · rename_i q heq
      rw [heq] at hwrite
      exact hwrite

theorem driver_inPart {fs : Fat32Fs} {α : Type}
    (hend : fs.partStartLba + fs.partTotalSectors ≤ 2 ^ 28) (op : Driver α) (d : Drive σ) :
    InPart fs.partStartLba fs.partTotalSectors d (op.run (fs.serve a) d).2 :=
  Prog.run_invariant (fun _ e hs => Within.trans hs (serve_inPart hend e)) op d (Within.refl d)

theorem ioctlRefuses_bounds {part : DiskPart} {lba count buffer : Nat}
    (hw : part.totalSectors < 2 ^ 32) (h : Drive.ioctlRefuses part lba count buffer = false) :
    lba + count ≤ part.totalSectors := by
  simp only [Drive.ioctlRefuses, Drive.outside, Bool.or_eq_false_iff, decide_eq_false_iff_not] at h
  simp only [maxTransfer, add32] at h
  omega

theorem ioctl_inPart {part : DiskPart} (hend : part.baseLba + part.totalSectors ≤ 2 ^ 28)
    (req : DiskIoctl) :
    InPart part.baseLba part.totalSectors d (d.diskIoctl a part req).2 := by
  have hadd : ∀ lba count buffer, Drive.ioctlRefuses part lba count buffer = false →
      add32 part.baseLba lba = part.baseLba + lba ∧ lba + count ≤ part.totalSectors := by
    intro lba count buffer hok
    have hin := ioctlRefuses_bounds (by omega) hok
    exact ⟨add32_eq (by omega), hin⟩
  cases req with
  | getInfo => exact Within.refl d
  | read lba count buffer =>
    simp only [Drive.diskIoctl]
    split
    · exact Within.refl d
    rename_i hok
    obtain ⟨heq, hin⟩ := hadd lba count buffer (by simpa using hok)
    have hread : Within part.baseLba (part.baseLba + part.totalSectors) d
        (d.ataRead28 a (part.baseLba + lba) count).2 :=
      within_ataRead28 (by omega) (by omega) hend
    rw [heq]
    split
    · rename_i q hq
      rw [hq] at hread
      exact hread
    · rename_i data q hq
      rw [hq] at hread
      exact hread
  | write lba count buffer data =>
    simp only [Drive.diskIoctl]
    split
    · exact Within.refl d
    rename_i hok
    obtain ⟨heq, hin⟩ := hadd lba count buffer (by simpa using hok)
    have hwrite : Within part.baseLba (part.baseLba + part.totalSectors) d
        (d.ataWrite28 a (part.baseLba + lba) count data).2 :=
      within_ataWrite28 data (by omega) (by omega) hend
    rw [heq]
    split
    · rename_i q hq
      rw [hq] at hwrite
      exact hwrite
    · rename_i q hq
      rw [hq] at hwrite
      exact hwrite

end Parts

structure Board (σ : Type) where
  drive : Drive σ
  mounts : List Fat32Fs

inductive DiskCall where
  | mount (name : List UInt8) (partitionIndex : Nat)
  | driver (k : Nat) (op : Driver Unit)
  | ioctl (index : Nat) (req : DiskIoctl)

section Board

variable {σ : Type} {a : Ata σ} {b : Board σ}

def Board.hasNode (b : Board σ) (index : Nat) : Bool :=
  decide (index = 0) || decide (index ≤ 4) && decide ((b.drive.parts index).totalSectors ≠ 0)

def Board.step (a : Ata σ) (b : Board σ) : DiskCall → Board σ
  | .mount name partitionIndex =>
      match fat32InitNamed a b.drive name partitionIndex with
      | (some fs, d) => { drive := d, mounts := b.mounts ++ [fs] }
      | (none, d) => { b with drive := d }
  | .driver k op =>
      match b.mounts[k]? with
      | some fs => { b with drive := (op.run (fs.serve a) b.drive).2 }
      | none => b
  | .ioctl index req =>
      if b.hasNode index then
        { b with drive := (b.drive.diskIoctl a (b.drive.parts index) req).2 }
      else b

def Board.boot (a : Ata σ) (dev : σ) (reported : Nat) : Board σ :=
  { drive := Drive.diskInit a dev reported, mounts := [] }

def Isolated (b b' : Board σ) : DiskCall → Prop
  | .mount _ _ => True
  | .driver k _ => ∀ fs, b.mounts[k]? = some fs →
      fs.partStartLba + fs.partTotalSectors ≤ b.drive.totalSectors ∧
        InPart fs.partStartLba fs.partTotalSectors b.drive b'.drive
  | .ioctl index _ => b.hasNode index = true →
      (b.drive.parts index).baseLba + (b.drive.parts index).totalSectors ≤ b.drive.totalSectors ∧
        InPart (b.drive.parts index).baseLba (b.drive.parts index).totalSectors b.drive b'.drive

structure Drive.Sound (d : Drive σ) : Prop where
  small : d.totalSectors < 2 ^ 28
  parts : ∀ i, (d.parts i).baseLba + (d.parts i).totalSectors ≤ d.totalSectors

structure Board.Sound (b : Board σ) : Prop where
  drive : Drive.Sound b.drive
  mounts : ∀ fs ∈ b.mounts, fs.partStartLba + fs.partTotalSectors ≤ b.drive.totalSectors

theorem Drive.Sound.within {d d' : Drive σ} {lo hi : Nat} (h : Drive.Sound d) (g : Within lo hi d d') :
    Drive.Sound d' where
  small := g.total ▸ h.small
  parts i := by
    rw [g.parts, g.total]
    exact h.parts i

theorem wholeDisk_fits (total i : Nat) :
    (Drive.wholeDisk total i).baseLba + (Drive.wholeDisk total i).totalSectors ≤ total := by
  unfold Drive.wholeDisk
  split
  · simp
  · simp [Drive.noPart]

theorem sound_diskInit (a : Ata σ) (dev : σ) {reported : Nat} (hrep : reported < 2 ^ 28) :
    Drive.Sound (Drive.diskInit a dev reported) := by
  have htotal : Drive.identified reported < 2 ^ 28 := by
    unfold Drive.identified
    split
    · decide
    · exact hrep
  unfold Drive.diskInit Drive.diskPartsInit
  generalize Drive.identified reported = total at htotal
  dsimp only
  have hblank : Drive.Sound (Drive.mk dev [] total (Drive.wholeDisk total)) :=
    ⟨htotal, wholeDisk_fits total⟩
  generalize Drive.mk dev [] total (Drive.wholeDisk total) = d at hblank
  have hread : Within 0 1 d (d.ataRead28 a 0 1).2 :=
    within_ataRead28 (by omega) (by omega) (by decide)
  have hq := hblank.within hread
  split
  · rename_i q heq
    rw [heq] at hq
    exact hq
  · rename_i mbr q heq
    rw [heq] at hq
    split
    · exact hq
    · refine ⟨hq.small, fun i => ?_⟩
      dsimp only
      split
      · cases he : Drive.partEntry mbr q.totalSectors (i - 1) with
        | none => simp [Drive.noPart]
        | some e => exact (partEntry_some he).2.2
      · exact hq.parts i

theorem within_diskReadAbs {d : Drive σ} (h : d.totalSectors < 2 ^ 28) (kind index lba : Nat) :
    Within 0 d.totalSectors d (diskReadAbs a d kind index lba 1).2 := by
  unfold diskReadAbs
  split
  · unfold Drive.diskReadKernel
    split
    · exact Within.refl d
    · rename_i hok
      refine within_ataRead28 (Nat.zero_le _) ?_ (by omega)
      simp only [Drive.outside, Bool.or_eq_true, decide_eq_true_eq, not_or] at hok
      omega
  · exact Within.refl d

theorem within_partitionBounds {d : Drive σ} (h : d.totalSectors < 2 ^ 28) (kind index part : Nat) :
    Within 0 d.totalSectors d (diskPartitionBounds a d kind index part).2 := by
  have hread := within_diskReadAbs (a := a) h kind index 0
  unfold diskPartitionBounds
  split
  · exact Within.refl d
  split
  · exact Within.refl d
  split
  · exact Within.refl d
  split
  · exact Within.refl d
  split
  · rename_i q heq
    rw [heq] at hread
    exact hread
  · rename_i mbr q heq
    rw [heq] at hread
    split
    · exact hread
    · exact hread

theorem within_initNamed {d : Drive σ} (h : d.totalSectors < 2 ^ 28) (name : List UInt8)
    (part : Nat) : Within 0 d.totalSectors d (fat32InitNamed a d name part).2 := by
  unfold fat32InitNamed
  split
  · exact Within.refl d
  rename_i kind index _
  have hbounds := within_partitionBounds (a := a) h kind index part
  split
  · rename_i q heq
    rw [heq] at hbounds
    exact hbounds
  rename_i start count q heq
  rw [heq] at hbounds
  split
  · exact hbounds
  have htotal : q.totalSectors = d.totalSectors := hbounds.total
  have hread := within_diskReadAbs (a := a) (htotal ▸ h) kind index start
  rw [htotal] at hread
  split
  · rename_i r hr
    rw [hr] at hread
    exact hbounds.trans hread
  · rename_i bs r hr
    rw [hr] at hread
    exact hbounds.trans hread

theorem Board.Sound.step (h : b.Sound) (call : DiskCall) : (b.step a call).Sound := by
  have hkeep : ∀ {lo hi : Nat} {d : Drive σ}, Within lo hi b.drive d →
      Board.Sound { b with drive := d } := fun g =>
    ⟨h.drive.within g, fun fs hfs => g.total ▸ h.mounts fs hfs⟩
  cases call with
  | mount name part =>
    have hin := within_initNamed (a := a) h.drive.small name part
    simp only [Board.step]
    split
    · rename_i fs d heq
      rw [heq] at hin
      refine ⟨h.drive.within hin, fun fs' hfs => ?_⟩
      rw [hin.total]
      rcases List.mem_append.mp hfs with hfs | hfs
      · exact h.mounts fs' hfs
      · obtain rfl := List.mem_singleton.mp hfs
        have hparts := h.drive.parts 0
        have hsmall := h.drive.small
        have hend := (initNamed_some (by omega) heq).2.2
        omega
    · rename_i d heq
      rw [heq] at hin
      exact hkeep hin
  | driver k op =>
    simp only [Board.step]
    split
    · rename_i fs hfs
      have hend := h.mounts fs (List.mem_of_getElem? hfs)
      have hsmall := h.drive.small
      exact hkeep (driver_inPart (by omega) op b.drive)
    · exact h
  | ioctl index req =>
    simp only [Board.step]
    split
    · have hparts := h.drive.parts index
      have hsmall := h.drive.small
      exact hkeep (ioctl_inPart (by omega) req)
    · exact h

theorem Board.Sound.isolated (h : b.Sound) (call : DiskCall) : Isolated b (b.step a call) call := by
  have hsmall := h.drive.small
  cases call with
  | mount name part => trivial
  | driver k op =>
    intro fs hfs
    have hend := h.mounts fs (List.mem_of_getElem? hfs)
    refine ⟨hend, ?_⟩
    simp only [Board.step, hfs]
    exact driver_inPart (by omega) op b.drive
  | ioctl index req =>
    intro hnode
    have hparts := h.drive.parts index
    refine ⟨hparts, ?_⟩
    simp only [Board.step, hnode, if_true]
    exact ioctl_inPart (by omega) req

theorem sound_boot (a : Ata σ) (dev : σ) {reported : Nat} (hrep : reported < 2 ^ 28) :
    (Board.boot a dev reported).Sound := ⟨sound_diskInit a dev hrep, nofun⟩

theorem sound_calls : ∀ (calls : List DiskCall) {b : Board σ}, b.Sound →
    (calls.foldl (Board.step a) b).Sound := by
  intro calls
  induction calls with
  | nil => exact fun h => h
  | cons call calls ih => exact fun h => ih (h.step call)

theorem partition_isolation (a : Ata σ) (dev : σ) (reported : Nat) (hrep : reported < 2 ^ 28)
    (calls : List DiskCall) (call : DiskCall) :
    Isolated (calls.foldl (Board.step a) (Board.boot a dev reported))
      ((calls.foldl (Board.step a) (Board.boot a dev reported)).step a call) call :=
  (sound_calls calls (sound_boot a dev hrep)).isolated call

private def firstMount : List DiskCall := [.mount disk0 0]

private def allocCall : DiskCall :=
  .driver 0 ((readBootSector fat32DiskAta 0 0 1000 (bootSector 8)).fat32AllocCluster.bind
    fun _ => .done ())

set_option maxRecDepth 8000 in
theorem partition_isolation_mounted :
    (firstMount.foldl (Board.step (stamped (bootSector 8)))
      (Board.boot (stamped (bootSector 8)) () 1000)).mounts.length = 1 ∧
    Isolated
      (firstMount.foldl (Board.step (stamped (bootSector 8)))
        (Board.boot (stamped (bootSector 8)) () 1000))
      ((firstMount.foldl (Board.step (stamped (bootSector 8)))
        (Board.boot (stamped (bootSector 8)) () 1000)).step (stamped (bootSector 8)) allocCall)
      allocCall :=
  ⟨rfl, partition_isolation (stamped (bootSector 8)) () 1000 (by decide) firstMount allocCall⟩

end Board

end HouseOS.Fat32
