import HouseOS.Fat32.Model

namespace HouseOS.Fat32

open HouseOS.Disk
open HouseOS.Program
open HouseOS.Word

section Bytes

variable (bytes : List UInt8) (i : Nat)

theorem byteAt_lt : byteAt bytes i < 2 ^ 8 := UInt8.toNat_lt _

theorem rdLe16_lt : rdLe16 bytes i < 2 ^ 16 := by
  have h0 := byteAt_lt bytes i
  have h1 := byteAt_lt bytes (i + 1)
  simp only [rdLe16]
  omega

theorem rdLe32_lt : rdLe32 bytes i < 2 ^ 32 := by
  have h0 := byteAt_lt bytes i
  have h1 := byteAt_lt bytes (i + 1)
  have h2 := byteAt_lt bytes (i + 2)
  have h3 := byteAt_lt bytes (i + 3)
  simp only [rdLe32]
  omega

end Bytes

namespace Fat32Fs

-- the fields as the types of fat32_fs_t bound them
structure Words (fs : Fat32Fs) : Prop where
  total : fs.partTotalSectors < 2 ^ 32
  cluster : fs.sectorsPerCluster < 2 ^ 8
  reserved : fs.reservedSectors < 2 ^ 16
  fats : fs.numFats < 2 ^ 8
  size : fs.fatSizeSectors < 2 ^ 32

structure Accepted (fs : Fat32Fs) : Prop extends Words fs where
  start : fs.fatStartLba = fs.reservedSectors
  data : fs.dataStartLba = add32 fs.reservedSectors (mul32 fs.numFats fs.fatSizeSectors)
  clusterPos : 0 < fs.sectorsPerCluster
  fatsPos : 0 < fs.numFats
  sizePos : 0 < fs.fatSizeSectors
  room : fs.dataStartLba < fs.partTotalSectors

def TouchesFat (fs : Fat32Fs) : SectorReq → Prop
  | .read rel count => fs.refuses rel count = false →
      fs.reservedSectors ≤ rel ∧ rel + count ≤ fs.dataStartLba
  | .write rel count _ => fs.refuses rel count = false →
      fs.reservedSectors ≤ rel ∧ rel + count ≤ fs.dataStartLba

structure GeometrySound (fs : Fat32Fs) : Prop where
  dataStart : fs.reservedSectors + fs.numFats * fs.fatSizeSectors = fs.dataStartLba
  fits : fs.reservedSectors + fs.numFats * fs.fatSizeSectors < fs.partTotalSectors
  getStays : ∀ c, 2 ≤ c → c ≤ fs.fat32MaxCluster → (fs.fat32FatGet c).Asks fs.TouchesFat
  setStays : ∀ c value, 2 ≤ c → c ≤ fs.fat32MaxCluster →
    (fs.fat32FatSet c value).Asks fs.TouchesFat
  cluster : ∀ c, 2 ≤ c → c ≤ fs.fat32MaxCluster → fs.dataStartLba ≤ fs.fat32ClusterToRelLba c ∧
    fs.fat32ClusterToRelLba c + fs.sectorsPerCluster ≤ fs.partTotalSectors

-- the sizes do not wrap, and one FAT has an entry for every cluster (or for every 32-bit offset)
def FatCovers (fs : Fat32Fs) : Prop :=
  fs.reservedSectors + fs.numFats * fs.fatSizeSectors < 2 ^ 32 ∧
    (fs.fat32MaxCluster < 128 * fs.fatSizeSectors ∨ 2 ^ 23 ≤ fs.fatSizeSectors)

instance (fs : Fat32Fs) : Decidable fs.FatCovers := inferInstanceAs (Decidable (_ ∧ _))

section Sound

variable {fs : Fat32Fs} {c : Nat}

theorem Accepted.noWrap (h : fs.Accepted)
    (hsum : fs.reservedSectors + fs.numFats * fs.fatSizeSectors < 2 ^ 32) :
    fs.dataStartLba = fs.reservedSectors + fs.numFats * fs.fatSizeSectors := by
  have hmul : mul32 fs.numFats fs.fatSizeSectors = fs.numFats * fs.fatSizeSectors :=
    Nat.mod_eq_of_lt (by omega)
  rw [h.data, hmul, add32_eq hsum]

theorem refuses_false (htotal : fs.partTotalSectors < 2 ^ 32) {rel : Nat}
    (hrel : rel < fs.partTotalSectors) : fs.refuses rel 1 = false := by
  have hstop : add32 rel 1 = rel + 1 := add32_eq (by omega)
  simp only [refuses, hstop]
  simp only [Bool.or_eq_false_iff, decide_eq_false_iff_not]
  omega

theorem Accepted.clusters (h : fs.Accepted) (hc : 2 ≤ c) (hmax : c ≤ fs.fat32MaxCluster) :
    fs.dataStartLba + (c - 2) * fs.sectorsPerCluster + fs.sectorsPerCluster ≤
      fs.partTotalSectors := by
  have hroom := h.room
  have hpos := h.clusterPos
  rw [fat32MaxCluster, if_neg (by omega)] at hmax
  have hle : (c - 2 + 1) * fs.sectorsPerCluster ≤ fs.partTotalSectors - fs.dataStartLba :=
    le_trans (Nat.mul_le_mul_right _ (by omega)) (Nat.div_mul_le_self _ _)
  rw [Nat.add_mul, Nat.one_mul] at hle
  omega

theorem Accepted.clusterSectors (h : fs.Accepted) (hc : 2 ≤ c) (hmax : c ≤ fs.fat32MaxCluster) :
    fs.fat32ClusterToRelLba c = fs.dataStartLba + (c - 2) * fs.sectorsPerCluster := by
  have hin := h.clusters hc hmax
  have htotal := h.total
  have hpos := h.clusterPos
  have hroom := h.room
  have hsmall : c < 2 ^ 32 + 2 := by
    have : c - 2 ≤ (c - 2) * fs.sectorsPerCluster := Nat.le_mul_of_pos_right _ hpos
    omega
  have hsub : sub32 c 2 = c - 2 := by
    simp only [sub32]
    omega
  have hmul : mul32 (c - 2) fs.sectorsPerCluster = (c - 2) * fs.sectorsPerCluster :=
    Nat.mod_eq_of_lt (by omega)
  rw [fat32ClusterToRelLba, hsub, hmul, add32_eq (by omega)]

theorem entrySector_lt (hcov : fs.FatCovers) (hmax : c ≤ fs.fat32MaxCluster) :
    mul32 c 4 / 512 < fs.fatSizeSectors := by
  obtain ⟨_, hcov⟩ := hcov
  have hle : mul32 c 4 ≤ c * 4 := Nat.mod_le _ _
  have hlt : mul32 c 4 < 2 ^ 32 := Nat.mod_lt _ (by decide)
  omega

theorem fatSector_eq (h : fs.Accepted) (hcov : fs.FatCovers) {i x : Nat} (hi : i < fs.numFats)
    (hx : x < fs.fatSizeSectors) :
    fs.fatSector i x = fs.reservedSectors + i * fs.fatSizeSectors + x ∧
      fs.reservedSectors + i * fs.fatSizeSectors + x < fs.dataStartLba := by
  have hsum := hcov.1
  have hle : (i + 1) * fs.fatSizeSectors ≤ fs.numFats * fs.fatSizeSectors :=
    Nat.mul_le_mul_right _ (by omega)
  rw [Nat.add_mul, Nat.one_mul] at hle
  have hmul : mul32 i fs.fatSizeSectors = i * fs.fatSizeSectors := Nat.mod_eq_of_lt (by omega)
  refine ⟨?_, ?_⟩
  · have hbase : add32 fs.reservedSectors (i * fs.fatSizeSectors) =
        fs.reservedSectors + i * fs.fatSizeSectors := add32_eq (by omega)
    rw [fatSector, h.start, hmul, hbase, add32_eq (by omega)]
  · rw [h.noWrap hsum]
    omega

theorem fatGet_asks (h : fs.Accepted) (hcov : fs.FatCovers) (hmax : c ≤ fs.fat32MaxCluster) :
    (fs.fat32FatGet c).Asks fs.TouchesFat := by
  unfold fat32FatGet
  split
  · trivial
  have hx := entrySector_lt hcov hmax
  obtain ⟨heq, hlt⟩ := fatSector_eq h hcov h.fatsPos hx
  simp only [fatSector, mul32, Nat.zero_mul, Nat.zero_mod] at heq
  have hsec : add32 fs.fatStartLba (mul32 c 4 / 512) = fs.reservedSectors + mul32 c 4 / 512 := by
    have hsum := hcov.1
    rw [h.start]
    refine add32_eq ?_
    have := h.noWrap hsum
    omega
  refine ⟨?_, ?_⟩
  · intro _
    rw [hsec]
    omega
  · rintro (_ | sec)
    · trivial
    · trivial

theorem fatSetLoop_asks (h : fs.Accepted) (hcov : fs.FatCovers) {fatOff value : Nat}
    (hx : fatOff / 512 < fs.fatSizeSectors) : ∀ (left fatI : Nat), fatI + left ≤ fs.numFats →
    (fs.fatSetLoop fatOff value left fatI).Asks fs.TouchesFat := by
  intro left
  induction left with
  | zero => exact fun _ _ => trivial
  | succ left ih =>
    intro fatI hle
    obtain ⟨heq, hlt⟩ := fatSector_eq h hcov (i := fatI) (by omega) hx
    have hin : fs.reservedSectors ≤ fs.fatSector fatI (fatOff / 512) ∧
        fs.fatSector fatI (fatOff / 512) + 1 ≤ fs.dataStartLba := by
      rw [heq]
      omega
    refine ⟨fun _ => hin, ?_⟩
    rintro (_ | sec)
    · trivial
    refine ⟨fun _ => hin, ?_⟩
    rintro (_ | _)
    · trivial
    · exact ih (fatI + 1) (by omega)

theorem fatSet_asks (h : fs.Accepted) (hcov : fs.FatCovers) (hmax : c ≤ fs.fat32MaxCluster)
    (value : Nat) : (fs.fat32FatSet c value).Asks fs.TouchesFat := by
  unfold fat32FatSet
  split
  · trivial
  · exact fatSetLoop_asks h hcov (entrySector_lt hcov hmax) fs.numFats 0 (by omega)

theorem fatSetLoop_reads {fatOff value : Nat} {P : SectorReq → Prop} : ∀ (left fatI j : Nat),
    (fs.fatSetLoop fatOff value left fatI).Asks P → j < left →
    P (.read (fs.fatSector (fatI + j) (fatOff / 512)) 1) := by
  intro left
  induction left with
  | zero => exact fun _ j _ hj => absurd hj (Nat.not_lt_zero j)
  | succ left ih =>
    rintro fatI j ⟨hread, hrest⟩ hj
    cases j with
    | zero => exact hread
    | succ j =>
      have hnext := ih (fatI + 1) j ((hrest (some [])).2 (some [])) (by omega)
      rwa [Nat.add_assoc, Nat.add_comm 1 j] at hnext

-- the first cluster without an entry shares the first data sector
theorem GeometrySound.covers (h : fs.Accepted) (hs : fs.GeometrySound) : fs.FatCovers := by
  have htotal := h.total
  have hfits := hs.fits
  have hsum : fs.reservedSectors + fs.numFats * fs.fatSizeSectors < 2 ^ 32 := by omega
  refine ⟨hsum, ?_⟩
  by_contra hnot
  obtain ⟨hmax, hsize⟩ := not_or.mp hnot
  have hpos := h.sizePos
  have hfats := h.fatsPos
  have hset := hs.setStays (128 * fs.fatSizeSectors) 0 (by omega) (by omega)
  rw [fat32FatSet, if_neg (by omega)] at hset
  have hoff : mul32 (128 * fs.fatSizeSectors) 4 / 512 = fs.fatSizeSectors := by
    rw [mul32, Nat.mod_eq_of_lt (by omega)]
    omega
  have hlast := fatSetLoop_reads fs.numFats 0 (fs.numFats - 1) hset (by omega)
  rw [hoff, Nat.zero_add] at hlast
  have hmulLe : (fs.numFats - 1) * fs.fatSizeSectors + fs.fatSizeSectors =
      fs.numFats * fs.fatSizeSectors := by
    rw [← Nat.succ_mul, Nat.succ_eq_add_one, Nat.sub_add_cancel hfats]
  have hmul : mul32 (fs.numFats - 1) fs.fatSizeSectors = (fs.numFats - 1) * fs.fatSizeSectors :=
    Nat.mod_eq_of_lt (by omega)
  have hsec : fs.fatSector (fs.numFats - 1) fs.fatSizeSectors = fs.dataStartLba := by
    have hbase : add32 fs.reservedSectors ((fs.numFats - 1) * fs.fatSizeSectors) =
        fs.reservedSectors + (fs.numFats - 1) * fs.fatSizeSectors := add32_eq (by omega)
    rw [fatSector, h.start, hmul, hbase, add32_eq (by omega), ← hs.dataStart]
    omega
  rw [hsec] at hlast
  have hover := (hlast (refuses_false htotal h.room)).2
  omega

theorem geometrySound_of_covers (h : fs.Accepted) (hcov : fs.FatCovers) : fs.GeometrySound where
  dataStart := (h.noWrap hcov.1).symm
  fits := by
    have heq := h.noWrap hcov.1
    have hroom := h.room
    omega
  getStays _ _ hmax := fatGet_asks h hcov hmax
  setStays _ value _ hmax := fatSet_asks h hcov hmax value
  cluster c hc hmax := by
    have hin := h.clusters hc hmax
    rw [h.clusterSectors hc hmax]
    omega

end Sound

end Fat32Fs

section Init

variable {σ : Type} {a : Ata σ} {d d' : Drive σ}

theorem partEntry_some {mbr : List UInt8} {total i : Nat} {e : DiskPart}
    (h : Drive.partEntry mbr total i = some e) :
    0 < e.totalSectors ∧ e.totalSectors < 2 ^ 32 ∧ e.baseLba + e.totalSectors ≤ total := by
  have hs := rdLe32_lt mbr (446 + i * 16 + 8)
  have hc := rdLe32_lt mbr (446 + i * 16 + 12)
  simp only [Drive.partEntry] at h
  split at h
  · cases h
  · cases h
    rename_i hnot
    simp only [add32] at hnot
    dsimp only
    omega

theorem partitionBounds_some {kind index part start count : Nat}
    (hd : (d.parts 0).totalSectors < 2 ^ 32)
    (h : diskPartitionBounds a d kind index part = (some (start, count), d')) :
    0 < count ∧ count < 2 ^ 32 ∧ start + count ≤ (d.parts 0).totalSectors := by
  unfold diskPartitionBounds at h
  split at h
  · cases h
  rename_i total htotal
  have htot : total = (d.parts 0).totalSectors := by
    unfold diskGetTotal Drive.diskGetPartitionInfo at htotal
    split at htotal
    · split at htotal
      · cases htotal
      · exact (Option.some.inj htotal).symm
    · cases htotal
  split at h
  · cases h
  split at h
  · cases h
    omega
  split at h
  · cases h
  split at h
  · cases h
  split at h
  · cases h
  · rename_i mbr _ _ _
    obtain ⟨hmap, _⟩ := Prod.mk.inj h
    obtain ⟨e, he, heq⟩ := Option.map_eq_some_iff.mp hmap
    cases heq
    have := partEntry_some he
    omega

theorem initNamed_some {name : List UInt8} {part : Nat} {fs : Fat32Fs}
    (hd : (d.parts 0).totalSectors < 2 ^ 32) (h : fat32InitNamed a d name part = (some fs, d')) :
    fs.Accepted ∧ fs.diskKind = fat32DiskAta ∧
      fs.partStartLba + fs.partTotalSectors ≤ (d.parts 0).totalSectors := by
  unfold fat32InitNamed at h
  split at h
  · cases h
  rename_i kind index hname
  have hkind : kind = fat32DiskAta := by
    unfold diskNameParse at hname
    split at hname
    · cases hname
      rfl
    · cases hname
  split at h
  · cases h
  rename_i start count d₁ hbounds
  obtain ⟨hpos, hlt, hin⟩ := partitionBounds_some hd hbounds
  split at h
  · cases h
  split at h
  · cases h
  rename_i bs d₂ _
  obtain ⟨hacc, _⟩ := Prod.mk.inj h
  split at hacc
  · rename_i hok
    cases hacc
    simp only [Fat32Fs.accepted, Bool.and_eq_true, decide_eq_true_eq] at hok
    obtain ⟨⟨⟨⟨⟨_, hspc⟩, hfats⟩, hsize⟩, hroom⟩, _⟩ := hok
    exact ⟨⟨⟨hlt, byteAt_lt _ _, rdLe16_lt _ _, byteAt_lt _ _, rdLe32_lt _ _⟩, rfl, rfl,
      Nat.pos_of_ne_zero hspc, Nat.pos_of_ne_zero hfats, Nat.pos_of_ne_zero hsize, hroom⟩, hkind, hin⟩
  · cases hacc

theorem fat32_geometry_sound_iff {name : List UInt8} {part : Nat} {fs : Fat32Fs}
    (hd : (d.parts 0).totalSectors < 2 ^ 32) (h : fat32InitNamed a d name part = (some fs, d')) :
    fs.GeometrySound ↔ fs.FatCovers := by
  have hacc := (initNamed_some hd h).1
  exact ⟨fun hs => hs.covers hacc, Fat32Fs.geometrySound_of_covers hacc⟩

def stamped (bs : List UInt8) : Ata Unit where
  ready _ := (true, ())
  readSector _ _ := (some bs, ())
  writeSector _ _ _ := (true, ())

def bootSector (fatSize : UInt8) : List UInt8 :=
  ((((((((List.replicate 512 0).set 12 2).set 13 1).set 14 32).set 16 2).set 36 fatSize).set 44 2).set
    510 0x55).set 511 0xAA

private def disk (fatSize : UInt8) (total : Nat) : Drive Unit :=
  Drive.diskInit (stamped (bootSector fatSize)) () total

set_option maxRecDepth 8000 in
theorem fat32_geometry_sound_covered :
    ∃ fs d', fat32InitNamed (stamped (bootSector 8)) (disk 8 1000) disk0 0 = (some fs, d') ∧
      fs.GeometrySound := by
  have hinit : fat32InitNamed (stamped (bootSector 8)) (disk 8 1000) disk0 0 = (some _, _) := rfl
  exact ⟨_, _, hinit, (fat32_geometry_sound_iff (by decide) hinit).mpr (by decide)⟩

-- 128 clusters have entries, the disk has room for 966
set_option maxRecDepth 8000 in
theorem small_fat_accepted :
    ∃ fs d', fat32InitNamed (stamped (bootSector 1)) (disk 1 1000) disk0 0 = (some fs, d') ∧
      ¬ fs.GeometrySound := by
  have hinit : fat32InitNamed (stamped (bootSector 1)) (disk 1 1000) disk0 0 = (some _, _) := rfl
  have hacc := (initNamed_some (by decide) hinit).1
  exact ⟨_, _, hinit, fun h => absurd (h.covers hacc) (by decide)⟩

end Init

end HouseOS.Fat32
