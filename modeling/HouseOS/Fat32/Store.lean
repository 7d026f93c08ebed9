import HouseOS.Fat32.File
import HouseOS.Fat32.Geometry
import HouseOS.Fat32.Resolve

namespace HouseOS.Fat32

open HouseOS.Disk
open HouseOS.Program
open HouseOS.Word

abbrev Sectors := Nat → List UInt8

structure Store where
  sector : Sectors
  time : Nat

def Sectors.volume (d : Sectors) : Volume := fun r => some (d r)

def Store.tick (s : Store) : Store := { s with time := s.time + 1 }

def Store.put (s : Store) (rel count : Nat) (data : List UInt8) : Store :=
  { s with sector := fun r =>
      if rel ≤ r ∧ r < rel + count then (data.drop ((r - rel) * 512)).take 512 else s.sector r }

def Fat32Fs.unserved (fs : Fat32Fs) (rel count : Nat) : Bool :=
  fs.refuses rel count || decide (fs.diskKind ≠ fat32DiskAta)

-- the `n`th access the driver makes fails where `fails n` says so, and then changes nothing
def Fat32Fs.access (fs : Fat32Fs) (fails : Nat → Bool) (s : Store) :
    SectorReq → Option (List UInt8) × Store
  | .read rel count =>
      if fs.unserved rel count then (none, s)
      else if fails s.time then (none, s.tick)
      else (s.sector.volume.sectors rel count, s.tick)
  | .write rel count data =>
      if fs.unserved rel count then (none, s)
      else if fails s.time then (none, s.tick)
      else (some [], (s.put rel count data).tick)

section Access

variable {fs : Fat32Fs} {fails : Nat → Bool}

theorem volume_sectors_one (v : Volume) (rel : Nat) : v.sectors rel 1 = v rel := by
  simp only [Volume.sectors]
  cases v rel <;> simp

theorem access_read (fs : Fat32Fs) (fails : Nat → Bool) (s : Store) (rel : Nat) :
    (fs.access fails s (.read rel 1)).2.sector = s.sector ∧
      ((fs.access fails s (.read rel 1)).1 = none ∨
        (fs.access fails s (.read rel 1)).1 = some (s.sector rel)) := by
  simp only [Fat32Fs.access, volume_sectors_one]
  split
  · exact ⟨rfl, Or.inl rfl⟩
  split
  · exact ⟨rfl, Or.inl rfl⟩
  · exact ⟨rfl, Or.inr rfl⟩

theorem access_write (fs : Fat32Fs) (fails : Nat → Bool) (s : Store) (rel : Nat)
    {data : List UInt8} (hdata : data.length = 512) :
    (fs.access fails s (.write rel 1 data)).1 = none ∧
        (fs.access fails s (.write rel 1 data)).2.sector = s.sector ∨
      (fs.access fails s (.write rel 1 data)).1 = some [] ∧
        (fs.access fails s (.write rel 1 data)).2.sector = Function.update s.sector rel data := by
  simp only [Fat32Fs.access]
  split
  · exact Or.inl ⟨rfl, rfl⟩
  split
  · exact Or.inl ⟨rfl, rfl⟩
  · refine Or.inr ⟨rfl, funext fun r => ?_⟩
    simp only [Store.tick, Store.put, Function.update_apply]
    by_cases hr : r = rel
    · subst hr
      rw [if_pos ⟨le_rfl, Nat.lt_succ_self r⟩, if_pos rfl, Nat.sub_self, Nat.zero_mul, List.drop_zero,
        List.take_of_length_le (by omega)]
    · rw [if_neg (by omega), if_neg hr]

theorem access_served (hfails : ∀ t, fails t = false) (s : Store) {rel : Nat}
    (hserved : fs.unserved rel 1 = false) :
    (fs.access fails s (.read rel 1)).1 = some (s.sector rel) ∧
      ∀ data, (fs.access fails s (.write rel 1 data)).1 = some [] := by
  simp only [Fat32Fs.access, hserved, hfails, volume_sectors_one]
  exact ⟨rfl, fun _ => rfl⟩

end Access

namespace Fat32Fs

section PutEntry

variable {sec : List UInt8} {off off' v : Nat}

theorem byteAt_set (sec : List UInt8) (i j : Nat) (x : UInt8) :
    byteAt (sec.set i x) j = if i = j ∧ j < sec.length then x.toNat else byteAt sec j := by
  simp only [byteAt, List.getD_eq_getElem?_getD, List.getElem?_set]
  by_cases hij : i = j
  · subst hij
    by_cases hi : i < sec.length
    · simp [hi]
    · simp [hi]
  · simp [hij]

@[simp]
theorem putEntry_length : (putEntry sec off v).length = sec.length := by simp [putEntry]

theorem rdLe32_putEntry (h : off + 4 ≤ sec.length) :
    rdLe32 (putEntry sec off v) off = rdLe32 sec off / 2 ^ 28 * 2 ^ 28 + v % 2 ^ 28 := by
  have hcur := rdLe32_lt sec off
  have h₀ : off < sec.length := by omega
  have h₁ : off + 1 < sec.length := by omega
  have h₂ : off + 2 < sec.length := by omega
  have h₃ : off + 3 < sec.length := by omega
  rw [putEntry]
  generalize hw : rdLe32 sec off / 2 ^ 28 * 2 ^ 28 + v % 2 ^ 28 = cur
  have hlt : cur < 2 ^ 32 := by omega
  simp only [rdLe32, byteAt_set, List.length_set, h₀, h₁, h₂, h₃, UInt8.toNat_ofNat', and_true,
    Nat.add_eq_left, Nat.left_eq_add, if_true]
  simp
  omega

theorem rdLe32_putEntry_ne (h : off' + 4 ≤ off ∨ off + 4 ≤ off') :
    rdLe32 (putEntry sec off v) off' = rdLe32 sec off' := by
  rw [putEntry]
  simp only [rdLe32, byteAt_set]
  rw [if_neg (by omega), if_neg (by omega), if_neg (by omega), if_neg (by omega),
    if_neg (by omega), if_neg (by omega), if_neg (by omega), if_neg (by omega),
    if_neg (by omega), if_neg (by omega), if_neg (by omega), if_neg (by omega),
    if_neg (by omega), if_neg (by omega), if_neg (by omega), if_neg (by omega)]

end PutEntry

def wordSector (fs : Fat32Fs) (j c : Nat) : Nat :=
  fs.reservedSectors + j * fs.fatSizeSectors + c / 128

def word (fs : Fat32Fs) (d : Sectors) (j c : Nat) : Nat :=
  rdLe32 (d (fs.wordSector j c)) (c % 128 * 4)

def entry (fs : Fat32Fs) (d : Sectors) (c : Nat) : Nat := fs.word d 0 c % 2 ^ 28

def InFat (fs : Fat32Fs) (c : Nat) : Prop := c < 128 * fs.fatSizeSectors

-- the layout of a volume the driver has accepted: room for an entry of each cluster in every FAT,
-- and no cluster number that means the end of a chain
structure Laid (fs : Fat32Fs) : Prop where
  accepted : fs.Accepted
  covers : fs.FatCovers
  bytes : fs.bytesPerSector = 512
  ata : fs.diskKind = fat32DiskAta
  few : fs.fat32MaxCluster < 0x0FFFFFF8

def IsCluster (fs : Fat32Fs) (c : Nat) : Prop := 2 ≤ c ∧ c ≤ fs.fat32MaxCluster

section Layout

variable {fs : Fat32Fs} {c c' i i' j j' : Nat}

theorem Laid.served (h : fs.Laid) {r : Nat} (hr : r < fs.partTotalSectors) :
    fs.unserved r 1 = false := by
  rw [unserved, refuses_false h.accepted.total hr, h.ata]
  rfl

theorem Laid.inFat (h : fs.Laid) (hc : fs.IsCluster c) : fs.InFat c := by
  have hfew := h.few
  obtain ⟨_, hmax⟩ := hc
  rcases h.covers.2 with hcov | hcov
  · exact lt_of_le_of_lt hmax hcov
  · rw [InFat]
    omega

theorem Laid.not_eoc (h : fs.Laid) (hc : fs.IsCluster c) : isEoc c = false := by
  have hfew := h.few
  have hmax := hc.2
  simp only [isEoc, decide_eq_false_iff_not]
  omega

theorem Laid.mul_four (h : fs.Laid) (hc : fs.IsCluster c) : mul32 c 4 = c * 4 := by
  have hfew := h.few
  have hmax := hc.2
  exact Nat.mod_eq_of_lt (by omega)

theorem InFat.sector_lt (hc : fs.InFat c) : c / 128 < fs.fatSizeSectors := by
  rw [InFat] at hc
  omega

theorem Laid.fatSector_eq (h : fs.Laid) (hj : j < fs.numFats) (hc : fs.IsCluster c) :
    fs.fatSector j (mul32 c 4 / 512) = fs.wordSector j c := by
  have hx := (h.inFat hc).sector_lt
  have hdiv : mul32 c 4 / 512 = c / 128 := by
    rw [h.mul_four hc]
    omega
  rw [hdiv, (Fat32Fs.fatSector_eq h.accepted h.covers hj hx).1, wordSector]

theorem Laid.fatOffset_eq (h : fs.Laid) (hc : fs.IsCluster c) :
    mul32 c 4 % 512 = c % 128 * 4 := by
  rw [h.mul_four hc]
  omega

theorem Laid.wordSector_lt (h : fs.Laid) (hj : j < fs.numFats) (hc : fs.InFat c) :
    fs.wordSector j c < fs.dataStartLba :=
  (Fat32Fs.fatSector_eq h.accepted h.covers hj hc.sector_lt).2

theorem Laid.data_lt_total (h : fs.Laid) : fs.dataStartLba < fs.partTotalSectors :=
  h.accepted.room

theorem wordSector_inj (hc : fs.InFat c) (hc' : fs.InFat c')
    (h : fs.wordSector j c = fs.wordSector j' c') : j = j' ∧ c / 128 = c' / 128 := by
  have hx := hc.sector_lt
  have hx' := hc'.sector_lt
  simp only [wordSector] at h
  have hpos : 0 < fs.fatSizeSectors := by omega
  have hdiv : ∀ k x, x < fs.fatSizeSectors → (k * fs.fatSizeSectors + x) / fs.fatSizeSectors = k := by
    intro k x hx
    rw [Nat.add_comm, Nat.add_mul_div_right _ _ hpos, Nat.div_eq_of_lt hx, Nat.zero_add]
  have hj : j = j' := by
    rw [← hdiv j _ hx, ← hdiv j' _ hx']
    congr 1
    omega
  subst hj
  exact ⟨rfl, by omega⟩

def clusterSector (fs : Fat32Fs) (c i : Nat) : Nat :=
  fs.dataStartLba + (c - 2) * fs.sectorsPerCluster + i

theorem Laid.clusterSector_lt (h : fs.Laid) (hc : fs.IsCluster c) (hi : i < fs.sectorsPerCluster) :
    fs.clusterSector c i < fs.partTotalSectors := by
  have hin := h.accepted.clusters hc.1 hc.2
  rw [clusterSector]
  omega

theorem Laid.clusterSector_eq (h : fs.Laid) (hc : fs.IsCluster c) (hi : i < fs.sectorsPerCluster) :
    add32 (fs.fat32ClusterToRelLba c) i = fs.clusterSector c i := by
  have hlt := h.clusterSector_lt hc hi
  have htotal := h.accepted.total
  rw [clusterSector] at hlt
  rw [h.accepted.clusterSectors hc.1 hc.2, add32_eq (by omega), clusterSector]

theorem clusterSector_inj (hc : 2 ≤ c) (hc' : 2 ≤ c') (hi : i < fs.sectorsPerCluster)
    (hi' : i' < fs.sectorsPerCluster) (h : fs.clusterSector c i = fs.clusterSector c' i') :
    c = c' ∧ i = i' := by
  have hpos : 0 < fs.sectorsPerCluster := by omega
  simp only [clusterSector] at h
  have hdiv : ∀ k x, x < fs.sectorsPerCluster →
      (k * fs.sectorsPerCluster + x) / fs.sectorsPerCluster = k := by
    intro k x hx
    rw [Nat.add_comm, Nat.add_mul_div_right _ _ hpos, Nat.div_eq_of_lt hx, Nat.zero_add]
  have hk : c - 2 = c' - 2 := by
    rw [← hdiv (c - 2) i hi, ← hdiv (c' - 2) i' hi']
    congr 1
    omega
  rw [hk] at h
  exact ⟨by omega, by omega⟩

theorem Laid.clusterSector_ne_word (h : fs.Laid) (hj : j < fs.numFats) (hc' : fs.InFat c') :
    fs.clusterSector c i ≠ fs.wordSector j c' := by
  have hlt := h.wordSector_lt hj hc'
  rw [clusterSector]
  omega

end Layout

section Update

variable {fs : Fat32Fs} {d : Sectors} {c c' i i' j j' v : Nat}

theorem word_put (h : fs.Laid) (hsec : ∀ r, (d r).length = 512) (hc : fs.IsCluster c)
    (hc' : fs.InFat c') :
    fs.word (Function.update d (fs.wordSector j c)
        (putEntry (d (fs.wordSector j c)) (c % 128 * 4) v)) j' c' =
      if j' = j ∧ c' = c then fs.word d j c / 2 ^ 28 * 2 ^ 28 + v % 2 ^ 28 else fs.word d j' c' := by
  have hin := h.inFat hc
  rw [word, Function.update_apply]
  by_cases hsame : fs.wordSector j' c' = fs.wordSector j c
  · obtain ⟨rfl, hdiv⟩ := wordSector_inj hc' hin hsame
    rw [if_pos hsame]
    by_cases heq : c' = c
    · subst heq
      rw [if_pos ⟨rfl, rfl⟩, rdLe32_putEntry (by rw [hsec]; omega), word]
    · rw [if_neg (fun h => heq h.2), rdLe32_putEntry_ne (by omega), word, hsame]
  · rw [if_neg hsame, if_neg, word]
    rintro ⟨rfl, rfl⟩
    exact hsame rfl

theorem word_update_data (h : fs.Laid) (hj : j < fs.numFats) (hc' : fs.InFat c')
    (x : List UInt8) :
    fs.word (Function.update d (fs.clusterSector c i) x) j c' = fs.word d j c' := by
  rw [word, Function.update_of_ne (h.clusterSector_ne_word hj hc').symm, word]

theorem Laid.fat_pos (h : fs.Laid) : 0 < fs.numFats := h.accepted.fatsPos

end Update

end Fat32Fs

end HouseOS.Fat32
