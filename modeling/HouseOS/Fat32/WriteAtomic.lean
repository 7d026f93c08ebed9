import HouseOS.Fat32.Reader

namespace HouseOS.Fat32

open HouseOS.Components
open HouseOS.Disk
open HouseOS.Program
open HouseOS.Program.Prog
open HouseOS.Word

-- the clusters in use are chained to one another, the FATs agree,
-- and what a path denotes has its first cluster in use, if it has one
structure WellFormed (fs : Fat32Fs) (used : Nat → Prop) (d : Sectors) : Prop where
  laid : fs.Laid
  length : ∀ r, (d r).length = 512
  copies : ∀ j < fs.numFats, ∀ c, fs.InFat c → fs.word d j c % 2 ^ 28 = fs.entry d c
  clusters : ∀ c, used c → fs.IsCluster c
  chain : ∀ c, used c → isEoc (fs.entry d c) = true ∨ used (fs.entry d c)
  root : used fs.rootCluster
  entries : ∀ names f, Denotes fs d.volume fs.rootFound names f →
    f.node.firstCluster = 0 ∨ used f.node.firstCluster

structure IsFile (fs : Fat32Fs) (d : Sectors) (path : Path) (f : Found) : Prop where
  absolute : path.head? = some slash
  denotes : Denotes fs d.volume fs.rootFound (components slash path) f
  file : f.isDir = false

def Reads (fs : Fat32Fs) (d : Sectors) (junk : Found) (path : Path) (size : Nat)
    (bytes : List UInt8) : Prop :=
  ∃ fuel, (fs.fat32ReadOp fuel junk path size).look (fs.reply d.volume) = some (some bytes)

-- the value of a call that returns a 32-bit signed size
def ssize : Option Nat → Int
  | none => -1
  | some n => if n < 2 ^ 31 then n else n - 2 ^ 32

theorem ssize_eq_neg_one {r : Option Nat} (h : ∀ n, r = some n → n + 1 < 2 ^ 32)
    (hr : ssize r = -1) : r = none := by
  cases r with
  | none => rfl
  | some n =>
    have hn := h n rfl
    simp only [ssize] at hr
    split at hr <;> omega

section Files

variable {fs : Fat32Fs} {used : Nat → Prop} {d d' : Sectors} {path : Path} {f : Found}

theorem WellFormed.used_entry (h : WellFormed fs used d) {c : Nat} (hc : used c) :
    fs.entry d c ≠ 0 := by
  intro hzero
  rcases h.chain c hc with heoc | hused
  · rw [hzero] at heoc
    cases heoc
  · exact absurd (h.clusters _ hused).1 (by rw [hzero]; decide)

theorem rootFound_isDir (fs : Fat32Fs) : fs.rootFound.isDir = true := by
  have hattr : attrDir &&& attrDir ≠ 0 := by decide
  exact decide_eq_true hattr

theorem IsFile.names_ne (h : IsFile fs d path f) : components slash path ≠ [] := by
  intro hnil
  have hden := h.denotes
  rw [hnil] at hden
  obtain rfl : f = fs.rootFound := hden
  have hdir := rootFound_isDir fs
  rw [h.file] at hdir
  cases hdir

theorem IsFile.resolves (h : IsFile fs d path f) {junk g : Found} :
    Resolves fs d.volume junk path g ↔ g = f := by
  have hne := h.names_ne
  have hroot : path ≠ [slash] := by
    rintro rfl
    exact hne (by simp)
  have hleads := h.denotes.leads
  rw [clusterOf_rootFound, leads_of_cons hne junk] at hleads
  rw [resolves_iff]
  constructor
  · rintro ⟨-, ⟨heq, -⟩ | ⟨-, hg⟩⟩
    · exact absurd heq hroot
    · exact hg.unique hleads
  · rintro rfl
    exact ⟨h.absolute, Or.inr ⟨hroot, hleads⟩⟩

theorem IsFile.reads (h : IsFile fs d path f) {junk : Found} {size : Nat} {bytes : List UInt8} :
    Reads fs d junk path size bytes ↔
      (fs.readFound f size).look (fs.reply d.volume) = some (some bytes) := by
  constructor
  · rintro ⟨fuel, hread⟩
    rw [Fat32Fs.fat32ReadOp, look_bind] at hread
    cases hres : (fs.fat32Resolve fuel junk path).look (fs.reply d.volume) with
    | none =>
      rw [hres] at hread
      cases hread
    | some found =>
      rw [hres] at hread
      cases found with
      | none => cases hread
      | some g =>
        obtain rfl := h.resolves.mp ⟨fuel, hres⟩
        exact hread
  · intro hread
    obtain ⟨fuel, hres⟩ := h.resolves.mpr rfl
    refine ⟨fuel, ?_⟩
    rw [Fat32Fs.fat32ReadOp, look_bind, hres]
    exact hread

theorem IsFile.kept (hwf : WellFormed fs used d) (hs : fs.Same used d d') (h : IsFile fs d path f) :
    IsFile fs d' path f ∧ ∀ junk size bytes,
      Reads fs d' junk path size bytes ↔ Reads fs d junk path size bytes := by
  have hafter : IsFile fs d' path f :=
    ⟨h.absolute, Fat32Fs.denotes_same hwf.laid hs hwf.root hwf.entries h.denotes, h.file⟩
  refine ⟨hafter, fun junk size bytes => ?_⟩
  rw [hafter.reads, h.reads, Fat32Fs.look_readFound hwf.laid hs (hwf.entries _ f h.denotes)]

theorem WellFormed.same_of_borrowed (h : WellFormed fs used d) {N : Nat → Prop}
    (hb : fs.Borrowed d N d') : fs.Same used d d' := by
  have hnot : ∀ c, used c → ¬ N c := fun c hc hN => h.used_entry hc (hb.free c hN).2
  refine ⟨h.clusters, h.chain, fun c hc => ?_, fun c hc => ?_⟩
  · exact hb.entry_eq h.laid (h.laid.inFat (h.clusters c hc)) (hnot c hc)
  · exact hb.data c (h.clusters c hc) (hnot c hc)

end Files

section Write

variable {fs : Fat32Fs} {fails : Nat → Bool} {s : Store} {path : Path} {junk f : Found} {fuel : Nat}

theorem IsFile.resolve_finds {fuel : Nat} {junk : Found} (hf : IsFile fs s.sector path f) :
    Ensures (fs.access fails) (fs.fat32Resolve fuel junk path) s fun r s' =>
      s'.sector = s.sector ∧ ∀ n, r = some (some n) → n = f := by
  have hreads := Fat32Fs.asks_resolve fs fuel junk path
  refine ⟨Fat32Fs.run_reads fs fails hreads, fun n hn => ?_⟩
  rcases givesUp_run (Fat32Fs.access_replies fs fails) hreads (Fat32Fs.givesUp_resolve fs fuel junk path) rfl with hlook | hnone
  · rw [hn] at hlook
    exact hf.resolves.mp ⟨fuel, hlook.symm⟩
  · rw [hn] at hnone
    cases hnone

theorem reply_ne_none {fs : Fat32Fs} {v : Volume} {rel : Nat}
    (h : fs.reply v (.read rel 1) ≠ none) : fs.unserved rel 1 = false := by
  simp only [Fat32Fs.reply] at h
  split at h
  · exact absurd rfl h
  · rename_i hserved
    rw [Fat32Fs.unserved, Bool.or_eq_false_iff, decide_eq_false_iff_not]
    rw [not_or, Bool.not_eq_true] at hserved
    exact hserved

theorem found_place (hno : NoFault fails) (hne : components slash path ≠ []) {n : Found}
    (h : ((fs.fat32Resolve fuel junk path).run (fs.access fails) s).1 = some (some n)) :
    fs.unserved n.entryRelSector 1 = false ∧ misplaced n.entryOffset = false := by
  rw [Fat32Fs.run_eq_look hno (Fat32Fs.asks_resolve fs fuel junk path)] at h
  have hres : Resolves fs s.sector.volume junk path n := ⟨fuel, h⟩
  rcases (resolves_iff.mp hres).2 with ⟨rfl, -⟩ | ⟨-, hleads⟩
  · exact absurd (by simp) hne
  · obtain ⟨name, hhit⟩ := hleads.isHit hne
    obtain ⟨hle, hmod⟩ := hhit.place
    refine ⟨reply_ne_none hhit.sector, ?_⟩
    rw [misplaced, Bool.or_eq_false_iff, decide_eq_false_iff_not, decide_eq_false_iff_not]
    exact ⟨by omega, fun h => h hmod⟩

theorem writeOp_ensures {used : Nat → Prop} (hwf : WellFormed fs used s.sector)
    (data : List UInt8) :
    Ensures (fs.access fails) (fs.fat32WriteOp fuel junk path data) s fun r s' =>
      (r = some none → ∃ N, fs.Borrowed s.sector N s'.sector) ∧
      (∀ n, r = some (some n) → n = data.length) ∧
      (NoFault fails → components slash path ≠ [] → r = some none →
        fs.Restored s.sector s'.sector) := by
  rw [Fat32Fs.fat32WriteOp]
  have hsame := Fat32Fs.run_reads fs fails (s := s) (Fat32Fs.asks_resolve fs fuel junk path)
  refine ensures_bind (Q := fun r s' => s'.sector = s.sector ∧
    ∀ n, r = some (some n) → NoFault fails → components slash path ≠ [] →
      fs.unserved n.entryRelSector 1 = false ∧ misplaced n.entryOffset = false)
    ⟨hsame, fun n hn hno hne => found_place hno hne hn⟩ fun r s₁ ⟨hsame, hplace⟩ => ?_
  rcases r with _ | _ | n
  · exact ensures_done ⟨nofun, nofun, fun _ _ => nofun⟩
  · refine ensures_done ⟨fun _ => ⟨fun _ => False, ?_⟩, nofun, fun _ _ _ => ?_⟩
    · rw [hsame]
      exact Fat32Fs.Borrowed.refl hwf.length
    · rw [hsame]
      exact Fat32Fs.Restored.refl s.sector
  · rw [← hsame] at hwf ⊢
    refine ⟨Fat32Fs.writeFound_borrowed hwf.laid hwf.length n data, ?_, fun hno hne => ?_⟩
    · exact Fat32Fs.writeFound_length fs fails s₁ n data
    · obtain ⟨hserved, hoff⟩ := hplace n rfl hno hne
      exact Fat32Fs.writeFound_restored hwf.laid hno hwf.length hwf.copies hserved hoff data

-- the data fits an address space that also holds the driver
theorem write_atomic {used : Nat → Prop} (hwf : WellFormed fs used s.sector) {data : List UInt8}
    (hdata : data.length + 1 < 2 ^ 32) {r : Option Nat} {s' : Store}
    (hrun : (fs.fat32WriteOp fuel junk path data).run (fs.access fails) s = (some r, s'))
    (hr : ssize r = -1) :
    (∀ q f, IsFile fs s.sector q f → IsFile fs s'.sector q f ∧ ∀ junk size bytes,
      Reads fs s'.sector junk q size bytes ↔ Reads fs s.sector junk q size bytes) ∧
    (NoFault fails → components slash path ≠ [] →
      (∀ j < fs.numFats, ∀ c, fs.InFat c → fs.word s'.sector j c = fs.word s.sector j c) ∧
      ∀ c, used c → ∀ i < fs.sectorsPerCluster,
        s'.sector (fs.clusterSector c i) = s.sector (fs.clusterSector c i)) := by
  have hens : Ensures (fs.access fails) (fs.fat32WriteOp fuel junk path data) s _ :=
    writeOp_ensures hwf data
  rw [Ensures, hrun] at hens
  obtain ⟨hborrowed, hlength, hrestored⟩ := hens
  obtain rfl := ssize_eq_neg_one (fun n hn => by rw [hlength n (by rw [hn])]; exact hdata) hr
  refine ⟨fun q f hf => ?_, fun hno hne => ?_⟩
  · obtain ⟨N, hb⟩ := hborrowed rfl
    exact hf.kept hwf (hwf.same_of_borrowed hb)
  · have hres := hrestored hno hne rfl
    exact ⟨hres.words, fun c hc => hres.clusters c (hwf.clusters c hc) (hwf.used_entry hc)⟩

end Write

section Example

-- a volume of three clusters: 2, the root directory, and 3, of the file `a`, are in use
def smallFs : Fat32Fs := { twoFiles with partTotalSectors := 36 }

def smallFat : List UInt8 :=
  List.replicate 8 0 ++ [255, 255, 255, 15, 255, 255, 255, 15] ++ List.replicate 496 0

def smallRoot : List UInt8 := (shortEntry 65 3).take 28 ++ le32 3 ++ List.replicate 480 0

def smallVolume : Sectors := fun r =>
  if r = 32 then smallFat else if r = 33 then smallRoot
  else if r = 34 then block [7, 8, 9] else List.replicate 512 0

def fileA : Found := ⟨⟨32, 3, 3, [97]⟩, 2, 33, 0⟩

theorem smallRoot_scan (name : Name) : findSector 2 name 33 smallRoot 16 0 noLfn =
    if nameEqCi [97] name then .hit fileA else .stop := by
  have hname : decodedName noLfn smallRoot 0 = [97] := by decide +kernel
  have hentry : findEntry 2 name 33 smallRoot 0 noLfn =
      if nameEqCi [97] name then .hit fileA else .next noLfn := by
    rw [findEntry, if_neg (by decide +kernel), if_neg (by decide +kernel),
      if_neg (by decide +kernel), if_neg (by decide +kernel), hname]
    rfl
  have hnext : findEntry 2 name 33 smallRoot 32 noLfn = .stop := by
    rw [findEntry, if_pos (by decide +kernel)]
  rw [findSector, hentry]
  cases nameEqCi [97] name with
  | true => rfl
  | false =>
    show findSector 2 name 33 smallRoot 15 32 noLfn = .stop
    rw [findSector, hnext]

theorem smallVolume_finds {name : Name} {f : Found}
    (h : Finds smallFs smallVolume.volume 2 name f) : f = fileA := by
  have hread : smallFs.reply smallVolume.volume (.read 33 1) = some smallRoot := by decide +kernel
  have hrel : add32 (smallFs.fat32ClusterToRelLba 2) 0 = 33 := by decide
  have hspc : smallFs.sectorsPerCluster = 1 := rfl
  obtain ⟨fuel, h⟩ := h
  cases fuel with
  | zero => cases h
  | succ fuel =>
    rw [Fat32Fs.fat32DirFind, findChain, if_neg (by decide), look_bind, hspc, findCluster, look_ask,
      hrel, hread] at h
    simp only [smallRoot_scan] at h
    cases hname : nameEqCi [97] name with
    | true =>
      rw [hname] at h
      cases h
      rfl
    | false =>
      rw [hname] at h
      cases h

theorem smallVolume_wellFormed :
    WellFormed smallFs (fun c => c = 2 ∨ c = 3) smallVolume where
  laid :=
    { accepted := ⟨⟨by decide, by decide, by decide, by decide, by decide⟩, rfl, by decide, by decide,
        by decide, by decide, by decide⟩
      covers := by decide
      bytes := rfl
      ata := rfl
      few := by decide }
  length r := by
    rw [smallVolume]
    split
    · decide +kernel
    split
    · decide +kernel
    split
    · exact Fat32Fs.block_length _
    · exact List.length_replicate
  copies j hj c _ := by
    obtain rfl : j = 0 := Nat.lt_one_iff.mp hj
    rfl
  clusters c hc := by
    rcases hc with rfl | rfl
    · exact ⟨by decide, by decide⟩
    · exact ⟨by decide, by decide⟩
  chain c hc := by
    rcases hc with rfl | rfl
    · exact Or.inl (by decide +kernel)
    · exact Or.inl (by decide +kernel)
  root := Or.inl rfl
  entries names f hf := by
    cases names with
    | nil =>
      obtain rfl : f = smallFs.rootFound := hf
      exact Or.inr (Or.inl rfl)
    | cons name names =>
      obtain ⟨-, g, hfind, hrest⟩ := hf
      obtain rfl := smallVolume_finds hfind
      cases names with
      | nil =>
        obtain rfl : f = fileA := hrest
        exact Or.inr (Or.inr rfl)
      | cons name names => exact absurd hrest.1 (by decide)

theorem fileA_isFile : IsFile smallFs smallVolume [slash, 97] fileA where
  absolute := rfl
  denotes := ⟨rootFound_isDir smallFs, fileA, ⟨1, by decide +kernel⟩, rfl⟩
  file := by decide

-- the sixth access, which marks cluster 4 in the FAT, fails
def refusedWrite : Option (Option Nat) × Store :=
  (smallFs.fat32WriteOp 2 fileA [slash, 97] [1, 2, 3]).run
    (smallFs.access fun t => decide (t = 5)) ⟨smallVolume, 0⟩

-- the file keeps its cluster until the new ones are written, so there is one for two
def fullWrite : Option (Option Nat) × Store :=
  (smallFs.fat32WriteOp 2 fileA [slash, 97] (List.replicate 600 1)).run
    (smallFs.access fun _ => false) ⟨smallVolume, 0⟩

theorem write_atomic_refused : refusedWrite.1 = some none ∧ fullWrite.1 = some none ∧
    Reads smallFs smallVolume fileA [slash, 97] 3 [7, 8, 9] ∧
    Reads smallFs refusedWrite.2.sector fileA [slash, 97] 3 [7, 8, 9] ∧
    (∀ j < smallFs.numFats, ∀ c, smallFs.InFat c →
      smallFs.word fullWrite.2.sector j c = smallFs.word smallVolume j c) ∧
    ∀ i < smallFs.sectorsPerCluster,
      fullWrite.2.sector (smallFs.clusterSector 3 i) = smallVolume (smallFs.clusterSector 3 i) := by
  have hrefused : refusedWrite.1 = some none := by decide +kernel
  have hfull : fullWrite.1 = some none := by decide +kernel
  have hreads : Reads smallFs smallVolume fileA [slash, 97] 3 [7, 8, 9] := ⟨2, by decide +kernel⟩
  have hkept := (write_atomic (s := ⟨smallVolume, 0⟩) smallVolume_wellFormed (by decide)
    (Prod.ext hrefused rfl) rfl).1 _ _ fileA_isFile
  have hlength : (List.replicate 600 (1 : UInt8)).length + 1 < 2 ^ 32 := by
    rw [List.length_replicate]
    decide
  have hrun : fullWrite = (some none, fullWrite.2) := by rw [← hfull]
  have hrestored := (write_atomic (s := ⟨smallVolume, 0⟩) smallVolume_wellFormed hlength hrun rfl).2
    (fun _ => rfl) (by decide)
  exact ⟨hrefused, hfull, hreads, (hkept.2 _ _ _).mpr hreads, hrestored.1, hrestored.2 3 (Or.inr rfl)⟩

end Example

end HouseOS.Fat32
