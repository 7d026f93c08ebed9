import HouseOS.Fat32.WriteAtomic

namespace HouseOS.Fat32

open HouseOS.Components
open HouseOS.Disk
open HouseOS.Program
open HouseOS.Program.Prog
open HouseOS.Word

section Patch

def placed (sec : List UInt8) (off : Nat) (e : Dirent) : List UInt8 := sec.take off ++ e ++ sec.drop (off + 32)

variable {sec sec' : List UInt8} {off o first size : Nat} {e : Dirent}

theorem placed_length (hlen : off + 32 ≤ sec.length) (he : e.length = 32) :
    (placed sec off e).length = sec.length := by
  rw [placed, List.length_append, List.length_append, he, List.length_take, List.length_drop]
  omega

theorem placed_outside (hlen : off + 32 ≤ sec.length) (he : e.length = 32) {k : Nat}
    (hk : k < off ∨ off + 32 ≤ k) : (placed sec off e).getD k 0 = sec.getD k 0 := by
  simp only [placed, List.getD_eq_getElem?_getD]
  congr 1
  rcases hk with hk | hk
  · rw [List.append_assoc, List.getElem?_append_left (by rw [List.length_take]; omega),
      List.getElem?_take_of_lt hk]
  · rw [List.getElem?_append_right (by rw [List.length_append, List.length_take, he]; omega),
      List.length_append, List.length_take, he, List.getElem?_drop]
    congr 1
    omega

theorem placed_inside (hlen : off + 32 ≤ sec.length) (he : e.length = 32) {k : Nat} (hk : k < 32) :
    (placed sec off e).getD (off + k) 0 = e.getD k 0 := by
  simp only [placed, List.getD_eq_getElem?_getD]
  congr 1
  rw [List.getElem?_append_left (by rw [List.length_append, List.length_take, he]; omega),
    List.getElem?_append_right (by rw [List.length_take]; omega), List.length_take]
  congr 1
  omega

def patched (sec : List UInt8) (off first size : Nat) : List UInt8 :=
  placed sec off (Dirent.setFile ((sec.drop off).take 32) first size)

theorem setFile_eq (sec : List UInt8) (off first size : Nat) :
    Dirent.setFile ((sec.drop off).take 32) first size =
      (sec.drop off).take 20 ++ (le16 (first / 2 ^ 16) ++
        ((sec.drop (off + 22)).take 4 ++ (le16 first ++ le32 size))) := by
  rw [Dirent.setFile, List.take_take, List.drop_take, List.take_take, List.drop_drop,
    List.append_assoc, List.append_assoc, List.append_assoc]
  rfl

theorem setFile_length (hlen : off + 32 ≤ sec.length) (first size : Nat) :
    (Dirent.setFile ((sec.drop off).take 32) first size).length = 32 := by
  rw [setFile_eq]
  simp only [List.length_append, List.length_take, List.length_drop, le16, le32, List.length_cons,
    List.length_nil]
  omega

theorem patched_length (hlen : off + 32 ≤ sec.length) : (patched sec off first size).length = sec.length :=
  placed_length hlen (setFile_length hlen first size)

theorem patched_outside (hlen : off + 32 ≤ sec.length) {k : Nat} (hk : k < off ∨ off + 32 ≤ k) :
    (patched sec off first size).getD k 0 = sec.getD k 0 :=
  placed_outside hlen (setFile_length hlen first size) hk

theorem patched_inside (hlen : off + 32 ≤ sec.length) {k : Nat} (hk : k < 32) :
    (patched sec off first size).getD (off + k) 0 =
      (Dirent.setFile ((sec.drop off).take 32) first size).getD k 0 :=
  placed_inside hlen (setFile_length hlen first size) hk

theorem patched_kept (hlen : off + 32 ≤ sec.length) {k : Nat} (hk : k < 20) :
    (patched sec off first size).getD (off + k) 0 = sec.getD (off + k) 0 := by
  rw [patched_inside hlen (by omega), setFile_eq]
  simp only [List.getD_eq_getElem?_getD]
  rw [List.getElem?_append_left (by rw [List.length_take, List.length_drop]; omega),
    List.getElem?_take_of_lt hk, List.getElem?_drop]

theorem patched_fields (hlen : off + 32 ≤ sec.length) (first size : Nat) :
    entryCluster (patched sec off first size) off = first % 2 ^ 32 ∧
      entrySize (patched sec off first size) off = size % 2 ^ 32 := by
  have hhead : ((sec.drop off).take 20).length = 20 := by
    rw [List.length_take, List.length_drop]
    omega
  have hmid : ((sec.drop (off + 22)).take 4).length = 4 := by
    rw [List.length_take, List.length_drop]
    omega
  have hin : ∀ k, k < 32 → byteAt (patched sec off first size) (off + k) =
      byteAt (Dirent.setFile ((sec.drop off).take 32) first size) k := by
    intro k hk
    rw [byteAt, patched_inside hlen hk, byteAt]
  simp (disch := omega) only [entryCluster, entrySize, rdLe16, rdLe32, Nat.add_assoc, hin]
  rw [setFile_eq]
  generalize (sec.drop off).take 20 = head at hhead
  generalize (sec.drop (off + 22)).take 4 = mid at hmid
  simp [byteAt, hhead, hmid, le16, le32]
  omega

end Patch

section Entry

variable {sec sec' : List UInt8} {o : Nat}

theorem shortPart_congr (h : ∀ k < 20, sec'.getD (o + k) 0 = sec.getD (o + k) 0) {start len : Nat}
    (hle : start + len ≤ 20) : shortPart sec' o start len = shortPart sec o start len := by
  have hmap : (List.range len).map (fun i => nameByte sec' o (start + i)) =
      (List.range len).map fun i => nameByte sec o (start + i) :=
    List.map_congr_left fun i hi => h _ (by have := List.mem_range.mp hi; omega)
  rw [shortPart, hmap, shortPart]

theorem decodeShortName_congr (h : ∀ k < 20, sec'.getD (o + k) 0 = sec.getD (o + k) 0) :
    decodeShortName sec' o = decodeShortName sec o := by
  have hext : nameByte sec' o 8 = nameByte sec o 8 := h 8 (by decide)
  rw [decodeShortName, hext, shortPart_congr h (by decide), shortPart_congr h (by decide),
    decodeShortName]

theorem decodedName_congr (h : ∀ k < 20, sec'.getD (o + k) 0 = sec.getD (o + k) 0) (lfn : Lfn) :
    decodedName lfn sec' o = decodedName lfn sec o := by
  rw [decodedName, decodeShortName_congr h, decodedName]

theorem entryAttr_congr (h : ∀ k < 20, sec'.getD (o + k) 0 = sec.getD (o + k) 0) :
    entryAttr sec' o = entryAttr sec o := by
  rw [entryAttr, byteAt, h 11 (by decide), entryAttr, byteAt]

theorem byteAt_congr (h : ∀ k < 32, sec'.getD (o + k) 0 = sec.getD (o + k) 0) {k : Nat} (hk : k < 32) :
    byteAt sec' (o + k) = byteAt sec (o + k) := by
  rw [byteAt, h k hk, byteAt]

theorem lfnRun_congr (h : ∀ k < 32, sec'.getD (o + k) 0 = sec.getD (o + k) 0) {start len : Nat}
    (hle : start + 2 * len ≤ 32) : lfnRun sec' o start len = lfnRun sec o start len := by
  have hmap : (List.range len).map (fun i => rdLe16 sec' (o + start + 2 * i)) =
      (List.range len).map fun i => rdLe16 sec (o + start + 2 * i) := by
    refine List.map_congr_left fun i hi => ?_
    have hlt := List.mem_range.mp hi
    simp (disch := omega) only [rdLe16, Nat.add_assoc, byteAt_congr h]
  rw [lfnRun, hmap, lfnRun]

theorem lfnExtractPiece_congr (h : ∀ k < 32, sec'.getD (o + k) 0 = sec.getD (o + k) 0) :
    lfnExtractPiece sec' o = lfnExtractPiece sec o := by
  rw [lfnExtractPiece, lfnRun_congr h (by decide), lfnRun_congr h (by decide),
    lfnRun_congr h (by decide), lfnExtractPiece]

variable {dir rel off first size : Nat} {name : Name}

theorem findEntry_congr (h : ∀ k < 32, sec'.getD (o + k) 0 = sec.getD (o + k) 0) (lfn : Lfn) :
    findEntry dir name rel sec' o lfn = findEntry dir name rel sec o lfn := by
  have hshort : ∀ k < 20, sec'.getD (o + k) 0 = sec.getD (o + k) 0 := fun k hk => h k (by omega)
  have hfirst : nameByte sec' o 0 = nameByte sec o 0 := h 0 (by decide)
  have hcluster : entryCluster sec' o = entryCluster sec o := by
    simp (disch := omega) only [entryCluster, rdLe16, Nat.add_assoc, byteAt_congr h]
  have hsize : entrySize sec' o = entrySize sec o := by
    simp (disch := omega) only [entrySize, rdLe32, Nat.add_assoc, byteAt_congr h]
  rw [findEntry, hfirst, entryAttr_congr hshort, lfnExtractPiece_congr h, decodedName_congr hshort,
    hcluster, hsize, findEntry]

def moved (rel off first size : Nat) (g : Found) : Found :=
  if g.entryRelSector = rel ∧ g.entryOffset = off then
    { g with node := { g.node with firstCluster := first, size := size } }
  else g

def Scan.map (u : Found → Found) : Scan → Scan
  | .stop => .stop
  | .next lfn => .next lfn
  | .hit f => .hit (u f)

theorem findEntry_patched (hlen : off + 32 ≤ sec.length) (hattr : entryAttr sec off ≠ attrLfn)
    (hfirst : first < 2 ^ 32) (hsize : size < 2 ^ 32) (lfn : Lfn) :
    findEntry dir name rel (patched sec off first size) off lfn =
      (findEntry dir name rel sec off lfn).map (moved rel off first size) := by
  have hkept : ∀ k < 20, (patched sec off first size).getD (off + k) 0 = sec.getD (off + k) 0 :=
    fun k hk => patched_kept hlen hk
  have hbyte : nameByte (patched sec off first size) off 0 = nameByte sec off 0 := hkept 0 (by decide)
  obtain ⟨hcluster, hentry⟩ := patched_fields hlen first size
  rw [Nat.mod_eq_of_lt hfirst] at hcluster
  rw [Nat.mod_eq_of_lt hsize] at hentry
  rw [findEntry, findEntry, hbyte, entryAttr_congr hkept, decodedName_congr hkept, hcluster, hentry,
    if_neg hattr, if_neg hattr]
  split
  · rfl
  split
  · rfl
  split
  · rfl
  split
  · rw [Scan.map, moved, if_pos ⟨rfl, rfl⟩]
  · rfl

theorem findEntry_beside (hlen : off + 32 ≤ sec.length) (hoff : off % 32 = 0) (ho : o % 32 = 0)
    (hne : o ≠ off) (lfn : Lfn) :
    findEntry dir name rel (patched sec off first size) o lfn =
      (findEntry dir name rel sec o lfn).map (moved rel off first size) := by
  rw [findEntry_congr fun k hk => patched_outside hlen (by omega)]
  cases hscan : findEntry dir name rel sec o lfn with
  | stop => rfl
  | next lfn' => rfl
  | hit g =>
    have hplace := (findEntry_hit hscan).2.1
    rw [Scan.map, moved, if_neg]
    rintro ⟨-, heq⟩
    exact hne (hplace.symm.trans heq)

theorem findSector_patched (hlen : off + 32 ≤ sec.length) (hoff : off % 32 = 0)
    (hattr : entryAttr sec off ≠ attrLfn) (hfirst : first < 2 ^ 32) (hsize : size < 2 ^ 32) :
    ∀ (left o : Nat) (lfn : Lfn), o % 32 = 0 →
      findSector dir name rel (patched sec off first size) left o lfn =
        (findSector dir name rel sec left o lfn).map (moved rel off first size) := by
  intro left
  induction left with
  | zero => exact fun _ _ _ => rfl
  | succ left ih =>
    intro o lfn ho
    have hentry : findEntry dir name rel (patched sec off first size) o lfn =
        (findEntry dir name rel sec o lfn).map (moved rel off first size) := by
      by_cases hne : o = off
      · subst hne
        exact findEntry_patched hlen hattr hfirst hsize lfn
      · exact findEntry_beside hlen hoff ho hne lfn
    rw [findSector, findSector, hentry]
    cases findEntry dir name rel sec o lfn with
    | stop => rfl
    | next lfn' => exact ih _ lfn' (by omega)
    | hit g => rfl

theorem findSector_elsewhere {r : Nat} (hne : r ≠ rel) (sec : List UInt8) (lfn : Lfn) :
    findSector dir name r sec 16 0 lfn =
      (findSector dir name r sec 16 0 lfn).map (moved rel off first size) := by
  cases hscan : findSector dir name r sec 16 0 lfn with
  | stop => rfl
  | next lfn' => rfl
  | hit g =>
    rw [Scan.map, moved, if_neg]
    rintro ⟨heq, -⟩
    exact hne ((findSector_hit hscan (by decide) (by decide)).2.2.symm.trans heq)

theorem findEntry_attr {g : Found} {lfn : Lfn} (h : findEntry dir name rel sec o lfn = .hit g) :
    g.node.attr = entryAttr sec g.entryOffset ∧ g.node.attr ≠ attrLfn := by
  rw [findEntry] at h
  split at h
  · cases h
  split at h
  · cases h
  split at h
  · cases h
  rename_i hattr
  split at h
  · cases h
  split at h
  · cases h
    exact ⟨rfl, hattr⟩
  · cases h

theorem findSector_attr {g : Found} : ∀ {left o : Nat} {lfn : Lfn},
    findSector dir name rel sec left o lfn = .hit g →
      g.node.attr = entryAttr sec g.entryOffset ∧ g.node.attr ≠ attrLfn := by
  intro left
  induction left with
  | zero => exact fun h => by cases h
  | succ left ih =>
    intro o lfn h
    rw [findSector] at h
    cases hentry : findEntry dir name rel sec o lfn with
    | stop =>
      rw [hentry] at h
      cases h
    | hit g' =>
      rw [hentry] at h
      cases h
      exact findEntry_attr hentry
    | next lfn' =>
      rw [hentry] at h
      exact ih h

end Entry

namespace Fat32Fs

variable {fs : Fat32Fs} {dirs : Nat → Prop} {d d' : Sectors} {dir rel off first size : Nat} {name : Name}

theorem reply_cluster (h : fs.Laid) (d : Sectors) {c i : Nat} (hc : fs.IsCluster c)
    (hi : i < fs.sectorsPerCluster) :
    fs.reply d.volume (.read (add32 (fs.fat32ClusterToRelLba c) i) 1) =
      some (d (fs.clusterSector c i)) := by
  have hserved := h.served (h.clusterSector_lt hc hi)
  rw [unserved, Bool.or_eq_false_iff, decide_eq_false_iff_not] at hserved
  rw [h.clusterSector_eq hc hi, reply, if_neg (by rw [hserved.1]; simpa using hserved.2),
    volume_sectors_one, Sectors.volume]

structure Sits (fs : Fat32Fs) (dirs : Nat → Prop) (d : Sectors) (g : Found) : Prop where
  cluster : ∃ c i, dirs c ∧ i < fs.sectorsPerCluster ∧ g.entryRelSector = fs.clusterSector c i
  attr : g.node.attr = entryAttr (d g.entryRelSector) g.entryOffset
  notLfn : g.node.attr ≠ attrLfn

-- the directories' clusters are chained to one another
structure Chained (fs : Fat32Fs) (dirs : Nat → Prop) (d : Sectors) : Prop where
  clusters : ∀ c, dirs c → fs.IsCluster c
  chain : ∀ c, dirs c → isEoc (fs.entry d c) = true ∨ dirs (fs.entry d c)

theorem findCluster_sits (h : fs.Laid) (hd : fs.Chained dirs d) {c : Nat} (hc : dirs c) {g : Found} :
    ∀ {left i : Nat} {lfn : Lfn}, i + left ≤ fs.sectorsPerCluster →
      (findCluster dir name (fs.fat32ClusterToRelLba c) left i lfn).look (fs.reply d.volume) = .hit g →
      fs.Sits dirs d g := by
  intro left
  induction left with
  | zero => exact fun _ h => by cases h
  | succ left ih =>
    intro i lfn hi hscan
    rw [findCluster, look_ask, reply_cluster h d (hd.clusters c hc) (by omega)] at hscan
    simp only at hscan
    cases hsec : findSector dir name (add32 (fs.fat32ClusterToRelLba c) i) (d (fs.clusterSector c i))
        16 0 lfn with
    | stop =>
      rw [hsec] at hscan
      cases hscan
    | next lfn' =>
      rw [hsec] at hscan
      exact ih (by omega) hscan
    | hit g' =>
      rw [hsec] at hscan
      cases hscan
      obtain ⟨hattr, hlfn⟩ := findSector_attr hsec
      have hrel : g.entryRelSector = fs.clusterSector c i := by
        rw [(findSector_hit hsec (by decide) (by decide)).2.2,
          h.clusterSector_eq (hd.clusters c hc) (by omega)]
      exact ⟨⟨c, i, hc, by omega, hrel⟩, by rw [hrel]; exact hattr, hlfn⟩

theorem findChain_sits (h : fs.Laid) (hd : fs.Chained dirs d) {g : Found} : ∀ {fuel c : Nat} {lfn : Lfn},
    (c < 2 ∨ isEoc c = true ∨ dirs c) →
      (findChain dir name fs fuel c lfn).look (fs.reply d.volume) = some (some g) → fs.Sits dirs d g := by
  intro fuel
  induction fuel with
  | zero => exact fun _ h => by cases h
  | succ fuel ih =>
    intro c lfn hc hscan
    rw [findChain] at hscan
    split at hscan
    · cases hscan
    rename_i hgo
    rw [not_or] at hgo
    have hin : dirs c := (hc.resolve_left hgo.1).resolve_left hgo.2
    rw [look_bind] at hscan
    cases hcluster : (findCluster dir name (fs.fat32ClusterToRelLba c) fs.sectorsPerCluster 0 lfn).look
        (fs.reply d.volume) with
    | stop =>
      rw [hcluster] at hscan
      cases hscan
    | hit g' =>
      rw [hcluster] at hscan
      cases hscan
      exact findCluster_sits h hd hin (by omega) hcluster
    | next lfn' =>
      rw [hcluster] at hscan
      simp only [look_bind, look_fatGet h d (hd.clusters c hin)] at hscan
      exact ih (Or.inr (hd.chain c hin)) hscan

-- in the directories nothing has changed but the entry in sector `rel` at `off`
structure Patched (fs : Fat32Fs) (dirs : Nat → Prop) (d d' : Sectors) (rel off first size : Nat) : Prop where
  entry : ∀ c, dirs c → fs.entry d' c = fs.entry d c
  data : ∀ c, dirs c → ∀ i < fs.sectorsPerCluster, d' (fs.clusterSector c i) =
    if fs.clusterSector c i = rel then patched (d rel) off first size else d (fs.clusterSector c i)
  room : off + 32 ≤ (d rel).length
  aligned : off % 32 = 0
  attr : entryAttr (d rel) off ≠ attrLfn
  first : first < 2 ^ 32
  size : size < 2 ^ 32

theorem findCluster_patched (h : fs.Laid) (hd : fs.Chained dirs d)
    (hp : fs.Patched dirs d d' rel off first size) {c : Nat} (hc : dirs c) :
    ∀ (left i : Nat) (lfn : Lfn), i + left ≤ fs.sectorsPerCluster →
      (findCluster dir name (fs.fat32ClusterToRelLba c) left i lfn).look (fs.reply d'.volume) =
        ((findCluster dir name (fs.fat32ClusterToRelLba c) left i lfn).look (fs.reply d.volume)).map
          (moved rel off first size) := by
  intro left
  induction left with
  | zero => exact fun _ _ _ => rfl
  | succ left ih =>
    intro i lfn hi
    have hcl := hd.clusters c hc
    have hlt : i < fs.sectorsPerCluster := by omega
    have hsector : findSector dir name (add32 (fs.fat32ClusterToRelLba c) i) (d' (fs.clusterSector c i))
        16 0 lfn = (findSector dir name (add32 (fs.fat32ClusterToRelLba c) i) (d (fs.clusterSector c i))
          16 0 lfn).map (moved rel off first size) := by
      rw [hp.data c hc i hlt, h.clusterSector_eq hcl hlt]
      by_cases heq : fs.clusterSector c i = rel
      · rw [if_pos heq, heq]
        exact findSector_patched hp.room hp.aligned hp.attr hp.first hp.size 16 0 lfn rfl
      · rw [if_neg heq]
        exact findSector_elsewhere heq _ lfn
    rw [findCluster, look_ask, look_ask, reply_cluster h d hcl hlt, reply_cluster h d' hcl hlt]
    simp only [hsector]
    cases findSector dir name (add32 (fs.fat32ClusterToRelLba c) i) (d (fs.clusterSector c i)) 16 0 lfn with
    | stop => rfl
    | next lfn' => exact ih (i + 1) lfn' (by omega)
    | hit g => rfl

theorem findChain_patched (h : fs.Laid) (hd : fs.Chained dirs d)
    (hp : fs.Patched dirs d d' rel off first size) : ∀ (fuel c : Nat) (lfn : Lfn),
    (c < 2 ∨ isEoc c = true ∨ dirs c) →
      (findChain dir name fs fuel c lfn).look (fs.reply d'.volume) =
        ((findChain dir name fs fuel c lfn).look (fs.reply d.volume)).map
          (Option.map (moved rel off first size)) := by
  intro fuel
  induction fuel with
  | zero => exact fun _ _ _ => rfl
  | succ fuel ih =>
    intro c lfn hc
    rw [findChain]
    split
    · rfl
    rename_i hgo
    rw [not_or] at hgo
    have hin : dirs c := (hc.resolve_left hgo.1).resolve_left hgo.2
    have hcl := hd.clusters c hin
    rw [look_bind, look_bind, findCluster_patched h hd hp hin _ _ _ (by omega)]
    cases (findCluster dir name (fs.fat32ClusterToRelLba c) fs.sectorsPerCluster 0 lfn).look
        (fs.reply d.volume) with
    | stop => rfl
    | hit g => rfl
    | next lfn' =>
      simp only [Scan.map, look_bind, look_fatGet h d hcl, look_fatGet h d' hcl, hp.entry c hin]
      exact ih _ _ (Or.inr (hd.chain c hin))

theorem finds_patched (h : fs.Laid) (hd : fs.Chained dirs d)
    (hp : fs.Patched dirs d d' rel off first size) (hdir : dirs dir) {g : Found}
    (hg : Finds fs d.volume dir name g) : Finds fs d'.volume dir name (moved rel off first size g) := by
  obtain ⟨fuel, hfind⟩ := hg
  refine ⟨fuel, ?_⟩
  rw [fat32DirFind, findChain_patched h hd hp fuel dir noLfn (Or.inr (Or.inr hdir))]
  rw [fat32DirFind] at hfind
  rw [hfind]
  rfl

theorem moved_isDir (g : Found) : (moved rel off first size g).isDir = g.isDir := by
  rw [moved]
  split <;> rfl

theorem moved_dir (hfile : entryAttr (d rel) off &&& attrDir = 0) {g : Found} (hsits : fs.Sits dirs d g)
    (hg : g.isDir = true) : moved rel off first size g = g := by
  rw [moved, if_neg]
  rintro ⟨rfl, rfl⟩
  rw [Found.isDir, hsits.attr, decide_eq_true_eq] at hg
  exact hg hfile

theorem denotes_patched (h : fs.Laid) (hd : fs.Chained dirs d)
    (hp : fs.Patched dirs d d' rel off first size) (hfile : entryAttr (d rel) off &&& attrDir = 0)
    (hroot : dirs fs.rootCluster) {g : Found} : ∀ {names : List Name} {here : Found},
      moved rel off first size here = here →
      (∀ names g, Denotes fs d.volume here names g → g.isDir = true →
        g.node.firstCluster = 0 ∨ dirs g.node.firstCluster) →
      Denotes fs d.volume here names g → Denotes fs d'.volume here names (moved rel off first size g) := by
  intro names
  induction names with
  | nil =>
    rintro here hhere - hg
    obtain rfl : g = here := hg
    rw [hhere]
    rfl
  | cons name names ih =>
    rintro here hhere hin ⟨hdir, g', hfind, hrest⟩
    have hcur : dirs (fs.clusterOf here) := by
      rw [clusterOf]
      split
      · exact (hin [] here rfl hdir).resolve_left ‹_›
      · exact hroot
    have hfind' := finds_patched h hd hp hcur hfind
    have hsits : fs.Sits dirs d g' := by
      obtain ⟨fuel, hlook⟩ := hfind
      exact findChain_sits h hd (Or.inr (Or.inr hcur)) hlook
    have hin' : ∀ names g, Denotes fs d.volume g' names g → g.isDir = true →
        g.node.firstCluster = 0 ∨ dirs g.node.firstCluster :=
      fun names g hg => hin (name :: names) g ⟨hdir, g', hfind, hg⟩
    cases names with
    | nil =>
      obtain rfl : g = g' := hrest
      exact ⟨hdir, _, hfind', rfl⟩
    | cons name' names =>
      have hsame : moved rel off first size g' = g' := moved_dir hfile hsits hrest.1
      rw [hsame] at hfind'
      exact ⟨hdir, g', hfind', ih hsame hin' hrest⟩

theorem denotes_sits (h : fs.Laid) (hd : fs.Chained dirs d) (hroot : dirs fs.rootCluster) {g : Found} :
    ∀ {names : List Name} {here : Found}, names ≠ [] →
      (∀ names g, Denotes fs d.volume here names g → g.isDir = true →
        g.node.firstCluster = 0 ∨ dirs g.node.firstCluster) →
      Denotes fs d.volume here names g → fs.Sits dirs d g := by
  intro names
  induction names with
  | nil => exact fun hne => absurd rfl hne
  | cons name names ih =>
    rintro here - hin ⟨hdir, g', hfind, hrest⟩
    have hcur : dirs (fs.clusterOf here) := by
      rw [clusterOf]
      split
      · exact (hin [] here rfl hdir).resolve_left ‹_›
      · exact hroot
    cases names with
    | nil =>
      obtain rfl : g = g' := hrest
      obtain ⟨fuel, hlook⟩ := hfind
      exact findChain_sits h hd (Or.inr (Or.inr hcur)) hlook
    | cons name' names =>
      exact ih (List.cons_ne_nil _ _) (fun names g hg => hin (name :: names) g ⟨hdir, g', hfind, hg⟩) hrest

section Store

variable {fails : Nat → Bool} {s : Store} {c : Nat} {cs : List Nat} {data : List UInt8}

def Stores (fs : Fat32Fs) (d : Sectors) : List Nat → List UInt8 → Prop
  | [], data => data = []
  | c :: cs, data => fs.IsCluster c ∧
      (∀ i < fs.sectorsPerCluster, d (fs.clusterSector c i) = block (data.drop (512 * i))) ∧
      (data.drop (512 * fs.sectorsPerCluster) = [] ∨
        cs.head? = some (fs.entry d c) ∧ Stores fs d cs (data.drop (512 * fs.sectorsPerCluster)))

theorem Stores.congr : ∀ {cs : List Nat} {data : List UInt8}, fs.Stores d cs data →
    (∀ c ∈ cs, fs.entry d' c = fs.entry d c ∧
      ∀ i < fs.sectorsPerCluster, d' (fs.clusterSector c i) = d (fs.clusterSector c i)) →
    fs.Stores d' cs data
  | [], _, h, _ => h
  | c :: cs, data, ⟨hcl, hdata, hrest⟩, hsame => by
    obtain ⟨hentry, hsector⟩ := hsame c List.mem_cons_self
    refine ⟨hcl, fun i hi => (hsector i hi).trans (hdata i hi), hrest.imp_right fun ⟨hnext, hstores⟩ => ?_⟩
    exact ⟨hentry ▸ hnext, hstores.congr fun c hc => hsame c (List.mem_cons_of_mem _ hc)⟩

theorem fillCluster_stores (h : fs.Laid) (hno : NoFault fails) (hc : fs.IsCluster c) :
    ∀ (left i : Nat) (data : List UInt8) (s : Store), i + left ≤ fs.sectorsPerCluster →
      Ensures (fs.access fails) (fillCluster (fs.fat32ClusterToRelLba c) left i data) s fun r s' =>
        r = some (data.drop (512 * left)) ∧
          (∀ k < left, s'.sector (fs.clusterSector c (i + k)) = block (data.drop (512 * k))) ∧
          ∀ r, (∀ k < left, r ≠ fs.clusterSector c (i + k)) → s'.sector r = s.sector r := by
  intro left
  induction left with
  | zero =>
    intro i data s _
    exact ensures_done ⟨by simp, fun _ hk => absurd hk (Nat.not_lt_zero _), fun _ _ => rfl⟩
  | succ left ih =>
    intro i data s hi
    have hlt : i < fs.sectorsPerCluster := by omega
    rw [fillCluster, h.clusterSector_eq hc hlt]
    refine ensures_ask ?_
    have hserved := (access_served hno s (h.served (h.clusterSector_lt hc hlt))).2 (block data)
    rcases access_write fs fails s (fs.clusterSector c i) (block_length data) with
      ⟨hwrite, -⟩ | ⟨hwrite, hput⟩
    · rw [hserved] at hwrite
      cases hwrite
    · rw [hwrite]
      refine (ih (i + 1) (data.drop 512) _ (by omega)).imp fun r s' hr => ?_
      obtain ⟨hrest, hdata, hothers⟩ := hr
      refine ⟨?_, fun k hk => ?_, fun r hr => ?_⟩
      · rw [hrest, List.drop_drop]
        congr 2
        omega
      · cases k with
        | zero =>
          rw [hothers, hput, Nat.add_zero, Function.update_self, Nat.mul_zero, List.drop_zero]
          intro k hk heq
          simp only [clusterSector] at heq
          omega
        | succ k =>
          have hsector := hdata k (by omega)
          rw [List.drop_drop] at hsector
          rw [show i + (k + 1) = i + 1 + k by omega, hsector]
          congr 2
          omega
      · have hlater : ∀ k < left, r ≠ fs.clusterSector c (i + 1 + k) := by
          intro k hk
          rw [Nat.add_assoc, Nat.add_comm 1 k]
          exact hr (k + 1) (by omega)
        have hne : r ≠ fs.clusterSector c i := hr 0 (by omega)
        rw [hothers r hlater, hput, Function.update_of_ne hne]

theorem fillChain_stores (h : fs.Laid) (hno : NoFault fails) : ∀ (cs : List Nat) (fuel c : Nat)
    (data : List UInt8) (s : Store), cs.head? = some c → cs.Nodup → (∀ c ∈ cs, fs.IsCluster c) →
      cs.IsChain (fun c c' => fs.entry s.sector c = c') →
      data.length ≤ 512 * fs.sectorsPerCluster * cs.length → data.length ≤ fuel →
      Ensures (fs.access fails) (fs.fillChain fuel c data) s fun _ s' =>
        (data ≠ [] → fs.Stores s'.sector cs data) ∧
          ∀ r, (∀ c ∈ cs, ∀ i < fs.sectorsPerCluster, r ≠ fs.clusterSector c i) →
            s'.sector r = s.sector r := by
  intro cs
  induction cs with
  | nil => exact fun _ _ _ _ hhead => by cases hhead
  | cons c cs ih =>
    rintro fuel _ data s ⟨⟩ hnodup hcl hchain hlen hfuel
    have hc := hcl c List.mem_cons_self
    cases fuel with
    | zero =>
      have hnil : data = [] := List.length_eq_zero_iff.mp (by omega)
      rw [fillChain, if_pos (Or.inl hnil)]
      exact ensures_done ⟨fun hne => absurd hnil hne, fun _ _ => rfl⟩
    | succ fuel =>
    rw [fillChain]
    split
    · rename_i hstop
      refine ensures_done ⟨fun hne => ?_, fun _ _ => rfl⟩
      rcases hstop with hnil | hlt | heoc
      · exact absurd hnil hne
      · exact absurd hlt (by have := hc.1; omega)
      · rw [h.not_eoc hc] at heoc
        cases heoc
    rename_i hgo
    rw [not_or] at hgo
    have hfull := List.length_pos_iff.mpr hgo.1
    obtain ⟨hnot, hnodup'⟩ := List.nodup_cons.mp hnodup
    refine ensures_bind (fillCluster_stores h hno hc fs.sectorsPerCluster 0 data s (by omega))
      fun r s₁ hfill => ?_
    obtain ⟨rfl, hdata, hothers⟩ := hfill
    simp only [Nat.zero_add] at hdata hothers
    have hentry : ∀ x, fs.IsCluster x → fs.entry s₁.sector x = fs.entry s.sector x := by
      intro x hx
      rw [entry, word, hothers _ fun k _ => (h.clusterSector_ne_word h.fat_pos (h.inFat hx)).symm, entry,
        word]
    dsimp only
    split
    · rename_i hrest
      exact ensures_done ⟨fun _ => ⟨hc, hdata, Or.inl hrest⟩, fun r hr => hothers r (hr c List.mem_cons_self)⟩
    rename_i hrest
    refine ensures_bind (fatGet_ensures h hc) fun r s₂ hget => ?_
    obtain ⟨hsame, -, hget⟩ := hget
    obtain rfl := hget hno
    cases cs with
    | nil =>
      refine absurd (List.drop_eq_nil_of_le ?_) hrest
      simpa using hlen
    | cons c' cs =>
      obtain ⟨hnext, hchain'⟩ := List.isChain_cons_cons.mp hchain
      have hcl' : ∀ c ∈ c' :: cs, fs.IsCluster c := fun c hc => hcl c (List.mem_cons_of_mem _ hc)
      have hc' : fs.entry s₁.sector c = c' := (hentry c hc).trans hnext
      have hchain'' : (c' :: cs).IsChain fun c c' => fs.entry s₂.sector c = c' := by
        rw [hsame]
        refine hchain'.imp_of_mem_imp fun x y hx _ hxy => ?_
        rw [hentry x (hcl' x hx), hxy]
      have hpos := h.accepted.clusterPos
      have hshort : (data.drop (512 * fs.sectorsPerCluster)).length ≤
          512 * fs.sectorsPerCluster * (c' :: cs).length := by
        rw [List.length_cons, Nat.mul_succ] at hlen
        rw [List.length_drop]
        omega
      have hless : (data.drop (512 * fs.sectorsPerCluster)).length ≤ fuel := by
        rw [List.length_drop]
        omega
      refine (ih fuel _ _ s₂ (by rw [hc']; rfl) hnodup' hcl' hchain'' hshort hless).imp
        fun r s₃ hr => ⟨fun _ => ?_, fun r hr' => ?_⟩
      · have hkept : ∀ i < fs.sectorsPerCluster, s₃.sector (fs.clusterSector c i) =
            s₁.sector (fs.clusterSector c i) := by
          intro i hi
          rw [hr.2, hsame]
          rintro x hx k hk heq
          exact hnot ((clusterSector_inj hc.1 (hcl' x hx).1 hi hk heq).1 ▸ hx)
        have hlink : fs.entry s₃.sector c = fs.entry s₁.sector c := by
          rw [entry, word, hr.2, hsame, entry, word]
          exact fun x hx i _ => (h.clusterSector_ne_word h.fat_pos (h.inFat hc)).symm
        exact ⟨hc, fun i hi => (hkept i hi).trans (hdata i hi),
          Or.inr ⟨by rw [hlink, hc']; rfl, hr.1 hrest⟩⟩
      · rw [hr.2 r fun x hx => hr' x (List.mem_cons_of_mem _ hx), hsame, hothers r (hr' c List.mem_cons_self)]

section Read

variable {full : List UInt8} {size : Nat}

theorem block_take {k : Nat} (hk : k ≤ 512) (hlen : k ≤ data.length) : (block data).take k = data.take k := by
  rw [block, List.take_append_of_le_length (by rw [List.length_take]; omega), List.take_take,
    min_eq_left hk]

theorem copiedAll_iff {p : Nat} :
    copiedAll size full.length (full.take (min p (min size full.length))) = true ↔
      min size full.length ≤ p := by
  rw [copiedAll, Bool.or_eq_true, decide_eq_true_eq, decide_eq_true_eq, List.length_take]
  omega

-- `p` bytes have gone by, `copied` is what of them is wanted
theorem readCluster_stores (h : fs.Laid) (hc : fs.IsCluster c) : ∀ (left i p : Nat),
    i + left ≤ fs.sectorsPerCluster →
    (∀ k < left, d (fs.clusterSector c (i + k)) = block (full.drop (p + 512 * k))) →
    (readCluster size full.length (fs.fat32ClusterToRelLba c) left i
        (full.take (min p (min size full.length)))).look (fs.reply d.volume) =
      some (full.take (min (p + 512 * left) (min size full.length))) := by
  intro left
  induction left with
  | zero => exact fun _ _ _ _ => rfl
  | succ left ih =>
    intro i p hi hdata
    rw [readCluster]
    split
    · rename_i hall
      rw [copiedAll_iff] at hall
      have hsame : min p (min size full.length) = min (p + 512 * (left + 1)) (min size full.length) := by omega
      rw [look_done, hsame]
    rename_i hall
    rw [copiedAll_iff] at hall
    have hsector : d (fs.clusterSector c i) = block (full.drop p) := hdata 0 (by omega)
    have hcopied : (full.take (min p (min size full.length))).length = p := by
      rw [List.length_take]
      omega
    have hstep : full.take (min p (min size full.length)) ++
        (block (full.drop p)).take (min (min (full.length - p) (size - p)) 512) =
          full.take (min (p + 512) (min size full.length)) := by
      rw [block_take (by omega) (by rw [List.length_drop]; omega), min_eq_left (by omega),
        ← List.take_add]
      congr 1
      omega
    rw [look_ask, reply_cluster h d hc (by omega), hsector]
    simp only [hcopied, hstep]
    refine (ih (i + 1) (p + 512) (by omega) fun k hk => ?_).trans ?_
    · rw [Nat.add_assoc, Nat.add_comm 1 k, hdata (k + 1) (by omega)]
      congr 2
      omega
    · congr 3
      omega

theorem readChain_stores (h : fs.Laid) : ∀ (fuel : Nat) (cs : List Nat) (c p : Nat),
    (min size full.length ≤ p ∨ cs.head? = some c ∧ fs.Stores d cs (full.drop p)) →
    min size full.length - p ≤ fuel →
    (readChain size full.length fs fuel c (full.take (min p (min size full.length)))).look
        (fs.reply d.volume) = some (some (full.take size)) := by
  have hsize : full.take (min size full.length) = full.take size := List.take_eq_take_min.symm
  have hdone : ∀ {p}, min size full.length ≤ p →
      full.take (min p (min size full.length)) = full.take size :=
    fun hp => by rw [min_eq_right hp, hsize]
  intro fuel
  induction fuel with
  | zero =>
    intro cs c p _ hfuel
    rw [readChain, if_pos (Or.inr (Or.inr (copiedAll_iff.mpr (by omega)))), look_done, hdone (by omega)]
  | succ fuel ih =>
    intro cs c p hstores hfuel
    by_cases hall : min size full.length ≤ p
    · rw [readChain, if_pos (Or.inr (Or.inr (copiedAll_iff.mpr hall))), look_done, hdone hall]
    replace hstores := hstores.resolve_left hall
    cases cs with
    | nil => cases hstores.1
    | cons c' cs =>
      obtain ⟨⟨⟩, hc, hdata, hrest⟩ := hstores
      have hgo : ¬ (c < 2 ∨ isEoc c = true ∨
          copiedAll size full.length (full.take (min p (min size full.length))) = true) := by
        rw [copiedAll_iff, h.not_eoc hc]
        have := hc.1
        simp only [Bool.false_eq_true, false_or, not_or]
        omega
      have hfull : ∀ k < fs.sectorsPerCluster,
          d (fs.clusterSector c (0 + k)) = block (full.drop (p + 512 * k)) := by
        intro k hk
        rw [Nat.zero_add, hdata k hk, List.drop_drop]
      have hcluster : (readCluster size full.length (fs.fat32ClusterToRelLba c) fs.sectorsPerCluster 0
          (full.take (min p (min size full.length)))).look (fs.reply d.volume) = _ :=
        readCluster_stores h hc _ 0 p (by omega) hfull
      rw [readChain, if_neg hgo, look_bind, hcluster]
      simp only [look_bind, look_fatGet h d hc]
      have hpos := h.accepted.clusterPos
      refine ih cs _ _ ?_ (by omega)
      rw [List.drop_drop] at hrest
      rcases hrest with hnil | hnext
      · rw [List.drop_eq_nil_iff] at hnil
        exact Or.inl (by omega)
      · exact Or.inr hnext

theorem readFound_stores (h : fs.Laid) {g : Found} (hfile : g.isDir = false)
    (hsize : g.node.size = full.length) (hfirst : g.node.firstCluster = cs.headD 0)
    (hstores : full ≠ [] → fs.Stores d cs full) (size : Nat) :
    (fs.readFound g size).look (fs.reply d.volume) = some (some (full.take size)) := by
  rw [readFound, if_neg (by rw [hfile]; decide)]
  split
  · rename_i hempty
    rw [hsize, List.length_eq_zero_iff] at hempty
    rw [hempty.2, List.take_nil, look_done]
  · have hread : min size full.length ≤ 0 ∨ cs.head? = some g.node.firstCluster ∧
        fs.Stores d cs (full.drop 0) → (readChain size full.length fs size g.node.firstCluster
          (full.take (min 0 (min size full.length)))).look (fs.reply d.volume) =
            some (some (full.take size)) := fun hs => readChain_stores h size cs _ 0 hs (by omega)
    rw [Nat.zero_min, List.take_zero] at hread
    rw [hsize]
    refine hread ?_
    · rw [List.drop_zero]
      by_cases hnil : full = []
      · exact Or.inl (by rw [hnil]; simp)
      · refine Or.inr ⟨?_, hstores hnil⟩
        have hstored := hstores hnil
        cases cs with
        | nil => exact absurd hstored hnil
        | cons c cs => rw [hfirst]; rfl

end Read

section Free

variable {own : Nat → Prop}

structure Spared (fs : Fat32Fs) (own : Nat → Prop) (d d' : Sectors) : Prop where
  length : ∀ r, (d' r).length = 512
  data : ∀ r, fs.dataStartLba ≤ r → d' r = d r
  entry : ∀ c, fs.InFat c → ¬ own c → fs.entry d' c = fs.entry d c
  chain : ∀ c, own c → fs.entry d' c = 0 ∨ fs.entry d' c = fs.entry d c

theorem Spared.wrote (h : fs.Laid) (hd : fs.Chained own d) (hs : fs.Spared own d d') (hc : own c)
    {k : Nat} {d'' : Sectors} (hw : fs.Wrote c 0 k d' d'') : fs.Spared own d d'' where
  length := hw.length
  data r hr := (hw.data r hr).trans (hs.data r hr)
  entry x hx hnot := by
    rw [h.inFat_entry hw hx, if_neg, hs.entry x hx hnot]
    rintro ⟨rfl, -⟩
    exact hnot hc
  chain x hx := by
    rw [h.inFat_entry hw (h.inFat (hd.clusters x hx))]
    split
    · exact Or.inl rfl
    · exact hs.chain x hx

theorem freeLoop_spares (h : fs.Laid) (hd : fs.Chained own d) : ∀ (guard c : Nat) (s : Store), own c →
    fs.Spared own d s.sector →
      Ensures (fs.access fails) (fs.freeLoop guard c) s fun _ s' => fs.Spared own d s'.sector := by
  intro guard
  induction guard with
  | zero => exact fun _ _ _ hs => ensures_done hs
  | succ guard ih =>
    intro c s hc hs
    have hcl := hd.clusters c hc
    rw [freeLoop, if_neg (by have := hcl.1; omega)]
    refine ensures_bind (fatGet_ensures h hcl) fun r s₁ hget => ?_
    obtain ⟨hsame, hget, -⟩ := hget
    rcases hget with rfl | rfl
    · exact ensures_done (hsame ▸ hs)
    refine ensures_bind (fatSet_ensures h 0 hcl (hsame ▸ hs.length)) fun ok s₂ hset => ?_
    obtain ⟨k, -, hw, -, -⟩ := hset
    rw [hsame] at hw
    have hs₂ := hs.wrote h hd hc hw
    cases ok with
    | false => exact ensures_done hs₂
    | true =>
      simp only [Bool.not_true, Bool.false_eq_true, if_false]
      split
      · exact ensures_done hs₂
      · rename_i hgo
        rw [not_or] at hgo
        rcases hs.chain c hc with hzero | heq
        · exact absurd (by rw [hzero]; decide) hgo.2
        · rw [heq] at hgo ⊢
          exact ih _ s₂ ((hd.chain c hc).resolve_left hgo.1) hs₂

theorem freeChain_spares (h : fs.Laid) (hd : fs.Chained own s.sector) (hs : ∀ r, (s.sector r).length = 512)
    (hc : c = 0 ∨ own c) :
    Ensures (fs.access fails) (fs.fat32FreeChain c) s fun _ s' => fs.Spared own s.sector s'.sector := by
  have hrefl : fs.Spared own s.sector s.sector :=
    ⟨hs, fun _ _ => rfl, fun _ _ _ => rfl, fun _ _ => Or.inr rfl⟩
  rw [fat32FreeChain]
  split
  · exact ensures_done hrefl
  · rename_i hge
    exact freeLoop_spares h hd _ c s (hc.resolve_left (by omega)) hrefl

end Free

section Write

variable {n : Found} {own : Nat → Prop}

theorem readDirent_reads (hno : NoFault fails) (hserved : fs.unserved rel 1 = false)
    (hoff : misplaced off = false) (s : Store) :
    Ensures (fs.access fails) (fat32ReadDirentAt rel off) s fun r s' =>
      r = some (((s.sector rel).drop off).take 32) ∧ s'.sector = s.sector := by
  obtain ⟨hsame, -⟩ := access_read fs fails s rel
  rw [fat32ReadDirentAt, if_neg (by rw [hoff]; decide)]
  refine ensures_ask ?_
  rw [(access_served hno s hserved).1]
  exact ensures_done ⟨rfl, hsame⟩

theorem writeDirent_writes (hno : NoFault fails) (hserved : fs.unserved rel 1 = false)
    (hoff : misplaced off = false) (hs : ∀ r, (s.sector r).length = 512) {e : Dirent} (he : e.length = 32) :
    Ensures (fs.access fails) (fat32WriteDirentAt rel off e) s fun ok s' => ok = true ∧
      s'.sector = Function.update s.sector rel
        ((s.sector rel).take off ++ e ++ (s.sector rel).drop (off + 32)) := by
  have hle : off ≤ 480 := by
    simp only [misplaced, Bool.or_eq_false_iff, decide_eq_false_iff_not] at hoff
    omega
  have hlen : ((s.sector rel).take off ++ e ++ (s.sector rel).drop (off + 32)).length = 512 := by
    rw [List.length_append, List.length_append, List.length_take, List.length_drop, he, hs]
    omega
  obtain ⟨hsame, -⟩ := access_read fs fails s rel
  rw [fat32WriteDirentAt, if_neg (by rw [hoff]; decide)]
  refine ensures_ask ?_
  rw [(access_served hno s hserved).1]
  refine ensures_ask ?_
  rw [(access_served hno _ hserved).2]
  refine ensures_done ⟨rfl, ?_⟩
  rcases access_write fs fails (fs.access fails s (.read rel 1)).2 rel hlen with ⟨hwrite, -⟩ | ⟨-, hput⟩
  · rw [(access_served hno _ hserved).2] at hwrite
    cases hwrite
  · rw [hput, hsame]

theorem Laid.clusterSize (h : fs.Laid) : fs.fat32ClusterSize = fs.sectorsPerCluster * 512 := by
  have hlt := h.accepted.cluster
  rw [fat32ClusterSize, h.bytes]
  exact Nat.mod_eq_of_lt (by omega)

theorem Laid.needClusters_le (h : fs.Laid) {size : Nat} (hsize : size + fs.fat32ClusterSize < 2 ^ 32) :
    size ≤ 512 * fs.sectorsPerCluster * fs.needClusters size := by
  have hpos := h.accepted.clusterPos
  have hbytes := h.clusterSize
  rw [needClusters]
  split
  · omega
  · rw [add32_eq hsize, sub32_eq hsize (by omega), hbytes]
    have hdiv := Nat.div_add_mod (size + fs.sectorsPerCluster * 512 - 1) (fs.sectorsPerCluster * 512)
    have hmod := Nat.mod_lt (size + fs.sectorsPerCluster * 512 - 1) (show 0 < fs.sectorsPerCluster * 512 by omega)
    rw [Nat.mul_comm 512]
    omega

-- the data is in clusters that were free, the entry leads to them, and but for the clusters of
-- `own` everything else is as it was
structure Rewritten (fs : Fat32Fs) (own : Nat → Prop) (d d' : Sectors) (rel off : Nat) (data : List UInt8)
    (cs : List Nat) : Prop where
  stores : data ≠ [] → fs.Stores d' cs data
  fresh : ∀ c ∈ cs, fs.IsCluster c ∧ fs.entry d c = 0
  entry : ∀ c, fs.IsCluster c → c ∉ cs → ¬ own c → fs.entry d' c = fs.entry d c
  data : ∀ c, fs.IsCluster c → c ∉ cs → ∀ i < fs.sectorsPerCluster, d' (fs.clusterSector c i) =
    if fs.clusterSector c i = rel then patched (d rel) off (cs.headD 0) data.length
    else d (fs.clusterSector c i)

theorem writeFound_rewrites (h : fs.Laid) (hno : NoFault fails) (hs : ∀ r, (s.sector r).length = 512)
    (hfile : n.isDir = false) (hserved : fs.unserved n.entryRelSector 1 = false)
    (hoff : misplaced n.entryOffset = false) (hown : fs.Chained own s.sector)
    (hfirst : n.node.firstCluster = 0 ∨ own n.node.firstCluster)
    (hplace : ∃ c i, fs.IsCluster c ∧ fs.entry s.sector c ≠ 0 ∧ i < fs.sectorsPerCluster ∧
      n.entryRelSector = fs.clusterSector c i)
    (hdata : data.length + fs.fat32ClusterSize < 2 ^ 32) :
    Ensures (fs.access fails) (fs.writeFound n data) s fun r s' => ∀ m, r = some (some m) →
      ∃ cs, fs.Rewritten own s.sector s'.sector n.entryRelSector n.entryOffset data cs := by
  have hneed := h.needClusters_le hdata
  have hused : ∀ c, own c → fs.entry s.sector c ≠ 0 := by
    intro c hc heq
    rcases hown.chain c hc with heoc | hnext
    · rw [heq] at heoc
      cases heoc
    · exact absurd (hown.clusters _ hnext).1 (by rw [heq]; decide)
  rw [writeFound, if_neg (by rw [hfile]; decide)]
  refine ensures_bind (takeClusters_lent h hno (fs.needClusters data.length) [] s (Lent.nil hs))
    fun r s₁ htake => ?_
  cases r with
  | none => exact ensures_done fun _ hr => by cases hr
  | some first =>
    obtain ⟨l, hl, hlen, rfl⟩ := htake.2 first rfl
    rw [List.length_nil, Nat.zero_add] at hlen
    have hfree : ∀ c ∈ l, fs.IsCluster c ∧ fs.entry s.sector c = 0 := hl.borrowed.free
    have hhead : l.getLast?.getD 0 = l.reverse.headD 0 := by rw [List.headD_eq_head?_getD, List.head?_reverse]
    have hfill : Ensures (fs.access fails) (fs.fillChain data.length (l.getLast?.getD 0) data) s₁ fun _ s' =>
        data ≠ [] → fs.Stores s'.sector l.reverse data := by
      by_cases hnil : data = []
      · rw [hnil, List.length_nil, fillChain, if_pos (Or.inl rfl)]
        exact ensures_done fun hne => absurd rfl hne
      · have hne : l ≠ [] := by
          rintro rfl
          rw [← hlen, List.length_nil, Nat.mul_zero, Nat.le_zero, List.length_eq_zero_iff] at hneed
          exact hnil hneed
        have hsome : l.reverse.head? = some (l.getLast?.getD 0) := by
          rw [List.head?_reverse, List.getLast?_eq_some_getLast hne, Option.getD_some]
        exact (fillChain_stores h hno l.reverse data.length _ data s₁ hsome (List.nodup_reverse.mpr hl.nodup)
          (fun c hc => (hfree c (List.mem_reverse.mp hc)).1) hl.linked.isChain
          (by rwa [List.length_reverse, hlen]) le_rfl).imp fun _ s' hr => hr.1
    have hborrowed : Ensures (fs.access fails) (fs.fillChain data.length (l.getLast?.getD 0) data) s₁ fun _ s' =>
        fs.Borrowed s.sector (fun c => c ∈ l) s'.sector := by
      refine fillChain_borrowed h _ _ data s₁ ?_ hl.borrowed
      cases l with
      | nil => exact Or.inl (by decide)
      | cons c l =>
        rw [List.getLast?_eq_some_getLast (List.cons_ne_nil c l)]
        exact Or.inr (Or.inr (List.getLast_mem _))
    have hboth : Ensures (fs.access fails) (fs.fillChain data.length (l.getLast?.getD 0) data) s₁ fun _ s' =>
        (data ≠ [] → fs.Stores s'.sector l.reverse data) ∧
          fs.Borrowed s.sector (fun c => c ∈ l) s'.sector := ⟨hfill, hborrowed⟩
    refine ensures_bind hboth fun r s₂ hr => ?_
    obtain ⟨hstores, hb⟩ := hr
    rcases r with _ | _ | _
    · exact ensures_done fun _ hr => by cases hr
    · rw [Ensures, run_bind]
      exact fun _ hr => by cases hr
    obtain ⟨c₀, i₀, hc₀, hused₀, hi₀, hrel⟩ := hplace
    have hnot₀ : c₀ ∉ l := fun hc => hused₀ (hfree c₀ hc).2
    have hdata₂ : ∀ c, fs.IsCluster c → c ∉ l → ∀ i < fs.sectorsPerCluster,
        s₂.sector (fs.clusterSector c i) = s.sector (fs.clusterSector c i) := hb.data
    have hentry₂ : ∀ c, fs.IsCluster c → c ∉ l → fs.entry s₂.sector c = fs.entry s.sector c :=
      fun c hc hnot => hb.entry_eq h (h.inFat hc) hnot
    have hsec : s₂.sector n.entryRelSector = s.sector n.entryRelSector := by
      rw [hrel, hdata₂ c₀ hc₀ hnot₀ i₀ hi₀]
    refine ensures_bind (readDirent_reads hno hserved hoff s₂) fun e s₃ he => ?_
    obtain ⟨rfl, hsame₃⟩ := he
    have hroom : n.entryOffset + 32 ≤ (s₂.sector n.entryRelSector).length := by
      simp only [misplaced, Bool.or_eq_false_iff, decide_eq_false_iff_not] at hoff
      rw [hb.length]
      omega
    dsimp only
    refine ensures_bind (writeDirent_writes hno hserved hoff (hsame₃ ▸ hb.length) (setFile_length hroom _ _))
      fun ok s₄ hput => ?_
    obtain ⟨rfl, hput⟩ := hput
    rw [hsame₃] at hput
    have hput₄ : s₄.sector = Function.update s₂.sector n.entryRelSector
        (patched (s.sector n.entryRelSector) n.entryOffset (l.reverse.headD 0) data.length) := by
      rw [hput, ← hhead, ← hsec, patched, placed]
    have hroom₀ : n.entryOffset + 32 ≤ (s.sector n.entryRelSector).length := hsec ▸ hroom
    have hlength₄ : ∀ r, (s₄.sector r).length = 512 := by
      intro r
      rw [hput₄, Function.update_apply]
      split
      · rw [patched_length hroom₀, hs]
      · exact hb.length r
    have hentry₄ : ∀ c, fs.IsCluster c → fs.entry s₄.sector c = fs.entry s₂.sector c := by
      intro c hc
      rw [hput₄, hrel, entry, word_update_data h h.fat_pos (h.inFat hc), entry]
    have hnew : ∀ c, own c → c ∉ l := fun c hc hmem => hused c hc (hfree c hmem).2
    have hown₄ : fs.Chained own s₄.sector := by
      refine ⟨hown.clusters, fun c hc => ?_⟩
      rw [hentry₄ c (hown.clusters c hc), hentry₂ c (hown.clusters c hc) (hnew c hc)]
      exact hown.chain c hc
    refine ensures_bind (freeChain_spares h hown₄ hlength₄ hfirst) fun _ s₅ hs₅ =>
      ensures_done fun m _ => ⟨l.reverse, ?_, ?_, ?_, ?_⟩
    · have hkept : ∀ c ∈ l.reverse, fs.entry s₅.sector c = fs.entry s₂.sector c ∧
          ∀ i < fs.sectorsPerCluster,
            s₅.sector (fs.clusterSector c i) = s₂.sector (fs.clusterSector c i) := by
        intro c hc
        have hcl := (hfree c (List.mem_reverse.mp hc)).1
        refine ⟨?_, fun i hi => ?_⟩
        · rw [hs₅.entry c (h.inFat hcl) fun hc' => hnew c hc' (List.mem_reverse.mp hc), hentry₄ c hcl]
        · rw [hs₅.data _ (by rw [clusterSector]; omega), hput₄, Function.update_of_ne]
          rw [hrel]
          intro heq
          exact hnot₀ ((clusterSector_inj hcl.1 hc₀.1 hi hi₀ heq).1 ▸ List.mem_reverse.mp hc)
      exact fun hne => (hstores hne).congr hkept
    · exact fun c hc => hfree c (List.mem_reverse.mp hc)
    · intro c hc hnot hnotOwn
      rw [hs₅.entry c (h.inFat hc) hnotOwn, hentry₄ c hc,
        hentry₂ c hc fun hmem => hnot (List.mem_reverse.mpr hmem)]
    · intro c hc hnot i hi
      rw [hs₅.data _ (by rw [clusterSector]; omega), hput₄, Function.update_apply,
        hdata₂ c hc (fun hmem => hnot (List.mem_reverse.mpr hmem)) i hi]

end Write

end Store

end Fat32Fs

inductive Holder where
  | nobody
  | directory
  | file
  | written
  deriving DecidableEq

def SameEntry (f g : Found) : Prop :=
  g.entryRelSector = f.entryRelSector ∧ g.entryOffset = f.entryOffset

instance (f g : Found) : Decidable (SameEntry f g) := inferInstanceAs (Decidable (_ ∧ _))

-- no chain of a directory, of the file `f` or of the other files has a cluster of another
structure Unshared (fs : Fat32Fs) (holder : Nat → Holder) (d : Sectors) (f : Found) : Prop where
  laid : fs.Laid
  length : ∀ r, (d r).length = 512
  clusters : ∀ c, holder c ≠ .nobody → fs.IsCluster c
  chain : ∀ c, holder c ≠ .nobody → isEoc (fs.entry d c) = true ∨ holder (fs.entry d c) = holder c
  root : holder fs.rootCluster = .directory
  directories : ∀ names g, Denotes fs d.volume fs.rootFound names g → g.isDir = true →
    g.node.firstCluster = 0 ∨ holder g.node.firstCluster = .directory
  files : ∀ names g, Denotes fs d.volume fs.rootFound names g → g.isDir = false → ¬ SameEntry f g →
    g.node.firstCluster = 0 ∨ holder g.node.firstCluster = .file
  written : f.node.firstCluster = 0 ∨ holder f.node.firstCluster = .written

section RoundTrip

variable {fs : Fat32Fs} {fails : Nat → Bool} {s : Store} {holder : Nat → Holder} {d d' : Sectors}
  {path : Path} {f g : Found} {data : List UInt8} {cs : List Nat}

theorem Unshared.chained (h : Unshared fs holder d f) {o : Holder} (ho : o ≠ .nobody) :
    fs.Chained (fun c => holder c = o) d where
  clusters c hc := h.clusters c (by rw [hc]; exact ho)
  chain c hc := by
    rw [← hc]
    exact h.chain c (by rw [hc]; exact ho)

theorem Unshared.used (h : Unshared fs holder d f) {c : Nat} (hc : holder c ≠ .nobody) :
    fs.entry d c ≠ 0 := by
  intro heq
  rcases h.chain c hc with heoc | hnext
  · rw [heq] at heoc
    cases heoc
  · have hzero := h.clusters 0 (by rw [← heq, hnext]; exact hc)
    exact absurd hzero.1 (by decide)

theorem IsFile.sits (hu : Unshared fs holder d f) (hg : IsFile fs d path g) :
    fs.Sits (fun c => holder c = .directory) d g :=
  Fat32Fs.denotes_sits hu.laid (hu.chained (by decide)) hu.root hg.names_ne hu.directories hg.denotes

theorem IsFile.noDirBit (hu : Unshared fs holder d f) (hf : IsFile fs d path f) :
    entryAttr (d f.entryRelSector) f.entryOffset &&& attrDir = 0 := by
  have hfile := hf.file
  rw [Found.isDir, (hf.sits hu).attr, decide_eq_false_iff_not, not_not] at hfile
  exact hfile

theorem IsFile.place (hf : IsFile fs d path f) :
    f.entryOffset ≤ 480 ∧ f.entryOffset % 32 = 0 ∧ fs.unserved f.entryRelSector 1 = false := by
  have hleads := hf.denotes.leads
  rw [clusterOf_rootFound] at hleads
  obtain ⟨name, hhit⟩ := hleads.isHit hf.names_ne
  exact ⟨hhit.place.1, hhit.place.2, reply_ne_none hhit.sector⟩

theorem Unshared.not_fresh (hu : Unshared fs holder d f)
    (hfresh : ∀ c ∈ cs, fs.IsCluster c ∧ fs.entry d c = 0) {c : Nat} (hc : holder c ≠ .nobody) : c ∉ cs :=
  fun hmem => hu.used hc (hfresh c hmem).2

theorem patched_isFile (hu : Unshared fs holder d f) (hf : IsFile fs d path f) {first size : Nat}
    (hp : fs.Patched (fun c => holder c = .directory) d d' f.entryRelSector f.entryOffset first size)
    {q : Path} (hg : IsFile fs d q g) :
    IsFile fs d' q (moved f.entryRelSector f.entryOffset first size g) := by
  have hroot : moved f.entryRelSector f.entryOffset first size fs.rootFound = fs.rootFound := by
    obtain ⟨c, i, -, -, hrel⟩ := (hf.sits hu).cluster
    have hstart := hu.laid.accepted.noWrap hu.laid.covers.1
    have hpos := Nat.mul_pos hu.laid.accepted.fatsPos hu.laid.accepted.sizePos
    rw [moved, if_neg]
    rintro ⟨heq, -⟩
    rw [hrel, Fat32Fs.clusterSector] at heq
    have hzero : fs.rootFound.entryRelSector = 0 := rfl
    omega
  refine ⟨hg.absolute, ?_, by rw [Fat32Fs.moved_isDir, hg.file]⟩
  exact Fat32Fs.denotes_patched hu.laid (hu.chained (by decide)) hp (hf.noDirBit hu) hu.root hroot
    hu.directories hg.denotes

theorem IsFile.apart (hu : Unshared fs holder d f) (hf : IsFile fs d path f) {c i : Nat}
    (hc : holder c = .file) (hi : i < fs.sectorsPerCluster) : fs.clusterSector c i ≠ f.entryRelSector := by
  obtain ⟨c₀, i₀, hdir, hi₀, hrel⟩ := (hf.sits hu).cluster
  have hcl := hu.clusters c (by rw [hc]; decide)
  have hcl₀ := hu.clusters c₀ (by rw [hdir]; decide)
  rw [hrel]
  intro heq
  rw [(Fat32Fs.clusterSector_inj hcl.1 hcl₀.1 hi hi₀ heq).1, hdir] at hc
  cases hc

section After

variable (hu : Unshared fs holder d f) (hf : IsFile fs d path f)
  (hw : fs.Rewritten (fun c => holder c = .written) d d' f.entryRelSector f.entryOffset data cs)
  (hdata : data.length < 2 ^ 32)

include hu hf hw hdata

theorem rewritten_patched : fs.Patched (fun c => holder c = .directory) d d' f.entryRelSector f.entryOffset
    (cs.headD 0) data.length where
  entry c hc := by
    have hused : holder c ≠ .nobody := by rw [hc]; decide
    exact hw.entry c (hu.clusters c hused) (hu.not_fresh hw.fresh hused) (by rw [hc]; decide)
  data c hc i hi := by
    have hused : holder c ≠ .nobody := by rw [hc]; decide
    exact hw.data c (hu.clusters c hused) (hu.not_fresh hw.fresh hused) i hi
  room := by
    have hle := hf.place.1
    rw [hu.length]
    omega
  aligned := hf.place.2.1
  attr := by
    have hsits := hf.sits hu
    rw [← hsits.attr]
    exact hsits.notLfn
  first := by
    have hfew := hu.laid.few
    cases cs with
    | nil => exact by decide
    | cons c cs =>
      have hmax := (hw.fresh c List.mem_cons_self).1.2
      rw [List.headD_cons]
      omega
  size := hdata

theorem rewritten_isFile {q : Path} (hg : IsFile fs d q g) :
    IsFile fs d' q (moved f.entryRelSector f.entryOffset (cs.headD 0) data.length g) :=
  patched_isFile hu hf (rewritten_patched hu hf hw hdata) hg

omit hdata in
theorem rewritten_same : fs.Same (fun c => holder c = .file) d d' where
  clusters c hc := hu.clusters c (by rw [hc]; decide)
  chain := (hu.chained (by decide)).chain
  entry c hc := by
    have hused : holder c ≠ .nobody := by rw [hc]; decide
    exact hw.entry c (hu.clusters c hused) (hu.not_fresh hw.fresh hused) (by rw [hc]; decide)
  data c hc i hi := by
    have hused : holder c ≠ .nobody := by rw [hc]; decide
    rw [hw.data c (hu.clusters c hused) (hu.not_fresh hw.fresh hused) i hi, if_neg (hf.apart hu hc hi)]

theorem rewritten_reads {q : Path} (hg : IsFile fs d q g) (junk : Found) (size : Nat) (bytes : List UInt8) :
    Reads fs d' junk q size bytes ↔
      if SameEntry f g then bytes = data.take size else Reads fs d junk q size bytes := by
  have hafter := rewritten_isFile hu hf hw hdata hg
  rw [hafter.reads, hg.reads]
  split
  · rename_i hsame
    have hmoved : moved f.entryRelSector f.entryOffset (cs.headD 0) data.length g =
        { g with node := { g.node with firstCluster := cs.headD 0, size := data.length } } := if_pos hsame
    have hread : (fs.readFound (moved f.entryRelSector f.entryOffset (cs.headD 0) data.length g) size).look
        (fs.reply d'.volume) = some (some (data.take size)) :=
      Fat32Fs.readFound_stores hu.laid hafter.file (by rw [hmoved]) (by rw [hmoved]) hw.stores size
    rw [hread, Option.some_inj, Option.some_inj, eq_comm]
  · rename_i hother
    have hmoved : moved f.entryRelSector f.entryOffset (cs.headD 0) data.length g = g := if_neg hother
    rw [hmoved, Fat32Fs.look_readFound hu.laid (rewritten_same hu hf hw)
      (hu.files _ g hg.denotes hg.file hother)]

end After

theorem writeOp_rewrites {junk : Found} {fuel : Nat} (hno : NoFault fails) (hu : Unshared fs holder s.sector f)
    (hf : IsFile fs s.sector path f) (hdata : data.length + fs.fat32ClusterSize < 2 ^ 32) :
    Ensures (fs.access fails) (fs.fat32WriteOp fuel junk path data) s fun r s' => ∀ m, r = some (some m) →
      m = data.length ∧ ∃ cs, fs.Rewritten (fun c => holder c = .written) s.sector s'.sector
        f.entryRelSector f.entryOffset data cs := by
  rw [Fat32Fs.fat32WriteOp]
  refine ensures_bind hf.resolve_finds fun r s₁ hr => ?_
  obtain ⟨hsame, hfound⟩ := hr
  rcases r with _ | _ | n
  · exact ensures_done fun _ hr => by cases hr
  · exact ensures_done fun _ hr => by cases hr
  obtain rfl := hfound n rfl
  obtain ⟨hle, hmod, hserved⟩ := hf.place
  obtain ⟨c, i, hdir, hi, hrel⟩ := (hf.sits hu).cluster
  have hused : holder c ≠ .nobody := by rw [hdir]; decide
  have hoff : misplaced n.entryOffset = false := by
    rw [misplaced, Bool.or_eq_false_iff, decide_eq_false_iff_not, decide_eq_false_iff_not]
    exact ⟨by omega, fun h => h hmod⟩
  have hlength := Fat32Fs.writeFound_length fs fails s₁ n data
  rw [← hsame] at hu ⊢
  have hplace : ∃ c i, fs.IsCluster c ∧ fs.entry s₁.sector c ≠ 0 ∧ i < fs.sectorsPerCluster ∧
      n.entryRelSector = fs.clusterSector c i := ⟨c, i, hu.clusters c hused, hu.used hused, hi, hrel⟩
  have hrewrites : Ensures (fs.access fails) (fs.writeFound n data) s₁ fun r s' => ∀ m, r = some (some m) →
      ∃ cs, fs.Rewritten (fun c => holder c = .written) s₁.sector s'.sector n.entryRelSector n.entryOffset
        data cs := Fat32Fs.writeFound_rewrites hu.laid hno hu.length hf.file hserved hoff
          (hu.chained (by decide)) hu.written hplace hdata
  exact fun m hm => ⟨hlength m hm, hrewrites m hm⟩

theorem write_then_read {junk : Found} {fuel m : Nat} {s' : Store} (hno : NoFault fails)
    (hf : IsFile fs s.sector path f) (hu : Unshared fs holder s.sector f)
    (hdata : data.length + fs.fat32ClusterSize < 2 ^ 32)
    (hrun : (fs.fat32WriteOp fuel junk path data).run (fs.access fails) s = (some (some m), s')) :
    m = data.length ∧ ∃ first, ∀ q g, IsFile fs s.sector q g →
      IsFile fs s'.sector q (moved f.entryRelSector f.entryOffset first data.length g) ∧
        ∀ junk size bytes, Reads fs s'.sector junk q size bytes ↔
          if SameEntry f g then bytes = data.take size else Reads fs s.sector junk q size bytes := by
  have hens : Ensures (fs.access fails) (fs.fat32WriteOp fuel junk path data) s _ :=
    writeOp_rewrites hno hu hf hdata
  rw [Ensures, hrun] at hens
  obtain ⟨hm, cs, hw⟩ := hens m rfl
  have hlt : data.length < 2 ^ 32 := by omega
  exact ⟨hm, cs.headD 0, fun q g hg => ⟨rewritten_isFile hu hf hw hlt hg, rewritten_reads hu hf hw hlt hg⟩⟩

end RoundTrip

section Example

def smallHolder (c : Nat) : Holder :=
  if c = 2 then .directory else if c = 3 then .written else .nobody

theorem smallVolume_denotes {names : List Name} {g : Found}
    (h : Denotes smallFs smallVolume.volume smallFs.rootFound names g) :
    g = smallFs.rootFound ∨ g = fileA := by
  cases names with
  | nil => exact Or.inl h
  | cons name names =>
    obtain ⟨-, g', hfind, hrest⟩ := h
    obtain rfl := smallVolume_finds hfind
    cases names with
    | nil => exact Or.inr hrest
    | cons name names => exact absurd hrest.1 (by decide)

theorem smallVolume_unshared : Unshared smallFs smallHolder smallVolume fileA where
  laid := smallVolume_wellFormed.laid
  length := smallVolume_wellFormed.length
  clusters c hc := by
    refine smallVolume_wellFormed.clusters c ?_
    simp only [smallHolder] at hc
    grind
  chain c hc := by
    have hused : c = 2 ∨ c = 3 := by
      simp only [smallHolder] at hc
      grind
    rcases hused with rfl | rfl
    · exact Or.inl (by decide +kernel)
    · exact Or.inl (by decide +kernel)
  root := rfl
  directories names g hg hdir := by
    rcases smallVolume_denotes hg with rfl | rfl
    · exact Or.inr rfl
    · exact absurd hdir (by decide)
  files names g hg hfile hother := by
    rcases smallVolume_denotes hg with rfl | rfl
    · exact absurd (rootFound_isDir smallFs) (by rw [hfile]; decide)
    · exact absurd ⟨rfl, rfl⟩ hother
  written := Or.inr rfl

def servedWrite : Option (Option Nat) × Store :=
  (smallFs.fat32WriteOp 2 fileA [slash, 97] [1, 2, 3]).run (smallFs.access fun _ => false) ⟨smallVolume, 0⟩

theorem write_then_read_three : Reads smallFs servedWrite.2.sector fileA [slash, 97] 2 [1, 2] := by
  have hsome : servedWrite.1 = some (some 3) := by decide +kernel
  obtain ⟨-, first, hall⟩ := write_then_read (s := ⟨smallVolume, 0⟩) (fun _ => rfl) fileA_isFile
    smallVolume_unshared (by decide) (Prod.ext hsome rfl)
  exact ((hall _ _ fileA_isFile).2 fileA 2 [1, 2]).mpr rfl

end Example

end HouseOS.Fat32
