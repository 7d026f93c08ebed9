import HouseOS.Fat32.RoundTrip
import HouseOS.Fat32.Walk

namespace HouseOS.Fat32

open HouseOS.Components
open HouseOS.Disk
open HouseOS.Loop
open HouseOS.Program
open HouseOS.Program.Prog
open HouseOS.Word

def attrArchive : Nat := 0x20

def asciiToUpper (c : UInt8) : UInt8 := if 97 ≤ c ∧ c ≤ 122 then c - 97 + 65 else c

def fat32IsNameChar (c : UInt8) : Bool :=
  decide (97 ≤ c ∧ c ≤ 122) || decide (65 ≤ c ∧ c ≤ 90) || decide (48 ≤ c ∧ c ≤ 57) ||
    decide (c ∈ [95, 45, 36, 126])

def shortNameLoop : Name → List UInt8 → List UInt8 → Bool → Option (List UInt8 × List UInt8)
  | [], base, ext, _ => if base = [] then none else some (base, ext)
  | c :: name, base, ext, haveDot =>
      if c = 46 then if haveDot then none else shortNameLoop name base ext true
      else if !fat32IsNameChar c then none
      else if haveDot then
        if 3 ≤ ext.length then none else shortNameLoop name base (ext ++ [asciiToUpper c]) haveDot
      else if 8 ≤ base.length then none
      else shortNameLoop name (base ++ [asciiToUpper c]) ext haveDot

def padded (n : Nat) (text : List UInt8) : List UInt8 := text ++ List.replicate (n - text.length) 32

def fat32MakeShortName (name : Name) : Option (List UInt8) :=
  if name = [] ∨ name = [46] ∨ name = [46, 46] then none
  else (shortNameLoop name [] [] false).map fun parts => padded 8 parts.1 ++ padded 3 parts.2

def fat32FillDirent (shortName : List UInt8) (attr first size : Nat) : Dirent :=
  shortName ++ (UInt8.ofNat attr :: List.replicate 8 0) ++ le16 (first / 2 ^ 16) ++ List.replicate 4 0 ++
    le16 first ++ le32 size

def splitParent (path : Path) : Option (Path × Name) :=
  if path.head? ≠ some slash then none
  else
    match splitLast slash (path.reverse.dropWhile (· = slash)).reverse with
    | none => none
    | some (dir, name) => if 256 ≤ name.length then none else some (dir, name)

namespace Fat32Fs

variable (fs : Fat32Fs)

def fat32ResolveParent (fuel : Nat) (junk : Found) (path : Path) : Driver (Option (Option (Nat × Name))) :=
  match splitParent path with
  | none => .done (some none)
  | some (dir, name) =>
      if dir = [] then .done (some (some (fs.rootCluster, name)))
      else
        (fs.fat32Resolve fuel junk dir).bind fun
          | none => .done none
          | some none => .done (some none)
          | some (some parent) =>
              .done (some (if parent.isDir then some (fs.clusterOf parent, name) else none))

def fat32CreateFileOp (fuel : Nat) (junk : Found) (path : Path) : Driver (Option Bool) :=
  (fs.fat32ResolveParent fuel junk path).bind fun
    | none => .done none
    | some none => .done (some false)
    | some (some (parent, name)) =>
        match fat32MakeShortName name with
        | none => .done (some false)
        | some shortName =>
            (fs.fat32DirFind fuel parent name).bind fun
              | none => .done none
              | some (some _) => .done (some true)
              | some none =>
                  (fs.fat32DirFindFreeSlot fuel parent).bind fun
                    | none => .done none
                    | some none => .done (some false)
                    | some (some slot) =>
                        (fat32WriteDirentAt slot.1 slot.2 (fat32FillDirent shortName attrArchive 0 0)).bind fun ok =>
                          .done (some ok)

end Fat32Fs

section ShortName

variable {name stem rest base ext b e : List UInt8} {c : UInt8}

theorem nameChar_upper (hc : fat32IsNameChar c = true) : asciiToUpper c ≠ 0 ∧ asciiToUpper c ≠ 32 ∧
    asciiToUpper c ≠ 0xE5 ∧ asciiToLower (asciiToUpper c) = asciiToLower c ∧ asciiToLower c ≠ 0 := by
  have hall : ∀ n : Fin 256, fat32IsNameChar (UInt8.ofNat n) = true →
      asciiToUpper (UInt8.ofNat n) ≠ 0 ∧ asciiToUpper (UInt8.ofNat n) ≠ 32 ∧
        asciiToUpper (UInt8.ofNat n) ≠ 0xE5 ∧
          asciiToLower (asciiToUpper (UInt8.ofNat n)) = asciiToLower (UInt8.ofNat n) ∧
            asciiToLower (UInt8.ofNat n) ≠ 0 := by
    decide +kernel
  have h := hall ⟨c.toNat, c.toNat_lt⟩
  rw [UInt8.ofNat_toNat] at h
  exact h hc

theorem shortNameLoop_ext : ∀ {name ext : List UInt8}, shortNameLoop name base ext true = some (b, e) →
    ext.length ≤ 3 → b = base ∧ b ≠ [] ∧ e = ext ++ name.map asciiToUpper ∧ e.length ≤ 3 ∧
      ∀ c ∈ name, fat32IsNameChar c = true := by
  intro name
  induction name with
  | nil =>
    intro ext h hext
    rw [shortNameLoop] at h
    split at h
    · cases h
    · rename_i hne
      cases h
      exact ⟨rfl, hne, by simp, hext, by simp⟩
  | cons c name ih =>
    intro ext h hext
    rw [shortNameLoop] at h
    split at h
    · rw [if_pos rfl] at h
      cases h
    split at h
    · cases h
    rename_i hc
    rw [if_pos rfl] at h
    split at h
    · cases h
    rename_i hroom
    obtain ⟨hb, hne, he, hlen, hall⟩ := ih h (by rw [List.length_append, List.length_singleton]; omega)
    refine ⟨hb, hne, by rw [he, List.map_cons, List.append_assoc]; rfl, hlen, ?_⟩
    rw [List.forall_mem_cons]
    exact ⟨by simpa using hc, hall⟩

structure Short (name stem rest : List UInt8) : Prop where
  parts : name = stem ∧ rest = [] ∨ name = stem ++ 46 :: rest
  stemChars : ∀ c ∈ stem, fat32IsNameChar c = true
  restChars : ∀ c ∈ rest, fat32IsNameChar c = true

theorem shortNameLoop_base : ∀ {name base : List UInt8}, shortNameLoop name base [] false = some (b, e) →
    base.length ≤ 8 → ∃ stem rest, Short name stem rest ∧ b = base ++ stem.map asciiToUpper ∧
      e = rest.map asciiToUpper ∧ b ≠ [] ∧ b.length ≤ 8 ∧ e.length ≤ 3 := by
  intro name
  induction name with
  | nil =>
    intro base h hbase
    rw [shortNameLoop] at h
    split at h
    · cases h
    · rename_i hne
      cases h
      exact ⟨[], [], ⟨Or.inl ⟨rfl, rfl⟩, by simp, by simp⟩, by simp, rfl, hne, hbase, by simp⟩
  | cons c name ih =>
    intro base h hbase
    rw [shortNameLoop] at h
    split at h
    · rename_i hdot
      rw [if_neg (by decide)] at h
      obtain ⟨hb, hne, he, hlen, hall⟩ := shortNameLoop_ext h (by simp)
      exact ⟨[], name, ⟨Or.inr (by rw [hdot]; rfl), by simp, hall⟩, by simp [hb], he, hne, hb ▸ hbase, hlen⟩
    split at h
    · cases h
    rename_i hc
    rw [if_neg (by decide)] at h
    split at h
    · cases h
    rename_i hroom
    obtain ⟨stem, rest, hshort, hb, he, hne, hblen, helen⟩ :=
      ih h (by rw [List.length_append, List.length_singleton]; omega)
    refine ⟨c :: stem, rest, ⟨?_, ?_, hshort.restChars⟩, by rw [hb, List.map_cons, List.append_assoc]; rfl, he,
      hne, hblen, helen⟩
    · exact hshort.parts.imp (fun h => ⟨by rw [h.1], h.2⟩) fun h => by rw [h]; rfl
    · rw [List.forall_mem_cons]
      exact ⟨by simpa using hc, hshort.stemChars⟩

-- what the driver itself reads the short name of a name as
def nameBack (stem rest : List UInt8) : Name :=
  stem.map asciiToLower ++ if rest = [] then [] else 46 :: rest.map asciiToLower

theorem Short.nameBack (h : Short name stem rest) (hdot : name.getLast? ≠ some 46) :
    nameBack stem rest = name.map asciiToLower := by
  rw [Fat32.nameBack]
  rcases h.parts with ⟨rfl, rfl⟩ | rfl
  · simp
  · have hne : rest ≠ [] := by
      rintro rfl
      simp at hdot
    rw [if_neg hne, List.map_append]
    rfl

theorem makeShortName_some {short : List UInt8} (h : fat32MakeShortName name = some short) :
    ∃ stem rest, Short name stem rest ∧ stem ≠ [] ∧ stem.length ≤ 8 ∧ rest.length ≤ 3 ∧
      short = padded 8 (stem.map asciiToUpper) ++ padded 3 (rest.map asciiToUpper) := by
  rw [fat32MakeShortName] at h
  split at h
  · cases h
  rw [Option.map_eq_some_iff] at h
  obtain ⟨⟨b, e⟩, hloop, rfl⟩ := h
  obtain ⟨stem, rest, hshort, rfl, rfl, hne, hblen, helen⟩ := shortNameLoop_base hloop (by simp)
  rw [List.nil_append, List.length_map] at hblen
  rw [List.length_map] at helen
  exact ⟨stem, rest, hshort, by simpa using hne, hblen, helen, rfl⟩

theorem padded_length {n : Nat} {text : List UInt8} (h : text.length ≤ n) : (padded n text).length = n := by
  rw [padded, List.length_append, List.length_replicate]
  omega

theorem padded_takeWhile {n : Nat} {text : List UInt8} (h : ∀ c ∈ text, c ≠ 32) :
    (padded n text).takeWhile (· ≠ 32) = text := by
  have hpad : (List.replicate (n - text.length) (32 : UInt8)).takeWhile (· ≠ 32) = [] := by
    rw [List.takeWhile_replicate]
    rfl
  rw [padded, List.takeWhile_append_of_pos (by simpa using h), hpad, List.append_nil]

end ShortName

section Dirent

variable {short sec : List UInt8} {attr first size off : Nat}

theorem fillDirent_length (h : short.length = 11) (attr first size : Nat) :
    (fat32FillDirent short attr first size).length = 32 := by
  simp [fat32FillDirent, le16, le32, h]

theorem fillDirent_name (h : short.length = 11) {i : Nat} (hi : i < 11) :
    (fat32FillDirent short attr first size).getD i 0 = short.getD i 0 := by
  simp only [fat32FillDirent, List.append_assoc, List.getD_eq_getElem?_getD]
  rw [List.getElem?_append_left (by omega)]

theorem fillDirent_fields (h : short.length = 11) (hlen : off + 32 ≤ sec.length) (attr first size : Nat) :
    entryAttr (placed sec off (fat32FillDirent short attr first size)) off = attr % 2 ^ 8 ∧
      entryCluster (placed sec off (fat32FillDirent short attr first size)) off = first % 2 ^ 32 ∧
        entrySize (placed sec off (fat32FillDirent short attr first size)) off = size % 2 ^ 32 := by
  have hin : ∀ k, k < 32 → byteAt (placed sec off (fat32FillDirent short attr first size)) (off + k) =
      byteAt (fat32FillDirent short attr first size) k := by
    intro k hk
    rw [byteAt, placed_inside hlen (fillDirent_length h _ _ _) hk, byteAt]
  simp (disch := omega) only [entryAttr, entryCluster, entrySize, rdLe16, rdLe32, Nat.add_assoc, hin]
  simp [byteAt, fat32FillDirent, le16, le32, h]
  omega

theorem map_getD_range {text : List UInt8} {n : Nat} (h : text.length = n) :
    ((List.range n).map fun i => text.getD i 0) = text := by
  refine List.ext_getElem (by simp [h]) fun i hi hi' => ?_
  simp [hi']

variable {stem rest name : List UInt8}

theorem shortPart_back {start n : Nat} {text : List UInt8} (hchars : ∀ c ∈ text, fat32IsNameChar c = true)
    (hlen : text.length ≤ n)
    (h : ∀ i < n, nameByte sec off (start + i) = (padded n (text.map asciiToUpper)).getD i 0) :
    shortPart sec off start n = text.map asciiToLower := by
  have hmap : ((List.range n).map fun i => nameByte sec off (start + i)) = padded n (text.map asciiToUpper) := by
    rw [List.map_congr_left fun i hi => h i (List.mem_range.mp hi),
      map_getD_range (padded_length (by rwa [List.length_map]))]
  rw [shortPart, hmap, padded_takeWhile, List.map_map]
  · exact List.map_congr_left fun c hc => (nameChar_upper (hchars c hc)).2.2.2.1
  · rw [List.forall_mem_map]
    exact fun c hc => (nameChar_upper (hchars c hc)).2.1

theorem decodeShortName_back (hshort : Short name stem rest) (hstem : stem.length ≤ 8) (hrest : rest.length ≤ 3)
    (h : ∀ i < 11, nameByte sec off i =
      (padded 8 (stem.map asciiToUpper) ++ padded 3 (rest.map asciiToUpper)).getD i 0) :
    decodeShortName sec off = nameBack stem rest := by
  have hlen : (padded 8 (stem.map asciiToUpper)).length = 8 := padded_length (by rwa [List.length_map])
  have hfirst : shortPart sec off 0 8 = stem.map asciiToLower := by
    refine shortPart_back hshort.stemChars hstem fun i hi => ?_
    rw [Nat.zero_add, h i (by omega), List.getD_eq_getElem?_getD, List.getElem?_append_left (by omega),
      List.getD_eq_getElem?_getD]
  have hext : ∀ i < 3, nameByte sec off (8 + i) = (padded 3 (rest.map asciiToUpper)).getD i 0 := by
    intro i hi
    rw [h (8 + i) (by omega), List.getD_eq_getElem?_getD, List.getElem?_append_right (by omega), hlen,
      Nat.add_sub_cancel_left, List.getD_eq_getElem?_getD]
  have hsecond : shortPart sec off 8 3 = rest.map asciiToLower := shortPart_back hshort.restChars hrest hext
  have hdot : nameByte sec off 8 = 32 ↔ rest = [] := by
    rw [show 8 = 8 + 0 from rfl, hext 0 (by decide)]
    cases hr : rest with
    | nil => exact iff_of_true rfl rfl
    | cons c rest =>
      refine iff_of_false ?_ (List.cons_ne_nil c rest)
      exact (nameChar_upper (hshort.restChars c (by rw [hr]; exact List.mem_cons_self))).2.1
  have hnonzero : ∀ c ∈ nameBack stem rest, c ≠ 0 := by
    intro c hc
    have hpart : ∀ {text : List UInt8}, (∀ c ∈ text, fat32IsNameChar c = true) →
        c ∈ text.map asciiToLower → c ≠ 0 := by
      intro text hchars hmem
      obtain ⟨x, hx, rfl⟩ := List.mem_map.mp hmem
      exact (nameChar_upper (hchars x hx)).2.2.2.2
    rw [nameBack, List.mem_append] at hc
    rcases hc with hc | hc
    · exact hpart hshort.stemChars hc
    · split at hc
      · cases hc
      · rcases List.mem_cons.mp hc with rfl | hc
        · decide
        · exact hpart hshort.restChars hc
  have htext : decodeShortName sec off = cText (nameBack stem rest) := by
    rw [decodeShortName, hfirst, hsecond, nameBack]
    by_cases hr : rest = []
    · rw [if_neg (by rw [hdot.mpr hr]; decide), if_pos hr]
    · rw [if_pos (by rwa [ne_eq, hdot]), if_neg hr]
  rw [htext, cText, List.takeWhile_eq_self_iff.mpr (by simpa using hnonzero)]

end Dirent

section Slots

variable {τ ρ : Type} {w : DirWalk τ ρ} {d d' : Sectors}

def walkSlots (w : DirWalk τ ρ) (d : Sectors) : List (Nat × Nat) → τ → Step τ ρ
  | [], t => .go t
  | p :: l, t =>
      match w.entry p.1 (d p.1) p.2 t with
      | .go t => walkSlots w d l t
      | .ret r => .ret r

theorem walkSlots_append (l l' : List (Nat × Nat)) (t : τ) : walkSlots w d (l ++ l') t =
    match walkSlots w d l t with
    | .go t => walkSlots w d l' t
    | .ret r => .ret r := by
  induction l generalizing t with
  | nil => rfl
  | cons p l ih =>
    rw [List.cons_append, walkSlots, walkSlots]
    cases w.entry p.1 (d p.1) p.2 t with
    | ret r => rfl
    | go t' => exact ih t'

theorem walkSlots_congr {l : List (Nat × Nat)}
    (h : ∀ p ∈ l, ∀ t, w.entry p.1 (d' p.1) p.2 t = w.entry p.1 (d p.1) p.2 t) (t : τ) :
    walkSlots w d' l t = walkSlots w d l t := by
  induction l generalizing t with
  | nil => rfl
  | cons p l ih =>
    rw [walkSlots, walkSlots, h p List.mem_cons_self]
    cases w.entry p.1 (d p.1) p.2 t with
    | ret r => rfl
    | go t' => exact ih (fun q hq => h q (List.mem_cons_of_mem p hq)) t'

def sectorSlots (rel : Nat) : List (Nat × Nat) := (List.range 16).map fun k => (rel, 32 * k)

theorem walkSector_slots {rel : Nat} (left k : Nat) (t : τ) : walkSector w rel (d rel) left (32 * k) t =
    walkSlots w d ((List.range left).map fun j => (rel, 32 * (k + j))) t := by
  induction left generalizing k t with
  | zero => rfl
  | succ left ih =>
    have hrest : (List.range left).map ((fun j => (rel, 32 * (k + j))) ∘ Nat.succ) =
        (List.range left).map fun j => (rel, 32 * (k + 1 + j)) :=
      List.map_congr_left fun j _ => by simp only [Function.comp_apply]; congr 2; omega
    rw [List.range_succ_eq_map, List.map_cons, List.map_map, walkSector, walkSlots, Nat.add_zero, hrest]
    cases w.entry rel (d rel) (32 * k) t with
    | ret r => rfl
    | go t' => exact ih (k + 1) t'

namespace Fat32Fs

variable {fs : Fat32Fs}

def clusterSlots (fs : Fat32Fs) (c : Nat) : List (Nat × Nat) :=
  (List.range fs.sectorsPerCluster).flatMap fun i => sectorSlots (fs.clusterSector c i)

def slots (fs : Fat32Fs) (cs : List Nat) : List (Nat × Nat) := cs.flatMap fs.clusterSlots

theorem mem_slots {cs : List Nat} {p : Nat × Nat} : p ∈ fs.slots cs ↔
    ∃ c ∈ cs, ∃ i < fs.sectorsPerCluster, ∃ k < 16, p = (fs.clusterSector c i, 32 * k) := by
  simp only [slots, clusterSlots, sectorSlots, List.mem_flatMap, List.mem_map, List.mem_range, eq_comm]

theorem walkCluster_slots (h : fs.Laid) {c : Nat} (hc : fs.IsCluster c) : ∀ (left i : Nat) (t : τ),
    i + left ≤ fs.sectorsPerCluster →
      (walkCluster w (fs.fat32ClusterToRelLba c) left i t).look (fs.reply d.volume) =
        walkSlots w d ((List.range left).flatMap fun j => sectorSlots (fs.clusterSector c (i + j))) t := by
  intro left
  induction left with
  | zero => exact fun _ _ _ => rfl
  | succ left ih =>
    intro i t hi
    have hlt : i < fs.sectorsPerCluster := by omega
    have hrest : (List.range left).flatMap ((fun j => sectorSlots (fs.clusterSector c (i + j))) ∘ Nat.succ) =
        (List.range left).flatMap fun j => sectorSlots (fs.clusterSector c (i + 1 + j)) := by
      congr 1
      funext j
      simp only [Function.comp_apply]
      congr 2
      omega
    have hsector : walkSector w (fs.clusterSector c i) (d (fs.clusterSector c i)) 16 0 t =
        walkSlots w d (sectorSlots (fs.clusterSector c i)) t := by
      rw [sectorSlots, ← Nat.mul_zero 32, walkSector_slots 16 0 t]
      simp only [Nat.zero_add]
    rw [walkCluster, look_ask, reply_cluster h d hc hlt, h.clusterSector_eq hc hlt]
    simp only [hsector]
    rw [List.range_succ_eq_map, List.flatMap_cons, List.flatMap_map, walkSlots_append, Nat.add_zero]
    cases walkSlots w d (sectorSlots (fs.clusterSector c i)) t with
    | ret r => rfl
    | go t' => exact (ih (i + 1) t' (by omega)).trans (by rw [← hrest]; rfl)

inductive Runs (fs : Fat32Fs) (d : Sectors) : Nat → List Nat → Prop where
  | last {c : Nat} (hc : fs.IsCluster c) (hend : isEoc (fs.entry d c) = true) : Runs fs d c [c]
  | next {c : Nat} {cs : List Nat} (hc : fs.IsCluster c) (hrest : Runs fs d (fs.entry d c) cs) :
      Runs fs d c (c :: cs)

-- what a walk over a chain comes to: at the last cluster its link may have a say
def walkEnd (fs : Fat32Fs) (w : DirWalk τ ρ) (d : Sectors) (cs : List Nat) (t : τ) : ρ :=
  match walkSlots w d (fs.slots cs) t with
  | .ret r => r
  | .go t => (cs.getLast?.bind fun c => w.link c (fs.entry d c)).getD (w.ended t)

theorem walkChain_runs (h : fs.Laid) (hlink : ∀ c next, fs.IsCluster next → w.link c next = none) {c : Nat}
    {cs : List Nat} (hruns : fs.Runs d c cs) : ∀ (fuel : Nat) (t : τ), cs.length < fuel →
      (walkChain w fs fuel c t).look (fs.reply d.volume) = some (fs.walkEnd w d cs t) := by
  induction hruns with
  | @last c hc hend =>
    intro fuel t hfuel
    obtain ⟨fuel, rfl⟩ : ∃ f, fuel = f + 2 := ⟨fuel - 2, by simp at hfuel; omega⟩
    have hgo : ¬ (c < 2 ∨ isEoc c = true) := by
      rw [h.not_eoc hc]
      have := hc.1
      simp
      omega
    have hcluster : (walkCluster w (fs.fat32ClusterToRelLba c) fs.sectorsPerCluster 0 t).look
        (fs.reply d.volume) = _ := walkCluster_slots h hc fs.sectorsPerCluster 0 t (by omega)
    simp only [Nat.zero_add] at hcluster
    rw [walkChain, if_neg hgo, look_bind, hcluster, walkEnd, slots, List.flatMap_singleton, clusterSlots]
    cases walkSlots w d ((List.range fs.sectorsPerCluster).flatMap fun i =>
        sectorSlots (fs.clusterSector c i)) t with
    | ret r => rfl
    | go t' =>
      simp only [look_bind, look_fatGet h d hc, List.getLast?_singleton, Option.bind_some]
      cases w.link c (fs.entry d c) with
      | some r => rfl
      | none =>
        dsimp only
        rw [walkChain, if_pos (Or.inr hend)]
        rfl
  | @next c cs hc hrest ih =>
    intro fuel t hfuel
    obtain ⟨fuel, rfl⟩ : ∃ f, fuel = f + 1 := ⟨fuel - 1, by simp at hfuel; omega⟩
    have hgo : ¬ (c < 2 ∨ isEoc c = true) := by
      rw [h.not_eoc hc]
      have := hc.1
      simp
      omega
    have hnext : fs.IsCluster (fs.entry d c) := by
      cases hrest with
      | last hc _ => exact hc
      | next hc _ => exact hc
    have hne : cs ≠ [] := by
      rintro rfl
      cases hrest
    have hcluster : (walkCluster w (fs.fat32ClusterToRelLba c) fs.sectorsPerCluster 0 t).look
        (fs.reply d.volume) = _ := walkCluster_slots h hc fs.sectorsPerCluster 0 t (by omega)
    simp only [Nat.zero_add] at hcluster
    rw [walkChain, if_neg hgo, look_bind, hcluster, walkEnd, slots, List.flatMap_cons, walkSlots_append,
      clusterSlots]
    cases walkSlots w d ((List.range fs.sectorsPerCluster).flatMap fun i =>
        sectorSlots (fs.clusterSector c i)) t with
    | ret r => rfl
    | go t' =>
      simp only [look_bind, look_fatGet h d hc, hlink c _ hnext]
      rw [ih fuel t' (by simp at hfuel; omega), walkEnd, slots, List.getLast?_cons_of_ne_nil hne]

theorem walkChain_eq (h : fs.Laid) (hlink : ∀ c next, fs.IsCluster next → w.link c next = none) {c : Nat}
    {cs : List Nat} (hruns : fs.Runs d c cs) {fuel : Nat} {t : τ} {r : ρ}
    (hr : (walkChain w fs fuel c t).look (fs.reply d.volume) = some r) : r = fs.walkEnd w d cs t := by
  have hmore := walkChain_runs h hlink hruns (max fuel (cs.length + 1)) t (by omega)
  rw [walkChain_look] at hr hmore
  rw [loop_mono (Nat.le_max_left fuel (cs.length + 1)) hr] at hmore
  exact Option.some.inj hmore

section Runs

variable {c last newc : Nat} {cs cs' : List Nat}

theorem Runs.clusters (h : fs.Runs d c cs) : ∀ x ∈ cs, fs.IsCluster x := by
  induction h with
  | last hc _ => simpa using hc
  | next hc _ ih => exact List.forall_mem_cons.mpr ⟨hc, ih⟩

theorem Runs.head (h : fs.Runs d c cs) : c ∈ cs := by
  cases h with
  | last _ _ => exact List.mem_cons_self
  | next _ _ => exact List.mem_cons_self

theorem Runs.congr (h : fs.Runs d c cs) (hsame : ∀ x ∈ cs, fs.entry d' x = fs.entry d x) : fs.Runs d' c cs := by
  induction h with
  | last hc hend => exact .last hc (by rwa [hsame _ List.mem_cons_self])
  | next hc _ ih =>
    refine .next hc ?_
    rw [hsame _ List.mem_cons_self]
    exact ih fun x hx => hsame x (List.mem_cons_of_mem _ hx)

theorem Runs.used (h : fs.Runs d c cs) : ∀ x ∈ cs, fs.entry d x ≠ 0 := by
  induction h with
  | @last c hc hend =>
    rw [List.forall_mem_singleton]
    intro hzero
    rw [hzero] at hend
    cases hend
  | next hc hrest ih =>
    refine List.forall_mem_cons.mpr ⟨fun hzero => ?_, ih⟩
    have hcl := hrest.clusters _ hrest.head
    rw [hzero] at hcl
    exact absurd hcl.1 (by decide)

theorem Runs.unique (hl : fs.Laid) (h : fs.Runs d c cs) (h' : fs.Runs d c cs') : cs = cs' := by
  induction h generalizing cs' with
  | @last c hc hend =>
    cases h' with
    | last _ _ => rfl
    | next _ hrest =>
      rw [hl.not_eoc (hrest.clusters _ hrest.head)] at hend
      cases hend
  | @next c cs hc hrest ih =>
    cases h' with
    | last _ hend =>
      rw [hl.not_eoc (hrest.clusters _ hrest.head)] at hend
      cases hend
    | next _ hrest' => rw [ih hrest']

theorem Runs.suffix (h : fs.Runs d c cs) : ∀ x ∈ cs, ∃ l, l <:+ cs ∧ fs.Runs d x l := by
  induction h with
  | @last c hc hend =>
    rw [List.forall_mem_singleton]
    exact ⟨[c], List.suffix_refl _, .last hc hend⟩
  | @next c cs hc hrest ih =>
    refine List.forall_mem_cons.mpr ⟨⟨c :: cs, List.suffix_refl _, .next hc hrest⟩, fun x hx => ?_⟩
    obtain ⟨l, hl, hruns⟩ := ih x hx
    exact ⟨l, hl.trans (List.suffix_cons c cs), hruns⟩

theorem Runs.nodup (hl : fs.Laid) (h : fs.Runs d c cs) : cs.Nodup := by
  induction h with
  | last _ _ => exact List.nodup_singleton _
  | @next c cs hc hrest ih =>
    refine List.nodup_cons.mpr ⟨fun hmem => ?_, ih⟩
    -- a chain that came back to its first cluster would be as long as its own tail
    obtain ⟨l, hsuffix, hruns⟩ := hrest.suffix c hmem
    obtain rfl := hruns.unique hl (.next hc hrest)
    have hle := hsuffix.length_le
    rw [List.length_cons] at hle
    omega

theorem Runs.last_mem (h : fs.Runs d c cs) : ∃ last, cs.getLast? = some last ∧ fs.IsCluster last ∧
    isEoc (fs.entry d last) = true := by
  induction h with
  | @last c hc hend => exact ⟨c, rfl, hc, hend⟩
  | @next c cs hc hrest ih =>
    obtain ⟨last, hlast, hcl, hend⟩ := ih
    exact ⟨last, by rw [List.getLast?_cons, hlast]; rfl, hcl, hend⟩

theorem Runs.grow (hl : fs.Laid) (h : fs.Runs d c cs) (hlast : cs.getLast? = some last) (hnew : fs.IsCluster newc)
    (hlink : fs.entry d' last = newc) (hend : isEoc (fs.entry d' newc) = true)
    (hsame : ∀ x ∈ cs, x ≠ last → fs.entry d' x = fs.entry d x) : fs.Runs d' c (cs ++ [newc]) := by
  induction h with
  | @last c hc _ =>
    obtain rfl : c = last := Option.some.inj hlast
    exact .next hc (by rw [hlink]; exact .last hnew hend)
  | @next c cs hc hrest ih =>
    have hne : cs ≠ [] := by
      rintro rfl
      cases hrest
    rw [List.getLast?_cons_of_ne_nil hne] at hlast
    have hnodup := Runs.nodup hl (.next hc hrest)
    have hc' : c ≠ last := by
      rintro rfl
      exact (List.nodup_cons.mp hnodup).1 (List.mem_of_getLast? hlast)
    refine .next hc ?_
    rw [hsame c List.mem_cons_self hc']
    exact ih hlast fun x hx => hsame x (List.mem_cons_of_mem c hx)

theorem slots_nodup (hcs : cs.Nodup) (hcl : ∀ x ∈ cs, fs.IsCluster x) : (fs.slots cs).Nodup := by
  have hsector : ∀ rel, (sectorSlots rel).Nodup := fun rel =>
    List.nodup_range.map fun k k' heq => by simpa using heq
  rw [slots, List.nodup_flatMap]
  refine ⟨fun c hc => ?_, hcs.imp_of_mem fun {c c'} hc hc' hne => ?_⟩
  · rw [clusterSlots, List.nodup_flatMap]
    refine ⟨fun i _ => hsector _, List.nodup_range.imp fun {i j} hne => ?_⟩
    intro p hp hp'
    simp only [sectorSlots, List.mem_map] at hp hp'
    obtain ⟨k, -, rfl⟩ := hp
    obtain ⟨k', -, heq⟩ := hp'
    have hrel := congrArg Prod.fst heq
    simp only [clusterSector] at hrel
    omega
  · intro p hp hp'
    simp only [clusterSlots, sectorSlots, List.mem_flatMap, List.mem_map, List.mem_range] at hp hp'
    obtain ⟨i, hi, k, -, rfl⟩ := hp
    obtain ⟨j, hj, k', -, heq⟩ := hp'
    exact hne (clusterSector_inj (hcl c' hc').1 (hcl c hc).1 hj hi (congrArg Prod.fst heq)).1.symm

end Runs

end Fat32Fs

end Slots

section Place

variable {d d' : Sectors} {dir : Nat} {name : Name} {p q : Nat × Nat} {pre post l : List (Nat × Nat)} {g : Found}
  {lfn lfn' : Lfn}

def Ended (d : Sectors) (p : Nat × Nat) : Prop := nameByte (d p.1) p.2 0 = 0x00

def Free (d : Sectors) (p : Nat × Nat) : Prop := IsFree (d p.1) p.2

-- part of a long name
def LongPiece (d : Sectors) (p : Nat × Nat) : Prop := ¬ Free d p ∧ entryAttr (d p.1) p.2 = attrLfn

-- after an end mark come end marks only, and no part of a long name is left before an entry not in use
structure Tidy (d : Sectors) (l : List (Nat × Nat)) : Prop where
  chain : l.IsChain fun p q => (Ended d p → Ended d q) ∧ (Free d q → ¬ LongPiece d p)
  last : ∀ p ∈ l.getLast?, ¬ LongPiece d p

def foundAt (d : Sectors) (dir : Nat) (p : Nat × Nat) : Found :=
  ⟨⟨entryAttr (d p.1) p.2, entryCluster (d p.1) p.2, entrySize (d p.1) p.2, decodeShortName (d p.1) p.2⟩,
    dir, p.1, p.2⟩

theorem find_ended (h : Ended d p) (lfn : Lfn) :
    (findWalk dir name).entry p.1 (d p.1) p.2 lfn = .ret none := by
  rw [Ended] at h
  simp only [findWalk, findEntry, h, if_true]

theorem find_not_ended (h : ¬ Ended d p) (lfn : Lfn) :
    (findWalk dir name).entry p.1 (d p.1) p.2 lfn ≠ .ret none := by
  rw [Ended] at h
  simp only [findWalk, findEntry, if_neg h]
  split
  · rename_i heq
    split_ifs at heq
  · exact fun h => by cases h
  · exact fun h => by cases h

theorem find_next (h : ¬ LongPiece d p) (hgo : (findWalk dir name).entry p.1 (d p.1) p.2 lfn = .go lfn') :
    lfn' = noLfn := by
  simp only [findWalk] at hgo
  split at hgo
  · cases hgo
  · rename_i heq
    cases hgo
    rw [findEntry] at heq
    split at heq
    · cases heq
    rename_i hended
    split at heq
    · cases heq
      rfl
    rename_i hdeleted
    split at heq
    · rename_i hattr
      exact absurd ⟨not_or.mpr ⟨hended, hdeleted⟩, hattr⟩ h
    split at heq
    · cases heq
      rfl
    split at heq
    · cases heq
    · cases heq
      rfl
  · cases hgo

theorem find_live (hlive : ¬ Free d p) (hattr : entryAttr (d p.1) p.2 ≠ attrLfn)
    (hvolume : entryAttr (d p.1) p.2 &&& attrVolumeId = 0) :
    (findWalk dir name).entry p.1 (d p.1) p.2 noLfn =
      if nameEqCi (decodeShortName (d p.1) p.2) name then .ret (some (foundAt d dir p)) else .go noLfn := by
  obtain ⟨hended, hdeleted⟩ := not_or.mp hlive
  have hname : decodedName noLfn (d p.1) p.2 = decodeShortName (d p.1) p.2 := rfl
  simp only [findWalk, findEntry, if_neg hended, if_neg hdeleted, if_neg hattr, hvolume, hname]
  cases nameEqCi (decodeShortName (d p.1) p.2) name with
  | false => rfl
  | true => rfl

theorem find_congr (h : ∀ k < 32, (d' p.1).getD (p.2 + k) 0 = (d p.1).getD (p.2 + k) 0) (lfn : Lfn) :
    (findWalk dir name).entry p.1 (d' p.1) p.2 lfn = (findWalk dir name).entry p.1 (d p.1) p.2 lfn := by
  simp only [findWalk, findEntry_congr h]

theorem walk_live (h : ∀ p ∈ l, ¬ Free d p) (lfn : Lfn) :
    walkSlots (findWalk dir name) d l lfn ≠ .ret none := by
  induction l generalizing lfn with
  | nil => exact fun h => by cases h
  | cons p l ih =>
    have hp : (findWalk dir name).entry p.1 (d p.1) p.2 lfn ≠ .ret none :=
      find_not_ended (fun hended => h p List.mem_cons_self (Or.inl hended)) lfn
    rw [walkSlots]
    cases hentry : (findWalk dir name).entry p.1 (d p.1) p.2 lfn with
    | ret r =>
      rw [hentry] at hp
      exact hp
    | go lfn' => exact ih (fun q hq => h q (List.mem_cons_of_mem p hq)) lfn'

theorem walk_lfn (hlast : ∀ p ∈ l.getLast?, ¬ LongPiece d p)
    (hgo : walkSlots (findWalk dir name) d l noLfn = .go lfn) : lfn = noLfn := by
  rcases List.eq_nil_or_concat l with rfl | ⟨l, p, rfl⟩
  · cases hgo
    rfl
  · rw [List.concat_eq_append, walkSlots_append] at hgo
    cases hwalk : walkSlots (findWalk dir name) d l noLfn with
    | ret r =>
      rw [hwalk] at hgo
      cases hgo
    | go lfn' =>
      rw [hwalk] at hgo
      simp only [walkSlots] at hgo
      cases hentry : (findWalk dir name).entry p.1 (d p.1) p.2 lfn' with
      | ret r =>
        rw [hentry] at hgo
        cases hgo
      | go lfn'' =>
        rw [hentry] at hgo
        cases hgo
        exact find_next (hlast p (by simp)) hentry

section Tidy

variable (htidy : Tidy d (pre ++ q :: post)) (hq : Free d q)

include htidy hq

theorem Tidy.before : ∀ p ∈ pre.getLast?, ¬ LongPiece d p := fun p hp =>
  (((List.isChain_append.mp htidy.chain).2.2 p hp q rfl).2 hq)

omit hq in
theorem Tidy.after (hended : Ended d q) : ∀ p ∈ post.head?, Ended d p := fun p hp =>
  ((List.isChain_cons.mp (List.isChain_append.mp htidy.chain).2.1).1 p hp).1 hended

end Tidy

theorem walk_placed (htidy : Tidy d (pre ++ q :: post)) (hpre : ∀ p ∈ pre, ¬ Free d p) (hq : Free d q)
    (hothers : ∀ p ∈ pre ++ post, ∀ k < 32, (d' p.1).getD (p.2 + k) 0 = (d p.1).getD (p.2 + k) 0)
    (hlive : ¬ Free d' q) (hattr : entryAttr (d' q.1) q.2 ≠ attrLfn)
    (hvolume : entryAttr (d' q.1) q.2 &&& attrVolumeId = 0)
    (hnew : nameEqCi (decodeShortName (d' q.1) q.2) name = true →
      ∀ g, walkSlots (findWalk dir name) d (pre ++ q :: post) noLfn ≠ .ret (some g)) :
    walkSlots (findWalk dir name) d' (pre ++ q :: post) noLfn = .ret (some g) ↔
      walkSlots (findWalk dir name) d (pre ++ q :: post) noLfn = .ret (some g) ∨
        nameEqCi (decodeShortName (d' q.1) q.2) name = true ∧ g = foundAt d' dir q := by
  have hbefore : walkSlots (findWalk dir name) d' pre noLfn = walkSlots (findWalk dir name) d pre noLfn :=
    walkSlots_congr (fun p hp lfn => find_congr (hothers p (List.mem_append_left _ hp)) lfn) noLfn
  have hafter : ∀ lfn, walkSlots (findWalk dir name) d' post lfn = walkSlots (findWalk dir name) d post lfn :=
    walkSlots_congr fun p hp lfn => find_congr (hothers p (List.mem_append_right _ hp)) lfn
  rw [walkSlots_append] at hnew ⊢
  rw [walkSlots_append, hbefore]
  cases hwalk : walkSlots (findWalk dir name) d pre noLfn with
  | ret r =>
    rw [hwalk] at hnew
    cases r with
    | none => exact absurd hwalk (walk_live hpre noLfn)
    | some g' =>
      refine ⟨Or.inl, fun h => h.resolve_right fun hmatch => hnew hmatch.1 g' rfl⟩
  | go lfn =>
    obtain rfl := walk_lfn (htidy.before hq) hwalk
    simp only [walkSlots, find_live hlive hattr hvolume]
    rw [hwalk] at hnew
    simp only [walkSlots] at hnew
    by_cases hname : nameEqCi (decodeShortName (d' q.1) q.2) name = true
    · simp only [hname, if_true, true_and]
      refine ⟨?_, fun h => h.elim (fun h => absurd h (hnew hname g)) fun h => by rw [h]⟩
      rintro ⟨⟩
      exact Or.inr rfl
    · simp only [hname, if_false, Bool.false_eq_true, false_and, or_false, hafter]
      rcases hq with hended | hdeleted
      · rw [find_ended hended]
        -- what followed the end mark was never looked at
        refine iff_of_false ?_ fun h => by cases h
        cases post with
        | nil => exact fun h => by cases h
        | cons p post =>
          rw [walkSlots, find_ended (htidy.after hended p rfl)]
          exact fun h => by cases h
      · have hgo : (findWalk dir name).entry q.1 (d q.1) q.2 noLfn = .go noLfn := by
          have hne : ¬ nameByte (d q.1) q.2 0 = 0x00 := by
            rw [hdeleted]
            decide
          simp only [findWalk, findEntry, if_neg hne, if_pos hdeleted]
        rw [hgo]

theorem free_congr (h : ∀ k < 32, (d' p.1).getD (p.2 + k) 0 = (d p.1).getD (p.2 + k) 0) :
    (Ended d' p ↔ Ended d p) ∧ (Free d' p ↔ Free d p) ∧ (LongPiece d' p ↔ LongPiece d p) := by
  have hbyte : nameByte (d' p.1) p.2 0 = nameByte (d p.1) p.2 0 := h 0 (by decide)
  have hfree : Free d' p ↔ Free d p := by rw [Free, IsFree, hbyte, Free, IsFree]
  refine ⟨by rw [Ended, hbyte, Ended], hfree, ?_⟩
  rw [LongPiece, hfree, entryAttr_congr fun k hk => h k (by omega), LongPiece]

theorem Tidy.congr (htidy : Tidy d l)
    (h : ∀ p ∈ l, ∀ k < 32, (d' p.1).getD (p.2 + k) 0 = (d p.1).getD (p.2 + k) 0) : Tidy d' l where
  chain := by
    refine htidy.chain.imp_of_mem_imp fun p q hp hq hpq => ?_
    rw [(free_congr (h p hp)).1, (free_congr (h q hq)).1, (free_congr (h q hq)).2.1, (free_congr (h p hp)).2.2]
    exact hpq
  last p hp := by
    rw [(free_congr (h p (List.mem_of_getLast? hp))).2.2]
    exact htidy.last p hp

theorem Tidy.placed (htidy : Tidy d (pre ++ q :: post)) (hpre : ∀ p ∈ pre, ¬ Free d p)
    (hothers : ∀ p ∈ pre ++ post, ∀ k < 32, (d' p.1).getD (p.2 + k) 0 = (d p.1).getD (p.2 + k) 0)
    (hlive : ¬ Free d' q) (hattr : entryAttr (d' q.1) q.2 ≠ attrLfn) : Tidy d' (pre ++ q :: post) where
  chain := by
    have hq' : ¬ LongPiece d' q := fun hlong => hattr hlong.2
    have hsame : ∀ {l : List (Nat × Nat)}, (∀ p ∈ l, p ∈ pre ++ post) →
        l.IsChain (fun p q => (Ended d p → Ended d q) ∧ (Free d q → ¬ LongPiece d p)) →
        l.IsChain fun p q => (Ended d' p → Ended d' q) ∧ (Free d' q → ¬ LongPiece d' p) := by
      intro l hl hchain
      refine hchain.imp_of_mem_imp fun p q hp hq hpq => ?_
      obtain ⟨hended, -, hlong⟩ := free_congr (hothers p (hl p hp))
      obtain ⟨hended', hfree, -⟩ := free_congr (hothers q (hl q hq))
      rw [hended, hended', hfree, hlong]
      exact hpq
    obtain ⟨hfirst, hrest, -⟩ := List.isChain_append.mp htidy.chain
    refine List.isChain_append.mpr ⟨hsame (fun p hp => List.mem_append_left _ hp) hfirst,
      List.isChain_cons.mpr ⟨fun p hp => ⟨fun hended => absurd (Or.inl hended) hlive, fun _ => hq'⟩,
        hsame (fun p hp => List.mem_append_right _ hp) (List.isChain_cons.mp hrest).2⟩, ?_⟩
    intro p hp y hy
    obtain rfl : q = y := Option.some.inj hy
    have hmem := List.mem_of_getLast? hp
    obtain ⟨hended, -, -⟩ := free_congr (hothers p (List.mem_append_left _ hmem))
    exact ⟨fun h => absurd (Or.inl (hended.mp h)) (hpre p hmem), fun hfree => absurd hfree hlive⟩
  last p hp := by
    have hlast := htidy.last p hp
    rw [Option.mem_def, List.getLast?_append_of_ne_nil _ (List.cons_ne_nil q post)] at hp
    by_cases hpost : post = []
    · subst hpost
      obtain rfl : q = p := Option.some.inj hp
      exact fun hlong => hattr hlong.2
    · rw [List.getLast?_cons_of_ne_nil hpost] at hp
      rwa [(free_congr (hothers p (List.mem_append_right _ (List.mem_of_getLast? hp)))).2.2]

end Place

namespace Fat32Fs

section Alloc

variable {fs : Fat32Fs} {fails : Nat → Bool} {s : Store} {d d' : Sectors} {newc : Nat}

structure Fresh (fs : Fat32Fs) (newc : Nat) (d d' : Sectors) : Prop where
  cluster : fs.IsCluster newc
  free : fs.entry d newc = 0
  length : ∀ r, (d' r).length = 512
  entry : ∀ x, fs.IsCluster x → fs.entry d' x = if x = newc then fat32Eoc else fs.entry d x
  zero : ∀ i < fs.sectorsPerCluster, d' (fs.clusterSector newc i) = List.replicate 512 0
  data : ∀ r, fs.dataStartLba ≤ r → (∀ i < fs.sectorsPerCluster, r ≠ fs.clusterSector newc i) → d' r = d r

theorem zeroCluster_zeroes (h : fs.Laid) (hno : NoFault fails) (hc : fs.IsCluster newc) :
    Ensures (fs.access fails) (fs.fat32ZeroCluster newc) s fun _ s' =>
      ∀ i < fs.sectorsPerCluster, s'.sector (fs.clusterSector newc i) = List.replicate 512 0 := by
  rw [fat32ZeroCluster, if_neg (by have := hc.1; omega), zeroLoop_eq_fillCluster]
  refine ensures_bind (fillCluster_stores h hno hc fs.sectorsPerCluster 0 [] s (by omega))
    fun r s' hr => ensures_done fun i hi => ?_
  have hblock : s'.sector (fs.clusterSector newc (0 + i)) = block (List.drop (512 * i) []) := hr.2.1 i hi
  rw [Nat.zero_add, List.drop_nil] at hblock
  exact hblock

theorem allocLoop_zeroes (h : fs.Laid) (hno : NoFault fails) (hs : ∀ r, (s.sector r).length = 512) :
    ∀ (left c : Nat) (s' : Store), 2 ≤ c → c + left = fs.fat32MaxCluster + 1 → s'.sector = s.sector →
      Ensures (fs.access fails) (fs.allocLoop left c) s' fun r s' => ∀ newc, r = some newc →
        ∀ i < fs.sectorsPerCluster, s'.sector (fs.clusterSector newc i) = List.replicate 512 0 := by
  intro left
  induction left with
  | zero => exact fun _ _ _ _ _ => ensures_done fun _ hr => by cases hr
  | succ left ih =>
    intro c s' hc hleft hsame
    have hcl : fs.IsCluster c := ⟨hc, by omega⟩
    rw [allocLoop]
    refine ensures_bind (fatGet_ensures h hcl) fun r s₁ hget => ?_
    obtain ⟨hkept, -, hget⟩ := hget
    obtain rfl := hget hno
    dsimp only
    split
    · exact ih (c + 1) s₁ (by omega) (by omega) (hkept.trans hsame)
    · refine ensures_bind (fatSet_ensures h fat32Eoc hcl (hkept ▸ hsame ▸ hs)) fun ok s₂ hset => ?_
      obtain ⟨k, -, -, -, hok⟩ := hset
      obtain rfl := hok hno
      refine ensures_bind (zeroCluster_zeroes h hno hcl) fun ok s₃ hzero => ensures_done fun newc hnew => ?_
      split at hnew
      · cases hnew
        exact hzero
      · cases hnew

theorem allocCluster_fresh (h : fs.Laid) (hno : NoFault fails) (hs : ∀ r, (s.sector r).length = 512) :
    Ensures (fs.access fails) fs.fat32AllocCluster s fun r s' =>
      r = none ∧ s'.sector = s.sector ∨ ∃ newc, r = some newc ∧ fs.Fresh newc s.sector s'.sector := by
  have hzero : Ensures (fs.access fails) fs.fat32AllocCluster s fun r s' => ∀ newc, r = some newc →
      ∀ i < fs.sectorsPerCluster, s'.sector (fs.clusterSector newc i) = List.replicate 512 0 := by
    by_cases hmax : fs.fat32MaxCluster = 0
    · rw [fat32AllocCluster, hmax]
      exact ensures_done fun _ hr => by cases hr
    · exact allocLoop_zeroes h hno hs _ 2 s le_rfl (by omega) rfl
  have halloc : Ensures (fs.access fails) fs.fat32AllocCluster s _ := allocCluster_ensures h hs
  rcases halloc with hnone | ⟨newc, k, htook, hr, hsome⟩
  · exact Or.inl hnone
  · obtain ⟨-, rfl⟩ := hr newc (hsome hno)
    obtain ⟨d₁, hw, hf⟩ := htook.steps
    refine Or.inr ⟨newc, hsome hno, htook.cluster, htook.free, hf.length, fun x hx => ?_,
      hzero newc (hsome hno), fun r hr hne => ?_⟩
    · rw [h.filled_entry hf (h.inFat hx), h.inFat_entry hw (h.inFat hx)]
      exact if_congr (and_iff_left h.fat_pos) rfl rfl
    · rw [hf.others r hne, hw.data r hr]

end Alloc

section Catalogue

variable {fs : Fat32Fs} {fails : Nat → Bool} {s : Store} {dirs : Nat → Prop} {chain : Nat → List Nat}
  {d d' : Sectors} {c dir newc : Nat} {cs : List Nat} {name : Name} {g : Found}

theorem finds_iff (h : fs.Laid) (hruns : fs.Runs d dir cs) : Finds fs d.volume dir name g ↔
    walkSlots (findWalk dir name) d (fs.slots cs) noLfn = .ret (some g) := by
  have hlink : ∀ c next, fs.IsCluster next → (findWalk dir name).link c next = none := fun _ _ _ => rfl
  have hend : fs.walkEnd (findWalk dir name) d cs noLfn = some g ↔
      walkSlots (findWalk dir name) d (fs.slots cs) noLfn = .ret (some g) := by
    rw [walkEnd]
    cases walkSlots (findWalk dir name) d (fs.slots cs) noLfn with
    | ret r => simp
    | go lfn =>
      refine iff_of_false ?_ fun h => by cases h
      cases cs.getLast? with
      | none => exact fun h => by cases h
      | some c => exact fun h => by cases h
  rw [← hend]
  constructor
  · rintro ⟨fuel, hfind⟩
    rw [fat32DirFind, findChain_walk] at hfind
    exact (walkChain_eq h hlink hruns hfind).symm
  · intro hfind
    refine ⟨cs.length + 1, ?_⟩
    rw [fat32DirFind, findChain_walk, walkChain_runs h hlink hruns _ _ (Nat.lt_succ_self _), hfind]

-- the directories of a volume: each has a chain of its own, with no loose part of a long name in it,
-- and a directory found in one of them is one of them
structure Catalogue (fs : Fat32Fs) (dirs : Nat → Prop) (chain : Nat → List Nat) (d : Sectors) : Prop where
  laid : fs.Laid
  length : ∀ r, (d r).length = 512
  root : dirs fs.rootCluster
  runs : ∀ c, dirs c → fs.Runs d c (chain c)
  apart : ∀ c c', dirs c → dirs c' → c ≠ c' → (chain c).Disjoint (chain c')
  tidy : ∀ c, dirs c → Tidy d (fs.slots (chain c))
  below : ∀ c name g, dirs c → Finds fs d.volume c name g → g.isDir = true → dirs (fs.clusterOf g)

theorem slots_sector (hsame : ∀ x ∈ cs, ∀ i < fs.sectorsPerCluster,
    d' (fs.clusterSector x i) = d (fs.clusterSector x i)) : ∀ p ∈ fs.slots cs, d' p.1 = d p.1 := by
  intro p hp
  obtain ⟨x, hx, i, hi, k, -, rfl⟩ := mem_slots.mp hp
  exact hsame x hx i hi

theorem finds_unchanged (h : fs.Laid) (hruns : fs.Runs d dir cs)
    (hentry : ∀ x ∈ cs, fs.entry d' x = fs.entry d x)
    (hdata : ∀ x ∈ cs, ∀ i < fs.sectorsPerCluster, d' (fs.clusterSector x i) = d (fs.clusterSector x i)) :
    Finds fs d'.volume dir name g ↔ Finds fs d.volume dir name g := by
  have hsector := slots_sector hdata
  rw [finds_iff h hruns, finds_iff h (hruns.congr hentry),
    walkSlots_congr fun p hp lfn => by rw [hsector p hp]]

theorem slots_append (cs cs' : List Nat) : fs.slots (cs ++ cs') = fs.slots cs ++ fs.slots cs' :=
  List.flatMap_append

theorem slots_head (h : fs.Laid) (c : Nat) : ∃ rest, fs.slots [c] = (fs.clusterSector c 0, 0) :: rest := by
  obtain ⟨n, hn⟩ : ∃ n, fs.sectorsPerCluster = n + 1 := ⟨fs.sectorsPerCluster - 1, by
    have := h.accepted.clusterPos
    omega⟩
  exact ⟨(fs.slots [c]).tail, by simp [slots, clusterSlots, hn, sectorSlots, List.range_succ_eq_map]⟩

theorem byte_zero (k : Nat) : (List.replicate 512 (0 : UInt8)).getD k 0 = 0 := by
  rw [List.getD_eq_getElem?_getD, List.getElem?_replicate]
  split <;> rfl

theorem ended_not_piece {p : Nat × Nat} (h : Ended d p) : ¬ LongPiece d p := fun hlong => hlong.1 (Or.inl h)

theorem tidy_append {l l' : List (Nat × Nat)} (htidy : Tidy d l) (h : ∀ p ∈ l', Ended d p) : Tidy d (l ++ l') where
  chain := by
    refine List.isChain_append.mpr ⟨htidy.chain, ?_, fun p hp q hq => ⟨fun _ => h q (List.mem_of_head? hq),
      fun _ => htidy.last p hp⟩⟩
    induction l' with
    | nil => exact List.isChain_nil
    | cons q l' ih =>
      rw [List.forall_mem_cons] at h
      refine List.isChain_cons.mpr ⟨fun p hp => ⟨fun _ => h.2 p (List.mem_of_head? hp), fun _ =>
        ended_not_piece h.1⟩, ih h.2⟩
  last p hp := by
    by_cases hl : l' = []
    · rw [hl, List.append_nil] at hp
      exact htidy.last p hp
    · rw [Option.mem_def, List.getLast?_append_of_ne_nil _ hl] at hp
      exact ended_not_piece (h p (List.mem_of_getLast? hp))

theorem walk_append_ended {l l' : List (Nat × Nat)} (h : ∀ p ∈ l', Ended d p) :
    walkSlots (findWalk dir name) d (l ++ l') noLfn = .ret (some g) ↔
      walkSlots (findWalk dir name) d l noLfn = .ret (some g) := by
  rw [walkSlots_append]
  cases walkSlots (findWalk dir name) d l noLfn with
  | ret r => rfl
  | go lfn =>
    refine iff_of_false ?_ fun h => by cases h
    cases l' with
    | nil => exact fun h => by cases h
    | cons p l' =>
      dsimp only
      rw [walkSlots, find_ended (h p List.mem_cons_self)]
      exact fun h => by cases h

theorem Catalogue.not_mem_of_free (hcat : fs.Catalogue dirs chain d) (hfree : fs.entry d newc = 0) (hc : dirs c) :
    newc ∉ chain c := fun hmem => (hcat.runs c hc).used newc hmem hfree

theorem ended_fresh (hzero : ∀ i < fs.sectorsPerCluster, d (fs.clusterSector newc i) = List.replicate 512 0) :
    ∀ p ∈ fs.slots [newc], Ended d p := by
  intro p hp
  obtain ⟨x, hx, i, hi, k, -, rfl⟩ := mem_slots.mp hp
  obtain rfl := List.mem_singleton.mp hx
  rw [Ended, hzero i hi]
  exact byte_zero _

theorem Catalogue.spared (hcat : fs.Catalogue dirs chain d) (hnew : fs.IsCluster newc) (hfree : fs.entry d newc = 0)
    (hdata : ∀ r, fs.dataStartLba ≤ r →
      (∀ i < fs.sectorsPerCluster, r ≠ fs.clusterSector newc i) → d' r = d r) :
    ∀ c, dirs c → ∀ x ∈ chain c, ∀ i < fs.sectorsPerCluster,
      d' (fs.clusterSector x i) = d (fs.clusterSector x i) := by
  intro c hc x hx i hi
  refine hdata _ (by rw [clusterSector]; omega) fun j hj heq => hcat.not_mem_of_free hfree hc ?_
  have hcl := (hcat.runs c hc).clusters x hx
  exact (clusterSector_inj hcl.1 hnew.1 hi hj heq).1 ▸ hx

theorem Catalogue.grow (hcat : fs.Catalogue dirs chain d) (hdir : dirs dir) {last : Nat}
    (hlast : (chain dir).getLast? = some last) (hnew : fs.IsCluster newc) (hfree : fs.entry d newc = 0)
    (hlength : ∀ r, (d' r).length = 512)
    (hentry : ∀ x, fs.IsCluster x →
      fs.entry d' x = if x = newc then fat32Eoc else if x = last then newc else fs.entry d x)
    (hzero : ∀ i < fs.sectorsPerCluster, d' (fs.clusterSector newc i) = List.replicate 512 0)
    (hdata : ∀ r, fs.dataStartLba ≤ r →
      (∀ i < fs.sectorsPerCluster, r ≠ fs.clusterSector newc i) → d' r = d r) :
    fs.Catalogue dirs (Function.update chain dir (chain dir ++ [newc])) d' ∧
      ∀ c name g, dirs c → (Finds fs d'.volume c name g ↔ Finds fs d.volume c name g) := by
  have hnot : ∀ c, dirs c → newc ∉ chain c := fun c hc => hcat.not_mem_of_free hfree hc
  have hlastmem : last ∈ chain dir := List.mem_of_getLast? hlast
  have hsector := hcat.spared hnew hfree hdata
  have hkept : ∀ c, dirs c → ∀ x ∈ chain c, x ≠ last → fs.entry d' x = fs.entry d x := by
    intro c hc x hx hne
    rw [hentry x ((hcat.runs c hc).clusters x hx), if_neg (fun heq : x = newc => hnot c hc (heq ▸ hx)), if_neg hne]
  have hother : ∀ c, dirs c → c ≠ dir → ∀ x ∈ chain c, fs.entry d' x = fs.entry d x := by
    intro c hc hne x hx
    exact hkept c hc x hx fun heq => hcat.apart c dir hc hdir hne hx (heq ▸ hlastmem)
  have hruns : fs.Runs d' dir (chain dir ++ [newc]) := by
    refine (hcat.runs dir hdir).grow hcat.laid hlast hnew ?_ ?_ (hkept dir hdir)
    · rw [hentry last ((hcat.runs dir hdir).clusters last hlastmem),
        if_neg (fun heq : last = newc => hnot dir hdir (heq ▸ hlastmem)), if_pos rfl]
    · rw [hentry newc hnew, if_pos rfl]
      rfl
  have hended := ended_fresh hzero
  have hfinds : ∀ c name g, dirs c → (Finds fs d'.volume c name g ↔ Finds fs d.volume c name g) := by
    intro c name g hc
    by_cases heq : c = dir
    · subst heq
      rw [finds_iff hcat.laid hruns, slots_append, walk_append_ended hended, finds_iff hcat.laid (hcat.runs c hc),
        walkSlots_congr fun p hp lfn => by rw [slots_sector (hsector c hc) p hp]]
    · exact finds_unchanged hcat.laid (hcat.runs c hc) (hother c hc heq) (hsector c hc)
  have hchain : ∀ c, c ≠ dir → Function.update chain dir (chain dir ++ [newc]) c = chain c :=
    fun c hne => Function.update_of_ne hne _ _
  have happart : ∀ c, dirs c → c ≠ dir → (chain c).Disjoint (chain dir ++ [newc]) := by
    intro c hc hne
    rw [List.disjoint_append_right]
    exact ⟨hcat.apart c dir hc hdir hne, by simpa using hnot c hc⟩
  refine ⟨⟨hcat.laid, hlength, hcat.root, fun c hc => ?_, fun c c' hc hc' hne => ?_, fun c hc => ?_,
    fun c name g hc hg => hcat.below c name g hc ((hfinds c name g hc).mp hg)⟩, hfinds⟩
  · by_cases heq : c = dir
    · rw [heq, Function.update_self]
      exact hruns
    · rw [hchain c heq]
      exact (hcat.runs c hc).congr (hother c hc heq)
  · by_cases heq : c = dir
    · subst heq
      rw [Function.update_self, hchain c' (Ne.symm hne)]
      exact (happart c' hc' (Ne.symm hne)).symm
    · rw [hchain c heq]
      by_cases heq' : c' = dir
      · subst heq'
        rw [Function.update_self]
        exact happart c hc hne
      · rw [hchain c' heq']
        exact hcat.apart c c' hc hc' hne
  · have htidy : Tidy d' (fs.slots (chain c)) :=
      (hcat.tidy c hc).congr fun p hp k _ => by rw [slots_sector (hsector c hc) p hp]
    by_cases heq : c = dir
    · subst heq
      rw [Function.update_self, slots_append]
      exact tidy_append htidy hended
    · rw [hchain c heq]
      exact htidy

structure Slot (fs : Fat32Fs) (cs : List Nat) (d : Sectors) (slot : Nat × Nat) : Prop where
  free : Free d slot
  first : ∃ pre post, fs.slots cs = pre ++ slot :: post ∧ ∀ p ∈ pre, ¬ Free d p

theorem slotWalk_slots {l : List (Nat × Nat)} :
    (walkSlots slotWalk d l () = .go () ∧ ∀ p ∈ l, ¬ Free d p) ∨
      ∃ pre slot post, l = pre ++ slot :: post ∧ (∀ p ∈ pre, ¬ Free d p) ∧ Free d slot ∧
        walkSlots slotWalk d l () = .ret (.slot slot.1 slot.2) := by
  induction l with
  | nil => exact Or.inl ⟨rfl, by simp⟩
  | cons p l ih =>
    by_cases hfree : Free d p
    · have hentry : slotWalk.entry p.1 (d p.1) p.2 () = .ret (.slot p.1 p.2) := if_pos hfree
      exact Or.inr ⟨[], p, l, rfl, by simp, hfree, by rw [walkSlots, hentry]⟩
    · have hentry : slotWalk.entry p.1 (d p.1) p.2 () = .go () := if_neg hfree
      rcases ih with ⟨hwalk, hall⟩ | ⟨pre, slot, post, rfl, hpre, hslot, hwalk⟩
      · exact Or.inl ⟨by rw [walkSlots, hentry]; exact hwalk, List.forall_mem_cons.mpr ⟨hfree, hall⟩⟩
      · exact Or.inr ⟨p :: pre, slot, post, rfl, List.forall_mem_cons.mpr ⟨hfree, hpre⟩, hslot,
          by rw [walkSlots, hentry]; exact hwalk⟩

structure Kept (fs : Fat32Fs) (dirs : Nat → Prop) (chain : Nat → List Nat) (d d' : Sectors) : Prop where
  catalogue : fs.Catalogue dirs chain d'
  finds : ∀ c name g, dirs c → (Finds fs d'.volume c name g ↔ Finds fs d.volume c name g)

theorem extendDir_ensures (hno : NoFault fails) (hcat : fs.Catalogue dirs chain s.sector) (hdir : dirs dir)
    {last : Nat} (hlast : (chain dir).getLast? = some last)
    (hfull : ∀ p ∈ fs.slots (chain dir), ¬ Free s.sector p) :
    Ensures (fs.access fails) (fs.extendDir last) s fun r s' => ∃ chain', fs.Kept dirs chain' s.sector s'.sector ∧
      ∀ slot, r = some slot → fs.Slot (chain' dir) s'.sector slot := by
  have h := hcat.laid
  have hlastcl := (hcat.runs dir hdir).clusters last (List.mem_of_getLast? hlast)
  rw [extendDir]
  refine ensures_bind (allocCluster_fresh h hno hcat.length) fun r s₁ halloc => ?_
  rcases halloc with ⟨rfl, hsame⟩ | ⟨newc, rfl, hfresh⟩
  · exact ensures_done ⟨chain, ⟨hsame ▸ hcat, fun _ _ _ _ => by rw [hsame]⟩, fun _ hr => by cases hr⟩
  refine ensures_bind (fatSet_ensures h newc hlastcl hfresh.length) fun ok s₂ hset => ?_
  obtain ⟨k, -, hw, hall, hok⟩ := hset
  obtain rfl := hok hno
  obtain rfl := hall rfl
  refine ensures_bind (fatSet_ensures h fat32Eoc hfresh.cluster hw.length) fun ok s₃ hset => ?_
  obtain ⟨k, -, hw', hall, hok⟩ := hset
  obtain rfl := hok hno
  obtain rfl := hall rfl
  have hentry : ∀ x, fs.IsCluster x → fs.entry s₃.sector x =
      if x = newc then fat32Eoc else if x = last then newc else fs.entry s.sector x := by
    intro x hx
    have hlt : newc < 2 ^ 28 := by
      have hfew := h.few
      have hmax := hfresh.cluster.2
      omega
    rw [h.inFat_entry hw' (h.inFat hx), h.inFat_entry hw (h.inFat hx), hfresh.entry x hx, Nat.mod_eq_of_lt hlt]
    have hpos := h.fat_pos
    by_cases hxn : x = newc
    · rw [if_pos ⟨hxn, hpos⟩, if_pos hxn]
      rfl
    · rw [if_neg (fun hx => hxn hx.1), if_neg hxn, if_neg hxn]
      exact if_congr (and_iff_left hpos) rfl rfl
  have hdata : ∀ r, fs.dataStartLba ≤ r → s₃.sector r = s₁.sector r := fun r hr =>
    (hw'.data r hr).trans (hw.data r hr)
  have hzero : ∀ i < fs.sectorsPerCluster, s₃.sector (fs.clusterSector newc i) = List.replicate 512 0 :=
    fun i hi => (hdata _ (by rw [clusterSector]; omega)).trans (hfresh.zero i hi)
  have hspared : ∀ r, fs.dataStartLba ≤ r → (∀ i < fs.sectorsPerCluster, r ≠ fs.clusterSector newc i) →
      s₃.sector r = s.sector r := fun r hr hne => (hdata r hr).trans (hfresh.data r hr hne)
  obtain ⟨hcat', hfinds⟩ := hcat.grow hdir hlast hfresh.cluster hfresh.free hw'.length hentry hzero hspared
  refine ensures_done ⟨_, ⟨hcat', hfinds⟩, fun slot hslot => ?_⟩
  cases hslot
  obtain ⟨rest, hrest⟩ := slots_head h newc
  have hplace : fs.fat32ClusterToRelLba newc = fs.clusterSector newc 0 :=
    h.accepted.clusterSectors hfresh.cluster.1 hfresh.cluster.2
  rw [hplace, Function.update_self]
  refine ⟨Or.inl (ended_fresh hzero _ (hrest ▸ List.mem_cons_self)), fs.slots (chain dir), rest, ?_,
    fun p hp => ?_⟩
  · rw [slots_append, hrest]
  · rw [Free, slots_sector (hcat.spared hfresh.cluster hfresh.free hspared dir hdir) p hp]
    exact hfull p hp

theorem slotLink_end {next : Nat} (hend : isEoc next = true) (c : Nat) : slotWalk.link c next = some (.full c) := by
  simp only [slotWalk, hend, true_or, if_true]

theorem slotLink_next (h : fs.Laid) {next : Nat} (hnext : fs.IsCluster next) (c : Nat) :
    slotWalk.link c next = none := by
  have hge : ¬ next < 2 := Nat.not_lt.mpr hnext.1
  simp only [slotWalk, h.not_eoc hnext, hge, Bool.false_eq_true, or_self, if_false]

theorem walkEnd_slot (hruns : fs.Runs d dir cs) :
    (∃ last, cs.getLast? = some last ∧ (∀ p ∈ fs.slots cs, ¬ Free d p) ∧
      fs.walkEnd slotWalk d cs () = .full last) ∨
        ∃ slot, fs.Slot cs d slot ∧ fs.walkEnd slotWalk d cs () = .slot slot.1 slot.2 := by
  have hwalk : (walkSlots slotWalk d (fs.slots cs) () = .go () ∧ ∀ p ∈ fs.slots cs, ¬ Free d p) ∨ _ :=
    slotWalk_slots
  rcases hwalk with ⟨hgo, hfull⟩ | ⟨pre, slot, post, hslots, hpre, hfree, hret⟩
  · obtain ⟨last, hlast, -, heoc⟩ := hruns.last_mem
    refine Or.inl ⟨last, hlast, hfull, ?_⟩
    rw [walkEnd, hgo, hlast]
    dsimp only
    rw [Option.bind_some, slotLink_end heoc, Option.getD_some]
  · refine Or.inr ⟨slot, ⟨hfree, pre, post, hslots, hpre⟩, ?_⟩
    rw [walkEnd, hret]

theorem findFreeSlot_ensures (hno : NoFault fails) (hcat : fs.Catalogue dirs chain s.sector) (hdir : dirs dir)
    (fuel : Nat) : Ensures (fs.access fails) (fs.fat32DirFindFreeSlot fuel dir) s fun r s' =>
      ∃ chain', fs.Kept dirs chain' s.sector s'.sector ∧
        ∀ slot, r = some (some slot) → fs.Slot (chain' dir) s'.sector slot := by
  have hruns := hcat.runs dir hdir
  have hcl := hruns.clusters dir hruns.head
  have hreads := asks_walkChain slotWalk fs fuel dir ()
  have hwalk : Ensures (fs.access fails) (walkChain slotWalk fs fuel dir ()) s fun r s' =>
      s'.sector = s.sector ∧ ∀ e, r = some e → e = fs.walkEnd slotWalk s.sector (chain dir) () := by
    refine ⟨run_reads fs fails hreads, fun e he => ?_⟩
    rw [run_eq_look hno hreads] at he
    exact walkChain_eq hcat.laid (fun c next hnext => slotLink_next hcat.laid hnext c) hruns he
  have hkept : ∀ {s' : Store}, s'.sector = s.sector → fs.Kept dirs chain s.sector s'.sector :=
    fun hsame => ⟨hsame ▸ hcat, fun _ _ _ _ => by rw [hsame]⟩
  rw [fat32DirFindFreeSlot, if_neg (Nat.not_lt.mpr hcl.1)]
  refine ensures_bind hwalk fun r s₁ hr => ?_
  obtain ⟨hsame, hend⟩ := hr
  cases r with
  | none => exact ensures_done ⟨chain, hkept hsame, fun _ hr => by cases hr⟩
  | some e =>
    have he := hend e rfl
    rcases walkEnd_slot hruns with ⟨last, hlast, hfull, hwhere⟩ | ⟨slot, hslot, hwhere⟩
    · rw [he, hwhere]
      rw [← hsame] at hcat hfull
      refine ensures_bind (extendDir_ensures hno hcat hdir hlast hfull) fun r s₂ hr => ?_
      rw [hsame] at hr
      obtain ⟨chain', hkept', hslot⟩ := hr
      exact ensures_done ⟨chain', hkept', fun slot heq => hslot slot (Option.some.inj heq)⟩
    · rw [he, hwhere]
      refine ensures_done ⟨chain, hkept hsame, fun slot' heq => ?_⟩
      cases heq
      rwa [hsame]

theorem lower_lower (c : UInt8) : asciiToLower (asciiToLower c) = asciiToLower c := by
  have hall : ∀ n : Fin 256, asciiToLower (asciiToLower (UInt8.ofNat n)) = asciiToLower (UInt8.ofNat n) := by
    decide +kernel
  have h := hall ⟨c.toNat, c.toNat_lt⟩
  rwa [UInt8.ofNat_toNat] at h

theorem nameEqCi_lower (name name' : Name) : nameEqCi (name.map asciiToLower) name' = nameEqCi name name' := by
  have hmap : (name.map asciiToLower).map asciiToLower = name.map asciiToLower := by
    rw [List.map_map]
    exact List.map_congr_left fun c _ => lower_lower c
  rw [nameEqCi, hmap, nameEqCi]

theorem findWalk_ci {name' : Name} (h : nameEqCi name name' = true) : findWalk dir name' = findWalk dir name := by
  have hmap : name.map asciiToLower = name'.map asciiToLower := of_decide_eq_true h
  have hci : ∀ text, nameEqCi text name' = nameEqCi text name := fun text => by rw [nameEqCi, nameEqCi, hmap]
  have hentry : ∀ rel sec off lfn, findEntry dir name' rel sec off lfn = findEntry dir name rel sec off lfn := by
    intro rel sec off lfn
    simp only [findEntry, hci]
  simp only [findWalk, hentry]

section Place

variable {slot : Nat × Nat} {e : Dirent} {short : List UInt8} {attr first : Nat}

theorem slot_room (hlength : ∀ r, (d r).length = 512) {p : Nat × Nat} (hp : p ∈ fs.slots cs) :
    p.2 + 32 ≤ (d p.1).length ∧ p.2 % 32 = 0 := by
  obtain ⟨x, -, i, -, k, hk, rfl⟩ := mem_slots.mp hp
  rw [hlength]
  dsimp only
  omega

theorem placed_beside (hlength : ∀ r, (d r).length = 512) (hslot : slot ∈ fs.slots cs) (he : e.length = 32)
    {p : Nat × Nat} (hp : p ∈ fs.slots cs) (hne : p ≠ slot) : ∀ k < 32,
      (Function.update d slot.1 (placed (d slot.1) slot.2 e) p.1).getD (p.2 + k) 0 = (d p.1).getD (p.2 + k) 0 := by
  intro k hk
  obtain ⟨hroom, hmod⟩ := slot_room hlength hslot
  have hmod' := (slot_room hlength hp).2
  by_cases hrel : p.1 = slot.1
  · have hoff : p.2 ≠ slot.2 := fun heq => hne (Prod.ext hrel heq)
    rw [hrel, Function.update_self]
    exact placed_outside hroom he (by omega)
  · rw [Function.update_of_ne hrel]

theorem placed_entry (hlength : ∀ r, (d r).length = 512) (hslot : slot ∈ fs.slots cs)
    (hshort : fat32MakeShortName name = some short) (hdot : name.getLast? ≠ some 46) (hattr : attr < 2 ^ 8)
    (hd' : d' = Function.update d slot.1 (placed (d slot.1) slot.2 (fat32FillDirent short attr 0 0))) :
    ¬ Free d' slot ∧ foundAt d' dir slot = ⟨⟨attr, 0, 0, name.map asciiToLower⟩, dir, slot.1, slot.2⟩ := by
  obtain ⟨hroom, -⟩ := slot_room hlength hslot
  obtain ⟨stem, rest, hparts, hne, hstem, hrest, rfl⟩ := makeShortName_some hshort
  have hlen : (padded 8 (stem.map asciiToUpper) ++ padded 3 (rest.map asciiToUpper)).length = 11 := by
    rw [List.length_append, padded_length (by rwa [List.length_map]), padded_length (by rwa [List.length_map])]
  have hsec : d' slot.1 = placed (d slot.1) slot.2 (fat32FillDirent
      (padded 8 (stem.map asciiToUpper) ++ padded 3 (rest.map asciiToUpper)) attr 0 0) := by
    rw [hd', Function.update_self]
  have hbyte : ∀ i < 11, nameByte (d' slot.1) slot.2 i =
      (padded 8 (stem.map asciiToUpper) ++ padded 3 (rest.map asciiToUpper)).getD i 0 := by
    intro i hi
    rw [nameByte, hsec, placed_inside hroom (fillDirent_length hlen _ _ _) (by omega), fillDirent_name hlen hi]
  obtain ⟨hentryAttr, hcluster, hsize⟩ := fillDirent_fields hlen hroom attr 0 0
  rw [← hsec] at hentryAttr hcluster hsize
  have hname : decodeShortName (d' slot.1) slot.2 = name.map asciiToLower := by
    rw [decodeShortName_back hparts hstem hrest hbyte, hparts.nameBack hdot]
  refine ⟨?_, by rw [foundAt, hentryAttr, hcluster, hsize, hname, Nat.mod_eq_of_lt hattr]; rfl⟩
  cases stem with
  | nil => exact absurd rfl hne
  | cons c stem =>
    have hfirst : nameByte (d' slot.1) slot.2 0 = asciiToUpper c := hbyte 0 (by decide)
    obtain ⟨hzero, -, hdeleted, -⟩ := nameChar_upper (hparts.stemChars c List.mem_cons_self)
    rw [Free, IsFree, hfirst]
    exact not_or.mpr ⟨hzero, hdeleted⟩

theorem fillDirent_short (hshort : fat32MakeShortName name = some short) (attr first size : Nat) :
    (fat32FillDirent short attr first size).length = 32 := by
  obtain ⟨stem, rest, -, -, hstem, hrest, rfl⟩ := makeShortName_some hshort
  refine fillDirent_length ?_ _ _ _
  rw [List.length_append, padded_length (by rwa [List.length_map]), padded_length (by rwa [List.length_map])]

theorem Catalogue.beside {sec : List UInt8} (hcat : fs.Catalogue dirs chain d) (hdir : dirs dir)
    (hslot : slot ∈ fs.slots (chain dir)) (hd' : d' = Function.update d slot.1 sec) :
    (∀ c, dirs c → ∀ y ∈ chain c, fs.entry d' y = fs.entry d y) ∧
      ∀ c, dirs c → c ≠ dir → ∀ y ∈ chain c, ∀ j < fs.sectorsPerCluster,
        d' (fs.clusterSector y j) = d (fs.clusterSector y j) := by
  have h := hcat.laid
  obtain ⟨x, hx, i, hi, k, -, hplace⟩ := mem_slots.mp hslot
  have hxcl := (hcat.runs dir hdir).clusters x hx
  constructor
  · intro c hc y hy
    rw [hd', hplace, entry, word_update_data h h.fat_pos (h.inFat ((hcat.runs c hc).clusters y hy)), entry]
  · intro c hc hne y hy j hj
    rw [hd', hplace, Function.update_of_ne]
    intro heq
    have hsame := (clusterSector_inj ((hcat.runs c hc).clusters y hy).1 hxcl.1 hj hi heq).1
    exact hcat.apart c dir hc hdir hne hy (hsame ▸ hx)

theorem placed_others {pre post : List (Nat × Nat)} (hlength : ∀ r, (d r).length = 512)
    (hnodup : (fs.slots cs).Nodup) (hslots : fs.slots cs = pre ++ slot :: post) (he : e.length = 32)
    (hd' : d' = Function.update d slot.1 (placed (d slot.1) slot.2 e)) :
    ∀ p ∈ pre ++ post, ∀ k < 32, (d' p.1).getD (p.2 + k) 0 = (d p.1).getD (p.2 + k) 0 := by
  intro p hp
  have hmem : slot ∈ fs.slots cs := by
    rw [hslots]
    simp
  have hp' : p ∈ fs.slots cs := by
    rw [hslots]
    simp only [List.mem_append, List.mem_cons] at hp ⊢
    tauto
  have hne : p ≠ slot := by
    rintro rfl
    rw [hslots] at hnodup
    exact (List.nodup_cons.mp (List.nodup_middle.mp hnodup)).1 hp
  rw [hd']
  exact placed_beside hlength hmem he hp' hne

theorem Catalogue.place (hcat : fs.Catalogue dirs chain d) (hdir : dirs dir) (hslot : fs.Slot (chain dir) d slot)
    (hshort : fat32MakeShortName name = some short) (hdot : name.getLast? ≠ some 46)
    (hnone : ∀ g, ¬ Finds fs d.volume dir name g)
    (hd' : d' = Function.update d slot.1 (placed (d slot.1) slot.2 (fat32FillDirent short attrArchive 0 0))) :
    fs.Catalogue dirs chain d' ∧ ∀ c name' g, dirs c → (Finds fs d'.volume c name' g ↔
      Finds fs d.volume c name' g ∨
      c = dir ∧ nameEqCi name name' = true ∧
        g = ⟨⟨attrArchive, 0, 0, name.map asciiToLower⟩, dir, slot.1, slot.2⟩) := by
  have h := hcat.laid
  obtain ⟨hfree, pre, post, hslots, hpre⟩ := hslot
  have hmem : slot ∈ fs.slots (chain dir) := by
    rw [hslots]
    simp
  obtain ⟨hlive, hfound⟩ : ¬ Free d' slot ∧ foundAt d' dir slot = _ :=
    placed_entry hcat.length hmem hshort hdot (by decide) hd'
  have hlen := fillDirent_short hshort attrArchive 0 0
  have hattr : entryAttr (d' slot.1) slot.2 = attrArchive := congrArg (fun f : Found => f.node.attr) hfound
  have hdecoded : decodeShortName (d' slot.1) slot.2 = name.map asciiToLower :=
    congrArg (fun f : Found => f.node.name) hfound
  have hothers := placed_others hcat.length
    (slots_nodup ((hcat.runs dir hdir).nodup h) (hcat.runs dir hdir).clusters) hslots hlen hd'
  have hnotLfn : entryAttr (d' slot.1) slot.2 ≠ attrLfn := by
    rw [hattr]
    decide
  obtain ⟨hentry, hsector⟩ := hcat.beside hdir hmem hd'
  have hruns : ∀ c, dirs c → fs.Runs d' c (chain c) := fun c hc => (hcat.runs c hc).congr (hentry c hc)
  have htidy := hcat.tidy dir hdir
  rw [hslots] at htidy
  have hfinds : ∀ c name' g, dirs c → (Finds fs d'.volume c name' g ↔ Finds fs d.volume c name' g ∨
      c = dir ∧ nameEqCi name name' = true ∧
        g = ⟨⟨attrArchive, 0, 0, name.map asciiToLower⟩, dir, slot.1, slot.2⟩) := by
    intro c name' g hc
    by_cases heq : c = dir
    · subst heq
      have hwalk : (_ → ∀ g', walkSlots (findWalk c name') d (pre ++ slot :: post) noLfn ≠ .ret (some g')) →
          (walkSlots (findWalk c name') d' (pre ++ slot :: post) noLfn = .ret (some g) ↔ _) :=
        walk_placed htidy hpre hfree hothers hlive hnotLfn (by rw [hattr]; decide)
      rw [hdecoded, nameEqCi_lower, hfound, ← hslots, ← finds_iff h (hcat.runs c hc), ← finds_iff h (hruns c hc)]
        at hwalk
      rw [hwalk fun hci g' hg' => ?_]
      · simp
      · rw [findWalk_ci hci, ← finds_iff h (hcat.runs c hc)] at hg'
        exact hnone g' hg'
    · rw [finds_unchanged h (hcat.runs c hc) (hentry c hc) (hsector c hc heq)]
      simp [heq]
  refine ⟨⟨h, fun r => ?_, hcat.root, hruns, hcat.apart, fun c hc => ?_,
    fun c name' g hc hg hgdir => ?_⟩, hfinds⟩
  · rw [hd', Function.update_apply]
    split
    · rw [placed_length (slot_room hcat.length hmem).1 hlen, hcat.length]
    · exact hcat.length r
  · by_cases heq : c = dir
    · subst heq
      rw [hslots]
      exact htidy.placed hpre hothers hlive hnotLfn
    · refine (hcat.tidy c hc).congr fun p hp k _ => ?_
      rw [slots_sector (hsector c hc heq) p hp]
  · rcases (hfinds c name' g hc).mp hg with hold | ⟨-, -, rfl⟩
    · exact hcat.below c name' g hc hold hgdir
    · have hbit : decide (attrArchive &&& attrDir ≠ 0) = true := hgdir
      exact absurd hbit (by decide)

end Place

section Denotes

variable {here : Found} {names : List Name} {new : Nat → Name → Found → Prop}

theorem Catalogue.denotes_dirs (hcat : fs.Catalogue dirs chain d) : ∀ {names : List Name} {here : Found},
    dirs (fs.clusterOf here) → Denotes fs d.volume here names g → g.isDir = true → dirs (fs.clusterOf g) := by
  intro names
  induction names with
  | nil =>
    rintro here hhere rfl -
    exact hhere
  | cons name names ih =>
    rintro here hhere ⟨-, g', hfind, hrest⟩ hdir
    refine ih ?_ hrest hdir
    cases names with
    | nil =>
      obtain rfl : g = g' := hrest
      exact hcat.below _ name g hhere hfind hdir
    | cons name' names => exact hcat.below _ name g' hhere hfind hrest.1

theorem Catalogue.denotes_iff (hcat : fs.Catalogue dirs chain d)
    (hfinds : ∀ c name g, dirs c → (Finds fs d'.volume c name g ↔ Finds fs d.volume c name g ∨ new c name g))
    (hfile : ∀ c name g, new c name g → g.isDir = false) : ∀ {names : List Name} {here : Found},
    dirs (fs.clusterOf here) → (Denotes fs d'.volume here names g ↔ Denotes fs d.volume here names g ∨
      ∃ above last q, names = above ++ [last] ∧ Denotes fs d.volume here above q ∧ q.isDir = true ∧
        new (fs.clusterOf q) last g) := by
  intro names
  induction names with
  | nil =>
    intro here _
    refine ⟨Or.inl, fun h => h.elim id ?_⟩
    rintro ⟨above, last, q, hnames, -⟩
    simp at hnames
  | cons name names ih =>
    intro here hhere
    have hbelow : ∀ {g' : Found} {v : Volume}, Finds fs d.volume (fs.clusterOf here) name g' →
        names ≠ [] → Denotes fs v g' names g → dirs (fs.clusterOf g') := by
      intro g' v hfind hne hrest
      cases names with
      | nil => exact absurd rfl hne
      | cons name' names => exact hcat.below _ name g' hhere hfind hrest.1
    constructor
    · rintro ⟨hdir, g', hfind, hrest⟩
      rcases (hfinds _ name g' hhere).mp hfind with hold | hnew
      · by_cases hne : names = []
        · subst hne
          exact Or.inl ⟨hdir, g', hold, hrest⟩
        · rcases (ih (hbelow hold hne hrest)).mp hrest with hrest' | ⟨above, last, q, hnames, hq, hqdir, hlast⟩
          · exact Or.inl ⟨hdir, g', hold, hrest'⟩
          · exact Or.inr ⟨name :: above, last, q, by rw [hnames]; rfl, ⟨hdir, g', hold, hq⟩, hqdir, hlast⟩
      · cases names with
        | nil =>
          obtain rfl : g = g' := hrest
          exact Or.inr ⟨[], name, here, rfl, rfl, hdir, hnew⟩
        | cons name' names =>
          have hg'dir := hrest.1
          rw [hfile _ _ _ hnew] at hg'dir
          cases hg'dir
    · rintro (⟨hdir, g', hfind, hrest⟩ | ⟨above, last, q, hnames, hq, hqdir, hlast⟩)
      · refine ⟨hdir, g', (hfinds _ name g' hhere).mpr (Or.inl hfind), ?_⟩
        by_cases hne : names = []
        · subst hne
          exact hrest
        · exact (ih (hbelow hfind hne hrest)).mpr (Or.inl hrest)
      · cases above with
        | nil =>
          obtain ⟨rfl, rfl⟩ : name = last ∧ names = [] := by simpa using hnames
          obtain rfl : q = here := hq
          exact ⟨hqdir, g, (hfinds _ name g hhere).mpr (Or.inr hlast), rfl⟩
        | cons name' above =>
          obtain ⟨rfl, rfl⟩ : name = name' ∧ names = above ++ [last] := by simpa using hnames
          obtain ⟨hdir, g', hfind, hrest⟩ := hq
          have hg' : dirs (fs.clusterOf g') := by
            cases above with
            | nil =>
              obtain rfl : q = g' := hrest
              exact hcat.below _ name q hhere hfind hqdir
            | cons name' above => exact hcat.below _ name g' hhere hfind hrest.1
          exact ⟨hdir, g', (hfinds _ name g' hhere).mpr (Or.inl hfind),
            (ih hg').mpr (Or.inr ⟨above, last, q, rfl, hrest, hqdir, hlast⟩)⟩

end Denotes

section Create

variable {path dirPath : Path} {p junk : Found} {fuel : Nat}

theorem denotes_resolves {v : Volume} (hhead : path.head? = some slash) (hne : components slash path ≠ [])
    (hp : Denotes fs v fs.rootFound (components slash path) p) : Resolves fs v junk path g ↔ g = p := by
  have hroot : path ≠ [slash] := by
    rintro rfl
    exact hne (by simp)
  have hleads := hp.leads
  rw [clusterOf_rootFound, leads_of_cons hne junk] at hleads
  rw [resolves_iff]
  constructor
  · rintro ⟨-, ⟨heq, -⟩ | ⟨-, hg⟩⟩
    · exact absurd heq hroot
    · exact hg.unique hleads
  · rintro rfl
    exact ⟨hhead, Or.inr ⟨hroot, hleads⟩⟩

theorem components_slashes (h : ∀ c ∈ path, c = slash) : components slash path = [] := by
  induction path with
  | nil => simp
  | cons c path ih =>
    rw [List.forall_mem_cons] at h
    rw [h.1, components_cons_sep]
    exact ih h.2

theorem splitParent_some (h : splitParent path = some (dirPath, name)) :
    (name ≠ [] → components slash path = components slash dirPath ++ [name]) ∧
      (dirPath ≠ [] → dirPath.head? = some slash) := by
  rw [splitParent] at h
  split at h
  · cases h
  rename_i hhead
  rw [not_not] at hhead
  cases hsplit : splitLast slash (path.reverse.dropWhile (· = slash)).reverse with
  | none =>
    rw [hsplit] at h
    cases h
  | some parts =>
    obtain ⟨dir, last⟩ := parts
    rw [hsplit] at h
    dsimp only at h
    split at h
    · cases h
    cases h
    obtain ⟨htrim, hslash⟩ := splitLast_some slash hsplit
    have hpath : path = dirPath ++ slash :: name ++ (path.reverse.takeWhile (· = slash)).reverse := by
      rw [← htrim, ← List.reverse_append, List.takeWhile_append_dropWhile, List.reverse_reverse]
    have hend : ∀ c ∈ (path.reverse.takeWhile (· = slash)).reverse, c = slash := by
      intro c hc
      simpa using List.mem_takeWhile_imp (List.mem_reverse.mp hc)
    have hlast : name ≠ [] → components slash (dirPath ++ slash :: name) = components slash dirPath ++ [name] := by
      intro hname
      rw [components_append_cons, components_of_forall_ne slash (fun c hc heq => hslash (heq ▸ hc)) hname]
    generalize (path.reverse.takeWhile (· = slash)).reverse = tail at hpath hend
    refine ⟨fun hname => ?_, fun hne => ?_⟩
    · rw [hpath]
      cases tail with
      | nil => rw [List.append_nil, hlast hname]
      | cons c tail =>
        rw [List.forall_mem_cons] at hend
        rw [hend.1, components_append_cons, hlast hname, components_slashes hend.2, List.append_nil]
    · cases dirPath with
      | nil => exact absurd rfl hne
      | cons c dirPath =>
        rw [hpath] at hhead
        exact hhead

structure Names (fs : Fat32Fs) (d : Sectors) (path : Path) (p : Found) (name : Name) : Prop where
  split : ∃ dirPath, splitParent path = some (dirPath, name) ∧
    (dirPath = [] ∨ components slash dirPath ≠ []) ∧
    Denotes fs d.volume fs.rootFound (components slash dirPath) p
  dir : p.isDir = true

theorem resolveParent_ensures (hno : NoFault fails) (hnames : fs.Names s.sector path p name) :
    Ensures (fs.access fails) (fs.fat32ResolveParent fuel junk path) s fun r s' => s'.sector = s.sector ∧
      ∀ found, r = some (some found) → found = (fs.clusterOf p, name) := by
  obtain ⟨dirPath, hsplit, hroot, hp⟩ := hnames.split
  rw [fat32ResolveParent, hsplit]
  dsimp only
  split
  · rename_i hnil
    subst hnil
    have hp' : p = fs.rootFound := by
      rw [components_nil] at hp
      exact hp
    refine ensures_done ⟨rfl, fun found hfound => ?_⟩
    cases hfound
    rw [hp', clusterOf_rootFound]
  · rename_i hne
    have hhead := (splitParent_some hsplit).2 hne
    have hreads := asks_resolve fs fuel junk dirPath
    have hres : Ensures (fs.access fails) (fs.fat32Resolve fuel junk dirPath) s fun r s' =>
        s'.sector = s.sector ∧ ∀ g, r = some (some g) → g = p := by
      refine ⟨run_reads fs fails hreads, fun g hg => ?_⟩
      rw [run_eq_look hno hreads] at hg
      exact (denotes_resolves hhead (hroot.resolve_left hne) hp).mp ⟨fuel, hg⟩
    refine ensures_bind hres fun r s₁ hr => ?_
    obtain ⟨hsame, hfound⟩ := hr
    rcases r with _ | _ | g
    · exact ensures_done ⟨hsame, fun _ hr => by cases hr⟩
    · exact ensures_done ⟨hsame, fun _ hr => by cases hr⟩
    · obtain rfl := hfound g rfl
      refine ensures_done ⟨hsame, fun found heq => ?_⟩
      rw [if_pos hnames.dir] at heq
      cases heq
      rfl

theorem dirFind_ensures (hno : NoFault fails) (dir : Nat) (name : Name) (fuel : Nat) :
    Ensures (fs.access fails) (fs.fat32DirFind fuel dir name) s fun r s' => s'.sector = s.sector ∧
      ∀ found, r = some found → ∀ g, Finds fs s.sector.volume dir name g ↔ found = some g := by
  have hreads : (fs.fat32DirFind fuel dir name).Asks SectorReq.IsRead := asks_findChain dir name fs fuel dir noLfn
  refine ⟨run_reads fs fails hreads, fun found hfound g => ?_⟩
  rw [run_eq_look hno hreads] at hfound
  constructor
  · rintro ⟨fuel', hg⟩
    have hmore := dirFind_more hg (Nat.le_max_right fuel fuel')
    have hmore' : (fs.fat32DirFind (max fuel fuel') dir name).look (fs.reply s.sector.volume) = some found :=
      dirFind_more hfound (Nat.le_max_left fuel fuel')
    rw [hmore] at hmore'
    exact (Option.some.inj hmore').symm
  · rintro rfl
    exact ⟨fuel, hfound⟩

def Created (fs : Fat32Fs) (dirs : Nat → Prop) (dir : Nat) (name : Name) (d d' : Sectors) (made : Bool) : Prop :=
  (∀ c name g, dirs c → (Finds fs d'.volume c name g ↔ Finds fs d.volume c name g)) ∧
      (made = true → name ≠ [] ∧ ∃ g, Finds fs d.volume dir name g) ∨
    made = true ∧ name ≠ [] ∧ (∀ g, ¬ Finds fs d.volume dir name g) ∧
      ∃ new : Found, new.node = ⟨attrArchive, 0, 0, name.map asciiToLower⟩ ∧ ∀ c name' g, dirs c →
        (Finds fs d'.volume c name' g ↔ Finds fs d.volume c name' g ∨
          c = dir ∧ nameEqCi name name' = true ∧ g = new)

theorem createFile_ensures (hno : NoFault fails) (hcat : fs.Catalogue dirs chain s.sector)
    (hnames : fs.Names s.sector path p name) (hdot : name.getLast? ≠ some 46) :
    Ensures (fs.access fails) (fs.fat32CreateFileOp fuel junk path) s fun r s' =>
      ∃ chain', fs.Catalogue dirs chain' s'.sector ∧
        fs.Created dirs (fs.clusterOf p) name s.sector s'.sector (decide (r = some true)) := by
  have h := hcat.laid
  have hdir : dirs (fs.clusterOf p) := by
    obtain ⟨dirPath, -, -, hp⟩ := hnames.split
    exact hcat.denotes_dirs (by rw [clusterOf_rootFound]; exact hcat.root) hp hnames.dir
  have hkept : ∀ {s' : Store} {made : Bool}, s'.sector = s.sector →
      (made = true → name ≠ [] ∧ ∃ g, Finds fs s.sector.volume (fs.clusterOf p) name g) →
        ∃ chain', fs.Catalogue dirs chain' s'.sector ∧
          fs.Created dirs (fs.clusterOf p) name s.sector s'.sector made :=
    fun hsame hmade => ⟨chain, hsame ▸ hcat, Or.inl ⟨fun _ _ _ _ => by rw [hsame], hmade⟩⟩
  rw [fat32CreateFileOp]
  refine ensures_bind (resolveParent_ensures hno hnames) fun r s₁ hr => ?_
  obtain ⟨hsame₁, hparent⟩ := hr
  rcases r with _ | _ | found
  · exact ensures_done (hkept hsame₁ (by simp))
  · exact ensures_done (hkept hsame₁ (by simp))
  obtain rfl := hparent found rfl
  dsimp only
  split
  · exact ensures_done (hkept hsame₁ (by simp))
  rename_i short hshort
  have hname : name ≠ [] := by
    rintro rfl
    simp [fat32MakeShortName] at hshort
  refine ensures_bind (dirFind_ensures hno (fs.clusterOf p) name fuel) fun r s₂ hr => ?_
  obtain ⟨hsame₂, hfind⟩ := hr
  rw [hsame₁] at hsame₂ hfind
  rcases r with _ | _ | g
  · exact ensures_done (hkept hsame₂ (by simp))
  · have hnone : ∀ g, ¬ Finds fs s.sector.volume (fs.clusterOf p) name g :=
      fun g hg => absurd ((hfind none rfl g).mp hg) (Option.some_ne_none g).symm
    have hcat₂ : fs.Catalogue dirs chain s₂.sector := hsame₂ ▸ hcat
    refine ensures_bind (findFreeSlot_ensures hno hcat₂ hdir fuel) fun r s₃ hr => ?_
    rw [hsame₂] at hr
    obtain ⟨chain', hkept', hslot⟩ := hr
    rcases r with _ | _ | slot
    · exact ensures_done ⟨chain', hkept'.catalogue, Or.inl ⟨hkept'.finds, by simp⟩⟩
    · exact ensures_done ⟨chain', hkept'.catalogue, Or.inl ⟨hkept'.finds, by simp⟩⟩
    have hslot := hslot slot rfl
    have hcat₃ := hkept'.catalogue
    have hmem : slot ∈ fs.slots (chain' (fs.clusterOf p)) := by
      obtain ⟨pre, post, hslots, -⟩ := hslot.first
      rw [hslots]
      simp
    obtain ⟨x, hx, i, hi, k, hk, hplace⟩ := mem_slots.mp hmem
    have hserved : fs.unserved slot.1 1 = false := by
      rw [hplace]
      exact h.served (h.clusterSector_lt ((hcat₃.runs _ hdir).clusters x hx) hi)
    have hoff : misplaced slot.2 = false := by
      rw [hplace, misplaced, Bool.or_eq_false_iff, decide_eq_false_iff_not, decide_eq_false_iff_not]
      dsimp only
      omega
    refine ensures_bind (writeDirent_writes hno hserved hoff hcat₃.length (fillDirent_short hshort _ _ _))
      fun ok s₄ hr => ?_
    obtain ⟨rfl, hput⟩ := hr
    obtain ⟨hcat₄, hfinds⟩ := hcat₃.place hdir hslot hshort hdot
      (fun g hg => hnone g ((hkept'.finds _ name g hdir).mp hg)) hput
    refine ensures_done ⟨chain', hcat₄, Or.inr ⟨by simp, hname, hnone,
      ⟨⟨attrArchive, 0, 0, name.map asciiToLower⟩, fs.clusterOf p, slot.1, slot.2⟩, rfl,
      fun c name' g hc => ?_⟩⟩
    rw [hfinds c name' g hc, hkept'.finds c name' g hc]
  · exact ensures_done (hkept hsame₂ fun _ => ⟨hname, g, (hfind (some g) rfl g).mpr rfl⟩)

def Leaf (fs : Fat32Fs) (d : Sectors) (p : Found) (name : Name) (names : List Name) : Prop :=
  ∃ above last q, names = above ++ [last] ∧ Denotes fs d.volume fs.rootFound above q ∧ q.isDir = true ∧
    fs.clusterOf q = fs.clusterOf p ∧ nameEqCi name last = true

structure Grew (fs : Fat32Fs) (d d' : Sectors) (calls : List (Path × Option Bool)) : Prop where
  kept : ∀ names g, Denotes fs d.volume fs.rootFound names g → Denotes fs d'.volume fs.rootFound names g
  only : ∀ names g, Denotes fs d'.volume fs.rootFound names g → Denotes fs d.volume fs.rootFound names g ∨
    ∃ path p name, (path, some true) ∈ calls ∧ fs.Names d path p name ∧ fs.Leaf d p name names ∧
      g.node = ⟨attrArchive, 0, 0, name.map asciiToLower⟩
  there : ∀ path, (path, some true) ∈ calls →
    components slash path ≠ [] ∧ ∃ g, Denotes fs d'.volume fs.rootFound (components slash path) g

theorem Names.absolute (h : fs.Names d path p name) : path.head? = some slash := by
  obtain ⟨dirPath, hsplit, -⟩ := h.split
  by_contra hhead
  rw [splitParent, if_pos hhead] at hsplit
  cases hsplit

theorem Names.unique {q : Found} {name' : Name} (h : fs.Names d path p name) (h' : fs.Names d path q name') :
    p = q ∧ name = name' := by
  obtain ⟨dirPath, hsplit, -, hp⟩ := h.split
  obtain ⟨dirPath', hsplit', -, hq⟩ := h'.split
  rw [hsplit] at hsplit'
  cases hsplit'
  exact ⟨hp.leads.unique hq.leads, rfl⟩

theorem Grew.names {calls : List (Path × Option Bool)} (h : fs.Grew d d' calls) (hnames : fs.Names d path p name) :
    fs.Names d' path p name := by
  obtain ⟨dirPath, hsplit, hroot, hp⟩ := hnames.split
  exact ⟨⟨dirPath, hsplit, hroot, h.kept _ p hp⟩, hnames.dir⟩

theorem node_isDir (h : g.node = ⟨attrArchive, 0, 0, name⟩) : g.isDir = false := by
  have hbit : decide (attrArchive &&& attrDir ≠ 0) = false := by decide
  rw [Found.isDir, h, hbit]

theorem Grew.leaf {calls : List (Path × Option Bool)} {names : List Name} (h : fs.Grew d d' calls)
    (hleaf : fs.Leaf d' p name names) : fs.Leaf d p name names := by
  obtain ⟨above, last, q, hnames, hq, hdir, hcluster, hci⟩ := hleaf
  rcases h.only above q hq with hold | ⟨_, _, _, _, _, _, hnode⟩
  · exact ⟨above, last, q, hnames, hold, hdir, hcluster, hci⟩
  · rw [node_isDir hnode] at hdir
    cases hdir

theorem Grew.refl : fs.Grew d d [] :=
  ⟨fun _ _ => id, fun _ _ => Or.inl, fun _ h => absurd h List.not_mem_nil⟩

theorem Grew.trans {d₁ d₂ : Sectors} {calls calls' : List (Path × Option Bool)} (h : fs.Grew d d₁ calls)
    (h' : fs.Grew d₁ d₂ calls') (hcalls : ∀ call ∈ calls', ∃ p name, fs.Names d call.1 p name) :
    fs.Grew d d₂ (calls ++ calls') where
  kept names g hg := h'.kept names g (h.kept names g hg)
  only names g hg := by
    rcases h'.only names g hg with hold | ⟨path, p, name, hcall, hnames, hleaf, hnode⟩
    · refine (h.only names g hold).imp id ?_
      rintro ⟨path, p, name, hcall, hrest⟩
      exact ⟨path, p, name, List.mem_append_left _ hcall, hrest⟩
    · obtain ⟨p', name', hnames'⟩ := hcalls (path, some true) hcall
      obtain ⟨rfl, rfl⟩ := (h.names hnames').unique hnames
      exact Or.inr ⟨path, p', name', List.mem_append_right _ hcall, hnames', h.leaf hleaf, hnode⟩
  there path hcall := by
    rcases List.mem_append.mp hcall with hold | hnew
    · obtain ⟨hne, g, hg⟩ := h.there path hold
      exact ⟨hne, g, h'.kept _ g hg⟩
    · exact h'.there path hnew

theorem Created.grew {d d' : Sectors} {r : Option Bool} (hcat : fs.Catalogue dirs chain d)
    (hnames : fs.Names d path p name)
    (h : fs.Created dirs (fs.clusterOf p) name d d' (decide (r = some true))) : fs.Grew d d' [(path, r)] := by
  have hroot : dirs (fs.clusterOf fs.rootFound) := by
    rw [clusterOf_rootFound]
    exact hcat.root
  obtain ⟨dirPath, hsplit, -, hp⟩ := hnames.split
  have hpath : name ≠ [] → components slash path = components slash dirPath ++ [name] := (splitParent_some hsplit).1
  have hbelow : ∀ {v : Volume} {above : List Name} {here g : Found}, Denotes fs v here above p →
      Finds fs v (fs.clusterOf p) name g → Denotes fs v here (above ++ [name]) g := by
    intro v above
    induction above with
    | nil =>
      rintro here g rfl hfind
      exact ⟨hnames.dir, g, hfind, rfl⟩
    | cons n above ih =>
      rintro here g ⟨hdir, g', hg', hrest⟩ hfind
      exact ⟨hdir, g', hg', ih hrest hfind⟩
  rcases h with ⟨hsame, hmade⟩ | ⟨hmade, hname, -, new, hnode, hfinds⟩
  · have hiff : ∀ names g, Denotes fs d'.volume fs.rootFound names g ↔
        Denotes fs d.volume fs.rootFound names g := by
      intro names g
      have hfinds : ∀ c name g, dirs c → (Finds fs d'.volume c name g ↔ Finds fs d.volume c name g ∨ False) :=
        fun c name g hc => by rw [hsame c name g hc, or_false]
      have hnew : Denotes fs d'.volume fs.rootFound names g ↔ _ :=
        hcat.denotes_iff hfinds (fun _ _ _ => False.elim) hroot
      simpa using hnew
    refine ⟨fun names g => (hiff names g).mpr, fun names g hg => Or.inl ((hiff names g).mp hg),
      fun path' hcall => ?_⟩
    obtain ⟨rfl, rfl⟩ : path' = path ∧ r = some true := by simpa [eq_comm] using hcall
    obtain ⟨hname, g, hg⟩ := hmade (by simp)
    rw [hpath hname]
    exact ⟨by simp, g, (hiff _ g).mpr (hbelow hp hg)⟩
  · have hiff : ∀ names g, Denotes fs d'.volume fs.rootFound names g ↔ _ := fun names g =>
      hcat.denotes_iff hfinds (fun _ _ g hg => by rw [hg.2.2, node_isDir hnode]) hroot
    refine ⟨fun names g hg => (hiff names g).mpr (Or.inl hg), fun names g hg => ?_, fun path' hcall => ?_⟩
    · rcases (hiff names g).mp hg with hold | ⟨above, last, q, hn, hq, hqdir, hcluster, hci, rfl⟩
      · exact Or.inl hold
      · rw [of_decide_eq_true hmade]
        exact Or.inr ⟨path, p, name, List.mem_singleton_self _, hnames,
          ⟨above, last, q, hn, hq, hqdir, hcluster, hci⟩, hnode⟩
    · obtain ⟨rfl, rfl⟩ : path' = path ∧ r = some true := by simpa [eq_comm] using hcall
      rw [hpath hname]
      refine ⟨by simp, new, (hiff _ new).mpr (Or.inr ⟨_, name, p, rfl, hp, hnames.dir, rfl, ?_, rfl⟩)⟩
      exact decide_eq_true rfl

def createAll (fs : Fat32Fs) (fails : Nat → Bool) (fuel : Nat) (junk : Found) :
    List Path → Store → List (Option Bool) × Store
  | [], s => ([], s)
  | path :: paths, s =>
      let first := (fs.fat32CreateFileOp fuel junk path).run (fs.access fails) s
      let rest := createAll fs fails fuel junk paths first.2
      (first.1 :: rest.1, rest.2)

theorem createAll_grew (hno : NoFault fails) : ∀ {paths : List Path} {s : Store} {chain : Nat → List Nat},
    fs.Catalogue dirs chain s.sector →
    (∀ path ∈ paths, ∃ p name, fs.Names s.sector path p name ∧ name.getLast? ≠ some 46) →
      (∃ chain', fs.Catalogue dirs chain' (fs.createAll fails fuel junk paths s).2.sector) ∧
        fs.Grew s.sector (fs.createAll fails fuel junk paths s).2.sector
          (paths.zip (fs.createAll fails fuel junk paths s).1) := by
  intro paths
  induction paths with
  | nil =>
    intro s chain hcat _
    exact ⟨⟨chain, hcat⟩, Grew.refl⟩
  | cons path paths ih =>
    intro s chain hcat hpaths
    rw [List.forall_mem_cons] at hpaths
    obtain ⟨⟨p, name, hnames, hdot⟩, hrest⟩ := hpaths
    have hfirst : Ensures (fs.access fails) (fs.fat32CreateFileOp fuel junk path) s _ :=
      createFile_ensures hno hcat hnames hdot
    rw [Ensures] at hfirst
    rw [createAll]
    cases hrun : (fs.fat32CreateFileOp fuel junk path).run (fs.access fails) s with
    | mk r s₁ =>
      rw [hrun] at hfirst
      obtain ⟨chain₁, hcat₁, hcreated⟩ := hfirst
      have hgrew := hcreated.grew hcat hnames
      obtain ⟨hcat', hgrew'⟩ := ih hcat₁ fun path' hmem => by
        obtain ⟨p', name', hnames', hdot'⟩ := hrest path' hmem
        exact ⟨p', name', hgrew.names hnames', hdot'⟩
      refine ⟨hcat', hgrew.trans hgrew' fun call hcall => ?_⟩
      obtain ⟨p', name', hnames', -⟩ := hrest call.1 (List.of_mem_zip hcall).1
      exact ⟨p', name', hnames'⟩

-- files created on a disk without faults are found by their paths, and whatever was found before is still found;
-- a name that ends in a dot loses it, and is not found again
theorem created_files_are_found (hno : NoFault fails) {paths : List Path} (hcat : fs.Catalogue dirs chain s.sector)
    (hpaths : ∀ path ∈ paths, ∃ p name, fs.Names s.sector path p name ∧ name.getLast? ≠ some 46) :
    (∃ chain', fs.Catalogue dirs chain' (fs.createAll fails fuel junk paths s).2.sector) ∧
      fs.Grew s.sector (fs.createAll fails fuel junk paths s).2.sector
        (paths.zip (fs.createAll fails fuel junk paths s).1) ∧
      ∀ path, (path, some true) ∈ paths.zip (fs.createAll fails fuel junk paths s).1 →
        ∃ g, ∀ junk' f,
          Resolves fs (fs.createAll fails fuel junk paths s).2.sector.volume junk' path f ↔ f = g := by
  obtain ⟨hcat', hgrew⟩ : _ ∧ fs.Grew s.sector (fs.createAll fails fuel junk paths s).2.sector _ :=
    createAll_grew hno hcat hpaths
  refine ⟨hcat', hgrew, fun path hcall => ?_⟩
  obtain ⟨hne, g, hg⟩ := hgrew.there path hcall
  obtain ⟨p, name, hnames, -⟩ := hpaths path (List.of_mem_zip hcall).1
  exact ⟨g, fun _ _ => denotes_resolves hnames.absolute hne hg⟩

end Create

end Catalogue

end Fat32Fs

section Example

instance (d : Sectors) (p : Nat × Nat) : Decidable (Ended d p) :=
  inferInstanceAs (Decidable (nameByte (d p.1) p.2 0 = 0x00))

instance (d : Sectors) (p : Nat × Nat) : Decidable (Free d p) :=
  inferInstanceAs (Decidable (nameByte (d p.1) p.2 0 = 0x00 ∨ nameByte (d p.1) p.2 0 = 0xE5))

instance (d : Sectors) (p : Nat × Nat) : Decidable (LongPiece d p) :=
  inferInstanceAs (Decidable (¬ Free d p ∧ entryAttr (d p.1) p.2 = attrLfn))

theorem smallVolume_catalogue : smallFs.Catalogue (· = 2) (fun _ => [2]) smallVolume where
  laid := smallVolume_wellFormed.laid
  length := smallVolume_wellFormed.length
  root := rfl
  runs c hc := by
    subst hc
    exact .last (smallVolume_wellFormed.clusters 2 (Or.inl rfl)) (by decide +kernel)
  apart c c' hc hc' hne := absurd (hc.trans hc'.symm) hne
  tidy c _ := ⟨by decide +kernel, by decide +kernel⟩
  below c name g hc hg hdir := by
    subst hc
    obtain rfl := smallVolume_finds hg
    exact absurd hdir (by decide)

theorem newFile_names : smallFs.Names smallVolume [slash, 98] smallFs.rootFound [98] where
  split := ⟨[], by decide, Or.inl rfl, rfl⟩
  dir := rootFound_isDir smallFs

def servedCreate : List (Option Bool) × Store :=
  smallFs.createAll (fun _ => false) 2 fileA [[slash, 98]] ⟨smallVolume, 0⟩

theorem created_files_are_found_b : ∃ g, Resolves smallFs servedCreate.2.sector.volume fileA [slash, 98] g := by
  have hmade : ([slash, 98], some true) ∈ [[slash, 98]].zip servedCreate.1 := by decide +kernel
  obtain ⟨-, -, hfound⟩ := Fat32Fs.created_files_are_found (s := ⟨smallVolume, 0⟩) (fun _ => rfl)
    smallVolume_catalogue fun path hpath => by
      rw [List.mem_singleton.mp hpath]
      exact ⟨smallFs.rootFound, [98], newFile_names, by decide⟩
  obtain ⟨g, hg⟩ := hfound [slash, 98] hmade
  exact ⟨g, (hg fileA g).mpr rfl⟩

end Example

end HouseOS.Fat32
