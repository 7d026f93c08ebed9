import HouseOS.Fat32.Dir

namespace HouseOS.Fat32

open HouseOS.Components
open HouseOS.Disk
open HouseOS.Program
open HouseOS.Word

-- a volume that nobody writes: what its sectors read as, `none` where they cannot be read
abbrev Volume := Nat → Option (List UInt8)

def Volume.sectors (v : Volume) : Nat → Nat → Option (List UInt8)
  | _, 0 => some []
  | rel, count + 1 => (v rel).bind fun sec => (v.sectors (rel + 1) count).map (sec ++ ·)

def Fat32Fs.reply (fs : Fat32Fs) (v : Volume) : SectorReq → Option (List UInt8)
  | .read relLba count =>
      if fs.refuses relLba count ∨ fs.diskKind ≠ fat32DiskAta then none else v.sectors relLba count
  | .write _ _ _ => none

section Walk

variable (fs : Fat32Fs) (v : Volume)

def Finds (dir : Nat) (name : Name) (f : Found) : Prop :=
  ∃ fuel, (fs.fat32DirFind fuel dir name).look (fs.reply v) = some (some f)

def Resolves (junk : Found) (path : Path) (f : Found) : Prop :=
  ∃ fuel, (fs.fat32Resolve fuel junk path).look (fs.reply v) = some (some f)

-- each name found from the first cluster of what the names before it lead to, whatever that is
def Leads (cur : Nat) (here : Found) : List Name → Found → Prop
  | [], f => f = here
  | name :: names, f => ∃ g, Finds fs v cur name g ∧ Leads (fs.clusterOf g) g names f

def Denotes (here : Found) : List Name → Found → Prop
  | [], f => f = here
  | name :: names, f =>
      here.isDir ∧ ∃ g, Finds fs v (fs.clusterOf here) name g ∧ Denotes g names f

-- somewhere before the last name the names lead to a file, and from its data on to the end
def CrossesFile (here : Found) : List Name → Prop
  | [] => False
  | name :: names =>
      (here.isDir = false ∧ ∃ f, Leads fs v (fs.clusterOf here) here (name :: names) f) ∨
        ∃ g, Finds fs v (fs.clusterOf here) name g ∧ CrossesFile g names

end Walk

section Fuel

variable {fs : Fat32Fs} {answer : SectorReq → Option (List UInt8)}

theorem findChain_more {dir : Nat} {name : Name} {r : Option Found} {fuel : Nat} :
    ∀ {c : Nat} {lfn : Lfn}, (findChain dir name fs fuel c lfn).look answer = some r →
      ∀ more, fuel ≤ more → (findChain dir name fs more c lfn).look answer = some r := by
  induction fuel with
  | zero =>
    intro c lfn h
    cases h
  | succ fuel ih =>
    intro c lfn h more hle
    obtain ⟨more, rfl⟩ : ∃ k, more = k + 1 := ⟨more - 1, by omega⟩
    rw [findChain] at h ⊢
    split at h
    · rename_i hc
      rw [if_pos hc]
      exact h
    · rename_i hc
      rw [if_neg hc]
      rw [Prog.look_bind] at h ⊢
      cases hscan : (findCluster dir name (fs.fat32ClusterToRelLba c) fs.sectorsPerCluster 0
          lfn).look answer with
      | stop =>
        rw [hscan] at h
        exact h
      | hit f =>
        rw [hscan] at h
        exact h
      | next lfn' =>
        rw [hscan] at h
        simp only [Prog.look_bind] at h ⊢
        cases hnext : (fs.fat32FatGet c).look answer with
        | none =>
          rw [hnext] at h
          exact h
        | some next =>
          rw [hnext] at h
          exact ih h more (by omega)

theorem dirFind_more {fuel more dir : Nat} {name : Name} {r : Option Found}
    (h : (fs.fat32DirFind fuel dir name).look answer = some r) (hle : fuel ≤ more) :
    (fs.fat32DirFind more dir name).look answer = some r :=
  findChain_more h more hle

theorem resolveLoop_more {fuel more : Nat} {r : Option Found} (hle : fuel ≤ more) :
    ∀ {path : Path} {seg : Name} {cur : Nat} {found : Found},
      (fs.resolveLoop fuel path seg cur found).look answer = some r →
      (fs.resolveLoop more path seg cur found).look answer = some r := by
  intro path
  induction path with
  | nil =>
    intro seg cur found h
    rw [Fat32Fs.resolveLoop] at h ⊢
    split at h
    · rename_i hseg
      rw [if_pos hseg]
      exact h
    · rename_i hseg
      rw [if_neg hseg]
      exact dirFind_more h hle
  | cons c rest ih =>
    intro seg cur found h
    rw [Fat32Fs.resolveLoop] at h ⊢
    by_cases hc : c = slash
    · rw [if_pos hc] at h ⊢
      by_cases hseg : seg = []
      · rw [if_pos hseg] at h ⊢
        exact ih h
      · rw [if_neg hseg, Prog.look_bind] at h ⊢
        cases hfind : (fs.fat32DirFind fuel cur seg).look answer with
        | none =>
          rw [hfind] at h
          cases h
        | some found' =>
          rw [hfind] at h
          rw [dirFind_more hfind hle]
          cases found' with
          | none => exact h
          | some g => exact ih h
    · rw [if_neg hc] at h ⊢
      split at h
      · rename_i hlong
        rw [if_pos hlong]
        exact h
      · rename_i hlong
        rw [if_neg hlong]
        exact ih h

end Fuel

section Names

variable {fs : Fat32Fs} {answer : SectorReq → Option (List UInt8)} {dir : Nat} {name : Name}

theorem decodedName_length (lfn : Lfn) (sec : List UInt8) (off : Nat) :
    (decodedName lfn sec off).length ≤ 255 := by
  rw [decodedName]
  split
  · exact List.length_take_le _ _
  · refine (List.takeWhile_sublist _).length_le.trans ?_
    have hpart (start len : Nat) : (shortPart sec off start len).length ≤ len := by
      rw [shortPart, List.length_map]
      exact (List.takeWhile_sublist _).length_le.trans (by simp)
    have hbase := hpart 0 8
    have hext := hpart 8 3
    rw [List.length_append]
    split
    · rw [List.length_cons]
      omega
    · simp only [List.length_nil]
      omega

theorem nameEqCi_length {a b : Name} (h : nameEqCi a b = true) : a.length = b.length := by
  have hmap : a.map asciiToLower = b.map asciiToLower := of_decide_eq_true h
  simpa using congrArg List.length hmap

structure IsHit (answer : SectorReq → Option (List UInt8)) (name : Name) (f : Found) : Prop where
  length : name.length ≤ 255
  place : f.entryOffset ≤ 480 ∧ f.entryOffset % 32 = 0
  sector : answer (.read f.entryRelSector 1) ≠ none

theorem findEntry_hit {rel off : Nat} {sec : List UInt8} {lfn : Lfn} {f : Found}
    (h : findEntry dir name rel sec off lfn = .hit f) :
    name.length ≤ 255 ∧ f.entryOffset = off ∧ f.entryRelSector = rel := by
  rw [findEntry] at h
  split at h
  · cases h
  split at h
  · cases h
  split at h
  · cases h
  split at h
  · cases h
  split at h
  · rename_i hname
    cases h
    refine ⟨?_, rfl, rfl⟩
    rw [← nameEqCi_length hname]
    exact decodedName_length lfn sec off
  · cases h

theorem findSector_hit {rel : Nat} {sec : List UInt8} {f : Found} {left : Nat} :
    ∀ {off : Nat} {lfn : Lfn}, findSector dir name rel sec left off lfn = .hit f →
      off % 32 = 0 → off + 32 * left ≤ 512 →
      name.length ≤ 255 ∧ (f.entryOffset ≤ 480 ∧ f.entryOffset % 32 = 0) ∧ f.entryRelSector = rel := by
  induction left with
  | zero =>
    intro off lfn h
    cases h
  | succ left ih =>
    intro off lfn h hoff hle
    rw [findSector] at h
    cases hentry : findEntry dir name rel sec off lfn with
    | stop =>
      rw [hentry] at h
      cases h
    | hit g =>
      rw [hentry] at h
      cases h
      obtain ⟨hlen, hplace, hrel⟩ := findEntry_hit hentry
      rw [hplace]
      exact ⟨hlen, ⟨by omega, hoff⟩, hrel⟩
    | next lfn' =>
      rw [hentry] at h
      exact ih h (by omega) (by omega)

theorem findCluster_hit {rel : Nat} {f : Found} {left : Nat} :
    ∀ {s : Nat} {lfn : Lfn}, (findCluster dir name rel left s lfn).look answer = .hit f →
      IsHit answer name f := by
  induction left with
  | zero =>
    intro s lfn h
    cases h
  | succ left ih =>
    intro s lfn h
    rw [findCluster, Prog.look_ask] at h
    cases hread : answer (.read (add32 rel s) 1) with
    | none =>
      rw [hread] at h
      cases h
    | some sec =>
      rw [hread] at h
      cases hsec : findSector dir name (add32 rel s) sec 16 0 lfn with
      | stop =>
        simp only [hsec] at h
        cases h
      | hit g =>
        simp only [hsec] at h
        cases h
        obtain ⟨hlen, hplace, hrel⟩ := findSector_hit hsec (by decide) (by decide)
        exact ⟨hlen, hplace, by simp [hrel, hread]⟩
      | next lfn' =>
        simp only [hsec] at h
        exact ih h

theorem findChain_hit {f : Found} {fuel : Nat} :
    ∀ {c : Nat} {lfn : Lfn}, (findChain dir name fs fuel c lfn).look answer = some (some f) →
      IsHit answer name f := by
  induction fuel with
  | zero =>
    intro c lfn h
    cases h
  | succ fuel ih =>
    intro c lfn h
    rw [findChain] at h
    split at h
    · cases h
    rw [Prog.look_bind] at h
    cases hscan : (findCluster dir name (fs.fat32ClusterToRelLba c) fs.sectorsPerCluster 0
        lfn).look answer with
    | stop =>
      rw [hscan] at h
      cases h
    | hit g =>
      rw [hscan] at h
      cases h
      exact findCluster_hit hscan
    | next lfn' =>
      rw [hscan] at h
      simp only [Prog.look_bind] at h
      cases hnext : (fs.fat32FatGet c).look answer with
      | none =>
        rw [hnext] at h
        cases h
      | some next =>
        rw [hnext] at h
        exact ih h

end Names

section Resolve

variable {fs : Fat32Fs} {v : Volume}

theorem Finds.isHit {dir : Nat} {name : Name} {f : Found} (h : Finds fs v dir name f) :
    IsHit (fs.reply v) name f :=
  let ⟨_, hfind⟩ := h
  findChain_hit hfind

theorem Finds.unique {dir : Nat} {name : Name} {f g : Found} (hf : Finds fs v dir name f)
    (hg : Finds fs v dir name g) : f = g := by
  obtain ⟨fuel, hf⟩ := hf
  obtain ⟨fuel', hg⟩ := hg
  have hf' := dirFind_more hf (Nat.le_max_left fuel fuel')
  have hg' := dirFind_more hg (Nat.le_max_right fuel fuel')
  rw [hf'] at hg'
  exact Option.some.inj (Option.some.inj hg')

theorem long_name_leads_nowhere {seg : Name} {c : UInt8} {rest : Path} {cur : Nat}
    {found f : Found} (hseg : slash ∉ seg) (hc : c ≠ slash) (hlong : 256 ≤ seg.length + 1) :
    ¬ Leads fs v cur found (components slash (seg ++ c :: rest)) f := by
  have hhead : (seg ++ c :: rest).head? ≠ some slash := by
    cases seg with
    | nil => simpa using hc
    | cons d seg =>
      rw [List.cons_append, List.head?_cons]
      rintro ⟨⟩
      exact hseg List.mem_cons_self
  have htake : (seg ++ c :: rest).takeWhile (fun c => decide (c ≠ slash)) =
      seg ++ c :: rest.takeWhile (fun c => decide (c ≠ slash)) := by
    rw [List.takeWhile_append_of_pos, List.takeWhile_cons_of_pos (by simpa using hc)]
    intro x hx
    exact decide_eq_true fun heq => hseg (heq ▸ hx)
  rw [components_split slash hhead (by simp), htake]
  rintro ⟨g, hfind, _⟩
  have hlen := hfind.isHit.length
  rw [List.length_append, List.length_cons] at hlen
  omega

theorem resolveLoop_leads {f : Found} {path : Path} :
    ∀ {seg : Name} {cur : Nat} {found : Found}, slash ∉ seg → seg.length ≤ 255 →
      ((∃ fuel, (fs.resolveLoop fuel path seg cur found).look (fs.reply v) = some (some f)) ↔
        Leads fs v cur found (components slash (seg ++ path)) f) := by
  induction path with
  | nil =>
    intro seg cur found hseg _
    rw [List.append_nil]
    by_cases hne : seg = []
    · subst hne
      simp [Fat32Fs.resolveLoop, Leads, eq_comm]
    · have hall : ∀ x ∈ seg, x ≠ slash := fun x hx heq => hseg (heq ▸ hx)
      rw [components_of_forall_ne slash hall hne]
      simp only [Fat32Fs.resolveLoop, if_neg hne, Leads]
      exact ⟨fun h => ⟨f, h, rfl⟩, fun ⟨g, hfind, heq⟩ => heq ▸ hfind⟩
  | cons c rest ih =>
    intro seg cur found hseg hlen
    by_cases hc : c = slash
    · subst hc
      by_cases hne : seg = []
      · subst hne
        simp only [Fat32Fs.resolveLoop, if_pos, List.nil_append, components_cons_sep]
        exact ih (by simp) (by simp)
      · have hall : ∀ x ∈ seg, x ≠ slash := fun x hx heq => hseg (heq ▸ hx)
        rw [components_append_cons, components_of_forall_ne slash hall hne, List.singleton_append]
        simp only [Fat32Fs.resolveLoop, if_pos, if_neg hne, Leads, Prog.look_bind]
        constructor
        · rintro ⟨fuel, h⟩
          cases hfind : (fs.fat32DirFind fuel cur seg).look (fs.reply v) with
          | none => simp [hfind] at h
          | some found' =>
            cases found' with
            | none => simp [hfind] at h
            | some g =>
              rw [hfind] at h
              exact ⟨g, ⟨fuel, hfind⟩, (ih (by simp) (by simp)).mp ⟨fuel, h⟩⟩
        · rintro ⟨g, ⟨fuel, hfind⟩, hrest⟩
          obtain ⟨fuel', h⟩ := (@ih [] (fs.clusterOf g) g (by simp) (by simp)).mpr hrest
          refine ⟨max fuel fuel', ?_⟩
          rw [dirFind_more hfind (Nat.le_max_left fuel fuel')]
          exact resolveLoop_more (Nat.le_max_right fuel fuel') h
    · by_cases hlong : 256 ≤ seg.length + 1
      · simp only [Fat32Fs.resolveLoop, if_neg hc, if_pos hlong, Prog.look_done]
        refine iff_of_false ?_ (long_name_leads_nowhere hseg hc hlong)
        rintro ⟨_, ⟨⟩⟩
      · simp only [Fat32Fs.resolveLoop, if_neg hc, if_neg hlong]
        rw [ih, List.append_assoc, List.singleton_append]
        · simp only [List.mem_append, List.mem_singleton, not_or]
          exact ⟨hseg, fun heq => hc heq.symm⟩
        · rw [List.length_append, List.length_singleton]
          omega

theorem clusterOf_rootFound (fs : Fat32Fs) : fs.clusterOf fs.rootFound = fs.rootCluster :=
  ite_self fs.rootCluster

theorem leads_of_cons {cur : Nat} {here f : Found} {names : List Name} (hne : names ≠ [])
    (here' : Found) : Leads fs v cur here names f ↔ Leads fs v cur here' names f := by
  cases names with
  | nil => exact absurd rfl hne
  | cons name names => exact Iff.rfl

theorem resolves_iff {junk f : Found} {path : Path} :
    Resolves fs v junk path f ↔ path.head? = some slash ∧
      (path = [slash] ∧ f = fs.rootFound ∨
        path ≠ [slash] ∧ Leads fs v fs.rootCluster junk (components slash path) f) := by
  rw [Resolves]
  by_cases hhead : path.head? = some slash
  · by_cases hroot : path = [slash]
    · subst hroot
      simp [Fat32Fs.fat32Resolve, eq_comm]
    · simp only [Fat32Fs.fat32Resolve, hhead, hroot, ne_eq, not_true_eq_false, if_false, true_and,
        false_and, not_false_eq_true, false_or]
      exact resolveLoop_leads (by simp) (by simp)
  · simp [Fat32Fs.fat32Resolve, hhead]

theorem Leads.unique {f g : Found} :
    ∀ {names : List Name} {cur : Nat} {here : Found}, Leads fs v cur here names f →
      Leads fs v cur here names g → f = g
  | [], _, _, hf, hg => Eq.trans hf (Eq.symm hg)
  | _ :: _, _, _, ⟨_, hfind, hf⟩, ⟨_, hfind', hg⟩ => by
    obtain rfl := hfind.unique hfind'
    exact hf.unique hg

theorem Leads.isHit {f : Found} :
    ∀ {names : List Name} {cur : Nat} {here : Found}, Leads fs v cur here names f → names ≠ [] →
      ∃ name, IsHit (fs.reply v) name f
  | [_], _, _, ⟨_, hfind, rfl⟩, _ => ⟨_, hfind.isHit⟩
  | _ :: _ :: _, _, _, ⟨_, _, hrest⟩, _ => hrest.isHit (List.cons_ne_nil _ _)

theorem Denotes.leads {f : Found} :
    ∀ {names : List Name} {here : Found}, Denotes fs v here names f →
      Leads fs v (fs.clusterOf here) here names f
  | [], _, h => h
  | _ :: _, _, ⟨_, g, hfind, hrest⟩ => ⟨g, hfind, hrest.leads⟩

theorem Leads.denotes {f : Found} :
    ∀ {names : List Name} {here : Found}, Leads fs v (fs.clusterOf here) here names f →
      ¬ CrossesFile fs v here names → Denotes fs v here names f
  | [], _, h, _ => h
  | name :: names, here, ⟨g, hfind, hrest⟩, hcross => by
    have hdir : here.isDir = true := by
      by_contra hdir
      exact hcross (.inl ⟨by simpa using hdir, f, g, hfind, hrest⟩)
    exact ⟨hdir, g, hfind, Leads.denotes hrest fun h => hcross (.inr ⟨g, hfind, h⟩)⟩

theorem CrossesFile.leads :
    ∀ {names : List Name} {here : Found}, CrossesFile fs v here names →
      ∃ f, Leads fs v (fs.clusterOf here) here names f
  | _ :: _, _, .inl ⟨_, hleads⟩ => hleads
  | _ :: _, _, .inr ⟨g, hfind, hrest⟩ =>
    let ⟨f, hf⟩ := hrest.leads
    ⟨f, g, hfind, hf⟩

theorem CrossesFile.not_denotes {f : Found} :
    ∀ {names : List Name} {here : Found}, CrossesFile fs v here names →
      ¬ Denotes fs v here names f
  | _ :: _, _, .inl ⟨hfile, _⟩, ⟨hdir, _⟩ => by
    rw [hfile] at hdir
    cases hdir
  | _ :: _, _, .inr ⟨g, hfind, hrest⟩, ⟨_, g', hfind', hrest'⟩ => by
    obtain rfl := hfind.unique hfind'
    exact hrest.not_denotes hrest'

theorem resolve_denotes_iff (fs : Fat32Fs) (v : Volume) (path : Path) :
    (∀ junk f, Resolves fs v junk path f ↔
      path.head? = some slash ∧ Denotes fs v fs.rootFound (components slash path) f) ↔
    ¬ (path.head? = some slash ∧
      (components slash path = [] ∧ path ≠ [slash] ∨
        CrossesFile fs v fs.rootFound (components slash path))) := by
  constructor
  · rintro h ⟨hhead, ⟨hnil, hroot⟩ | hcross⟩
    · -- what is copied out is whatever the stack held
      have hjunk := (h ⟨⟨attrDir, 0, 1, []⟩, 0, 0, 0⟩ _).mp
        (resolves_iff.mpr ⟨hhead, .inr ⟨hroot, by rw [hnil]; rfl⟩⟩)
      rw [hnil] at hjunk
      have hsize := congrArg (fun f : Found => f.node.size) hjunk.2
      cases hsize
    · obtain ⟨f, hleads⟩ := hcross.leads
      rw [clusterOf_rootFound] at hleads
      refine hcross.not_denotes ((h fs.rootFound f).mp (resolves_iff.mpr ⟨hhead, .inr ⟨?_, hleads⟩⟩)).2
      rintro rfl
      simp [CrossesFile] at hcross
  · intro h junk f
    rw [resolves_iff]
    refine and_congr_right fun hhead => ?_
    have hcross : ¬ CrossesFile fs v fs.rootFound (components slash path) :=
      fun hcross => h ⟨hhead, .inr hcross⟩
    by_cases hroot : path = [slash]
    · subst hroot
      simp [Denotes]
    · have hne : components slash path ≠ [] := fun hnil => h ⟨hhead, .inl ⟨hnil, hroot⟩⟩
      simp only [ne_eq, hroot, false_and, not_false_eq_true, true_and, false_or]
      rw [leads_of_cons hne fs.rootFound]
      constructor
      · intro hleads
        rw [← clusterOf_rootFound fs] at hleads
        exact hleads.denotes hcross
      · intro hden
        rw [← clusterOf_rootFound fs]
        exact hden.leads

-- the root directory holds the empty file `a` and the file `b`
def twoFiles : Fat32Fs := ⟨0, 0, 0, 100, 512, 1, 32, 1, 1, 2, 32, 33⟩

def shortEntry (letter : UInt8) (cluster : Nat) : List UInt8 :=
  letter :: List.replicate 10 32 ++ 32 :: List.replicate 14 0 ++ [UInt8.ofNat cluster, 0] ++
    List.replicate 4 0

def twoFilesVolume : Volume := fun rel =>
  if rel = 33 then some (shortEntry 65 0 ++ shortEntry 66 3 ++ List.replicate 448 0)
  else some (List.replicate 512 0)

theorem file_followed_as_directory :
    ¬ ∀ junk f, Resolves twoFiles twoFilesVolume junk [slash, 97, slash, 98] f ↔
      [slash, 97, slash, 98].head? = some slash ∧
        Denotes twoFiles twoFilesVolume twoFiles.rootFound
          (components slash [slash, 97, slash, 98]) f := by
  intro h
  have hb : Resolves twoFiles twoFilesVolume twoFiles.rootFound [slash, 97, slash, 98]
      ⟨⟨32, 3, 0, [98]⟩, 2, 33, 32⟩ := ⟨1, by decide +kernel⟩
  have ha : Finds twoFiles twoFilesVolume 2 [97] ⟨⟨32, 0, 0, [97]⟩, 2, 33, 0⟩ :=
    ⟨1, by decide +kernel⟩
  obtain ⟨_, _, g, hg, hfile, _⟩ := (h twoFiles.rootFound _).mp hb
  obtain rfl := hg.unique ha
  cases hfile

end Resolve

end HouseOS.Fat32
