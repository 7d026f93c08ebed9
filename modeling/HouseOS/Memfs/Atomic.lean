import HouseOS.Memfs.FirstMissing

namespace HouseOS.Memfs

open HouseOS.Components
open HouseOS.Loop (Step)
open HouseOS.Vfs (Path slash NodeType)
open World

variable {w w' : World} {n f cur : Nat} {name : Path}

-- the next missing directory of `cur` gets its node, its name and an entry with a usable name
def LinksDir (w : World) (cur : Nat) : Prop :=
  (w.inode cur).type = .dir ∧ w.grant w.allocs = true ∧ w.grant (w.allocs + 1) = true ∧
    w.grant (w.allocs + 2) = true ∧ (w.grant (w.allocs + 3) = true ∨ IsName w.atNull)

instance (w : World) (cur : Nat) : Decidable (LinksDir w cur) := inferInstanceAs (Decidable (_ ∧ _))

def LinksParent (w : World) (f : Nat) (path : Path) : Prop :=
  ∃ dir name s missing, splitLast slash path = some (dir, name) ∧
    firstMissing w (components slash dir) (f, w.root f) = some (s, missing) ∧ LinksDir w s.2

def Traceless (w : World) : Call → Prop
  | .createDir f path => ¬(path.head? = some slash ∧ LinksParent w f path)
  | .createFile f path => ¬(path.head? = some slash ∧ LinksParent w f path)
  | .createFifo f path => ¬(path.head? = some slash ∧ LinksParent w f path)
  | .createSocket f path => ¬(path.head? = some slash ∧ LinksParent w f path)
  | .createDevice f path buffer _ =>
      ¬(buffer.length ≠ 0 ∧ path.head? = some slash ∧ LinksParent w f path)
  | .link f old new => ¬((w.lookupPath f old).isSome = true ∧ LinksParent w f new)
  | .write f path _ => ∀ owner i, w.lookupPathEx f path = some (owner, i) →
      (w.inode i).type = .file → contents (w.inode i) = []
  | _ => True

section Linking

def newEntry (w : World) (name : Path) : Dentry :=
  ⟨if w.grant (w.allocs + 3) then some ((name.take 255).take 255) else none, w.nextInode, none⟩

theorem mkdirHere_inode (f : Nat) (name : Path) (hcur : cur < w.nextInode) (hdir : (w.inode cur).type = .dir)
    (h₀ : w.grant w.allocs = true) (h₁ : w.grant (w.allocs + 1) = true)
    (h₂ : w.grant (w.allocs + 2) = true) :
    (∀ j < w.nextInode, (w.mkdirHere f cur name).2.inode j =
      if j = cur then
        { w.inode cur with
          entries := newEntry w name :: (w.inode cur).entries
          entryCount := (w.inode cur).entryCount + 1 }
      else w.inode j) ∧
    (∀ g, (w.mkdirHere f cur name).2.root g = w.root g) ∧
      (w.mkdirHere f cur name).2.atNull = w.atNull := by
  have hbare : ∀ j < w.nextInode, (bareDir w cur name).inode j = w.inode j :=
    (Kept.bareDir w cur name).inode
  rcases mkdirHere_eq w f cur name with ⟨-, -, hno⟩ | ⟨-, -, heq⟩
  · exact absurd ⟨h₀, h₁⟩ hno
  · rw [heq, dirAdd_eq, hbare cur hcur, if_pos ⟨hdir, h₂⟩]
    refine ⟨fun j hj => ?_, fun g => ?_, rfl⟩
    · simp only [World.countInode, World.setMemfs, World.addLink, World.addEntry, setInode_inode]
      rw [if_neg (by omega)]
      split
      · rw [hbare cur hcur]
        simp [bareDir, newEntry, World.text]
      · exact hbare j hj
    · simp only [World.countInode, World.root, World.setMemfs]
      split
      · rename_i hg
        rw [hg]
        rfl
      · rfl

theorem find_newEntry (w : World) (d : Dentry) (l : List Dentry) (x : Path) :
    (d :: l).find? (fun e => decide (w.text e.name = x)) =
      if w.text d.name = x then some d else l.find? (fun e => decide (w.text e.name = x)) := by
  rw [List.find?_cons]
  by_cases h : w.text d.name = x <;> simp [h]

theorem mkdirHere_unseen (f : Nat) (hcur : cur < w.nextInode) (name : Path)
    (h : ¬LinksDir w cur) : Unseen w (w.mkdirHere f cur name).2 := by
  by_cases hlink : (w.inode cur).type = .dir ∧ w.grant w.allocs = true ∧
      w.grant (w.allocs + 1) = true ∧ w.grant (w.allocs + 2) = true
  · obtain ⟨hdir, h₀, h₁, h₂⟩ := hlink
    have hbad : w.grant (w.allocs + 3) = false ∧ ¬IsName w.atNull := by
      constructor
      · by_contra h₃
        exact h ⟨hdir, h₀, h₁, h₂, Or.inl (by simpa using h₃)⟩
      · exact fun hn => h ⟨hdir, h₀, h₁, h₂, Or.inr hn⟩
    obtain ⟨hinode, hroot, hnull⟩ :=
      mkdirHere_inode f name hcur hdir h₀ h₁ h₂
    generalize (w.mkdirHere f cur name).2 = w' at hinode hroot hnull
    have htext : w'.text = w.text := by
      funext s
      rw [World.text, World.text, hnull]
    refine ⟨fun j hj => ?_, fun j hj x hx => ?_, hroot⟩
    · rw [hinode j hj]
      split
      · rename_i hcj
        rw [hcj]
        rfl
      · rfl
    · rw [World.lookupDentry, World.lookupDentry, hinode j hj, htext]
      split
      · rename_i hcj
        subst hcj
        have hne : w.text (newEntry w name).name ≠ x := by
          rw [newEntry, hbad.1]
          rintro rfl
          exact hbad.2 hx
        simp only [find_newEntry, if_neg hne]
      · rfl
  · refine Kept.unseen ?_
    rcases mkdirHere_eq w f cur name with ⟨-, hk, -⟩ | ⟨h₀, h₁, heq⟩
    · exact hk
    · have hno : ¬(((bareDir w cur name).inode cur).type = .dir ∧
          (bareDir w cur name).grant (bareDir w cur name).allocs = true) := by
        rw [(Kept.bareDir w cur name).inode cur hcur]
        exact fun h => hlink ⟨h.1, h₀, h₁, h.2⟩
      rw [heq, dirAdd_eq, if_neg hno]
      exact ((Kept.bareDir w cur name).trans (Kept.allocs _ _ _)).trans (Kept.countInode _ _ _)

theorem take_isName (h : IsName name) : IsName ((name.take 255).take 255) := by
  obtain ⟨hne, hslash⟩ := h
  constructor
  · cases name with
    | nil => exact absurd rfl hne
    | cons c rest => simp
  · exact fun hmem => hslash (List.mem_of_mem_take (List.mem_of_mem_take hmem))

theorem mkdirHere_seen (f : Nat) (hcur : cur < w.nextInode) (hname : IsName name)
    (h : LinksDir w cur) :
    ∃ x d, IsName x ∧ (w.mkdirHere f cur name).2.lookupDentry cur x = some d ∧
      d.inode = w.nextInode ∧ d.mountedFs = none := by
  obtain ⟨hdir, h₀, h₁, h₂, h₃⟩ := h
  obtain ⟨hinode, -, hnull⟩ := mkdirHere_inode f name hcur hdir h₀ h₁ h₂
  refine ⟨w.text (newEntry w name).name, newEntry w name, ?_, ?_, rfl, rfl⟩
  · rw [newEntry]
    cases hg : w.grant (w.allocs + 3) with
    | true => exact take_isName hname
    | false =>
      rw [hg] at h₃
      exact h₃.resolve_left (by simp)
  · generalize (w.mkdirHere f cur name).2 = w' at hinode hnull
    have htext : w'.text = w.text := by
      funext s
      rw [World.text, World.text, hnull]
    have hdir' : ¬(w'.inode cur).type ≠ .dir := by
      rw [hinode cur hcur, if_pos rfl]
      exact not_not.mpr hdir
    rw [World.lookupDentry, if_neg hdir', hinode cur hcur, if_pos rfl, htext, find_newEntry,
      if_pos rfl]

end Linking

section Parents

theorem firstMissing_valid (hw : Sound w) (hf : f < w.nextFs) {names : List Path}
    {s : Nat × Nat} (h : firstMissing w names (f, w.root f) = some (s, name)) :
    s.1 < w.nextFs ∧ s.2 < w.nextInode := by
  obtain ⟨-, -, before, -, hscan⟩ := firstMissing_some h
  exact hw.scan (s := (f, w.root f)) hf (hw.root f hf) hscan

theorem seen_changed (hw : Sound w) (hf : f < w.nextFs) {names : List Path}
    (hnames : ∀ name ∈ names, IsName name) {s : Nat × Nat} {x : Path} {d : Dentry}
    (hscan : scanLast w.lookupStep names (f, w.root f) = .go s) (hx : IsName x)
    (hd : w'.lookupDentry s.2 x = some d) (hi : d.inode = w.nextInode) (hm : d.mountedFs = none)
    (h : Unchanged w w') : False := by
  have hsame := h.1 f hf
  have hall : ∀ name ∈ names ++ [x], IsName name := by
    intro name hmem
    rcases List.mem_append.mp hmem with hmem | hmem
    · exact hnames name hmem
    · rw [List.mem_singleton.mp hmem]
      exact hx
  have hscan' : scanLast w'.lookupStep names (f, w'.root f) = .go s := by
    have heq := hsame (spell names)
    rw [lookupPathEx_spell hnames, lookupPathEx_spell hnames, hscan] at heq
    split at heq
    · cases heq
    · rename_i t ht
      rw [ht, Option.some.inj heq]
  have hnew : w'.lookupPathEx f (spell (names ++ [x])) = some (s.1, w.nextInode) := by
    rw [lookupPathEx_spell hall, scan_append, hscan']
    simp only [scanLast, lookupStep_some _ hd, World.enter, hm, hi]
  rw [hsame, lookupPathEx_spell hall] at hnew
  split at hnew
  · cases hnew
  · rename_i t ht
    have hlt := (hw.scan (s := (f, w.root f)) hf (hw.root f hf) ht).2
    rw [Option.some.inj hnew] at hlt
    exact Nat.lt_irrefl _ hlt

theorem mkdirP_unchanged_iff (hw : Sound w) (hf : f < w.nextFs) {dir : Path}
    (hk : Kept w.nextInode (w.mkdirP f dir).2 w') :
    Unchanged w w' ↔ ¬∃ s missing, firstMissing w (components slash dir) (f, w.root f) =
      some (s, missing) ∧ LinksDir w s.2 := by
  rw [mkdirP_made] at hk
  cases hfirst : firstMissing w (components slash dir) (f, w.root f) with
  | none =>
    rw [scan_existing hfirst] at hk
    refine iff_of_true (hk.unseen.unchanged hw) ?_
    rintro ⟨s, missing, h, -⟩
    cases h
  | some r =>
    obtain ⟨s, missing⟩ := r
    have hmade := (scan_missing hfirst).trans hk
    obtain ⟨-, hi⟩ := firstMissing_valid hw hf hfirst
    obtain ⟨hmem, -, before, hpre, hscan⟩ := firstMissing_some hfirst
    by_cases hlink : LinksDir w s.2
    · refine iff_of_false (fun h => ?_) fun h => h ⟨s, missing, rfl, hlink⟩
      obtain ⟨x, d, hx, hd, hdi, hm⟩ :=
        mkdirHere_seen s.1 hi (component_isName hmem) hlink
      have hd' : w'.lookupDentry s.2 x = some d := by
        rw [hmade.lookupDentry hi, hd]
      exact seen_changed hw hf
        (fun name hname => component_isName (hpre.subset hname)) hscan hx hd' hdi hm h
    · refine iff_of_true (((mkdirHere_unseen s.1 hi missing hlink).kept hmade).unchanged hw) ?_
      rintro ⟨t, missing', h, hl⟩
      cases h
      exact hlink hl

end Parents

section Calls

theorem splitParent_world (w : World) (f : Nat) (path : Path) : (w.splitParent f path).2 =
    match splitLast slash path with
    | none => w
    | some (dir, _) => (w.mkdirP f (if dir.length = 0 then [slash] else dir)).2 := by
  rw [World.splitParent]
  cases splitLast slash path with
  | none => rfl
  | some r =>
    obtain ⟨dir, name⟩ := r
    dsimp only
    split
    · rename_i h
      rw [h]
    · rename_i h
      rw [h]

theorem splitParent_unchanged_iff (hw : Sound w) (hf : f < w.nextFs) {path : Path}
    (hk : Kept w.nextInode (w.splitParent f path).2 w') :
    Unchanged w w' ↔ ¬LinksParent w f path := by
  rw [splitParent_world] at hk
  rw [LinksParent]
  cases hsplit : splitLast slash path with
  | none =>
    rw [hsplit] at hk
    refine iff_of_true (Kept.unseen hk |>.unchanged hw) ?_
    rintro ⟨dir, name, s, missing, h, -⟩
    cases h
  | some r =>
    obtain ⟨dir, name⟩ := r
    rw [hsplit] at hk
    have hcomp : components slash (if dir.length = 0 then [slash] else dir) = components slash dir := by
      split
      · rename_i hzero
        rw [List.eq_nil_of_length_eq_zero hzero, components_cons_sep]
      · rfl
    rw [mkdirP_unchanged_iff hw hf hk, hcomp, not_iff_not]
    constructor
    · rintro ⟨s, missing, h⟩
      exact ⟨dir, name, s, missing, rfl, h⟩
    · rintro ⟨dir', name', s, missing, h, hrest⟩
      cases h
      exact ⟨s, missing, hrest⟩

theorem vallocInode_none (h : w.vallocInode.1 = none) :
    w.vallocInode.2 = { w with allocs := w.allocs + 1 } := by
  rw [vallocInode_eq] at h ⊢
  split
  · rename_i hg
    rw [if_pos hg] at h
    cases h
  · rfl

theorem newNode_failed {owner parent : Nat} {fill : Inode → Inode}
    (h : (w.newNode owner parent name fill).1 = none) (n : Nat) :
    Kept n w (w.newNode owner parent name fill).2 := by
  rw [World.newNode] at h ⊢
  cases hv : w.vallocInode with
  | mk r w₁ =>
    rw [hv] at h
    cases r with
    | none =>
      have hw₁ := vallocInode_none (w := w) (by rw [hv])
      rw [hv] at hw₁
      dsimp only at hw₁ ⊢
      rw [hw₁]
      exact Kept.allocs n w _
    | some node => cases h

theorem createNode_failed {path : Path} {type : NodeType} {fill : Inode → Inode}
    (hw : Sound w) (hf : f < w.nextFs) (h : (w.createNode f path type fill).1 = none) :
    Unchanged w (w.createNode f path type fill).2 ↔
      ¬(path.head? = some slash ∧ LinksParent w f path) := by
  by_cases habs : path.head? = some slash
  · rw [and_iff_right habs]
    refine splitParent_unchanged_iff hw hf ?_
    rw [World.createNode, if_neg (not_not.mpr habs)] at h ⊢
    cases hs : w.splitParent f path with
    | mk r w₁ =>
      rw [hs] at h
      cases r with
      | none => exact Kept.refl _ _
      | some r =>
        obtain ⟨name, owner, parent⟩ := r
        dsimp only at h ⊢
        cases hl : w₁.lookupDentry parent name with
        | none =>
          rw [hl] at h
          exact newNode_failed h _
        | some d =>
          rw [hl] at h
          dsimp only at h ⊢
          split
          · exact Kept.refl _ _
          · split <;> exact Kept.refl _ _
  · rw [World.createNode, if_pos habs]
    exact iff_of_true ((Kept.refl _ w).unseen.unchanged hw) fun h => habs h.1

theorem createDir_failed {path : Path} (hw : Sound w) (hf : f < w.nextFs)
    (h : (w.memfsCreateDir f path).1 = none) :
    Unchanged w (w.memfsCreateDir f path).2 ↔
      ¬(path.head? = some slash ∧ LinksParent w f path) := by
  by_cases habs : path.head? = some slash
  · rw [and_iff_right habs]
    refine splitParent_unchanged_iff hw hf ?_
    rw [World.memfsCreateDir, if_neg (not_not.mpr habs)] at h ⊢
    cases hs : w.splitParent f path with
    | mk r w₁ =>
      rw [hs] at h
      cases r with
      | none => exact Kept.refl _ _
      | some r =>
        obtain ⟨name, owner, parent⟩ := r
        dsimp only at h ⊢
        cases hl : w₁.lookupDentry parent name with
        | none =>
          rw [hl] at h
          exact newNode_failed h _
        | some d =>
          rw [hl] at h
          dsimp only at h ⊢
          split
          · exact Kept.refl _ _
          · split <;> exact Kept.refl _ _
  · rw [World.memfsCreateDir, if_pos habs]
    exact iff_of_true ((Kept.refl _ w).unseen.unchanged hw) fun h => habs h.1

theorem link_failed {old new : Path} (hw : Sound w) (hf : f < w.nextFs)
    (h : (w.memfsLink f old new).1 < 0) :
    Unchanged w (w.memfsLink f old new).2 ↔
      ¬((w.lookupPath f old).isSome = true ∧ LinksParent w f new) := by
  cases hold : w.lookupPath f old with
  | none =>
    rw [World.memfsLink, hold]
    exact iff_of_true ((Kept.refl _ w).unseen.unchanged hw) fun h => by cases h.1
  | some i =>
    rw [and_iff_right (by rfl)]
    refine splitParent_unchanged_iff hw hf ?_
    rw [World.memfsLink, hold] at h ⊢
    dsimp only at h ⊢
    cases hs : w.splitParent f new with
    | mk r w₁ =>
      rw [hs] at h
      cases r with
      | none => exact Kept.refl _ _
      | some r =>
        obtain ⟨name, owner, parent⟩ := r
        dsimp only at h ⊢
        cases hl : w₁.lookupDentry parent name with
        | some d => exact Kept.refl _ _
        | none =>
          rw [hl] at h
          have hk := Kept.dentryCreate w.nextInode w₁ i (some name)
          cases hd : w₁.dentryCreate i (some name) with
          | mk r w₂ =>
            rw [hd] at h hk
            cases r with
            | none => exact hk
            | some d => exact absurd (show (0 : Int) < 0 from h) (by decide)

theorem memfsCreate_failed {size : Nat} (h : (w.memfsCreate size).1 = none) :
    Kept w.nextInode w (w.memfsCreate size).2 := by
  rw [World.memfsCreate] at h ⊢
  have hv := Kept.valloc w.nextInode w fsBytes
  cases hc : w.valloc fsBytes with
  | mk ok w₁ =>
    rw [hc] at h hv
    cases ok with
    | false => exact hv
    | true =>
      dsimp only at h ⊢
      have hi := Kept.vallocInode w₁ hv.nextInode
      cases hn : w₁.vallocInode with
      | mk r w₂ =>
        rw [hn] at h hi
        cases r with
        | none => exact hv.trans hi
        | some r =>
          have hr : w.nextInode ≤ r := by
            rw [vallocInode_eq] at hn
            split at hn
            · cases hn
              exact hv.nextInode
            · cases hn
          have hset := Kept.setInode w₂ hr { w₂.inode r with type := .dir }
          have hdup := Kept.dupName w.nextInode
            (w₂.setInode r { w₂.inode r with type := .dir }) (some [slash])
          dsimp only at h ⊢
          cases hd : (w₂.setInode r { w₂.inode r with type := .dir }).dupName (some [slash]) with
          | mk r w₃ =>
            rw [hd] at h hdup
            cases r with
            | none => exact ((hv.trans hi).trans hset).trans hdup
            | some name => cases h

theorem extend_failed {owner i : Nat} {buf : List UInt8} (h : (w.extend owner i buf).1 < 0) (n : Nat) :
    Kept n w (w.extend owner i buf).2 := by
  rw [World.extend] at h ⊢
  have hv := Kept.valloc n w ((w.inode i).size + buf.length)
  cases hc : w.valloc ((w.inode i).size + buf.length) with
  | mk ok w₁ =>
    rw [hc] at h hv
    cases ok with
    | false => exact hv
    | true => exact absurd (show ((buf.length : Nat) : Int) < 0 from h) (by omega)

theorem streamWrite_failed {owner i : Nat} {buf : List UInt8}
    (h : (w.streamWrite owner i buf).1 < 0) (n : Nat) :
    Kept n w (w.streamWrite owner i buf).2 := by
  rw [World.streamWrite] at h ⊢
  split at h
  · exact absurd (show (0 : Int) < 0 from h) (by decide)
  · rename_i hne
    rw [if_neg hne]
    exact extend_failed h n

theorem append_failed {path : Path} {buf : List UInt8} (h : (w.memfsAppend f path buf).1 < 0) :
    Kept w.nextInode w (w.memfsAppend f path buf).2 := by
  rw [World.memfsAppend] at h ⊢
  split
  · exact Kept.refl _ _
  · rename_i owner i hl
    rw [hl] at h
    dsimp only at h
    split
    · exact Kept.refl _ _
    · rename_i hst
      rw [if_neg hst] at h
      split
      · rename_i hstream
        rw [if_pos hstream] at h
        exact streamWrite_failed h _
      · rename_i hstream
        rw [if_neg hstream] at h
        exact extend_failed h _

theorem streamRead_failed {owner i size : Nat} (h : (w.streamRead owner i size).1 = none) (n : Nat) :
    Kept n w (w.streamRead owner i size).2 := by
  rw [World.streamRead] at h ⊢
  split
  · exact Kept.refl _ _
  rename_i hsize
  rw [if_neg hsize] at h
  split
  · exact Kept.refl _ _
  rename_i data hdata
  rw [hdata] at h
  dsimp only at h ⊢
  split
  · exact Kept.refl _ _
  rename_i hempty
  rw [if_neg hempty] at h
  split
  · rename_i hall
    rw [if_pos hall] at h
    cases h
  rename_i hall
  rw [if_neg hall] at h
  have hv := Kept.valloc n w ((w.inode i).size - min size (w.inode i).size)
  cases hc : w.valloc ((w.inode i).size - min size (w.inode i).size) with
  | mk ok w₁ =>
    rw [hc] at h hv
    cases ok with
    | false => exact hv
    | true => cases h

theorem read_failed {path : Path} {size : Nat} (h : (w.memfsRead f path size).1 = none) :
    Kept w.nextInode w (w.memfsRead f path size).2 := by
  rw [World.memfsRead] at h ⊢
  split
  · exact Kept.refl _ _
  · rename_i owner i hl
    rw [hl] at h
    dsimp only at h ⊢
    split
    · split <;> exact Kept.refl _ _
    · rename_i hdev
      rw [if_neg hdev] at h
      split
      · exact Kept.refl _ _
      · rename_i hst
        rw [if_neg hst] at h
        split
        · rename_i hstream
          rw [if_pos hstream] at h
          exact streamRead_failed h _
        · exact Kept.refl _ _

theorem Sound.lookupPathEx (hw : Sound w) (hf : f < w.nextFs) {path : Path} {owner i : Nat}
    (h : w.lookupPathEx f path = some (owner, i)) : i < w.nextInode := by
  by_cases habs : path.head? = some slash
  · rw [lookupPathEx_scan habs] at h
    split at h
    · cases h
    · rename_i s hs
      have hlt := (hw.scan (s := (f, w.root f)) hf (hw.root f hf) hs).2
      rwa [Option.some.inj h] at hlt
  · rw [lookupPathEx_relative habs] at h
    cases h

theorem contents_dropData (w : World) (owner i : Nat) :
    contents ((w.dropData owner i).inode i) = [] := by
  rw [World.dropData]
  cases hd : (w.inode i).data with
  | none =>
    rw [if_neg (by simp)]
    rw [contents, hd]
  | some data =>
    rw [if_pos (by rfl), setInode_inode, if_pos rfl]
    rfl

theorem dropData_unseen {owner i : Nat} (h : contents (w.inode i) = []) :
    Unseen w (w.dropData owner i) := by
  rw [World.dropData]
  split
  · have hk := (Kept.usedSub w.nextInode w owner (w.inode i).size).unseen
    refine ⟨fun j hj => ?_, fun j hj name hname => ?_, hk.root⟩
    · rw [setInode_inode]
      split
      · rename_i hji
        rw [hji, content, content, h]
        rfl
      · exact hk.content j hj
    · rw [← hk.lookup j hj name hname, World.lookupDentry, World.lookupDentry, setInode_inode]
      split
      · rename_i hji
        rw [hji]
        rfl
      · rfl
  · exact (Kept.refl _ w).unseen

theorem overwrite_failed (owner : Nat) {i : Nat} (buf : List UInt8) (hw : Sound w) (hi : i < w.nextInode) :
    Unchanged w ((w.dropData owner i).valloc buf.length).2 ↔ contents (w.inode i) = [] := by
  constructor
  · intro h
    have hcontent := congrArg (fun c => c.2.1) (h.2 i hi)
    exact hcontent.symm.trans (contents_dropData w owner i)
  · intro h
    exact ((dropData_unseen h).kept (Kept.valloc _ _ _)).unchanged hw

theorem write_failed {path : Path} {buf : List UInt8} (hw : Sound w) (hf : f < w.nextFs)
    (h : (w.memfsWrite f path buf).1 < 0) :
    Unchanged w (w.memfsWrite f path buf).2 ↔ ∀ owner i, w.lookupPathEx f path = some (owner, i) →
      (w.inode i).type = .file → contents (w.inode i) = [] := by
  have hrefl : Unchanged w w := (Kept.refl _ w).unseen.unchanged hw
  rw [World.memfsWrite] at h ⊢
  cases hl : w.lookupPathEx f path with
  | none => exact iff_of_true hrefl fun _ _ hsome => by cases hsome
  | some r =>
    obtain ⟨owner, i⟩ := r
    have hi := hw.lookupPathEx hf hl
    have hcond : (∀ owner' i', some (owner, i) = some (owner', i') → (w.inode i').type = .file →
        contents (w.inode i') = []) ↔ ((w.inode i).type = .file → contents (w.inode i) = []) := by
      constructor
      · exact fun h => h owner i rfl
      · rintro h owner' i' hsome
        cases hsome
        exact h
    rw [hcond]
    rw [hl] at h
    dsimp only at h ⊢
    by_cases hdev : (w.inode i).type = .device
    · have hno : ¬(w.inode i).type = .file := by simp [hdev]
      rw [if_pos hdev] at h ⊢
      refine iff_of_true ?_ fun hfile => absurd hfile hno
      split
      · exact hrefl
      · rename_i hflag
        rw [if_neg hflag] at h
        split
        · exact hrefl
        · rename_i old hold
          rw [hold] at h
          exact absurd (show ((min buf.length old.length : Nat) : Int) < 0 from h) (by omega)
    rw [if_neg hdev] at h ⊢
    by_cases hst : ¬isStorageNode (w.inode i).type = true
    · rw [if_pos hst]
      refine iff_of_true hrefl fun hfile => absurd ?_ hst
      rw [hfile]
      rfl
    rw [if_neg hst] at h ⊢
    by_cases hstream : isStreamNode (w.inode i).type = true
    · rw [if_pos hstream] at h ⊢
      refine iff_of_true ((streamWrite_failed h _).unseen.unchanged hw) fun hfile => ?_
      rw [hfile] at hstream
      cases hstream
    rw [if_neg hstream] at h ⊢
    have hfile : (w.inode i).type = .file := by
      cases ht : (w.inode i).type <;> simp_all [isStorageNode, isStreamNode]
    have hiff := overwrite_failed owner buf hw hi
    rw [forall_prop_of_true hfile, ← hiff]
    cases hc : (w.dropData owner i).valloc buf.length with
    | mk ok w₁ =>
      rw [hc] at h
      cases ok with
      | false => rfl
      | true => exact absurd (show ((buf.length : Nat) : Int) < 0 from h) (by omega)

theorem deleteFile_failed {path : Path} (h : (w.memfsDeleteFile f path).1 < 0) :
    (w.memfsDeleteFile f path).2 = w := by
  rw [memfsDeleteFile_eq] at h ⊢
  split
  · rfl
  rename_i hroot
  rw [if_neg hroot] at h
  split
  · rfl
  rename_i d owner parent hl
  rw [hl] at h
  dsimp only at h
  split
  · rfl
  rename_i hm
  rw [if_neg hm] at h
  split
  · rfl
  rename_i hst
  rw [if_neg hst] at h
  exact absurd (show (0 : Int) < 0 from h) (by decide)

theorem deleteDir_failed {path : Path} (h : (w.memfsDeleteDir f path).1 < 0) :
    (w.memfsDeleteDir f path).2 = w := by
  rw [World.memfsDeleteDir] at h ⊢
  split
  · rfl
  rename_i hroot
  rw [if_neg hroot] at h
  split
  · rfl
  rename_i d owner parent hl
  rw [hl] at h
  dsimp only at h ⊢
  split
  · rfl
  rename_i hdir
  rw [if_neg hdir] at h
  split
  · rfl
  rename_i hm
  rw [if_neg hm] at h
  split
  · rfl
  rename_i hself
  rw [if_neg hself] at h
  split
  · rfl
  rename_i hcount
  rw [if_neg hcount] at h
  split at h
  · exact absurd (show (0 : Int) < 0 from h) (by decide)
  · exact absurd (show (0 : Int) < 0 from h) (by decide)

end Calls

section Answers

variable {c : Call} {P : Prop}

theorem failed_node {r : Option Nat × World} (hans : answer w c = (.node r.1, r.2))
    (hspec : r.1 = none → (Unchanged w r.2 ↔ P)) (h : (answer w c).1.failed) :
    Unchanged w (answer w c).2 ↔ P := by
  rw [hans] at h ⊢
  exact hspec h

theorem failed_code {r : Int × World} (hans : answer w c = (.code r.1, r.2))
    (hspec : r.1 < 0 → (Unchanged w r.2 ↔ P)) (h : (answer w c).1.failed) :
    Unchanged w (answer w c).2 ↔ P := by
  rw [hans] at h ⊢
  exact hspec h

theorem failed_bytes {r : Option (List UInt8) × World} (hans : answer w c = (.bytes r.1, r.2))
    (hspec : r.1 = none → (Unchanged w r.2 ↔ P)) (h : (answer w c).1.failed) :
    Unchanged w (answer w c).2 ↔ P := by
  rw [hans] at h ⊢
  exact hspec h

end Answers

theorem createDevice_failed {path : Path} {buffer : List UInt8} {flags : Nat} (hw : Sound w)
    (hf : f < w.nextFs) (h : (w.memfsCreateDeviceBuffer f path buffer flags).1 = none) :
    Unchanged w (w.memfsCreateDeviceBuffer f path buffer flags).2 ↔
      ¬(buffer.length ≠ 0 ∧ path.head? = some slash ∧ LinksParent w f path) := by
  rw [World.memfsCreateDeviceBuffer] at h ⊢
  by_cases hbuf : buffer.length = 0
  · rw [if_pos hbuf]
    exact iff_of_true ((Kept.refl _ w).unseen.unchanged hw) fun hno => hno.1 hbuf
  · rw [if_neg hbuf] at h ⊢
    rw [and_iff_right hbuf]
    exact createNode_failed hw hf h

theorem failed_call_unchanged_iff (w : World) (c : Call) (hw : Sound w) (hc : c.Valid w)
    (h : (answer w c).1.failed) : Unchanged w (answer w c).2 ↔ Traceless w c := by
  have hkept : ∀ w', Kept w.nextInode w w' → (Unchanged w w' ↔ True) := fun w' hk =>
    iff_true_intro (hk.unseen.unchanged hw)
  have hsame : ∀ w', w' = w → (Unchanged w w' ↔ True) := fun w' heq =>
    hkept w' (by rw [heq]; exact Kept.refl _ w)
  cases c with
  | createFs size => exact failed_node (by rw [answer]) (fun h => hkept _ (memfsCreate_failed h)) h
  | createDir f path => exact failed_node (by rw [answer]) (createDir_failed hw (hc f rfl)) h
  | createFile f path =>
    exact failed_node (r := w.memfsCreateFile f path) (by rw [answer])
      (createNode_failed hw (hc f rfl)) h
  | createFifo f path =>
    exact failed_node (r := w.memfsCreateFifo f path) (by rw [answer])
      (createNode_failed hw (hc f rfl)) h
  | createSocket f path =>
    exact failed_node (r := w.memfsCreateSocket f path) (by rw [answer])
      (createNode_failed hw (hc f rfl)) h
  | createDevice f path buffer flags =>
    exact failed_node (by rw [answer]) (createDevice_failed hw (hc f rfl)) h
  | write f path buf => exact failed_code (by rw [answer]) (write_failed hw (hc f rfl)) h
  | append f path buf => exact failed_code (by rw [answer]) (fun h => hkept _ (append_failed h)) h
  | read f path size => exact failed_bytes (by rw [answer]) (fun h => hkept _ (read_failed h)) h
  | link f old new => exact failed_code (by rw [answer]) (link_failed hw (hc f rfl)) h
  | deleteFile f path =>
    exact failed_code (by rw [answer]) (fun h => hsame _ (deleteFile_failed h)) h
  | deleteDir f path =>
    exact failed_code (by rw [answer]) (fun h => hsame _ (deleteDir_failed h)) h

section Examples

def refusing (n : Nat) : World := (answer (untouched (fun k => decide (k ≠ n)) []) (.createFs 0)).2

theorem refusing_reachable (n : Nat) : Reachable (refusing n) :=
  .call _ _ (.start _ _) (by rintro f ⟨⟩)

def fileA : Path := [47, 97]

def fileAB : Path := [47, 97, 47, 98]

theorem failed_call_unchanged_no_node :
    (answer (refusing 3) (.createFile 0 fileA)).1.failed ∧
      Unchanged (refusing 3) (answer (refusing 3) (.createFile 0 fileA)).2 := by
  have hfail : (answer (refusing 3) (.createFile 0 fileA)).1.failed := by decide
  refine ⟨hfail, (failed_call_unchanged_iff (refusing 3) (.createFile 0 fileA)
    (refusing_reachable 3).intact.sound (by decide) hfail).mpr ?_⟩
  rintro ⟨-, dir, name, s, missing, hsplit, hfirst, -⟩
  cases hsplit
  cases hfirst

def written : World :=
  (answer (answer (refusing 100) (.createFile 0 fileA)).2 (.write 0 fileA [1, 2, 3])).2

theorem written_reachable : Reachable written :=
  .call _ _ (.call _ _ (refusing_reachable 100) (by decide)) (by decide)

-- an empty write loses the file's content; a refused file leaves its new parent directory
theorem failed_calls_leave_traces :
    (Reachable written ∧ (answer written (.write 0 fileA [])).1.failed ∧
        ¬Unchanged written (answer written (.write 0 fileA [])).2) ∧
      (Reachable (refusing 7) ∧ (answer (refusing 7) (.createFile 0 fileAB)).1.failed ∧
        ¬Unchanged (refusing 7) (answer (refusing 7) (.createFile 0 fileAB)).2) := by
  refine ⟨⟨written_reachable, by decide, fun h => ?_⟩, ⟨refusing_reachable 7, by decide, fun h => ?_⟩⟩
  · exact absurd (h.2 1 (by decide)) (by decide)
  · exact absurd (h.1 0 (by decide) fileA) (by decide)

end Examples

end HouseOS.Memfs
