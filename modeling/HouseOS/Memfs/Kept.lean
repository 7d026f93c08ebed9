import HouseOS.Memfs.Calls

namespace HouseOS.Memfs

open HouseOS.Components
open HouseOS.Loop (Step)
open HouseOS.Vfs (Path slash NodeType)
open World

variable {w w' : World} {n f g : Nat}

structure Kept (n : Nat) (w w' : World) : Prop where
  inode : ∀ j < n, w'.inode j = w.inode j
  root : ∀ g, w'.root g = w.root g
  nextInode : w.nextInode ≤ w'.nextInode
  nextFs : w.nextFs ≤ w'.nextFs
  atNull : w'.atNull = w.atNull

namespace Kept

theorem refl (n : Nat) (w : World) : Kept n w w :=
  ⟨fun _ _ => rfl, fun _ => rfl, Nat.le_refl _, Nat.le_refl _, rfl⟩

theorem trans {w'' : World} (h : Kept n w w') (g : Kept n w' w'') : Kept n w w'' where
  inode j hj := (g.inode j hj).trans (h.inode j hj)
  root k := (g.root k).trans (h.root k)
  nextInode := Nat.le_trans h.nextInode g.nextInode
  nextFs := Nat.le_trans h.nextFs g.nextFs
  atNull := g.atNull.trans h.atNull

theorem allocs (n : Nat) (w : World) (k : Nat) : Kept n w { w with allocs := k } :=
  ⟨fun _ _ => rfl, fun _ => rfl, Nat.le_refl _, Nat.le_refl _, rfl⟩

theorem valloc (n : Nat) (w : World) (size : Nat) : Kept n w (w.valloc size).2 := allocs n w _

theorem setInode (w : World) {i : Nat} (hi : n ≤ i) (m : Inode) : Kept n w (w.setInode i m) where
  inode j hj := by rw [setInode_inode, if_neg (by omega)]
  root _ := rfl
  nextInode := Nat.le_refl _
  nextFs := Nat.le_refl _
  atNull := rfl

theorem setMemfs (n : Nat) (w : World) (g : Nat) {m : Fs} (h : m.root = w.root g) :
    Kept n w (w.setMemfs g m) where
  inode _ _ := rfl
  root k := by
    simp only [World.root, World.setMemfs] at h ⊢
    split
    · rename_i hk
      rw [h, hk]
    · rfl
  nextInode := Nat.le_refl _
  nextFs := Nat.le_refl _
  atNull := rfl

theorem vallocInode (w : World) (hn : n ≤ w.nextInode) : Kept n w w.vallocInode.2 := by
  rw [World.vallocInode]
  cases hv : w.valloc inodeBytes with
  | mk ok w₁ =>
    have hk : Kept n w w₁ := by
      have := valloc n w inodeBytes
      rwa [hv] at this
    have hnext : w₁.nextInode = w.nextInode := by
      have := congrArg (fun r => r.2.nextInode) hv
      exact this.symm
    cases ok with
    | false => exact hk
    | true =>
      refine hk.trans ⟨fun j hj => ?_, fun _ => rfl, Nat.le_succ _, Nat.le_refl _, rfl⟩
      dsimp only
      rw [if_neg (by omega)]

theorem dupName (n : Nat) (w : World) (s : Option Path) : Kept n w (w.dupName s).2 := by
  have hv := valloc n w 256
  rw [World.dupName]
  cases hc : w.valloc 256 with
  | mk ok w₁ =>
    rw [hc] at hv
    cases ok <;> exact hv

theorem dentryCreate (n : Nat) (w : World) (child : Nat) (name : Option Path) :
    Kept n w (w.dentryCreate child name).2 := by
  have hv := valloc n w dentryBytes
  rw [World.dentryCreate]
  cases hc : w.valloc dentryBytes with
  | mk ok w₁ =>
    rw [hc] at hv
    cases ok with
    | false => exact hv
    | true => exact hv.trans (dupName n w₁ name)

theorem addEntry (w : World) {dir : Nat} (hdir : n ≤ dir) (d : Dentry) :
    Kept n w (w.addEntry dir d) := setInode w hdir _

theorem addLink (w : World) {i : Nat} (hi : n ≤ i) : Kept n w (w.addLink i) := setInode w hi _

theorem countInode (n : Nat) (w : World) (g : Nat) : Kept n w (w.countInode g) :=
  setMemfs n w g rfl

theorem usedSub (n : Nat) (w : World) (g k : Nat) : Kept n w (w.usedSub g k) :=
  setMemfs n w g rfl

theorem dirAdd (w : World) {dir child : Nat} (hdir : n ≤ dir) (hchild : n ≤ child) :
    Kept n w (w.dirAdd dir child) := by
  rw [World.dirAdd]
  split
  · exact refl n w
  · have hd := dentryCreate n w child (w.inode child).name
    cases hc : w.dentryCreate child (w.inode child).name with
    | mk r w₁ =>
      rw [hc] at hd
      cases r with
      | none => exact hd
      | some d => exact (hd.trans (addEntry w₁ hdir d)).trans (addLink _ hchild)

end Kept

def IsName (name : Path) : Prop := name ≠ [] ∧ slash ∉ name

instance (name : Path) : Decidable (IsName name) := inferInstanceAs (Decidable (_ ∧ _))

def content (n : Inode) : NodeType × List UInt8 × Option (List UInt8) :=
  (n.type, World.contents n, n.buffer)

def Unchanged (w w' : World) : Prop :=
  (∀ g < w.nextFs, ∀ path, w'.lookupPathEx g path = w.lookupPathEx g path) ∧
    ∀ i < w.nextInode, content (w'.inode i) = content (w.inode i)

-- every entry and every root is a node, and every mounted file system exists
structure Sound (w : World) : Prop where
  entry : ∀ j, ∀ d ∈ (w.inode j).entries, d.inode < w.nextInode ∧ ∀ m, d.mountedFs = some m → m < w.nextFs
  root : ∀ g < w.nextFs, w.root g < w.nextInode

theorem Intact.sound (h : Intact w) : Sound w where
  entry j d hd := ⟨(h.entry j d hd).1, fun m hm => by rw [(h.entry j d hd).2] at hm; cases hm⟩
  root := h.root

structure Unseen (w w' : World) : Prop where
  content : ∀ j < w.nextInode, content (w'.inode j) = content (w.inode j)
  lookup : ∀ j < w.nextInode, ∀ name, IsName name → w'.lookupDentry j name = w.lookupDentry j name
  root : ∀ g, w'.root g = w.root g

theorem Kept.lookupDentry (h : Kept n w w') {j : Nat} (hj : j < n) (name : Path) :
    w'.lookupDentry j name = w.lookupDentry j name := by
  have htext : w'.text = w.text := by
    funext s
    rw [World.text, World.text, h.atNull]
  rw [World.lookupDentry, World.lookupDentry, h.inode j hj, htext]

theorem Kept.unseen (h : Kept w.nextInode w w') : Unseen w w' where
  content j hj := by rw [h.inode j hj]
  lookup j hj name _ := h.lookupDentry hj name
  root := h.root

theorem Unseen.kept {w'' : World} (h : Unseen w w') (g : Kept w.nextInode w' w'') : Unseen w w'' where
  content j hj := by rw [g.inode j hj, h.content j hj]
  lookup j hj name hname := (g.lookupDentry hj name).trans (h.lookup j hj name hname)
  root k := (g.root k).trans (h.root k)

section Paths

theorem component_isName {path name : Path} (h : name ∈ components slash path) : IsName name :=
  ⟨(mem_components slash h).1, (mem_components slash h).2.1⟩

theorem lookupPathEx_scan {path : Path} (habs : path.head? = some slash) :
    w.lookupPathEx f path =
      match scanLast w.lookupStep (components slash path) (f, w.root f) with
      | .ret _ => none
      | .go s => some s := by
  have hlen : (skip slash path).length ≤ path.length := (List.dropWhile_sublist _).length_le
  by_cases hroot : path = [slash]
  · subst hroot
    rw [World.lookupPathEx, if_pos rfl, components_cons_sep, components_nil]
    rfl
  · have hloop : w.lookupPathEx f path =
        match pathLoop slash w.lookupStep path.length (skip slash path) (f, w.root f) with
        | .ret _ => none
        | .go s => some s := (if_neg hroot).trans (if_neg (by simp [habs]))
    rw [hloop, pathLoop_eq_scanLast slash _ _ _ _ hlen (skip_head slash path), skip, components_skip]

theorem lookupPathEx_relative {path : Path} (h : path.head? ≠ some slash) :
    w.lookupPathEx f path = none := by
  rw [World.lookupPathEx, if_neg (by rintro rfl; exact h rfl), if_pos h]

theorem Sound.enter (h : Sound w) {cur : Nat} {name : Path} {d : Dentry} (hg : g < w.nextFs)
    (hl : w.lookupDentry cur name = some d) :
    (w.enter g d).1 < w.nextFs ∧ (w.enter g d).2 < w.nextInode := by
  rw [World.lookupDentry] at hl
  split at hl
  · cases hl
  · obtain ⟨hi, hm⟩ := h.entry cur d (List.mem_of_find?_eq_some hl)
    rw [World.enter]
    split
    · rename_i m hmount
      exact ⟨hm m hmount, h.root m (hm m hmount)⟩
    · exact ⟨hg, hi⟩

theorem lookupStep_go {s s' : Nat × Nat} {name : Path} {last : Bool}
    (h : w.lookupStep s name last = .go s') :
    ∃ d, w.lookupDentry s.2 name = some d ∧ s' = w.enter s.1 d := by
  rw [World.lookupStep] at h
  split at h
  · cases h
  · split at h
    · cases h
    · rename_i d hd
      cases h
      exact ⟨d, hd, rfl⟩

theorem lookupStep_some {s : Nat × Nat} {name : Path} {d : Dentry} (last : Bool)
    (h : w.lookupDentry s.2 name = some d) : w.lookupStep s name last = .go (w.enter s.1 d) := by
  have hdir : (w.inode s.2).type = .dir := by
    rw [World.lookupDentry] at h
    split at h
    · cases h
    · rename_i hdir
      exact not_not.mp hdir
  rw [World.lookupStep, if_neg (not_not.mpr hdir), h]

theorem Unseen.lookupStep (h : Unseen w w') {s : Nat × Nat} (hs : s.2 < w.nextInode) {name : Path}
    (hname : IsName name) (last : Bool) : w'.lookupStep s name last = w.lookupStep s name last := by
  have htype : (w'.inode s.2).type = (w.inode s.2).type := congrArg Prod.fst (h.content s.2 hs)
  have henter : ∀ d, w'.enter s.1 d = w.enter s.1 d := by
    intro d
    simp only [World.enter, h.root]
  simp only [World.lookupStep, htype, h.lookup s.2 hs name hname, henter]

theorem Unseen.scan (hw : Sound w) (h : Unseen w w') (names : List Path)
    (hnames : ∀ name ∈ names, IsName name) (s : Nat × Nat)
    (hg : s.1 < w.nextFs) (hi : s.2 < w.nextInode) :
    scanLast w'.lookupStep names s = scanLast w.lookupStep names s := by
  induction names generalizing s with
  | nil => rfl
  | cons name names ih =>
    have hstep := h.lookupStep hi (hnames name (List.mem_cons_self ..)) names.isEmpty
    simp only [scanLast, hstep]
    cases hgo : w.lookupStep s name names.isEmpty with
    | ret r => rfl
    | go s' =>
      obtain ⟨d, hd, rfl⟩ := lookupStep_go hgo
      obtain ⟨hg', hi'⟩ := hw.enter hg hd
      exact ih (fun n hn => hnames n (List.mem_cons_of_mem _ hn)) _ hg' hi'

theorem Unseen.unchanged (hw : Sound w) (h : Unseen w w') : Unchanged w w' := by
  refine ⟨fun g hg path => ?_, h.content⟩
  by_cases habs : path.head? = some slash
  · rw [lookupPathEx_scan habs, lookupPathEx_scan habs, h.root,
      h.scan hw _ (fun _ hn => component_isName hn) _ hg (hw.root g hg)]
  · rw [lookupPathEx_relative habs, lookupPathEx_relative habs]

theorem scan_append (w : World) (names more : List Path) (s : Nat × Nat) :
    scanLast w.lookupStep (names ++ more) s =
      match scanLast w.lookupStep names s with
      | .ret r => .ret r
      | .go s' => scanLast w.lookupStep more s' := by
  induction names generalizing s with
  | nil => rfl
  | cons name names ih =>
    have hlast : w.lookupStep s name (names ++ more).isEmpty =
        w.lookupStep s name names.isEmpty := rfl
    simp only [List.cons_append, scanLast, hlast]
    cases w.lookupStep s name names.isEmpty with
    | ret r => rfl
    | go s' => exact ih s'

theorem Sound.scan (hw : Sound w) {names : List Path} {s s' : Nat × Nat} (hg : s.1 < w.nextFs)
    (hi : s.2 < w.nextInode) (h : scanLast w.lookupStep names s = .go s') :
    s'.1 < w.nextFs ∧ s'.2 < w.nextInode := by
  induction names generalizing s with
  | nil =>
    cases h
    exact ⟨hg, hi⟩
  | cons name names ih =>
    rw [scanLast] at h
    cases hgo : w.lookupStep s name names.isEmpty with
    | ret r =>
      rw [hgo] at h
      cases h
    | go t =>
      rw [hgo] at h
      obtain ⟨d, hd, rfl⟩ := lookupStep_go hgo
      obtain ⟨hg', hi'⟩ := hw.enter hg hd
      exact ih hg' hi' h

def spell (names : List Path) : Path := slash :: names.flatMap (fun name => name ++ [slash])

theorem components_spell {names : List Path} (h : ∀ name ∈ names, IsName name) :
    components slash (spell names) = names := by
  rw [spell, components_cons_sep]
  induction names with
  | nil => exact components_nil slash
  | cons name names ih =>
    obtain ⟨hne, hslash⟩ := h name (List.mem_cons_self ..)
    rw [List.flatMap_cons, List.append_assoc, List.singleton_append, components_append_cons,
      ih fun n hn => h n (List.mem_cons_of_mem _ hn),
      components_of_forall_ne slash (fun x hx heq => hslash (heq ▸ hx)) hne, List.singleton_append]

theorem lookupPathEx_spell {names : List Path} (h : ∀ name ∈ names, IsName name) :
    w.lookupPathEx f (spell names) =
      match scanLast w.lookupStep names (f, w.root f) with
      | .ret _ => none
      | .go s => some s := by
  rw [lookupPathEx_scan rfl, components_spell h]

end Paths

end HouseOS.Memfs
