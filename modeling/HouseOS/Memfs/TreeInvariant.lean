import HouseOS.Library.Run
import HouseOS.Memfs.MakePath

namespace HouseOS.Memfs

open Relation
open HouseOS.Graph
open HouseOS.Components
open HouseOS.Vfs (Path slash NodeType pathCap)
open World

variable {w w' : World} {f : Nat}

structure WellFormed (w : World) (f : Nat) : Prop where
  named : ∀ i, w.IsDir i → ∀ d ∈ w.entries i, ∃ name, d.name = some name ∧ name ≠ [] ∧ slash ∉ name
  distinct : ∀ i, w.IsDir i → ((w.entries i).map (fun d => d.name)).Nodup
  count : ∀ i, w.IsDir i → (w.inode i).entryCount = (w.entries i).length
  links : ∀ i, w.live i → (w.inode i).linkCount = w.refs i + if i = w.root f then 1 else 0
  acyclic : Acyclic w.Edge
  found : ∀ names j, names ≠ [] → Chain w (w.root f) names j →
    w.lookupPath f (pathOf names) = some j
  reached : ∀ i, w.live i → ∃ names, Chain w (w.root f) names i

theorem Tree.wellFormed (h : Tree w f) : WellFormed w f where
  named i _ d hd := by
    obtain ⟨name, hname, hok⟩ := (h.entry i d hd).named
    exact ⟨name, hname, hok.nonempty, hok.noSlash⟩
  distinct i _ := h.distinct i
  count i _ := h.count i
  links := h.links
  acyclic := h.acyclic
  found _ _ hne hc := h.lookup_pathOf hne hc
  reached _ hi := h.reached hi

def NamesLeaf (w : World) (f : Nat) (path : Path) : Prop :=
  path.getLast? = some slash → blocked w (w.root f) (components slash path) = true

def NoLoop (w : World) (f old : Nat) (path : Path) : Prop :=
  ∀ dir name, splitLast slash path = some (dir, name) → (w.inode old).type = .dir →
    w.Reaches old (walkStop w (w.root f) (components slash dir)) →
    blocked w (w.root f) (components slash dir) = true ∨
      ∃ p, walk w (w.root f) (components slash dir) = some p ∧ (w.lookupDentry p name).isSome

def KeepsTree (f : Nat) (w : World) : Event → Prop
  | .createDir p => NamesLeaf w f p.chars
  | .createFile p => NamesLeaf w f p.chars
  | .createFifo p => NamesLeaf w f p.chars
  | .createSocket p => NamesLeaf w f p.chars
  | .createDevice p _ _ => NamesLeaf w f p.chars
  | .link old new => ∀ i, w.lookupPath f old.chars = some i →
      NamesLeaf w f new.chars ∧ NoLoop w f i new.chars
  | .write _ _ => True
  | .append _ _ => True
  | .deleteFile _ => True
  | .deleteDir _ => True

section Create

theorem LocalPath.splits (p : LocalPath) : ∃ dir name, splitLast slash p.chars = some (dir, name) := by
  cases h : splitLast slash p.chars with
  | some r => exact ⟨r.1, r.2, rfl⟩
  | none =>
    exact absurd (List.mem_of_mem_head? p.absolute) ((splitLast_none slash).mp h)

theorem parent_spec (h : Tree w f) (p : LocalPath) (hleaf : NamesLeaf w f p.chars) :
    w.splitParent f p.chars = (none, w) ∨
      ∃ dir name w' parent, splitLast slash p.chars = some (dir, name) ∧ NameOk name ∧
        blocked w (w.root f) (components slash dir) = false ∧
        w.splitParent f p.chars = (some (name, f, parent), w') ∧
        Made w w' f (w.root f) parent (components slash dir) := by
  obtain ⟨dir, name, hsplit⟩ := p.splits
  obtain ⟨heq, hslash⟩ := splitLast_some slash hsplit
  obtain ⟨hblock, hfree⟩ := splitParent_spec h p.short hsplit
  cases hb : blocked w (w.root f) (components slash dir) with
  | true => exact Or.inl (hblock hb)
  | false =>
    obtain ⟨w', parent, hs, m⟩ := hfree hb
    refine Or.inr ⟨dir, name, w', parent, hsplit, ⟨?_, hslash, ?_⟩, hb, hs, m⟩
    · rintro rfl
      have hcomp : components slash p.chars = components slash dir := by
        rw [heq, components_append_cons, components_nil, List.append_nil]
      have hlast : p.chars.getLast? = some slash := by
        rw [heq]
        simp
      rw [← hcomp, hleaf hlast] at hb
      cases hb
    · have hlen := congrArg List.length heq
      rw [List.length_append, List.length_cons] at hlen
      have := p.short
      omega

theorem tree_newNode (h : Tree w f) {parent : Nat} {name : Path} {fill : Inode → Inode}
    (hp : w.IsDir parent) (hname : NameOk name) (hl : w.lookupDentry parent name = none)
    (hf : Fills fill) : Tree (w.newNode f parent name fill).2 f := by
  refine h.grow (newNode_grown h hp hname.short hf) hp hname (h.lookupDentry_none hp hl) le_rfl
    (fun hlt => absurd hlt (lt_irrefl _)) ?_
  intro hr
  have heq := h.leaf_reaches (h.entries_fresh le_rfl) hr
  have := h.below parent hp.1
  omega

theorem tree_createDir (h : Tree w f) (p : LocalPath) (hleaf : NamesLeaf w f p.chars) :
    Tree (w.memfsCreateDir f p.chars).2 f := by
  simp only [World.memfsCreateDir, p.absolute, ne_eq, not_true_eq_false, if_false]
  rcases parent_spec h p hleaf with hs | ⟨_, name, w₁, parent, _, hname, _, hs, m⟩
  · rw [hs]
    exact h
  · rw [hs]
    simp only
    cases hl : w₁.lookupDentry parent name with
    | some existing =>
      simp only
      split
      · exact m.tree
      · split <;> exact m.tree
    | none =>
      exact tree_newNode m.tree m.isDir hname hl
        ⟨fun _ => rfl, fun _ => rfl, fun _ => rfl, fun _ => rfl⟩

theorem tree_createNode (h : Tree w f) (p : LocalPath) (hleaf : NamesLeaf w f p.chars)
    (type : NodeType) {fill : Inode → Inode} (hf : Fills fill) :
    Tree (w.createNode f p.chars type fill).2 f := by
  simp only [World.createNode, p.absolute, ne_eq, not_true_eq_false, if_false]
  rcases parent_spec h p hleaf with hs | ⟨_, name, w₁, parent, _, hname, _, hs, m⟩
  · rw [hs]
    exact h
  · rw [hs]
    simp only
    cases hl : w₁.lookupDentry parent name with
    | some existing =>
      simp only
      split
      · exact m.tree
      · split <;> exact m.tree
    | none =>
      refine tree_newNode m.tree m.isDir hname hl ⟨?_, ?_, ?_, ?_⟩
      · exact fun n => hf.name _
      · exact fun n => hf.links _
      · exact fun n => hf.entries _
      · exact fun n => hf.count _

theorem tree_createDevice (h : Tree w f) (p : LocalPath) (hleaf : NamesLeaf w f p.chars)
    (buffer : List UInt8) (flags : Nat) :
    Tree (w.memfsCreateDeviceBuffer f p.chars buffer flags).2 f := by
  simp only [World.memfsCreateDeviceBuffer]
  split
  · exact h
  · exact tree_createNode h p hleaf .device ⟨fun _ => rfl, fun _ => rfl, fun _ => rfl, fun _ => rfl⟩

end Create

section Link

theorem Tree.lookup_live (h : Tree w f) (names : List Path) :
    ∀ cur, w.live cur → ∀ i, walk w cur names = some i → w.live i := by
  induction names with
  | nil =>
    intro cur hcur i hi
    cases hi
    exact hcur
  | cons name names ih =>
    intro cur hcur i hi
    cases hl : w.lookupDentry cur name with
    | none => simp [walk, hl] at hi
    | some d =>
      simp only [walk, hl] at hi
      exact ih d.inode (h.entry cur d (h.lookupDentry_some hl).1).live i hi

theorem Tree.stop_isDir (h : Tree w f) (names : List Path) :
    ∀ cur, w.IsDir cur → blocked w cur names = false → w.IsDir (walkStop w cur names) := by
  induction names with
  | nil => exact fun cur hcur _ => hcur
  | cons name names ih =>
    intro cur hcur hb
    cases hl : w.lookupDentry cur name with
    | none => simpa [walkStop, hl] using hcur
    | some d =>
      simp only [blocked, hl, Bool.or_eq_false_iff, decide_eq_false_iff_not, not_not] at hb
      simp only [walkStop, hl]
      exact ih d.inode ⟨(h.entry cur d (h.lookupDentry_some hl).1).live, hb.1⟩ hb.2

theorem tree_link (h : Tree w f) (old new : LocalPath)
    (hg : ∀ i, w.lookupPath f old.chars = some i →
      NamesLeaf w f new.chars ∧ NoLoop w f i new.chars) :
    Tree (w.memfsLink f old.chars new.chars).2 f := by
  simp only [World.memfsLink]
  cases hold : w.lookupPath f old.chars with
  | none => exact h
  | some i =>
    obtain ⟨hleaf, hloop⟩ := hg i hold
    have hi : w.live i := by
      rw [h.lookupPath_eq old.absolute] at hold
      exact h.lookup_live _ _ h.root.1 i hold
    simp only
    rcases parent_spec h new hleaf with hs | ⟨dir, name, w₁, parent, hsplit, hname, hfree, hs, m⟩
    · rw [hs]
      exact h
    rw [hs]
    simp only
    cases hl : w₁.lookupDentry parent name with
    | some _ => exact m.tree
    | none =>
      simp only [dentryCreate_granted m.tree.granted hname.short]
      have hi₁ := m.live i hi
      have hlt := m.tree.below i hi₁
      have g := insert_grown parent name
        ((prepared_live hi₁ hlt).alike (alike_allocs w₁ f (w₁.allocs + 1 + 1)))
      refine m.tree.grow g m.isDir hname (m.tree.lookupDentry_none m.isDir hl) (by omega)
        (fun _ => hi₁) ?_
      intro hr
      have hback := m.reach i hi hr
      by_cases htype : (w.inode i).type = .dir
      · rcases hloop dir name hsplit htype hback with hb | ⟨p, hp, htaken⟩
        · rw [hfree] at hb
          cases hb
        · obtain ⟨rfl, rfl⟩ := m.same p hp
          rw [hl] at htaken
          cases htaken
      · have hnil : w.entries i = [] := by
          by_contra hne
          exact htype (h.idle i hne).2
        have hstop := h.stop_isDir _ _ h.root hfree
        rw [h.leaf_reaches hnil hback] at hstop
        exact htype hstop.2

end Link

theorem tree_step (h : Tree w f) (e : Event) (hg : KeepsTree f w e) (hs : step f w e = some w') :
    Tree w' f := by
  cases e with
  | createDir p =>
    cases hs
    exact tree_createDir h p hg
  | createFile p =>
    cases hs
    exact tree_createNode h p hg .file ⟨fun _ => rfl, fun _ => rfl, fun _ => rfl, fun _ => rfl⟩
  | createFifo p =>
    cases hs
    exact tree_createNode h p hg .fifo ⟨fun _ => rfl, fun _ => rfl, fun _ => rfl, fun _ => rfl⟩
  | createSocket p =>
    cases hs
    exact tree_createNode h p hg .socket ⟨fun _ => rfl, fun _ => rfl, fun _ => rfl, fun _ => rfl⟩
  | createDevice p buffer flags =>
    cases hs
    exact tree_createDevice h p hg buffer flags
  | write p buf =>
    cases hs
    exact h.alike (alike_write w f f p.chars buf)
  | append p buf =>
    cases hs
    exact h.alike (alike_append w f f p.chars buf)
  | link old new =>
    cases hs
    exact tree_link h old new hg
  | deleteFile p =>
    cases hs
    exact tree_deleteFile h p.chars
  | deleteDir p =>
    cases hs
    exact tree_deleteDir h p.chars

def blankWorld (atNull : Path) : World :=
  { inode := fun _ => zeroInode, live := fun _ => false,
    memfs := fun _ => { root := 0, totalMemory := 0, usedMemory := 0, inodeCount := 0 },
    nextInode := 0, nextFs := 0, grant := fun _ => true, allocs := 0, atNull := atNull }

def rootNode : Inode :=
  { zeroInode with type := .dir, name := some [slash], linkCount := 1 }

structure OnlyRoot (w : World) (f : Nat) : Prop where
  grant : ∀ n, w.grant n = true
  root : w.root f = 0
  next : w.nextInode = 1
  live : ∀ i, w.live i = true ↔ i = 0
  node : w.inode 0 = rootNode
  rest : ∀ i, i ≠ 0 → w.inode i = zeroInode

theorem memfsCreate_onlyRoot {atNull : Path} {size f : Nat}
    (hc : (blankWorld atNull).memfsCreate size = (some f, w)) : OnlyRoot w f := by
  cases hc
  refine ⟨fun _ => rfl, rfl, rfl, ?_, rfl, ?_⟩
  · intro i
    show (if i = 0 then true else false) = true ↔ i = 0
    simp
  · intro i hi
    show (if i = 0 then _ else if i = 0 then _ else if i = 0 then _ else zeroInode) = zeroInode
    rw [if_neg hi, if_neg hi, if_neg hi]

theorem OnlyRoot.entries (o : OnlyRoot w f) (i : Nat) : w.entries i = [] := by
  by_cases hi : i = 0
  · rw [hi, World.entries, o.node]
    rfl
  · rw [World.entries, o.rest i hi]
    rfl

theorem OnlyRoot.tree (o : OnlyRoot w f) : Tree w f where
  granted := o.grant
  root := by
    rw [o.root]
    exact ⟨(o.live 0).mpr rfl, by rw [o.node]; rfl⟩
  below i hi := by
    rw [o.next, (o.live i).mp hi]
    decide
  blank i hi := by
    have hne : i ≠ 0 := by
      rw [o.next] at hi
      omega
    rw [o.rest i hne]
    exact ⟨rfl, rfl⟩
  idle i hi := absurd (o.entries i) hi
  entry i d hd := by
    rw [o.entries] at hd
    cases hd
  distinct i := by
    rw [o.entries]
    exact List.nodup_nil
  count i := by
    rw [o.entries]
    by_cases hi : i = 0
    · rw [hi, o.node]
      rfl
    · rw [o.rest i hi]
      rfl
  links i hi := by
    have hzero : w.refs i = 0 := by
      refine Finset.sum_eq_zero ?_
      intro j _
      rw [o.entries]
      split <;> rfl
    rw [hzero, o.root, (o.live i).mp hi, o.node]
    rfl
  linked i hi := by
    rw [(o.live i).mp hi, o.node]
    decide
  acyclic a ha := by
    obtain ⟨b, ⟨_, d, hd, _⟩, _⟩ := TransGen.head'_iff.mp ha
    rw [o.entries] at hd
    cases hd

theorem memfs_tree_invariant (atNull : Path) (size : Nat) {f : Nat} {w₀ : World}
    (hc : (blankWorld atNull).memfsCreate size = (some f, w₀)) (es : List Event)
    (hg : Run.Along (step f) (KeepsTree f) w₀ es) (hrun : Run.run (step f) w₀ es = some w) :
    WellFormed w f := by
  have htree : Tree w f :=
    Run.run_invariant (fun _ e _ h hok hs => tree_step h e hok hs) es w₀ w (memfsCreate_onlyRoot hc).tree
      hg hrun
  exact htree.wellFormed

private def pathA : LocalPath := ⟨[47, 97], rfl, by decide⟩

private def pathAB : LocalPath := ⟨[47, 97, 47, 98], rfl, by decide⟩

private def pathC : LocalPath := ⟨[47, 99], rfl, by decide⟩

private def pathRoot : LocalPath := ⟨[47], rfl, by decide⟩

private def linkDelete : List Event := [.createFile pathAB, .link pathAB pathC, .deleteFile pathAB]

private def freshMemfs : World := ((blankWorld []).memfsCreate 4096).2

private theorem keeps_linkDelete : Run.Along (step 0) (KeepsTree 0) freshMemfs linkDelete := by
  refine ⟨?_, ?_⟩
  · intro hlast
    cases hlast
  rintro _ ⟨⟩
  refine ⟨?_, ?_⟩
  · rintro i ⟨⟩
    refine ⟨?_, ?_⟩
    · intro hlast
      cases hlast
    · rintro dir name ⟨⟩ htype
      cases htype
  · rintro _ ⟨⟩
    exact ⟨trivial, fun _ _ => trivial⟩

theorem memfs_tree_invariant_link_delete :
    ∃ w, Run.run (step 0) freshMemfs linkDelete = some w ∧ WellFormed w 0 :=
  ⟨_, rfl, memfs_tree_invariant [] 4096 rfl linkDelete keeps_linkDelete rfl⟩

theorem memfs_tree_broken :
    (blankWorld []).memfsCreate 4096 = (some 0, freshMemfs) ∧
    (∃ w, Run.run (step 0) freshMemfs [.createFile pathRoot] = some w ∧ ¬ WellFormed w 0) ∧
    ∃ w, Run.run (step 0) freshMemfs [.createDir pathA, .link pathA pathAB] = some w ∧
      ¬ WellFormed w 0 := by
  refine ⟨rfl, ⟨_, rfl, ?_⟩, ⟨_, rfl, ?_⟩⟩
  · intro h
    obtain ⟨name, hname, hne, _⟩ := h.named 0 ⟨rfl, rfl⟩ _ List.mem_cons_self
    cases hname
    exact hne rfl
  · intro h
    refine h.acyclic 1 (TransGen.single ⟨rfl, _, List.mem_cons_self, rfl⟩)

end HouseOS.Memfs
