import HouseOS.Library.SharedStore
import HouseOS.Memfs.Names

namespace HouseOS.Memfs

open HouseOS.Components
open HouseOS.Loop (Step)
open HouseOS.SharedStore
open HouseOS.Vfs (Path slash NodeType pathCap)
open World

variable {w w' : World} {f : Nat}

section Bodies

def body (n : Inode) : NodeType × Option (List UInt8) × Nat := (n.type, n.data, n.size)

theorem body_eq {n m : Inode} (h : body n = body m) :
    n.type = m.type ∧ n.size = m.size ∧ contents n = contents m := by
  simp only [body, Prod.mk.injEq] at h
  obtain ⟨ht, hd, hs⟩ := h
  exact ⟨ht, hs, by rw [contents, contents, hd, hs]⟩

theorem body_addEntry (w : World) (dir : Nat) (d : Dentry) (i : Nat) :
    body ((w.addEntry dir d).inode i) = body (w.inode i) := by
  rw [World.addEntry, setInode_inode]
  split
  · rename_i hi
    rw [hi]
    rfl
  · rfl

theorem body_addLink (w : World) (j i : Nat) :
    body ((w.addLink j).inode i) = body (w.inode i) := by
  rw [World.addLink, setInode_inode]
  split
  · rename_i hi
    rw [hi]
    rfl
  · rfl

theorem valloc_inode (w : World) (n : Nat) : (w.valloc n).2.inode = w.inode := rfl

theorem dupName_inode (w : World) (name : Option Path) : (w.dupName name).2.inode = w.inode := by
  have hv := valloc_inode w 256
  rw [World.dupName]
  cases hc : w.valloc 256 with
  | mk ok w₁ =>
    rw [hc] at hv
    cases ok <;> exact hv

theorem dentryCreate_inode (w : World) (child : Nat) (name : Option Path) :
    (w.dentryCreate child name).2.inode = w.inode := by
  have hv := valloc_inode w dentryBytes
  rw [World.dentryCreate]
  cases hc : w.valloc dentryBytes with
  | mk ok w₁ =>
    rw [hc] at hv
    cases ok with
    | false => exact hv
    | true => exact (dupName_inode w₁ name).trans hv

theorem body_dirAdd (w : World) (dir child i : Nat) :
    body ((w.dirAdd dir child).inode i) = body (w.inode i) := by
  rw [World.dirAdd]
  split
  · rfl
  · have hd := dentryCreate_inode w child (w.inode child).name
    cases hc : w.dentryCreate child (w.inode child).name with
    | mk d w₁ =>
      rw [hc] at hd
      rw [← hd]
      cases d with
      | none => rfl
      | some d => exact (body_addLink _ _ _).trans (body_addEntry _ _ _ _)

theorem body_newNode (owner parent : Nat) (fill : Inode → Inode) (h : Tree w f) {name : Path}
    (hname : name.length < pathCap) (i : Nat) :
    body ((w.newNode owner parent name fill).2.inode i) =
      if i = w.nextInode then body (fill { zeroInode with name := some name })
      else body (w.inode i) := by
  obtain ⟨w₁, hw₁, p, hnew, hold⟩ := vallocInode_granted h
  have hg₁ : ∀ n, w₁.grant n = true := p.grant ▸ h.granted
  simp only [World.newNode, hw₁, dupName_granted hg₁ hname, World.countInode, World.setMemfs]
  rw [body_dirAdd, setInode_inode]
  split
  · rw [hnew]
  · rename_i hi
    rw [hold i hi]

theorem body_mkdirHere (h : Tree w f) {cur : Nat} {name : Path} (hname : name.length < pathCap)
    (i : Nat) (hi : i ≠ w.nextInode) :
    body ((w.mkdirHere f cur name).2.inode i) = body (w.inode i) := by
  obtain ⟨w₁, hw₁, p, hnew, hold⟩ := vallocInode_granted h
  have hg₁ : ∀ n, (w₁.setInode w.nextInode { w₁.inode w.nextInode with type := .dir }).grant n =
      true := p.grant ▸ h.granted
  simp only [World.mkdirHere, hw₁, dupName_granted hg₁ hname, World.countInode, World.setMemfs]
  rw [body_dirAdd, setInode_inode, if_neg hi]
  show body ((w₁.setInode w.nextInode { w₁.inode w.nextInode with type := .dir }).inode i) = _
  rw [setInode_inode, if_neg hi, hold i hi]

end Bodies

section Abstraction

def nodeAt (w : World) (f : Nat) (p : List Path) : Option (Node Nat) :=
  (walk w (w.root f) p).map (fun i => if (w.inode i).type = .dir then .dir else .file i)

structure Files (w : World) (f : Nat) : Prop where
  tree : Tree w f
  unique : UniqueDirs w f
  kinds : ∀ i, w.live i → (w.inode i).type = .dir ∨ (w.inode i).type = .file
  sized : ∀ i, w.live i → (w.inode i).type = .file →
    (contents (w.inode i)).length = (w.inode i).size

structure Shows (w : World) (f : Nat) (s : Store Path Nat UInt8) : Prop where
  nodes : ∀ p, s.node p = nodeAt w f p
  texts : ∀ p i, nodeAt w f p = some (.file i) → s.content i = contents (w.inode i)

structure Gains (w w' : World) (f : Nat) (p : List Path) (child : Nat) : Prop where
  walks : ∀ q, walk w' (w'.root f) q = if q = p then some child else walk w (w.root f) q
  live : ∀ i, w'.live i → i = child ∨ w.live i
  bodies : ∀ i, w.live i → body (w'.inode i) = body (w.inode i)

theorem Tree.walk_live (h : Tree w f) {p : List Path} {i : Nat}
    (hw : walk w (w.root f) p = some i) : w.live i :=
  h.lookup_live p _ h.root.1 i hw

theorem gains_of_grown (h : Files w f) (h' : Tree w' f) {dir child : Nat} {name : Path}
    {pre : List Path} (g : Grown w w' f dir child name) (hpre : walk w (w.root f) pre = some dir)
    (hdir : w.IsDir dir) (hfresh : w.lookupDentry dir name = none) (hleaf : w'.entries child = [])
    (hbody : ∀ i, w.live i → body (w'.inode i) = body (w.inode i)) :
    Gains w w' f (pre ++ [name]) child where
  walks q := by
    have hthrough : Through w (w.root f) dir name q ↔ q = pre ++ [name] := by
      constructor
      · rintro ⟨q', rfl, hq'⟩
        rw [h.unique q' pre dir hq' hpre hdir.2]
      · rintro rfl
        exact ⟨pre, rfl, hpre⟩
    rw [g.root]
    have hwalk := g.walk_through h.tree h' hfresh hleaf (w.root f) q
    split
    · rename_i heq
      exact hwalk.1 (hthrough.mpr heq)
    · rename_i heq
      exact hwalk.2 (fun ht => heq (hthrough.mp ht))
  live i hi := by
    rw [g.live] at hi
    split at hi
    · exact Or.inl ‹_›
    · exact Or.inr hi
  bodies := hbody

theorem Gains.node {p : List Path} {child : Nat} (g : Gains w w' f p child) (h : Tree w f)
    (q : List Path) :
    nodeAt w' f q =
      if q = p then some (if (w'.inode child).type = .dir then .dir else .file child)
      else nodeAt w f q := by
  rw [nodeAt, g.walks, nodeAt]
  split
  · rfl
  · cases hw : walk w (w.root f) q with
    | none => rfl
    | some i =>
      have hb := (body_eq (g.bodies i (h.walk_live hw))).1
      simp only [Option.map_some, hb]

theorem Files.gains (h : Files w f) (h' : Tree w' f) {p : List Path} {child : Nat}
    (g : Gains w w' f p child)
    (hchild : (w'.inode child).type = .dir ∧ ¬ w.live child ∨
      (w'.inode child).type = .file ∧ (contents (w'.inode child)).length = (w'.inode child).size) :
    Files w' f where
  tree := h'
  unique := by
    intro q q' i hq hq' hi
    rw [g.walks] at hq hq'
    by_cases hic : i = child
    · have hdead : ¬ w.live i := by
        rcases hchild with ⟨_, hd⟩ | ⟨ht, _⟩
        · rwa [hic]
        · rw [hic, ht] at hi
          cases hi
      have hnot : ∀ r, walk w (w.root f) r ≠ some i := fun r hr => hdead (h.tree.walk_live hr)
      have hqp : q = p := by
        by_contra hne
        rw [if_neg hne] at hq
        exact hnot q hq
      have hqp' : q' = p := by
        by_contra hne
        rw [if_neg hne] at hq'
        exact hnot q' hq'
      rw [hqp, hqp']
    · have hold : ∀ r, (if r = p then some child else walk w (w.root f) r) = some i →
          walk w (w.root f) r = some i := by
        intro r hr
        split at hr
        · exact absurd (Option.some.inj hr).symm hic
        · exact hr
      have hlive := h.tree.walk_live (hold q hq)
      rw [(body_eq (g.bodies i hlive)).1] at hi
      exact h.unique q q' i (hold q hq) (hold q' hq') hi
  kinds i hi := by
    by_cases hic : i = child
    · rw [hic]
      rcases hchild with hd | hf
      · exact Or.inl hd.1
      · exact Or.inr hf.1
    · have hlive := (g.live i hi).resolve_left hic
      rw [(body_eq (g.bodies i hlive)).1]
      exact h.kinds i hlive
  sized i hi ht := by
    by_cases hic : i = child
    · rcases hchild with hd | hf
      · rw [hic, hd.1] at ht
        cases ht
      · rw [hic]
        exact hf.2
    · have hlive := (g.live i hi).resolve_left hic
      obtain ⟨htype, hsize, hcont⟩ := body_eq (g.bodies i hlive)
      rw [hcont, hsize]
      exact h.sized i hlive (htype ▸ ht)

end Abstraction

section Directories

structure MadeDirs (w w' : World) (f dir : Nat) (names : List Path) : Prop where
  files : Files w' f
  at_ : walk w' (w'.root f) names = some dir
  isDir : w'.IsDir dir
  nodes : ∀ q, nodeAt w' f q =
    if q <+: names ∧ nodeAt w f q = none then some .dir else nodeAt w f q
  live : ∀ i, w.live i → w'.live i
  bodies : ∀ i, w.live i → body (w'.inode i) = body (w.inode i)

theorem nodeAt_prefix {p q : List Path} (hpq : q <+: p) (h : nodeAt w f p ≠ none) :
    nodeAt w f q ≠ none := by
  obtain ⟨r, rfl⟩ := hpq
  intro hq
  rw [nodeAt, Option.map_eq_none_iff] at hq
  rw [nodeAt, walk_append, hq] at h
  exact h rfl

theorem walk_nodeAt {p : List Path} {i : Nat} (h : walk w (w.root f) p = some i) :
    nodeAt w f p = some (if (w.inode i).type = .dir then .dir else .file i) := by
  rw [nodeAt, h]
  rfl

theorem MadeDirs.here (h : Files w f) {cur : Nat} {pre : List Path}
    (hpre : walk w (w.root f) pre = some cur) (hcur : w.IsDir cur) : MadeDirs w w f cur pre where
  files := h
  at_ := hpre
  isDir := hcur
  nodes q := by
    have hne : nodeAt w f pre ≠ none := by
      rw [walk_nodeAt hpre]
      simp
    rw [if_neg]
    rintro ⟨hq, hnone⟩
    exact nodeAt_prefix hq hne hnone
  live _ hi := hi
  bodies _ _ := rfl

theorem mkdirStep_gains (h : Files w f) {cur : Nat} {name : Path} {pre : List Path} (last : Bool)
    (hpre : walk w (w.root f) pre = some cur) (hcur : w.IsDir cur) (hname : NameOk name)
    (hl : w.lookupDentry cur name = none) :
    ∃ w₁, mkdirStep (w, f, cur) name last = .go (w₁, f, w.nextInode) ∧ Files w₁ f ∧
      Gains w w₁ f (pre ++ [name]) w.nextInode ∧ w₁.IsDir w.nextInode ∧
        w₁.entries w.nextInode = [] ∧ ∀ i, w.live i → w₁.live i := by
  obtain ⟨w₁, hstep, g, h₁, hdir₁⟩ := h.tree.create_step last hcur hname hl
  have hlt := h.tree.below cur hcur.1
  have hleaf : w₁.entries w.nextInode = [] := by
    rw [g.entries, if_neg (by omega), h.tree.entries_fresh le_rfl]
  have hw₁ : w₁ = (w.mkdirHere f cur name).2 := by
    rw [mkdirStep] at hstep
    simp only [hl] at hstep
    cases hmk : w.mkdirHere f cur name with
    | mk next w₂ =>
      rw [hmk] at hstep
      cases next with
      | none => cases hstep
      | some next =>
        simp only at hstep
        split at hstep
        · cases hstep
        · cases hstep
          rfl
  have hbody : ∀ i, w.live i → body (w₁.inode i) = body (w.inode i) := by
    intro i hi
    have := h.tree.below i hi
    rw [hw₁]
    exact body_mkdirHere h.tree hname.short i (by omega)
  have gains := gains_of_grown h h₁ g hpre hcur hl hleaf hbody
  have hdead : ¬ w.live w.nextInode := fun hi => absurd (h.tree.below _ hi) (lt_irrefl _)
  refine ⟨w₁, hstep, h.gains h₁ gains (Or.inl ⟨hdir₁.2, hdead⟩), gains, hdir₁, hleaf, ?_⟩
  intro i hi
  rw [g.live]
  split
  · rfl
  · exact hi

theorem scan_makes (names : List Path) (hok : ∀ name ∈ names, NameOk name) :
    ∀ (w : World) (cur : Nat) (pre : List Path), Files w f → walk w (w.root f) pre = some cur →
      w.IsDir cur → blocked w cur names = false →
        ∃ w' dir, scanLast mkdirStep names (w, f, cur) = .go (w', f, dir) ∧
          MadeDirs w w' f dir (pre ++ names) := by
  induction names with
  | nil =>
    intro w cur pre h hpre hcur _
    exact ⟨w, cur, rfl, by rw [List.append_nil]; exact MadeDirs.here h hpre hcur⟩
  | cons name names ih =>
    intro w cur pre h hpre hcur hb
    have ih := ih (fun n hn => hok n (List.mem_cons_of_mem name hn))
    have hname := hok name List.mem_cons_self
    have hassoc : (pre ++ [name]) ++ names = pre ++ name :: names := by simp
    cases hl : w.lookupDentry cur name with
    | some d =>
      simp only [blocked, hl, Bool.or_eq_false_iff, decide_eq_false_iff_not, not_not] at hb
      have hstep := h.tree.enter_step names.isEmpty hl
      rw [if_neg (not_not.mpr hb.1)] at hstep
      have hd : w.IsDir d.inode :=
        ⟨(h.tree.entry cur d (h.tree.lookupDentry_some hl).1).live, hb.1⟩
      have hwalk : walk w (w.root f) (pre ++ [name]) = some d.inode := by
        rw [walk_snoc, hpre, Option.bind_some, hl]
        rfl
      obtain ⟨w', dir, hscan, m⟩ := ih w d.inode (pre ++ [name]) h hwalk hd hb.2
      exact ⟨w', dir, by simp only [scanLast, hstep, hscan], hassoc ▸ m⟩
    | none =>
      obtain ⟨w₁, hstep, h₁, g, hdir₁, hleaf, hlive⟩ :=
        mkdirStep_gains h names.isEmpty hpre hcur hname hl
      have hempty := lookupDentry_leaf hleaf
      have hwalk : walk w₁ (w₁.root f) (pre ++ [name]) = some w.nextInode := by
        rw [g.walks, if_pos rfl]
      obtain ⟨w', dir, hscan, m⟩ :=
        ih w₁ w.nextInode (pre ++ [name]) h₁ hwalk hdir₁ (blocked_of_empty hempty names)
      refine ⟨w', dir, by simp only [scanLast, hstep, hscan], ?_⟩
      rw [hassoc] at m
      have hnew : nodeAt w f (pre ++ [name]) = none := by
        rw [nodeAt, walk_snoc, hpre, Option.bind_some, hl]
        rfl
      refine ⟨m.files, m.at_, m.isDir, ?_, fun i hi => m.live i (hlive i hi), ?_⟩
      · intro q
        rw [m.nodes, g.node h.tree, hdir₁.2]
        by_cases hq : q = pre ++ [name]
        · have hpref : q <+: pre ++ name :: names := by
            rw [hq]
            exact ⟨names, hassoc⟩
          have hnone : nodeAt w f q = none := by rw [hq, hnew]
          have hright : (if q <+: pre ++ name :: names ∧ nodeAt w f q = none then some Node.dir
              else nodeAt w f q) = some .dir := if_pos ⟨hpref, hnone⟩
          rw [hright, if_pos hq, if_pos rfl, if_neg (by simp)]
        · rw [if_neg hq]
      · intro i hi
        rw [m.bodies i (hlive i hi), g.bodies i hi]

theorem blocked_iff (w : World) (names : List Path) :
    ∀ cur, blocked w cur names = true ↔
      ∃ q i, q <+: names ∧ q ≠ [] ∧ walk w cur q = some i ∧ (w.inode i).type ≠ .dir := by
  induction names with
  | nil =>
    intro cur
    refine ⟨fun hb => (by cases hb), ?_⟩
    rintro ⟨q, i, hq, hne, _⟩
    exact absurd (List.prefix_nil.mp hq) hne
  | cons name names ih =>
    intro cur
    cases hl : w.lookupDentry cur name with
    | none =>
      simp only [blocked, hl]
      refine ⟨fun hb => (by cases hb), ?_⟩
      rintro ⟨q, i, hq, hne, hw, _⟩
      cases q with
      | nil => exact absurd rfl hne
      | cons n q =>
        obtain ⟨rfl, _⟩ := List.cons_prefix_cons.mp hq
        simp [walk, hl] at hw
    | some d =>
      simp only [blocked, hl, Bool.or_eq_true, decide_eq_true_eq, ih]
      constructor
      · rintro (hd | ⟨q, i, hq, _, hw, hi⟩)
        · exact ⟨[name], d.inode, List.cons_prefix_cons.mpr ⟨rfl, List.nil_prefix⟩, by simp,
            by simp [walk, hl], hd⟩
        · exact ⟨name :: q, i, List.cons_prefix_cons.mpr ⟨rfl, hq⟩, by simp,
            by simpa only [walk, hl] using hw, hi⟩
      · rintro ⟨q, i, hq, hne, hw, hi⟩
        cases q with
        | nil => exact absurd rfl hne
        | cons n q =>
          obtain ⟨rfl, hq'⟩ := List.cons_prefix_cons.mp hq
          simp only [walk, hl] at hw
          by_cases hq0 : q = []
          · rw [hq0, walk] at hw
            exact Or.inl (Option.some.inj hw ▸ hi)
          · exact Or.inr ⟨q, i, hq', hq0, hw, hi⟩

theorem proper_prefix_snoc {p q : List Path} (name : Path) :
    (q <+: p ++ [name] ∧ q ≠ p ++ [name]) ↔ q <+: p := by
  constructor
  · rintro ⟨hq, hne⟩
    rcases List.prefix_concat_iff.mp hq with heq | hq
    · exact absurd heq hne
    · exact hq
  · intro hq
    refine ⟨hq.trans (List.prefix_append ..), ?_⟩
    rintro rfl
    have := hq.length_le
    rw [List.length_append, List.length_singleton] at this
    omega

theorem Shows.barred_iff {s : Store Path Nat UInt8} (hs : Shows w f s) (h : Files w f)
    (names : List Path) (name : Path) :
    s.Barred (names ++ [name]) ↔ blocked w (w.root f) names = true := by
  rw [blocked_iff]
  constructor
  · rintro ⟨q, i, hq, hne, hnode⟩
    have hq := (proper_prefix_snoc name).mp ⟨hq, hne⟩
    rw [hs.nodes, nodeAt, Option.map_eq_some_iff] at hnode
    obtain ⟨j, hw, hj⟩ := hnode
    split at hj
    · cases hj
    · rename_i ht
      refine ⟨q, j, hq, ?_, hw, ht⟩
      rintro rfl
      rw [walk] at hw
      exact ht (Option.some.inj hw ▸ h.tree.root.2)
  · rintro ⟨q, i, hq, _, hw, hi⟩
    obtain ⟨hq', hne⟩ := (proper_prefix_snoc name).mpr hq
    refine ⟨q, i, hq', hne, ?_⟩
    rw [hs.nodes, walk_nodeAt hw, if_neg hi]

end Directories

end HouseOS.Memfs
