import HouseOS.Memfs.Effect

namespace HouseOS.Memfs

open Relation
open HouseOS.Graph
open HouseOS.Components
open HouseOS.Loop (Step)
open HouseOS.Vfs (Path slash NodeType pathCap)
open World

variable {w w' : World} {f : Nat}

def blocked (w : World) : Nat → List Path → Bool
  | _, [] => false
  | cur, name :: names =>
      match w.lookupDentry cur name with
      | none => false
      | some d => decide ((w.inode d.inode).type ≠ .dir) || blocked w d.inode names

def walkStop (w : World) : Nat → List Path → Nat
  | cur, [] => cur
  | cur, name :: names =>
      match w.lookupDentry cur name with
      | none => cur
      | some d => walkStop w d.inode names

structure Made (w w' : World) (f cur dir : Nat) (names : List Path) : Prop where
  tree : Tree w' f
  isDir : w'.IsDir dir
  live : ∀ x, w.live x → w'.live x
  below : w.nextInode ≤ w'.nextInode
  reach : ∀ x, w.live x → w'.Reaches x dir → w.Reaches x (walkStop w cur names)
  same : ∀ d, walk w cur names = some d → w' = w ∧ dir = d

theorem Tree.not_reaches_fresh (h : Tree w f) {x : Nat} (hx : w.live x) :
    ¬ w.Reaches x w.nextInode := by
  intro hr
  have hlt := h.below x hx
  rcases ReflTransGen.cases_tail hr with heq | ⟨y, _, he⟩
  · omega
  · obtain ⟨d, hd, hdi⟩ := he.2
    have := h.below _ (h.entry y d hd).live
    omega

theorem Tree.leaf_reaches (h : Tree w f) {x y : Nat} (hx : w.entries x = [])
    (hr : w.Reaches x y) : y = x := by
  rcases hr.cases_head with heq | ⟨z, he, _⟩
  · exact heq.symm
  · obtain ⟨d, hd, _⟩ := h.edge_iff.mp he
    rw [hx] at hd
    cases hd

theorem Grown.lookup_fresh {dir child : Nat} {name : Path} (h : Tree w f)
    (g : Grown w w' f dir child name) (hdir : dir < child) (hchild : w.nextInode ≤ child)
    (n : Path) : w'.lookupDentry child n = none := by
  have hnil : w'.entries child = [] := by
    rw [g.entries, if_neg (by omega), h.entries_fresh hchild]
  simp only [World.lookupDentry]
  split
  · rfl
  · rw [show (w'.inode child).entries = [] from hnil]
    rfl

theorem blocked_of_empty {cur : Nat} (h : ∀ n, w.lookupDentry cur n = none) (names : List Path) :
    blocked w cur names = false := by
  cases names with
  | nil => rfl
  | cons n names => simp [blocked, h n]

theorem walkStop_of_empty {cur : Nat} (h : ∀ n, w.lookupDentry cur n = none) (names : List Path) :
    walkStop w cur names = cur := by
  cases names with
  | nil => rfl
  | cons n names => simp [walkStop, h n]

theorem Tree.enter_step (h : Tree w f) {cur : Nat} {name : Path} {d : Dentry} (last : Bool)
    (hl : w.lookupDentry cur name = some d) :
    mkdirStep (w, f, cur) name last =
      if (w.inode d.inode).type ≠ .dir then .ret w else .go (w, f, d.inode) := by
  simp only [mkdirStep, hl, h.enter hl]

theorem Tree.create_step (h : Tree w f) {cur : Nat} {name : Path} (last : Bool)
    (hcur : w.IsDir cur) (hname : NameOk name) (hl : w.lookupDentry cur name = none) :
    ∃ w₁, mkdirStep (w, f, cur) name last = .go (w₁, f, w.nextInode) ∧
      Grown w w₁ f cur w.nextInode name ∧ Tree w₁ f ∧ w₁.IsDir w.nextInode := by
  obtain ⟨w₁, hmk, g, hdir⟩ := mkdirHere_grown h hcur hname.short
  have hback : ¬ w.Reaches w.nextInode cur := by
    intro hr
    have heq := h.leaf_reaches (h.entries_fresh le_rfl) hr
    have := h.below cur hcur.1
    omega
  refine ⟨w₁, ?_, g, ?_, hdir⟩
  · simp [mkdirStep, hl, hmk, hdir.2]
  · exact h.grow g hcur hname (h.lookupDentry_none hcur hl) le_rfl (fun hlt => by omega) hback

theorem Made.here (h : Tree w f) {cur : Nat} (hcur : w.IsDir cur) : Made w w f cur cur [] where
  tree := h
  isDir := hcur
  live _ hx := hx
  below := le_rfl
  reach _ _ hr := hr
  same _ hd := ⟨rfl, Option.some.inj hd⟩

theorem scan_mkdir (names : List Path) (hok : ∀ name ∈ names, NameOk name) :
    ∀ (w : World) (cur : Nat), Tree w f → w.IsDir cur →
      (blocked w cur names = true → scanLast mkdirStep names (w, f, cur) = .ret w) ∧
      (blocked w cur names = false → ∃ w' dir,
        scanLast mkdirStep names (w, f, cur) = .go (w', f, dir) ∧ Made w w' f cur dir names) := by
  induction names with
  | nil =>
    intro w cur h hcur
    exact ⟨fun hb => (by cases hb), fun _ => ⟨w, cur, rfl, Made.here h hcur⟩⟩
  | cons name names ih =>
    intro w cur h hcur
    have ih := ih (fun n hn => hok n (List.mem_cons_of_mem name hn))
    have hname := hok name List.mem_cons_self
    cases hl : w.lookupDentry cur name with
    | some d =>
      have hstep := h.enter_step names.isEmpty hl
      by_cases hdir : (w.inode d.inode).type = .dir
      · rw [if_neg (by simpa using hdir)] at hstep
        have hd : w.IsDir d.inode := ⟨(h.entry cur d (h.lookupDentry_some hl).1).live, hdir⟩
        obtain ⟨hblock, hfree⟩ := ih w d.inode h hd
        simp only [scanLast, hstep, blocked, hl, hdir, ne_eq, not_true_eq_false, decide_false,
          Bool.false_or]
        refine ⟨hblock, fun hb => ?_⟩
        obtain ⟨w', dir, hscan, m⟩ := hfree hb
        refine ⟨w', dir, hscan, m.tree, m.isDir, m.live, m.below, ?_, ?_⟩
        · simpa only [walkStop, hl] using m.reach
        · simpa only [walk, hl] using m.same
      · rw [if_pos hdir] at hstep
        simp [scanLast, hstep, blocked, hl, hdir]
    | none =>
      obtain ⟨w₁, hstep, g, h₁, hdir₁⟩ := h.create_step names.isEmpty hcur hname hl
      have hlt := h.below cur hcur.1
      have hempty := g.lookup_fresh h hlt le_rfl
      obtain ⟨w', dir, hscan, m⟩ := (ih w₁ w.nextInode h₁ hdir₁).2 (blocked_of_empty hempty names)
      refine ⟨fun hb => by simp [blocked, hl] at hb, fun _ => ⟨w', dir, ?_, ?_⟩⟩
      · simp only [scanLast, hstep, hscan]
      · have hlive₁ : ∀ x, w.live x → w₁.live x := by
          intro x hx
          rw [g.live]
          split
          · rfl
          · exact hx
        refine ⟨m.tree, m.isDir, fun x hx => m.live x (hlive₁ x hx), ?_, ?_, ?_⟩
        · have := g.next
          have := m.below
          omega
        · intro x hx hr
          have hr₁ := m.reach x (hlive₁ x hx) hr
          rw [walkStop_of_empty hempty, World.Reaches, g.edge h hcur (by omega)] at hr₁
          simp only [walkStop, hl]
          rcases reaches_addEdge hr₁ with hr₁ | ⟨hr₁, _⟩
          · exact absurd hr₁ (h.not_reaches_fresh hx)
          · exact hr₁
        · intro d hd
          simp [walk, hl] at hd

theorem names_ok {path : Path} (hshort : path.length < pathCap) :
    ∀ name ∈ components slash path, NameOk name := by
  intro name hname
  obtain ⟨hne, hslash, hlen⟩ := mem_components slash hname
  exact ⟨hne, hslash, lt_of_le_of_lt hlen hshort⟩

theorem mkdirP_spec (h : Tree w f) {path : Path} (hshort : path.length < pathCap) :
    (blocked w (w.root f) (components slash path) = true → w.mkdirP f path = (none, w)) ∧
    (blocked w (w.root f) (components slash path) = false → ∃ w' dir,
      w.mkdirP f path = (some (f, dir), w') ∧
        Made w w' f (w.root f) dir (components slash path)) := by
  have hlen : (skip slash path).length ≤ path.length := (List.dropWhile_sublist _).length_le
  have hscan := scan_mkdir (components slash path) (names_ok hshort) w (w.root f) h h.root
  rw [World.mkdirP, pathLoop_eq_scanLast slash _ _ _ _ hlen (skip_head slash path), skip,
    components_skip]
  refine ⟨fun hb => by rw [hscan.1 hb], fun hb => ?_⟩
  obtain ⟨w', dir, hs, m⟩ := hscan.2 hb
  exact ⟨w', dir, by rw [hs], m⟩

theorem splitParent_spec (h : Tree w f) {path dir name : Path} (hshort : path.length < pathCap)
    (hsplit : splitLast slash path = some (dir, name)) :
    (blocked w (w.root f) (components slash dir) = true → w.splitParent f path = (none, w)) ∧
    (blocked w (w.root f) (components slash dir) = false → ∃ w' parent,
      w.splitParent f path = (some (name, f, parent), w') ∧
        Made w w' f (w.root f) parent (components slash dir)) := by
  have hdir : components slash (if dir.length = 0 then [slash] else dir) = components slash dir := by
    split
    · rename_i hnil
      rw [List.eq_nil_of_length_eq_zero hnil]
      simp
    · rfl
  have hlen : (if dir.length = 0 then [slash] else dir).length < pathCap := by
    have hp := congrArg List.length (splitLast_some slash hsplit).1
    rw [List.length_append, List.length_cons] at hp
    split
    · decide
    · omega
  obtain ⟨hblock, hfree⟩ := mkdirP_spec h hlen
  rw [hdir] at hblock hfree
  simp only [World.splitParent, hsplit]
  refine ⟨fun hb => by rw [hblock hb], fun hb => ?_⟩
  obtain ⟨w', parent, hmk, m⟩ := hfree hb
  exact ⟨w', parent, by rw [hmk], m⟩

end HouseOS.Memfs
