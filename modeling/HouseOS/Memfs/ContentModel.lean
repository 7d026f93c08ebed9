import HouseOS.Memfs.Content

namespace HouseOS.Memfs

open HouseOS.Components
open HouseOS.Loop (Step)
open HouseOS.SharedStore
open HouseOS.Vfs (Path slash NodeType pathCap)
open World

variable {w w' : World} {f : Nat} {s : Store Path Nat UInt8}

inductive FileEvent where
  | create (path : LocalPath)
  | write (path : LocalPath) (buf : List UInt8)
  | append (path : LocalPath) (buf : List UInt8)
  | link (old new : LocalPath)
  | delete (path : LocalPath)
  | read (path : LocalPath) (size : Nat)

def created (r : Option Nat) : Int := if r.isSome then 0 else -1

def fileReply (f : Nat) (w : World) : FileEvent → Reply UInt8 × World
  | .create p =>
      let (r, w) := w.memfsCreateFile f p.chars
      (.code (created r), w)
  | .write p buf =>
      let (r, w) := w.memfsWrite f p.chars buf
      (.code r, w)
  | .append p buf =>
      let (r, w) := w.memfsAppend f p.chars buf
      (.code r, w)
  | .link old new =>
      let (r, w) := w.memfsLink f old.chars new.chars
      (.code r, w)
  | .delete p =>
      let (r, w) := w.memfsDeleteFile f p.chars
      (.code r, w)
  | .read p size =>
      let (r, w) := w.memfsRead f p.chars size
      (.bytes r, w)

def names (p : LocalPath) : List Path := components slash p.chars

def opOf : FileEvent → Op Path UInt8
  | .create p => .create (names p)
  | .write p buf => .write (names p) buf
  | .append p buf => .append (names p) buf
  | .link old new => .link (names old) (names new)
  | .delete p => .delete (names p)
  | .read p size => .read (names p) size

def Canonical (p : LocalPath) : Prop := p.chars.getLast? ≠ some slash

instance (p : LocalPath) : Decidable (Canonical p) := inferInstanceAs (Decidable (_ ≠ _))

def Allowed (f : Nat) (w : World) : FileEvent → Prop
  | .create p => Canonical p
  | .write p buf => Canonical p ∧ buf ≠ []
  | .append p buf => Canonical p ∧ buf ≠ []
  | .link old new => Canonical old ∧ Canonical new ∧
      ∀ i, w.lookupPath f old.chars = some i → (w.inode i).type ≠ .dir
  | .delete p => Canonical p
  | .read p _ => Canonical p

section Paths

theorem LocalPath.parts (p : LocalPath) (h : Canonical p) :
    ∃ dir name, splitLast slash p.chars = some (dir, name) ∧ NameOk name ∧
      names p = components slash dir ++ [name] := by
  obtain ⟨dir, name, hsplit⟩ := p.splits
  obtain ⟨heq, hslash⟩ := splitLast_some slash hsplit
  have hne : name ≠ [] := by
    rintro rfl
    refine h ?_
    rw [heq]
    simp
  have hlen := congrArg List.length heq
  rw [List.length_append, List.length_cons] at hlen
  have hshort := p.short
  refine ⟨dir, name, hsplit, ⟨hne, hslash, by omega⟩, ?_⟩
  rw [names, heq, components_append_cons,
    components_of_forall_ne slash (fun x hx hxs => hslash (hxs ▸ hx)) hne]

theorem Files.lookupEx (h : Files w f) (p : LocalPath) :
    w.lookupPathEx f p.chars = (walk w (w.root f) (names p)).map (fun i => (f, i)) :=
  h.tree.lookupPathEx_eq p.absolute

theorem Files.lookup (h : Files w f) (p : LocalPath) :
    w.lookupPath f p.chars = walk w (w.root f) (names p) :=
  h.tree.lookupPath_eq p.absolute

theorem splitParent_makes (h : Files w f) (p : LocalPath) {dir name : Path}
    (hsplit : splitLast slash p.chars = some (dir, name)) :
    (blocked w (w.root f) (components slash dir) = true →
      w.splitParent f p.chars = (none, w)) ∧
    (blocked w (w.root f) (components slash dir) = false → ∃ w' parent,
      w.splitParent f p.chars = (some (name, f, parent), w') ∧
        MadeDirs w w' f parent (components slash dir)) := by
  refine ⟨(splitParent_spec h.tree p.short hsplit).1, fun hb => ?_⟩
  have hlen := congrArg List.length (splitLast_some slash hsplit).1
  rw [List.length_append, List.length_cons] at hlen
  have hshort := p.short
  obtain ⟨w', parent, hscan, m⟩ := scan_makes (components slash dir) (names_ok (by omega)) w
    (w.root f) [] h rfl h.tree.root hb
  refine ⟨w', parent, ?_, m⟩
  have hmk : ∀ path : Path, components slash path = components slash dir →
      w.mkdirP f path = (some (f, parent), w') := by
    intro path hpath
    have hle : (skip slash path).length ≤ path.length := (List.dropWhile_sublist _).length_le
    rw [World.mkdirP, pathLoop_eq_scanLast slash _ _ _ _ hle (skip_head slash path), skip,
      components_skip, hpath, hscan]
  have hdir : components slash (if dir.length = 0 then [slash] else dir) = components slash dir := by
    split
    · rename_i hnil
      rw [List.eq_nil_of_length_eq_zero hnil]
      simp
    · rfl
  simp only [World.splitParent, hsplit, hmk _ hdir]

theorem Files.lookupDentry (h : Files w f) (p : LocalPath) (hcan : Canonical p)
    {dirs : List Path} {name : Path} (hnames : names p = dirs ++ [name]) :
    p.chars ≠ [slash] ∧ w.lookupPathDentry f p.chars = (walk w (w.root f) dirs).bind
      (fun j => (w.lookupDentry j name).map (fun d => (d, f, j))) := by
  have hne : p.chars ≠ [slash] := by
    intro heq
    exact hcan (by rw [heq]; rfl)
  refine ⟨hne, ?_⟩
  have hlen : (skip slash p.chars).length ≤ p.chars.length := (List.dropWhile_sublist _).length_le
  rw [names] at hnames
  rw [World.lookupPathDentry, if_neg (not_not.mpr p.absolute), if_neg hne,
    pathLoop_eq_scanLast slash _ _ _ _ hlen (skip_head slash _), skip, components_skip, hnames,
    h.tree.unmounted.scan_dentry_last]

end Paths

section Naming

theorem nodeAt_file {p : List Path} {i : Nat} (h : nodeAt w f p = some (.file i)) :
    walk w (w.root f) p = some i ∧ (w.inode i).type ≠ .dir := by
  rw [nodeAt, Option.map_eq_some_iff] at h
  obtain ⟨j, hw, hj⟩ := h
  split at hj
  · cases hj
  · obtain rfl : j = i := by simpa using hj
    exact ⟨hw, ‹_›⟩

theorem MadeDirs.shows {dir : Nat} {ns : List Path} (m : MadeDirs w w' f dir ns) (h : Files w f)
    (hs : Shows w f s) : Shows w' f (s.makeDirs ns) where
  nodes q := by
    rw [m.nodes, ← hs.nodes]
    split
    · rename_i hq
      exact makeDirs_new hq.1 hq.2
    · rename_i hq
      exact makeDirs_old (fun hpre hnone => hq ⟨hpre, hnone⟩)
  texts q i hq := by
    rw [m.nodes] at hq
    split at hq
    · cases hq
    · have hlive := h.tree.walk_live (nodeAt_file hq).1
      rw [(body_eq (m.bodies i hlive)).2.2]
      exact hs.texts q i hq

theorem not_prefix_snoc {ns : List Path} {name : Path} : ¬ ns ++ [name] <+: ns := by
  intro hp
  have := hp.length_le
  rw [List.length_append, List.length_singleton] at this
  omega

theorem MadeDirs.shows_existing {dir : Nat} {ns : List Path} {name : Path}
    (m : MadeDirs w w' f dir ns) (h : Files w f) (hs : Shows w f s)
    (hnode : nodeAt w' f (ns ++ [name]) ≠ none) :
    Shows w' f s ∧ s.node (ns ++ [name]) = nodeAt w' f (ns ++ [name]) := by
  have hsame : nodeAt w' f (ns ++ [name]) = nodeAt w f (ns ++ [name]) := by
    rw [m.nodes, if_neg (fun hh => not_prefix_snoc hh.1)]
  have hall : ∀ q, q <+: ns → s.node q ≠ none := by
    intro q hq
    rw [hs.nodes]
    rw [hsame] at hnode
    exact nodeAt_prefix (hq.trans (List.prefix_append ..)) hnode
  have hshows := m.shows h hs
  rw [makeDirs_of_node hall] at hshows
  exact ⟨hshows, hshows.nodes _⟩

theorem Shows.unused (hs : Shows w f s) (h : Tree w f) {i : Nat} (hi : ¬ w.live i) : s.Unused i := by
  intro q hq
  rw [hs.nodes] at hq
  exact hi (h.walk_live (nodeAt_file hq).1)

theorem Gains.shows {p : List Path} {child : Nat} {t : Store Path Nat UInt8}
    (g : Gains w w' f p child) (h : Tree w f) (hs : Shows w f s)
    (hfile : (w'.inode child).type ≠ .dir) (hname : t.node p = some (.file child))
    (hnames : ∀ q, q ≠ p → t.node q = s.node q)
    (htext : t.content child = contents (w'.inode child))
    (htexts : ∀ j, j ≠ child → t.content j = s.content j) : Shows w' f t where
  nodes q := by
    rw [g.node h, if_neg hfile]
    split
    · rename_i hq
      rw [hq, hname]
    · rename_i hq
      rw [hnames q hq, hs.nodes]
  texts q j hq := by
    by_cases hj : j = child
    · rw [hj, htext]
    · rw [g.node h, if_neg hfile] at hq
      split at hq
      · exact absurd (by simpa using hq.symm) hj
      · have hlive := h.walk_live (nodeAt_file hq).1
        rw [htexts j hj, (body_eq (g.bodies j hlive)).2.2, hs.texts q j hq]

end Naming

section Entering

structure Answers (f : Nat) (w : World) (s : Store Path Nat UInt8) (e : FileEvent) : Prop where
  files : Files (fileReply f w e).2 f
  does : ∃ t, Does s (opOf e) (fileReply f w e).1 t ∧ Shows (fileReply f w e).2 f t

theorem MadeDirs.parent_free {parent : Nat} {ns : List Path} {name : Path}
    (m : MadeDirs w w' f parent ns) (hl : w'.lookupDentry parent name = none) :
    nodeAt w' f (ns ++ [name]) = none := by
  rw [nodeAt, walk_snoc, m.at_, Option.bind_some, hl]
  rfl

theorem MadeDirs.parent_taken {parent : Nat} {ns : List Path} {name : Path} {d : Dentry}
    (m : MadeDirs w w' f parent ns) (hl : w'.lookupDentry parent name = some d) :
    nodeAt w' f (ns ++ [name]) =
      some (if (w'.inode d.inode).type = .dir then .dir else .file d.inode) := by
  rw [nodeAt, walk_snoc, m.at_, Option.bind_some, hl]
  rfl

theorem newFile_gains (h : Files w f) {parent : Nat} {ns : List Path} {name : Path}
    {fill : Inode → Inode} (hp : walk w (w.root f) ns = some parent) (hdir : w.IsDir parent)
    (hname : NameOk name) (hl : w.lookupDentry parent name = none) (hf : Fills fill)
    (hbody : ∀ n, body (fill n) = (.file, none, 0)) :
    Files (w.newNode f parent name fill).2 f ∧
      Gains w (w.newNode f parent name fill).2 f (ns ++ [name]) w.nextInode ∧
        body ((w.newNode f parent name fill).2.inode w.nextInode) = (.file, none, 0) := by
  have g := newNode_grown h.tree hdir hname.short hf
  have h' := tree_newNode h.tree hdir hname hl hf
  have hb := body_newNode f parent fill h.tree hname.short
  have hlt := h.tree.below parent hdir.1
  have hleaf : (w.newNode f parent name fill).2.entries w.nextInode = [] := by
    rw [g.entries, if_neg (by omega), h.tree.entries_fresh le_rfl]
  have hnew : body ((w.newNode f parent name fill).2.inode w.nextInode) = (.file, none, 0) := by
    rw [hb, if_pos rfl, hbody]
  have gains := gains_of_grown h h' g hp hdir hl hleaf (by
    intro i hi
    have := h.tree.below i hi
    rw [hb, if_neg (by omega)])
  refine ⟨h.gains h' gains (Or.inr ?_), gains, hnew⟩
  simp only [body, Prod.mk.injEq] at hnew
  obtain ⟨ht, hd, hs⟩ := hnew
  exact ⟨ht, by rw [contents, hd, hs]; rfl⟩

theorem memfsCreateFile_eq (w : World) (f : Nat) (p : LocalPath) : w.memfsCreateFile f p.chars =
    match w.splitParent f p.chars with
    | (none, w) => (none, w)
    | (some (name, owner, parent), w) =>
        match w.lookupDentry parent name with
        | some existing =>
            if existing.mountedFs.isSome then (none, w)
            else if (w.inode existing.inode).type = .file then (some existing.inode, w)
            else (none, w)
        | none => w.newNode owner parent name
            (fun n => { n with type := .file, size := 0, data := none }) := by
  rw [World.memfsCreateFile, World.createNode]
  exact if_neg (not_not.mpr p.absolute)

theorem create_answers (h : Files w f) (hs : Shows w f s) (p : LocalPath) (hcan : Canonical p) :
    Answers f w s (.create p) := by
  obtain ⟨dir, name, hsplit, hname, hnames⟩ := p.parts hcan
  obtain ⟨hblock, hfree⟩ := splitParent_makes h p hsplit
  have hbar := hs.barred_iff h (components slash dir) name
  have hstep : fileReply f w (.create p) =
      (.code (created (w.memfsCreateFile f p.chars).1), (w.memfsCreateFile f p.chars).2) := rfl
  have hcreate := memfsCreateFile_eq w f p
  cases hb : blocked w (w.root f) (components slash dir) with
  | true =>
    have hres : w.memfsCreateFile f p.chars = (none, w) := by rw [hcreate, hblock hb]
    constructor
    · rw [hstep, hres]
      exact h
    · rw [hstep, hres, opOf, hnames]
      exact ⟨s, .createRefused (Or.inl (hbar.mpr hb)), hs⟩
  | false =>
    obtain ⟨w₁, parent, hsp, m⟩ := hfree hb
    have hopen : ¬ s.Barred (components slash dir ++ [name]) := fun hh => by
      rw [hbar.mp hh] at hb
      cases hb
    cases hl : w₁.lookupDentry parent name with
    | some d =>
      have hnode := m.parent_taken hl
      obtain ⟨hs₁, hsame⟩ := m.shows_existing h hs (by rw [hnode]; simp)
      have hmnt : d.mountedFs.isSome = false := by
        rw [(m.files.tree.entry _ _ (m.files.tree.lookupDentry_some hl).1).unmounted]
        rfl
      by_cases ht : (w₁.inode d.inode).type = .file
      · have hres : w.memfsCreateFile f p.chars = (some d.inode, w₁) := by
          rw [hcreate, hsp]
          simp [hl, hmnt, ht]
        constructor
        · rw [hstep, hres]
          exact m.files
        · rw [hstep, hres, opOf, hnames]
          refine ⟨s, .createdBefore (i := d.inode) ?_, hs₁⟩
          rw [hsame, hnode, ht]
          rfl
      · have hres : w.memfsCreateFile f p.chars = (none, w₁) := by
          rw [hcreate, hsp]
          simp [hl, hmnt, ht]
        have hlive := (m.files.tree.entry _ _ (m.files.tree.lookupDentry_some hl).1).live
        constructor
        · rw [hstep, hres]
          exact m.files
        · rw [hstep, hres, opOf, hnames]
          refine ⟨s, .createRefused (Or.inr ?_), hs₁⟩
          rw [hsame, hnode, if_pos ((m.files.kinds _ hlive).resolve_right ht)]
    | none =>
      have hnode := m.parent_free hl
      obtain ⟨hfiles, g, hbody⟩ := newFile_gains m.files m.at_ m.isDir hname hl
        (show Fills fun n => { n with type := .file, size := 0, data := none } from
          ⟨fun _ => rfl, fun _ => rfl, fun _ => rfl, fun _ => rfl⟩) (fun _ => rfl)
      have hres : w.memfsCreateFile f p.chars = w₁.newNode f parent name
          (fun n => { n with type := .file, size := 0, data := none }) := by
        rw [hcreate, hsp]
        simp [hl]
      have hsome : (w.memfsCreateFile f p.chars).1 = some w₁.nextInode := by
        obtain ⟨w₂, hw₂, _⟩ := vallocInode_granted m.files.tree
        rw [hres, World.newNode, hw₂]
      have hdead : ¬ w₁.live w₁.nextInode := fun hi =>
        absurd (m.files.tree.below _ hi) (lt_irrefl _)
      have hs₁ := m.shows h hs
      simp only [body, Prod.mk.injEq] at hbody
      constructor
      · rw [hstep, hres]
        exact hfiles
      · rw [hstep, hsome, opOf, hnames]
        refine ⟨(s.enter (components slash dir ++ [name]) w₁.nextInode).set w₁.nextInode [],
          .created hopen ?_ ?_, ?_⟩
        · rw [hs.nodes, ← hnode, m.nodes, if_neg (fun hh => not_prefix_snoc hh.1)]
        · exact hs.unused h.tree (fun hi => hdead (m.live _ hi))
        · rw [hres]
          refine g.shows m.files.tree hs₁ ?_ ?_ ?_ ?_ ?_
          · rw [hbody.1]
            simp
          · exact bind_same
          · intro q hq
            rw [Store.enter, List.dropLast_concat]
            exact bind_ne hq
          · rw [set_same, contents, hbody.2.1]
          · intro j hj
            exact set_ne hj

theorem Files.leaf (h : Files w f) {i : Nat} (ht : (w.inode i).type ≠ .dir) : w.entries i = [] := by
  by_contra hne
  exact ht (h.tree.idle i hne).2

def entered (w : World) (parent i : Nat) (name : Path) : World :=
  (({ w with allocs := w.allocs + 1 + 1 } : World).addEntry parent
    { name := some name, inode := i, mountedFs := none }).addLink i

theorem entered_gains (h : Files w f) {parent i : Nat} {ns : List Path} {name : Path}
    (hp : walk w (w.root f) ns = some parent) (hdir : w.IsDir parent) (hname : NameOk name)
    (hl : w.lookupDentry parent name = none) (hi : w.live i) (hfile : (w.inode i).type ≠ .dir) :
    Files (entered w parent i name) f ∧ Gains w (entered w parent i name) f (ns ++ [name]) i := by
  have hlt := h.tree.below i hi
  have hleaf := h.leaf hfile
  have hbody : ∀ j, body ((entered w parent i name).inode j) = body (w.inode j) := fun j =>
    (body_addLink _ _ _).trans (body_addEntry _ _ _ _)
  have g : Grown w (entered w parent i name) f parent i name :=
    insert_grown parent name ((prepared_live hi hlt).alike (alike_allocs w f _))
  have hne : i ≠ parent := by
    rintro rfl
    exact hfile hdir.2
  have hnew : (entered w parent i name).entries i = [] := by
    rw [g.entries, if_neg hne, hleaf]
  have h' : Tree (entered w parent i name) f := by
    refine h.tree.grow g hdir hname (h.tree.lookupDentry_none hdir hl) (by omega) (fun _ => hi) ?_
    intro hr
    exact hne (h.tree.leaf_reaches hleaf hr).symm
  have gains := gains_of_grown h h' g hp hdir hl hnew (fun j _ => hbody j)
  obtain ⟨ht, hsize, hcont⟩ := body_eq (hbody i)
  refine ⟨h.gains h' gains (Or.inr ?_), gains⟩
  have hkind := (h.kinds i hi).resolve_left hfile
  exact ⟨ht.trans hkind, by rw [hcont, hsize]; exact h.sized i hi hkind⟩

theorem memfsLink_eq {i : Nat} {old : Path} (new : Path) (hfound : w.lookupPath f old = some i) :
    w.memfsLink f old new =
      match w.splitParent f new with
      | (none, w) => (-1, w)
      | (some (name, _, parent), w) =>
          match w.lookupDentry parent name with
          | some _ => (-1, w)
          | none =>
              match w.dentryCreate i (some name) with
              | (none, w) => (-1, w)
              | (some d, w) => (0, (w.addEntry parent d).addLink i) := by
  unfold World.memfsLink
  split
  · rename_i hnone
    rw [hfound] at hnone
    cases hnone
  · rename_i j hj
    rw [hfound] at hj
    cases hj
    rfl

theorem link_answers (h : Files w f) (hs : Shows w f s) (old new : LocalPath) (hcan : Canonical new)
    (hold : ∀ i, w.lookupPath f old.chars = some i → (w.inode i).type ≠ .dir) :
    Answers f w s (.link old new) := by
  have hstep : fileReply f w (.link old new) =
      (.code (w.memfsLink f old.chars new.chars).1, (w.memfsLink f old.chars new.chars).2) := rfl
  obtain ⟨dir, name, hsplit, hname, hnames⟩ := new.parts hcan
  obtain ⟨hblock, hfree⟩ := splitParent_makes h new hsplit
  have hbar := hs.barred_iff h (components slash dir) name
  rw [h.lookup] at hold
  cases hw : walk w (w.root f) (names old) with
  | none =>
    have hres : w.memfsLink f old.chars new.chars = (-1, w) := by
      rw [World.memfsLink, h.lookup, hw]
    constructor
    · rw [hstep, hres]
      exact h
    · rw [hstep, hres, opOf]
      refine ⟨s, .linkRefused (Or.inl ?_), hs⟩
      rw [hs.nodes, nodeAt, hw]
      rfl
  | some i =>
    have hfile := hold i hw
    have hlive := h.tree.walk_live hw
    have hfound : w.lookupPath f old.chars = some i := by rw [h.lookup, hw]
    have hlink := memfsLink_eq new.chars hfound
    cases hb : blocked w (w.root f) (components slash dir) with
    | true =>
      have hres : w.memfsLink f old.chars new.chars = (-1, w) := by rw [hlink, hblock hb]
      constructor
      · rw [hstep, hres]
        exact h
      · rw [hstep, hres, opOf, hnames]
        exact ⟨s, .linkRefused (Or.inr (Or.inl (hbar.mpr hb))), hs⟩
    | false =>
      obtain ⟨w₁, parent, hsp, m⟩ := hfree hb
      cases hl : w₁.lookupDentry parent name with
      | some d =>
        have hnode := m.parent_taken hl
        obtain ⟨hs₁, hsame⟩ := m.shows_existing h hs (by rw [hnode]; simp)
        have hres : w.memfsLink f old.chars new.chars = (-1, w₁) := by
          rw [hlink, hsp]
          simp [hl]
        constructor
        · rw [hstep, hres]
          exact m.files
        · rw [hstep, hres, opOf, hnames]
          refine ⟨s, .linkRefused (Or.inr (Or.inr ?_)), hs₁⟩
          rw [hsame, hnode]
          simp
      | none =>
        have hnode := m.parent_free hl
        have hlive₁ := m.live i hlive
        obtain ⟨htype, _, hcont⟩ := body_eq (m.bodies i hlive)
        have hfile₁ : (w₁.inode i).type ≠ .dir := htype ▸ hfile
        obtain ⟨hfiles, g⟩ := entered_gains m.files m.at_ m.isDir hname hl hlive₁ hfile₁
        obtain ⟨htype₂, _, hcont₂⟩ := body_eq (g.bodies i hlive₁)
        have hres : w.memfsLink f old.chars new.chars = (0, entered w₁ parent i name) := by
          rw [hlink, hsp]
          simp only [hl, dentryCreate_granted m.files.tree.granted hname.short]
          rfl
        have holdnode : nodeAt w f (names old) = some (.file i) := by
          rw [walk_nodeAt hw, if_neg hfile]
        have hopen : ¬ s.Barred (components slash dir ++ [name]) := fun hh => by
          rw [hbar.mp hh] at hb
          cases hb
        constructor
        · rw [hstep, hres]
          exact hfiles
        · rw [hstep, hres, opOf, hnames]
          refine ⟨s.enter (components slash dir ++ [name]) i, .linked ?_ hopen ?_, ?_⟩
          · rw [hs.nodes, holdnode]
          · rw [hs.nodes, ← hnode, m.nodes, if_neg (fun hh => not_prefix_snoc hh.1)]
          · refine g.shows m.files.tree (m.shows h hs) ?_ ?_ ?_ ?_ ?_
            · rw [htype₂]
              exact hfile₁
            · exact bind_same
            · intro q hq
              rw [Store.enter, List.dropLast_concat]
              exact bind_ne hq
            · rw [hcont₂, hcont]
              exact hs.texts _ i holdnode
            · exact fun _ _ => rfl

end Entering

section Deleting

theorem body_removeEntry (w : World) (dir : Nat) (d : Dentry) (i : Nat) :
    body ((w.removeEntry dir d).inode i) = body (w.inode i) := by
  rw [World.removeEntry, setInode_inode]
  split
  · rename_i hi
    rw [hi]
    rfl
  · rfl

theorem body_dropLink (w : World) (j i : Nat) :
    body ((w.dropLink j).inode i) = body (w.inode i) := by
  rw [World.dropLink, setInode_inode]
  split
  · rename_i hi
    rw [hi]
    rfl
  · rfl

theorem body_dropData (w : World) (g i j : Nat) (hj : j ≠ i) :
    body ((w.dropData g i).inode j) = body (w.inode j) := by
  rw [World.dropData]
  split
  · rw [setInode_inode, if_neg hj]
    rfl
  · rfl

theorem body_deletedFile (w : World) (f dir : Nat) (d : Dentry) (i : Nat)
    (hi : (deletedFile w f dir d).live i) :
    body ((deletedFile w f dir d).inode i) = body (w.inode i) := by
  have hdrop : body (((w.removeEntry dir d).dropLink d.inode).inode i) = body (w.inode i) :=
    (body_dropLink _ _ _).trans (body_removeEntry _ _ _ _)
  rw [deletedFile] at hi ⊢
  split at hi
  · rename_i hlink
    have hne : i ≠ d.inode := by
      rintro rfl
      simp [World.vfreeInode] at hi
    rw [if_pos hlink]
    exact (body_dropData _ f d.inode i hne).trans hdrop
  · rename_i hlink
    rw [if_neg hlink]
    exact hdrop

theorem delete_answers (h : Files w f) (hs : Shows w f s) (p : LocalPath) (hcan : Canonical p) :
    Answers f w s (.delete p) := by
  have hstep : fileReply f w (.delete p) =
      (.code (w.memfsDeleteFile f p.chars).1, (w.memfsDeleteFile f p.chars).2) := rfl
  obtain ⟨dir, name, _, hname, hnames⟩ := p.parts hcan
  obtain ⟨hne, hlook⟩ := h.lookupDentry p hcan hnames
  have hwalk := walk_snoc w (w.root f) (components slash dir) name
  have hdel := memfsDeleteFile_eq w f p.chars
  rw [if_neg hne, hlook] at hdel
  have hrefused : (∀ i, nodeAt w f (components slash dir ++ [name]) ≠ some (.file i)) →
      w.memfsDeleteFile f p.chars = (-1, w) → Answers f w s (.delete p) := by
    intro hnone hres
    constructor
    · rw [hstep, hres]
      exact h
    · rw [hstep, hres, opOf, hnames]
      exact ⟨s, .deleteRefused (text_eq_none.mpr (fun i => hs.nodes _ ▸ hnone i)), hs⟩
  cases hp : walk w (w.root f) (components slash dir) with
  | none =>
    rw [hp] at hdel hwalk
    refine hrefused (fun i hi => ?_) hdel
    rw [nodeAt, hwalk] at hi
    cases hi
  | some parent =>
    rw [hp] at hdel hwalk
    simp only [Option.bind_some] at hdel hwalk
    cases hl : w.lookupDentry parent name with
    | none =>
      rw [hl] at hdel hwalk
      refine hrefused (fun i hi => ?_) hdel
      rw [nodeAt, hwalk] at hi
      cases hi
    | some d =>
      rw [hl] at hdel hwalk
      simp only [Option.map_some] at hdel hwalk
      obtain ⟨hd, hdname⟩ := h.tree.lookupDentry_some hl
      have hentry := h.tree.entry parent d hd
      rw [hentry.unmounted] at hdel
      have hnode := walk_nodeAt hwalk
      rcases h.kinds d.inode hentry.live with ht | ht
      · rw [ht] at hdel
        refine hrefused (fun i hi => ?_) hdel
        rw [hnode, if_pos ht] at hi
        cases hi
      · rw [ht] at hdel
        replace hdel : w.memfsDeleteFile f p.chars = (0, deletedFile w f parent d) := hdel
        have g := deletedFile_shrunk h.tree hd
        have hleaf := h.leaf (i := d.inode) (by rw [ht]; simp)
        have h' := h.tree.shrink g hd hleaf
        have hdir := h.tree.idle parent (List.ne_nil_of_mem hd)
        have hwalks : ∀ q, walk (deletedFile w f parent d) ((deletedFile w f parent d).root f) q =
            if q = components slash dir ++ [name] then none else walk w (w.root f) q := by
          intro q
          rw [g.root]
          have hthrough := g.walk_through h.tree h' hd hdname hleaf (w.root f) q
          split
          · rename_i hq
            exact hthrough.1 ⟨_, hq, hp⟩
          · rename_i hq
            refine hthrough.2 ?_
            rintro ⟨q', rfl, hq'⟩
            exact hq (by rw [h.unique q' _ parent hq' hp hdir.2])
        have hsub : ∀ q i, walk (deletedFile w f parent d) ((deletedFile w f parent d).root f) q =
            some i → walk w (w.root f) q = some i := by
          intro q i hq
          rw [hwalks] at hq
          split at hq
          · cases hq
          · exact hq
        have hlive : ∀ i, (deletedFile w f parent d).live i → w.live i := by
          intro i hi
          rw [g.live] at hi
          split at hi
          · cases hi
          · exact hi
        constructor
        · rw [hstep, hdel]
          refine ⟨h', ?_, ?_, ?_⟩
          · intro q q' i hq hq' hi
            exact h.unique q q' i (hsub q i hq) (hsub q' i hq') (g.type i ▸ hi)
          · intro i hi
            rw [g.type]
            exact h.kinds i (hlive i hi)
          · intro i hi hfile
            obtain ⟨htype, hsize, hcont⟩ := body_eq (body_deletedFile w f parent d i hi)
            rw [hcont, hsize]
            exact h.sized i (hlive i hi) (htype ▸ hfile)
        · rw [hstep, hdel, opOf, hnames]
          refine ⟨s.bind (components slash dir ++ [name]) none, .deleted (i := d.inode) ?_, ?_, ?_⟩
          · rw [hs.nodes, hnode, ht]
            rfl
          · intro q
            rw [nodeAt, hwalks]
            by_cases hq : q = components slash dir ++ [name]
            · rw [if_pos hq, hq]
              exact bind_same
            · rw [if_neg hq, bind_ne hq, hs.nodes, nodeAt]
              simp only [g.type]
          · intro q i hq
            obtain ⟨hw, hfile⟩ := nodeAt_file hq
            have hold : nodeAt w f q = some (.file i) := by
              rw [walk_nodeAt (hsub q i hw), if_neg (fun hh => hfile ((g.type i).trans hh))]
            have hb := body_deletedFile w f parent d i (h'.walk_live hw)
            rw [(body_eq hb).2.2]
            exact hs.texts q i hold

end Deleting

end HouseOS.Memfs
