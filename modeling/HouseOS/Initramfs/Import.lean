import HouseOS.Initramfs.Archive
import HouseOS.Memfs.SharedBytes

namespace HouseOS.Memfs

open HouseOS.Components
open HouseOS.SharedStore
open HouseOS.Vfs (Path slash)
open World

variable {w : World} {f : Nat} {s : Store Path Nat UInt8}

theorem newDir_gains (h : Files w f) {parent : Nat} {ns : List Path} {name : Path}
    (hp : walk w (w.root f) ns = some parent) (hdir : w.IsDir parent) (hname : NameOk name)
    (hl : w.lookupDentry parent name = none) {w' : World}
    (hw' : (w.newNode f parent name fun n => { n with type := .dir, parent := some parent }).2 = w') :
    Files w' f ∧ Gains w w' f (ns ++ [name]) w.nextInode ∧ (w'.inode w.nextInode).type = .dir := by
  have hf : Fills fun n => { n with type := .dir, parent := some parent } :=
    ⟨fun _ => rfl, fun _ => rfl, fun _ => rfl, fun _ => rfl⟩
  have g := newNode_grown h.tree hdir hname.short hf
  have h' := tree_newNode h.tree hdir hname hl hf
  have hb := body_newNode f parent (fun n => { n with type := .dir, parent := some parent }) h.tree
    hname.short
  rw [hw'] at g h' hb
  have hlt := h.tree.below parent hdir.1
  have hleaf : w'.entries w.nextInode = [] := by
    rw [g.entries, if_neg (by omega), h.tree.entries_fresh le_rfl]
  have hnew : (w'.inode w.nextInode).type = .dir := by
    have hbody := hb w.nextInode
    rw [if_pos rfl] at hbody
    exact (body_eq hbody).1
  have gains := gains_of_grown h h' g hp hdir hl hleaf (by
    intro i hi
    have := h.tree.below i hi
    rw [hb, if_neg (by omega)])
  exact ⟨h.gains h' gains (Or.inl ⟨hnew, fun hi => absurd (h.tree.below _ hi) (lt_irrefl _)⟩), gains, hnew⟩

theorem memfsCreateDir_eq (w : World) (f : Nat) (p : LocalPath) : w.memfsCreateDir f p.chars =
    match w.splitParent f p.chars with
    | (none, w) => (none, w)
    | (some (name, owner, parent), w) =>
        match w.lookupDentry parent name with
        | some existing =>
            match existing.mountedFs with
            | some m => (some (w.root m), w)
            | none =>
                if (w.inode existing.inode).type = .dir then (some existing.inode, w) else (none, w)
        | none => w.newNode owner parent name
            (fun n => { n with type := .dir, parent := some parent }) :=
  if_neg (not_not.mpr p.absolute)

theorem createDir_makes (h : Files w f) (hs : Shows w f s) (p : LocalPath) (hcan : Canonical p)
    (hfree : ¬ s.Barred (names p)) :
    Files (w.memfsCreateDir f p.chars).2 f ∧
      Shows (w.memfsCreateDir f p.chars).2 f (s.makeDirs (names p)) := by
  obtain ⟨dir, name, hsplit, hname, hnames⟩ := p.parts hcan
  rw [hnames] at hfree ⊢
  have hopen : blocked w (w.root f) (components slash dir) = false := by
    rw [← Bool.not_eq_true]
    exact fun hb => hfree ((hs.barred_iff h (components slash dir) name).mpr hb)
  obtain ⟨w₁, parent, hsp, m⟩ := (splitParent_makes h p hsplit).2 hopen
  have hs₁ := m.shows h hs
  have hcreate := memfsCreateDir_eq w f p
  rw [hsp] at hcreate
  cases hl : w₁.lookupDentry parent name with
  | some d =>
    have htaken := m.parent_taken hl
    have hmnt : d.mountedFs = none :=
      (m.files.tree.entry _ _ (m.files.tree.lookupDentry_some hl).1).unmounted
    have hres : (w.memfsCreateDir f p.chars).2 = w₁ := by
      rw [hcreate]
      simp only [hl, hmnt]
      split <;> rfl
    obtain ⟨hsame, heq⟩ := m.shows_existing h hs (by rw [htaken]; simp)
    have hall : ∀ q, q <+: components slash dir ++ [name] → s.node q ≠ none := by
      intro q hq
      rw [hsame.nodes]
      refine nodeAt_prefix hq ?_
      rw [htaken]
      simp
    rw [hres, makeDirs_of_node hall]
    exact ⟨m.files, hsame⟩
  | none =>
    have hnew : s.node (components slash dir ++ [name]) = none := by
      rw [hs.nodes, ← m.parent_free hl, m.nodes, if_neg fun hh => not_prefix_snoc hh.1]
    have hres : (w.memfsCreateDir f p.chars).2 =
        (w₁.newNode f parent name fun n => { n with type := .dir, parent := some parent }).2 := by
      rw [hcreate]
      simp only [hl]
    obtain ⟨hfiles, g, htype⟩ := newDir_gains m.files m.at_ m.isDir hname hl hres.symm
    refine ⟨hfiles, fun q => ?_, fun q i hq => ?_⟩
    · rw [g.node m.files.tree, if_pos htype, makeDirs_concat hnew, hs₁.nodes]
    · rw [g.node m.files.tree, if_pos htype] at hq
      split at hq
      · cases hq
      · have hlive := m.files.tree.walk_live (nodeAt_file hq).1
        rw [(body_eq (g.bodies i hlive)).2.2]
        exact hs₁.texts q i hq

end HouseOS.Memfs

namespace HouseOS.Initramfs

open HouseOS.ByteMem (Mem BytesAt)
open HouseOS.CanonicalPath
open HouseOS.Components
open HouseOS.SharedStore
open HouseOS.Memfs
open HouseOS.Vfs (Path slash)

inductive Kind where
  | dir
  | file (text : List UInt8)
  | nothing
  deriving DecidableEq

namespace Entry

variable (e : Entry)

def comps : List Path := kept e.name

def type : Nat := e.mode &&& fileTypeMask

def kind : Kind :=
  if skipped e.path then .nothing
  else if e.type = typeDir then .dir
  else if e.type = typeReg then .file e.data
  else if e.type = typeLnk ∧ e.data.length < 255 then .file (e.data.takeWhile (· ≠ 0))
  else .nothing

structure Plain : Prop where
  notFifo : e.type ≠ typeFifo
  notSock : e.type ≠ typeSock
  target : e.type = typeLnk → e.data.takeWhile (· ≠ 0) ≠ []

end Entry

def Apart (d e : Entry) : Prop :=
  (∀ t, d.kind = .file t → e.kind ≠ .nothing → ¬ d.comps <+: e.comps) ∧
    ∀ t, e.kind = .file t → d.kind ≠ .nothing → ¬ e.comps <+: d.comps

def Dirs (es : List Entry) (p : List Path) : Prop :=
  p = [] ∨ ∃ e ∈ es, e.kind ≠ .nothing ∧ p <+: e.comps ∧ (p = e.comps → e.kind = .dir)

structure Unpacked (es : List Entry) (s : Store Path Nat UInt8) : Prop where
  dirs : ∀ p, s.node p = some .dir ↔ Dirs es p
  texts : ∀ p t, s.text p = some t ↔ ∃ e ∈ es, e.kind = .file t ∧ e.comps = p

section Unpacking

variable {es : List Entry} {e : Entry} {s : Store Path Nat UInt8} {p : List Path} {t : List UInt8}

theorem Dirs.concat : Dirs (es ++ [e]) p ↔
    Dirs es p ∨ e.kind ≠ .nothing ∧ p <+: e.comps ∧ (p = e.comps → e.kind = .dir) := by
  simp only [Dirs, List.mem_append, List.mem_singleton, or_and_right, exists_or, exists_eq_left, or_assoc]

theorem Unpacked.file_above (h : Unpacked es s) {i : Nat} (hp : s.node p = some (.file i)) :
    ∃ d ∈ es, ∃ u, d.kind = .file u ∧ d.comps = p := by
  obtain ⟨d, hd, hkind, hcomps⟩ := (h.texts p _).mp (exists_text hp)
  exact ⟨d, hd, _, hkind, hcomps⟩

theorem Unpacked.no_file (h : Unpacked es s) (hapart : ∀ d ∈ es, Apart d e) (he : e.kind ≠ .nothing)
    (hp : p <+: e.comps) (i : Nat) : s.node p ≠ some (.file i) := by
  intro hi
  obtain ⟨d, hd, u, hkind, hcomps⟩ := h.file_above hi
  exact (hapart d hd).1 u hkind he (hcomps ▸ hp)

theorem Unpacked.open (h : Unpacked es s) (hapart : ∀ d ∈ es, Apart d e) (he : e.kind ≠ .nothing) :
    ¬ s.Barred e.comps := by
  rintro ⟨q, i, hq, -, hi⟩
  exact h.no_file hapart he hq i hi

theorem Unpacked.fresh (h : Unpacked es s) (hapart : ∀ d ∈ es, Apart d e) (he : e.kind = .file t)
    (hne : e.comps ≠ []) : s.node e.comps = none := by
  have hkind : e.kind ≠ .nothing := by
    rw [he]
    simp
  cases hnode : s.node e.comps with
  | none => rfl
  | some n =>
    cases n with
    | file i => exact absurd hnode (h.no_file hapart hkind List.prefix_rfl i)
    | dir =>
      rcases (h.dirs _).mp hnode with hroot | ⟨d, hd, hk, hpre, -⟩
      · exact absurd hroot hne
      · exact absurd hpre ((hapart d hd).2 t he hk)

theorem Unpacked.nothing (h : Unpacked es s) (he : e.kind = .nothing) : Unpacked (es ++ [e]) s where
  dirs p := by
    rw [h.dirs, Dirs.concat]
    exact ⟨Or.inl, fun hh => hh.resolve_right fun hno => hno.1 he⟩
  texts p t := by
    rw [h.texts]
    simp [he]

theorem Unpacked.dir (h : Unpacked es s) (hapart : ∀ d ∈ es, Apart d e) (he : e.kind = .dir) :
    Unpacked (es ++ [e]) (s.makeDirs e.comps) where
  dirs p := by
    have hkind : e.kind ≠ .nothing := by
      rw [he]
      simp
    rw [makeDirs_dir, Dirs.concat, ← h.dirs]
    constructor
    · rintro (⟨hp, -⟩ | hold)
      · exact Or.inr ⟨hkind, hp, fun _ => he⟩
      · exact Or.inl hold
    · rintro (hold | ⟨-, hp, -⟩)
      · exact Or.inr hold
      · cases hnode : s.node p with
        | none => exact Or.inl ⟨hp, rfl⟩
        | some n =>
          cases n with
          | dir => exact Or.inr rfl
          | file i => exact absurd hnode (h.no_file hapart hkind hp i)
  texts p t := by
    rw [text_makeDirs, h.texts]
    simp [he]

variable {i : Nat} {r : Store Path Nat UInt8}

structure Wrote (s r : Store Path Nat UInt8) (p : List Path) (i : Nat) (t : List UInt8) : Prop where
  nodes : ∀ q, r.node q = (s.enter p i).node q
  here : r.content i = t
  others : ∀ j, j ≠ i → r.content j = s.content j

theorem Wrote.text (h : Wrote s r p i t) (hnew : s.Unused i) (q : List Path) :
    r.text q = if q = p then some t else s.text q := by
  have hnode := h.nodes q
  split
  next heq =>
    rw [heq, Store.enter, bind_same] at hnode
    rw [heq, exists_text hnode, h.here]
  next hne =>
    rw [Store.enter, bind_ne hne] at hnode
    rw [← text_makeDirs (s := s) (p := p.dropLast), Store.text, hnode, Store.text]
    cases hq : (s.makeDirs p.dropLast).node q with
    | none => rfl
    | some n =>
      cases n with
      | dir => rfl
      | file j =>
        have hj : j ≠ i := by
          rintro rfl
          refine hnew q ?_
          by_cases hmade : q <+: p.dropLast ∧ s.node q = none
          · rw [makeDirs_new hmade.1 hmade.2] at hq
            cases hq
          · rwa [makeDirs_old fun hpre hnone => hmade ⟨hpre, hnone⟩] at hq
        exact congrArg some (h.others j hj)

theorem Unpacked.file (h : Unpacked es s) (hapart : ∀ d ∈ es, Apart d e) (he : e.kind = .file t)
    (hne : e.comps ≠ []) (hnew : s.Unused i) (hr : Wrote s r e.comps i t) :
    Unpacked (es ++ [e]) r where
  dirs q := by
    have hkind : e.kind ≠ .nothing := by
      rw [he]
      simp
    have hfile : e.kind ≠ .dir := by
      rw [he]
      simp
    have hfresh := h.fresh hapart he hne
    have hpre : q <+: e.comps.dropLast ↔ q <+: e.comps ∧ q ≠ e.comps := by
      have hsplit := proper_prefix_snoc (p := e.comps.dropLast) (q := q) (e.comps.getLast hne)
      rw [List.dropLast_concat_getLast hne] at hsplit
      exact hsplit.symm
    rw [hr.nodes, Dirs.concat, ← h.dirs, Store.enter]
    by_cases hq : q = e.comps
    · rw [hq, bind_same, hfresh]
      refine ⟨fun hno => (by cases hno), ?_⟩
      rintro (hno | ⟨-, -, hdir⟩)
      · cases hno
      · exact absurd (hdir rfl) hfile
    · rw [bind_ne hq, makeDirs_dir, hpre]
      constructor
      · rintro (⟨⟨hp, -⟩, -⟩ | hold)
        · exact Or.inr ⟨hkind, hp, fun heq => absurd heq hq⟩
        · exact Or.inl hold
      · rintro (hold | ⟨-, hp, -⟩)
        · exact Or.inr hold
        · cases hnode : s.node q with
          | none => exact Or.inl ⟨⟨hp, hq⟩, rfl⟩
          | some n =>
            cases n with
            | dir => exact Or.inr rfl
            | file j => exact absurd hnode (h.no_file hapart hkind hp j)
  texts q u := by
    rw [hr.text hnew]
    have hfresh := h.fresh hapart he hne
    by_cases hq : q = e.comps
    · subst hq
      rw [if_pos rfl]
      constructor
      · rintro ⟨⟩
        exact ⟨e, by simp, he, rfl⟩
      · rintro ⟨d, hd, hkind, hcomps⟩
        rcases List.mem_append.mp hd with hd | hd
        · have htext := (h.texts e.comps u).mpr ⟨d, hd, hkind, hcomps⟩
          rw [Store.text, hfresh] at htext
          cases htext
        · obtain rfl := List.mem_singleton.mp hd
          rw [he] at hkind
          cases hkind
          rfl
    · rw [if_neg hq, h.texts]
      simp only [List.mem_append, List.mem_singleton]
      constructor
      · rintro ⟨d, hd, hkind, hcomps⟩
        exact ⟨d, Or.inl hd, hkind, hcomps⟩
      · rintro ⟨d, hd | rfl, hkind, hcomps⟩
        · exact ⟨d, hd, hkind, hcomps⟩
        · exact absurd hcomps.symm hq

end Unpacking

section Importing

variable {w : World} {f n : Nat} {es : List Entry} {e : Entry} {t : List UInt8}

def Entry.localPath (e : Entry) : LocalPath :=
  ⟨e.path, (absolute_clean (areComponents_kept e.name)).absolute, length_absolute_kept e⟩

theorem names_localPath (e : Entry) : names e.localPath = e.comps :=
  components_absolute (areComponents_kept e.name)

theorem not_skipped (h : e.kind ≠ .nothing) : skipped e.path = false := by
  by_contra hskip
  exact h (if_pos (Bool.not_eq_false _ ▸ hskip))

theorem path_ne_root (h : e.kind ≠ .nothing) : e.path ≠ [slash] := by
  intro hroot
  have hskip := not_skipped h
  rw [hroot] at hskip
  exact absurd hskip (by decide)

theorem comps_ne_nil (h : e.kind ≠ .nothing) : e.comps ≠ [] := fun hnil =>
  path_ne_root h (by
    rw [Entry.path, ← Entry.comps, hnil]
    rfl)

theorem canonical_localPath (h : e.kind ≠ .nothing) : Canonical e.localPath :=
  (absolute_clean (areComponents_kept e.name)).bare.resolve_left (path_ne_root h)

theorem importEntry_node (h : skipped e.path = false) :
    (importEntry f (w, n) e).1 = (importNode w f e.mode e.path e.data).1 := by
  rw [importEntry, if_neg (by rw [h]; decide)]

theorem mode_type (e : Entry) : e.mode &&& fileTypeMask = e.type := rfl

theorem importEntry_nothing (hplain : e.Plain) (h : e.kind = .nothing) :
    (importEntry f (w, n) e).1 = w := by
  by_cases hskip : skipped e.path
  · rw [importEntry, if_pos hskip]
  rw [Entry.kind, if_neg hskip] at h
  rw [importEntry_node (Bool.not_eq_true _ ▸ hskip), importNode, mode_type]
  by_cases hdir : e.type = typeDir
  · rw [if_pos hdir] at h
    cases h
  by_cases hreg : e.type = typeReg
  · rw [if_neg hdir, if_pos hreg] at h
    cases h
  rw [if_neg hdir, if_neg hreg] at h
  rw [if_neg hdir, if_neg hplain.notFifo, if_neg hplain.notSock, if_neg hreg]
  by_cases hlnk : e.type = typeLnk
  · by_cases hshort : e.data.length < 255
    · rw [if_pos ⟨hlnk, hshort⟩] at h
      cases h
    · rw [if_pos hlnk, if_neg hshort]
  · rw [if_neg hlnk]

theorem importEntry_dir (h : e.kind = .dir) :
    (importEntry f (w, n) e).1 = (w.memfsCreateDir f e.path).2 := by
  have hskip := not_skipped (e := e) (by rw [h]; simp)
  rw [Entry.kind, if_neg (by rw [hskip]; decide)] at h
  rw [importEntry_node hskip, importNode, mode_type]
  by_cases hdir : e.type = typeDir
  · rw [if_pos hdir]
  · rw [if_neg hdir] at h
    split at h
    · cases h
    split at h
    · cases h
    · cases h

theorem importEntry_file (hplain : e.Plain) (h : e.kind = .file t) :
    (importEntry f (w, n) e).1 = if 0 < t.length then
        ((w.memfsCreateFile f e.path).2.memfsWrite f e.path t).2
      else (w.memfsCreateFile f e.path).2 := by
  have hskip := not_skipped (e := e) (by rw [h]; simp)
  rw [Entry.kind, if_neg (by rw [hskip]; decide)] at h
  rw [importEntry_node hskip, importNode, mode_type]
  by_cases hdir : e.type = typeDir
  · rw [if_pos hdir] at h
    cases h
  rw [if_neg hdir] at h
  by_cases hreg : e.type = typeReg
  · rw [if_pos hreg] at h
    cases h
    rw [if_neg hdir, if_neg hplain.notFifo, if_neg hplain.notSock, if_pos hreg]
  rw [if_neg hreg] at h
  by_cases hlnk : e.type = typeLnk ∧ e.data.length < 255
  · rw [if_pos hlnk] at h
    cases h
    rw [if_neg hdir, if_neg hplain.notFifo, if_neg hplain.notSock, if_neg hreg,
      if_pos hlnk.1, if_pos hlnk.2, if_pos (List.length_pos_iff.mpr (hplain.target hlnk.1))]
  · rw [if_neg hlnk] at h
    cases h

-- the filesystem after some entries, and the tree it stands for
structure Holding (w : World) (f : Nat) (es : List Entry) : Prop where
  files : Files w f
  shown : ∃ s, Shows w f s ∧ Unpacked es s

theorem Holding.create (h : Holding w f es) (hapart : ∀ d ∈ es, Apart d e) (he : e.kind = .file t) :
    ∃ s r i, Unpacked es s ∧ s.Unused i ∧ Wrote s r e.comps i [] ∧
      r.node e.comps = some (.file i) ∧ Files (w.memfsCreateFile f e.path).2 f ∧
        Shows (w.memfsCreateFile f e.path).2 f r := by
  have hkind : e.kind ≠ .nothing := by
    rw [he]
    simp
  obtain ⟨s, hs, hun⟩ := h.shown
  obtain ⟨hfiles, r, hdoes, hr⟩ := create_answers h.files hs e.localPath (canonical_localPath hkind)
  rw [opOf, names_localPath] at hdoes
  generalize (fileReply f w (.create e.localPath)).1 = reply at hdoes
  have hfresh := hun.fresh hapart he (comps_ne_nil hkind)
  cases hdoes with
  | created hopen hno hid =>
    have hwrote {j : Nat} : Wrote s ((s.enter e.comps j).set j []) e.comps j [] :=
      ⟨fun _ => rfl, set_same, fun k hk => set_ne hk⟩
    have hnode {j : Nat} : ((s.enter e.comps j).set j []).node e.comps = some (.file j) := bind_same
    exact ⟨s, _, _, hun, hid, hwrote, hnode, hfiles, hr⟩
  | createdBefore hold =>
    rw [hfresh] at hold
    cases hold
  | createRefused hbad =>
    rcases hbad with hbar | hdir
    · exact absurd hbar (hun.open hapart hkind)
    · rw [hfresh] at hdir
      cases hdir

theorem Holding.import_ (h : Holding w f es) (hplain : e.Plain) (hapart : ∀ d ∈ es, Apart d e) :
    Holding (importEntry f (w, n) e).1 f (es ++ [e]) := by
  cases hkind : e.kind with
  | nothing =>
    obtain ⟨s, hs, hun⟩ := h.shown
    rw [importEntry_nothing hplain hkind]
    exact ⟨h.files, s, hs, hun.nothing hkind⟩
  | dir =>
    have hsome : e.kind ≠ .nothing := by
      rw [hkind]
      simp
    obtain ⟨s, hs, hun⟩ := h.shown
    obtain ⟨hfiles, hshows⟩ := createDir_makes h.files hs e.localPath (canonical_localPath hsome)
      (by rw [names_localPath]; exact hun.open hapart hsome)
    rw [names_localPath] at hshows
    rw [importEntry_dir hkind]
    exact ⟨hfiles, _, hshows, hun.dir hapart hkind⟩
  | file t =>
    have hsome : e.kind ≠ .nothing := by
      rw [hkind]
      simp
    have hne := comps_ne_nil hsome
    obtain ⟨s, r, i, hun, hid, hwrote, hnode, hfiles, hr⟩ := h.create hapart hkind
    rw [importEntry_file hplain hkind]
    split
    next hpos =>
      obtain ⟨hfiles', u, hdoes, hu⟩ :=
        write_answers hfiles hr e.localPath (List.length_pos_iff.mp hpos)
      rw [opOf, names_localPath] at hdoes
      generalize (fileReply f (w.memfsCreateFile f e.path).2 (.write e.localPath t)).1 = reply at hdoes
      cases hdoes with
      | wrote _ hold =>
        rw [hnode] at hold
        cases hold
        refine ⟨hfiles', _, hu, hun.file hapart hkind hne hid ⟨hwrote.nodes, set_same, ?_⟩⟩
        intro j hj
        rw [set_ne hj, hwrote.others j hj]
      | writeRefused _ hbad =>
        rw [exists_text hnode] at hbad
        cases hbad
    next hzero =>
      obtain rfl : t = [] := List.eq_nil_of_length_eq_zero (by omega)
      exact ⟨hfiles, r, hr, hun.file hapart hkind hne hid hwrote⟩

theorem Holding.imports (hplain : ∀ e ∈ es, e.Plain) : ∀ (done : List Entry) {w : World} {n : Nat},
    Holding w f done → (done ++ es).Pairwise Apart →
      Holding (es.foldl (importEntry f) (w, n)).1 f (done ++ es) := by
  induction es with
  | nil =>
    intro done w n h _
    rwa [List.append_nil]
  | cons e es ih =>
    intro done w n h hapart
    have hassoc : done ++ e :: es = (done ++ [e]) ++ es := by simp
    have hhere : ∀ d ∈ done, Apart d e := fun d hd =>
      (List.pairwise_append.mp hapart).2.2 d hd e List.mem_cons_self
    rw [hassoc] at hapart ⊢
    exact ih (fun d hd => hplain d (List.mem_cons_of_mem e hd)) (done ++ [e])
      (h.import_ (n := n) (hplain e List.mem_cons_self) hhere) hapart

theorem holding_start {atNull : Path} {size : Nat}
    (hc : (blankWorld atNull).memfsCreate size = (some f, w)) : Holding w f [] := by
  have o := memfsCreate_onlyRoot hc
  refine ⟨o.files, emptyStore, o.shows, fun p => ?_, fun p t => ?_⟩
  · have hnode : emptyStore.node p = if p = [] then some .dir else none := rfl
    have hdirs : Dirs [] p ↔ p = [] := by simp [Dirs]
    rw [hnode, hdirs]
    split
    next heq => exact ⟨fun _ => heq, fun _ => rfl⟩
    next hne => exact ⟨fun hno => (by cases hno), fun heq => absurd heq hne⟩
  · have hnone : emptyStore.text p = none := text_eq_none.mpr fun i hi => by
      have hnode : emptyStore.node p = if p = [] then some .dir else none := rfl
      rw [hnode] at hi
      split at hi
      · cases hi
      · cases hi
    rw [hnone]
    simp

structure Carries (w : World) (f : Nat) (es : List Entry) : Prop where
  reads : ∀ (p : LocalPath) (size : Nat) (out : List UInt8),
    (w.memfsRead f p.chars size).1 = some out ↔
      ∃ e ∈ es, ∃ t, e.kind = .file t ∧ e.comps = names p ∧ out = t.take size
  dirs : ∀ p, nodeAt w f p = some .dir ↔ Dirs es p

theorem Holding.carries (h : Holding w f es) : Carries w f es := by
  obtain ⟨s, hs, hun⟩ := h.shown
  refine ⟨fun p size out => ?_, fun p => by rw [← hs.nodes, hun.dirs]⟩
  have hreads : (w.memfsRead f p.chars size).1 = (s.text (names p)).map fun t => t.take size := by
    obtain ⟨-, r, hdoes, -⟩ := read_answers h.files hs p size
    have hreply : (fileReply f w (.read p size)).1 = .bytes (w.memfsRead f p.chars size).1 := rfl
    rw [hreply, opOf] at hdoes
    generalize (w.memfsRead f p.chars size).1 = out at hdoes
    cases hdoes
    rfl
  rw [hreads, Option.map_eq_some_iff]
  constructor
  · rintro ⟨t, ht, rfl⟩
    obtain ⟨e, he, hkind, hcomps⟩ := (hun.texts _ _).mp ht
    exact ⟨e, he, t, hkind, hcomps, rfl⟩
  · rintro ⟨e, he, t, hkind, hcomps, rfl⟩
    exact ⟨t, (hun.texts _ _).mpr ⟨e, he, hkind, hcomps⟩, rfl⟩

end Importing

theorem initramfs_is_unpacked (atNull : Path) (size : Nat) {f : Nat} {w₀ : World}
    (hc : (blankWorld atNull).memfsCreate size = (some f, w₀)) (m : Mem) (abs : Nat → Buffer)
    (es : List Entry) (trailer : Entry) (htrailer : trailer.name = trailerName)
    (hnames : ∀ e ∈ es, e.name ≠ trailerName)
    (hat : BytesAt m (initramfsGetArchiveAddr m) (archive (es ++ [trailer])))
    (hroom : initramfsGetArchiveAddr m + (archive (es ++ [trailer])).length ≤ 2 ^ 32)
    (hplain : ∀ e ∈ es, e.Plain) (hapart : es.Pairwise Apart) (fuel : Nat)
    (hfuel : es.length < fuel) :
    ∃ w n, initramfsInit m abs f fuel w₀ = some (w, n) ∧ Carries w f es :=
  ⟨_, _, importLoop_archive es htrailer hnames hat hroom hfuel,
    (Holding.imports hplain [] (holding_start hc) hapart).carries⟩

theorem plain_binDir : binDir.Plain := ⟨by decide, by decide, by decide⟩

theorem plain_binA : binA.Plain := ⟨by decide, by decide, by decide⟩

theorem apart_bin : Apart binDir binA := by
  have hdir : binDir.kind = .dir := by decide
  refine ⟨fun t ht => ?_, fun _ _ _ => by decide⟩
  rw [hdir] at ht
  cases ht

theorem initramfs_is_unpacked_bin :
    ∃ w n, initramfsInit archiveMemory (fun _ _ => 170) 0 3 ((blankWorld []).memfsCreate 4096).2 =
      some (w, n) ∧ Carries w 0 [binDir, binA] :=
  initramfs_is_unpacked [] 4096 rfl archiveMemory (fun _ _ => 170) [binDir, binA] trailing rfl (by decide)
    (archiveMemory_addr ▸ archiveMemory_bytes) (archiveMemory_addr ▸ archiveMemory_room)
    (by
      intro e he
      rcases List.mem_pair.mp he with rfl | rfl
      · exact plain_binDir
      · exact plain_binA)
    (List.pairwise_pair.mpr apart_bin) 3 (by decide)

end HouseOS.Initramfs
