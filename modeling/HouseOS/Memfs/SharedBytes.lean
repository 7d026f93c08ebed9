import HouseOS.Memfs.ContentModel

namespace HouseOS.Memfs

open HouseOS.Components
open HouseOS.SharedStore
open HouseOS.Vfs (Path slash NodeType pathCap)
open World

variable {w w' : World} {f : Nat} {s : Store Path Nat UInt8}

section Bytes

theorem Alike.walk (g : Alike w w' f) (h : Tree w f) (p : List Path) :
    ∀ cur, walk w' cur p = walk w cur p := by
  induction p with
  | nil => exact fun cur => rfl
  | cons name p ih =>
    intro cur
    rw [Memfs.walk, Memfs.walk, (h.alike g).lookup_eq_find, h.lookup_eq_find, g.entries]
    cases (w.entries cur).find? (fun d => decide (d.name = some name)) with
    | none => rfl
    | some d => exact ih d.inode

structure Rewrites (w w' : World) (f i : Nat) (buf : List UInt8) : Prop where
  alike : Alike w w' f
  same : contents (w'.inode i) = buf
  size : (w'.inode i).size = buf.length
  rest : ∀ j, j ≠ i → contents (w'.inode j) = contents (w.inode j) ∧
    (w'.inode j).size = (w.inode j).size

theorem Rewrites.nodes {i : Nat} {buf : List UInt8} (r : Rewrites w w' f i buf) (h : Tree w f)
    (p : List Path) :
    nodeAt w' f p = nodeAt w f p := by
  rw [nodeAt, nodeAt, r.alike.root, r.alike.walk h]
  simp only [r.alike.type]

theorem Rewrites.files {i : Nat} {buf : List UInt8} (r : Rewrites w w' f i buf) (h : Files w f) :
    Files w' f where
  tree := h.tree.alike r.alike
  unique p q j hp hq hj := by
    rw [r.alike.root, r.alike.walk h.tree] at hp hq
    exact h.unique p q j hp hq (r.alike.type j ▸ hj)
  kinds j hj := by
    rw [r.alike.type]
    exact h.kinds j (r.alike.live ▸ hj)
  sized j hj ht := by
    by_cases hji : j = i
    · rw [hji, r.same, r.size]
    · obtain ⟨hcont, hsize⟩ := r.rest j hji
      rw [hcont, hsize]
      exact h.sized j (r.alike.live ▸ hj) (r.alike.type j ▸ ht)

theorem Rewrites.shows {i : Nat} {buf : List UInt8} (r : Rewrites w w' f i buf) (h : Files w f)
    (hs : Shows w f s) : Shows w' f (s.set i buf) where
  nodes p := by
    rw [r.nodes h.tree]
    exact hs.nodes p
  texts p j hj := by
    rw [r.nodes h.tree] at hj
    by_cases hji : j = i
    · rw [hji, r.same]
      exact set_same
    · rw [(r.rest j hji).1, ← hs.texts p j hj]
      exact set_ne hji

theorem granted (h : Tree w f) {buf : List UInt8} {n : Nat} (hbuf : buf ≠ []) :
    w.valloc (n + buf.length) = (true, { w with allocs := w.allocs + 1 }) := by
  have hlen := List.length_pos_iff.mpr hbuf
  exact valloc_granted h.granted (by omega)

theorem write_rewrites (h : Files w f) (p : LocalPath) {buf : List UInt8} (hbuf : buf ≠ []) {i : Nat}
    (hw : walk w (w.root f) (names p) = some i) (ht : (w.inode i).type = .file) :
    (w.memfsWrite f p.chars buf).1 = buf.length ∧
      Rewrites w (w.memfsWrite f p.chars buf).2 f i buf := by
  have halike := alike_write w f f p.chars buf
  have hd := alike_dropData w f f i
  have hgrant := granted (h.tree.alike hd) (n := 0) hbuf
  rw [Nat.zero_add] at hgrant
  have hres : w.memfsWrite f p.chars buf = ((buf.length : Int),
      (({ w.dropData f i with allocs := (w.dropData f i).allocs + 1 } : World).setInode i
        { (w.dropData f i).inode i with data := some buf, size := buf.length }).usedAdd f
          buf.length) := by
    simp only [World.memfsWrite, h.lookupEx, hw, Option.map_some, ht, hgrant]
    rfl
  rw [hres] at halike ⊢
  refine ⟨rfl, halike, ?_, ?_, ?_⟩
  · show contents (if i = i then _ else _) = buf
    rw [if_pos rfl, contents]
    exact List.take_length
  · show (if i = i then _ else _ : Inode).size = buf.length
    rw [if_pos rfl]
  · intro j hj
    have hbody := (body_dropData w f i j hj)
    obtain ⟨_, hsize, hcont⟩ := body_eq hbody
    have hother : ((({ w.dropData f i with allocs := (w.dropData f i).allocs + 1 } : World).setInode i
        { (w.dropData f i).inode i with data := some buf, size := buf.length }).usedAdd f
          buf.length).inode j = (w.dropData f i).inode j := if_neg hj
    rw [hother]
    exact ⟨hcont, hsize⟩

theorem append_rewrites (h : Files w f) (p : LocalPath) {buf : List UInt8} (hbuf : buf ≠ []) {i : Nat}
    (hw : walk w (w.root f) (names p) = some i) (ht : (w.inode i).type = .file) :
    (w.memfsAppend f p.chars buf).1 = buf.length ∧
      Rewrites w (w.memfsAppend f p.chars buf).2 f i (contents (w.inode i) ++ buf) := by
  have halike := alike_append w f f p.chars buf
  have hgrant := granted h.tree (n := (w.inode i).size) hbuf
  have hsized := h.sized i (h.tree.walk_live hw) ht
  have hres : w.memfsAppend f p.chars buf = ((buf.length : Int),
      (({ w with allocs := w.allocs + 1 } : World).setInode i
        { w.inode i with data := some (contents (w.inode i) ++ buf),
                         size := (w.inode i).size + buf.length }).usedAdd f buf.length) := by
    simp only [World.memfsAppend, h.lookupEx, hw, Option.map_some, ht, World.extend, hgrant]
    rfl
  rw [hres] at halike ⊢
  refine ⟨rfl, halike, ?_, ?_, ?_⟩
  · show contents (if i = i then _ else _) = _
    rw [if_pos rfl, contents]
    refine List.take_of_length_le ?_
    rw [List.length_append, hsized]
  · show (if i = i then _ else _ : Inode).size = _
    rw [if_pos rfl, List.length_append, hsized]
  · intro j hj
    have hother : ((({ w with allocs := w.allocs + 1 } : World).setInode i
        { w.inode i with data := some (contents (w.inode i) ++ buf),
                         size := (w.inode i).size + buf.length }).usedAdd f buf.length).inode j =
      w.inode j := if_neg hj
    rw [hother]
    exact ⟨rfl, rfl⟩

theorem nodeAt_cases (h : Files w f) (p : List Path) :
    (nodeAt w f p = none ∧ walk w (w.root f) p = none) ∨
      ∃ i, walk w (w.root f) p = some i ∧ w.live i ∧
        (nodeAt w f p = some .dir ∧ (w.inode i).type = .dir ∨
          nodeAt w f p = some (.file i) ∧ (w.inode i).type = .file) := by
  cases hw : walk w (w.root f) p with
  | none => exact Or.inl ⟨by rw [nodeAt, hw]; rfl, rfl⟩
  | some i =>
    have hlive := h.tree.walk_live hw
    refine Or.inr ⟨i, rfl, hlive, ?_⟩
    rw [walk_nodeAt hw]
    rcases h.kinds i hlive with ht | ht
    · exact Or.inl ⟨congrArg some (if_pos ht), ht⟩
    · exact Or.inr ⟨congrArg some (if_neg (by rw [ht]; simp)), ht⟩

theorem write_answers (h : Files w f) (hs : Shows w f s) (p : LocalPath) {buf : List UInt8}
    (hbuf : buf ≠ []) : Answers f w s (.write p buf) := by
  have hstep : fileReply f w (.write p buf) =
      (.code (w.memfsWrite f p.chars buf).1, (w.memfsWrite f p.chars buf).2) := rfl
  have hrefused : s.text (names p) = none → w.memfsWrite f p.chars buf = (-1, w) →
      Answers f w s (.write p buf) := by
    intro hnone hres
    exact ⟨by rw [hstep, hres]; exact h, s, by rw [hstep, hres]; exact .writeRefused buf hnone,
      by rw [hstep, hres]; exact hs⟩
  rcases nodeAt_cases h (names p) with ⟨hnode, hw⟩ | ⟨i, hw, _, ⟨hnode, ht⟩ | ⟨hnode, ht⟩⟩
  · refine hrefused (text_eq_none.mpr (fun i => by rw [hs.nodes, hnode]; simp)) ?_
    simp only [World.memfsWrite, h.lookupEx, hw, Option.map_none]
  · refine hrefused (text_eq_none.mpr (fun i => by rw [hs.nodes, hnode]; simp)) ?_
    simp only [World.memfsWrite, h.lookupEx, hw, Option.map_some, ht]
    rfl
  · obtain ⟨hcode, r⟩ := write_rewrites h p hbuf hw ht
    refine ⟨r.files h, s.set i buf, ?_, r.shows h hs⟩
    rw [hstep, hcode]
    exact .wrote buf (by rw [hs.nodes, hnode])

theorem append_answers (h : Files w f) (hs : Shows w f s) (p : LocalPath) {buf : List UInt8}
    (hbuf : buf ≠ []) : Answers f w s (.append p buf) := by
  have hstep : fileReply f w (.append p buf) =
      (.code (w.memfsAppend f p.chars buf).1, (w.memfsAppend f p.chars buf).2) := rfl
  have hrefused : s.text (names p) = none → w.memfsAppend f p.chars buf = (-1, w) →
      Answers f w s (.append p buf) := by
    intro hnone hres
    exact ⟨by rw [hstep, hres]; exact h, s, by rw [hstep, hres]; exact .appendRefused buf hnone,
      by rw [hstep, hres]; exact hs⟩
  rcases nodeAt_cases h (names p) with ⟨hnode, hw⟩ | ⟨i, hw, _, ⟨hnode, ht⟩ | ⟨hnode, ht⟩⟩
  · refine hrefused (text_eq_none.mpr (fun i => by rw [hs.nodes, hnode]; simp)) ?_
    simp only [World.memfsAppend, h.lookupEx, hw, Option.map_none]
  · refine hrefused (text_eq_none.mpr (fun i => by rw [hs.nodes, hnode]; simp)) ?_
    simp only [World.memfsAppend, h.lookupEx, hw, Option.map_some, ht]
    rfl
  · obtain ⟨hcode, r⟩ := append_rewrites h p hbuf hw ht
    have hshows := r.shows h hs
    rw [← hs.texts _ i hnode] at hshows
    refine ⟨r.files h, _, ?_, hshows⟩
    rw [hstep, hcode]
    exact .appended buf (by rw [hs.nodes, hnode])

theorem read_answers (h : Files w f) (hs : Shows w f s) (p : LocalPath) (size : Nat) :
    Answers f w s (.read p size) := by
  have hstep : fileReply f w (.read p size) =
      (.bytes (w.memfsRead f p.chars size).1, (w.memfsRead f p.chars size).2) := rfl
  have hgave : w.memfsRead f p.chars size =
      ((s.text (names p)).map (fun t => t.take size), w) → Answers f w s (.read p size) := by
    intro hres
    exact ⟨by rw [hstep, hres]; exact h, s, by rw [hstep, hres]; exact .gave (names p) size,
      by rw [hstep, hres]; exact hs⟩
  rcases nodeAt_cases h (names p) with ⟨hnode, hw⟩ | ⟨i, hw, hlive, ⟨hnode, ht⟩ | ⟨hnode, ht⟩⟩
  · refine hgave ?_
    rw [text_eq_none.mpr (fun i => by rw [hs.nodes, hnode]; simp)]
    simp only [World.memfsRead, h.lookupEx, hw, Option.map_none]
  · refine hgave ?_
    rw [text_eq_none.mpr (fun i => by rw [hs.nodes, hnode]; simp)]
    simp only [World.memfsRead, h.lookupEx, hw, Option.map_some, ht]
    rfl
  · refine hgave ?_
    have htext : s.text (names p) = some (contents (w.inode i)) := by
      rw [Store.text, hs.nodes, hnode]
      exact congrArg some (hs.texts _ i hnode)
    have hread : w.memfsRead f p.chars size =
        (some (((w.inode i).data.getD []).take (min size (w.inode i).size)), w) := by
      simp only [World.memfsRead, h.lookupEx, hw, Option.map_some, ht]
      rfl
    rw [htext, hread, contents]
    cases (w.inode i).data with
    | none => simp
    | some data => simp [List.take_take]

end Bytes

section Model

theorem file_answers (h : Files w f) (hs : Shows w f s) (e : FileEvent) (ha : Allowed f w e) :
    Answers f w s e := by
  cases e with
  | create p => exact create_answers h hs p ha
  | write p buf => exact write_answers h hs p ha.2
  | append p buf => exact append_answers h hs p ha.2
  | link old new => exact link_answers h hs old new ha.2.1 ha.2.2
  | delete p => exact delete_answers h hs p ha
  | read p size => exact read_answers h hs p size

def fileStep (f : Nat) (w : World) (e : FileEvent) : Option World := some (fileReply f w e).2

def transcript (f : Nat) : World → List FileEvent → List (Op Path UInt8 × Reply UInt8)
  | _, [] => []
  | w, e :: es => (opOf e, (fileReply f w e).1) :: transcript f (fileReply f w e).2 es

theorem transcript_runs (es : List FileEvent) :
    ∀ (w : World) (s : Store Path Nat UInt8), Files w f → Shows w f s →
      Run.Along (fileStep f) (Allowed f) w es → Run.run (fileStep f) w es = some w' →
        ∃ t, Runs s (transcript f w es) t ∧ Files w' f ∧ Shows w' f t := by
  induction es with
  | nil =>
    intro w s h hs _ hrun
    cases hrun
    exact ⟨s, .done s, h, hs⟩
  | cons e es ih =>
    intro w s h hs ha hrun
    obtain ⟨hfiles, u, hdo, hu⟩ := file_answers h hs e ha.1
    obtain ⟨t, hruns, hres⟩ := ih _ u hfiles hu (ha.2 _ rfl) hrun
    exact ⟨t, .next hdo hruns, hres⟩

noncomputable def emptyStore : Store Path Nat UInt8 :=
  { node := fun p => if p = [] then some .dir else none, content := fun _ => [] }

theorem OnlyRoot.walk_none (o : OnlyRoot w f) (name : Path) (p : List Path) (cur : Nat) :
    walk w cur (name :: p) = none := by
  rw [walk, lookupDentry_leaf (o.entries cur)]

theorem OnlyRoot.files (o : OnlyRoot w f) : Files w f where
  tree := o.tree
  unique p q i hp hq _ := by
    cases p with
    | cons name p =>
      rw [o.walk_none] at hp
      cases hp
    | nil =>
      cases q with
      | nil => rfl
      | cons name q =>
        rw [o.walk_none] at hq
        cases hq
  kinds i hi := by
    rw [(o.live i).mp hi, o.node]
    exact Or.inl rfl
  sized i hi ht := by
    rw [(o.live i).mp hi, o.node] at ht
    cases ht

theorem OnlyRoot.shows (o : OnlyRoot w f) : Shows w f emptyStore where
  nodes p := by
    cases p with
    | nil => rw [walk_nodeAt (i := w.root f) rfl, if_pos o.tree.root.2]; rfl
    | cons name p =>
      rw [nodeAt, o.walk_none, emptyStore]
      rfl
  texts p i hi := by
    cases p with
    | nil =>
      obtain ⟨hw, ht⟩ := nodeAt_file hi
      rw [walk] at hw
      exact absurd (Option.some.inj hw ▸ o.tree.root.2) ht
    | cons name p =>
      rw [nodeAt, o.walk_none] at hi
      cases hi

theorem memfs_content_model (atNull : Path) (size : Nat) {f : Nat} {w₀ : World}
    (hc : (blankWorld atNull).memfsCreate size = (some f, w₀)) (es : List FileEvent)
    (ha : Run.Along (fileStep f) (Allowed f) w₀ es) :
    ∃ w t, Run.run (fileStep f) w₀ es = some w ∧ Runs emptyStore (transcript f w₀ es) t ∧
      Shows w f t := by
  have o := memfsCreate_onlyRoot hc
  obtain ⟨w, hrun, _⟩ := Run.run_total (I := fun _ => True)
    (fun w e _ _ => ⟨(fileReply f w e).2, rfl, trivial⟩) es w₀ trivial ha
  obtain ⟨t, hruns, _, hshows⟩ := transcript_runs es w₀ emptyStore o.files o.shows ha hrun
  exact ⟨w, t, hrun, hruns, hshows⟩

private def oneLetter (c : UInt8) : LocalPath := ⟨[47, c], rfl, by show 2 < 256; decide⟩

private def firstName : LocalPath := oneLetter 97

private def secondName : LocalPath := oneLetter 98

private def aliased : List FileEvent :=
  [.create firstName, .write firstName [1], .link firstName secondName, .append secondName [2],
    .delete firstName, .read secondName 9]

private def newMemfs : World := ((blankWorld []).memfsCreate 4096).2

private theorem allowed_aliased : Run.Along (fileStep 0) (Allowed 0) newMemfs aliased := by
  have hfirst : Canonical firstName := by decide
  have hsecond : Canonical secondName := by decide
  refine ⟨hfirst, ?_⟩
  rintro _ ⟨⟩
  refine ⟨⟨hfirst, by decide⟩, ?_⟩
  rintro _ ⟨⟩
  refine ⟨⟨hfirst, hsecond, ?_⟩, ?_⟩
  · rintro i ⟨⟩
    decide
  rintro _ ⟨⟩
  refine ⟨⟨hsecond, by decide⟩, ?_⟩
  rintro _ ⟨⟩
  exact ⟨hfirst, fun _ _ => ⟨hsecond, fun _ _ => trivial⟩⟩

theorem memfs_content_model_aliased :
    (∃ w t, Run.run (fileStep 0) newMemfs aliased = some w ∧
      Runs emptyStore (transcript 0 newMemfs aliased) t ∧ Shows w 0 t) ∧
    (transcript 0 newMemfs aliased).getLast?.map Prod.snd = some (.bytes (some [1, 2])) :=
  ⟨memfs_content_model [] 4096 rfl aliased allowed_aliased, rfl⟩

end Model

end HouseOS.Memfs
