import HouseOS.Syscall.FileTree

namespace HouseOS.Syscall

open HouseOS.ByteCursor
open HouseOS.Vfs (Path NodeType)

section Tree

variable {Disk E : Type} {v : View Disk E} {o : TreeCalls Disk} {d d' d'' : Disk} {e : E} {i : Nat}

def View.Keeps (v : View Disk E) (d d' : Disk) : Prop :=
  ∀ e i, v.node d e = .file i → v.node d' e = .file i ∧ v.data d' i = v.data d i

def View.old (v : View Disk E) (d : Disk) (e : E) : List UInt8 :=
  match v.node d e with
  | .file i => v.data d i
  | _ => []

def View.Holds (v : View Disk E) (d : Disk) (e : E) (bytes : List UInt8) : Prop :=
  ∃ i, v.node d e = .file i ∧ v.data d i = bytes

theorem View.Same.refl (v : View Disk E) (d : Disk) : v.Same d d := ⟨rfl, rfl⟩

theorem View.Same.keeps (h : v.Same d d') : v.Keeps d d' := fun e i hi =>
  ⟨by rw [h.node, hi], by rw [h.data]⟩

theorem View.Same.old (h : v.Same d d') (e : E) : v.old d' e = v.old d e := by
  unfold View.old
  rw [h.node, h.data]

theorem View.Keeps.trans (h : v.Keeps d d') (h' : v.Keeps d' d'') : v.Keeps d d'' := by
  intro e i hi
  obtain ⟨hn, hd⟩ := h e i hi
  obtain ⟨hn', hd'⟩ := h' e i hn
  exact ⟨hn', hd'.trans hd⟩

theorem View.Holds.keeps {bytes : List UInt8} (h : v.Holds d e bytes) (hk : v.Keeps d d') :
    v.Holds d' e bytes := by
  obtain ⟨i, hi, hb⟩ := h
  obtain ⟨hn, hd⟩ := hk e i hi
  exact ⟨i, hn, hd.trans hb⟩

theorem holds_iff {text text' : List UInt8} (h : v.Holds d e text) :
    v.Holds d e text' ↔ text = text' := by
  obtain ⟨i, hi, hb⟩ := h
  constructor
  · rintro ⟨j, hj, hb'⟩
    rw [hi] at hj
    cases hj
    exact hb.symm.trans hb'
  · rintro rfl
    exact ⟨i, hi, hb⟩

-- what a run on one open file leaves alone
structure View.Frame (v : View Disk E) (i : Nat) (d d' : Disk) : Prop where
  node : v.node d' = v.node d
  rest : ∀ j, j ≠ i → v.data d' j = v.data d j

theorem View.Frame.refl (v : View Disk E) (i : Nat) (d : Disk) : v.Frame i d d := ⟨rfl, fun _ _ => rfl⟩

theorem View.Frame.same (h : v.Frame i d d') (hi : v.data d' i = v.data d i) : v.Same d d' := by
  refine ⟨h.node, funext fun j => ?_⟩
  by_cases hj : j = i
  · rw [hj, hi]
  · exact h.rest j hj

variable [DecidableEq E]

theorem View.Creates.keeps (h : v.Creates d e d') (habsent : v.node d e = .absent) :
    v.Keeps d d' := by
  intro e' i hi
  obtain ⟨j, _, hnode, _⟩ := h.made
  refine ⟨?_, h.kept e' i hi⟩
  rw [hnode, Function.update_of_ne, hi]
  rintro rfl
  rw [habsent] at hi
  cases hi

theorem Serves.faithful (hs : Serves v o) {path : Path} (hi : v.node d (v.entry path) = .file i) :
    Faithful o.toFileCalls path (v.Frame i d) fun d => v.data d i := by
  have hat : ∀ d', v.Frame i d d' → v.node d' (v.entry path) = .file i := fun d' h => by
    rw [h.node, hi]
  refine ⟨fun d' h => hs.info d' path i (hat d' h), fun d' h => ?_, fun d' n h => ?_,
    fun d' bytes h _ => ?_⟩
  · have := hs.size d' path i (hat d' h)
    omega
  · obtain ⟨hsame, hlen, hok⟩ := hs.read d' path i n (hat d' h)
    refine ⟨⟨hsame.node.trans h.node, fun j hj => by rw [hsame.data, h.rest j hj]⟩,
      by rw [hsame.data], hlen, fun hn => ?_⟩
    obtain ⟨hbytes, hcount⟩ := hok hn
    refine ⟨hbytes, hcount, ?_⟩
    have hsize := hs.size d' path i (hat d' h)
    rw [hcount, List.length_take]
    omega
  · rcases hs.write d' path i bytes (hat d' h) with ⟨hneg, hsame⟩ | ⟨hcount, hlen, hstores⟩
    · exact ⟨⟨hsame.node.trans h.node, fun j hj => by rw [hsame.data, h.rest j hj]⟩,
        Or.inl ⟨hneg, by rw [hsame.data]⟩⟩
    · exact ⟨⟨hstores.node.trans h.node, fun j hj => (hstores.rest j hj).trans (h.rest j hj)⟩,
        Or.inr ⟨hcount, by omega, hstores.data⟩⟩

end Tree

section Descriptors

variable {Disk : Type} {o : FileCalls Disk} {kmalloc : Nat → Option (List UInt8)}
  {s s' : Files Disk} {fd : Nat} {a : Answer}

def Moves (s : Files Disk) (fd : Nat) (s' : Files Disk) : Prop :=
  ∃ off, s'.fds = s.fds.set fd { s.fds fd with offset := off }

theorem Moves.refl (s : Files Disk) (fd : Nat) : Moves s fd s := by
  refine ⟨(s.fds fd).offset, funext fun k => ?_⟩
  rw [FdTable.set]
  split
  · rename_i hk
    rw [hk]
  · rfl

theorem Moves.putDisk {d : Disk} : Moves s fd (s.putDisk d) := Moves.refl s fd

theorem moves_setOffset {d : Disk} (off : Nat) : Moves s fd ((s.putDisk d).setOffset fd off) :=
  ⟨off, rfl⟩

theorem Moves.other {k : Nat} (h : Moves s fd s') (hk : k ≠ fd) : s'.fds k = s.fds k := by
  obtain ⟨off, hoff⟩ := h
  rw [hoff, FdTable.set, if_neg hk]

theorem Moves.own (h : Moves s fd s') : ∃ off, s'.fds fd = { s.fds fd with offset := off } := by
  obtain ⟨off, hoff⟩ := h
  exact ⟨off, by rw [hoff, FdTable.set, if_pos rfl]⟩

theorem Moves.autoUnlink {k : Nat} (h : Moves s fd s') :
    (s'.fds k).pipeAutoUnlink = (s.fds k).pipeAutoUnlink := by
  by_cases hk : k = fd
  · subst hk
    obtain ⟨off, hoff⟩ := h.own
    rw [hoff]
  · rw [h.other hk]

theorem readStream_moves {d : Disk} {path : Path} {edx : Nat} :
    Moves s fd (s.readStream o d fd path edx).2 := by
  unfold Files.readStream
  dsimp only
  split_ifs <;> exact Moves.putDisk

theorem writeStream_moves {d : Disk} {path : Path} {data : List UInt8} :
    Moves s fd (s.writeStream o d path data).2 := by
  unfold Files.writeStream
  dsimp only
  split_ifs <;> exact Moves.putDisk

theorem sysRead_moves {ecx edx : Nat} (h : s.sysRead o kmalloc fd ecx edx = some (a, s')) :
    Moves s fd s' := by
  unfold Files.sysRead at h
  split at h
  · cases h
    exact Moves.refl s fd
  split at h
  · cases h
    exact Moves.refl s fd
  split at h
  · cases h
    exact Moves.refl s fd
  split at h
  · unfold Files.readFile at h
    dsimp only at h
    split at h
    · cases h
      exact Moves.refl s fd
    split at h
    · cases h
      exact Moves.refl s fd
    obtain ⟨tmp, -, h⟩ := Option.bind_eq_some_iff.mp h
    split at h
    · cases h
      exact Moves.putDisk
    · obtain ⟨out, -, h⟩ := Option.map_eq_some_iff.mp h
      cases h
      exact moves_setOffset _
  · have hs' : (s.readStream o _ fd _ edx).2 = s' := congrArg Prod.snd (Option.some.inj h)
    rw [← hs']
    exact readStream_moves

theorem sysWrite_moves {ecx : Nat} {data : List UInt8}
    (h : s.sysWrite o kmalloc fd ecx data = some (a, s')) : Moves s fd s' := by
  unfold Files.sysWrite at h
  split at h
  · cases h
    exact Moves.refl s fd
  split at h
  · cases h
    exact Moves.refl s fd
  split at h
  · cases h
    exact Moves.refl s fd
  split at h
  · unfold Files.writeFile at h
    dsimp only at h
    split at h
    · cases h
      exact Moves.refl s fd
    obtain ⟨buf, -, h⟩ := Option.bind_eq_some_iff.mp h
    obtain ⟨⟨n, loaded, d'⟩, -, h⟩ := Option.bind_eq_some_iff.mp h
    dsimp only at h
    split at h
    · cases h
      exact Moves.putDisk
    obtain ⟨buf, -, h⟩ := Option.bind_eq_some_iff.mp h
    obtain ⟨text, -, h⟩ := Option.map_eq_some_iff.mp h
    split at h
    · cases h
      exact Moves.putDisk
    · cases h
      exact moves_setOffset _
  · have hs' : (s.writeStream o _ _ data).2 = s' := congrArg Prod.snd (Option.some.inj h)
    rw [← hs']
    exact writeStream_moves

end Descriptors

section Names

variable {Disk E : Type} [DecidableEq E] {v : View Disk E} {o : TreeCalls Disk} {s : Files Disk}
  {d : Disk} {path : Path} {flags : Nat}

theorem copyUserPath_eq {p : Path} (h : copyUserPath path = some p) :
    p = path ∧ path.length < fdPathCap := by
  unfold copyUserPath at h
  split at h
  · rename_i hok
    exact ⟨(Option.some.inj h).symm, hok.1⟩
  · cases h

theorem fdAlloc_spec {fds t : FdTable} {fd : Nat} (h : fds.fdAlloc path flags = some (fd, t)) :
    fd < fdMax ∧ (fds fd).used = false ∧ t = fds.set fd (pathFd path flags) := by
  obtain ⟨i, hi, hpair⟩ := Option.map_eq_some_iff.mp h
  cases hpair
  have hmem := List.mem_of_find?_eq_some hi
  rw [List.mem_range'_1] at hmem
  refine ⟨by simp only [fdMax] at hmem ⊢; omega, ?_, rfl⟩
  simpa using List.find?_some hi

theorem findOrMake_spec (hs : Serves v o)
    (hslot : (∃ i, v.node d (v.entry path) = .file i) ∨
      v.node d (v.entry path) = .absent ∧ flags &&& 1 ≠ 0) :
    ∃ r d', Files.findOrMake o d path flags = (r, d') ∧ v.Keeps d d' ∧
      (∀ i, v.node d (v.entry path) = .file i → v.Same d d') ∧
      (r < 0 ∨ r = 0 ∧ v.Holds d' (v.entry path) (v.old d (v.entry path))) := by
  unfold Files.findOrMake
  rcases hslot with ⟨i, hi⟩ | ⟨habsent, hflags⟩
  · obtain ⟨hfound, hsame⟩ := hs.opens d path i hi
    dsimp only
    rw [hfound, if_pos rfl]
    refine ⟨0, _, rfl, hsame.keeps, fun _ _ => hsame, Or.inr ⟨rfl, ?_⟩⟩
    have hold : v.old d (v.entry path) = v.data d i := by rw [View.old, hi]
    rw [hold]
    exact View.Holds.keeps ⟨i, hi, rfl⟩ hsame.keeps
  · obtain ⟨hmiss, hsame⟩ := hs.misses d path habsent
    have habsent' : v.node (o.vfsOpen d path).2 (v.entry path) = .absent := by
      rw [hsame.node, habsent]
    have hold : v.old d (v.entry path) = [] := by rw [View.old, habsent]
    have hnone : ∀ i d', v.node d (v.entry path) = .file i → v.Same d d' := by
      intro i d' hi
      rw [habsent] at hi
      cases hi
    dsimp only
    rw [hmiss, if_neg Bool.false_ne_true, if_pos (Or.inr hflags), hold]
    rcases hs.create _ path habsent' with ⟨hfail, hkept⟩ | ⟨hmade, hcreates⟩
    · rw [hfail]
      exact ⟨_, _, rfl, hsame.keeps.trans hkept.keeps, fun i => hnone i _, Or.inl (by decide)⟩
    · obtain ⟨i, hfresh, hnode, hempty⟩ := hcreates.made
      have hat : v.node (o.vfsCreateFile (o.vfsOpen d path).2 path).2 (v.entry path) = .file i := by
        rw [hnode, Function.update_self]
      obtain ⟨hfound, hsame'⟩ := hs.opens _ path i hat
      rw [hmade, hfound]
      refine ⟨0, _, rfl,
        (hsame.keeps.trans (hcreates.keeps habsent')).trans hsame'.keeps, fun i => hnone i _, Or.inr ⟨rfl, ?_⟩⟩
      exact View.Holds.keeps ⟨i, hat, hempty⟩ hsame'.keeps

theorem sysOpen_spec (hs : Serves v o) (hd : s.rootFs = some d)
    (hslot : (∃ i, v.node d (v.entry path) = .file i) ∨
      v.node d (v.entry path) = .absent ∧ flags &&& 1 ≠ 0) :
    ∃ r s' d', s.sysOpen o path flags = (r, s') ∧ s'.rootFs = some d' ∧ v.Keeps d d' ∧
      (∀ i, v.node d (v.entry path) = .file i → v.Same d d') ∧
      (r < 0 ∧ s'.fds = s.fds ∨ ∃ fd : Nat, r = fd ∧ fd < fdMax ∧ (s.fds fd).used = false ∧
        s'.fds = s.fds.set fd (pathFd path flags) ∧ (pathFd path flags).path = path ∧
        copyUserPath path = some path ∧
        v.Holds d' (v.entry path) (v.old d (v.entry path))) := by
  unfold Files.sysOpen
  rw [hd]
  dsimp only
  cases hpath : copyUserPath path with
  | none => exact ⟨_, s, d, rfl, hd, (View.Same.refl v d).keeps, fun _ _ => View.Same.refl v d,
      Or.inl ⟨by decide, rfl⟩⟩
  | some p =>
    obtain ⟨rfl, hshort⟩ := copyUserPath_eq hpath
    obtain ⟨r, d', hfind, hkeeps, hsame, hcase⟩ := findOrMake_spec hs hslot
    dsimp only
    rw [hfind]
    dsimp only
    rcases hcase with hneg | ⟨rfl, hholds⟩
    · rw [if_pos hneg]
      exact ⟨r, _, d', rfl, rfl, hkeeps, hsame, Or.inl ⟨hneg, rfl⟩⟩
    · rw [if_neg (by decide)]
      unfold Files.giveFd
      have hfds : (s.putDisk d').fds = s.fds := rfl
      rw [hfds]
      cases halloc : s.fds.fdAlloc p flags with
      | none => exact ⟨_, _, d', rfl, rfl, hkeeps, hsame, Or.inl ⟨by decide, rfl⟩⟩
      | some given =>
        obtain ⟨fd, t⟩ := given
        obtain ⟨hlt, hfree, rfl⟩ := fdAlloc_spec halloc
        refine ⟨_, _, d', rfl, rfl, hkeeps, hsame, Or.inr ⟨fd, rfl, hlt, hfree, rfl, ?_, rfl, hholds⟩⟩
        exact List.take_of_length_le (by simp only [fdPathCap] at hshort ⊢; omega)

theorem sysClose_disk {fd : Nat} (h : (s.fds fd).pipeAutoUnlink = false) :
    (s.sysClose o fd).2.rootFs = s.rootFs := by
  unfold Files.sysClose
  split
  · rfl
  · dsimp only
    rw [h, Bool.and_false, Bool.false_and]
    rfl

theorem sysClose_other {fd k : Nat} (h : k ≠ fd) : (s.sysClose o fd).2.fds k = s.fds k := by
  unfold Files.sysClose
  split
  · rfl
  · exact if_neg h

theorem sysUnlink_spec (hs : Serves v o) (hd : s.rootFs = some d) {i : Nat}
    (hi : v.node d (v.entry path) = .file i) :
    ∃ r s' d', s.sysUnlink o path = (r, s') ∧ s'.rootFs = some d' ∧ s'.fds = s.fds ∧
      (r ≠ 0 ∧ d' = d ∧ copyUserPath path = none ∨ r = 0 ∧ v.Removes d (v.entry path) d') := by
  unfold Files.sysUnlink
  rw [hd]
  dsimp only
  cases hpath : copyUserPath path with
  | none => exact ⟨_, s, d, rfl, hd, rfl, Or.inl ⟨by decide, rfl, rfl⟩⟩
  | some p =>
    obtain ⟨rfl, -⟩ := copyUserPath_eq hpath
    obtain ⟨hgone, hremoves⟩ := hs.unlink d p i hi
    dsimp only
    rw [hgone]
    exact ⟨0, _, _, rfl, rfl, rfl, Or.inr ⟨rfl, hremoves⟩⟩

theorem sysLink_spec (hs : Serves v o) (hd : s.rootFs = some d) {p q : Path} {i : Nat}
    (hi : v.node d (v.entry p) = .file i) :
    ∃ r s' d', s.sysLink o p q = (r, s') ∧ s'.rootFs = some d' ∧ s'.fds = s.fds ∧
      (r ≠ 0 ∧ v.Same d d' ∧ (copyUserPath p = some p → copyUserPath q = some q →
          ¬ (v.linkable d p q = true ∧ v.node d (v.entry q) = .absent)) ∨
        r = 0 ∧ copyUserPath p = some p ∧ v.linkable d p q = true ∧
          v.node d (v.entry q) = .absent ∧ v.data d' = v.data d ∧ v.node d' =
          Function.update (v.node d) (v.entry q) (.file i)) := by
  unfold Files.sysLink
  rw [hd]
  dsimp only
  split
  · rename_i oldpath newpath hold hnew
    obtain ⟨rfl, -⟩ := copyUserPath_eq hold
    obtain ⟨rfl, -⟩ := copyUserPath_eq hnew
    have hlink := hs.link d oldpath newpath i hi
    split at hlink
    · rename_i hok
      obtain ⟨hdone, hdata, hnode⟩ := hlink
      rw [hdone]
      exact ⟨0, _, _, rfl, rfl, rfl, Or.inr ⟨rfl, hold, hok.1, hok.2, hdata, hnode⟩⟩
    · rename_i hno
      obtain ⟨hdone, hsame⟩ := hlink
      rw [hdone]
      exact ⟨_, _, _, rfl, rfl, rfl, Or.inl ⟨by decide, hsame, fun _ _ => hno⟩⟩
  · rename_i hbad
    refine ⟨_, s, d, rfl, hd, rfl, Or.inl ⟨by decide, View.Same.refl v d, fun hp hq => ?_⟩⟩
    exact absurd hq (hbad p q hp)

end Names

section Stores

variable {Disk E : Type} [DecidableEq E] {v : View Disk E} {o : TreeCalls Disk} {s : Files Disk}
  {d : Disk} {path : Path} {fd i : Nat} {c : Cursor UInt8}

theorem not_appends : appends (pathFd path 1) = false := by
  simp [appends, pathFd, oAppend]

omit [DecidableEq E] in
theorem opened_path {flags : Nat} (hlt : fd < fdMax) (hroot : s.rootFs = some d)
    (he : s.fds fd = pathFd path flags) (hpath : (pathFd path flags).path = path) :
    Opened path (v.Frame i d) (fun d => v.data d i) fd (appends (pathFd path flags)) s
      ⟨v.data d i, 0⟩ := by
  have h : Opened (pathFd path flags).path (v.Frame i d) (fun d => v.data d i) fd
      (appends (pathFd path flags)) s ⟨v.data d i, 0⟩ :=
    opened_first hlt hroot (View.Frame.refl v i d) he
  rwa [hpath] at h

theorem sysWrite_stores (hs : Serves v o) (hi : v.node d (v.entry path) = .file i)
    (h : Opened path (v.Frame i d) (fun d => v.data d i) fd false s c) (m : Allocator)
    {ecx : Nat} (hecx : ecx ≠ 0) {data : List UInt8} (hdata : data ≠ [])
    (hshort : data.length ≤ 2 ^ 22) :
    ∃ a s' c', s.sysWrite o.toFileCalls m.kmalloc fd ecx data = some (a, s') ∧
      Opened path (v.Frame i d) (fun d => v.data d i) fd false s' c' ∧ Moves s fd s' ∧
      (a.eax < 0 ∧ c' = c ∨ a.eax = data.length ∧ c' = c.write 0 c.pos data) := by
  have hfit : Fits o.toFileCalls (fun d => v.data d i) fd s ⟨m, .write ecx data⟩ := by
    intro d₁ hd₁
    obtain ⟨d₂, hd₂, hframe, -⟩ := h.disk
    rw [hd₁] at hd₂
    cases hd₂
    have hsize := hs.size d₁ path i (by rw [hframe.node, hi])
    have hlow := h.low
    refine Or.inr (Or.inr (Or.inr ?_))
    dsimp only
    rw [h.append, if_neg Bool.false_ne_true]
    exact ⟨by omega, Or.inl (by omega)⟩
  obtain ⟨a, s', c', hwrite, hmeets, hopen'⟩ := sysWrite_meets (hs.faithful hi) h m ecx data hfit
  refine ⟨a, s', c', hwrite, hopen', sysWrite_moves hwrite, ?_⟩
  rcases hmeets with ⟨hneg, -, hc⟩ | hdone
  · exact Or.inl ⟨hneg, hc⟩
  · rw [if_neg (by simp [hdata, hecx])] at hdone
    obtain ⟨rfl, hc⟩ := hdone
    exact Or.inr ⟨rfl, hc⟩

end Stores

abbrev Bytes := { text : List UInt8 // text.length < 2 ^ 31 }

structure Flat where
  node : Path → Slot
  data : Nat → Bytes

def Flat.at? (d : Flat) (p : Path) : Option Nat :=
  match d.node p with
  | .file i => some i
  | _ => none

-- existing files only, named up to `fold`
def flatTree (fold : Path → Path) : TreeCalls Flat where
  vfsGetInfo d p := (d.at? (fold p)).map fun i => ⟨.file, (d.data i).val.length⟩
  vfsRead d p n :=
    match d.at? (fold p) with
    | none => (-1, [], d)
    | some i => (((d.data i).val.take n).length, (d.data i).val.take n, d)
  vfsWrite d p bytes :=
    match d.at? (fold p) with
    | none => (-1, d)
    | some i =>
        if h : bytes.length < 2 ^ 31 then
          (bytes.length, { d with data := Function.update d.data i ⟨bytes, h⟩ })
        else (-1, d)
  vfsOpen d p := ((d.at? (fold p)).isSome, d)
  vfsCreateFile d _ := (false, d)
  vfsAppend d _ _ := (-1, d)
  vfsLink d _ _ := (false, d)
  vfsUnlink d p :=
    match d.at? (fold p) with
    | none => (false, d)
    | some _ => (true, { d with node := Function.update d.node (fold p) .absent })

def flatView (fold : Path → Path) : View Flat Path where
  entry := fold
  node := Flat.node
  data d i := (d.data i).val
  linkable _ _ _ := false

theorem flatTree_at {fold : Path → Path} {d : Flat} {p : Path} {i : Nat}
    (h : (flatView fold).node d ((flatView fold).entry p) = .file i) : d.at? (fold p) = some i := by
  rw [Flat.at?, show d.node (fold p) = .file i from h]

theorem flatTree_serves (fold : Path → Path) : Serves (flatView fold) (flatTree fold) where
  info d p i hi := by
    simp only [flatTree]
    rw [flatTree_at hi]
    rfl
  size d p i _ := (d.data i).property
  read d p i n hi := by
    simp only [flatTree]
    rw [flatTree_at hi]
    exact ⟨View.Same.refl _ d, List.length_take_le n _, fun _ => ⟨rfl, rfl⟩⟩
  write d p i bytes hi := by
    simp only [flatTree]
    rw [flatTree_at hi]
    by_cases h : bytes.length < 2 ^ 31
    · simp only [dif_pos h]
      refine Or.inr ⟨trivial, h, rfl, ?_, fun j hj => ?_⟩
      · simp [flatView]
      · simp [flatView, Function.update_of_ne hj]
    · simp only [dif_neg h]
      exact Or.inl ⟨by decide, View.Same.refl _ d⟩
  append d p i bytes _ := Or.inl ⟨by simp only [flatTree]; decide, View.Same.refl _ d⟩
  opens d p i hi := by
    simp only [flatTree]
    rw [flatTree_at hi]
    exact ⟨rfl, View.Same.refl _ d⟩
  misses d p hp := by
    have hnone : d.at? (fold p) = none := by rw [Flat.at?, show d.node (fold p) = .absent from hp]
    simp only [flatTree]
    rw [hnone]
    exact ⟨rfl, View.Same.refl _ d⟩
  create d p _ := Or.inl ⟨rfl, View.Same.refl _ d⟩
  link d p q i _ := by
    rw [if_neg fun h => Bool.false_ne_true h.1]
    exact ⟨rfl, View.Same.refl _ d⟩
  unlink d p i hi := by
    simp only [flatTree]
    rw [flatTree_at hi]
    exact ⟨rfl, rfl, fun _ _ _ => rfl⟩

def anyRoom : Allocator where
  kmalloc n := some (List.replicate (Mm.alignSize n) 0xAA)
  room n block h := by
    obtain rfl := Option.some.inj h
    rw [List.length_replicate]

end HouseOS.Syscall
