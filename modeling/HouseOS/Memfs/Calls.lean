import HouseOS.Memfs.Content

namespace HouseOS.Memfs

open HouseOS.Components
open HouseOS.Loop (Step)
open HouseOS.Vfs (Path slash NodeType pathCap)
open World

inductive Call where
  | createFs (size : Nat)
  | createDir (f : Nat) (path : Path)
  | createFile (f : Nat) (path : Path)
  | createFifo (f : Nat) (path : Path)
  | createSocket (f : Nat) (path : Path)
  | createDevice (f : Nat) (path : Path) (buffer : List UInt8) (flags : Nat)
  | write (f : Nat) (path : Path) (buf : List UInt8)
  | append (f : Nat) (path : Path) (buf : List UInt8)
  | read (f : Nat) (path : Path) (size : Nat)
  | link (f : Nat) (old new : Path)
  | deleteFile (f : Nat) (path : Path)
  | deleteDir (f : Nat) (path : Path)

inductive Answer where
  | node (r : Option Nat)
  | code (r : Int)
  | bytes (r : Option (List UInt8))
  deriving DecidableEq, Repr

def Answer.failed : Answer → Prop
  | .node r => r = none
  | .code r => r < 0
  | .bytes r => r = none

instance : DecidablePred Answer.failed
  | .node r => inferInstanceAs (Decidable (r = none))
  | .code r => inferInstanceAs (Decidable (r < 0))
  | .bytes r => inferInstanceAs (Decidable (r = none))

def answer (w : World) : Call → Answer × World
  | .createFs size => let (r, w) := w.memfsCreate size; (.node r, w)
  | .createDir f path => let (r, w) := w.memfsCreateDir f path; (.node r, w)
  | .createFile f path => let (r, w) := w.memfsCreateFile f path; (.node r, w)
  | .createFifo f path => let (r, w) := w.memfsCreateFifo f path; (.node r, w)
  | .createSocket f path => let (r, w) := w.memfsCreateSocket f path; (.node r, w)
  | .createDevice f path buffer flags =>
      let (r, w) := w.memfsCreateDeviceBuffer f path buffer flags
      (.node r, w)
  | .write f path buf => let (r, w) := w.memfsWrite f path buf; (.code r, w)
  | .append f path buf => let (r, w) := w.memfsAppend f path buf; (.code r, w)
  | .read f path size => let (r, w) := w.memfsRead f path size; (.bytes r, w)
  | .link f old new => let (r, w) := w.memfsLink f old new; (.code r, w)
  | .deleteFile f path => let (r, w) := w.memfsDeleteFile f path; (.code r, w)
  | .deleteDir f path => let (r, w) := w.memfsDeleteDir f path; (.code r, w)

-- no call yet: any pattern of allocation failures is ahead
def untouched (grant : Nat → Bool) (atNull : Path) : World :=
  { inode := fun _ => zeroInode, live := fun _ => false,
    memfs := fun _ => { root := 0, totalMemory := 0, usedMemory := 0, inodeCount := 0 },
    nextInode := 0, nextFs := 0, grant := grant, allocs := 0, atNull := atNull }

def Call.fs : Call → Option Nat
  | .createFs _ => none
  | .createDir f _ => some f
  | .createFile f _ => some f
  | .createFifo f _ => some f
  | .createSocket f _ => some f
  | .createDevice f _ _ _ => some f
  | .write f _ _ => some f
  | .append f _ _ => some f
  | .read f _ _ => some f
  | .link f _ _ => some f
  | .deleteFile f _ => some f
  | .deleteDir f _ => some f

def Call.Valid (w : World) (c : Call) : Prop := ∀ f ∈ c.fs, f < w.nextFs

instance (w : World) (c : Call) : Decidable (c.Valid w) :=
  inferInstanceAs (Decidable (∀ f ∈ c.fs, f < w.nextFs))

inductive Reachable : World → Prop
  | start (grant : Nat → Bool) (atNull : Path) : Reachable (untouched grant atNull)
  | call (w : World) (c : Call) (h : Reachable w) (hc : c.Valid w) : Reachable (answer w c).2

variable {w w' : World} {f : Nat}

def Sized (n : Inode) : Prop :=
  match n.data with
  | none => n.size = 0
  | some data => data.length = n.size

structure Intact (w : World) : Prop where
  sized : ∀ j, Sized (w.inode j)
  entry : ∀ j, ∀ d ∈ (w.inode j).entries, d.inode < w.nextInode ∧ d.mountedFs = none
  root : ∀ g < w.nextFs, w.root g < w.nextInode

def core (n : Inode) : NodeType × Option (List UInt8) × Nat × List Dentry :=
  (n.type, n.data, n.size, n.entries)

theorem core_eq {n m : Inode} (h : core n = core m) :
    n.type = m.type ∧ n.data = m.data ∧ n.size = m.size ∧ n.entries = m.entries := by
  simpa [core] using h

theorem Sized.of_core {n m : Inode} (hm : Sized m) (h : core n = core m) : Sized n := by
  obtain ⟨-, hd, hs, -⟩ := core_eq h
  simpa only [Sized, hd, hs] using hm

theorem sized_zero {n : Inode} (hd : n.data = none) (hs : n.size = 0) : Sized n := by
  simp only [Sized, hd, hs]

-- only names, link counts, counters and the allocator differ
structure Like (w w' : World) : Prop where
  core : ∀ j, core (w'.inode j) = core (w.inode j)
  root : ∀ g, w'.root g = w.root g
  nextInode : w'.nextInode = w.nextInode
  nextFs : w'.nextFs = w.nextFs
  atNull : w'.atNull = w.atNull
  grant : w'.grant = w.grant

namespace Like

theorem refl (w : World) : Like w w := ⟨fun _ => rfl, fun _ => rfl, rfl, rfl, rfl, rfl⟩

theorem trans {w'' : World} (h : Like w w') (g : Like w' w'') : Like w w'' where
  core j := (g.core j).trans (h.core j)
  root j := (g.root j).trans (h.root j)
  nextInode := g.nextInode.trans h.nextInode
  nextFs := g.nextFs.trans h.nextFs
  atNull := g.atNull.trans h.atNull
  grant := g.grant.trans h.grant

theorem setInode (w : World) {i : Nat} {n : Inode} (h : Memfs.core n = Memfs.core (w.inode i)) :
    Like w (w.setInode i n) := by
  refine ⟨fun j => ?_, fun _ => rfl, rfl, rfl, rfl, rfl⟩
  rw [setInode_inode]
  split
  · rename_i hj
    rw [h, hj]
  · rfl

theorem setMemfs (w : World) (g : Nat) {m : Fs} (h : m.root = w.root g) : Like w (w.setMemfs g m) := by
  refine ⟨fun _ => rfl, fun k => ?_, rfl, rfl, rfl, rfl⟩
  simp only [World.root, World.setMemfs] at h ⊢
  split
  · rename_i hk
    rw [h, hk]
  · rfl

theorem valloc (w : World) (n : Nat) : Like w (w.valloc n).2 :=
  ⟨fun _ => rfl, fun _ => rfl, rfl, rfl, rfl, rfl⟩

theorem dupName (w : World) (s : Option Path) : Like w (w.dupName s).2 := by
  have hv := valloc w 256
  rw [World.dupName]
  cases hc : w.valloc 256 with
  | mk ok w₁ =>
    rw [hc] at hv
    cases ok <;> exact hv

theorem dentryCreate (w : World) (child : Nat) (name : Option Path) :
    Like w (w.dentryCreate child name).2 := by
  have hv := valloc w dentryBytes
  rw [World.dentryCreate]
  cases hc : w.valloc dentryBytes with
  | mk ok w₁ =>
    rw [hc] at hv
    cases ok with
    | false => exact hv
    | true => exact hv.trans (dupName w₁ name)

theorem addLink (w : World) (i : Nat) : Like w (w.addLink i) := setInode w rfl

theorem dropLink (w : World) (i : Nat) : Like w (w.dropLink i) := setInode w rfl

theorem vfreeInode (w : World) (i : Nat) : Like w (w.vfreeInode i) :=
  ⟨fun _ => rfl, fun _ => rfl, rfl, rfl, rfl, rfl⟩

theorem countInode (w : World) (g : Nat) : Like w (w.countInode g) := setMemfs w g rfl

theorem uncountInode (w : World) (g : Nat) : Like w (w.uncountInode g) := setMemfs w g rfl

theorem usedAdd (w : World) (g n : Nat) : Like w (w.usedAdd g n) := setMemfs w g rfl

theorem usedSub (w : World) (g n : Nat) : Like w (w.usedSub g n) := setMemfs w g rfl

end Like

theorem Intact.like (h : Intact w) (g : Like w w') : Intact w' where
  sized j := (h.sized j).of_core (g.core j)
  entry j d hd := by
    rw [(core_eq (g.core j)).2.2.2] at hd
    rw [g.nextInode]
    exact h.entry j d hd
  root k hk := by
    rw [g.root, g.nextInode]
    exact h.root k (g.nextFs ▸ hk)

theorem Intact.setInode (h : Intact w) (i : Nat) {n : Inode} (hs : Sized n)
    (he : ∀ d ∈ n.entries, d.inode < w.nextInode ∧ d.mountedFs = none) :
    Intact (w.setInode i n) where
  sized j := by
    rw [setInode_inode]
    split
    · exact hs
    · exact h.sized j
  entry j d hd := by
    rw [setInode_inode] at hd
    split at hd
    · exact he d hd
    · exact h.entry j d hd
  root := h.root

structure Born (w w' : World) : Prop where
  core : ∀ j, core (w'.inode j) = if j = w.nextInode then Memfs.core zeroInode else Memfs.core (w.inode j)
  root : ∀ g, w'.root g = w.root g
  nextInode : w'.nextInode = w.nextInode + 1
  nextFs : w'.nextFs = w.nextFs
  atNull : w'.atNull = w.atNull
  grant : w'.grant = w.grant

theorem vallocInode_cases (w : World) :
    (∃ w₁, w.vallocInode = (none, w₁) ∧ Like w w₁) ∨
      ∃ w₁, w.vallocInode = (some w.nextInode, w₁) ∧ Born w w₁ := by
  cases hg : w.grant w.allocs with
  | false =>
    refine Or.inl ⟨(w.valloc inodeBytes).2, ?_, Like.valloc w inodeBytes⟩
    simp [World.vallocInode, World.valloc, inodeBytes, hg]
  | true =>
    refine Or.inr ⟨{ w with
      allocs := w.allocs + 1
      inode := fun j => if j = w.nextInode then zeroInode else w.inode j
      live := fun j => if j = w.nextInode then true else w.live j
      nextInode := w.nextInode + 1 }, ?_, fun j => ?_, fun _ => rfl, rfl, rfl, rfl, rfl⟩
    · simp [World.vallocInode, World.valloc, inodeBytes, hg]
    · dsimp only
      split <;> rfl

theorem Intact.born (h : Intact w) (b : Born w w') : Intact w' where
  sized j := by
    have hc := b.core j
    split at hc
    · exact Sized.of_core (m := zeroInode) rfl hc
    · exact (h.sized j).of_core hc
  entry j d hd := by
    have hc := b.core j
    rw [b.nextInode]
    split at hc
    · rw [(core_eq hc).2.2.2] at hd
      cases hd
    · rw [(core_eq hc).2.2.2] at hd
      obtain ⟨hlt, hm⟩ := h.entry j d hd
      exact ⟨by omega, hm⟩
  root g hg := by
    rw [b.root, b.nextInode]
    have := h.root g (b.nextFs ▸ hg)
    omega

theorem dentryCreate_some {child : Nat} {name : Option Path} {d : Dentry} {w₁ : World}
    (h : w.dentryCreate child name = (some d, w₁)) : d.inode = child ∧ d.mountedFs = none := by
  rw [World.dentryCreate] at h
  cases hc : w.valloc dentryBytes with
  | mk ok w₂ =>
    rw [hc] at h
    cases ok with
    | false => cases h
    | true =>
      cases h
      exact ⟨rfl, rfl⟩

theorem Intact.addEntry (h : Intact w) (dir : Nat) {d : Dentry} (hd : d.inode < w.nextInode)
    (hm : d.mountedFs = none) : Intact (w.addEntry dir d) := by
  refine h.setInode dir (h.sized dir) fun e he => ?_
  rcases List.mem_cons.mp he with rfl | he
  · exact ⟨hd, hm⟩
  · exact h.entry dir e he

theorem Intact.dirAdd (h : Intact w) (dir : Nat) {child : Nat} (hc : child < w.nextInode) :
    Intact (w.dirAdd dir child) := by
  rw [World.dirAdd]
  split
  · exact h
  · have hl := Like.dentryCreate w child (w.inode child).name
    cases hd : w.dentryCreate child (w.inode child).name with
    | mk r w₁ =>
      rw [hd] at hl
      cases r with
      | none => exact h.like hl
      | some d =>
        obtain ⟨hi, hm⟩ := dentryCreate_some hd
        have hlt : d.inode < w₁.nextInode := by rw [hi, hl.nextInode]; exact hc
        exact ((h.like hl).addEntry dir hlt hm).like (Like.addLink _ _)

theorem Intact.setData (h : Intact w) (g : Like w w') (i : Nat) {data : List UInt8} {size : Nat}
    (hs : data.length = size) :
    Intact (w'.setInode i { w.inode i with data := some data, size := size }) :=
  (h.like g).setInode i hs fun d hd => by
    rw [g.nextInode]
    exact h.entry i d hd

theorem Intact.clearData (h : Intact w) (i : Nat) :
    Intact (w.setInode i { w.inode i with data := none, size := 0 }) :=
  h.setInode i (sized_zero rfl rfl) (h.entry i)

structure Blank (n : Inode) : Prop where
  data : n.data = none
  size : n.size = 0
  entries : n.entries = []

theorem Blank.of_core {n m : Inode} (hm : Blank m) (h : core n = core m) : Blank n := by
  obtain ⟨-, hd, hs, he⟩ := core_eq h
  exact ⟨hd.trans hm.data, hs.trans hm.size, he.trans hm.entries⟩

theorem Intact.newInode (h : Intact w) (i : Nat) {n : Inode} (hn : Blank n) :
    Intact (w.setInode i n) :=
  h.setInode i (sized_zero hn.data hn.size) fun d hmem => by
    rw [hn.entries] at hmem
    cases hmem

theorem Born.blank (b : Born w w') : Blank (w'.inode w.nextInode) := by
  have hc := b.core w.nextInode
  rw [if_pos rfl] at hc
  exact Blank.of_core (m := zeroInode) ⟨rfl, rfl, rfl⟩ hc

theorem dirAdd_nextInode (w : World) (dir child : Nat) :
    (w.dirAdd dir child).nextInode = w.nextInode := by
  rw [World.dirAdd]
  split
  · rfl
  · have hl := Like.dentryCreate w child (w.inode child).name
    cases hd : w.dentryCreate child (w.inode child).name with
    | mk r w₁ =>
      rw [hd] at hl
      cases r <;> exact hl.nextInode

theorem Intact.mkdirHere (h : Intact w) (f cur : Nat) (name : Path) :
    Intact (w.mkdirHere f cur name).2 ∧ w.nextInode ≤ (w.mkdirHere f cur name).2.nextInode := by
  rw [World.mkdirHere]
  rcases vallocInode_cases w with ⟨w₁, hv, hl⟩ | ⟨w₁, hv, hb⟩
  · rw [hv]
    exact ⟨h.like hl, Nat.le_of_eq hl.nextInode.symm⟩
  · rw [hv]
    obtain ⟨hd, hs, he⟩ := hb.blank
    have h₁ := (h.born hb).newInode w.nextInode
      (n := { w₁.inode w.nextInode with type := .dir }) ⟨hd, hs, he⟩
    dsimp only
    generalize hw₂ : w₁.setInode w.nextInode { w₁.inode w.nextInode with type := .dir } = w₂ at h₁
    have hnew : Blank (w₂.inode w.nextInode) := by
      rw [← hw₂, setInode_inode, if_pos rfl]
      exact ⟨hd, hs, he⟩
    have hnext : w₂.nextInode = w.nextInode + 1 := by
      rw [← hw₂]
      exact hb.nextInode
    have hl := Like.dupName w₂ (some name)
    cases hdup : w₂.dupName (some name) with
    | mk r w₃ =>
      rw [hdup] at hl
      cases r with
      | none =>
        refine ⟨h₁.like hl, ?_⟩
        show w.nextInode ≤ w₃.nextInode
        rw [hl.nextInode, hnext]
        exact Nat.le_succ _
      | some name =>
        obtain ⟨hd, hs, he⟩ := hnew.of_core (hl.core w.nextInode)
        have hlt : w.nextInode < w₃.nextInode := by
          rw [hl.nextInode, hnext]
          exact Nat.lt_succ_self _
        have h₃ := (h₁.like hl).newInode w.nextInode
          (n := { w₃.inode w.nextInode with name := some name, parent := some cur }) ⟨hd, hs, he⟩
        refine ⟨(h₃.dirAdd cur hlt).like (Like.countInode _ _), ?_⟩
        show w.nextInode ≤ ((w₃.setInode w.nextInode _).dirAdd cur w.nextInode).nextInode
        rw [dirAdd_nextInode]
        exact Nat.le_of_lt hlt

theorem Intact.mkdirP (h : Intact w) (f : Nat) (path : Path) :
    Intact (w.mkdirP f path).2 ∧ w.nextInode ≤ (w.mkdirP f path).2.nextInode := by
  have hgo : ∀ (s : World × Nat × Nat) (name : Path) (last : Bool) (s' : World × Nat × Nat),
      Intact s.1 ∧ w.nextInode ≤ s.1.nextInode → mkdirStep s name last = .go s' →
        Intact s'.1 ∧ w.nextInode ≤ s'.1.nextInode := by
    rintro ⟨w₁, f, cur⟩ name last s' ⟨h, hle⟩ hs
    have hmk := h.mkdirHere f cur name
    simp only [mkdirStep] at hs
    split at hs
    · split at hs
      · cases hs
      · rename_i hm
        rw [hm] at hmk
        split at hs
        · cases hs
        · cases hs
          exact ⟨hmk.1, Nat.le_trans hle hmk.2⟩
    · split at hs
      · cases hs
      · cases hs
        exact ⟨h, hle⟩
  have hret : ∀ (s : World × Nat × Nat) (name : Path) (last : Bool) (w' : World),
      Intact s.1 ∧ w.nextInode ≤ s.1.nextInode → mkdirStep s name last = .ret w' →
        Intact w' ∧ w.nextInode ≤ w'.nextInode := by
    rintro ⟨w₁, f, cur⟩ name last w' ⟨h, hle⟩ hs
    have hmk := h.mkdirHere f cur name
    simp only [mkdirStep] at hs
    split at hs
    · split at hs
      · rename_i hm
        rw [hm] at hmk
        cases hs
        exact ⟨hmk.1, Nat.le_trans hle hmk.2⟩
      · rename_i hm
        rw [hm] at hmk
        split at hs
        · cases hs
          exact ⟨hmk.1, Nat.le_trans hle hmk.2⟩
        · cases hs
    · split at hs
      · cases hs
        exact ⟨h, hle⟩
      · cases hs
  obtain ⟨h₁, h₂⟩ := pathLoop_invariant slash
    (I := fun s : World × Nat × Nat => Intact s.1 ∧ w.nextInode ≤ s.1.nextInode)
    (J := fun w' => Intact w' ∧ w.nextInode ≤ w'.nextInode) hgo hret path.length (skip slash path)
    (w, f, w.root f) ⟨h, Nat.le_refl _⟩
  rw [World.mkdirP]
  split
  · rename_i hr
    exact h₂ _ hr
  · rename_i hr
    exact h₁ _ hr

theorem Intact.splitParent (h : Intact w) (f : Nat) (path : Path) :
    Intact (w.splitParent f path).2 ∧ w.nextInode ≤ (w.splitParent f path).2.nextInode := by
  rw [World.splitParent]
  cases splitLast slash path with
  | none => exact ⟨h, Nat.le_refl _⟩
  | some r =>
    obtain ⟨dir, name⟩ := r
    have hm := h.mkdirP f (if dir.length = 0 then [slash] else dir)
    dsimp only
    split
    · rename_i heq
      rwa [heq] at hm
    · rename_i heq
      rwa [heq] at hm

theorem Intact.newNode (h : Intact w) (owner parent : Nat) (name : Path) {fill : Inode → Inode}
    (hfill : ∀ n, Blank n → Blank (fill n)) : Intact (w.newNode owner parent name fill).2 := by
  rw [World.newNode]
  rcases vallocInode_cases w with ⟨w₁, hv, hl⟩ | ⟨w₁, hv, hb⟩
  · rw [hv]
    exact h.like hl
  · rw [hv]
    dsimp only
    have hdup := Like.dupName w₁ (some name)
    obtain ⟨hd, hs, he⟩ := hb.blank.of_core (hdup.core w.nextInode)
    have h₂ := ((h.born hb).like hdup).newInode w.nextInode (hfill
      { (w₁.dupName (some name)).2.inode w.nextInode with name := (w₁.dupName (some name)).1 }
      ⟨hd, hs, he⟩)
    refine (h₂.dirAdd parent ?_).like (Like.countInode _ _)
    show w.nextInode < (w₁.dupName (some name)).2.nextInode
    rw [hdup.nextInode, hb.nextInode]
    exact Nat.lt_succ_self _

theorem Intact.createDir (h : Intact w) (f : Nat) (path : Path) :
    Intact (w.memfsCreateDir f path).2 := by
  rw [World.memfsCreateDir]
  split
  · exact h
  have hp := (h.splitParent f path).1
  split
  · rename_i heq
    rwa [heq] at hp
  · rename_i heq
    rw [heq] at hp
    split
    · split
      · exact hp
      · split <;> exact hp
    · exact hp.newNode _ _ _ fun _ hn => ⟨hn.data, hn.size, hn.entries⟩

theorem Intact.createNode (h : Intact w) (f : Nat) (path : Path) (type : NodeType)
    {fill : Inode → Inode} (hfill : ∀ n, Blank n → Blank (fill n)) :
    Intact (w.createNode f path type fill).2 := by
  rw [World.createNode]
  split
  · exact h
  have hp := (h.splitParent f path).1
  split
  · rename_i heq
    rwa [heq] at hp
  · rename_i heq
    rw [heq] at hp
    split
    · split
      · exact hp
      · split <;> exact hp
    · exact hp.newNode _ _ _ fun _ hn => hfill _ ⟨hn.data, hn.size, hn.entries⟩

theorem Intact.lookupDentry (h : Intact w) {dir : Nat} {name : Path} {d : Dentry}
    (hl : w.lookupDentry dir name = some d) : d.inode < w.nextInode ∧ d.mountedFs = none := by
  rw [World.lookupDentry] at hl
  split at hl
  · cases hl
  · exact h.entry dir d (List.mem_of_find?_eq_some hl)

theorem Intact.enter (h : Intact w) {dir g : Nat} {name : Path} {d : Dentry}
    (hl : w.lookupDentry dir name = some d) : w.enter g d = (g, d.inode) := by
  rw [World.enter, (h.lookupDentry hl).2]

theorem Intact.lookupPathEx (h : Intact w) (hf : f < w.nextFs) {path : Path} {g i : Nat}
    (hl : w.lookupPathEx f path = some (g, i)) : g = f ∧ i < w.nextInode := by
  have hgo : ∀ (s : Nat × Nat) (c : Path) (last : Bool) (s' : Nat × Nat),
      s.1 = f ∧ s.2 < w.nextInode → w.lookupStep s c last = .go s' →
        s'.1 = f ∧ s'.2 < w.nextInode := by
    rintro ⟨g, cur⟩ c last s' ⟨hg, -⟩ hs
    rw [World.lookupStep] at hs
    split at hs
    · cases hs
    · split at hs
      · cases hs
      · rename_i hd
        rw [h.enter hd] at hs
        cases hs
        exact ⟨hg, (h.lookupDentry hd).1⟩
  obtain ⟨hloop, -⟩ := pathLoop_invariant slash (I := fun s : Nat × Nat => s.1 = f ∧ s.2 < w.nextInode)
    (J := fun _ => True) hgo (fun _ _ _ _ _ _ => trivial) path.length (skip slash path)
    (f, w.root f) ⟨rfl, h.root f hf⟩
  rw [World.lookupPathEx] at hl
  split at hl
  · cases hl
    exact ⟨rfl, h.root f hf⟩
  · split at hl
    · cases hl
    · split at hl
      · cases hl
      · rename_i hgo'
        cases hl
        exact hloop _ hgo'

theorem lookupPath_some {path : Path} {i : Nat} (hl : w.lookupPath f path = some i) :
    ∃ g, w.lookupPathEx f path = some (g, i) := by
  obtain ⟨⟨g, j⟩, hg, rfl⟩ := Option.map_eq_some_iff.mp hl
  exact ⟨g, hg⟩

theorem Intact.createStorage (h : Intact w) (f : Nat) (path : Path) (type : NodeType) :
    Intact (w.createNode f path type (fun n => { n with size := 0, data := none })).2 :=
  h.createNode f path type fun _ hn => ⟨rfl, rfl, hn.entries⟩

theorem Intact.removeEntry (h : Intact w) (parent : Nat) (d : Dentry) :
    Intact (w.removeEntry parent d) :=
  h.setInode parent (h.sized parent) fun e he => h.entry parent e (List.mem_of_mem_eraseP he)

theorem Intact.dropData (h : Intact w) (owner i : Nat) : Intact (w.dropData owner i) := by
  rw [World.dropData]
  split
  · exact (h.like (Like.usedSub w owner _)).setInode i (sized_zero rfl rfl) (h.entry i)
  · exact h

theorem Intact.deleteFile (h : Intact w) (f : Nat) (path : Path) :
    Intact (w.memfsDeleteFile f path).2 := by
  rw [memfsDeleteFile_eq]
  split
  · exact h
  split
  · exact h
  split
  · exact h
  split
  · exact h
  · rename_i d owner parent _ _ _
    have hl := (h.removeEntry parent d).like (Like.dropLink _ d.inode)
    rw [deletedFile]
    split
    · exact ((hl.dropData owner d.inode).like (Like.uncountInode _ owner)).like (Like.vfreeInode _ _)
    · exact hl

theorem Intact.deleteDir (h : Intact w) (f : Nat) (path : Path) :
    Intact (w.memfsDeleteDir f path).2 := by
  rw [World.memfsDeleteDir]
  split
  · exact h
  split
  · exact h
  rename_i d owner parent _
  split
  · exact h
  split
  · exact h
  split
  · exact h
  split
  · exact h
  · have hl := (h.removeEntry parent d).like (Like.dropLink _ d.inode)
    dsimp only
    split
    · exact (hl.like (Like.uncountInode _ owner)).like (Like.vfreeInode _ _)
    · exact hl

theorem Intact.link (h : Intact w) (hf : f < w.nextFs) (old new : Path) :
    Intact (w.memfsLink f old new).2 := by
  rw [World.memfsLink]
  split
  · exact h
  rename_i i hold
  obtain ⟨g, hg⟩ := lookupPath_some hold
  have hi := (h.lookupPathEx hf hg).2
  obtain ⟨hp, hmono⟩ := h.splitParent f new
  split
  · rename_i heq
    rwa [heq] at hp
  · rename_i name owner parent w₁ heq
    rw [heq] at hp hmono
    split
    · exact hp
    · have hl := Like.dentryCreate w₁ i (some name)
      split
      · rename_i hd
        rw [hd] at hl
        exact hp.like hl
      · rename_i d w₂ hd
        rw [hd] at hl
        obtain ⟨hdi, hm⟩ := dentryCreate_some hd
        have hlt : d.inode < w₂.nextInode := by
          rw [hdi, hl.nextInode]
          exact Nat.lt_of_lt_of_le hi hmono
        exact ((hp.like hl).addEntry parent hlt hm).like (Like.addLink _ _)

theorem Intact.createFs (h : Intact w) (size : Nat) : Intact (w.memfsCreate size).2 := by
  have hv := Like.valloc w fsBytes
  rw [World.memfsCreate]
  split
  · rename_i heq
    rw [heq] at hv
    exact h.like hv
  rename_i w₁ heq
  rw [heq] at hv
  have h₁ := h.like hv
  rcases vallocInode_cases w₁ with ⟨w₂, hi, hl⟩ | ⟨w₂, hi, hb⟩
  · rw [hi]
    exact h₁.like hl
  · rw [hi]
    obtain ⟨hd, hs, he⟩ := hb.blank
    have h₂ := (h₁.born hb).newInode w₁.nextInode
      (n := { w₂.inode w₁.nextInode with type := .dir }) ⟨hd, hs, he⟩
    have hdup := Like.dupName (w₂.setInode w₁.nextInode { w₂.inode w₁.nextInode with type := .dir })
      (some [slash])
    dsimp only
    split
    · rename_i heq
      rw [heq] at hdup
      exact h₂.like hdup
    · rename_i name w₃ heq
      rw [heq] at hdup
      have h₃ := h₂.like hdup
      have hlt : w₁.nextInode < w₃.nextInode := by
        rw [hdup.nextInode]
        show w₁.nextInode < w₂.nextInode
        rw [hb.nextInode]
        exact Nat.lt_succ_self _
      obtain ⟨hd, hs, he⟩ : Blank (w₃.inode w₁.nextInode) := by
        refine Blank.of_core ?_ (hdup.core w₁.nextInode)
        rw [setInode_inode, if_pos rfl]
        exact ⟨hd, hs, he⟩
      have h₄ := h₃.newInode w₁.nextInode
        (n := { w₃.inode w₁.nextInode with name := some name, linkCount := 1 }) ⟨hd, hs, he⟩
      refine ⟨h₄.sized, h₄.entry, fun g hg => ?_⟩
      simp only [World.root, World.setMemfs]
      split
      · exact hlt
      · rename_i hne
        have hlt : g < w₃.nextFs := Nat.lt_of_le_of_ne (Nat.le_of_lt_succ hg) hne
        exact h₃.root g hlt

theorem Sized.contents {n : Inode} (h : Sized n) : (World.contents n).length = n.size := by
  rw [World.contents]
  cases hd : n.data with
  | none =>
    have hsize : n.size = 0 := by simpa [Sized, hd] using h
    exact hsize.symm
  | some data =>
    have hlen : data.length = n.size := by simpa [Sized, hd] using h
    simp [hlen]

theorem Intact.extend (h : Intact w) (owner i : Nat) (buf : List UInt8) :
    Intact (w.extend owner i buf).2 := by
  have hl := Like.valloc w ((w.inode i).size + buf.length)
  rw [World.extend]
  split
  · rename_i heq
    rw [heq] at hl
    exact h.like hl
  · rename_i w₁ heq
    rw [heq] at hl
    refine (h.setData hl i ?_).like (Like.usedAdd _ _ _)
    rw [List.length_append, (h.sized i).contents]

theorem Intact.streamWrite (h : Intact w) (owner i : Nat) (buf : List UInt8) :
    Intact (w.streamWrite owner i buf).2 := by
  rw [World.streamWrite]
  split
  · exact h
  · exact h.extend owner i buf

theorem Intact.write (h : Intact w) (f : Nat) (path : Path) (buf : List UInt8) :
    Intact (w.memfsWrite f path buf).2 := by
  rw [World.memfsWrite]
  split
  · exact h
  rename_i owner i _
  dsimp only
  split
  · split
    · exact h
    split
    · exact h
    · exact h.setInode i (h.sized i) (h.entry i)
  split
  · exact h
  split
  · exact h.streamWrite owner i buf
  · have hd := h.dropData owner i
    have hl := Like.valloc (w.dropData owner i) buf.length
    split
    · rename_i heq
      rw [heq] at hl
      exact hd.like hl
    · rename_i heq
      rw [heq] at hl
      exact ((hd.like hl).setData (Like.refl _) i rfl).like (Like.usedAdd _ _ _)

theorem Intact.append (h : Intact w) (f : Nat) (path : Path) (buf : List UInt8) :
    Intact (w.memfsAppend f path buf).2 := by
  rw [World.memfsAppend]
  split
  · exact h
  split
  · exact h
  split
  · exact h.streamWrite _ _ buf
  · exact h.extend _ _ buf

theorem Intact.streamRead (h : Intact w) (owner i size : Nat) :
    Intact (w.streamRead owner i size).2 := by
  rw [World.streamRead]
  dsimp only
  split
  · exact h
  split
  · exact h
  rename_i data hdata
  split
  · exact h
  split
  · exact (h.clearData i).like (Like.usedSub _ _ _)
  · have hl := Like.valloc w ((w.inode i).size - min size (w.inode i).size)
    split
    · rename_i heq
      rw [heq] at hl
      exact h.like hl
    · rename_i w₁ heq
      rw [heq] at hl
      have hlen : data.length = (w.inode i).size := by simpa [Sized, hdata] using h.sized i
      refine (h.setData hl i ?_).like (Like.usedSub _ _ _)
      rw [List.length_take, List.length_drop]
      omega

theorem Intact.read (h : Intact w) (f : Nat) (path : Path) (size : Nat) :
    Intact (w.memfsRead f path size).2 := by
  rw [World.memfsRead]
  split
  · exact h
  dsimp only
  split
  · split <;> exact h
  split
  · exact h
  split
  · exact h.streamRead _ _ size
  · exact h

theorem Intact.createDevice (h : Intact w) (f : Nat) (path : Path) (buffer : List UInt8)
    (flags : Nat) : Intact (w.memfsCreateDeviceBuffer f path buffer flags).2 := by
  rw [World.memfsCreateDeviceBuffer]
  split
  · exact h
  · exact h.createNode f path .device fun _ hn => ⟨hn.data, hn.size, hn.entries⟩

theorem Intact.call (h : Intact w) (c : Call) (hc : c.Valid w) : Intact (answer w c).2 := by
  cases c with
  | createFs size => exact h.createFs size
  | createDir f path => exact h.createDir f path
  | createFile f path => exact h.createStorage f path .file
  | createFifo f path => exact h.createStorage f path .fifo
  | createSocket f path => exact h.createStorage f path .socket
  | createDevice f path buffer flags => exact h.createDevice f path buffer flags
  | write f path buf => exact h.write f path buf
  | append f path buf => exact h.append f path buf
  | read f path size => exact h.read f path size
  | link f old new => exact h.link (hc f rfl) old new
  | deleteFile f path => exact h.deleteFile f path
  | deleteDir f path => exact h.deleteDir f path

theorem Reachable.intact (h : Reachable w) : Intact w := by
  induction h with
  | start grant atNull =>
    exact ⟨fun _ => rfl, fun _ _ hd => absurd hd List.not_mem_nil, fun g hg => absurd hg (Nat.not_lt_zero g)⟩
  | call w c _ hc ih => exact ih.call c hc

end HouseOS.Memfs
