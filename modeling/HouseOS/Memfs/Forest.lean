import HouseOS.Memfs.FirstMissing

namespace HouseOS.Memfs

open HouseOS.Components
open HouseOS.Loop (Step)
open HouseOS.Vfs (Path slash NodeType pathCap)
open World

variable {w w' w'' : World} {n f g dir child : Nat} {name : Path}

-- the trees of the first `n` file systems: they share no directory, and no directory has two places
structure Planted (n : Nat) (w : World) : Prop where
  granted : ∀ k, w.grant k = true
  entry : ∀ i, ∀ d ∈ w.entries i, d.inode < w.nextInode ∧ d.mountedFs = none
  fresh : ∀ i, w.nextInode ≤ i → w.entries i = []
  root : ∀ f < n, w.root f < w.nextInode ∧ (w.inode (w.root f)).type = .dir
  apart : ∀ f < n, ∀ g < n, w.root f = w.root g → f = g
  top : ∀ f < n, ∀ i, ∀ d ∈ w.entries i, d.inode ≠ w.root f
  once : ∀ i j, ∀ d ∈ w.entries i, ∀ e ∈ w.entries j, d.inode = e.inode →
    (w.inode d.inode).type = .dir → i = j ∧ d.name = e.name

-- what stood before is found still, but for the names that are `lost`
structure Spares (lost : Nat → Path → Prop) (w w' : World) : Prop where
  next : w.nextInode ≤ w'.nextInode
  root : ∀ g, w'.root g = w.root g
  type : ∀ i < w.nextInode, (w'.inode i).type = (w.inode i).type
  found : ∀ i < w.nextInode, ∀ m d, ¬ lost i m → w.lookupDentry i m = some d →
    w'.lookupDentry i m = some d

structure Grows (n : Nat) (w w' : World) : Prop where
  planted : Planted n w'
  spares : Spares (fun _ _ => False) w w'

structure SameTrees (w w' : World) : Prop where
  grant : w'.grant = w.grant
  atNull : w'.atNull = w.atNull
  next : w'.nextInode = w.nextInode
  root : ∀ g, w'.root g = w.root g
  type : ∀ i, (w'.inode i).type = (w.inode i).type
  entries : ∀ i, w'.entries i = w.entries i

structure Sprouted (w w' : World) (dir child : Nat) (name : Path) : Prop where
  grant : w'.grant = w.grant
  atNull : w'.atNull = w.atNull
  next : w'.nextInode = max w.nextInode (child + 1)
  root : ∀ g, w'.root g = w.root g
  type : ∀ i < w.nextInode, (w'.inode i).type = (w.inode i).type
  entries : ∀ i, w'.entries i =
    if i = dir then { name := some name, inode := child, mountedFs := none } :: w.entries i
    else w.entries i

structure Pruned (w w' : World) (dir : Nat) (name : Path) : Prop where
  grant : w'.grant = w.grant
  atNull : w'.atNull = w.atNull
  next : w'.nextInode = w.nextInode
  root : ∀ g, w'.root g = w.root g
  type : ∀ i, (w'.inode i).type = (w.inode i).type
  entries : ∀ i, w'.entries i =
    if i = dir then (w.entries i).eraseP (fun e => decide (w.text e.name = name)) else w.entries i

theorem lookupDentry_eq (w : World) (i : Nat) (m : Path) :
    w.lookupDentry i m =
      if (w.inode i).type ≠ .dir then none
      else (w.entries i).find? (fun d => decide (w.text d.name = m)) := rfl

theorem text_congr (h : w'.atNull = w.atNull) : w'.text = w.text := by
  funext s
  rw [World.text, World.text, h]

section Same

theorem Like.sameTrees (h : Like w w') : SameTrees w w' where
  grant := h.grant
  atNull := h.atNull
  next := h.nextInode
  root := h.root
  type i := (core_eq (h.core i)).1
  entries i := (core_eq (h.core i)).2.2.2

theorem SameTrees.trans (h : SameTrees w w') (g : SameTrees w' w'') : SameTrees w w'' where
  grant := g.grant.trans h.grant
  atNull := g.atNull.trans h.atNull
  next := g.next.trans h.next
  root k := (g.root k).trans (h.root k)
  type i := (g.type i).trans (h.type i)
  entries i := (g.entries i).trans (h.entries i)

theorem sameTrees_allocs (w : World) (k : Nat) : SameTrees w { w with allocs := k } :=
  ⟨rfl, rfl, rfl, fun _ => rfl, fun _ => rfl, fun _ => rfl⟩

theorem sameTrees_dropData (w : World) (owner i : Nat) : SameTrees w (w.dropData owner i) := by
  rw [World.dropData]
  split
  · refine (Like.usedSub w owner (w.inode i).size).sameTrees.trans
      ⟨rfl, rfl, rfl, fun _ => rfl, fun j => ?_, fun j => ?_⟩
    · rw [setInode_inode]
      split
      · rename_i hj
        rw [hj]
        rfl
      · rfl
    · rw [World.entries, setInode_inode]
      split
      · rename_i hj
        rw [hj]
        rfl
      · rfl
  · exact (Like.refl w).sameTrees

theorem Sprouted.same (h : Sprouted w w' dir child name) (g : SameTrees w' w'') :
    Sprouted w w'' dir child name where
  grant := g.grant.trans h.grant
  atNull := g.atNull.trans h.atNull
  next := g.next.trans h.next
  root k := (g.root k).trans (h.root k)
  type i hi := (g.type i).trans (h.type i hi)
  entries i := (g.entries i).trans (h.entries i)

theorem Pruned.same (h : Pruned w w' dir name) (g : SameTrees w' w'') : Pruned w w'' dir name where
  grant := g.grant.trans h.grant
  atNull := g.atNull.trans h.atNull
  next := g.next.trans h.next
  root k := (g.root k).trans (h.root k)
  type i := (g.type i).trans (h.type i)
  entries i := (g.entries i).trans (h.entries i)

end Same

section Grow

theorem Spares.refl (lost : Nat → Path → Prop) (w : World) : Spares lost w w :=
  ⟨Nat.le_refl _, fun _ => rfl, fun _ _ => rfl, fun _ _ _ _ _ h => h⟩

theorem Grows.refl (h : Planted n w) : Grows n w w := ⟨h, Spares.refl _ w⟩

theorem Grows.trans (h : Grows n w w') (g : Grows n w' w'') : Grows n w w'' where
  planted := g.planted
  spares :=
    { next := Nat.le_trans h.spares.next g.spares.next
      root := fun k => (g.spares.root k).trans (h.spares.root k)
      type := fun i hi => (g.spares.type i (Nat.lt_of_lt_of_le hi h.spares.next)).trans (h.spares.type i hi)
      found := fun i hi m d hl hd => g.spares.found i (Nat.lt_of_lt_of_le hi h.spares.next) m d hl
        (h.spares.found i hi m d hl hd) }

def Hangs (w : World) (child : Nat) : Prop :=
  child = w.nextInode ∨ child < w.nextInode ∧ (w.inode child).type ≠ .dir

theorem Planted.sprout (h : Planted n w) (hs : Sprouted w w' dir child name)
    (hdir : dir < w.nextInode) (htype : (w.inode dir).type = .dir)
    (hfree : w.lookupDentry dir name = none) (hchild : Hangs w child) : Grows n w w' := by
  have hnext : w.nextInode ≤ w'.nextInode := by
    rw [hs.next]
    exact le_max_left _ _
  have hroot : ∀ f < n, w'.root f < w'.nextInode ∧ (w'.inode (w'.root f)).type = .dir := by
    intro f hf
    obtain ⟨hlt, ht⟩ := h.root f hf
    rw [hs.root, hs.type _ hlt]
    exact ⟨Nat.lt_of_lt_of_le hlt hnext, ht⟩
  have hcases : ∀ i, ∀ d ∈ w'.entries i,
      i = dir ∧ d = { name := some name, inode := child, mountedFs := none } ∨ d ∈ w.entries i := by
    intro i d hd
    rw [hs.entries] at hd
    split at hd
    · rename_i hi
      rcases List.mem_cons.mp hd with heq | hd
      · exact Or.inl ⟨hi, heq⟩
      · exact Or.inr hd
    · exact Or.inr hd
  have hnew : ∀ i, ∀ e ∈ w.entries i, child = e.inode → (w'.inode child).type ≠ .dir := by
    intro i e he heq
    have hlt := (h.entry i e he).1
    rcases hchild with rfl | ⟨hc, hfile⟩
    · omega
    · rw [hs.type child hc]
      exact hfile
  refine ⟨⟨hs.grant ▸ h.granted, ?_, ?_, hroot, ?_, ?_, ?_⟩, ?_⟩
  · intro i d hd
    rcases hcases i d hd with ⟨_, rfl⟩ | hd
    · refine ⟨?_, rfl⟩
      rw [hs.next]
      exact Nat.lt_of_lt_of_le (Nat.lt_succ_self child) (le_max_right _ _)
    · exact ⟨Nat.lt_of_lt_of_le (h.entry i d hd).1 hnext, (h.entry i d hd).2⟩
  · intro i hi
    rw [hs.entries, if_neg (by omega)]
    exact h.fresh i (Nat.le_trans hnext hi)
  · intro f hf g hg heq
    rw [hs.root, hs.root] at heq
    exact h.apart f hf g hg heq
  · intro f hf i d hd heq
    rw [hs.root] at heq
    rcases hcases i d hd with ⟨_, rfl⟩ | hd
    · obtain ⟨hlt, ht⟩ := h.root f hf
      rcases hchild with hc | ⟨_, hfile⟩
      · exact absurd (hc.symm.trans heq) (by omega)
      · exact hfile (by rw [show child = w.root f from heq]; exact ht)
    · exact h.top f hf i d hd heq
  · intro i j d hd e he heq hdtype
    rcases hcases i d hd with ⟨hi, rfl⟩ | hd <;> rcases hcases j e he with ⟨hj, rfl⟩ | he
    · exact ⟨hi.trans hj.symm, rfl⟩
    · exact absurd hdtype (hnew j e he heq)
    · rw [heq] at hdtype
      exact absurd hdtype (hnew i d hd heq.symm)
    · rw [hs.type _ (h.entry i d hd).1] at hdtype
      exact h.once i j d hd e he heq hdtype
  · refine ⟨hnext, hs.root, hs.type, fun i hi m d _ hl => ?_⟩
    rw [lookupDentry_eq, hs.type i hi, hs.entries, text_congr hs.atNull]
    obtain ⟨hidir, -, -⟩ := lookupDentry_found hl
    rw [lookupDentry_eq, if_neg (not_not.mpr hidir)] at hl
    rw [if_neg (not_not.mpr hidir)]
    split
    · rename_i hid
      subst hid
      have hne : name ≠ m := by
        rintro rfl
        rw [lookupDentry_eq, if_neg (not_not.mpr hidir), hl] at hfree
        cases hfree
      have hskip : decide (w.text (some name) = m) = false := decide_eq_false hne
      simp only [List.find?_cons, hskip]
      exact hl
    · exact hl

theorem find?_eraseP {l : List Dentry} {p q : Dentry → Bool} (hpq : ∀ d, p d = true → q d = false) :
    (l.eraseP p).find? q = l.find? q := by
  induction l with
  | nil => rfl
  | cons d l ih =>
    by_cases hd : p d = true
    · rw [List.eraseP_cons_of_pos hd, List.find?_cons_of_neg (by rw [hpq d hd]; exact Bool.false_ne_true)]
    · rw [List.eraseP_cons_of_neg hd, List.find?_cons, List.find?_cons, ih]

theorem Planted.prune (h : Planted n w) (hp : Pruned w w' dir name) :
    Planted n w' ∧ Spares (fun i m => i = dir ∧ m = name) w w' := by
  have hsub : ∀ i, ∀ d ∈ w'.entries i, d ∈ w.entries i := by
    intro i d hd
    rw [hp.entries] at hd
    split at hd
    · exact List.mem_of_mem_eraseP hd
    · exact hd
  refine ⟨⟨hp.grant ▸ h.granted, ?_, ?_, ?_, ?_, ?_, ?_⟩, ?_⟩
  · intro i d hd
    rw [hp.next]
    exact h.entry i d (hsub i d hd)
  · intro i hi
    refine List.eq_nil_iff_forall_not_mem.mpr fun d hd => ?_
    have hd := hsub i d hd
    rw [h.fresh i (hp.next ▸ hi)] at hd
    cases hd
  · intro f hf
    rw [hp.root, hp.next, hp.type]
    exact h.root f hf
  · intro f hf g hg heq
    rw [hp.root, hp.root] at heq
    exact h.apart f hf g hg heq
  · intro f hf i d hd
    rw [hp.root]
    exact h.top f hf i d (hsub i d hd)
  · intro i j d hd e he heq htype
    rw [hp.type] at htype
    exact h.once i j d (hsub i d hd) e (hsub j e he) heq htype
  · refine ⟨hp.next.ge, hp.root, fun i _ => hp.type i, fun i _ m d hlost hl => ?_⟩
    obtain ⟨hidir, -, -⟩ := lookupDentry_found hl
    rw [lookupDentry_eq, hp.type, hp.entries, text_congr hp.atNull]
    rw [lookupDentry_eq] at hl
    split
    · rename_i hnot
      exact absurd hidir hnot
    rw [if_neg (not_not.mpr hidir)] at hl
    split
    · rename_i hi
      rw [find?_eraseP]
      · exact hl
      · intro e he
        have hname : w.text e.name = name := of_decide_eq_true he
        exact decide_eq_false fun hm => hlost ⟨hi, hm.symm.trans hname⟩
    · exact hl

end Grow

section Make

-- a node in reserve: nothing but what the allocation of `child` makes differs
structure Bears (w w' : World) (child : Nat) : Prop where
  grant : w'.grant = w.grant
  atNull : w'.atNull = w.atNull
  next : w'.nextInode = max w.nextInode (child + 1)
  root : ∀ g, w'.root g = w.root g
  type : ∀ i < w.nextInode, (w'.inode i).type = (w.inode i).type
  entries : ∀ i, w'.entries i = w.entries i

theorem Bears.same (h : Bears w w' child) (g : SameTrees w' w'') : Bears w w'' child where
  grant := g.grant.trans h.grant
  atNull := g.atNull.trans h.atNull
  next := g.next.trans h.next
  root k := (g.root k).trans (h.root k)
  type i hi := (g.type i).trans (h.type i hi)
  entries i := (g.entries i).trans (h.entries i)

theorem Bears.old (hc : child < w.nextInode) : Bears w w child where
  grant := rfl
  atNull := rfl
  next := (max_eq_left hc).symm
  root _ := rfl
  type _ _ := rfl
  entries _ := rfl

theorem Planted.born (h : Planted n w) (b : Born w w') : Bears w w' w.nextInode where
  grant := b.grant
  atNull := b.atNull
  next := b.nextInode.trans (max_eq_right (Nat.le_succ _)).symm
  root := b.root
  type i hi := by
    have hc := b.core i
    rw [if_neg (by omega)] at hc
    exact (core_eq hc).1
  entries i := by
    have hc := b.core i
    split at hc
    · rename_i hi
      rw [h.fresh i hi.ge]
      exact (core_eq hc).2.2.2
    · exact (core_eq hc).2.2.2

theorem Bears.setInode (b : Bears w w' w.nextInode) {m : Inode}
    (hm : m.entries = (w'.inode w.nextInode).entries) :
    Bears w (w'.setInode w.nextInode m) w.nextInode where
  grant := b.grant
  atNull := b.atNull
  next := b.next
  root := b.root
  type i hi := by
    rw [setInode_inode, if_neg (by omega)]
    exact b.type i hi
  entries i := by
    rw [← b.entries i, World.entries, setInode_inode]
    split
    · rename_i hi
      rw [hm, hi]
      rfl
    · rfl

theorem Bears.addEntry (b : Bears w w' child) (dir : Nat) (name : Path) :
    Sprouted w (w'.addEntry dir { name := some name, inode := child, mountedFs := none })
      dir child name where
  grant := b.grant
  atNull := b.atNull
  next := b.next
  root := b.root
  type i hi := by
    rw [← b.type i hi, World.addEntry, setInode_inode]
    split
    · rename_i hd
      rw [hd]
    · rfl
  entries i := by
    rw [← b.entries i, World.entries, World.addEntry, setInode_inode]
    split
    · rename_i hd
      rw [hd]
      rfl
    · rfl

theorem Bears.dirAdd (b : Bears w w' child) (hg : ∀ k, w.grant k = true) (hdir : dir < w.nextInode)
    (htype : (w.inode dir).type = .dir) (hname : (w'.inode child).name = some name)
    (hshort : name.length < pathCap) : Sprouted w (w'.dirAdd dir child) dir child name := by
  have hg' : ∀ k, w'.grant k = true := b.grant ▸ hg
  have ht' : (w'.inode dir).type = .dir := (b.type dir hdir).trans htype
  simp only [World.dirAdd, ht', hname, ne_eq, not_true_eq_false, if_false,
    dentryCreate_granted hg' hshort]
  exact ((b.same (sameTrees_allocs w' _)).addEntry dir name).same (Like.addLink _ child).sameTrees

theorem Planted.vallocInode (h : Planted n w) :
    ∃ w₁, w.vallocInode = (some w.nextInode, w₁) ∧ Bears w w₁ w.nextInode ∧ w₁.nextFs = w.nextFs := by
  rcases vallocInode_cases w with ⟨w₁, hv, -⟩ | ⟨w₁, hv, hb⟩
  · rw [vallocInode_eq, if_pos (h.granted _)] at hv
    cases hv
  · exact ⟨w₁, hv, h.born hb, hb.nextFs⟩

theorem Planted.newNode (h : Planted n w) (owner : Nat) (hdir : dir < w.nextInode)
    (htype : (w.inode dir).type = .dir) (hfree : w.lookupDentry dir name = none)
    (hshort : name.length < pathCap) {fill : Inode → Inode} (hfill : Fills fill) :
    Grows n w (w.newNode owner dir name fill).2 := by
  obtain ⟨w₁, hv, b, -⟩ := h.vallocInode
  have hg₁ : ∀ k, w₁.grant k = true := b.grant ▸ h.granted
  simp only [World.newNode, hv, dupName_granted hg₁ hshort]
  have b₂ := (b.same (sameTrees_allocs w₁ (w₁.allocs + 1))).setInode
    (hfill.entries { w₁.inode w.nextInode with name := some name })
  have hs := b₂.dirAdd h.granted hdir htype
    (by rw [setInode_inode, if_pos rfl, hfill.name]) hshort
  exact h.sprout (hs.same (Like.countInode _ owner).sameTrees) hdir htype hfree (Or.inl rfl)

theorem Planted.mkdirHere (h : Planted n w) (f : Nat) (hdir : dir < w.nextInode)
    (htype : (w.inode dir).type = .dir) (hfree : w.lookupDentry dir name = none)
    (hshort : name.length < pathCap) :
    ∃ w', w.mkdirHere f dir name = (some w.nextInode, w') ∧ Grows n w w' ∧
      w.nextInode < w'.nextInode ∧ (w'.inode w.nextInode).type = .dir := by
  rcases mkdirHere_eq w f dir name with ⟨-, -, hno⟩ | ⟨-, -, hmk⟩
  · exact absurd ⟨h.granted _, h.granted _⟩ hno
  have b : Bears w (bareDir w dir name) w.nextInode := by
    refine ⟨rfl, rfl, (max_eq_right (Nat.le_succ _)).symm, fun _ => rfl, fun i hi => ?_, fun i => ?_⟩
    · simp only [bareDir, if_neg (Nat.ne_of_lt hi)]
    · simp only [World.entries, bareDir]
      split
      · rename_i hi
        exact (h.fresh i hi.ge).symm
      · rfl
  have hname : ((bareDir w dir name).inode w.nextInode).name = some name := by
    simp only [bareDir, if_true, take_name hshort]
  have hs := (b.dirAdd h.granted hdir htype hname hshort).same (Like.countInode _ f).sameTrees
  refine ⟨_, hmk, h.sprout hs hdir htype hfree (Or.inl rfl), ?_, ?_⟩
  · rw [hs.next]
    exact Nat.lt_of_lt_of_le (Nat.lt_succ_self _) (le_max_right _ _)
  have hlt : w.nextInode < (bareDir w dir name).nextInode := Nat.lt_succ_self _
  have hs₂ := (Bears.old hlt).dirAdd h.granted (Nat.lt_trans hdir hlt)
    ((b.type dir hdir).trans htype) hname hshort
  refine (hs₂.type w.nextInode hlt).trans ?_
  simp only [bareDir, if_true]

theorem Planted.scan (h : Planted n w) (f : Nat) {cur : Nat} (hcur : cur < w.nextInode)
    (htype : (w.inode cur).type = .dir) (names : List Path)
    (hshort : ∀ m ∈ names, m.length < pathCap) :
    Grows n w (made (scanLast mkdirStep names (w, f, cur))) ∧
      ∀ s, scanLast mkdirStep names (w, f, cur) = .go s →
        s.2.1 = f ∧ s.2.2 < s.1.nextInode ∧ (s.1.inode s.2.2).type = .dir := by
  induction names generalizing w cur with
  | nil =>
    refine ⟨Grows.refl h, ?_⟩
    rintro _ ⟨⟩
    exact ⟨rfl, hcur, htype⟩
  | cons name names ih =>
    have hrest : ∀ m ∈ names, m.length < pathCap := fun m hm => hshort m (List.mem_cons_of_mem name hm)
    cases hl : w.lookupDentry cur name with
    | some d =>
      obtain ⟨-, hmem, -⟩ := lookupDentry_found hl
      obtain ⟨hlt, hm⟩ := h.entry cur d hmem
      have henter : w.enter f d = (f, d.inode) := by rw [World.enter, hm]
      by_cases hdir : (w.inode d.inode).type = .dir
      · simp only [scanLast, mkdirStep, hl, henter, hdir, ne_eq, not_true_eq_false, if_false]
        exact ih h hlt hdir hrest
      · simp only [scanLast, mkdirStep, hl, henter, hdir, ne_eq, not_false_eq_true, if_true]
        refine ⟨Grows.refl h, ?_⟩
        rintro _ ⟨⟩
    | none =>
      obtain ⟨w₁, hmk, g, hlt, hnew⟩ := h.mkdirHere f hcur htype hl (hshort name List.mem_cons_self)
      simp only [scanLast, mkdirStep, hl, hmk, hnew, ne_eq, not_true_eq_false, if_false]
      obtain ⟨g', hgo⟩ := ih g.planted hlt hnew hrest
      exact ⟨g.trans g', hgo⟩

theorem Planted.mkdirP (h : Planted n w) (hf : f < n) {path : Path} (hpath : path.length < pathCap) :
    ∃ r w', w.mkdirP f path = (r, w') ∧ Grows n w w' ∧
      ∀ s, r = some s → s.1 = f ∧ s.2 < w'.nextInode ∧ (w'.inode s.2).type = .dir := by
  have hlen : (skip slash path).length ≤ path.length := (List.dropWhile_sublist _).length_le
  obtain ⟨hlt, hdir⟩ := h.root f hf
  obtain ⟨g, hgo⟩ := h.scan f hlt hdir (components slash path)
    fun m hm => (names_ok hpath m hm).short
  rw [World.mkdirP, pathLoop_eq_scanLast slash _ _ _ _ hlen (skip_head slash path), skip,
    components_skip]
  cases hscan : scanLast mkdirStep (components slash path) (w, f, w.root f) with
  | ret w₁ =>
    rw [hscan] at g
    refine ⟨none, w₁, rfl, g, ?_⟩
    rintro _ ⟨⟩
  | go s =>
    rw [hscan] at g
    refine ⟨some s.2, s.1, rfl, g, ?_⟩
    rintro _ ⟨⟩
    exact hgo s hscan

theorem Planted.splitParent (h : Planted n w) (hf : f < n) {path : Path}
    (hpath : path.length < pathCap) :
    ∃ r w', w.splitParent f path = (r, w') ∧ Grows n w w' ∧
      ∀ name owner parent, r = some (name, owner, parent) → name.length < pathCap ∧ owner = f ∧
        parent < w'.nextInode ∧ (w'.inode parent).type = .dir := by
  cases hsplit : splitLast slash path with
  | none =>
    refine ⟨none, w, by simp only [World.splitParent, hsplit], Grows.refl h, ?_⟩
    rintro _ _ _ ⟨⟩
  | some r =>
    obtain ⟨dir, name⟩ := r
    have hsum := congrArg List.length (splitLast_some slash hsplit).1
    rw [List.length_append, List.length_cons] at hsum
    have hdir : (if dir.length = 0 then [slash] else dir).length < pathCap := by
      split
      · decide
      · omega
    obtain ⟨r, w', hmk, g, hr⟩ := h.mkdirP hf hdir
    cases r with
    | none =>
      refine ⟨none, w', by simp only [World.splitParent, hsplit, hmk], g, ?_⟩
      rintro _ _ _ ⟨⟩
    | some s =>
      refine ⟨some (name, s), w', by simp only [World.splitParent, hsplit, hmk], g, ?_⟩
      rintro _ _ _ ⟨⟩
      exact ⟨by omega, hr _ rfl⟩

end Make

section Walks

theorem Planted.unmounted (h : Planted n w) : Unmounted w := fun i d hd => (h.entry i d hd).2

theorem Planted.walk_lt (h : Planted n w) (names : List Path) :
    ∀ cur, cur < w.nextInode → ∀ i, walk w cur names = some i → i < w.nextInode := by
  induction names with
  | nil =>
    rintro cur hcur _ ⟨⟩
    exact hcur
  | cons name names ih =>
    intro cur hcur i hi
    rw [walk] at hi
    split at hi
    · cases hi
    · rename_i d hd
      exact ih d.inode (h.entry cur d (lookupDentry_found hd).2.1).1 i hi

theorem Spares.walk {lost : Nat → Path → Prop} (h : Planted n w) (hs : Spares lost w w')
    (names : List Path) : ∀ cur, cur < w.nextInode →
      (∀ ns name rest j, names = ns ++ name :: rest → walk w cur ns = some j → ¬ lost j name) →
        ∀ i, walk w cur names = some i → walk w' cur names = some i := by
  induction names with
  | nil => exact fun _ _ _ _ hi => hi
  | cons name names ih =>
    intro cur hcur hlost i hi
    rw [Memfs.walk] at hi ⊢
    cases hl : w.lookupDentry cur name with
    | none =>
      rw [hl] at hi
      cases hi
    | some d =>
      rw [hl] at hi
      rw [hs.found cur hcur name d (hlost [] name names cur rfl rfl) hl]
      refine ih d.inode (h.entry cur d (lookupDentry_found hl).2.1).1 (fun ns m rest j heq hj => ?_) i hi
      refine hlost (name :: ns) m rest j (by rw [heq]; rfl) ?_
      rw [Memfs.walk, hl]
      exact hj

theorem walk_snoc_some {cur i : Nat} {p : List Path} {m : Path}
    (h : walk w cur (p ++ [m]) = some i) :
    ∃ j d, walk w cur p = some j ∧ w.lookupDentry j m = some d ∧ d.inode = i := by
  rw [walk_snoc] at h
  obtain ⟨j, hj, hd⟩ := Option.bind_eq_some_iff.mp h
  obtain ⟨d, hd, hdi⟩ := Option.map_eq_some_iff.mp hd
  exact ⟨j, d, hj, hd, hdi⟩

theorem Planted.walk_unique (h : Planted n w) (hf : f < n) (hg : g < n) (p : List Path) :
    ∀ q i, walk w (w.root f) p = some i → walk w (w.root g) q = some i →
      (w.inode i).type = .dir → f = g ∧ p = q := by
  induction p using List.reverseRecOn with
  | nil =>
    intro q i hp hq htype
    cases hp
    rcases List.eq_nil_or_concat q with rfl | ⟨q, m, rfl⟩
    · exact ⟨h.apart f hf g hg (Option.some.inj hq).symm, rfl⟩
    · rw [List.concat_eq_append] at hq
      obtain ⟨j, d, -, hd, hdi⟩ := walk_snoc_some hq
      exact absurd hdi (h.top f hf j d (lookupDentry_found hd).2.1)
  | append_singleton p m ih =>
    intro q i hp hq htype
    obtain ⟨j, d, hj, hd, hdi⟩ := walk_snoc_some hp
    obtain ⟨hjdir, hmem, htext⟩ := lookupDentry_found hd
    rcases List.eq_nil_or_concat q with rfl | ⟨q, m', rfl⟩
    · cases hq
      exact absurd hdi (h.top g hg j d hmem)
    · rw [List.concat_eq_append] at hq ⊢
      obtain ⟨j', d', hj', hd', hdi'⟩ := walk_snoc_some hq
      obtain ⟨-, hmem', htext'⟩ := lookupDentry_found hd'
      obtain ⟨rfl, hname⟩ := h.once j j' d hmem d' hmem' (hdi.trans hdi'.symm) (hdi.symm ▸ htype)
      obtain ⟨hfg, rfl⟩ := ih q j hj hj' hjdir
      exact ⟨hfg, by rw [← htext, hname, htext']⟩

end Walks

section Calls

def LeadsToDir (w : World) (f : Nat) (path : Path) : Prop :=
  (w.lookupPath f path).map (fun i => (w.inode i).type) = some .dir

theorem leadsToDir_iff (h : Planted n w) (f : Nat) (path : Path) :
    LeadsToDir w f path ↔ path.head? = some slash ∧
      ∃ i, walk w (w.root f) (components slash path) = some i ∧ (w.inode i).type = .dir := by
  rw [LeadsToDir]
  by_cases habs : path.head? = some slash
  · rw [h.unmounted.lookupPath_eq habs, Option.map_eq_some_iff]
    exact ⟨fun hi => ⟨habs, hi⟩, fun hi => hi.2⟩
  · rw [World.lookupPath, lookupPathEx_relative habs]
    constructor
    · intro hnone
      cases hnone
    · rintro ⟨hhead, -⟩
      exact absurd hhead habs

theorem Grows.leads (h : Planted n w) (g : Grows n w w') (hf : f < n) {path : Path}
    (hdir : LeadsToDir w f path) : LeadsToDir w' f path := by
  obtain ⟨habs, i, hi, htype⟩ := (leadsToDir_iff h f path).mp hdir
  have hroot := (h.root f hf).1
  refine (leadsToDir_iff g.planted f path).mpr ⟨habs, i, ?_, ?_⟩
  · rw [g.spares.root]
    exact g.spares.walk h _ _ hroot (fun _ _ _ _ _ _ => id) i hi
  · rw [g.spares.type i (h.walk_lt _ _ hroot i hi)]
    exact htype

theorem Planted.createDir (h : Planted n w) (hf : f < n) {path : Path}
    (hpath : path.length < pathCap) : Grows n w (w.memfsCreateDir f path).2 := by
  rw [World.memfsCreateDir]
  split
  · exact Grows.refl h
  obtain ⟨r, w₁, hs, g, hr⟩ := h.splitParent hf hpath
  rw [hs]
  cases r with
  | none => exact g
  | some r =>
    obtain ⟨name, owner, parent⟩ := r
    obtain ⟨hshort, -, hlt, hdir⟩ := hr name owner parent rfl
    dsimp only
    split
    · split
      · exact g
      · split <;> exact g
    · rename_i hfree
      exact g.trans (g.planted.newNode owner hlt hdir hfree hshort
        ⟨fun _ => rfl, fun _ => rfl, fun _ => rfl, fun _ => rfl⟩)

theorem Planted.createFile (h : Planted n w) (hf : f < n) {path : Path}
    (hpath : path.length < pathCap) : Grows n w (w.memfsCreateFile f path).2 := by
  rw [World.memfsCreateFile, World.createNode]
  split
  · exact Grows.refl h
  obtain ⟨r, w₁, hs, g, hr⟩ := h.splitParent hf hpath
  rw [hs]
  cases r with
  | none => exact g
  | some r =>
    obtain ⟨name, owner, parent⟩ := r
    obtain ⟨hshort, -, hlt, hdir⟩ := hr name owner parent rfl
    dsimp only
    split
    · split
      · exact g
      · split <;> exact g
    · rename_i hfree
      exact g.trans (g.planted.newNode owner hlt hdir hfree hshort
        ⟨fun _ => rfl, fun _ => rfl, fun _ => rfl, fun _ => rfl⟩)

theorem Planted.link (h : Planted n w) (hf : f < n) {old new : Path} (hnew : new.length < pathCap)
    (hfile : ¬ LeadsToDir w f old) : Grows n w (w.memfsLink f old new).2 := by
  rw [World.memfsLink]
  split
  · exact Grows.refl h
  rename_i i hold
  have hlt : i < w.nextInode ∧ (w.inode i).type ≠ .dir := by
    refine ⟨?_, fun htype => hfile (by rw [LeadsToDir, hold, Option.map_some, htype])⟩
    by_cases habs : old.head? = some slash
    · rw [h.unmounted.lookupPath_eq habs] at hold
      exact h.walk_lt _ _ (h.root f hf).1 i hold
    · rw [World.lookupPath, lookupPathEx_relative habs] at hold
      cases hold
  obtain ⟨r, w₁, hs, g, hr⟩ := h.splitParent hf hnew
  rw [hs]
  cases r with
  | none => exact g
  | some r =>
    obtain ⟨name, owner, parent⟩ := r
    obtain ⟨hshort, -, hparent, hdir⟩ := hr name owner parent rfl
    dsimp only
    split
    · exact g
    · rename_i hfree
      have hi : i < w₁.nextInode := Nat.lt_of_lt_of_le hlt.1 g.spares.next
      simp only [dentryCreate_granted g.planted.granted hshort]
      have hs := (((Bears.old hi).same (sameTrees_allocs w₁ (w₁.allocs + 1 + 1))).addEntry parent name).same
        (Like.addLink _ i).sameTrees
      exact g.trans (g.planted.sprout hs hparent hdir hfree
        (Or.inr ⟨hi, by rw [g.spares.type i hlt.1]; exact hlt.2⟩))

theorem pruned_removeEntry (w : World) {parent : Nat} {d : Dentry} (hd : w.text d.name = name) :
    Pruned w (w.removeEntry parent d) parent name := by
  refine ⟨rfl, rfl, rfl, fun _ => rfl, fun i => ?_, fun i => ?_⟩
  · rw [World.removeEntry, setInode_inode]
    split
    · rename_i hi
      rw [hi]
    · rfl
  · rw [World.entries, World.removeEntry, setInode_inode]
    split
    · rename_i hi
      rw [hi, hd]
      rfl
    · rfl

theorem Planted.cut (h : Planted n w) (hp : Pruned w w' dir name) (hg : g < n) {path : Path}
    (hdir : LeadsToDir w g path)
    (haway : ∀ ns rest, components slash path = ns ++ name :: rest → walk w (w.root g) ns ≠ some dir) :
    LeadsToDir w' g path := by
  obtain ⟨hplanted, hspares⟩ := h.prune hp
  obtain ⟨habs, i, hi, htype⟩ := (leadsToDir_iff h g path).mp hdir
  refine (leadsToDir_iff hplanted g path).mpr ⟨habs, i, ?_, by rw [hp.type]; exact htype⟩
  rw [hp.root]
  refine hspares.walk h _ _ (h.root g hg).1 (fun ns m rest j heq hj hlost => ?_) i hi
  obtain ⟨rfl, rfl⟩ := hlost
  exact haway ns rest heq hj

theorem Planted.deleteDir (h : Planted n w) (hf : f < n) (path : Path) :
    Planted n (w.memfsDeleteDir f path).2 ∧ ∀ g < n, ∀ r, LeadsToDir w g r →
      ¬ (g = f ∧ components slash path <+: components slash r) →
        LeadsToDir (w.memfsDeleteDir f path).2 g r := by
  have hsame : Planted n w ∧ ∀ g < n, ∀ r, LeadsToDir w g r →
      ¬ (g = f ∧ components slash path <+: components slash r) → LeadsToDir w g r :=
    ⟨h, fun _ _ _ hr _ => hr⟩
  rw [World.memfsDeleteDir]
  split
  · exact hsame
  split
  · exact hsame
  rename_i d owner parent hlook
  obtain ⟨ns, name, hnames, rfl, hparent, hd⟩ := h.unmounted.lookupPathDentry_some hlook
  obtain ⟨-, -, htext⟩ := lookupDentry_found hd
  split
  · exact hsame
  rename_i htype
  split
  · exact hsame
  split
  · exact hsame
  split
  · exact hsame
  have hp : Pruned w ((w.removeEntry parent d).dropLink d.inode) parent name :=
    (pruned_removeEntry w htext).same (Like.dropLink _ _).sameTrees
  -- only the path to the directory leads through its entry
  have hrest : ∀ w', Pruned w w' parent name → Planted n w' ∧ ∀ g < n, ∀ r, LeadsToDir w g r →
      ¬ (g = owner ∧ components slash path <+: components slash r) → LeadsToDir w' g r := by
    intro w' hp
    refine ⟨(h.prune hp).1, fun g hg r hr hnot => h.cut hp hg hr fun ns' rest heq hwalk => hnot ?_⟩
    have hthrough : ∀ k ms, walk w (w.root k) ms = some parent →
        walk w (w.root k) (ms ++ [name]) = some d.inode := by
      intro k ms hms
      rw [walk_snoc, hms, Option.bind_some, hd]
      rfl
    obtain ⟨rfl, hpath⟩ := h.walk_unique hg hf (ns' ++ [name]) (ns ++ [name]) d.inode
      (hthrough g ns' hwalk) (hthrough owner ns hparent) (not_not.mp htype)
    refine ⟨rfl, rest, ?_⟩
    rw [hnames, ← hpath, heq, List.append_assoc, List.singleton_append]
  dsimp only
  split
  · exact hrest _ (hp.same ((Like.uncountInode _ owner).trans (Like.vfreeInode _ _)).sameTrees)
  · exact hrest _ hp

theorem Planted.deleteFile (h : Planted n w) (f : Nat) (path : Path) :
    Planted n (w.memfsDeleteFile f path).2 ∧ ∀ g < n, ∀ r, LeadsToDir w g r →
      LeadsToDir (w.memfsDeleteFile f path).2 g r := by
  have hsame : Planted n w ∧ ∀ g < n, ∀ r, LeadsToDir w g r → LeadsToDir w g r :=
    ⟨h, fun _ _ _ hr => hr⟩
  rw [memfsDeleteFile_eq]
  split
  · exact hsame
  split
  · exact hsame
  rename_i d owner parent hlook
  obtain ⟨ns, name, -, -, -, hd⟩ := h.unmounted.lookupPathDentry_some hlook
  obtain ⟨-, -, htext⟩ := lookupDentry_found hd
  split
  · exact hsame
  split
  · exact hsame
  rename_i hstore
  have hfile : (w.inode d.inode).type ≠ .dir := by
    intro htype
    rw [htype] at hstore
    exact hstore (by decide)
  have hp : Pruned w (deletedFile w owner parent d) parent name := by
    have hcut : Pruned w ((w.removeEntry parent d).dropLink d.inode) parent name :=
      (pruned_removeEntry w htext).same (Like.dropLink _ _).sameTrees
    rw [deletedFile]
    split
    · exact (hcut.same (sameTrees_dropData _ owner _)).same
        ((Like.uncountInode _ owner).trans (Like.vfreeInode _ _)).sameTrees
    · exact hcut
  refine ⟨(h.prune hp).1, fun g hg r hr => h.cut hp hg hr fun ns' rest heq hwalk => ?_⟩
  -- a path through the entry of a file ends there, and not at a directory
  obtain ⟨-, i, hi, htype⟩ := (leadsToDir_iff h g r).mp hr
  rw [heq, walk_append, hwalk, Option.bind_some, walk, hd] at hi
  cases rest with
  | nil =>
    cases hi
    exact hfile htype
  | cons m rest =>
    dsimp only at hi
    rw [walk] at hi
    cases hl : w.lookupDentry d.inode m with
    | none =>
      rw [hl] at hi
      cases hi
    | some e => exact hfile (lookupDentry_found hl).1

theorem planted_blank (atNull : Path) : Planted 0 (blankWorld atNull) where
  granted _ := rfl
  entry i d hd := by cases hd
  fresh _ _ := rfl
  root f hf := absurd hf (Nat.not_lt_zero f)
  apart f hf := absurd hf (Nat.not_lt_zero f)
  top f hf := absurd hf (Nat.not_lt_zero f)
  once i j d hd := by cases hd

theorem Planted.same (h : Planted n w) (g : SameTrees w w') : Planted n w' where
  granted := g.grant ▸ h.granted
  entry i d hd := by
    rw [g.next]
    exact h.entry i d (g.entries i ▸ hd)
  fresh i hi := by
    rw [g.entries]
    exact h.fresh i (g.next ▸ hi)
  root f hf := by
    rw [g.root, g.next, g.type]
    exact h.root f hf
  apart f hf k hk heq := by
    rw [g.root, g.root] at heq
    exact h.apart f hf k hk heq
  top f hf i d hd := by
    rw [g.root]
    exact h.top f hf i d (g.entries i ▸ hd)
  once i j d hd e he heq htype := by
    rw [g.type] at htype
    exact h.once i j d (g.entries i ▸ hd) e (g.entries j ▸ he) heq htype

theorem Planted.settle (h : Planted n w) (b : Bears w w' w.nextInode)
    (htype : (w'.inode w.nextInode).type = .dir) {m : Fs} (hm : m.root = w.nextInode) :
    Planted (n + 1) ({ w' with nextFs := n + 1 }.setMemfs n m) := by
  have hnext : w'.nextInode = w.nextInode + 1 := b.next.trans (max_eq_right (Nat.le_succ _))
  obtain ⟨v, hv⟩ : ∃ v, v = { w' with nextFs := n + 1 }.setMemfs n m := ⟨_, rfl⟩
  have hroot : ∀ f < n + 1, f = n ∧ v.root f = w.nextInode ∨ f < n ∧ v.root f = w.root f := by
    intro f hf
    have hvf : v.root f = if f = n then m.root else w.root f := by
      rw [hv, ← b.root]
      simp only [World.root, World.setMemfs]
      split <;> rfl
    rw [hvf]
    rcases Nat.lt_or_eq_of_le (Nat.le_of_lt_succ hf) with hlt | heq
    · exact Or.inr ⟨hlt, if_neg (Nat.ne_of_lt hlt)⟩
    · exact Or.inl ⟨heq, (if_pos heq).trans hm⟩
  have hentries : ∀ i, v.entries i = w.entries i := by
    rw [hv]
    exact b.entries
  have hnode : v.inode = w'.inode ∧ v.nextInode = w'.nextInode := by
    rw [hv]
    exact ⟨rfl, rfl⟩
  rw [← hv]
  refine ⟨?_, ?_, ?_, ?_, ?_, ?_, ?_⟩
  · rw [hv]
    exact b.grant ▸ h.granted
  · intro i d hd
    obtain ⟨hlt, hmount⟩ := h.entry i d (hentries i ▸ hd)
    rw [hnode.2]
    exact ⟨by omega, hmount⟩
  · intro i hi
    rw [hentries]
    exact h.fresh i (by rw [hnode.2] at hi; omega)
  · intro f hf
    rw [hnode.1, hnode.2, hnext]
    rcases hroot f hf with ⟨-, hr⟩ | ⟨hlt, hr⟩
    · rw [hr]
      exact ⟨Nat.lt_succ_self _, htype⟩
    · obtain ⟨hr₁, hr₂⟩ := h.root f hlt
      rw [hr, b.type _ hr₁]
      exact ⟨Nat.lt_succ_of_lt hr₁, hr₂⟩
  · intro f hf g hg heq
    rcases hroot f hf with ⟨hfn, hrf⟩ | ⟨hfn, hrf⟩ <;> rcases hroot g hg with ⟨hgn, hrg⟩ | ⟨hgn, hrg⟩
    · exact hfn.trans hgn.symm
    · have := (h.root g hgn).1
      omega
    · have := (h.root f hfn).1
      omega
    · exact h.apart f hfn g hgn (by omega)
  · intro f hf i d hd
    have hd := hentries i ▸ hd
    rcases hroot f hf with ⟨-, hr⟩ | ⟨hlt, hr⟩
    · have := (h.entry i d hd).1
      omega
    · rw [hr]
      exact h.top f hlt i d hd
  · intro i j d hd e he heq hdtype
    have hd := hentries i ▸ hd
    rw [hnode.1, b.type _ (h.entry i d hd).1] at hdtype
    exact h.once i j d hd e (hentries j ▸ he) heq hdtype

theorem Planted.memfsCreate (h : Planted n w) (hn : w.nextFs = n) (size : Nat) :
    Planted (n + 1) (w.memfsCreate size).2 ∧ (w.memfsCreate size).2.nextFs = n + 1 := by
  obtain ⟨w₁, hv₁, h₁, hn₁⟩ : ∃ w₁, w.valloc fsBytes = (true, w₁) ∧ Planted n w₁ ∧ w₁.nextFs = n :=
    ⟨_, valloc_granted h.granted (by decide), h.same (sameTrees_allocs w _), hn⟩
  obtain ⟨w₂, hv₂, b₂, hn₂⟩ := h₁.vallocInode
  obtain ⟨w₃, hw₃⟩ : ∃ w₃, w₃ = w₂.setInode w₁.nextInode
      { w₂.inode w₁.nextInode with type := .dir } := ⟨_, rfl⟩
  have b₃ : Bears w₁ w₃ w₁.nextInode := hw₃ ▸ b₂.setInode rfl
  have htype₃ : (w₃.inode w₁.nextInode).type = .dir := by
    rw [hw₃, setInode_inode, if_pos rfl]
  have hn₃ : w₃.nextFs = n := by
    rw [hw₃]
    exact hn₂.trans hn₁
  obtain ⟨w₄, hdup, hsame, hn₄⟩ : ∃ w₄, w₃.dupName (some [slash]) = (some [slash], w₄) ∧
      SameTrees w₃ w₄ ∧ w₄.nextFs = n :=
    ⟨_, dupName_granted (b₃.grant ▸ h₁.granted) (by decide), sameTrees_allocs w₃ _, hn₃⟩
  have b₅ := (b₃.same hsame).setInode
    (m := { w₄.inode w₁.nextInode with name := some [slash], linkCount := 1 }) rfl
  simp only [World.memfsCreate, hv₁, hv₂, ← hw₃, hdup, hn₄]
  refine ⟨h₁.settle b₅ ?_ rfl, rfl⟩
  rw [setInode_inode, if_pos rfl]
  exact (hsame.type _).trans htype₃

end Calls

end HouseOS.Memfs
