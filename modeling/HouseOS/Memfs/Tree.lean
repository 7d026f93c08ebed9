import Mathlib.Algebra.Order.BigOperators.Group.Finset
import Mathlib.Algebra.BigOperators.Intervals
import HouseOS.Library.Graph
import HouseOS.Memfs.Model

namespace HouseOS.Memfs

open Relation
open HouseOS.Graph
open HouseOS.Vfs (Path slash NodeType pathCap)

namespace World

def entries (w : World) (i : Nat) : List Dentry := (w.inode i).entries

def refersTo (j : Nat) (d : Dentry) : Bool := decide (d.inode = j)

def refs (w : World) (j : Nat) : Nat :=
  ∑ i ∈ Finset.range w.nextInode, if w.live i then (w.entries i).countP (refersTo j) else 0

def Edge (w : World) (i j : Nat) : Prop := w.live i ∧ ∃ d ∈ w.entries i, d.inode = j

def Reaches (w : World) : Nat → Nat → Prop := ReflTransGen w.Edge

def IsDir (w : World) (i : Nat) : Prop := w.live i ∧ (w.inode i).type = .dir

end World

open World

structure NameOk (name : Path) : Prop where
  nonempty : name ≠ []
  noSlash : slash ∉ name
  short : name.length < pathCap

structure EntryOk (w : World) (d : Dentry) : Prop where
  named : ∃ name, d.name = some name ∧ NameOk name
  unmounted : d.mountedFs = none
  live : w.live d.inode

structure Tree (w : World) (f : Nat) : Prop where
  granted : ∀ n, w.grant n = true
  root : w.IsDir (w.root f)
  below : ∀ i, w.live i → i < w.nextInode
  blank : ∀ i, w.nextInode ≤ i → (w.inode i).linkCount = 0 ∧ (w.inode i).entryCount = 0
  idle : ∀ i, w.entries i ≠ [] → w.IsDir i
  entry : ∀ i, ∀ d ∈ w.entries i, EntryOk w d
  distinct : ∀ i, ((w.entries i).map (fun d => d.name)).Nodup
  count : ∀ i, (w.inode i).entryCount = (w.entries i).length
  links : ∀ i, w.live i → (w.inode i).linkCount = w.refs i + if i = w.root f then 1 else 0
  linked : ∀ i, w.live i → 0 < (w.inode i).linkCount
  acyclic : Acyclic w.Edge

structure Alike (w w' : World) (f : Nat) : Prop where
  grant : w'.grant = w.grant
  live : w'.live = w.live
  next : w'.nextInode = w.nextInode
  root : w'.root f = w.root f
  type : ∀ i, (w'.inode i).type = (w.inode i).type
  links : ∀ i, (w'.inode i).linkCount = (w.inode i).linkCount
  entries : ∀ i, w'.entries i = w.entries i
  count : ∀ i, (w'.inode i).entryCount = (w.inode i).entryCount

structure Grown (w w' : World) (f dir child : Nat) (name : Path) : Prop where
  grant : w'.grant = w.grant
  live : ∀ i, w'.live i = if i = child then true else w.live i
  next : w'.nextInode = max w.nextInode (child + 1)
  root : w'.root f = w.root f
  type : ∀ i, i < w.nextInode → (w'.inode i).type = (w.inode i).type
  links : ∀ i, (w'.inode i).linkCount = (w.inode i).linkCount + if i = child then 1 else 0
  entries : ∀ i, w'.entries i =
    if i = dir then { name := some name, inode := child, mountedFs := none } :: w.entries i
    else w.entries i
  count : ∀ i, (w'.inode i).entryCount = (w.inode i).entryCount + if i = dir then 1 else 0

structure Shrunk (w w' : World) (f dir : Nat) (d : Dentry) : Prop where
  grant : w'.grant = w.grant
  live : ∀ i, w'.live i =
    if i = d.inode ∧ (w.inode i).linkCount = 1 then false else w.live i
  next : w'.nextInode = w.nextInode
  root : w'.root f = w.root f
  type : ∀ i, (w'.inode i).type = (w.inode i).type
  links : ∀ i, (w'.inode i).linkCount = (w.inode i).linkCount - if i = d.inode then 1 else 0
  entries : ∀ i, w'.entries i =
    if i = dir then (w.entries i).eraseP (fun e => decide (e.name = d.name)) else w.entries i
  count : ∀ i, (w'.inode i).entryCount = (w.inode i).entryCount - if i = dir then 1 else 0

variable {w w' : World} {f : Nat}

section Refs

theorem Tree.entries_fresh (h : Tree w f) {i : Nat} (hi : w.nextInode ≤ i) : w.entries i = [] := by
  by_contra hne
  have := h.below i (h.idle i hne).1
  omega

theorem Tree.refs_eq (h : Tree w f) (j n : Nat) (hn : w.nextInode ≤ n) :
    w.refs j = ∑ i ∈ Finset.range n, (w.entries i).countP (refersTo j) := by
  have hlive : ∀ i, (if w.live i then (w.entries i).countP (refersTo j) else 0) =
      (w.entries i).countP (refersTo j) := by
    intro i
    split
    · rfl
    · rename_i hdead
      by_cases hne : w.entries i = []
      · simp [hne]
      · exact absurd (h.idle i hne).1 hdead
  simp only [World.refs, hlive]
  refine Finset.sum_subset (Finset.range_subset_range.mpr hn) ?_
  intro i _ hi
  rw [h.entries_fresh (by simpa using hi)]
  rfl

theorem Tree.edge_iff (h : Tree w f) {i j : Nat} : w.Edge i j ↔ ∃ d ∈ w.entries i, d.inode = j := by
  refine ⟨fun he => he.2, ?_⟩
  rintro ⟨d, hd, rfl⟩
  exact ⟨(h.idle i (List.ne_nil_of_mem hd)).1, d, hd, rfl⟩

theorem sum_countP_insert {e e' : Nat → List Dentry} {dir n : Nat} {d : Dentry} (hdir : dir < n)
    (he : ∀ i, e' i = if i = dir then d :: e i else e i) (j : Nat) :
    ∑ i ∈ Finset.range n, (e' i).countP (refersTo j) =
      (∑ i ∈ Finset.range n, (e i).countP (refersTo j)) + if j = d.inode then 1 else 0 := by
  have hsplit : ∀ i, (e' i).countP (refersTo j) =
      (e i).countP (refersTo j) + if i = dir then (if j = d.inode then 1 else 0) else 0 := by
    intro i
    rw [he]
    split
    · rw [List.countP_cons]
      simp [refersTo, eq_comm]
    · rfl
  simp only [hsplit, Finset.sum_add_distrib, Finset.sum_ite_eq', Finset.mem_range, hdir, if_true]

end Refs

theorem EntryOk.mono {d : Dentry} (h : EntryOk w d) (hlive : w'.live d.inode) : EntryOk w' d :=
  ⟨h.named, h.unmounted, hlive⟩

theorem Alike.edge (g : Alike w w' f) : w'.Edge = w.Edge := by
  funext i j
  simp only [World.Edge, g.live, g.entries]

theorem Alike.isDir (g : Alike w w' f) (i : Nat) : w'.IsDir i ↔ w.IsDir i := by
  simp only [World.IsDir, g.live, g.type]

theorem Alike.refl (w : World) (f : Nat) : Alike w w f :=
  ⟨rfl, rfl, rfl, rfl, fun _ => rfl, fun _ => rfl, fun _ => rfl, fun _ => rfl⟩

theorem Alike.trans {w'' : World} (g : Alike w w' f) (g' : Alike w' w'' f) : Alike w w'' f where
  grant := g'.grant.trans g.grant
  live := g'.live.trans g.live
  next := g'.next.trans g.next
  root := g'.root.trans g.root
  type i := (g'.type i).trans (g.type i)
  links i := (g'.links i).trans (g.links i)
  entries i := (g'.entries i).trans (g.entries i)
  count i := (g'.count i).trans (g.count i)

theorem Tree.alike (h : Tree w f) (g : Alike w w' f) : Tree w' f where
  granted := g.grant ▸ h.granted
  root := (g.isDir _).mpr (g.root ▸ h.root)
  below i hi := g.next ▸ h.below i (g.live ▸ hi)
  blank i hi := by
    rw [g.links, g.count]
    exact h.blank i (g.next ▸ hi)
  idle i hi := (g.isDir i).mpr (h.idle i (g.entries i ▸ hi))
  entry i d hd := (h.entry i d (g.entries i ▸ hd)).mono (g.live ▸ (h.entry i d (g.entries i ▸ hd)).live)
  distinct i := g.entries i ▸ h.distinct i
  count i := by rw [g.count, g.entries, h.count]
  links i hi := by
    rw [g.links, g.root, h.links i (g.live ▸ hi)]
    simp only [World.refs, g.next, g.live, g.entries]
  linked i hi := by
    rw [g.links]
    exact h.linked i (g.live ▸ hi)
  acyclic := g.edge ▸ h.acyclic

section Grow

variable {dir child : Nat} {name : Path}

theorem Grown.edge (h : Tree w f) (g : Grown w w' f dir child name) (hdir : w.IsDir dir)
    (hne : dir ≠ child) : w'.Edge = addEdge w.Edge dir child := by
  funext i j
  apply propext
  constructor
  · rintro ⟨_, d, hd, rfl⟩
    rw [g.entries] at hd
    split at hd
    · rename_i hi
      rcases List.mem_cons.mp hd with rfl | hd
      · exact Or.inr ⟨hi, rfl⟩
      · exact Or.inl (h.edge_iff.mpr ⟨d, hd, rfl⟩)
    · exact Or.inl (h.edge_iff.mpr ⟨d, hd, rfl⟩)
  · rintro (⟨hlive, d, hd, rfl⟩ | ⟨rfl, rfl⟩)
    · refine ⟨?_, d, ?_, rfl⟩
      · rw [g.live]
        split
        · rfl
        · exact hlive
      · rw [g.entries]
        split
        · exact List.mem_cons_of_mem _ hd
        · exact hd
    · refine ⟨?_, { name := some name, inode := j, mountedFs := none }, ?_, rfl⟩
      · rw [g.live, if_neg hne]
        exact hdir.1
      · rw [g.entries, if_pos rfl]
        exact List.mem_cons_self

theorem Tree.grow (h : Tree w f) (g : Grown w w' f dir child name) (hdir : w.IsDir dir)
    (hname : NameOk name) (hfresh : ∀ d ∈ w.entries dir, d.name ≠ some name)
    (hchild : child ≤ w.nextInode) (hold : child < w.nextInode → w.live child)
    (hback : ¬ w.Reaches child dir) : Tree w' f := by
  have hne : dir ≠ child := by
    rintro rfl
    exact hback .refl
  have hlive : ∀ i, w.live i → w'.live i := by
    intro i hi
    rw [g.live]
    split
    · rfl
    · exact hi
  have hlive' : ∀ i, w'.live i → i ≠ child → w.live i := by
    intro i hi hic
    rwa [g.live, if_neg hic] at hi
  have hisDir : ∀ i, w.IsDir i → w'.IsDir i := fun i hi =>
    ⟨hlive i hi.1, (g.type i (h.below i hi.1)).trans hi.2⟩
  have hidle : ∀ i, w'.entries i ≠ [] → w'.IsDir i := by
    intro i hi
    rw [g.entries] at hi
    split at hi
    · rename_i heq
      exact heq ▸ hisDir dir hdir
    · exact hisDir i (h.idle i hi)
  have hbelow : ∀ i, w'.live i → i < w'.nextInode := by
    intro i hi
    rw [g.next]
    by_cases hic : i = child
    · omega
    · have := h.below i (hlive' i hi hic)
      omega
  have hrefs : ∀ j, w'.refs j = w.refs j + if j = child then 1 else 0 := by
    intro j
    have hmax : w.nextInode ≤ max w.nextInode (child + 1) := le_max_left _ _
    rw [h.refs_eq j _ hmax, ← sum_countP_insert (lt_of_lt_of_le (h.below dir hdir.1) hmax) g.entries j]
    have hdead : ∀ i, (if w'.live i then (w'.entries i).countP (refersTo j) else 0) =
        (w'.entries i).countP (refersTo j) := by
      intro i
      split
      · rfl
      · rename_i hd
        by_cases he : w'.entries i = []
        · rw [he]
          rfl
        · exact absurd (hidle i he).1 hd
    simp only [World.refs, g.next, hdead]
  refine ⟨g.grant ▸ h.granted, g.root ▸ hisDir _ h.root, hbelow, ?_, hidle, ?_, ?_, ?_, ?_, ?_, ?_⟩
  · intro i hi
    rw [g.next] at hi
    have hblank := h.blank i (by omega)
    have hid : i ≠ dir := by
      have := h.below dir hdir.1
      omega
    rw [g.links, g.count, if_neg (by omega), if_neg hid]
    exact hblank
  · intro i d hd
    rw [g.entries] at hd
    split at hd
    · rcases List.mem_cons.mp hd with rfl | hd
      · exact ⟨⟨name, rfl, hname⟩, rfl, by rw [g.live, if_pos rfl]⟩
      · exact (h.entry i d hd).mono (hlive _ (h.entry i d hd).live)
    · exact (h.entry i d hd).mono (hlive _ (h.entry i d hd).live)
  · intro i
    rw [g.entries]
    split
    · rename_i heq
      rw [List.map_cons, List.nodup_cons]
      refine ⟨?_, h.distinct i⟩
      intro hmem
      obtain ⟨d, hd, hdn⟩ := List.mem_map.mp hmem
      exact hfresh d (heq ▸ hd) hdn
    · exact h.distinct i
  · intro i
    rw [g.count, g.entries, h.count]
    split
    · rfl
    · rfl
  · intro i hi
    rw [g.links, g.root, hrefs]
    by_cases hic : i = child
    · rcases Nat.lt_or_eq_of_le hchild with hlt | heq
      · rw [h.links i (hic ▸ hold hlt)]
        omega
      · have hroot : i ≠ w.root f := by
          have := h.below _ h.root.1
          omega
        have hzero : w.refs i = 0 := by
          rw [h.refs_eq i _ le_rfl]
          refine Finset.sum_eq_zero ?_
          intro k _
          rw [List.countP_eq_zero]
          intro d hd hdi
          have := h.below _ (h.entry k d hd).live
          have hdi : d.inode = i := of_decide_eq_true hdi
          omega
        rw [(h.blank i (by omega)).1, hzero, if_neg hroot, Nat.add_zero]
    · rw [h.links i (hlive' i hi hic)]
      omega
  · intro i hi
    rw [g.links]
    by_cases hic : i = child
    · rw [if_pos hic]
      omega
    · have := h.linked i (hlive' i hi hic)
      omega
  · rw [g.edge h hdir hne]
    exact h.acyclic.addEdge hback

end Grow

section Shrink

variable {dir : Nat} {d : Dentry}

theorem countP_eraseP {l : List Dentry} {j : Nat} (hnd : (l.map (fun d => d.name)).Nodup)
    (hd : d ∈ l) : l.countP (refersTo j) =
      (l.eraseP (fun e => decide (e.name = d.name))).countP (refersTo j) +
        if j = d.inode then 1 else 0 := by
  induction l with
  | nil => cases hd
  | cons e l ih =>
    rw [List.map_cons, List.nodup_cons] at hnd
    rcases List.mem_cons.mp hd with rfl | hd
    · rw [List.eraseP_cons_of_pos (by simp), List.countP_cons]
      simp [refersTo, eq_comm]
    · have hne : e.name ≠ d.name := fun heq => hnd.1 (heq ▸ List.mem_map_of_mem hd)
      rw [List.eraseP_cons_of_neg (by simpa using hne), List.countP_cons, List.countP_cons, ih hnd.2 hd]
      omega

theorem Tree.shrink (h : Tree w f) (g : Shrunk w w' f dir d) (hd : d ∈ w.entries dir)
    (hleaf : w.entries d.inode = []) : Tree w' f := by
  have hsub : ∀ i, (w'.entries i).Sublist (w.entries i) := by
    intro i
    rw [g.entries]
    split
    · exact List.eraseP_sublist
    · exact List.Sublist.refl _
  have hdir := h.idle dir (List.ne_nil_of_mem hd)
  have hrefs : ∀ j, w.refs j =
      (∑ i ∈ Finset.range w.nextInode, (w'.entries i).countP (refersTo j)) +
        if j = d.inode then 1 else 0 := by
    intro j
    have hsplit : ∀ i, (w.entries i).countP (refersTo j) = (w'.entries i).countP (refersTo j) +
        if i = dir then (if j = d.inode then 1 else 0) else 0 := by
      intro i
      rw [g.entries]
      split
      · rename_i hi
        exact countP_eraseP (h.distinct i) (hi ▸ hd)
      · rfl
    rw [h.refs_eq j _ le_rfl]
    simp only [hsplit, Finset.sum_add_distrib, Finset.sum_ite_eq', Finset.mem_range,
      h.below dir hdir.1, if_true]
  have hinode := (h.entry dir d hd).live
  have hlinks := h.links d.inode hinode
  have hlive : ∀ i, w'.live i → w.live i := by
    intro i hi
    rw [g.live] at hi
    split at hi
    · cases hi
    · exact hi
  have hroot : d.inode = w.root f → (w.inode d.inode).linkCount ≠ 1 := by
    intro heq
    rw [hlinks, hrefs, if_pos rfl, if_pos heq]
    omega
  have hkeep : ∀ i, w.entries i ≠ [] → w'.live i := by
    intro i hi
    rw [g.live, if_neg]
    · exact (h.idle i hi).1
    · rintro ⟨rfl, _⟩
      exact hi hleaf
  have hidle : ∀ i, w'.entries i ≠ [] → w'.IsDir i := by
    intro i hi
    have hi : w.entries i ≠ [] := fun he => hi (List.sublist_nil.mp (he ▸ hsub i))
    exact ⟨hkeep i hi, (g.type i).trans (h.idle i hi).2⟩
  have hrefs' : ∀ j, w.refs j = w'.refs j + if j = d.inode then 1 else 0 := by
    intro j
    have hdead : ∀ i, (if w'.live i then (w'.entries i).countP (refersTo j) else 0) =
        (w'.entries i).countP (refersTo j) := by
      intro i
      split
      · rfl
      · rename_i hdead
        by_cases he : w'.entries i = []
        · rw [he]
          rfl
        · exact absurd (hidle i he).1 hdead
    rw [hrefs]
    simp only [World.refs, g.next, hdead]
  refine ⟨g.grant ▸ h.granted, ?_, ?_, ?_, hidle, ?_, ?_, ?_, ?_, ?_, ?_⟩
  · rw [g.root]
    refine ⟨?_, (g.type _).trans h.root.2⟩
    rw [g.live, if_neg]
    · exact h.root.1
    · rintro ⟨heq, hone⟩
      exact hroot heq.symm (heq ▸ hone)
  · intro i hi
    rw [g.next]
    exact h.below i (hlive i hi)
  · intro i hi
    rw [g.next] at hi
    rw [g.links, g.count, (h.blank i hi).1, (h.blank i hi).2]
    simp
  · intro i e he
    have heold := (hsub i).subset he
    refine (h.entry i e heold).mono ?_
    rw [g.live, if_neg]
    · exact (h.entry i e heold).live
    · rintro ⟨heq, hone⟩
      have hpos : 0 < w'.refs d.inode := by
        have hi := h.idle i (List.ne_nil_of_mem heold)
        refine Finset.sum_pos' (fun _ _ => Nat.zero_le _) ⟨i, ?_, ?_⟩
        · rw [Finset.mem_range, g.next]
          exact h.below i hi.1
        · rw [if_pos (hidle i (List.ne_nil_of_mem he)).1, List.countP_pos_iff]
          exact ⟨e, he, by simp [refersTo, heq]⟩
      have hsum := hrefs' d.inode
      rw [if_pos rfl] at hsum
      rw [heq] at hone
      omega
  · intro i
    exact (h.distinct i).sublist ((hsub i).map _)
  · intro i
    rw [g.count, g.entries, h.count]
    split
    · rename_i hi
      rw [List.length_eraseP_of_mem (hi ▸ hd) (by simp)]
    · rfl
  · intro i hi
    have := hrefs' i
    rw [g.links, g.root, h.links i (hlive i hi)]
    omega
  · intro i hi
    have hl := h.linked i (hlive i hi)
    rw [g.links]
    rw [g.live] at hi
    split at hi
    · cases hi
    · rename_i hnot
      by_cases hid : i = d.inode
      · have hone : (w.inode i).linkCount ≠ 1 := fun h1 => hnot ⟨hid, h1⟩
        rw [if_pos hid]
        omega
      · rw [if_neg hid]
        exact hl
  · refine h.acyclic.mono ?_
    rintro i j ⟨_, e, he, rfl⟩
    exact h.edge_iff.mpr ⟨e, (hsub i).subset he, rfl⟩

end Shrink

end HouseOS.Memfs
