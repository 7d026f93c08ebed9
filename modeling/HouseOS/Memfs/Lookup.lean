import HouseOS.Memfs.Tree

namespace HouseOS.Memfs

open Relation
open HouseOS.Graph
open HouseOS.Components
open HouseOS.Loop (Step)
open HouseOS.Vfs (Path slash NodeType pathCap)
open World

variable {w : World} {f : Nat}

inductive Chain (w : World) : Nat → List Path → Nat → Prop
  | here (i : Nat) : Chain w i [] i
  | under {i : Nat} {d : Dentry} {name : Path} {names : List Path} {j : Nat}
      (hd : d ∈ w.entries i) (hname : d.name = some name) (hrest : Chain w d.inode names j) :
      Chain w i (name :: names) j

def pathOf (names : List Path) : Path := names.flatMap (fun name => slash :: name)

def walk (w : World) : Nat → List Path → Option Nat
  | cur, [] => some cur
  | cur, name :: names =>
      match w.lookupDentry cur name with
      | none => none
      | some d => walk w d.inode names

section Dentry

theorem lookupDentry_found {i : Nat} {name : Path} {d : Dentry} (hl : w.lookupDentry i name = some d) :
    (w.inode i).type = .dir ∧ d ∈ w.entries i ∧ w.text d.name = name := by
  rw [World.lookupDentry] at hl
  split at hl
  · cases hl
  · rename_i hdir
    exact ⟨not_not.mp hdir, List.mem_of_find?_eq_some hl, by simpa using List.find?_some hl⟩

def Unmounted (w : World) : Prop := ∀ i, ∀ d ∈ w.entries i, d.mountedFs = none

theorem Unmounted.enter (h : Unmounted w) {i g : Nat} {name : Path} {d : Dentry}
    (hl : w.lookupDentry i name = some d) : w.enter g d = (g, d.inode) := by
  rw [World.enter, h i d (lookupDentry_found hl).2.1]

theorem Tree.unmounted (h : Tree w f) : Unmounted w := fun i d hd => (h.entry i d hd).unmounted

theorem Tree.text_eq (h : Tree w f) {i : Nat} {d : Dentry} (hd : d ∈ w.entries i) (name : Path) :
    w.text d.name = name ↔ d.name = some name := by
  obtain ⟨n, hn, _⟩ := (h.entry i d hd).named
  rw [hn]
  simp [World.text]

theorem Tree.lookupDentry_some (h : Tree w f) {i : Nat} {name : Path} {d : Dentry}
    (hl : w.lookupDentry i name = some d) : d ∈ w.entries i ∧ d.name = some name := by
  obtain ⟨-, hmem, htext⟩ := lookupDentry_found hl
  exact ⟨hmem, (h.text_eq hmem name).mp htext⟩

theorem Tree.lookupDentry_none (h : Tree w f) {i : Nat} {name : Path} (hi : w.IsDir i)
    (hl : w.lookupDentry i name = none) : ∀ d ∈ w.entries i, d.name ≠ some name := by
  simp only [World.lookupDentry, hi.2, ne_eq, not_true_eq_false, if_false, List.find?_eq_none,
    decide_eq_true_eq] at hl
  intro d hd hname
  exact hl d hd ((h.text_eq hd name).mpr hname)

theorem Tree.lookupDentry_mem (h : Tree w f) {i : Nat} {name : Path} {d : Dentry}
    (hd : d ∈ w.entries i) (hname : d.name = some name) : w.lookupDentry i name = some d := by
  have hi := h.idle i (List.ne_nil_of_mem hd)
  cases hl : w.lookupDentry i name with
  | none => exact absurd hname (h.lookupDentry_none hi hl d hd)
  | some e =>
    obtain ⟨he, hename⟩ := h.lookupDentry_some hl
    rw [List.inj_on_of_nodup_map (h.distinct i) he hd (hename.trans hname.symm)]

theorem Tree.enter (h : Tree w f) {i g : Nat} {name : Path} {d : Dentry}
    (hl : w.lookupDentry i name = some d) : w.enter g d = (g, d.inode) := h.unmounted.enter hl

end Dentry

section Walk

theorem Unmounted.scan_lookup (h : Unmounted w) (g : Nat) (names : List Path) :
    ∀ cur, scanLast w.lookupStep names (g, cur) =
      match walk w cur names with
      | none => .ret ()
      | some i => .go (g, i) := by
  induction names with
  | nil => exact fun cur => rfl
  | cons name names ih =>
    intro cur
    cases hl : w.lookupDentry cur name with
    | none =>
      have hstep : w.lookupStep (g, cur) name names.isEmpty = .ret () := by
        simp [World.lookupStep, hl]
      simp only [scanLast, hstep, walk, hl]
    | some d =>
      have hstep : w.lookupStep (g, cur) name names.isEmpty = .go (g, d.inode) := by
        simp only [World.lookupStep, hl, (lookupDentry_found hl).1, h.enter hl]
        rfl
      simp only [scanLast, hstep, walk, hl]
      exact ih d.inode

theorem Unmounted.lookupPathEx_eq (h : Unmounted w) {path : Path} (habs : path.head? = some slash) :
    w.lookupPathEx f path = (walk w (w.root f) (components slash path)).map (fun i => (f, i)) := by
  by_cases hroot : path = [slash]
  · subst hroot
    simp [World.lookupPathEx, walk]
  · have hlen : (skip slash path).length ≤ path.length := (List.dropWhile_sublist _).length_le
    rw [World.lookupPathEx, if_neg hroot, if_neg (by simpa using habs),
      pathLoop_eq_scanLast slash _ _ _ _ hlen (skip_head slash path), skip, components_skip,
      h.scan_lookup]
    cases walk w (w.root f) (components slash path) with
    | none => rfl
    | some i => rfl

theorem Unmounted.lookupPath_eq (h : Unmounted w) {path : Path} (habs : path.head? = some slash) :
    w.lookupPath f path = walk w (w.root f) (components slash path) := by
  rw [World.lookupPath, h.lookupPathEx_eq habs, Option.map_map]
  exact Option.map_id'

theorem Tree.lookupPathEx_eq (h : Tree w f) {path : Path} (habs : path.head? = some slash) :
    w.lookupPathEx f path = (walk w (w.root f) (components slash path)).map (fun i => (f, i)) :=
  h.unmounted.lookupPathEx_eq habs

theorem Tree.lookupPath_eq (h : Tree w f) {path : Path} (habs : path.head? = some slash) :
    w.lookupPath f path = walk w (w.root f) (components slash path) := h.unmounted.lookupPath_eq habs

theorem Unmounted.scan_dentry_last (h : Unmounted w) (g : Nat) (name : Path) (ns : List Path) :
    ∀ cur, scanLast w.dentryStep (ns ++ [name]) (g, cur) = .ret ((walk w cur ns).bind
      (fun j => (w.lookupDentry j name).map (fun d => (d, g, j)))) := by
  have hnone : ∀ {cur : Nat} {n : Path} (last : Bool), w.lookupDentry cur n = none →
      w.dentryStep (g, cur) n last = .ret none := by
    intro cur n last hl
    simp [World.dentryStep, hl]
  have hsome : ∀ {cur : Nat} {n : Path} {d : Dentry} (last : Bool),
      w.lookupDentry cur n = some d → w.dentryStep (g, cur) n last =
        if last then .ret (some (d, g, cur)) else .go (g, d.inode) := by
    intro cur n d last hl
    simp only [World.dentryStep, hl, (lookupDentry_found hl).1, h.enter hl]
    rfl
  induction ns with
  | nil =>
    intro cur
    rw [List.nil_append, walk, Option.bind_some, scanLast]
    cases hl : w.lookupDentry cur name with
    | none => rw [hnone _ hl]; rfl
    | some d => rw [hsome _ hl]; rfl
  | cons n ns ih =>
    intro cur
    rw [List.cons_append, scanLast, walk]
    cases hl : w.lookupDentry cur n with
    | none => rw [hnone _ hl]; rfl
    | some d =>
      have hlast : (ns ++ [name]).isEmpty = false := by simp
      rw [hsome _ hl, hlast]
      exact ih d.inode

theorem Unmounted.lookupPathDentry_some (h : Unmounted w) {path : Path} {d : Dentry}
    {owner parent : Nat} (hl : w.lookupPathDentry f path = some (d, owner, parent)) :
    ∃ ns name, components slash path = ns ++ [name] ∧ owner = f ∧
      walk w (w.root f) ns = some parent ∧ w.lookupDentry parent name = some d := by
  have hlen : (skip slash path).length ≤ path.length := (List.dropWhile_sublist _).length_le
  simp only [World.lookupPathDentry] at hl
  split at hl
  · cases hl
  split at hl
  · cases hl
  rw [pathLoop_eq_scanLast slash _ _ _ _ hlen (skip_head slash path), skip, components_skip] at hl
  rcases List.eq_nil_or_concat (components slash path) with hnil | ⟨ns, name, hlast⟩
  · rw [hnil] at hl
    cases hl
  · rw [List.concat_eq_append] at hlast
    rw [hlast, h.scan_dentry_last] at hl
    obtain ⟨j, hj, hd⟩ := Option.bind_eq_some_iff.mp hl
    obtain ⟨e, he, heq⟩ := Option.map_eq_some_iff.mp hd
    cases heq
    exact ⟨ns, name, hlast, rfl, hj, he⟩

theorem Tree.lookupPathDentry_spec (h : Tree w f) {path : Path} {d : Dentry} {owner parent : Nat}
    (hl : w.lookupPathDentry f path = some (d, owner, parent)) :
    d ∈ w.entries parent ∧ owner = f := by
  obtain ⟨_, _, -, howner, -, hd⟩ := h.unmounted.lookupPathDentry_some hl
  exact ⟨(lookupDentry_found hd).2.1, howner⟩

end Walk

section Found

theorem Tree.walk_chain (h : Tree w f) {i j : Nat} {names : List Path} (hc : Chain w i names j) :
    walk w i names = some j := by
  induction hc with
  | here i => rfl
  | under hd hname _ ih =>
    rw [walk, h.lookupDentry_mem hd hname]
    exact ih

theorem Chain.names_ok (h : Tree w f) {i j : Nat} {names : List Path} (hc : Chain w i names j) :
    ∀ name ∈ names, NameOk name := by
  induction hc with
  | here i => simp
  | under hd hname _ ih =>
    intro n hn
    rcases List.mem_cons.mp hn with rfl | hn
    · obtain ⟨m, hm, hok⟩ := (h.entry _ _ hd).named
      rw [hname] at hm
      cases hm
      exact hok
    · exact ih n hn

theorem components_pathOf {names : List Path} (hok : ∀ name ∈ names, NameOk name) :
    components slash (pathOf names) = names := by
  induction names with
  | nil => simp [pathOf]
  | cons name names ih =>
    have hn := hok name List.mem_cons_self
    have hb : AtBoundary slash (pathOf names) := by
      intro c hc
      cases names with
      | nil => simp [pathOf] at hc
      | cons m names =>
        simp only [pathOf, List.flatMap_cons, List.cons_append, List.head?_cons,
          Option.some.injEq] at hc
        exact hc.symm
    have hne : ∀ x ∈ name, x ≠ slash := fun x hx heq => hn.noSlash (heq ▸ hx)
    have htail := ih (fun m hm => hok m (List.mem_cons_of_mem name hm))
    rw [pathOf, List.flatMap_cons, List.cons_append, components_cons_sep]
    show components slash (name ++ pathOf names) = name :: names
    rw [components_cons_component slash hne hn.nonempty hb, htail]

theorem Tree.lookup_pathOf (h : Tree w f) {j : Nat} {names : List Path} (hne : names ≠ [])
    (hc : Chain w (w.root f) names j) : w.lookupPath f (pathOf names) = some j := by
  have habs : (pathOf names).head? = some slash := by
    cases names with
    | nil => exact absurd rfl hne
    | cons name names => rfl
  rw [h.lookupPath_eq habs, components_pathOf (hc.names_ok h)]
  exact h.walk_chain hc

theorem Tree.exists_parent (h : Tree w f) {i : Nat} (hi : w.live i) (hroot : i ≠ w.root f) :
    ∃ j, w.live j ∧ w.Edge j i := by
  have hpos : w.refs i ≠ 0 := by
    have hl := h.links i hi
    rw [if_neg hroot] at hl
    have := h.linked i hi
    omega
  obtain ⟨j, _, hj⟩ := Finset.exists_ne_zero_of_sum_ne_zero hpos
  split at hj
  · rename_i hlive
    obtain ⟨d, hd, hdi⟩ := List.countP_pos_iff.mp (Nat.pos_of_ne_zero hj)
    exact ⟨j, hlive, hlive, d, hd, of_decide_eq_true hdi⟩
  · exact absurd rfl hj

theorem Tree.chain_of_reaches (h : Tree w f) {i j : Nat} (hr : w.Reaches i j) :
    ∃ names, Chain w i names j := by
  induction hr using ReflTransGen.head_induction_on with
  | refl => exact ⟨[], .here j⟩
  | head hstep _ ih =>
    obtain ⟨names, hc⟩ := ih
    obtain ⟨_, d, hd, rfl⟩ := hstep
    obtain ⟨name, hname, _⟩ := (h.entry _ d hd).named
    exact ⟨name :: names, .under hd hname hc⟩

theorem Tree.reached (h : Tree w f) {i : Nat} (hi : w.live i) :
    ∃ names, Chain w (w.root f) names i := by
  have hfin : {i | w.live i = true}.Finite :=
    (Set.finite_lt_nat w.nextInode).subset (fun i hi => h.below i hi)
  exact h.chain_of_reaches
    (reaches_of_acyclic h.acyclic hfin (w.root f) (fun i hi hne => h.exists_parent hi hne) i hi)

end Found

end HouseOS.Memfs
