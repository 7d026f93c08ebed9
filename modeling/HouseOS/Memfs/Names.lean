import HouseOS.Memfs.TreeInvariant

namespace HouseOS.Memfs

open HouseOS.Vfs (Path slash NodeType pathCap)
open World

variable {w w' : World} {f : Nat}

theorem walk_append (w : World) (p q : List Path) :
    ∀ cur, walk w cur (p ++ q) = (walk w cur p).bind (fun i => walk w i q) := by
  induction p with
  | nil => exact fun cur => rfl
  | cons name p ih =>
    intro cur
    rw [List.cons_append, walk, walk]
    cases w.lookupDentry cur name with
    | none => rfl
    | some d => exact ih d.inode

theorem walk_snoc (w : World) (cur : Nat) (p : List Path) (name : Path) :
    walk w cur (p ++ [name]) =
      (walk w cur p).bind (fun i => (w.lookupDentry i name).map (fun d => d.inode)) := by
  rw [walk_append]
  congr 1
  funext i
  rw [walk]
  cases w.lookupDentry i name <;> rfl

def UniqueDirs (w : World) (f : Nat) : Prop :=
  ∀ p q i, walk w (w.root f) p = some i → walk w (w.root f) q = some i →
    (w.inode i).type = .dir → p = q

theorem lookupDentry_leaf {i : Nat} (h : w.entries i = []) (name : Path) :
    w.lookupDentry i name = none := by
  rw [World.lookupDentry]
  split
  · rfl
  · rw [show (w.inode i).entries = [] from h]
    rfl

theorem Tree.lookup_eq_find (h : Tree w f) (i : Nat) (name : Path) :
    w.lookupDentry i name = (w.entries i).find? (fun d => decide (d.name = some name)) := by
  by_cases hnil : w.entries i = []
  · rw [lookupDentry_leaf hnil, hnil]
    rfl
  · rw [World.lookupDentry, if_neg (not_not.mpr (h.idle i hnil).2)]
    have hfind : ∀ l : List Dentry, (∀ d ∈ l, d ∈ w.entries i) →
        l.find? (fun d => decide (w.text d.name = name)) =
          l.find? (fun d => decide (d.name = some name)) := by
      intro l
      induction l with
      | nil => exact fun _ => rfl
      | cons d l ih =>
        intro hl
        have hd : decide (w.text d.name = name) = decide (d.name = some name) :=
          decide_eq_decide.mpr (h.text_eq (hl d List.mem_cons_self) name)
        rw [List.find?_cons, List.find?_cons, hd, ih (fun e he => hl e (List.mem_cons_of_mem d he))]
    exact hfind _ (fun d hd => hd)

section Grow

variable {dir child : Nat} {name : Path}

theorem Grown.lookup (h : Tree w f) (h' : Tree w' f) (g : Grown w w' f dir child name)
    (i : Nat) (n : Path) :
    (w'.lookupDentry i n).map (fun d => d.inode) =
      if i = dir ∧ n = name then some child else (w.lookupDentry i n).map (fun d => d.inode) := by
  rw [h'.lookup_eq_find, h.lookup_eq_find, g.entries]
  by_cases hi : i = dir
  · by_cases hn : n = name
    · simp [hi, hn]
    · rw [if_pos hi, if_neg (fun hh => hn hh.2), List.find?_cons_of_neg (by simpa using Ne.symm hn)]
  · rw [if_neg hi, if_neg (fun hh => hi hh.1)]

def Through (w : World) (cur dir : Nat) (name : Path) (p : List Path) : Prop :=
  ∃ q, p = q ++ [name] ∧ walk w cur q = some dir

theorem Through.snoc {cur : Nat} {q : List Path} {n : Path} :
    Through w cur dir name (q ++ [n]) ↔ n = name ∧ walk w cur q = some dir := by
  constructor
  · rintro ⟨q', heq, hq'⟩
    obtain ⟨rfl, hn⟩ := List.append_inj' heq rfl
    exact ⟨List.singleton_inj.mp hn, hq'⟩
  · rintro ⟨rfl, hq⟩
    exact ⟨q, rfl, hq⟩

theorem Through.not_nil {cur : Nat} : ¬ Through w cur dir name [] := by
  rintro ⟨q, heq, _⟩
  cases q <;> cases heq

theorem Grown.walk_through (h : Tree w f) (h' : Tree w' f) (g : Grown w w' f dir child name)
    (hfresh : w.lookupDentry dir name = none) (hleaf : w'.entries child = []) (cur : Nat)
    (p : List Path) :
    (Through w cur dir name p → walk w' cur p = some child) ∧
      (¬ Through w cur dir name p → walk w' cur p = walk w cur p) := by
  induction p using List.reverseRecOn with
  | nil => exact ⟨fun ht => absurd ht Through.not_nil, fun _ => rfl⟩
  | append_singleton q n ih =>
    rw [walk_snoc, walk_snoc, Through.snoc]
    by_cases hq : Through w cur dir name q
    · rw [ih.1 hq]
      obtain ⟨q', rfl, hq'⟩ := hq
      have hnone : walk w cur (q' ++ [name]) = none := by
        rw [walk_snoc, hq', Option.bind_some, hfresh]
        rfl
      rw [hnone]
      refine ⟨fun hn => absurd hn.2 (by simp), fun _ => ?_⟩
      rw [Option.bind_some, lookupDentry_leaf hleaf]
      rfl
    · rw [ih.2 hq]
      cases hw : walk w cur q with
      | none => exact ⟨fun hn => absurd hn.2 (by simp), fun _ => rfl⟩
      | some j =>
        simp only [Option.bind_some]
        rw [g.lookup h h']
        constructor
        · rintro ⟨hn, hj⟩
          rw [if_pos ⟨Option.some.inj hj, hn⟩]
        · intro hn
          rw [if_neg (fun hh => hn ⟨hh.2, congrArg some hh.1⟩)]

end Grow

section Shrink

variable {dir : Nat} {d : Dentry} {name : Path}

theorem find_erase {l : List Dentry} (hnd : (l.map (fun d => d.name)).Nodup) (n : Path) :
    (l.eraseP (fun e => decide (e.name = some name))).find? (fun e => decide (e.name = some n)) =
      if n = name then none else l.find? (fun e => decide (e.name = some n)) := by
  induction l with
  | nil => simp
  | cons e l ih =>
    rw [List.map_cons, List.nodup_cons] at hnd
    by_cases he : e.name = some name
    · rw [List.eraseP_cons_of_pos (by simpa using he)]
      by_cases hn : n = name
      · rw [if_pos hn, List.find?_eq_none]
        intro x hx
        rw [decide_eq_true_eq]
        intro hxn
        exact hnd.1 (List.mem_map.mpr ⟨x, hx, by rw [hxn, he, hn]⟩)
      · rw [if_neg hn, List.find?_cons_of_neg]
        simpa [he] using Ne.symm hn
    · rw [List.eraseP_cons_of_neg (by simpa using he), List.find?_cons, List.find?_cons, ih hnd.2]
      by_cases hn : n = name
      · rw [if_pos hn]
        simp [hn, he]
      · rw [if_neg hn, if_neg hn]

theorem Shrunk.lookup (h : Tree w f) (h' : Tree w' f) (g : Shrunk w w' f dir d)
    (hname : d.name = some name) (i : Nat) (n : Path) :
    w'.lookupDentry i n = if i = dir ∧ n = name then none else w.lookupDentry i n := by
  rw [h'.lookup_eq_find, h.lookup_eq_find, g.entries]
  by_cases hi : i = dir
  · rw [if_pos hi, hname, find_erase (h.distinct i)]
    by_cases hn : n = name
    · rw [if_pos hn, if_pos ⟨hi, hn⟩]
    · rw [if_neg hn, if_neg (fun hh => hn hh.2)]
  · rw [if_neg hi, if_neg (fun hh => hi hh.1)]

theorem Shrunk.walk_through (h : Tree w f) (h' : Tree w' f) (g : Shrunk w w' f dir d)
    (hd : d ∈ w.entries dir) (hname : d.name = some name) (hleaf : w.entries d.inode = [])
    (cur : Nat) (p : List Path) :
    (Through w cur dir name p → walk w' cur p = none) ∧
      (¬ Through w cur dir name p → walk w' cur p = walk w cur p) := by
  induction p using List.reverseRecOn with
  | nil => exact ⟨fun ht => absurd ht Through.not_nil, fun _ => rfl⟩
  | append_singleton q n ih =>
    rw [walk_snoc, walk_snoc, Through.snoc]
    by_cases hq : Through w cur dir name q
    · rw [ih.1 hq]
      obtain ⟨q', rfl, hq'⟩ := hq
      have hchild : walk w cur (q' ++ [name]) = some d.inode := by
        rw [walk_snoc, hq', Option.bind_some, h.lookupDentry_mem hd hname]
        rfl
      rw [hchild]
      refine ⟨fun _ => rfl, fun _ => ?_⟩
      rw [Option.bind_some, lookupDentry_leaf hleaf]
      rfl
    · rw [ih.2 hq]
      cases hw : walk w cur q with
      | none => exact ⟨fun _ => rfl, fun _ => rfl⟩
      | some j =>
        simp only [Option.bind_some]
        rw [g.lookup h h' hname]
        constructor
        · rintro ⟨hn, hj⟩
          rw [if_pos ⟨Option.some.inj hj, hn⟩]
          rfl
        · intro hn
          rw [if_neg (fun hh => hn ⟨hh.2, congrArg some hh.1⟩)]

end Shrink

end HouseOS.Memfs
