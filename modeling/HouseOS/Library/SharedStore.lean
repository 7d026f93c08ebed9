import Mathlib.Data.List.Basic
import Mathlib.Tactic.Common

namespace HouseOS.SharedStore

variable {N I B : Type}

inductive Node (I : Type) where
  | dir
  | file (id : I)

-- names are paths of components; several names may stand for one string of bytes
structure Store (N I B : Type) where
  node : List N → Option (Node I)
  content : I → List B

inductive Op (N B : Type) where
  | create (p : List N)
  | write (p : List N) (buf : List B)
  | append (p : List N) (buf : List B)
  | link (old new : List N)
  | delete (p : List N)
  | read (p : List N) (size : Nat)

inductive Reply (B : Type) where
  | code (r : Int)
  | bytes (r : Option (List B))

namespace Store

def text (s : Store N I B) (p : List N) : Option (List B) :=
  match s.node p with
  | some (.file i) => some (s.content i)
  | _ => none

def Barred (s : Store N I B) (p : List N) : Prop :=
  ∃ q i, q <+: p ∧ q ≠ p ∧ s.node q = some (.file i)

def Unused (s : Store N I B) (i : I) : Prop := ∀ p, s.node p ≠ some (.file i)

open Classical in
noncomputable def bind (s : Store N I B) (p : List N) (n : Option (Node I)) : Store N I B :=
  { s with node := fun q => if q = p then n else s.node q }

open Classical in
noncomputable def set (s : Store N I B) (i : I) (buf : List B) : Store N I B :=
  { s with content := fun j => if j = i then buf else s.content j }

open Classical in
noncomputable def makeDirs (s : Store N I B) (p : List N) : Store N I B :=
  { s with node := fun q => if q <+: p ∧ s.node q = none then some .dir else s.node q }

noncomputable def enter (s : Store N I B) (p : List N) (i : I) : Store N I B :=
  (s.makeDirs p.dropLast).bind p (some (.file i))

end Store

section Updates

variable {s : Store N I B} {p q : List N} {n : Option (Node I)} {i j : I} {buf : List B}

theorem bind_same : (s.bind p n).node p = n := if_pos rfl

theorem bind_ne (h : q ≠ p) : (s.bind p n).node q = s.node q := if_neg h

theorem set_same : (s.set i buf).content i = buf := if_pos rfl

theorem set_ne (h : j ≠ i) : (s.set i buf).content j = s.content j := if_neg h

theorem makeDirs_new (hq : q <+: p) (h : s.node q = none) : (s.makeDirs p).node q = some .dir :=
  if_pos ⟨hq, h⟩

theorem makeDirs_old (h : q <+: p → s.node q ≠ none) : (s.makeDirs p).node q = s.node q :=
  if_neg (fun hh => h hh.1 hh.2)

theorem makeDirs_of_node (h : ∀ q, q <+: p → s.node q ≠ none) : s.makeDirs p = s := by
  have hnode : (s.makeDirs p).node = s.node := funext (fun q => makeDirs_old (h q))
  rw [Store.makeDirs] at hnode ⊢
  exact congrArg (fun node => { s with node := node }) hnode

theorem makeDirs_concat [DecidableEq N] {name : N} (h : s.node (p ++ [name]) = none) :
    (s.makeDirs (p ++ [name])).node q =
      if q = p ++ [name] then some .dir else (s.makeDirs p).node q := by
  split
  next heq =>
    rw [heq]
    exact makeDirs_new List.prefix_rfl h
  next hne =>
    by_cases hq : q <+: p ∧ s.node q = none
    · rw [makeDirs_new hq.1 hq.2, makeDirs_new (hq.1.trans (List.prefix_append p [name])) hq.2]
    · rw [makeDirs_old fun hpre hnone => hq ⟨hpre, hnone⟩, makeDirs_old fun hpre hnone => ?_]
      exact hq ⟨(List.prefix_concat_iff.mp hpre).resolve_left hne, hnone⟩

theorem makeDirs_dir : (s.makeDirs p).node q = some .dir ↔
    q <+: p ∧ s.node q = none ∨ s.node q = some .dir := by
  by_cases hq : q <+: p ∧ s.node q = none
  · rw [makeDirs_new hq.1 hq.2]
    exact ⟨fun _ => Or.inl hq, fun _ => rfl⟩
  · rw [makeDirs_old fun hpre hnone => hq ⟨hpre, hnone⟩]
    exact ⟨Or.inr, fun h => h.resolve_left hq⟩

theorem text_makeDirs : (s.makeDirs p).text q = s.text q := by
  by_cases hq : q <+: p ∧ s.node q = none
  · simp only [Store.text, makeDirs_new hq.1 hq.2, hq.2]
  · simp only [Store.text, makeDirs_old fun hpre hnone => hq ⟨hpre, hnone⟩]
    rfl

theorem exists_text (h : s.node p = some (.file i)) : s.text p = some (s.content i) := by
  rw [Store.text, h]

theorem text_eq_none : s.text p = none ↔ ∀ i, s.node p ≠ some (.file i) := by
  rw [Store.text]
  constructor
  · intro h i hi
    rw [hi] at h
    cases h
  · intro h
    split
    · exact absurd ‹_› (h _)
    · rfl

end Updates

open Store

inductive Does : Store N I B → Op N B → Reply B → Store N I B → Prop
  | created {s : Store N I B} {p : List N} {i : I} (hfree : ¬ s.Barred p) (hnew : s.node p = none)
      (hid : s.Unused i) : Does s (.create p) (.code 0) ((s.enter p i).set i [])
  | createdBefore {s : Store N I B} {p : List N} {i : I} (hold : s.node p = some (.file i)) :
      Does s (.create p) (.code 0) s
  | createRefused {s : Store N I B} {p : List N} (h : s.Barred p ∨ s.node p = some .dir) :
      Does s (.create p) (.code (-1)) s
  | wrote {s : Store N I B} {p : List N} {i : I} (buf : List B) (hold : s.node p = some (.file i)) :
      Does s (.write p buf) (.code buf.length) (s.set i buf)
  | writeRefused {s : Store N I B} {p : List N} (buf : List B) (h : s.text p = none) :
      Does s (.write p buf) (.code (-1)) s
  | appended {s : Store N I B} {p : List N} {i : I} (buf : List B)
      (hold : s.node p = some (.file i)) :
      Does s (.append p buf) (.code buf.length) (s.set i (s.content i ++ buf))
  | appendRefused {s : Store N I B} {p : List N} (buf : List B) (h : s.text p = none) :
      Does s (.append p buf) (.code (-1)) s
  | linked {s : Store N I B} {old new : List N} {i : I} (hold : s.node old = some (.file i))
      (hfree : ¬ s.Barred new) (hnew : s.node new = none) :
      Does s (.link old new) (.code 0) (s.enter new i)
  | linkRefused {s : Store N I B} {old new : List N}
      (h : s.node old = none ∨ s.Barred new ∨ s.node new ≠ none) :
      Does s (.link old new) (.code (-1)) s
  | deleted {s : Store N I B} {p : List N} {i : I} (hold : s.node p = some (.file i)) :
      Does s (.delete p) (.code 0) (s.bind p none)
  | deleteRefused {s : Store N I B} {p : List N} (h : s.text p = none) :
      Does s (.delete p) (.code (-1)) s
  | gave {s : Store N I B} (p : List N) (size : Nat) :
      Does s (.read p size) (.bytes ((s.text p).map (fun t => t.take size))) s

inductive Runs : Store N I B → List (Op N B × Reply B) → Store N I B → Prop
  | done (s : Store N I B) : Runs s [] s
  | next {s t u : Store N I B} {op : Op N B} {r : Reply B} {rest : List (Op N B × Reply B)}
      (hdo : Does s op r t) (hrest : Runs t rest u) : Runs s ((op, r) :: rest) u

end HouseOS.SharedStore
