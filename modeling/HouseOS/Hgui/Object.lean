import Mathlib.Data.Fintype.Card
import HouseOS.Library.Linked
import HouseOS.Library.Graph
import HouseOS.Library.Run

namespace HouseOS.Hgui

variable {Obj : Type}

structure Objects (Obj : Type) where
  parent : Obj → Option Obj
  firstChild : Obj → Option Obj
  nextSibling : Obj → Option Obj

def blank : Objects Obj := ⟨fun _ => none, fun _ => none, fun _ => none⟩

inductive Op (Obj : Type) where
  | attach (parent child : Option Obj)
  | detach (child : Option Obj)

namespace Objects

variable [DecidableEq Obj] (h : Objects Obj)

def setParent (c : Obj) (p : Option Obj) : Objects Obj :=
  { h with parent := Function.update h.parent c p }

def setFirstChild (p : Obj) (c : Option Obj) : Objects Obj :=
  { h with firstChild := Function.update h.firstChild p c }

def setNextSibling (c : Obj) (d : Option Obj) : Objects Obj :=
  { h with nextSibling := Function.update h.nextSibling c d }

def unlink (parent child : Obj) (prev : Option Obj) : Objects Obj :=
  let h' :=
    match prev with
    | some q => h.setNextSibling q (h.nextSibling child)
    | none => h.setFirstChild parent (h.nextSibling child)
  (h'.setParent child none).setNextSibling child none

-- the loops walk the siblings as long as there is fuel
def detachLoop (parent child : Obj) : Nat → Option Obj → Option Obj → Option (Objects Obj)
  | 0, _, _ => none
  | _ + 1, _, none => some h
  | n + 1, prev, some it =>
      if it = child then some (h.unlink parent child prev)
      else detachLoop parent child n (some it) (h.nextSibling it)

def objectDetach (fuel : Nat) : Option Obj → Option (Objects Obj)
  | none => some h
  | some child =>
      match h.parent child with
      | none => some h
      | some parent => h.detachLoop parent child fuel none (h.firstChild parent)

def lastSibling : Nat → Obj → Option Obj
  | 0, _ => none
  | n + 1, it =>
      match h.nextSibling it with
      | none => some it
      | some next => lastSibling n next

def appendChild (fuel : Nat) (parent child : Obj) : Option (Objects Obj) :=
  match h.firstChild parent with
  | none => some (h.setFirstChild parent (some child))
  | some it => (h.lastSibling fuel it).map fun last => h.setNextSibling last (some child)

def objectAttach (fuel : Nat) : Option Obj → Option Obj → Option (Objects Obj)
  | some parent, some child =>
      if h.parent child = some parent then some h
      else
        (h.objectDetach fuel (some child)).bind fun h' =>
          (h'.setParent child (some parent)).appendChild fuel parent child
  | _, _ => some h

end Objects

-- no sibling list is longer than the number of objects
def Objects.step [DecidableEq Obj] [Fintype Obj] (h : Objects Obj) :
    Op Obj → Option (Objects Obj)
  | .attach parent child => h.objectAttach (Fintype.card Obj + 1) parent child
  | .detach child => h.objectDetach (Fintype.card Obj + 1) child

section Lists

open HouseOS.SinglyLinked (Chain)

variable {h : Objects Obj} {kids : Obj → List Obj} {p c : Obj}

structure Listed (h : Objects Obj) (kids : Obj → List Obj) : Prop where
  chains : ∀ p, Chain h.nextSibling (h.firstChild p) (kids p)
  nodup : ∀ p, (kids p).Nodup
  exact : ∀ p c, c ∈ kids p ↔ h.parent c = some p
  single : ∀ c, h.parent c = none → h.nextSibling c = none

theorem listed_blank : Listed (blank : Objects Obj) (fun _ => []) where
  chains _ := rfl
  nodup _ := List.nodup_nil
  exact _ _ := ⟨fun hmem => absurd hmem List.not_mem_nil, fun heq => nomatch heq⟩
  single _ _ := rfl

theorem Listed.mem_unique (hl : Listed h kids) {q : Obj} (hp : c ∈ kids p) (hq : c ∈ kids q) :
    p = q := by
  have heq := ((hl.exact p c).mp hp).symm.trans ((hl.exact q c).mp hq)
  exact Option.some.inj heq

theorem Listed.absent (hl : Listed h kids) (hparent : h.parent c = some p) {q : Obj} (hq : q ≠ p) :
    c ∉ kids q :=
  fun hmem => hq (hl.mem_unique hmem ((hl.exact p c).mpr hparent))

theorem detachLoop_finds [DecidableEq Obj] {l m : List Obj} {prev : Option Obj} {it : Option Obj} {fuel : Nat}
    (hchain : Chain h.nextSibling it (m ++ c :: l)) (hc : c ∉ m) (hfuel : m.length < fuel) :
    h.detachLoop p c fuel prev it =
      some (h.unlink p c (m.getLast?.or prev)) := by
  induction m generalizing fuel prev it with
  | nil =>
    obtain ⟨n, rfl⟩ : ∃ n, fuel = n + 1 := ⟨fuel - 1, by omega⟩
    rw [hchain.1, Objects.detachLoop, if_pos rfl]
    rfl
  | cons a m ih =>
    obtain ⟨n, rfl⟩ : ∃ n, fuel = n + 1 := ⟨fuel - 1, by omega⟩
    rw [List.length_cons] at hfuel
    have hac : a ≠ c := fun heq => hc (heq ▸ List.mem_cons_self)
    rw [hchain.1, Objects.detachLoop, if_neg hac,
      ih hchain.2 (fun hmem => hc (List.mem_cons_of_mem a hmem)) (by omega)]
    cases m with
    | nil => rfl
    | cons b m => rw [List.getLast?_cons_cons, List.getLast?_cons, Option.some_or, Option.some_or]

theorem lastSibling_finds {l : List Obj} {a b : Obj} {fuel : Nat}
    (hchain : Chain h.nextSibling (some a) (l ++ [b])) (hfuel : l.length < fuel) :
    h.lastSibling fuel a = some b := by
  induction l generalizing fuel a with
  | nil =>
    obtain ⟨n, rfl⟩ : ∃ n, fuel = n + 1 := ⟨fuel - 1, by omega⟩
    obtain ⟨heq, hend⟩ := hchain
    obtain rfl := Option.some.inj heq
    have hnone : h.nextSibling a = none := hend
    rw [Objects.lastSibling, hnone]
  | cons c l ih =>
    obtain ⟨n, rfl⟩ : ∃ n, fuel = n + 1 := ⟨fuel - 1, by omega⟩
    rw [List.length_cons] at hfuel
    obtain ⟨heq, hrest⟩ := hchain
    obtain rfl := Option.some.inj heq
    obtain ⟨d, hd⟩ : ∃ d, h.nextSibling a = some d := by
      cases l with
      | nil => exact ⟨b, hrest.1⟩
      | cons d l => exact ⟨d, hrest.1⟩
    rw [Objects.lastSibling, hd]
    rw [hd] at hrest
    exact ih hrest (by omega)

variable [DecidableEq Obj]

theorem unlink_parent (prev : Option Obj) :
    (h.unlink p c prev).parent = Function.update h.parent c none := by
  cases prev <;> rfl

theorem unlink_first : (h.unlink p c none).nextSibling = Function.update h.nextSibling c none ∧
    (h.unlink p c none).firstChild = Function.update h.firstChild p (h.nextSibling c) := ⟨rfl, rfl⟩

theorem unlink_later (a : Obj) :
    (h.unlink p c (some a)).nextSibling =
        Function.update (Function.update h.nextSibling a (h.nextSibling c)) c none ∧
      (h.unlink p c (some a)).firstChild = h.firstChild := ⟨rfl, rfl⟩

theorem Listed.unlink_chains (hl : Listed h kids) {l m : List Obj} (hkids : kids p = m ++ c :: l)
    (q : Obj) : Chain (h.unlink p c m.getLast?).nextSibling
      ((h.unlink p c m.getLast?).firstChild q) ((kids q).erase c) := by
  have hnodup := hkids ▸ hl.nodup p
  have hparent : h.parent c = some p := (hl.exact p c).mp (hkids ▸ List.mem_append_cons_self)
  have hcm : c ∉ m := fun hmem => (List.nodup_append.mp hnodup).2.2 c hmem c List.mem_cons_self rfl
  have hcl : c ∉ l := (List.nodup_cons.mp (List.nodup_append.mp hnodup).2.1).1
  have hchain := hl.chains p
  have hfree {r : List Obj} {next : Obj → Option Obj} {it : Option Obj} (hc : c ∉ r)
      (hr : Chain next it r) : Chain (Function.update next c none) it r := by
    refine hr.congr fun x hx => ?_
    have hxc : x ≠ c := fun heq => hc (heq ▸ hx)
    exact Function.update_of_ne hxc _ _
  rw [hkids] at hchain
  rcases List.eq_nil_or_concat m with rfl | ⟨m, a, rfl⟩
  · rw [List.getLast?_nil, unlink_first.1, unlink_first.2, Function.update_apply]
    split
    next heq =>
      rw [heq, hkids, List.nil_append, List.erase_cons_head]
      exact hfree hcl hchain.2
    next hq =>
      rw [List.erase_of_not_mem (hl.absent hparent hq)]
      exact hfree (hl.absent hparent hq) (hl.chains q)
  · rw [List.concat_eq_append] at hkids hcm hchain hnodup ⊢
    rw [List.getLast?_concat, (unlink_later a).1, (unlink_later a).2]
    have ha : a ∈ kids p := hkids ▸ List.mem_append_left _ (List.mem_append_right m List.mem_cons_self)
    by_cases hq : q = p
    · rw [hq, hkids, List.erase_append_right _ hcm, List.erase_cons_head]
      rw [List.append_assoc, List.singleton_append] at hchain hnodup ⊢
      have ham : a ∉ m := fun hmem =>
        (List.nodup_append.mp hnodup).2.2 a hmem a List.mem_cons_self rfl
      have hacl := (List.nodup_cons.mp (List.nodup_append.mp hnodup).2.1).1
      have hcut := hchain.unlink ham (fun hmem => hacl (List.mem_cons_of_mem c hmem))
      refine hfree (fun hmem => ?_) hcut
      rcases List.mem_append.mp hmem with hmem | hmem
      · exact hcm (List.mem_append_left _ hmem)
      · rcases List.mem_cons.mp hmem with rfl | hmem
        · exact hacl List.mem_cons_self
        · exact hcl hmem
    · rw [List.erase_of_not_mem (hl.absent hparent hq)]
      refine hfree (hl.absent hparent hq) ((hl.chains q).congr fun x hx => ?_)
      have hxa : x ≠ a := fun heq => hq (hl.mem_unique hx (heq ▸ ha))
      exact Function.update_of_ne hxa _ _

theorem Listed.unlink (hl : Listed h kids) {l m : List Obj} (hkids : kids p = m ++ c :: l) :
    Listed (h.unlink p c m.getLast?) (fun q => (kids q).erase c) := by
  refine ⟨hl.unlink_chains hkids, fun q => (hl.nodup q).erase c, fun q x => ?_, fun x hx => ?_⟩
  · rw [(hl.nodup q).mem_erase_iff, hl.exact, unlink_parent, Function.update_apply]
    split
    next heq => exact ⟨fun h => absurd heq h.1, fun h => nomatch h⟩
    next hne => exact ⟨fun h => h.2, fun h => ⟨hne, h⟩⟩
  · rw [unlink_parent, Function.update_apply] at hx
    rcases List.eq_nil_or_concat m with rfl | ⟨m, a, rfl⟩
    · rw [List.getLast?_nil, unlink_first.1, Function.update_apply]
      split at hx
      next heq => rw [if_pos heq]
      next hne =>
        rw [if_neg hne]
        exact hl.single x hx
    · rw [List.concat_eq_append] at hkids ⊢
      rw [List.getLast?_concat, (unlink_later a).1, Function.update_apply]
      split at hx
      next heq => rw [if_pos heq]
      next hne =>
        have ha : a ∈ kids p :=
          hkids ▸ List.mem_append_left _ (List.mem_append_right m List.mem_cons_self)
        have hxa : x ≠ a := by
          rintro rfl
          rw [(hl.exact p x).mp ha] at hx
          exact nomatch hx
        rw [if_neg hne, Function.update_of_ne hxa]
        exact hl.single x hx

theorem Listed.detach (hl : Listed h kids) (c : Obj) {fuel : Nat}
    (hfuel : ∀ p, (kids p).length < fuel) :
    ∃ h', h.objectDetach fuel (some c) = some h' ∧ Listed h' (fun q => (kids q).erase c) ∧
      h'.parent = Function.update h.parent c none := by
  rw [Objects.objectDetach]
  cases hparent : h.parent c with
  | none =>
    have herase : (fun q => (kids q).erase c) = kids := by
      funext q
      refine List.erase_of_not_mem fun hmem => ?_
      exact nomatch ((hl.exact q c).mp hmem).symm.trans hparent
    refine ⟨h, rfl, ?_, ?_⟩
    · rw [herase]
      exact hl
    · rw [← hparent, Function.update_eq_self]
  | some p =>
    obtain ⟨m, l, hkids⟩ := List.append_of_mem ((hl.exact p c).mpr hparent)
    have hnodup := hkids ▸ hl.nodup p
    have hcm : c ∉ m := fun hmem => (List.nodup_append.mp hnodup).2.2 c hmem c List.mem_cons_self rfl
    have hlong := hfuel p
    rw [hkids, List.length_append] at hlong
    refine ⟨h.unlink p c m.getLast?, ?_, hl.unlink hkids, unlink_parent _⟩
    dsimp only
    rw [detachLoop_finds (hkids ▸ hl.chains p) hcm (by omega), Option.or_none]

def appended (kids : Obj → List Obj) (p c : Obj) : Obj → List Obj :=
  fun q => if q = p then kids q ++ [c] else kids q

theorem Listed.append (hl : Listed h kids) (hc : h.parent c = none) {fuel : Nat}
    (hfuel : (kids p).length < fuel) :
    ∃ h', (h.setParent c (some p)).appendChild fuel p c = some h' ∧
      Listed h' (appended kids p c) ∧ h'.parent = Function.update h.parent c (some p) := by
  have habsent (q : Obj) : c ∉ kids q := fun hmem => nomatch ((hl.exact q c).mp hmem).symm.trans hc
  have hnodup (q : Obj) : (appended kids p c q).Nodup := by
    rw [appended]
    split
    · exact List.nodup_append.mpr ⟨hl.nodup q, List.nodup_singleton c, fun x hx y hy heq =>
        habsent q (List.mem_singleton.mp hy ▸ heq ▸ hx)⟩
    · exact hl.nodup q
  have hexact (q x : Obj) :
      x ∈ appended kids p c q ↔ Function.update h.parent c (some p) x = some q := by
    rw [appended, Function.update_apply]
    by_cases hx : x = c
    · subst hx
      rw [if_pos rfl, Option.some.injEq]
      by_cases hq : q = p
      · rw [if_pos hq]
        exact ⟨fun _ => hq.symm, fun _ => List.mem_append_right _ List.mem_cons_self⟩
      · rw [if_neg hq]
        exact ⟨fun hmem => absurd hmem (habsent q), fun heq => absurd heq.symm hq⟩
    · rw [if_neg hx, ← hl.exact]
      split
      · rw [List.mem_append, List.mem_singleton]
        exact or_iff_left hx
      · exact Iff.rfl
  have hend := hl.single c hc
  rw [Objects.appendChild]
  cases hfirst : h.firstChild p with
  | none =>
    have hnil : kids p = [] := (hfirst ▸ hl.chains p).unique rfl
    have hfirst' : (h.setParent c (some p)).firstChild p = none := hfirst
    rw [hfirst']
    refine ⟨_, rfl, ⟨fun q => ?_, hnodup, hexact, fun x hx => ?_⟩, rfl⟩
    · rw [appended, Objects.setFirstChild]
      dsimp only
      rw [Function.update_apply]
      split
      next heq =>
        rw [heq, hnil]
        exact ⟨rfl, hend⟩
      next => exact hl.chains q
    · rw [show (Objects.setFirstChild (h.setParent c (some p)) p (some c)).parent =
        Function.update h.parent c (some p) from rfl, Function.update_apply] at hx
      split at hx
      next => exact nomatch hx
      next => exact hl.single x hx
  | some it =>
    have hfirst' : (h.setParent c (some p)).firstChild p = some it := hfirst
    have hchain := hl.chains p
    rw [hfirst] at hchain
    rcases List.eq_nil_or_concat (kids p) with hnil | ⟨l, b, hkids⟩
    · rw [hnil] at hchain
      exact nomatch hchain
    rw [List.concat_eq_append] at hkids
    rw [hkids] at hchain
    rw [hkids, List.length_append, List.length_singleton] at hfuel
    have hb : b ∈ kids p := hkids ▸ List.mem_append_right l List.mem_cons_self
    have hlast : (h.setParent c (some p)).lastSibling fuel it = some b :=
      lastSibling_finds hchain (by omega)
    have hnd := hkids ▸ hl.nodup p
    have hbl : b ∉ l := fun hmem => (List.nodup_append.mp hnd).2.2 b hmem b List.mem_cons_self rfl
    have hcl : c ∉ l ++ [b] := hkids ▸ habsent p
    have hcb : c ≠ b := fun heq => hcl (heq ▸ List.mem_append_right l List.mem_cons_self)
    rw [hfirst']
    dsimp only
    rw [hlast, Option.map_some]
    refine ⟨_, rfl, ⟨fun q => ?_, hnodup, hexact, fun x hx => ?_⟩, rfl⟩
    · show Chain (Function.update h.nextSibling b (some c)) (h.firstChild q) _
      rw [appended]
      split
      next heq =>
        rw [heq, hfirst, hkids, List.append_assoc, List.singleton_append]
        exact hchain.snoc hbl (fun hmem => hcl (List.mem_append_left _ hmem)) hcb hend
      next hq =>
        refine (hl.chains q).congr fun x hx => ?_
        have hxb : x ≠ b := fun heq => hq (hl.mem_unique hx (heq ▸ hb))
        exact Function.update_of_ne hxb _ _
    · show Function.update h.nextSibling b (some c) x = none
      rw [show (Objects.setNextSibling (h.setParent c (some p)) b (some c)).parent =
        Function.update h.parent c (some p) from rfl, Function.update_apply] at hx
      split at hx
      next => exact nomatch hx
      next =>
        have hxb : x ≠ b := by
          rintro rfl
          rw [(hl.exact p x).mp hb] at hx
          exact nomatch hx
        rw [Function.update_of_ne hxb]
        exact hl.single x hx

theorem Listed.attach (hl : Listed h kids) (p c : Obj) {fuel : Nat}
    (hfuel : ∀ p, (kids p).length < fuel) :
    ∃ h' kids', h.objectAttach fuel (some p) (some c) = some h' ∧ Listed h' kids' ∧
      h'.parent = Function.update h.parent c (some p) := by
  rw [Objects.objectAttach]
  split
  next hsame => exact ⟨h, kids, rfl, hl, by rw [← hsame, Function.update_eq_self]⟩
  next =>
    obtain ⟨h', hdetach, hl', hparent⟩ := hl.detach c hfuel
    have hlen := hfuel p
    have herase := (List.erase_sublist (a := c) (l := kids p)).length_le
    obtain ⟨h'', happend, hl'', hparent'⟩ := hl'.append (p := p) (c := c)
      (by rw [hparent, Function.update_self]) (show ((kids p).erase c).length < fuel by omega)
    refine ⟨h'', _, ?_, hl'', ?_⟩
    · rw [hdetach, Option.bind_some, happend]
    · rw [hparent', hparent, Function.update_idem]

end Lists

end HouseOS.Hgui
