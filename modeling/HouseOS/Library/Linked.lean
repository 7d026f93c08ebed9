import Mathlib.Data.List.Nodup
import Mathlib.Logic.Function.Basic
import Mathlib.Tactic.Common
import Mathlib.Data.List.Basic

namespace HouseOS.SinglyLinked

variable {α : Type} {next next' : α → Option α} {p : Option α} {a b c : α} {l r : List α}

def Chain (next : α → Option α) : Option α → List α → Prop
  | p, [] => p = none
  | p, a :: l => p = some a ∧ Chain next (next a) l

theorem Chain.congr (h : Chain next p l) (heq : ∀ x ∈ l, next' x = next x) : Chain next' p l := by
  induction l generalizing p with
  | nil => exact h
  | cons a l ih =>
    obtain ⟨hp, hl⟩ := h
    refine ⟨hp, ?_⟩
    rw [heq a List.mem_cons_self]
    exact ih hl fun x hx => heq x (List.mem_cons_of_mem a hx)

theorem Chain.unique (hl : Chain next p l) (hr : Chain next p r) : l = r := by
  induction l generalizing p r with
  | nil =>
    cases r with
    | nil => rfl
    | cons b r => exact nomatch hl.symm.trans hr.1
  | cons a l ih =>
    cases r with
    | nil => exact nomatch hl.1.symm.trans hr
    | cons b r =>
      obtain rfl : a = b := Option.some.inj (hl.1.symm.trans hr.1)
      rw [ih hl.2 hr.2]

variable [DecidableEq α]

theorem Chain.snoc (h : Chain next p (l ++ [a])) (ha : a ∉ l) (hb : b ∉ l) (hne : b ≠ a)
    (hend : next b = none) : Chain (Function.update next a (some b)) p (l ++ [a, b]) := by
  induction l generalizing p with
  | nil =>
    refine ⟨h.1, ?_, ?_⟩
    · rw [Function.update_self]
    · rw [Function.update_of_ne hne, hend]
      exact rfl
  | cons c l ih =>
    obtain ⟨hp, hl⟩ := h
    have hca : c ≠ a := fun heq => ha (heq ▸ List.mem_cons_self)
    refine ⟨hp, ?_⟩
    rw [Function.update_of_ne hca]
    exact ih hl (fun hmem => ha (List.mem_cons_of_mem c hmem))
      (fun hmem => hb (List.mem_cons_of_mem c hmem))

theorem Chain.unlink (h : Chain next p (l ++ a :: c :: r)) (ha : a ∉ l) (har : a ∉ r) :
    Chain (Function.update next a (next c)) p (l ++ a :: r) := by
  induction l generalizing p with
  | nil =>
    obtain ⟨hp, -, hr⟩ := h
    refine ⟨hp, ?_⟩
    rw [Function.update_self]
    refine hr.congr fun x hx => ?_
    have hxa : x ≠ a := fun heq => har (heq ▸ hx)
    exact Function.update_of_ne hxa _ _
  | cons b l ih =>
    obtain ⟨hp, hl⟩ := h
    have hba : b ≠ a := fun heq => ha (heq ▸ List.mem_cons_self)
    refine ⟨hp, ?_⟩
    rw [Function.update_of_ne hba]
    exact ih hl (fun hmem => ha (List.mem_cons_of_mem b hmem))

end HouseOS.SinglyLinked

namespace HouseOS.DoublyLinked

structure Links where
  next : Nat → Nat
  prev : Nat → Nat

def Seg (k : Links) : Nat → List Nat → Nat → Prop
  | _, [], _ => True
  | p, a :: as, q => k.prev a = p ∧ k.next a = as.headD q ∧ Seg k a as q

def Linked (k : Links) (head : Nat) (xs : List Nat) : Prop := head = xs.headD 0 ∧ Seg k 0 xs 0

variable {k k' : Links} {p q p' q' a head head' : Nat} {l r xs : List Nat}

theorem headD_append (l r : List Nat) (q : Nat) : (l ++ r).headD q = l.headD (r.headD q) := by
  cases l <;> rfl

theorem getLastD_mem_or (l : List Nat) (p : Nat) : l = [] ∨ l.getLastD p ∈ l := by
  cases l with
  | nil => exact Or.inl rfl
  | cons b l =>
    right
    rw [List.getLastD_cons]
    rcases List.eq_nil_or_concat l with rfl | ⟨l', c, rfl⟩
    · simp
    · simp

theorem headD_mem_or (l : List Nat) (p : Nat) : l = [] ∨ l.headD p ∈ l := by
  cases l with
  | nil => exact Or.inl rfl
  | cons b l => exact Or.inr List.mem_cons_self

theorem seg_append : Seg k p (l ++ r) q ↔ Seg k p l (r.headD q) ∧ Seg k (l.getLastD p) r q := by
  induction l generalizing p with
  | nil => simp [Seg]
  | cons b l ih =>
    simp only [List.cons_append, Seg, headD_append, ih, List.getLastD_cons]
    tauto

theorem Seg.congr (h : Seg k p xs q) (hk : ∀ x ∈ xs, k'.next x = k.next x ∧ k'.prev x = k.prev x) :
    Seg k' p xs q := by
  induction xs generalizing p with
  | nil => trivial
  | cons b xs ih =>
    obtain ⟨hprev, hnext, hrest⟩ := h
    obtain ⟨hn, hp⟩ := hk b List.mem_cons_self
    exact ⟨hp.trans hprev, hn.trans hnext, ih hrest (fun x hx => hk x (List.mem_cons_of_mem b hx))⟩

theorem Seg.retarget (h : Seg k p xs q) (hnd : xs.Nodup) (hprev : ∀ x ∈ xs, k'.prev x = k.prev x)
    (hnext : ∀ x ∈ xs, k'.next x = if x = xs.getLastD 0 then q' else k.next x) :
    Seg k' p xs q' := by
  induction xs generalizing p with
  | nil => trivial
  | cons b xs ih =>
    obtain ⟨hp, hn, hrest⟩ := h
    obtain ⟨hb, hnd⟩ := List.nodup_cons.mp hnd
    refine ⟨(hprev b List.mem_cons_self).trans hp, ?_, ?_⟩
    · rw [hnext b List.mem_cons_self, List.getLastD_cons]
      cases xs with
      | nil => simp
      | cons c xs =>
        have hne : b ≠ (c :: xs).getLastD b := by
          rcases getLastD_mem_or (c :: xs) b with hnil | hmem
          · cases hnil
          · exact fun heq => hb (heq ▸ hmem)
        rw [if_neg hne, hn]
        rfl
    · cases xs with
      | nil => trivial
      | cons c xs =>
        refine ih hrest hnd (fun x hx => hprev x (List.mem_cons_of_mem b hx)) ?_
        intro x hx
        rw [hnext x (List.mem_cons_of_mem b hx)]
        simp only [List.getLastD_cons]

theorem Seg.restart (h : Seg k p xs q) (hnd : xs.Nodup) (hnext : ∀ x ∈ xs, k'.next x = k.next x)
    (hprev : ∀ x ∈ xs, k'.prev x = if x = xs.headD 0 then p' else k.prev x) : Seg k' p' xs q := by
  cases xs with
  | nil => trivial
  | cons b xs =>
    obtain ⟨hp, hn, hrest⟩ := h
    obtain ⟨hb, _⟩ := List.nodup_cons.mp hnd
    refine ⟨by simp [hprev b List.mem_cons_self], (hnext b List.mem_cons_self).trans hn, ?_⟩
    refine hrest.congr ?_
    intro x hx
    refine ⟨hnext x (List.mem_cons_of_mem b hx), ?_⟩
    rw [hprev x (List.mem_cons_of_mem b hx), List.headD_cons, if_neg]
    rintro rfl
    exact hb hx

theorem Linked.unlink (h : Linked k head (l ++ a :: r)) (hnd : (l ++ a :: r).Nodup)
    (hpos : ∀ x ∈ l ++ a :: r, x ≠ 0)
    (hnext : ∀ x ∈ l ++ r, k'.next x = if x = k.prev a then k.next a else k.next x)
    (hprev : ∀ x ∈ l ++ r, k'.prev x = if x = k.next a then k.prev a else k.prev x)
    (hhead : head' = if k.prev a = 0 then k.next a else head) : Linked k' head' (l ++ r) := by
  obtain ⟨hh, hseg⟩ := h
  obtain ⟨hl, hpa, hna, hr⟩ := seg_append.mp hseg
  obtain ⟨hndl, hndr, hlr⟩ := List.nodup_append.mp hnd
  obtain ⟨har, hndr⟩ := List.nodup_cons.mp hndr
  have hr0 : r.headD 0 = k.next a := hna.symm
  have hl0 : l.getLastD 0 = k.prev a := hpa.symm
  constructor
  · rw [hhead, headD_append, hr0]
    cases l with
    | nil =>
      have hpa : k.prev a = 0 := hpa
      rw [if_pos hpa]
      rfl
    | cons b l =>
      have hlast : (b :: l).getLastD 0 ≠ 0 := by
        rcases getLastD_mem_or (b :: l) 0 with hnil | hmem
        · cases hnil
        · exact hpos _ (List.mem_append_left _ hmem)
      rw [if_neg (hl0 ▸ hlast), hh]
      rfl
  · refine seg_append.mpr ⟨?_, ?_⟩
    · rw [hr0]
      refine hl.retarget hndl ?_ ?_
      · intro x hx
        rw [hprev x (List.mem_append_left _ hx), if_neg]
        rintro rfl
        rcases headD_mem_or r 0 with rfl | hmem
        · exact hpos _ (List.mem_append_left _ hx) hna
        · exact hlr _ hx _ (List.mem_cons_of_mem a (hr0 ▸ hmem)) rfl
      · intro x hx
        rw [hnext x (List.mem_append_left _ hx), hl0]
    · rw [hl0]
      refine hr.restart hndr ?_ ?_
      · intro x hx
        rw [hnext x (List.mem_append_right _ hx), if_neg]
        rintro rfl
        rcases getLastD_mem_or l 0 with rfl | hmem
        · exact hpos _ (List.mem_append_right _ (List.mem_cons_of_mem a hx)) hpa
        · exact hlr _ (hl0 ▸ hmem) _ (List.mem_cons_of_mem a hx) rfl
      · intro x hx
        rw [hprev x (List.mem_append_right _ hx), hr0]

theorem Linked.insert (h : Linked k head (l ++ r)) (hnd : (l ++ a :: r).Nodup)
    (hpos : ∀ x ∈ l ++ a :: r, x ≠ 0)
    (hnexta : k'.next a = r.headD 0) (hpreva : k'.prev a = l.getLastD 0)
    (hnext : ∀ x ∈ l ++ r, k'.next x = if x = l.getLastD 0 then a else k.next x)
    (hprev : ∀ x ∈ l ++ r, k'.prev x = if x = r.headD 0 then a else k.prev x)
    (hhead : head' = if l = [] then a else head) : Linked k' head' (l ++ a :: r) := by
  obtain ⟨hh, hseg⟩ := h
  obtain ⟨hl, hr⟩ := seg_append.mp hseg
  obtain ⟨hndl, hndr, hlr⟩ := List.nodup_append.mp hnd
  obtain ⟨_, hndr⟩ := List.nodup_cons.mp hndr
  constructor
  · rw [hhead, headD_append]
    cases l with
    | nil => rfl
    | cons b l =>
      rw [if_neg (List.cons_ne_nil b l), hh]
      rfl
  · refine seg_append.mpr ⟨?_, hpreva, hnexta, ?_⟩
    · refine hl.retarget hndl ?_ ?_
      · intro x hx
        rw [hprev x (List.mem_append_left _ hx), if_neg]
        rintro rfl
        rcases headD_mem_or r 0 with rfl | hmem
        · exact hpos _ (List.mem_append_left _ hx) rfl
        · exact hlr _ hx _ (List.mem_cons_of_mem a hmem) rfl
      · intro x hx
        rw [hnext x (List.mem_append_left _ hx)]
        rfl
    · refine hr.restart hndr ?_ ?_
      · intro x hx
        rw [hnext x (List.mem_append_right _ hx), if_neg]
        rintro rfl
        rcases getLastD_mem_or l 0 with rfl | hmem
        · exact hpos _ (List.mem_append_right _ (List.mem_cons_of_mem a hx)) rfl
        · exact hlr _ hmem _ (List.mem_cons_of_mem a hx) rfl
      · intro x hx
        rw [hprev x (List.mem_append_right _ hx)]

theorem Linked.congr (h : Linked k head xs)
    (hk : ∀ x ∈ xs, k'.next x = k.next x ∧ k'.prev x = k.prev x) : Linked k' head xs :=
  ⟨h.1, h.2.congr hk⟩

theorem Linked.prev_next (h : Linked k head (l ++ a :: r)) :
    k.prev a = l.getLastD 0 ∧ k.next a = r.headD 0 := by
  obtain ⟨_, hp, hn, _⟩ := seg_append.mp h.2
  exact ⟨hp, hn⟩

end HouseOS.DoublyLinked
