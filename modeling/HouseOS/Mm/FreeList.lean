import HouseOS.Mm.Header

namespace HouseOS.Mm

open HouseOS.ByteMem
open HouseOS.DoublyLinked
open HouseOS.Loop
open HouseOS.Word
open Heap

structure Spread (as : List Nat) : Prop where
  apart : ∀ x ∈ as, ∀ y ∈ as, SameOrApart x y
  nonzero : ∀ x ∈ as, x ≠ 0
  word : ∀ x ∈ as, x < 2 ^ 32

section Search

variable {h : Heap}

theorem findFreeBlock_loop (h : Heap) (needed : Nat) (xs : List Nat) :
    ∀ (p n : Nat), Seg h.links p xs 0 → (∀ x ∈ xs, x ≠ 0) → xs.length < n →
      ∃ r, loop (h.findStep needed) n (xs.headD 0) = some r ∧
        ((r = 0 ∧ ∀ x ∈ xs, ¬ (h.isFree x ≠ 0 ∧ needed ≤ h.size x)) ∨
          r ∈ xs ∧ h.isFree r ≠ 0 ∧ needed ≤ h.size r) := by
  induction xs with
  | nil =>
    intro p n _ _ hn
    obtain ⟨n, rfl⟩ := Nat.exists_eq_succ_of_ne_zero (Nat.ne_of_gt hn)
    exact ⟨0, loop_ret (by simp [Heap.findStep]) n, Or.inl ⟨rfl, by simp⟩⟩
  | cons a xs ih =>
    intro p n hseg hpos hn
    obtain ⟨n, rfl⟩ : ∃ k, n = k + 1 := Nat.exists_eq_succ_of_ne_zero (by omega)
    obtain ⟨_, hnext, hrest⟩ := hseg
    have ha := hpos a List.mem_cons_self
    by_cases hfit : h.isFree a ≠ 0 ∧ needed ≤ h.size a
    · refine ⟨a, loop_ret ?_ n, Or.inr ⟨List.mem_cons_self, hfit⟩⟩
      simp [Heap.findStep, ha, hfit]
    · have hstep : h.findStep needed a = .go (xs.headD 0) := by
        rw [Heap.findStep, if_neg ha, if_neg hfit]
        exact congrArg Step.go hnext
      have hlen : xs.length < n := by
        rw [List.length_cons] at hn
        omega
      obtain ⟨r, hr, hcase⟩ := ih a n hrest (fun x hx => hpos x (List.mem_cons_of_mem a hx)) hlen
      refine ⟨r, (loop_go hstep n).trans hr, ?_⟩
      rcases hcase with ⟨h0, hnone⟩ | ⟨hmem, hfree⟩
      · exact Or.inl ⟨h0, List.forall_mem_cons.mpr ⟨hfit, hnone⟩⟩
      · exact Or.inr ⟨List.mem_cons_of_mem a hmem, hfree⟩

theorem sorted_loop (h : Heap) (block : Nat) (xs : List Nat) :
    ∀ (p n : Nat), Seg h.links p xs 0 → (∀ x ∈ xs, x ≠ 0) → xs.length < n →
      ∃ l r, xs = l ++ r ∧ (∀ x ∈ l, x < block) ∧ (∀ x, r.head? = some x → block ≤ x) ∧
        loop (h.sortedStep block) n (xs.headD 0, p) = some (r.headD 0, l.getLastD p) := by
  induction xs with
  | nil =>
    intro p n _ _ hn
    obtain ⟨n, rfl⟩ := Nat.exists_eq_succ_of_ne_zero (Nat.ne_of_gt hn)
    exact ⟨[], [], rfl, by simp, by simp, loop_ret (by simp [Heap.sortedStep]) n⟩
  | cons a xs ih =>
    intro p n hseg hpos hn
    obtain ⟨n, rfl⟩ : ∃ k, n = k + 1 := Nat.exists_eq_succ_of_ne_zero (by omega)
    obtain ⟨_, hnext, hrest⟩ := hseg
    have ha := hpos a List.mem_cons_self
    by_cases hlt : a < block
    · have hstep : h.sortedStep block (a, p) = .go (xs.headD 0, a) := by
        rw [Heap.sortedStep, if_pos ⟨ha, hlt⟩]
        exact congrArg (fun x => Step.go (x, a)) hnext
      have hlen : xs.length < n := by
        rw [List.length_cons] at hn
        omega
      obtain ⟨l, r, hxs, hl, hr, hloop⟩ :=
        ih a n hrest (fun x hx => hpos x (List.mem_cons_of_mem a hx)) hlen
      refine ⟨a :: l, r, by rw [hxs, List.cons_append], ?_, hr, ?_⟩
      · intro x hx
        rcases List.mem_cons.mp hx with rfl | hx
        · exact hlt
        · exact hl x hx
      · rw [List.getLastD_cons]
        exact (loop_go hstep n).trans hloop
    · refine ⟨[], a :: xs, rfl, by simp, ?_, loop_ret ?_ n⟩
      · intro x hx
        cases hx
        omega
      · rw [Heap.sortedStep]
        exact if_neg (fun hc => hlt hc.2)

end Search

section Unlink

variable {h : Heap} {as : List Nat} {a x : Nat}

theorem next_lt (h : Heap) (b : Nat) : h.next b < 2 ^ 32 := load32_lt _ _

theorem prev_lt (h : Heap) (b : Nat) : h.prev b < 2 ^ 32 := load32_lt _ _

theorem header_next {h h' : Heap} {b : Nat} (heq : h'.header b = h.header b) :
    h'.next b = h.next b := congrArg Header.next heq

theorem header_prev {h h' : Heap} {b : Nat} (heq : h'.header b = h.header b) :
    h'.prev b = h.prev b := congrArg Header.prev heq

theorem removeFromList_eq (hs : Spread as) (ha : a ∈ as) (hp : h.prev a ≠ 0 → h.prev a ∈ as)
    (hpa : h.prev a ≠ a) :
    h.removeFromList a =
      let h₁ := if h.prev a ≠ 0 then h.setNext (h.prev a) (h.next a) else h.setFreeList (h.next a)
      let h₂ := if h.next a ≠ 0 then h₁.setPrev (h.next a) (h.prev a) else h₁
      (h₂.setNext a 0).setPrev a 0 := by
  have hkeep : (if h.prev a ≠ 0 then h.setNext (h.prev a) (h.next a)
      else h.setFreeList (h.next a)).header a = h.header a := by
    split
    · rename_i hp0
      rw [header_setNext (hs.apart _ (hp hp0) _ ha), if_neg (Ne.symm hpa)]
    · rw [header_setFreeList]
  have hnext := header_next hkeep
  have hprev := header_prev hkeep
  rw [Heap.removeFromList, if_neg (hs.nonzero a ha)]
  dsimp only
  rw [hnext, hprev]

theorem removeFromList_header (hs : Spread as) (ha : a ∈ as)
    (hp : h.prev a ≠ 0 → h.prev a ∈ as) (hn : h.next a ≠ 0 → h.next a ∈ as)
    (hpa : h.prev a ≠ a) (hx : x ∈ as) :
    (h.removeFromList a).header x =
      if x = a then { h.header x with next := 0, prev := 0 }
      else { h.header x with
        next := if x = h.prev a then h.next a else h.next x
        prev := if x = h.next a then h.prev a else h.prev x } := by
  have hax := hs.apart a ha x hx
  have hx0 := hs.nonzero x hx
  have hmod : ∀ v, v < 2 ^ 32 → v % 2 ^ 32 = v := fun v hv => Nat.mod_eq_of_lt hv
  rw [removeFromList_eq hs ha hp hpa]
  simp only [header_setPrev hax, header_setNext hax]
  by_cases hp0 : h.prev a = 0
  · by_cases hn0 : h.next a = 0
    · simp only [hp0, hn0, ne_eq, not_true_eq_false, if_false, header_setFreeList, if_neg hx0]
      split <;> simp [Heap.header]
    · simp only [hp0, hn0, ne_eq, not_true_eq_false, not_false_eq_true, if_false, if_true,
        header_setPrev (hs.apart _ (hn hn0) x hx), header_setFreeList, if_neg hx0]
      split <;> split <;> simp_all [Heap.header]
  · by_cases hn0 : h.next a = 0
    · simp only [hp0, hn0, ne_eq, not_true_eq_false, not_false_eq_true, if_false, if_true,
        header_setNext (hs.apart _ (hp hp0) x hx), if_neg hx0]
      split <;> split <;> simp_all [Heap.header]
    · simp only [hp0, hn0, ne_eq, not_false_eq_true, if_true,
        header_setNext (hs.apart _ (hp hp0) x hx), header_setPrev (hs.apart _ (hn hn0) x hx),
        hmod _ (next_lt h a), hmod _ (prev_lt h a)]
      split <;> split <;> split <;> simp_all [Heap.header]

theorem removeFromList_freeList (ha : a ≠ 0) :
    (h.removeFromList a).freeList = if h.prev a = 0 then h.next a else h.freeList := by
  simp only [Heap.removeFromList, if_neg ha]
  by_cases hp0 : h.prev a = 0
  · simp only [hp0, ne_eq, not_true_eq_false, if_false, if_true]
    split <;> rfl
  · simp only [hp0, ne_eq, not_false_eq_true, if_true, if_false]
    split <;> rfl

theorem removeFromList_touch (hs : Spread as) (ha : a ∈ as) (hp : h.prev a ≠ 0 → h.prev a ∈ as)
    (hn : h.next a ≠ 0 → h.next a ∈ as) (hpa : h.prev a ≠ a) :
    Touch h (h.removeFromList a) as := by
  rw [removeFromList_eq hs ha hp hpa]
  refine Touch.trans ?_ ((Touch.setNext ha).trans (Touch.setPrev ha))
  split
  · rename_i hn0
    refine Touch.trans ?_ (Touch.setPrev (hn hn0))
    split
    · rename_i hp0
      exact Touch.setNext (hp hp0)
    · exact Touch.setFreeList
  · split
    · rename_i hp0
      exact Touch.setNext (hp hp0)
    · exact Touch.setFreeList

end Unlink

section Insert

variable {h : Heap} {as : List Nat} {a x cur prev : Nat}

def linkBetween (h : Heap) (a cur prev : Nat) : Heap :=
  let h := (h.setNext a cur).setPrev a prev
  let h := if prev ≠ 0 then h.setNext prev a else h.setFreeList a
  if cur ≠ 0 then h.setPrev cur a else h

theorem linkBetween_header (hs : Spread as) (ha : a ∈ as) (hc : cur ≠ 0 → cur ∈ as)
    (hp : prev ≠ 0 → prev ∈ as) (hca : cur ≠ a) (hpa : prev ≠ a) (hc32 : cur < 2 ^ 32)
    (hp32 : prev < 2 ^ 32) (hx : x ∈ as) :
    (linkBetween h a cur prev).header x =
      if x = a then { h.header x with next := cur, prev := prev }
      else { h.header x with
        next := if x = prev then a else h.next x
        prev := if x = cur then a else h.prev x } := by
  have hax := hs.apart a ha x hx
  have hx0 := hs.nonzero x hx
  have hmod : ∀ v, v < 2 ^ 32 → v % 2 ^ 32 = v := fun v hv => Nat.mod_eq_of_lt hv
  have ha32 := hs.word a ha
  simp only [linkBetween]
  by_cases hp0 : prev = 0
  · by_cases hc0 : cur = 0
    · simp only [hp0, hc0, ne_eq, not_true_eq_false, if_false, header_setFreeList,
        header_setPrev hax, header_setNext hax, if_neg hx0]
      split <;> rfl
    · simp only [hp0, hc0, ne_eq, not_true_eq_false, not_false_eq_true, if_false, if_true,
        header_setPrev (hs.apart _ (hc hc0) x hx), header_setFreeList, header_setPrev hax,
        header_setNext hax, if_neg hx0, hmod _ hc32, hmod _ ha32]
      split <;> split <;> simp_all [Heap.header]
  · by_cases hc0 : cur = 0
    · simp only [hp0, hc0, ne_eq, not_true_eq_false, not_false_eq_true, if_false, if_true,
        header_setNext (hs.apart _ (hp hp0) x hx), header_setPrev hax, header_setNext hax,
        if_neg hx0, hmod _ hp32, hmod _ ha32]
      split <;> split <;> simp_all [Heap.header]
    · simp only [hp0, hc0, ne_eq, not_false_eq_true, if_true,
        header_setPrev (hs.apart _ (hc hc0) x hx), header_setNext (hs.apart _ (hp hp0) x hx),
        header_setPrev hax, header_setNext hax, hmod _ hp32, hmod _ hc32, hmod _ ha32]
      split <;> split <;> split <;> simp_all [Heap.header]

theorem linkBetween_freeList :
    (linkBetween h a cur prev).freeList = if prev = 0 then a else h.freeList := by
  simp only [linkBetween]
  by_cases hp0 : prev = 0
  · simp only [hp0, ne_eq, not_true_eq_false, if_false, if_true]
    split <;> rfl
  · simp only [hp0, ne_eq, not_false_eq_true, if_true, if_false]
    split <;> rfl

theorem linkBetween_touch (ha : a ∈ as) (hc : cur ≠ 0 → cur ∈ as) (hp : prev ≠ 0 → prev ∈ as) :
    Touch h (linkBetween h a cur prev) as := by
  have h₁ : Touch h ((h.setNext a cur).setPrev a prev) as :=
    (Touch.setNext ha).trans (Touch.setPrev ha)
  have h₂ : Touch h (if prev ≠ 0 then ((h.setNext a cur).setPrev a prev).setNext prev a
      else ((h.setNext a cur).setPrev a prev).setFreeList a) as := by
    split
    · rename_i hp0
      exact h₁.trans (Touch.setNext (hp hp0))
    · exact h₁.trans Touch.setFreeList
  simp only [linkBetween]
  split
  · rename_i hc0
    exact h₂.trans (Touch.setPrev (hc hc0))
  · exact h₂

theorem insertIntoListSorted_eq {free : List Nat} (hl : Linked h.links h.freeList free)
    (hpos : ∀ x ∈ free, x ≠ 0) (hlen : free.length < listFuel) (block : Nat) :
    ∃ l r, free = l ++ r ∧ (∀ x ∈ l, x < block) ∧ (∀ x, r.head? = some x → block ≤ x) ∧
      ∃ h', h.insertIntoListSorted block = some h' ∧
        ((free ≠ [] ∧ h' = linkBetween h block (r.headD 0) (l.getLastD 0)) ∨
          (free = [] ∧ h' = ((h.setFreeList block).setPrev block 0).setNext block 0)) := by
  obtain ⟨l, r, hfree, hlow, hhigh, hloop⟩ := sorted_loop h block free 0 listFuel hl.2 hpos hlen
  refine ⟨l, r, hfree, hlow, hhigh, ?_⟩
  by_cases hnil : free = []
  · have h0 : h.freeList = 0 := by
      rw [hl.1, hnil]
      rfl
    exact ⟨_, by rw [Heap.insertIntoListSorted, if_pos h0], Or.inr ⟨hnil, rfl⟩⟩
  · have h0 : h.freeList ≠ 0 := by
      rw [hl.1]
      rcases headD_mem_or free 0 with heq | hmem
      · exact absurd heq hnil
      · exact hpos _ hmem
    refine ⟨_, ?_, Or.inl ⟨hnil, rfl⟩⟩
    rw [Heap.insertIntoListSorted, if_neg h0, hl.1, hloop]
    rfl

end Insert

section Absorb

variable {h : Heap} {as : List Nat} {p x y size : Nat}

theorem absorb_eq (hs : Spread as) (hp : p ∈ as) (hx : x ∈ as) (hpx : p ≠ x)
    (hsize : add32 (h.size p) (h.blockTotalSize x) = size) :
    h.absorb p x =
      if h.next x ≠ 0 then ((h.setSize p size).setNext p (h.next x)).setPrev (h.next x) p
      else (h.setSize p size).setNext p (h.next x) := by
  have hapart := hs.apart p hp x hx
  have h1 : (h.setSize p size).header x = h.header x := by
    rw [header_setSize hapart, if_neg (Ne.symm hpx)]
  have h2 : ((h.setSize p size).setNext p (h.next x)).header x = h.header x := by
    rw [header_setNext hapart, if_neg (Ne.symm hpx), h1]
  rw [Heap.absorb, hsize]
  rw [header_next h1, header_next h2]

theorem absorb_header (hs : Spread as) (hp : p ∈ as) (hx : x ∈ as) (hpx : p ≠ x)
    (hn : h.next x ≠ 0 → h.next x ∈ as) (hnp : h.next x ≠ p)
    (hsize : add32 (h.size p) (h.blockTotalSize x) = size) (hword : size < 2 ^ 32) (hy : y ∈ as) :
    (h.absorb p x).header y =
      if y = p then { h.header y with size := size, next := h.next x }
      else { h.header y with prev := if y = h.next x then p else h.prev y } := by
  have hpy := hs.apart p hp y hy
  have hy0 := hs.nonzero y hy
  have hsz : size % 2 ^ 32 = size := Nat.mod_eq_of_lt hword
  have hnx : h.next x % 2 ^ 32 = h.next x := Nat.mod_eq_of_lt (next_lt h x)
  have hp32 : p % 2 ^ 32 = p := Nat.mod_eq_of_lt (hs.word p hp)
  rw [absorb_eq hs hp hx hpx hsize]
  by_cases hn0 : h.next x = 0
  · rw [hn0, if_neg (fun hc => hc rfl), header_setNext hpy, header_setSize hpy, hsz, if_neg hy0]
    split <;> simp [Heap.header]
  · rw [if_pos hn0, header_setPrev (hs.apart _ (hn hn0) y hy), header_setNext hpy,
      header_setSize hpy, hsz, hnx, hp32]
    by_cases hyp : y = p
    · have hne : y ≠ h.next x := fun heq => hnp (heq.symm.trans hyp)
      rw [if_neg hne, if_pos hyp, if_pos hyp, if_pos hyp]
    · rw [if_neg hyp, if_neg hyp, if_neg hyp]
      split <;> simp [Heap.header]

theorem absorb_freeList (hs : Spread as) (hp : p ∈ as) (hx : x ∈ as) (hpx : p ≠ x) :
    (h.absorb p x).freeList = h.freeList := by
  rw [absorb_eq hs hp hx hpx rfl]
  split <;> rfl

theorem absorb_touch (hs : Spread as) (hp : p ∈ as) (hx : x ∈ as) (hpx : p ≠ x)
    (hn : h.next x ≠ 0 → h.next x ∈ as) : Touch h (h.absorb p x) as := by
  obtain ⟨size, hsize⟩ : ∃ size, add32 (h.size p) (h.blockTotalSize x) = size := ⟨_, rfl⟩
  have t : Touch h ((h.setSize p size).setNext p (h.next x)) as :=
    (Touch.setSize hp).trans (Touch.setNext hp)
  rw [absorb_eq hs hp hx hpx hsize]
  split
  · rename_i hn0
    exact t.trans (Touch.setPrev (hn hn0))
  · exact t

end Absorb

end HouseOS.Mm
