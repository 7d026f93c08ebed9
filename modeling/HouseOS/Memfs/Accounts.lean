import HouseOS.Library.Ledger
import HouseOS.Memfs.Calls
import HouseOS.Memfs.TreeInvariant

namespace HouseOS.Memfs

open Relation
open HouseOS.Components
open HouseOS.Ledger
open HouseOS.Loop (Step)
open HouseOS.Vfs (Path slash NodeType pathCap)
open World

variable {w w' : World} {f : Nat}

def weight (n : Inode) : Nat := if isStorageNode n.type then n.size else 0

namespace World

def contentBytes (w : World) : Nat :=
  ∑ i ∈ Finset.range w.nextInode, if w.live i then weight (w.inode i) else 0

def liveInodes (w : World) : Nat := ((Finset.range w.nextInode).filter fun i => w.live i).card

-- an account for every live inode, and the two counters of the memfs
def books (w : World) (f : Nat) : Books where
  held i := if w.live i then some (weight (w.inode i)) else none
  limit := w.nextInode
  sum := (w.memfs f).usedMemory
  count := (w.memfs f).inodeCount

end World

section Quiet

theorem books_setInode (f i : Nat) {n : Inode} (hn : weight n = weight (w.inode i)) :
    (w.setInode i n).books f = w.books f := by
  have hweight : ∀ j, weight ((w.setInode i n).inode j) = weight (w.inode j) := fun j => by
    rw [setInode_inode]
    split
    · rename_i hj
      rw [hn, hj]
    · rfl
  simp only [World.books, hweight]
  rfl

theorem books_dentryCreate (f child : Nat) (name : Option Path) :
    (w.dentryCreate child name).2.books f = w.books f := by
  have hdup : ∀ (w : World) (s : Option Path), (w.dupName s).2.books f = w.books f := fun w s => by
    rw [World.dupName]
    cases hc : w.valloc 256 with
    | mk ok w₁ =>
      have hw : w₁.books f = w.books f := congrArg (fun r => r.2.books f) hc.symm
      cases ok <;> exact hw
  rw [World.dentryCreate]
  cases hc : w.valloc dentryBytes with
  | mk ok w₁ =>
    have hw : w₁.books f = w.books f := congrArg (fun r => r.2.books f) hc.symm
    cases ok with
    | false => exact hw
    | true => exact (hdup w₁ name).trans hw

theorem books_addEntry (f dir : Nat) (d : Dentry) : (w.addEntry dir d).books f = w.books f :=
  books_setInode f dir rfl

theorem books_addLink (f i : Nat) : (w.addLink i).books f = w.books f := books_setInode f i rfl

theorem books_removeEntry (f dir : Nat) (d : Dentry) : (w.removeEntry dir d).books f = w.books f :=
  books_setInode f dir rfl

theorem books_dropLink (f i : Nat) : (w.dropLink i).books f = w.books f := books_setInode f i rfl

theorem books_dirAdd (f dir child : Nat) : (w.dirAdd dir child).books f = w.books f := by
  rw [World.dirAdd]
  split
  · rfl
  · have hd := books_dentryCreate (w := w) f child (w.inode child).name
    cases hc : w.dentryCreate child (w.inode child).name with
    | mk r w₁ =>
      rw [hc] at hd
      cases r with
      | none => exact hd
      | some d => exact (books_addLink f child).trans ((books_addEntry f dir d).trans hd)

theorem books_countInode (f : Nat) :
    (w.countInode f).books f = { w.books f with count := (w.books f).count + 1 } := by
  simp [World.books, World.countInode, World.setMemfs]

end Quiet

section Open

structure Opens (w w' : World) (f : Nat) : Prop where
  books : w'.books f = (w.books f).openNext
  grant : w'.grant = w.grant

theorem vallocInode_grant (hg : ∀ n, w.grant n = true) :
    w.vallocInode = (some w.nextInode, { w with
      inode := fun j => if j = w.nextInode then zeroInode else w.inode j
      live := fun j => if j = w.nextInode then true else w.live j
      nextInode := w.nextInode + 1
      allocs := w.allocs + 1 }) := by
  rw [World.vallocInode, valloc_granted hg (by decide)]

theorem dupName_grant (hg : ∀ n, w.grant n = true) (s : Option Path) :
    w.dupName s = (some ((w.text s).take 255), { w with allocs := w.allocs + 1 }) := by
  rw [World.dupName, valloc_granted hg (by decide)]
  rfl

structure Filled (w w' : World) (f : Nat) : Prop where
  old : ∀ j, j ≠ w.nextInode → w'.inode j = w.inode j
  fresh : (w'.inode w.nextInode).size = 0
  live : ∀ j, w'.live j = if j = w.nextInode then true else w.live j
  next : w'.nextInode = w.nextInode + 1
  memfs : w'.memfs = w.memfs
  grant : w'.grant = w.grant

theorem filled_vallocInode (hg : ∀ n, w.grant n = true) :
    ∃ w₁, w.vallocInode = (some w.nextInode, w₁) ∧ Filled w w₁ f :=
  ⟨_, vallocInode_grant hg, fun _ hj => if_neg hj, by simp [zeroInode], fun _ => rfl, rfl, rfl, rfl⟩

theorem Filled.setInode (h : Filled w w' f) {n : Inode} (hn : n.size = 0) :
    Filled w (w'.setInode w.nextInode n) f where
  old j hj := by
    rw [setInode_inode, if_neg hj]
    exact h.old j hj
  fresh := by
    rw [setInode_inode, if_pos rfl]
    exact hn
  live := h.live
  next := h.next
  memfs := h.memfs
  grant := h.grant

theorem Filled.allocs (h : Filled w w' f) (n : Nat) : Filled w { w' with allocs := n } f :=
  ⟨h.old, h.fresh, h.live, h.next, h.memfs, h.grant⟩

theorem Filled.books (h : Filled w w' f) :
    w'.books f = { (w.books f).openNext with count := (w.books f).count } := by
  have hheld : (fun i => if w'.live i then some (weight (w'.inode i)) else none) =
      Function.update (w.books f).held w.nextInode (some 0) := by
    funext i
    by_cases hi : i = w.nextInode
    · rw [hi, Function.update_self, h.live, if_pos rfl, if_pos rfl]
      simp [weight, h.fresh]
    · rw [Function.update_of_ne hi, h.live, if_neg hi, h.old i hi]
      rfl
  simp only [World.books, Books.openNext, h.next, h.memfs] at hheld ⊢
  rw [hheld]

theorem dirAdd_grant (w : World) (dir child : Nat) : (w.dirAdd dir child).grant = w.grant := by
  rw [World.dirAdd]
  split
  · rfl
  · have hl := Like.dentryCreate w child (w.inode child).name
    cases hd : w.dentryCreate child (w.inode child).name with
    | mk r w₁ =>
      rw [hd] at hl
      cases r <;> exact hl.grant

theorem Filled.opens (h : Filled w w' f) (dir : Nat) :
    Opens w ((w'.dirAdd dir w.nextInode).countInode f) f where
  books := by
    rw [books_countInode, books_dirAdd, h.books]
    rfl
  grant := (dirAdd_grant w' dir w.nextInode).trans h.grant

theorem mkdirHere_opens (hg : ∀ n, w.grant n = true) (cur : Nat) (name : Path) :
    Opens w (w.mkdirHere f cur name).2 f := by
  obtain ⟨w₁, hv, h₁⟩ := filled_vallocInode (f := f) hg
  have h₂ := h₁.setInode (n := { w₁.inode w.nextInode with type := .dir }) h₁.fresh
  have hg₂ : ∀ n, (w₁.setInode w.nextInode { w₁.inode w.nextInode with type := .dir }).grant n = true :=
    h₂.grant ▸ hg
  rw [World.mkdirHere, hv]
  dsimp only
  rw [dupName_grant hg₂]
  refine ((h₂.allocs _).setInode ?_).opens cur
  exact h₂.fresh

theorem newNode_opens (hg : ∀ n, w.grant n = true) (parent : Nat) (name : Path) {fill : Inode → Inode}
    (hfill : ∀ n, n.size = 0 → (fill n).size = 0) : Opens w (w.newNode f parent name fill).2 f := by
  obtain ⟨w₁, hv, h₁⟩ := filled_vallocInode (f := f) hg
  have hg₁ : ∀ n, w₁.grant n = true := h₁.grant ▸ hg
  rw [World.newNode, hv]
  dsimp only
  rw [dupName_grant hg₁]
  refine ((h₁.allocs _).setInode (hfill _ ?_)).opens parent
  exact h₁.fresh

end Open

section Paths

-- what every node on a path that is made keeps
structure Booked (w : World) (f : Nat) : Prop where
  granted : ∀ n, w.grant n = true
  intact : Intact w
  balanced : (w.books f).Balanced

theorem Booked.opens (h : Booked w f) (hi : Intact w') (ho : Opens w w' f) : Booked w' f :=
  ⟨ho.grant ▸ h.granted, hi, ho.books ▸ h.balanced.openNext⟩

theorem Booked.quiet (h : Booked w f) (hi : Intact w') (hb : w'.books f = w.books f)
    (hg : w'.grant = w.grant) : Booked w' f := ⟨hg ▸ h.granted, hi, hb ▸ h.balanced⟩

theorem Booked.mkdirHere (h : Booked w f) (cur : Nat) (name : Path) : Booked (w.mkdirHere f cur name).2 f :=
  h.opens (h.intact.mkdirHere f cur name).1 (mkdirHere_opens h.granted cur name)

theorem booked_mkdirP (h : Booked w f) (path : Path) :
    Booked (w.mkdirP f path).2 f ∧ ∀ s, (w.mkdirP f path).1 = some s → s.1 = f := by
  have hgo : ∀ (s : World × Nat × Nat) (name : Path) (last : Bool) (s' : World × Nat × Nat),
      Booked s.1 f ∧ s.2.1 = f → mkdirStep s name last = .go s' → Booked s'.1 f ∧ s'.2.1 = f := by
    rintro ⟨w₁, g, cur⟩ name last s' ⟨h, rfl⟩ hs
    have hmk := h.mkdirHere cur name
    simp only [mkdirStep] at hs
    split at hs
    · split at hs
      · cases hs
      · rename_i hm
        rw [hm] at hmk
        split at hs
        · cases hs
        · cases hs
          exact ⟨hmk, rfl⟩
    · rename_i hd
      split at hs
      · cases hs
      · cases hs
        refine ⟨h, ?_⟩
        show (w₁.enter g _).1 = g
        rw [h.intact.enter hd]
  have hret : ∀ (s : World × Nat × Nat) (name : Path) (last : Bool) (w' : World),
      Booked s.1 f ∧ s.2.1 = f → mkdirStep s name last = .ret w' → Booked w' f := by
    rintro ⟨w₁, g, cur⟩ name last w' ⟨h, rfl⟩ hs
    have hmk := h.mkdirHere cur name
    simp only [mkdirStep] at hs
    split at hs
    · split at hs
      · rename_i hm
        rw [hm] at hmk
        cases hs
        exact hmk
      · rename_i hm
        rw [hm] at hmk
        split at hs
        · cases hs
          exact hmk
        · cases hs
    · split at hs
      · cases hs
        exact h
      · cases hs
  obtain ⟨hgo', hret'⟩ := pathLoop_invariant slash
    (I := fun s : World × Nat × Nat => Booked s.1 f ∧ s.2.1 = f) (J := fun w' => Booked w' f)
    hgo hret path.length (skip slash path) (w, f, w.root f) ⟨h, rfl⟩
  rw [World.mkdirP]
  split
  · rename_i hr
    exact ⟨hret' _ hr, fun _ hs => by cases hs⟩
  · rename_i hr
    obtain ⟨hb, howner⟩ := hgo' _ hr
    refine ⟨hb, fun s hs => ?_⟩
    rw [← Option.some.inj hs]
    exact howner

theorem booked_splitParent (h : Booked w f) (path : Path) :
    Booked (w.splitParent f path).2 f ∧
      ∀ name s, (w.splitParent f path).1 = some (name, s) → s.1 = f := by
  rw [World.splitParent]
  cases splitLast slash path with
  | none => exact ⟨h, fun _ _ hr => by cases hr⟩
  | some r =>
    obtain ⟨dir, name⟩ := r
    obtain ⟨hb, howner⟩ := booked_mkdirP h (if dir.length = 0 then [slash] else dir)
    dsimp only
    split
    · rename_i heq
      rw [heq] at hb
      exact ⟨hb, fun _ _ hr => by cases hr⟩
    · rename_i heq
      rw [heq] at hb howner
      refine ⟨hb, fun name' s' hs => ?_⟩
      obtain ⟨-, rfl⟩ := Prod.mk.inj (Option.some.inj hs)
      exact howner _ rfl

theorem booked_newNode (h : Booked w f) (parent : Nat) (name : Path) {fill : Inode → Inode}
    (hfill : ∀ n, Blank n → Blank (fill n)) (hsize : ∀ n, n.size = 0 → (fill n).size = 0) :
    Booked (w.newNode f parent name fill).2 f :=
  h.opens (h.intact.newNode f parent name hfill) (newNode_opens h.granted parent name hsize)

theorem booked_createDir (h : Booked w f) (path : Path) : Booked (w.memfsCreateDir f path).2 f := by
  rw [World.memfsCreateDir]
  split
  · exact h
  obtain ⟨hp, howner⟩ := booked_splitParent h path
  split
  · rename_i heq
    rwa [heq] at hp
  · rename_i name owner parent w₁ heq
    rw [heq] at hp howner
    obtain rfl : owner = f := howner name (owner, parent) rfl
    split
    · split
      · exact hp
      · split <;> exact hp
    · exact booked_newNode hp parent name (fun _ hn => ⟨hn.data, hn.size, hn.entries⟩) fun _ hn => hn

theorem booked_createNode (h : Booked w f) (path : Path) (type : NodeType) {fill : Inode → Inode}
    (hfill : ∀ n, Blank n → Blank (fill n)) (hsize : ∀ n, n.size = 0 → (fill n).size = 0) :
    Booked (w.createNode f path type fill).2 f := by
  rw [World.createNode]
  split
  · exact h
  obtain ⟨hp, howner⟩ := booked_splitParent h path
  split
  · rename_i heq
    rwa [heq] at hp
  · rename_i name owner parent w₁ heq
    rw [heq] at hp howner
    obtain rfl : owner = f := howner name (owner, parent) rfl
    split
    · split
      · exact hp
      · split <;> exact hp
    · exact booked_newNode hp parent name (fun _ hn => hfill _ ⟨hn.data, hn.size, hn.entries⟩)
        fun _ hn => hsize _ hn

theorem booked_link (h : Booked w f) {old : Path}
    (hold : ∀ i, w.lookupPath f old = some i → i < w.nextInode) (new : Path) :
    Booked (w.memfsLink f old new).2 f := by
  rw [World.memfsLink]
  split
  · exact h
  rename_i i hi
  have hmono := (h.intact.splitParent f new).2
  obtain ⟨hp, -⟩ := booked_splitParent h new
  split
  · rename_i heq
    rwa [heq] at hp
  · rename_i name owner parent w₁ heq
    rw [heq] at hp hmono
    split
    · exact hp
    · have hbooks := books_dentryCreate (w := w₁) f i (some name)
      have hl := Like.dentryCreate w₁ i (some name)
      split
      · rename_i hd
        rw [hd] at hbooks hl
        exact hp.quiet (hp.intact.like hl) hbooks hl.grant
      · rename_i d w₂ hd
        rw [hd] at hbooks hl
        obtain ⟨hdi, hm⟩ := dentryCreate_some hd
        have hlt : d.inode < w₂.nextInode := by
          rw [hdi, hl.nextInode]
          exact Nat.lt_of_lt_of_le (hold i hi) hmono
        exact hp.quiet (((hp.intact.like hl).addEntry parent hlt hm).like (Like.addLink _ _))
          ((books_addLink f i).trans ((books_addEntry f parent d).trans hbooks)) hl.grant

end Paths

section Contents

variable {i : Nat}

theorem held_live (hi : w.live i) : (w.books f).held i = some (weight (w.inode i)) := if_pos hi

theorem sum_books : ∑ i ∈ Finset.range w.nextInode, (w.books f).amount i = w.contentBytes := by
  refine Finset.sum_congr rfl fun i _ => ?_
  rw [Books.amount, World.books]
  dsimp only
  split <;> rfl

theorem count_books : ∑ i ∈ Finset.range w.nextInode, (w.books f).isOpen i = w.liveInodes := by
  rw [World.liveInodes, Finset.card_filter]
  refine Finset.sum_congr rfl fun i _ => ?_
  rw [Books.isOpen, World.books]
  dsimp only
  split <;> rfl

theorem books_setData (hi : w.live i) (n : Inode) :
    (w.setInode i n).books f = (w.books f).post i (weight n) (w.books f).sum := by
  have hheld : (fun j => if (w.setInode i n).live j then some (weight ((w.setInode i n).inode j)) else none) =
      Function.update (w.books f).held i (some (weight n)) := by
    funext j
    by_cases hj : j = i
    · rw [hj, Function.update_self, setInode_inode, if_pos rfl]
      exact if_pos hi
    · rw [Function.update_of_ne hj, setInode_inode, if_neg hj]
      rfl
  simp only [World.books, Books.post] at hheld ⊢
  rw [hheld]
  rfl

theorem books_usedSub (f n : Nat) (hn : n ≤ (w.books f).sum) :
    (w.usedSub f n).books f = { w.books f with sum := (w.books f).sum - n } := by
  have hle : n ≤ (w.memfs f).usedMemory := hn
  simp [World.books, World.usedSub, World.setMemfs, hle]

theorem books_usedAdd (f n : Nat) :
    (w.usedAdd f n).books f = { w.books f with sum := ((w.books f).sum + n) % 2 ^ 32 } := by
  simp [World.books, World.usedAdd, World.setMemfs]

theorem storage_weight {n : Inode} (h : isStorageNode n.type = true) : weight n = n.size := if_pos h

theorem weight_empty {n : Inode} (h : n.size = 0) : weight n = 0 := by
  rw [weight, h]
  exact ite_self 0

theorem dropData_books (hb : (w.books f).Balanced) (hi : w.live i) (hsized : Sized (w.inode i))
    (hstore : isStorageNode (w.inode i).type = true) :
    (w.dropData f i).books f = (w.books f).post i 0 ((w.books f).sum - (w.inode i).size) ∧
      (w.inode i).size ≤ (w.books f).sum := by
  have hheld : (w.books f).held i = some (w.inode i).size := by
    rw [held_live hi, storage_weight hstore]
  have hle := hb.le_sum hheld
  refine ⟨?_, hle⟩
  rw [World.dropData]
  split
  · have hset := books_setData (w := w.usedSub f (w.inode i).size) (f := f) hi
      { w.inode i with data := none, size := 0 }
    rw [weight_empty rfl, books_usedSub f _ hle] at hset
    exact hset
  · rename_i hdata
    have hnone : (w.inode i).data = none := by simpa using hdata
    have hzero : (w.inode i).size = 0 := by simpa [Sized, hnone] using hsized
    rw [hzero] at hheld ⊢
    rw [Books.post, Nat.sub_zero, ← hheld, Function.update_eq_self]

theorem dropData_empty (hsized : Sized (w.inode i)) (g : Nat) :
    ((w.dropData g i).inode i).size = 0 := by
  rw [World.dropData]
  split
  · rw [setInode_inode, if_pos rfl]
  · rename_i hdata
    have hnone : (w.inode i).data = none := by simpa using hdata
    simpa [Sized, hnone] using hsized

theorem dropData_live (w : World) (g i : Nat) : (w.dropData g i).live = w.live := (alike_dropData w g g i).live

theorem held_storage (hi : w.live i) (hstore : isStorageNode (w.inode i).type = true) :
    (w.books f).held i = some (w.inode i).size := by
  rw [held_live hi, storage_weight hstore]

-- the counter does not wrap as long as the contents stay below 4 GiB
theorem balanced_store (hb : (w.books f).Balanced) (hi : w.live i) {n : Inode} {k : Nat}
    (hstore : isStorageNode n.type = true) (hgrow : n.size = weight (w.inode i) + k)
    (hfits : ((w.setInode i n).usedAdd f k).contentBytes < 2 ^ 32) :
    (((w.setInode i n).usedAdd f k).books f).Balanced := by
  have hpost : ((w.books f).post i n.size ((w.books f).sum + k)).Balanced :=
    hb.post (held_live hi) (by omega)
  have hbooks : ((w.setInode i n).usedAdd f k).books f =
      (w.books f).post i n.size (((w.books f).sum + k) % 2 ^ 32) := by
    rw [books_usedAdd, books_setData hi n, storage_weight hstore]
    rfl
  have htotal : ((w.setInode i n).usedAdd f k).contentBytes = (w.books f).sum + k := by
    refine (sum_books (f := f)).symm.trans (Eq.trans ?_ hpost.sum.symm)
    rw [hbooks]
    rfl
  rw [hbooks, Nat.mod_eq_of_lt (htotal ▸ hfits)]
  exact hpost

theorem balanced_extend (h : Booked w f) (hi : w.live i) (hstore : isStorageNode (w.inode i).type = true)
    {buf : List UInt8} (hfits : (w.extend f i buf).2.contentBytes < 2 ^ 32) :
    ((w.extend f i buf).2.books f).Balanced := by
  rw [World.extend] at hfits ⊢
  dsimp only at hfits ⊢
  cases hc : w.valloc ((w.inode i).size + buf.length) with
  | mk ok w₁ =>
    obtain rfl : { w with allocs := w.allocs + 1 } = w₁ := congrArg Prod.snd hc
    rw [hc] at hfits
    cases ok with
    | false => exact h.balanced
    | true =>
      refine balanced_store h.balanced hi hstore ?_ hfits
      rw [storage_weight hstore]

theorem balanced_streamWrite (h : Booked w f) (hi : w.live i)
    (hstore : isStorageNode (w.inode i).type = true) {buf : List UInt8}
    (hfits : (w.streamWrite f i buf).2.contentBytes < 2 ^ 32) :
    ((w.streamWrite f i buf).2.books f).Balanced := by
  rw [World.streamWrite] at hfits ⊢
  split
  · exact h.balanced
  · rename_i hne
    rw [if_neg hne] at hfits
    exact balanced_extend h hi hstore hfits

theorem Booked.dropData (h : Booked w f) (hi : w.live i) (hstore : isStorageNode (w.inode i).type = true) :
    Booked (w.dropData f i) f := by
  obtain ⟨hbooks, hle⟩ := dropData_books h.balanced hi (h.intact.sized i) hstore
  refine ⟨(alike_dropData w f f i).grant ▸ h.granted, h.intact.dropData f i, ?_⟩
  rw [hbooks]
  exact h.balanced.post (held_storage hi hstore) (by omega)

theorem balanced_take (hb : (w.books f).Balanced) (hi : w.live i) {n : Inode} {k : Nat}
    (hshrink : weight n + k = weight (w.inode i)) :
    (((w.setInode i n).usedSub f k).books f).Balanced := by
  have hle := hb.le_sum (held_live hi)
  have hset := books_setData (f := f) hi n
  rw [books_usedSub f k (by rw [hset]; show k ≤ (w.books f).sum; omega), hset]
  refine hb.post (held_live hi) ?_
  show (w.books f).sum - k + weight (w.inode i) = (w.books f).sum + weight n
  omega

theorem balanced_streamRead (h : Booked w f) (hi : w.live i)
    (hstore : isStorageNode (w.inode i).type = true) (size : Nat) :
    ((w.streamRead f i size).2.books f).Balanced := by
  have hweight := storage_weight hstore
  rw [World.streamRead]
  dsimp only
  split
  · exact h.balanced
  split
  · exact h.balanced
  split
  · exact h.balanced
  split
  · exact balanced_take h.balanced hi (by rw [weight_empty rfl]; omega)
  · cases hc : w.valloc ((w.inode i).size - min size (w.inode i).size) with
    | mk ok w₁ =>
      obtain rfl : { w with allocs := w.allocs + 1 } = w₁ := congrArg Prod.snd hc
      cases ok with
      | false => exact h.balanced
      | true =>
        have hb : (({ w with allocs := w.allocs + 1 } : World).books f).Balanced := h.balanced
        refine balanced_take hb hi (Eq.trans (congrArg (· + _) (storage_weight hstore)) ?_)
        show (w.inode i).size - min size (w.inode i).size + min size (w.inode i).size = weight (w.inode i)
        omega

end Contents

section Steps

variable {i : Nat} {dir : Nat} {d : Dentry}

theorem close_books (hb : (w.books f).Balanced) (hi : w.live i) (hzero : weight (w.inode i) = 0) :
    (((w.uncountInode f).vfreeInode i).books f).Balanced := by
  have hheld : (w.books f).held i = some 0 := by rw [held_live hi, hzero]
  have hpos := hb.count_pos hheld
  have hbooks : ((w.uncountInode f).vfreeInode i).books f =
      (w.books f).close i (w.books f).sum ((w.books f).count - 1) := by
    have hfun : (fun j => if ((w.uncountInode f).vfreeInode i).live j
        then some (weight (((w.uncountInode f).vfreeInode i).inode j)) else none) =
        Function.update (w.books f).held i none := by
      funext j
      by_cases hj : j = i
      · rw [hj, Function.update_self]
        exact if_neg (by simp [World.vfreeInode])
      · rw [Function.update_of_ne hj]
        have hlive : ((w.uncountInode f).vfreeInode i).live j = w.live j := if_neg hj
        rw [hlive]
        rfl
    simp only [World.books, Books.close] at hfun ⊢
    rw [hfun]
    simp [World.uncountInode, World.vfreeInode, World.setMemfs]
  rw [hbooks]
  exact hb.close hheld (Nat.add_zero _) (by omega)

theorem type_unlinked (w : World) (dir i : Nat) (d : Dentry) :
    (((w.removeEntry dir d).dropLink i).inode i).type = (w.inode i).type := by
  simp only [World.dropLink, World.removeEntry, setInode_inode, if_true]
  split
  · rename_i heq
    rw [heq]
  · rfl

theorem booked_unlinked (h : Booked w f) (dir i : Nat) (d : Dentry) :
    Booked ((w.removeEntry dir d).dropLink i) f :=
  h.quiet ((h.intact.removeEntry dir d).like (Like.dropLink _ i))
    ((books_dropLink f i).trans (books_removeEntry f dir d)) rfl

theorem balanced_deletedFile (h : Booked w f) (hi : w.live d.inode)
    (hstore : isStorageNode (w.inode d.inode).type = true) :
    ((deletedFile w f dir d).books f).Balanced := by
  have hquiet := booked_unlinked h dir d.inode d
  have htype := (congrArg isStorageNode (type_unlinked w dir d.inode d)).trans hstore
  rw [deletedFile]
  split
  · have hdrop := hquiet.dropData hi htype
    refine close_books hdrop.balanced ?_ (weight_empty ?_)
    · rw [dropData_live]
      exact hi
    · exact dropData_empty (hquiet.intact.sized d.inode) f
  · exact hquiet.balanced

theorem booked_deleteFile (ht : Tree w f) (h : Booked w f) (path : Path) :
    Booked (w.memfsDeleteFile f path).2 f := by
  refine ⟨(tree_deleteFile ht path).granted, h.intact.deleteFile f path, ?_⟩
  rw [memfsDeleteFile_eq]
  split
  · exact h.balanced
  split
  · exact h.balanced
  rename_i d owner dir hlook
  obtain ⟨hd, rfl⟩ := ht.lookupPathDentry_spec hlook
  split
  · exact h.balanced
  split
  · exact h.balanced
  rename_i hstore
  exact balanced_deletedFile h (ht.entry dir d hd).live (by simpa using hstore)

theorem booked_deleteDir (ht : Tree w f) (h : Booked w f) (path : Path) :
    Booked (w.memfsDeleteDir f path).2 f := by
  refine ⟨(tree_deleteDir ht path).granted, h.intact.deleteDir f path, ?_⟩
  rw [World.memfsDeleteDir]
  split
  · exact h.balanced
  split
  · exact h.balanced
  rename_i d owner dir hlook
  obtain ⟨hd, rfl⟩ := ht.lookupPathDentry_spec hlook
  split
  · exact h.balanced
  rename_i hdir
  split
  · exact h.balanced
  split
  · exact h.balanced
  split
  · exact h.balanced
  have hquiet := booked_unlinked h dir d.inode d
  dsimp only
  split
  · refine close_books hquiet.balanced (ht.entry dir d hd).live ?_
    rw [weight, type_unlinked, not_not.mp hdir]
    rfl
  · exact hquiet.balanced

theorem found_live (ht : Tree w f) (p : LocalPath) {g i : Nat}
    (hfound : w.lookupPathEx f p.chars = some (g, i)) : g = f ∧ w.live i := by
  rw [ht.lookupPathEx_eq p.absolute] at hfound
  obtain ⟨j, hj, heq⟩ := Option.map_eq_some_iff.mp hfound
  obtain ⟨rfl, rfl⟩ := Prod.mk.inj heq
  exact ⟨rfl, ht.lookup_live _ _ ht.root.1 j hj⟩

theorem booked_write (ht : Tree w f) (h : Booked w f) (p : LocalPath) {buf : List UInt8}
    (hfits : (w.memfsWrite f p.chars buf).2.contentBytes < 2 ^ 32) :
    Booked (w.memfsWrite f p.chars buf).2 f := by
  refine ⟨(ht.alike (alike_write w f f p.chars buf)).granted, h.intact.write f p.chars buf, ?_⟩
  rw [World.memfsWrite] at hfits ⊢
  split
  · exact h.balanced
  rename_i owner i hfound
  obtain ⟨rfl, hi⟩ := found_live ht p hfound
  rw [hfound] at hfits
  dsimp only at hfits ⊢
  split
  · split
    · exact h.balanced
    split
    · exact h.balanced
    · rw [books_setInode]
      · exact h.balanced
      · rfl
  rename_i hdev
  rw [if_neg hdev] at hfits
  split
  · exact h.balanced
  rename_i hstore
  rw [if_neg hstore] at hfits
  rw [not_not] at hstore
  split
  · rename_i hstream
    rw [if_pos hstream] at hfits
    exact balanced_streamWrite h hi hstore hfits
  rename_i hstream
  rw [if_neg hstream] at hfits
  have hdrop := h.dropData hi hstore
  cases hc : (w.dropData owner i).valloc buf.length with
  | mk ok w₁ =>
    obtain rfl : { w.dropData owner i with allocs := (w.dropData owner i).allocs + 1 } = w₁ :=
      congrArg Prod.snd hc
    rw [hc] at hfits
    cases ok with
    | false => exact hdrop.balanced
    | true =>
      have hb : (({ w.dropData owner i with allocs := (w.dropData owner i).allocs + 1 } : World).books
        owner).Balanced := hdrop.balanced
      refine balanced_store hb ?_ ?_ ?_ hfits
      · show (w.dropData owner i).live i
        rw [dropData_live]
        exact hi
      · exact (congrArg isStorageNode ((alike_dropData w owner owner i).type i)).trans hstore
      · show buf.length = weight ((w.dropData owner i).inode i) + buf.length
        rw [weight_empty (dropData_empty (h.intact.sized i) owner), Nat.zero_add]

theorem booked_append (ht : Tree w f) (h : Booked w f) (p : LocalPath) {buf : List UInt8}
    (hfits : (w.memfsAppend f p.chars buf).2.contentBytes < 2 ^ 32) :
    Booked (w.memfsAppend f p.chars buf).2 f := by
  refine ⟨(ht.alike (alike_append w f f p.chars buf)).granted, h.intact.append f p.chars buf, ?_⟩
  rw [World.memfsAppend] at hfits ⊢
  split
  · exact h.balanced
  rename_i owner i hfound
  obtain ⟨rfl, hi⟩ := found_live ht p hfound
  rw [hfound] at hfits
  dsimp only at hfits ⊢
  split
  · exact h.balanced
  rename_i hstore
  rw [if_neg hstore] at hfits
  rw [not_not] at hstore
  split
  · rename_i hstream
    rw [if_pos hstream] at hfits
    exact balanced_streamWrite h hi hstore hfits
  · rename_i hstream
    rw [if_neg hstream] at hfits
    exact balanced_extend h hi hstore hfits

theorem alike_streamRead (w : World) (g i size : Nat) : Alike w (w.streamRead g i size).2 f := by
  rw [World.streamRead]
  dsimp only
  split
  · exact Alike.refl w f
  split
  · exact Alike.refl w f
  split
  · exact Alike.refl w f
  split
  · refine Alike.trans ?_ (alike_usedSub _ f g _)
    exact alike_setInode w f i rfl rfl rfl rfl
  · cases hc : w.valloc ((w.inode i).size - min size (w.inode i).size) with
    | mk ok w₁ =>
      obtain rfl : { w with allocs := w.allocs + 1 } = w₁ := congrArg Prod.snd hc
      cases ok with
      | false => exact alike_allocs w f _
      | true =>
        refine Alike.trans ((alike_allocs w f (w.allocs + 1)).trans ?_) (alike_usedSub _ f g _)
        exact alike_setInode _ f i rfl rfl rfl rfl

theorem booked_read (ht : Tree w f) (h : Booked w f) (p : LocalPath) (size : Nat) :
    Booked (w.memfsRead f p.chars size).2 f ∧ Tree (w.memfsRead f p.chars size).2 f := by
  have hintact := h.intact.read f p.chars size
  rw [World.memfsRead] at hintact ⊢
  split
  · exact ⟨h, ht⟩
  rename_i owner i hfound
  obtain ⟨rfl, hi⟩ := found_live ht p hfound
  rw [hfound] at hintact
  dsimp only at hintact ⊢
  split
  · split <;> exact ⟨h, ht⟩
  rename_i hdev
  rw [if_neg hdev] at hintact
  split
  · exact ⟨h, ht⟩
  rename_i hstore
  rw [if_neg hstore] at hintact
  rw [not_not] at hstore
  split
  · rename_i hstream
    rw [if_pos hstream] at hintact
    have ha : Alike w (w.streamRead owner i size).2 owner := alike_streamRead w owner i size
    exact ⟨⟨ha.grant ▸ h.granted, hintact, balanced_streamRead h hi hstore size⟩, ht.alike ha⟩
  · exact ⟨h, ht⟩

end Steps

section Runs

inductive Access where
  | change (e : Event)
  | read (path : LocalPath) (size : Nat)

def accessStep (f : Nat) (w : World) : Access → Option World
  | .change e => step f w e
  | .read p size => some (w.memfsRead f p.chars size).2

def Permits (f : Nat) (w : World) (a : Access) : Prop :=
  (∀ e, a = .change e → KeepsTree f w e) ∧ ∀ w', accessStep f w a = some w' → w'.contentBytes < 2 ^ 32

structure Accounted (w : World) (f : Nat) : Prop where
  used : (w.memfs f).usedMemory = w.contentBytes
  inodes : (w.memfs f).inodeCount = w.liveInodes
  reached : ∀ i, w.live i ↔ w.Reaches (w.root f) i

theorem Booked.accounted (h : Booked w f) (ht : Tree w f) : Accounted w f where
  used := h.balanced.sum.trans sum_books
  inodes := h.balanced.count.trans count_books
  reached i := by
    refine ⟨fun hi => ?_, fun hr => ?_⟩
    · have hfin : {i | w.live i = true}.Finite :=
        (Set.finite_lt_nat w.nextInode).subset fun i hi => ht.below i hi
      exact Graph.reaches_of_acyclic ht.acyclic hfin (w.root f) (fun i hi hne => ht.exists_parent hi hne) i hi
    · induction hr with
      | refl => exact ht.root.1
      | tail _ hstep _ =>
        obtain ⟨_, d, hd, rfl⟩ := hstep
        exact (ht.entry _ d hd).live

theorem booked_step (ht : Tree w f) (h : Booked w f) (a : Access) (hp : Permits f w a)
    (hs : accessStep f w a = some w') : Booked w' f ∧ Tree w' f := by
  obtain ⟨hkeeps, hfits⟩ := hp
  cases a with
  | read p size =>
    cases hs
    exact booked_read ht h p size
  | change e =>
    have hbytes := hfits w' hs
    refine ⟨?_, tree_step ht e (hkeeps e rfl) hs⟩
    cases e with
    | createDir p =>
      cases hs
      exact booked_createDir h p.chars
    | createFile p =>
      cases hs
      exact booked_createNode h p.chars .file (fun _ hn => ⟨rfl, rfl, hn.entries⟩) fun _ _ => rfl
    | createFifo p =>
      cases hs
      exact booked_createNode h p.chars .fifo (fun _ hn => ⟨rfl, rfl, hn.entries⟩) fun _ _ => rfl
    | createSocket p =>
      cases hs
      exact booked_createNode h p.chars .socket (fun _ hn => ⟨rfl, rfl, hn.entries⟩) fun _ _ => rfl
    | createDevice p buffer flags =>
      cases hs
      rw [World.memfsCreateDeviceBuffer]
      split
      · exact h
      · exact booked_createNode h p.chars .device (fun _ hn => ⟨hn.data, hn.size, hn.entries⟩)
          fun _ hn => hn
    | write p buf =>
      cases hs
      exact booked_write ht h p hbytes
    | append p buf =>
      cases hs
      exact booked_append ht h p hbytes
    | link old new =>
      cases hs
      refine booked_link h (fun i hi => ?_) new.chars
      obtain ⟨g, hg⟩ := lookupPath_some hi
      exact ht.below i (found_live ht old hg).2
    | deleteFile p =>
      cases hs
      exact booked_deleteFile ht h p.chars
    | deleteDir p =>
      cases hs
      exact booked_deleteDir ht h p.chars

theorem booked_memfsCreate {atNull : Path} {size : Nat} {w₀ : World}
    (hc : (blankWorld atNull).memfsCreate size = (some f, w₀)) : Booked w₀ f := by
  have htree := (memfsCreate_onlyRoot hc).tree
  have hblank : Intact (blankWorld atNull) :=
    ⟨fun _ => sized_zero rfl rfl, fun _ d hd => absurd hd List.not_mem_nil, fun _ hg => absurd hg (Nat.not_lt_zero _)⟩
  have hintact := hblank.createFs size
  rw [hc] at hintact
  refine ⟨htree.granted, hintact, ?_⟩
  cases hc
  refine ⟨fun i hi => ?_, rfl, rfl⟩
  exact htree.below i (by
    by_contra hdead
    rw [World.books] at hi
    dsimp only at hi
    rw [if_neg hdead] at hi
    cases hi)

theorem memfs_accounts_balance (atNull : Path) (size : Nat) {w₀ : World}
    (hc : (blankWorld atNull).memfsCreate size = (some f, w₀)) (as : List Access)
    (hp : Run.Along (accessStep f) (Permits f) w₀ as) (hrun : Run.run (accessStep f) w₀ as = some w) :
    Accounted w f := by
  have hall : Booked w f ∧ Tree w f :=
    Run.run_invariant (fun _ a _ h hok hs => booked_step h.2 h.1 a hok hs) as w₀ w
      ⟨booked_memfsCreate hc, (memfsCreate_onlyRoot hc).tree⟩ hp hrun
  exact hall.1.accounted hall.2

private def fifoPath : LocalPath := ⟨[47, 112, 47, 113], rfl, by decide⟩

private def fifoCalls : List Access :=
  [.change (.createFifo fifoPath), .change (.write fifoPath [1, 2, 3]), .read fifoPath 2]

theorem memfs_accounts_balance_fifo :
    ∃ w, Run.run (accessStep 0) ((blankWorld []).memfsCreate 4096).2 fifoCalls = some w ∧
      Accounted w 0 := by
  refine ⟨_, rfl, memfs_accounts_balance [] 4096 rfl fifoCalls ?_ rfl⟩
  refine ⟨⟨?_, ?_⟩, ?_⟩
  · rintro e ⟨⟩ hlast
    cases hlast
  · rintro w' ⟨⟩
    decide
  rintro w₁ ⟨⟩
  refine ⟨⟨?_, ?_⟩, ?_⟩
  · rintro e ⟨⟩
    trivial
  · rintro w' ⟨⟩
    decide
  rintro w₂ ⟨⟩
  refine ⟨⟨nofun, ?_⟩, fun _ _ => trivial⟩
  rintro w' ⟨⟩
  decide

end Runs

end HouseOS.Memfs
