import HouseOS.Mm.FreeList

namespace HouseOS.Mm

open HouseOS.ByteMem
open HouseOS.DoublyLinked
open HouseOS.Loop
open HouseOS.Word
open Heap

structure Block where
  addr : Nat
  size : Nat
  free : Bool

namespace Block

def payload (b : Block) : Nat := b.addr + headerBytes

def stop (b : Block) : Nat := b.addr + headerBytes + b.size

def total (b : Block) : Nat := b.size + headerBytes

end Block

def Tiles : Nat → List Block → Nat → Prop
  | lo, [], hi => lo = hi
  | lo, b :: bs, hi => b.addr = lo ∧ Tiles b.stop bs hi

def addrs (bs : List Block) : List Nat := bs.map Block.addr

def freeAddrs (bs : List Block) : List Nat := addrs (bs.filter Block.free)

def usedBytes (bs : List Block) : Nat := ((bs.filter (fun b => !b.free)).map Block.total).sum

section Tiles

variable {lo hi : Nat} {l r bs : List Block} {b : Block}

theorem tiles_append : Tiles lo (l ++ r) hi ↔ ∃ mid, Tiles lo l mid ∧ Tiles mid r hi := by
  induction l generalizing lo with
  | nil => simp [Tiles]
  | cons b l ih =>
    simp only [List.cons_append, Tiles, ih]
    tauto

theorem Tiles.le (h : Tiles lo bs hi) : lo + headerBytes * bs.length ≤ hi := by
  induction bs generalizing lo with
  | nil =>
    obtain rfl : lo = hi := h
    exact le_rfl
  | cons b bs ih =>
    obtain ⟨rfl, hrest⟩ := h
    have := ih hrest
    simp only [Block.stop, List.length_cons, headerBytes] at this ⊢
    omega

theorem Tiles.bounds (h : Tiles lo bs hi) (hb : b ∈ bs) : lo ≤ b.addr ∧ b.stop ≤ hi := by
  obtain ⟨l, r, rfl⟩ := List.append_of_mem hb
  obtain ⟨mid, hl, rfl, hr⟩ := tiles_append.mp h
  have h1 := hl.le
  have h2 := hr.le
  omega

theorem Tiles.pairwise (h : Tiles lo bs hi) : bs.Pairwise (fun a b => a.stop ≤ b.addr) := by
  induction bs generalizing lo with
  | nil => exact List.Pairwise.nil
  | cons b bs ih =>
    obtain ⟨rfl, hrest⟩ := h
    exact List.Pairwise.cons (fun c hc => (hrest.bounds hc).1) (ih hrest)

theorem Tiles.apart (h : Tiles lo bs hi) {a : Block} (ha : a ∈ bs) (hb : b ∈ bs) :
    a = b ∨ a.stop ≤ b.addr ∨ b.stop ≤ a.addr := by
  let R := fun a b : Block => a = b ∨ a.stop ≤ b.addr ∨ b.stop ≤ a.addr
  have hp : bs.Pairwise R := h.pairwise.imp (fun hab => Or.inr (Or.inl hab))
  have hflip : bs.Pairwise (flip R) := h.pairwise.imp (fun hab => Or.inr (Or.inr hab))
  have hrefl : ∀ x ∈ bs, R x x := fun _ _ => Or.inl rfl
  exact List.Pairwise.forall_of_forall_of_flip hrefl hp hflip ha hb

theorem Tiles.addr_inj (h : Tiles lo bs hi) {a : Block} (ha : a ∈ bs) (hb : b ∈ bs)
    (heq : a.addr = b.addr) : a = b := by
  rcases h.apart ha hb with hab | hab | hab
  · exact hab
  · simp only [Block.stop, headerBytes] at hab
    omega
  · simp only [Block.stop, headerBytes] at hab
    omega

theorem Tiles.sorted (h : Tiles lo bs hi) : (addrs bs).Pairwise (· < ·) := by
  refine List.pairwise_map.mpr (h.pairwise.imp ?_)
  intro a b hab
  simp only [Block.stop, headerBytes] at hab
  omega

theorem freeAddrs_append (l r : List Block) : freeAddrs (l ++ r) = freeAddrs l ++ freeAddrs r := by
  simp [freeAddrs, addrs]

theorem mem_freeAddrs {x : Nat} : x ∈ freeAddrs bs ↔ ∃ b ∈ bs, b.free = true ∧ b.addr = x := by
  simp [freeAddrs, addrs, and_assoc]

theorem Tiles.free_sorted (h : Tiles lo bs hi) : (freeAddrs bs).Pairwise (· < ·) :=
  h.sorted.sublist (List.Sublist.map _ List.filter_sublist)

theorem Tiles.spread (h : Tiles lo bs hi) (hlo : 0 < lo) (hhi : hi ≤ 2 ^ 32) :
    Spread (addrs bs) where
  apart x hx y hy := by
    obtain ⟨a, ha, rfl⟩ := List.mem_map.mp hx
    obtain ⟨b, hb, rfl⟩ := List.mem_map.mp hy
    rcases h.apart ha hb with rfl | hab | hab
    · exact Or.inl rfl
    · simp only [Block.stop] at hab
      exact Or.inr (Or.inl (by omega))
    · simp only [Block.stop] at hab
      exact Or.inr (Or.inr (by omega))
  nonzero x hx := by
    obtain ⟨a, ha, rfl⟩ := List.mem_map.mp hx
    have := (h.bounds ha).1
    omega
  word x hx := by
    obtain ⟨a, ha, rfl⟩ := List.mem_map.mp hx
    have := (h.bounds ha).2
    simp only [Block.stop, headerBytes] at this
    omega

end Tiles

structure HeaderOk (h : Heap) (b : Block) : Prop where
  magic : h.magic b.addr = heapMagic
  size : h.size b.addr = b.size
  isFree : h.isFree b.addr = if b.free then 1 else 0

structure Shape (h : Heap) (bs : List Block) (free : List Nat) : Prop where
  start : 0 < h.heapStart
  stop : h.heapEnd < 2 ^ 32
  room : h.heapEnd < h.heapStart + listFuel + headerBytes
  tiles : Tiles h.heapStart bs h.heapEnd
  header : ∀ b ∈ bs, HeaderOk h b
  linked : Linked h.links h.freeList free
  sorted : free.Pairwise (· < ·)
  within : ∀ x ∈ free, x ∈ addrs bs
  loose : ∀ b ∈ bs, b.addr ∉ free → h.next b.addr = 0 ∧ h.prev b.addr = 0

section Shape

variable {h h' : Heap} {bs l r : List Block} {free fl fr : List Nat} {b : Block} {a : Nat}

theorem HeaderOk.of_header {k : Header} (hk : h.header b.addr = k) (hm : k.magic = heapMagic)
    (hs : k.size = b.size) (hf : k.isFree = if b.free then 1 else 0) : HeaderOk h b := by
  subst hk
  exact ⟨hm, hs, hf⟩

theorem HeaderOk.of_same (hold : HeaderOk h b) (hk : h'.header b.addr = h.header b.addr) :
    HeaderOk h' b :=
  .of_header hk hold.magic hold.size hold.isFree

theorem Shape.region {as : List Nat} {bs' : List Block} (s : Shape h bs free) (t : Touch h h' as)
    (ht : Tiles h.heapStart bs' h.heapEnd) :
    0 < h'.heapStart ∧ h'.heapEnd < 2 ^ 32 ∧ h'.heapEnd < h'.heapStart + listFuel + headerBytes ∧
      Tiles h'.heapStart bs' h'.heapEnd := by
  rw [t.start, t.stop]
  exact ⟨s.start, s.stop, s.room, ht⟩

theorem Shape.spread (s : Shape h bs free) : Spread (addrs bs) := s.tiles.spread s.start s.stop.le

theorem mem_addrs (hb : b ∈ bs) : b.addr ∈ addrs bs := List.mem_map_of_mem hb

theorem Shape.free_nonzero (s : Shape h bs free) : ∀ x ∈ free, x ≠ 0 :=
  fun x hx => s.spread.nonzero x (s.within x hx)

theorem Shape.free_short (s : Shape h bs free) : free.length < listFuel := by
  have hnd : free.Nodup := s.sorted.imp (fun hlt => Nat.ne_of_lt hlt)
  have hsub : free.length ≤ (addrs bs).length :=
    (hnd.subperm (fun x hx => s.within x hx)).length_le
  have hle := s.tiles.le
  have hroom := s.room
  simp only [addrs, List.length_map, headerBytes, listFuel] at hsub hle hroom ⊢
  omega

theorem Shape.neighbours (s : Shape h bs (fl ++ a :: fr)) :
    h.prev a = fl.getLastD 0 ∧ h.next a = fr.headD 0 ∧
      (h.prev a ≠ 0 → h.prev a ∈ addrs bs) ∧ (h.next a ≠ 0 → h.next a ∈ addrs bs) ∧
      h.prev a ≠ a ∧ h.next a ≠ a := by
  obtain ⟨hp, hn⟩ := s.linked.prev_next
  have hp : h.prev a = fl.getLastD 0 := hp
  have hn : h.next a = fr.headD 0 := hn
  have ha0 := s.free_nonzero a (by simp)
  have hnd : (fl ++ a :: fr).Nodup := s.sorted.imp (fun hlt => Nat.ne_of_lt hlt)
  obtain ⟨_, hnd, hdisj⟩ := List.nodup_append.mp hnd
  have har := (List.nodup_cons.mp hnd).1
  refine ⟨hp, hn, ?_, ?_, ?_, ?_⟩
  · intro h0
    rcases getLastD_mem_or fl 0 with hnil | hmem
    · rw [hp, hnil] at h0
      exact absurd rfl h0
    · exact hp ▸ s.within _ (List.mem_append_left _ hmem)
  · intro h0
    rcases headD_mem_or fr 0 with hnil | hmem
    · rw [hn, hnil] at h0
      exact absurd rfl h0
    · exact hn ▸ s.within _ (List.mem_append_right _ (List.mem_cons_of_mem a hmem))
  · intro heq
    rcases getLastD_mem_or fl 0 with hnil | hmem
    · rw [hp, hnil] at heq
      exact ha0 heq.symm
    · rw [← hp, heq] at hmem
      exact hdisj _ hmem _ List.mem_cons_self rfl
  · intro heq
    rcases headD_mem_or fr 0 with hnil | hmem
    · rw [hn, hnil] at heq
      exact ha0 heq.symm
    · rw [← hn, heq] at hmem
      exact har hmem

theorem shape_remove (s : Shape h bs (fl ++ a :: fr)) :
    Shape (h.removeFromList a) bs (fl ++ fr) ∧ Touch h (h.removeFromList a) (addrs bs) := by
  obtain ⟨hp, hn, hpm, hnm, hpa, _⟩ := s.neighbours
  have hs := s.spread
  have ha : a ∈ addrs bs := s.within a (by simp)
  have hhead : ∀ x ∈ addrs bs, _ := fun x hx => removeFromList_header hs ha hpm hnm hpa hx
  have t := removeFromList_touch hs ha hpm hnm hpa
  have hnd : (fl ++ a :: fr).Nodup := s.sorted.imp (fun hlt => Nat.ne_of_lt hlt)
  have hne : ∀ x ∈ fl ++ fr, x ≠ a := by
    obtain ⟨_, hnd', hdisj⟩ := List.nodup_append.mp hnd
    rintro x hx rfl
    rcases List.mem_append.mp hx with hx | hx
    · exact hdisj _ hx _ List.mem_cons_self rfl
    · exact (List.nodup_cons.mp hnd').1 hx
  have hin : ∀ x ∈ fl ++ fr, x ∈ addrs bs := by
    intro x hx
    refine s.within x ?_
    rcases List.mem_append.mp hx with hx | hx
    · exact List.mem_append_left _ hx
    · exact List.mem_append_right _ (List.mem_cons_of_mem a hx)
  obtain ⟨hstart, hstop, hroom, htiles⟩ := s.region t s.tiles
  refine ⟨⟨hstart, hstop, hroom, htiles, ?_, ?_, ?_, hin, ?_⟩, t⟩
  · intro b hb
    have hb' := hhead b.addr (mem_addrs hb)
    have hold := s.header b hb
    refine .of_header hb' ?_ ?_ ?_
    · split <;> exact hold.magic
    · split <;> exact hold.size
    · split <;> exact hold.isFree
  · refine s.linked.unlink hnd s.free_nonzero ?_ ?_ (removeFromList_freeList (s.free_nonzero a (by simp)))
    · intro x hx
      have := congrArg Header.next (hhead x (hin x hx))
      rwa [if_neg (hne x hx)] at this
    · intro x hx
      have := congrArg Header.prev (hhead x (hin x hx))
      rwa [if_neg (hne x hx)] at this
  · refine s.sorted.sublist ?_
    exact List.Sublist.append (List.Sublist.refl _) (List.sublist_cons_self a fr)
  · intro b hb hloose
    have hb' := hhead b.addr (mem_addrs hb)
    by_cases hba : b.addr = a
    · rw [if_pos hba] at hb'
      exact ⟨congrArg Header.next hb', congrArg Header.prev hb'⟩
    · rw [if_neg hba] at hb'
      have hout : b.addr ∉ fl ++ a :: fr := by
        intro hmem
        rcases List.mem_append.mp hmem with hmem | hmem
        · exact hloose (List.mem_append_left _ hmem)
        · rcases List.mem_cons.mp hmem with heq | hmem
          · exact hba heq
          · exact hloose (List.mem_append_right _ hmem)
      have hold := s.loose b hb hout
      have hbp : b.addr ≠ h.prev a := by
        intro heq
        rcases getLastD_mem_or fl 0 with hnil | hmem
        · rw [hp, hnil] at heq
          exact hs.nonzero _ (mem_addrs hb) heq
        · rw [← hp, ← heq] at hmem
          exact hout (List.mem_append_left _ hmem)
      have hbn : b.addr ≠ h.next a := by
        intro heq
        rcases headD_mem_or fr 0 with hnil | hmem
        · rw [hn, hnil] at heq
          exact hs.nonzero _ (mem_addrs hb) heq
        · rw [← hn, ← heq] at hmem
          exact hout (List.mem_append_right _ (List.mem_cons_of_mem a hmem))
      have hnext := congrArg Header.next hb'
      have hprev := congrArg Header.prev hb'
      simp only [if_neg hbp, if_neg hbn] at hnext hprev
      exact ⟨hnext.trans hold.1, hprev.trans hold.2⟩

end Shape

end HouseOS.Mm
