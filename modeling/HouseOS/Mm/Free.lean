import HouseOS.Mm.Alloc

namespace HouseOS.Mm

open HouseOS.ByteMem
open HouseOS.DoublyLinked
open HouseOS.Word
open Heap

variable {h h' : Heap} {bs l r : List Block} {b : Block} {x : Nat}

section Merge

structure Merged (h h' : Heap) (l : List Block) (b : Block) (r l' : List Block) (b' : Block)
    (r' : List Block) : Prop where
  shape : Shape h' (l' ++ b' :: r') (freeAddrs (l' ++ b' :: r'))
  touch : Touch h h' (addrs (l ++ b :: r))

theorem stop_eq {free : List Nat} (s : Shape h bs free) (hb : b ∈ bs) :
    add32 b.addr (h.blockTotalSize b.addr) = b.stop := by
  have hbounds := s.tiles.bounds hb
  have hstop := s.stop
  rw [blockTotalSize_eq s hb]
  simp only [Block.stop, Block.total] at hbounds ⊢
  rw [add32_eq (by omega)]
  omega

theorem freeAddrs_split (hb : b.free = true) (l r : List Block) :
    freeAddrs (l ++ b :: r) = freeAddrs l ++ b.addr :: freeAddrs r := by
  rw [freeAddrs_append, freeAddrs_free hb]

theorem shape_merge {p x : Block} (hp : p.free = true) (hx : x.free = true)
    (s : Shape h (l ++ p :: x :: r) (freeAddrs (l ++ p :: x :: r))) :
    Shape (h.absorb p.addr x.addr) (l ++ joined p x :: r) (freeAddrs (l ++ joined p x :: r)) ∧
      Touch h (h.absorb p.addr x.addr) (addrs (l ++ p :: x :: r)) := by
  have hj : (joined p x).free = true := hp
  rw [freeAddrs_split hp, freeAddrs_free hx] at s
  rw [freeAddrs_split hj]
  exact shape_absorb s

theorem mergePrev_spec (s : Shape h (l ++ b :: r) (freeAddrs (l ++ b :: r))) (hb : b.free = true) :
    ∃ h' l' b', h.mergePrev b.addr = (b'.addr, h') ∧ JoinPrev l b l' b' ∧
      Merged h h' l b r l' b' r := by
  have s' := s
  rw [freeAddrs_split hb] at s'
  obtain ⟨hprev, _⟩ := s'.neighbours
  by_cases hadj : h.prev b.addr ≠ 0 ∧ h.isFree (h.prev b.addr) ≠ 0 ∧
      b.addr = add32 (h.prev b.addr) (h.blockTotalSize (h.prev b.addr))
  · have hmem : h.prev b.addr ∈ freeAddrs l := by
      rcases getLastD_mem_or (freeAddrs l) 0 with hnil | hmem
      · rw [hnil] at hprev
        exact absurd hprev hadj.1
      · exact hprev ▸ hmem
    obtain ⟨p, hp, hpfree, hpaddr⟩ := mem_freeAddrs.mp hmem
    have hstop : p.stop = b.addr := by
      rw [hadj.2.2, ← hpaddr, stop_eq s (List.mem_append_left _ hp)]
    obtain ⟨l₀, rfl⟩ := s.tiles.last hp hstop
    rw [List.append_assoc, List.singleton_append] at s
    obtain ⟨sm, tm⟩ := shape_merge hpfree hb s
    refine ⟨h.absorb p.addr b.addr, l₀, joined p b, ?_, .join hpfree, sm, ?_⟩
    · rw [Heap.mergePrev, if_pos hadj, ← hpaddr]
      rfl
    · rw [List.append_assoc, List.singleton_append]
      exact tm
  · refine ⟨h, l, b, by rw [Heap.mergePrev, if_neg hadj], .stay ?_, s, Touch.refl _ _⟩
    intro p hlast
    obtain ⟨l₀, rfl⟩ := List.getLast?_eq_some_iff.mp hlast
    have hpm : p ∈ (l₀ ++ [p]) ++ b :: r := by simp
    rw [List.append_assoc, List.singleton_append] at s
    have hstop := (tiles_join s.tiles).1
    rw [← Bool.not_eq_true]
    intro hp
    have hpaddr : h.prev b.addr = p.addr := by
      rw [hprev, freeAddrs_append, freeAddrs_free hp, freeAddrs_nil, List.getLastD_concat]
    refine hadj ⟨?_, ?_, ?_⟩
    · rw [hpaddr]
      exact s'.spread.nonzero _ (mem_addrs hpm)
    · rw [hpaddr, (s'.header p hpm).isFree, hp]
      decide
    · rw [hpaddr, stop_eq s' hpm, hstop]

theorem mergeNext_spec (s : Shape h (l ++ b :: r) (freeAddrs (l ++ b :: r))) (hb : b.free = true) :
    ∃ b' r', JoinNext b r b' r' ∧ Merged h (h.mergeNext b.addr) l b r l b' r' := by
  have s' := s
  rw [freeAddrs_split hb] at s'
  obtain ⟨_, hnext, _⟩ := s'.neighbours
  by_cases hadj : h.next b.addr ≠ 0 ∧ h.isFree (h.next b.addr) ≠ 0 ∧
      h.next b.addr = add32 b.addr (h.blockTotalSize b.addr)
  · have hmem : h.next b.addr ∈ freeAddrs r := by
      rcases headD_mem_or (freeAddrs r) 0 with hnil | hmem
      · rw [hnil] at hnext
        exact absurd hnext hadj.1
      · exact hnext ▸ hmem
    obtain ⟨x, hx, hxfree, hxaddr⟩ := mem_freeAddrs.mp hmem
    have hstop : b.stop = x.addr := by
      rw [hxaddr, hadj.2.2, stop_eq s (by simp)]
    obtain ⟨r₀, rfl⟩ := s.tiles.first hx hstop
    obtain ⟨sm, tm⟩ := shape_merge hb hxfree s
    have hmerge : h.mergeNext b.addr = h.absorb b.addr x.addr := by
      rw [Heap.mergeNext, if_pos hadj, ← hxaddr]
    exact ⟨joined b x, r₀, .join hxfree, hmerge ▸ sm, hmerge ▸ tm⟩
  · have hmerge : h.mergeNext b.addr = h := by rw [Heap.mergeNext, if_neg hadj]
    refine ⟨b, r, .stay ?_, hmerge.symm ▸ s, hmerge.symm ▸ Touch.refl _ _⟩
    intro x hhead
    obtain ⟨r₀, rfl⟩ := List.head?_eq_some_iff.mp hhead
    have hxm : x ∈ l ++ b :: x :: r₀ := by simp
    have hstop := (tiles_join s.tiles).1
    rw [← Bool.not_eq_true]
    intro hx
    have hxaddr : h.next b.addr = x.addr := by
      rw [hnext, freeAddrs_free hx]
      rfl
    refine hadj ⟨?_, ?_, ?_⟩
    · rw [hxaddr]
      exact s.spread.nonzero _ (mem_addrs hxm)
    · rw [hxaddr, (s.header x hxm).isFree, hx]
      decide
    · rw [hxaddr, stop_eq s (by simp), hstop]

theorem mergeFreeBlocks_spec (s : Shape h (l ++ b :: r) (freeAddrs (l ++ b :: r)))
    (hb : b.free = true) :
    ∃ l' b' b'' r', JoinPrev l b l' b' ∧ JoinNext b' r b'' r' ∧
      Shape (h.mergeFreeBlocks b.addr) (l' ++ b'' :: r') (freeAddrs (l' ++ b'' :: r')) ∧
      (h.mergeFreeBlocks b.addr).usedHeapSize = h.usedHeapSize ∧
      Frame h (h.mergeFreeBlocks b.addr) (l' ++ b'' :: r') := by
  have hbm : b ∈ l ++ b :: r := by simp
  have hguard : ¬ (b.addr = 0 ∨ h.isFree b.addr = 0) := by
    rintro (h0 | h0)
    · exact s.spread.nonzero _ (mem_addrs hbm) h0
    · rw [(s.header b hbm).isFree, hb] at h0
      cases h0
  obtain ⟨h₁, l', b', heq, hprev, m₁⟩ := mergePrev_spec s hb
  obtain ⟨hb', hl'⟩ := hprev.allocated hb
  obtain ⟨b'', r', hnext, m₂⟩ := mergeNext_spec m₁.shape hb'
  obtain ⟨hb'', hr'⟩ := hnext.allocated hb'
  have hmerge : h.mergeFreeBlocks b.addr = h₁.mergeNext b'.addr := by
    rw [Heap.mergeFreeBlocks, if_neg hguard, heq]
  rw [hmerge]
  have halloc₁ : allocated (l' ++ b' :: r) = allocated (l ++ b :: r) := by
    rw [allocated_append, allocated_append, allocated_free hb', allocated_free hb, hl']
  have halloc : allocated (l' ++ b'' :: r') = allocated (l' ++ b' :: r) := by
    rw [allocated_append, allocated_append, allocated_free hb'', allocated_free hb', hr']
  refine ⟨l', b', b'', r', hprev, hnext, m₂.shape, m₂.touch.used.trans m₁.touch.used, ?_,
    m₂.touch.start.trans m₁.touch.start, m₂.touch.stop.trans m₁.touch.stop⟩
  intro d hd hdf x hlow hhigh
  have hd₁ := halloc ▸ mem_allocated.mpr ⟨hd, hdf⟩
  have hd₀ := halloc₁ ▸ hd₁
  rw [m₂.touch.mem x (m₁.shape.tiles.clear (mem_allocated.mp hd₁).1 hlow hhigh),
    m₁.touch.mem x (s.tiles.clear (mem_allocated.mp hd₀).1 hlow hhigh)]

end Merge

section Kfree

theorem getBlockFromPayload_eq (R : Rep h bs) (hb : b ∈ bs) :
    getBlockFromPayload b.payload = b.addr := by
  have hbounds := R.shape.tiles.bounds hb
  have hstop := R.shape.stop
  simp only [Block.stop, Block.payload, headerBytes] at hbounds ⊢
  rw [getBlockFromPayload, if_neg (by omega), headerBytes, sub32_eq (by omega) (by omega)]
  omega

theorem kfree_eq {h₁ : Heap} {ptr block : Nat} (hptr : ptr ≠ 0) (hstart : h.heapStart ≠ 0)
    (hfrom : getBlockFromPayload ptr = block) (hblock : block ≠ 0)
    (hmagic : h.magic block = heapMagic) (htaken : h.isFree block = 0)
    (hset : h.setIsFree block 1 = h₁) :
    h.kfree ptr =
      (({ h₁ with
          usedHeapSize := sub32 h₁.usedHeapSize (h₁.blockTotalSize block) }
        : Heap).insertIntoListSorted block).map (fun h => h.mergeFreeBlocks block) := by
  rw [Heap.kfree, if_neg (not_or.mpr ⟨hptr, hstart⟩)]
  dsimp only
  rw [hfrom, if_neg (not_or.mpr ⟨hblock, not_not.mpr hmagic⟩), if_neg (not_not.mpr htaken), hset]
  cases Heap.insertIntoListSorted _ _ <;> rfl

structure Released (h h₁ : Heap) (l : List Block) (b : Block) (r : List Block) : Prop where
  set : h.setIsFree b.addr 1 = h₁
  shape : Shape h₁ (l ++ b.freed :: r) (freeAddrs l ++ freeAddrs r)
  touch : Touch h h₁ (addrs (l ++ b.freed :: r))
  used : sub32 h₁.usedHeapSize (h₁.blockTotalSize b.addr) = usedBytes (l ++ b.freed :: r)

theorem release_spec (R : Rep h (l ++ b :: r)) (hb : b.free = false) :
    ∃ h₁, Released h h₁ l b r := by
  have s := R.shape
  rw [freeAddrs_append, freeAddrs_taken hb] at s
  obtain ⟨s₁, t₁⟩ := shape_setFree s true
  have hbm : b.freed ∈ l ++ b.freed :: r := by simp
  have haddrs : addrs (l ++ b.freed :: r) = addrs (l ++ b :: r) := by simp [addrs, Block.freed]
  have hperm : (allocated (l ++ b :: r)).Perm (b :: allocated (l ++ b.freed :: r)) := by
    rw [allocated_append, allocated_append, allocated_taken hb, allocated_free rfl]
    exact List.perm_middle
  have hused := usedBytes_perm hperm
  have hlt := usedBytes_lt s
  have htotal := blockTotalSize_eq s₁ hbm
  refine ⟨_, rfl, s₁, haddrs.symm ▸ t₁, ?_⟩
  have hsub : sub32 (usedBytes (l ++ b :: r)) b.total = usedBytes (l ++ b.freed :: r) := by
    rw [sub32_eq hlt (by omega)]
    omega
  exact (congrArg₂ sub32 (t₁.used.trans R.used) htotal).trans hsub

theorem kfree_spec (R : Rep h (l ++ b :: r)) (hb : b.free = false) :
    ∃ h' bs' c, h.kfree b.payload = some h' ∧ Rep h' bs' ∧ Releases l b r bs' c ∧
      Frame h h' bs' := by
  have s := R.shape
  have hbm : b ∈ l ++ b :: r := by simp
  have hk := s.header b hbm
  have hb0 : b.addr ≠ 0 := s.spread.nonzero _ (mem_addrs hbm)
  have hfrom := getBlockFromPayload_eq R hbm
  obtain ⟨h₁, o⟩ := release_spec R hb
  have hb'm : b.freed.addr ∈ addrs (l ++ b.freed :: r) := mem_addrs (by simp)
  have hout : b.freed.addr ∉ freeAddrs l ++ freeAddrs r := by
    have hnd : (freeAddrs (l ++ b.freed :: r)).Nodup :=
      o.shape.tiles.free_sorted.imp (fun hlt => Nat.ne_of_lt hlt)
    rw [freeAddrs_split rfl] at hnd
    exact (List.nodup_cons.mp (List.nodup_middle.mp hnd)).1
  obtain ⟨fl, fr, h₂, hfree, _, _, hins, s₂, t₂⟩ :=
    shape_insert (o.shape.withUsed (usedBytes (l ++ b.freed :: r))) hb'm hout
  have s₃ : Shape h₂ (l ++ b.freed :: r) (freeAddrs (l ++ b.freed :: r)) := by
    have hsorted := s₂.tiles.free_sorted
    rw [freeAddrs_split rfl] at hsorted ⊢
    exact s₂.refit hfree hsorted
  obtain ⟨l', b', b'', r', hprev, hnext, s₄, hused, f⟩ := mergeFreeBlocks_spec s₃ rfl
  have hrel : Releases l b r (l' ++ b'' :: r') b'' := .intro hb hprev hnext
  have halloc := hrel.allocated
  refine ⟨h₂.mergeFreeBlocks b.addr, l' ++ b'' :: r', b'', ?_, ⟨s₄, ?_⟩, hrel, ?_⟩
  · have htaken : h.isFree b.addr = 0 := by
      rw [hk.isFree, hb]
      rfl
    rw [kfree_eq (taken_payload R hbm).2 s.start.ne' hfrom hb0 hk.magic htaken o.set, o.used]
    show (Heap.insertIntoListSorted _ b.freed.addr).map _ = _
    rw [hins]
    rfl
  · show (h₂.mergeFreeBlocks b.freed.addr).usedHeapSize = _
    rw [hused, t₂.used]
    show usedBytes (l ++ b.freed :: r) = _
    rw [usedBytes_eq, usedBytes_eq, halloc, allocated_append, allocated_free rfl,
      allocated_append]
  · refine ⟨?_, f.start.trans (t₂.start.trans o.touch.start),
      f.stop.trans (t₂.stop.trans o.touch.stop)⟩
    intro d hd hdf x hlow hhigh
    have hda := halloc ▸ mem_allocated.mpr ⟨hd, hdf⟩
    have hd₀ : d ∈ l ++ b.freed :: r := by
      rcases List.mem_append.mp (mem_allocated.mp hda).1 with hd | hd
      · exact List.mem_append_left _ hd
      · exact List.mem_append_right _ (List.mem_cons_of_mem _ hd)
    have hclear := o.shape.tiles.clear hd₀ hlow hhigh
    exact (f.bytes d hd hdf x hlow hhigh).trans
      ((t₂.mem x hclear).trans (o.touch.mem x hclear))

end Kfree

end HouseOS.Mm
