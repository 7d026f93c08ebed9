import Mathlib.Data.List.Sort
import HouseOS.Mm.Blocks

namespace HouseOS.Mm

open HouseOS.ByteMem
open HouseOS.DoublyLinked
open HouseOS.Loop
open HouseOS.Word
open Heap

variable {h h' h'' : Heap} {bs bs' l r : List Block} {b c : Block} {n size x : Nat}

section AlignSize

theorem alignSize_eq (size : Nat) : alignSize size = (size + 7) % 2 ^ 32 / 8 * 8 := by
  have hx : (size + 7) % 2 ^ 32 < 2 ^ 32 := Nat.mod_lt _ (by decide)
  exact and_clear_low (k := 3) (by decide) hx

theorem alignSize_le (size : Nat) : alignSize size ≤ 2 ^ 32 - 8 := by
  rw [alignSize_eq]
  omega

theorem alignSize_idem (size : Nat) : alignSize (alignSize size) = alignSize size := by
  have hle := alignSize_le size
  rw [alignSize_eq (alignSize size)]
  rw [alignSize_eq] at hle ⊢
  omega

theorem le_alignSize (h : size ≤ 2 ^ 32 - 8) : size ≤ alignSize size := by
  rw [alignSize_eq]
  omega

end AlignSize

section Tiles

theorem Tiles.usedBytes_le {lo hi : Nat} (ht : Tiles lo bs hi) : lo + usedBytes bs ≤ hi := by
  induction bs generalizing lo with
  | nil =>
    obtain rfl : lo = hi := ht
    exact le_rfl
  | cons b bs ih =>
    obtain ⟨rfl, hrest⟩ := ht
    have hle := ih hrest
    simp only [Block.stop, usedBytes_eq] at hle ⊢
    cases hb : b.free with
    | true =>
      rw [allocated_free hb]
      omega
    | false =>
      rw [allocated_taken hb, List.map_cons, List.sum_cons, Block.total]
      omega

theorem Tiles.nodup {lo hi : Nat} (ht : Tiles lo bs hi) : bs.Nodup := by
  have hnd : (addrs bs).Nodup := ht.sorted.imp (fun hlt => Nat.ne_of_lt hlt)
  exact List.Nodup.of_map _ hnd

theorem Tiles.clear {lo hi : Nat} (ht : Tiles lo bs hi) (hb : b ∈ bs)
    (hlow : b.addr + headerBytes ≤ x) (hhigh : x < b.stop) :
    ∀ a ∈ addrs bs, x < a ∨ a + headerBytes ≤ x := by
  intro a ha
  obtain ⟨c, hc, rfl⟩ := List.mem_map.mp ha
  rcases ht.apart hc hb with rfl | hcb | hcb
  · exact Or.inr hlow
  · simp only [Block.stop, headerBytes] at *
    omega
  · exact Or.inl (by omega)

theorem Tiles.last {lo hi : Nat} (ht : Tiles lo (l ++ b :: r) hi) {p : Block} (hp : p ∈ l)
    (hstop : p.stop = b.addr) : ∃ l₀, l = l₀ ++ [p] := by
  obtain ⟨l₀, l₁, rfl⟩ := List.append_of_mem hp
  obtain ⟨mid, hl, hb, _⟩ := tiles_append.mp ht
  obtain ⟨_, _, _, hl₁⟩ := tiles_append.mp hl
  have hle := hl₁.le
  cases l₁ with
  | nil => exact ⟨l₀, rfl⟩
  | cons c l₁ =>
    simp only [List.length_cons, headerBytes] at hle
    omega

theorem Tiles.first {lo hi : Nat} (ht : Tiles lo (l ++ b :: r) hi) {x : Block} (hx : x ∈ r)
    (hstop : b.stop = x.addr) : ∃ r₀, r = x :: r₀ := by
  obtain ⟨r₁, r₀, rfl⟩ := List.append_of_mem hx
  obtain ⟨_, _, _, hr⟩ := tiles_append.mp ht
  obtain ⟨_, hr₁, hx', _⟩ := tiles_append.mp hr
  have hle := hr₁.le
  cases r₁ with
  | nil => exact ⟨r₀, rfl⟩
  | cons c r₁ =>
    simp only [List.length_cons, headerBytes] at hle
    omega

end Tiles

structure Rep (h : Heap) (bs : List Block) : Prop where
  shape : Shape h bs (freeAddrs bs)
  used : h.usedHeapSize = usedBytes bs

structure Frame (h h' : Heap) (bs : List Block) : Prop where
  bytes : ∀ d ∈ bs, d.free = false → ∀ x, d.addr + headerBytes ≤ x → x < d.stop → h'.mem x = h.mem x
  start : h'.heapStart = h.heapStart
  stop : h'.heapEnd = h.heapEnd

section Split

theorem Shape.refit {a : Nat} {fl fr gl gr : List Nat} (s : Shape h bs (fl ++ a :: fr))
    (hfree : gl ++ gr = fl ++ fr) (hsorted : (gl ++ a :: gr).Pairwise (· < ·)) :
    Shape h bs (gl ++ a :: gr) := by
  have hmem : ∀ x, x ∈ fl ++ a :: fr ↔ x ∈ gl ++ a :: gr := by
    intro x
    rw [List.perm_middle.mem_iff, List.perm_middle.mem_iff, List.mem_cons, List.mem_cons, hfree]
  rwa [← s.sorted.eq_of_mem_iff hsorted hmem]

theorem freeAddrs_split_sorted {lo hi : Nat} (ht : Tiles lo (l ++ b :: r) hi) :
    (freeAddrs l ++ freeAddrs r).Pairwise (· < ·) := by
  have hsub : (l ++ r).Sublist (l ++ b :: r) :=
    List.Sublist.append (List.Sublist.refl l) (List.sublist_cons_self b r)
  rw [← freeAddrs_append]
  exact ht.sorted.sublist ((List.filter_sublist.trans hsub).map Block.addr)

theorem splitBlock_whole (hsize : h.size b.addr = b.size) (hn : alignSize n = n)
    (hfit : n ≤ b.size) (hword : b.size < 2 ^ 32)
    (hrest : b.size - n < headerBytes + minBlockSize) : h.splitBlock b.addr n = some (0, h) := by
  have hremaining : sub32 (h.size b.addr) n = b.size - n := by
    rw [hsize, sub32_eq hword hfit]
  rw [Heap.splitBlock, hn]
  dsimp only
  rw [hremaining, if_neg (Nat.not_le.mpr hrest)]

theorem splitBlock_carve (hsize : h.size b.addr = b.size) (hn : alignSize n = n)
    (hstop : b.stop < 2 ^ 32) (hrest : headerBytes + minBlockSize + n ≤ b.size) :
    h.splitBlock b.addr n =
      (((h.newBlock (remainder b n).addr (remainder b n).size).setSize b.addr n).insertIntoListSorted
        (remainder b n).addr).map (fun h' => ((remainder b n).addr, h')) := by
  simp only [Block.stop, headerBytes, minBlockSize] at hstop hrest
  have hremaining : sub32 (h.size b.addr) n = b.size - n := by
    rw [hsize, sub32_eq (by omega) (by omega)]
  have hnew : add32 (getBlockPayload b.addr) n = (remainder b n).addr := by
    rw [getBlockPayload, headerBytes, add32_eq (show b.addr + 20 < 2 ^ 32 by omega),
      add32_eq (by omega)]
    rfl
  have htail : sub32 (b.size - n) headerBytes = (remainder b n).size := by
    rw [headerBytes, sub32_eq (by omega) (by omega)]
    rfl
  rw [Heap.splitBlock, hn]
  dsimp only
  rw [hremaining, hnew, htail, if_pos (by simp only [headerBytes, minBlockSize]; omega)]
  cases Heap.insertIntoListSorted _ _ <;> rfl

structure SplitOff (h h' : Heap) (l : List Block) (b : Block) (r : List Block) (n new : Nat)
    (c : Block) (gap : List Block) : Prop where
  shape : Shape h' (l ++ c :: (gap ++ r)) (freeAddrs l ++ freeAddrs (gap ++ r))
  touch : Touch h h' (addrs (l ++ c :: (gap ++ r)))
  known : ∀ x ∈ addrs (l ++ b :: r), x ∈ addrs (l ++ c :: (gap ++ r))
  split : Split n b c gap
  new : new = (addrs gap).headD 0

theorem splitBlock_spec (s : Shape h (l ++ b :: r) (freeAddrs l ++ freeAddrs r))
    (hn : alignSize n = n) (hfit : n ≤ b.size) :
    ∃ new h' c gap, h.splitBlock b.addr n = some (new, h') ∧ SplitOff h h' l b r n new c gap := by
  have hbm : b ∈ l ++ b :: r := by simp
  have hsize := (s.header b hbm).size
  have hend := (s.tiles.bounds hbm).2
  have hstop : b.stop < 2 ^ 32 := Nat.lt_of_le_of_lt hend s.stop
  by_cases hrest : headerBytes + minBlockSize + n ≤ b.size
  · have hroom : n + headerBytes ≤ b.size := by
      simp only [headerBytes, minBlockSize] at hrest ⊢
      omega
    obtain ⟨scarve, hout, tcarve⟩ := shape_carve s hroom
    have hnew : remainder b n ∈ l ++ carved b n :: remainder b n :: r := by simp
    obtain ⟨fl, fr, h', hfree, _, _, hins, sins, tins⟩ :=
      shape_insert scarve (mem_addrs hnew) hout
    refine ⟨_, h', carved b n, [remainder b n], ?_, ?_, tcarve.trans tins, ?_, .carve hrest, rfl⟩
    · rw [splitBlock_carve hsize hn hstop hrest, hins]
      rfl
    · have hsorted := freeAddrs_split_sorted sins.tiles
      rw [List.singleton_append]
      rw [freeAddrs_free rfl] at hsorted ⊢
      exact sins.refit hfree hsorted
    · intro x hx
      simp only [addrs, List.map_append, List.map_cons, List.mem_append, List.mem_cons,
        carved] at hx ⊢
      tauto
  · have hwhole : b.size - n < headerBytes + minBlockSize := by omega
    have hword : b.size < 2 ^ 32 := by
      simp only [Block.stop] at hstop
      omega
    exact ⟨0, h, b, [], splitBlock_whole hsize hn hfit hword hwhole, s, Touch.refl _ _,
      fun _ hx => hx, .whole hfit (by omega), rfl⟩

end Split

section Kmalloc

theorem findFreeBlock_spec (R : Rep h bs) (n : Nat) :
    ∃ p, h.findFreeBlock n = some p ∧
      ((p = 0 ∧ ∀ b ∈ bs, b.free = true → b.size < n) ∨
        ∃ l b r, bs = l ++ b :: r ∧ p = b.addr ∧ b.free = true ∧ n ≤ b.size) := by
  have s := R.shape
  obtain ⟨p, hfind, hcase⟩ :=
    findFreeBlock_loop h n (freeAddrs bs) 0 listFuel s.linked.2 s.free_nonzero s.free_short
  refine ⟨p, by rw [Heap.findFreeBlock, s.linked.1, hfind], ?_⟩
  rcases hcase with ⟨h0, hnone⟩ | ⟨hmem, _, hfit⟩
  · refine Or.inl ⟨h0, ?_⟩
    intro b hb hfree
    have hk := s.header b hb
    have hflag : h.isFree b.addr ≠ 0 := by
      rw [hk.isFree, hfree]
      decide
    have hsmall := hnone b.addr (mem_freeAddrs.mpr ⟨b, hb, hfree, rfl⟩)
    rw [hk.size] at hsmall
    exact Nat.lt_of_not_le fun hle => hsmall ⟨hflag, hle⟩
  · obtain ⟨b, hb, hfree, rfl⟩ := mem_freeAddrs.mp hmem
    obtain ⟨l, r, hbs⟩ := List.append_of_mem hb
    exact Or.inr ⟨l, b, r, hbs, rfl, hfree, (s.header b hb).size ▸ hfit⟩

theorem Frame.of_touch (t : Touch h h' (addrs bs)) {lo hi : Nat} (ht : Tiles lo bs hi) :
    Frame h h' bs where
  bytes _ hd _ x hlow hhigh := t.mem x (ht.clear hd hlow hhigh)
  start := t.start
  stop := t.stop

theorem taken_payload (R : Rep h bs) (hb : b ∈ bs) :
    getBlockPayload b.addr = b.payload ∧ b.payload ≠ 0 := by
  have hbounds := R.shape.tiles.bounds hb
  have hstop := R.shape.stop
  have hstart := R.shape.start
  simp only [Block.stop] at hbounds
  have hlt : b.addr + headerBytes < 2 ^ 32 := by omega
  exact ⟨add32_eq hlt, by simp only [Block.payload]; omega⟩

theorem Shape.withUsed {free : List Nat} (s : Shape h bs free) (used : Nat) :
    Shape { h with usedHeapSize := used } bs free :=
  ⟨s.start, s.stop, s.room, s.tiles, fun d hd => ⟨(s.header d hd).magic, (s.header d hd).size,
    (s.header d hd).isFree⟩, s.linked, s.sorted, s.within, s.loose⟩

theorem Rep.of_shape (s : Shape h bs (freeAddrs bs)) {used : Nat} (hu : used = usedBytes bs) :
    Rep { h with usedHeapSize := used } bs := ⟨s.withUsed used, hu⟩

theorem blockTotalSize_eq {free : List Nat} (s : Shape h bs free) (hb : b ∈ bs) :
    h.blockTotalSize b.addr = b.total := by
  have hbounds := s.tiles.bounds hb
  have hstop := s.stop
  simp only [Block.stop] at hbounds
  rw [Heap.blockTotalSize, (s.header b hb).size, add32_eq (by omega)]
  rfl

theorem usedBytes_lt {free : List Nat} (s : Shape h bs free) : usedBytes bs < 2 ^ 32 := by
  have hle := s.tiles.usedBytes_le
  have hstop := s.stop
  omega

theorem take_spec (R : Rep h (l ++ b :: r)) (hfree : b.free = true)
    (hfit : alignSize size ≤ b.size) :
    ∃ (new : Nat) (h₂ : Heap) (c : Block) (gap : List Block),
      (h.removeFromList b.addr).splitBlock b.addr (alignSize size) = some (new, h₂) ∧
      Split (alignSize size) b c gap ∧
      Shape (h₂.setIsFree b.addr 0) (l ++ c.taken :: (gap ++ r))
        (freeAddrs l ++ freeAddrs (gap ++ r)) ∧
      Touch h (h₂.setIsFree b.addr 0) (addrs (l ++ c.taken :: (gap ++ r))) := by
  have s := R.shape
  rw [freeAddrs_append, freeAddrs_free hfree] at s
  obtain ⟨s₁, t₁⟩ := shape_remove s
  obtain ⟨new, h₂, c, gap, hsplit, o⟩ := splitBlock_spec s₁ (alignSize_idem size) hfit
  obtain ⟨s₃, t₃⟩ := shape_setFree o.shape false
  have hset : h₂.setIsFree b.addr 0 = h₂.setIsFree c.addr 0 := by rw [o.split.addr]
  have haddrs : addrs (l ++ c.taken :: (gap ++ r)) = addrs (l ++ c :: (gap ++ r)) := by
    simp [addrs, Block.taken]
  refine ⟨new, h₂, c, gap, hsplit, o.split, ?_, ?_⟩
  · rw [hset]
    exact s₃
  · rw [hset, haddrs]
    exact ((t₁.mono o.known).trans o.touch).trans t₃

theorem kmalloc_eq {block new : Nat} {h₂ : Heap} (hsome : ¬ (size = 0 ∨ h.heapStart = 0))
    (hfind : h.findFreeBlock (alignSize size) = some block) (hblock : block ≠ 0)
    (hsplit : (h.removeFromList block).splitBlock block (alignSize size) = some (new, h₂)) :
    h.kmalloc size = some (getBlockPayload block,
      { h₂.setIsFree block 0 with
        usedHeapSize := add32 (h₂.setIsFree block 0).usedHeapSize
          ((h₂.setIsFree block 0).blockTotalSize block) }) := by
  obtain ⟨k, rfl⟩ := Nat.exists_eq_succ_of_ne_zero hblock
  rw [Heap.kmalloc, if_neg hsome]
  simp only [hfind, hsplit]

theorem kmalloc_spec (R : Rep h bs) (size : Nat) :
    ∃ p h', h.kmalloc size = some (p, h') ∧
      (p = 0 ∧ h' = h ∧ (size = 0 ∨ ∀ b ∈ bs, b.free = true → b.size < alignSize size) ∨
        ∃ bs' c, p = c.payload ∧ Takes (alignSize size) bs c bs' ∧ Rep h' bs' ∧
          Frame h h' bs') := by
  by_cases hnone : size = 0 ∨ h.heapStart = 0
  · have hsize := hnone.resolve_right R.shape.start.ne'
    exact ⟨0, h, by rw [Heap.kmalloc, if_pos hnone], Or.inl ⟨rfl, rfl, Or.inl hsize⟩⟩
  obtain ⟨p, hfind, hcase⟩ := findFreeBlock_spec R (alignSize size)
  rcases hcase with ⟨rfl, hfull⟩ | ⟨l, b, r, rfl, rfl, hfree, hfit⟩
  · exact ⟨0, h, by simp only [Heap.kmalloc, if_neg hnone, hfind],
      Or.inl ⟨rfl, rfl, Or.inr hfull⟩⟩
  have hbm : b ∈ l ++ b :: r := by simp
  have hb0 : b.addr ≠ 0 := R.shape.spread.nonzero _ (mem_addrs hbm)
  obtain ⟨new, h₂, c, gap, hsplit, hs, s, t⟩ := take_spec R hfree hfit
  have htakes : Takes (alignSize size) (l ++ b :: r) c.taken (l ++ c.taken :: (gap ++ r)) :=
    .intro hfree hs
  have hcm : c.taken ∈ l ++ c.taken :: (gap ++ r) := by simp
  have hca : c.taken.addr = b.addr := hs.addr
  have hused := usedBytes_perm htakes.perm
  have hlt := usedBytes_lt s
  have htotal : (h₂.setIsFree b.addr 0).blockTotalSize b.addr = c.taken.total := by
    have h := blockTotalSize_eq s hcm
    rwa [hca] at h
  have huse : (h₂.setIsFree b.addr 0).usedHeapSize = usedBytes (l ++ b :: r) := t.used.trans R.used
  have hnew : add32 (h₂.setIsFree b.addr 0).usedHeapSize
      ((h₂.setIsFree b.addr 0).blockTotalSize b.addr) =
        usedBytes (l ++ c.taken :: (gap ++ r)) := by
    rw [htotal, huse, add32_eq (by omega), hused, Nat.add_comm]
  have s' : Shape (h₂.setIsFree b.addr 0) (l ++ c.taken :: (gap ++ r))
      (freeAddrs (l ++ c.taken :: (gap ++ r))) := by
    rwa [freeAddrs_append, freeAddrs_taken rfl]
  have f := Frame.of_touch t s.tiles
  refine ⟨b.payload, _, ?_, Or.inr ⟨l ++ c.taken :: (gap ++ r), c.taken, ?_, htakes,
    Rep.of_shape s' hnew, f.bytes, f.start, f.stop⟩⟩
  · rw [kmalloc_eq hnone hfind hb0 hsplit, (taken_payload R hbm).1]
  · rw [Block.payload, Block.payload, hca]

end Kmalloc

end HouseOS.Mm
