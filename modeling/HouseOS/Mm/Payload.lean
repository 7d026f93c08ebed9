import HouseOS.Mm.Free

namespace HouseOS.Mm

open HouseOS.ByteMem
open HouseOS.DoublyLinked
open HouseOS.Word
open Heap

variable {h h' : Heap} {bs l r : List Block} {b : Block} {m : Mem} {p n size x : Nat}

section Store

theorem Rep.store (R : Rep h bs)
    (hkeep : ∀ a ∈ addrs bs, ∀ x, a ≤ x → x < a + headerBytes → m x = h.mem x) :
    Rep { h with mem := m } bs := by
  have s := R.shape
  have hhead : ∀ a ∈ addrs bs, ({ h with mem := m } : Heap).header a = h.header a :=
    fun a ha => header_congr (hkeep a ha)
  have hlinks : ∀ a ∈ addrs bs, ({ h with mem := m } : Heap).next a = h.next a ∧
      ({ h with mem := m } : Heap).prev a = h.prev a :=
    fun a ha => ⟨congrArg Header.next (hhead a ha), congrArg Header.prev (hhead a ha)⟩
  refine ⟨⟨s.start, s.stop, s.room, s.tiles, ?_, ?_, s.sorted, s.within, ?_⟩, R.used⟩
  · intro b hb
    exact (s.header b hb).of_same (hhead b.addr (mem_addrs hb))
  · exact s.linked.congr fun a ha => hlinks a (s.within a ha)
  · intro b hb hloose
    obtain ⟨hn, hp⟩ := hlinks b.addr (mem_addrs hb)
    obtain ⟨hn', hp'⟩ := s.loose b hb hloose
    exact ⟨hn.trans hn', hp.trans hp'⟩

theorem Rep.storeIn (R : Rep h bs) (hb : b ∈ bs)
    (hkeep : ∀ x, x < b.payload ∨ b.stop ≤ x → m x = h.mem x) : Rep { h with mem := m } bs := by
  refine R.store ?_
  intro a ha x hlow hhigh
  refine hkeep x ?_
  by_cases hin : b.payload ≤ x ∧ x < b.stop
  · have hclear := R.shape.tiles.clear hb hin.1 hin.2 a ha
    omega
  · omega

structure Kept (h h' : Heap) (bs : List Block) : Prop where
  bytes : ∀ d ∈ bs, ∀ x, d.payload ≤ x → x < d.stop → h'.mem x = h.mem x
  start : h'.heapStart = h.heapStart
  stop : h'.heapEnd = h.heapEnd

theorem Frame.kept (f : Frame h h' bs) : Kept h h' (allocated bs) :=
  ⟨fun d hd => f.bytes d (mem_allocated.mp hd).1 (mem_allocated.mp hd).2, f.start, f.stop⟩

theorem Kept.refl (h : Heap) (bs : List Block) : Kept h h bs := ⟨fun _ _ _ _ _ => rfl, rfl, rfl⟩

theorem Kept.mono {ds : List Block} (k : Kept h h' bs) (hsub : ∀ d ∈ ds, d ∈ bs) :
    Kept h h' ds := ⟨fun d hd => k.bytes d (hsub d hd), k.start, k.stop⟩

theorem Kept.single {e : Block} (k : Kept h h' bs) (he : e ∈ bs) : Kept h h' [e] :=
  k.mono fun d hd => by rwa [List.mem_singleton.mp hd]

theorem Kept.trans {h'' : Heap} (k : Kept h h' bs) (k' : Kept h' h'' bs) : Kept h h'' bs :=
  ⟨fun d hd x hlow hhigh => (k'.bytes d hd x hlow hhigh).trans (k.bytes d hd x hlow hhigh),
    k'.start.trans k.start, k'.stop.trans k.stop⟩

theorem Kept.of_storeIn {ds : List Block} (R : Rep h bs) (hb : b ∈ bs)
    (hkeep : ∀ x, x < b.payload ∨ b.stop ≤ x → m x = h.mem x)
    (hds : ∀ d ∈ ds, d ∈ bs ∧ d ≠ b) : Kept h { h with mem := m } ds := by
  refine ⟨?_, rfl, rfl⟩
  intro d hd x hlow hhigh
  obtain ⟨hd', hne⟩ := hds d hd
  refine hkeep x ?_
  have hapart := (R.shape.tiles.apart hd' hb).resolve_left hne
  simp only [Block.payload, Block.stop] at *
  omega

end Store

section Kcalloc

theorem kcalloc_rejects {num : Nat} (hbig : 2 ^ 32 ≤ num * size) :
    h.kcalloc num size = some (0, h) := by
  have hnum : num ≠ 0 := by
    rintro rfl
    rw [Nat.zero_mul] at hbig
    exact absurd hbig (by decide)
  have hlt : sizeMax / num < size :=
    (Nat.div_lt_iff_lt_mul (Nat.pos_of_ne_zero hnum)).mpr (by
      rw [Nat.mul_comm]
      exact Nat.lt_of_lt_of_le (by decide) hbig)
  rw [Heap.kcalloc, if_pos ⟨hnum, hlt⟩]

theorem kcalloc_eq {num : Nat} (hsmall : num * size < 2 ^ 32)
    (hcall : h.kmalloc (num * size) = some (p, h')) :
    h.kcalloc num size =
      some (p, if p ≠ 0 then { h' with mem := fill h'.mem p 0 (num * size) } else h') := by
  have hpass : ¬ (num ≠ 0 ∧ sizeMax / num < size) := by
    rintro ⟨hnum, hlt⟩
    have hmul := (Nat.div_lt_iff_lt_mul (Nat.pos_of_ne_zero hnum)).mp hlt
    rw [Nat.mul_comm] at hmul
    simp only [sizeMax] at hmul
    omega
  have htotal : mul32 num size = num * size := Nat.mod_eq_of_lt hsmall
  rw [Heap.kcalloc, if_neg hpass]
  simp only [htotal, hcall]

theorem fill_stays {c : Block} (hstop : c.stop ≤ 2 ^ 32) (hn : n ≤ c.size) (m : Mem) :
    ∀ x, x < c.payload ∨ c.stop ≤ x → fill m c.payload 0 n x = m x := by
  intro x hx
  simp only [Block.payload, Block.stop] at *
  rw [fill_apply 0 n m _ x (by omega), if_neg (by omega)]

theorem Rep.stop_lt (R : Rep h bs) (hb : b ∈ bs) : b.stop < 2 ^ 32 :=
  Nat.lt_of_le_of_lt (R.shape.tiles.bounds hb).2 R.shape.stop

theorem kcalloc_spec (R : Rep h bs) {num : Nat}
    (hfits : num * size ≤ 2 ^ 32 - 8 ∨ 2 ^ 32 ≤ num * size) :
    ∃ p h', h.kcalloc num size = some (p, h') ∧ (p = 0 ∧ h' = h ∨
      ∃ bs' c, p = c.payload ∧ num * size ≤ 2 ^ 32 - 8 ∧ Takes (alignSize (num * size)) bs c bs' ∧
        Rep h' bs' ∧ Kept h h' (allocated bs)) := by
  rcases hfits with hfits | hbig
  swap
  · exact ⟨0, h, kcalloc_rejects hbig, Or.inl ⟨rfl, rfl⟩⟩
  obtain ⟨p, h', hcall, hcase⟩ := kmalloc_spec R (num * size)
  have heq := kcalloc_eq (by omega) hcall
  rcases hcase with ⟨rfl, rfl, _⟩ | ⟨bs', c, rfl, ht, R', f⟩
  · exact ⟨0, h', heq, Or.inl ⟨rfl, rfl⟩⟩
  have hc := ht.mem
  have hroom : num * size ≤ c.size := Nat.le_trans (le_alignSize hfits) ht.fits
  have hstay := fill_stays (R'.stop_lt hc).le hroom h'.mem
  rw [if_pos (taken_payload R' hc).2] at heq
  refine ⟨_, _, heq, Or.inr ⟨bs', c, rfl, hfits, ht, R'.storeIn hc hstay, ?_⟩⟩
  exact (f.kept.mono ht.sub).trans (Kept.of_storeIn R' hc hstay (ht.others R'.shape.tiles.nodup))

end Kcalloc

section Krealloc

structure Shrunk (h h' : Heap) (l : List Block) (b : Block) (r : List Block) (n : Nat) (c : Block)
    (gap : List Block) : Prop where
  split : Split n b c gap
  rep : Rep h' (l ++ c :: (gap ++ r))
  frame : Frame h h' (l ++ c :: (gap ++ r))

theorem usedBytes_split {c : Block} {gap : List Block} (hs : Split n b c gap)
    (hb : b.free = false) : usedBytes (l ++ c :: (gap ++ r)) + ((gap.map Block.total).sum) =
      usedBytes (l ++ b :: r) := by
  have hc : c.free = false := hs.free.trans hb
  have hsize : c.size + (gap.map Block.total).sum = b.size := by
    cases hs with
    | whole _ _ => rfl
    | carve hroom =>
      simp only [List.map_cons, List.map_nil, List.sum_cons, List.sum_nil, Block.total, remainder,
        carved] at *
      simp only [headerBytes, minBlockSize] at *
      omega
  simp only [usedBytes_eq, allocated_append, allocated_taken hc, allocated_taken hb,
    hs.allocated_rest, List.map_append, List.map_cons, List.sum_append, List.sum_cons, Block.total]
  omega

theorem krealloc_live {ptr block : Nat} (hptr : ptr ≠ 0) (hsize : size ≠ 0)
    (hfrom : getBlockFromPayload ptr = block) (hblock : block ≠ 0)
    (hmagic : h.magic block = heapMagic) :
    h.krealloc ptr size =
      if alignSize size ≤ h.size block then
        (h.splitBlock block (alignSize size)).map fun (newFree, h) => (ptr,
          if newFree ≠ 0 then
            { h with usedHeapSize := sub32 h.usedHeapSize (h.blockTotalSize newFree) }
          else h)
      else (h.kmalloc (alignSize size)).bind fun (newp, h) =>
        if newp = 0 then some (0, h)
        else (({ h with mem := copy h.mem newp ptr (h.size block) } : Heap).kfree ptr).map
          fun h => (newp, h) := by
  rw [Heap.krealloc, if_neg hptr, if_neg hsize]
  dsimp only
  rw [hfrom, if_neg (not_or.mpr ⟨hblock, not_not.mpr hmagic⟩)]
  by_cases hfit : alignSize size ≤ h.size block
  · rw [if_pos hfit, if_pos hfit]
    cases h.splitBlock block (alignSize size) <;> rfl
  · rw [if_neg hfit, if_neg hfit]
    cases h.kmalloc (alignSize size) with
    | none => rfl
    | some q =>
      dsimp only [Option.bind_some]
      split
      · rfl
      · cases Heap.kfree _ ptr <;> rfl

theorem krealloc_taken (R : Rep h bs) (hbm : b ∈ bs) (hsize : size ≠ 0) :
    h.krealloc b.payload size =
      if alignSize size ≤ b.size then
        (h.splitBlock b.addr (alignSize size)).map fun (newFree, h) => (b.payload,
          if newFree ≠ 0 then
            { h with usedHeapSize := sub32 h.usedHeapSize (h.blockTotalSize newFree) }
          else h)
      else (h.kmalloc (alignSize size)).bind fun (newp, h) =>
        if newp = 0 then some (0, h)
        else (({ h with mem := copy h.mem newp b.payload (h.size b.addr) } : Heap).kfree b.payload).map
          fun h => (newp, h) := by
  have hk := R.shape.header b hbm
  rw [krealloc_live (taken_payload R hbm).2 hsize (getBlockFromPayload_eq R hbm)
    (R.shape.spread.nonzero _ (mem_addrs hbm)) hk.magic, hk.size]

theorem krealloc_shrink (R : Rep h (l ++ b :: r)) (hb : b.free = false) (hsize : size ≠ 0)
    (hfit : alignSize size ≤ b.size) :
    ∃ h' c gap, h.krealloc b.payload size = some (b.payload, h') ∧
      Shrunk h h' l b r (alignSize size) c gap := by
  have s := R.shape
  rw [freeAddrs_append, freeAddrs_taken hb] at s
  obtain ⟨new, h₁, c, gap, hsplit, o⟩ := splitBlock_spec s (alignSize_idem size) hfit
  have hc : c.free = false := o.split.free.trans hb
  have hused := usedBytes_split (l := l) (r := r) o.split hb
  have hlt := usedBytes_lt R.shape
  have huse : h₁.usedHeapSize = usedBytes (l ++ b :: r) := o.touch.used.trans R.used
  have s₁ : Shape h₁ (l ++ c :: (gap ++ r)) (freeAddrs (l ++ c :: (gap ++ r))) := by
    rw [freeAddrs_append, freeAddrs_taken hc]
    exact o.shape
  have f := Frame.of_touch o.touch s₁.tiles
  refine ⟨{ h₁ with usedHeapSize := usedBytes (l ++ c :: (gap ++ r)) }, c, gap, ?_, o.split,
    Rep.of_shape s₁ rfl, f.bytes, f.start, f.stop⟩
  rw [krealloc_taken R (by simp) hsize, if_pos hfit, hsplit, Option.map_some]
  cases hgap : gap with
  | nil =>
    have hsame : usedBytes (l ++ c :: ([] ++ r)) = h₁.usedHeapSize := by
      rw [huse, ← hused, hgap]
      rfl
    rw [o.new, hgap, hsame]
    rfl
  | cons g gap' =>
    have hg : g ∈ l ++ c :: (gap ++ r) := by simp [hgap]
    have hsingle : gap' = [] := by
      have hs := hgap ▸ o.split
      cases hs
      rfl
    have hnew : new = g.addr := by
      rw [o.new, hgap]
      rfl
    have hsum : usedBytes (l ++ c :: (gap ++ r)) + g.total = usedBytes (l ++ b :: r) := by
      rw [← hused, hgap, hsingle]
      rfl
    dsimp only
    rw [hnew, if_pos (s₁.spread.nonzero _ (mem_addrs hg)), blockTotalSize_eq s₁ hg, huse,
      sub32_eq hlt (by omega), ← hgap, ← hsum, Nat.add_sub_cancel]

theorem copy_stays {c : Block} (hapart : b.stop ≤ c.addr ∨ c.stop ≤ b.addr)
    (hn : n ≤ c.size) (hnb : n ≤ b.size) (m : Mem) :
    (∀ x, x < c.payload ∨ c.stop ≤ x → copy m c.payload b.payload n x = m x) ∧
      ∀ i < n, copy m c.payload b.payload n (c.payload + i) = m (b.payload + i) := by
  simp only [Block.payload, Block.stop] at *
  constructor
  · intro x hx
    rw [copy_apply n m _ _ x (by omega), if_neg (by omega)]
  · intro i hi
    rw [copy_apply n m _ _ _ (by omega), if_pos (by omega), Nat.add_sub_cancel_left]

structure Moved (h h' : Heap) (bs bs' : List Block) (b c : Block) (n : Nat) : Prop where
  moves : ∃ l r d, Takes n bs c (l ++ b :: r) ∧ Releases l b r bs' d
  rep : Rep h' bs'
  perm : (b :: allocated bs').Perm (c :: allocated bs)
  kept : Kept h h' ((allocated bs').filter (fun d => d.addr ≠ c.addr))
  bytes : ∀ i < b.size, h'.mem (c.payload + i) = h.mem (b.payload + i)

theorem krealloc_grow (R : Rep h bs) (hbm : b ∈ bs) (hb : b.free = false) (hsize : size ≠ 0)
    (hgrow : b.size < alignSize size) :
    ∃ p h', h.krealloc b.payload size = some (p, h') ∧ (p = 0 ∧ h' = h ∨
      ∃ bs' c, p = c.payload ∧ Moved h h' bs bs' b c (alignSize size)) := by
  obtain ⟨p, h₁, hcall, hcase⟩ := kmalloc_spec R (alignSize size)
  have heq := krealloc_taken R hbm hsize
  rw [if_neg (by omega), hcall, Option.bind_some] at heq
  dsimp only at heq
  rcases hcase with ⟨rfl, rfl, _⟩ | ⟨bs₁, c, rfl, ht, R₁, f₁⟩
  · exact ⟨0, h₁, by rw [heq, if_pos rfl], Or.inl ⟨rfl, rfl⟩⟩
  rw [alignSize_idem] at ht
  have hba : b ∈ allocated bs := mem_allocated.mpr ⟨hbm, hb⟩
  have hc := ht.mem
  obtain ⟨hb₁, hbc⟩ := ht.others R₁.shape.tiles.nodup b hba
  have hapart := (R₁.shape.tiles.apart hb₁ hc).resolve_left hbc
  have hfits := ht.fits
  obtain ⟨hstay, hmoved⟩ := copy_stays hapart (by omega) le_rfl h₁.mem
  have R₂ := R₁.storeIn hc hstay
  obtain ⟨l₁, r₁, rfl⟩ := List.append_of_mem hb₁
  obtain ⟨h', bs', d, hfree, R', hrel, f₂⟩ := kfree_spec R₂ hb
  rw [if_neg (taken_payload R₁ hc).2, (R₁.shape.header b hb₁).size, hfree, Option.map_some] at heq
  have hperm : (b :: allocated bs').Perm (c :: allocated bs) := hrel.perm.symm.trans ht.perm
  have hcm : c ∈ allocated bs' := by
    have hmem := hperm.mem_iff.mpr List.mem_cons_self
    exact (List.mem_cons.mp hmem).resolve_left (Ne.symm hbc)
  refine ⟨_, h', heq, Or.inr ⟨bs', c, rfl, ⟨l₁, r₁, d, ht, hrel⟩, R', hperm, ?_, ?_⟩⟩
  · refine ⟨?_, f₂.start.trans f₁.start, f₂.stop.trans f₁.stop⟩
    intro e he x hlow hhigh
    obtain ⟨he, hec⟩ := List.mem_filter.mp he
    have hec : e ≠ c := by
      rintro rfl
      simp at hec
    have heo : e ∈ allocated bs :=
      (List.mem_cons.mp (hperm.mem_iff.mp (List.mem_cons_of_mem b he))).resolve_left hec
    have hkept := Kept.of_storeIn R₁ hc hstay (ht.others R₁.shape.tiles.nodup)
    exact (f₂.kept.bytes e he x hlow hhigh).trans ((hkept.bytes e heo x hlow hhigh).trans
      (f₁.kept.bytes e (ht.sub e heo) x hlow hhigh))
  · intro i hi
    have hlow : c.payload ≤ c.payload + i := Nat.le_add_right _ _
    have hbi : b.payload + i < b.stop := by
      simp only [Block.payload, Block.stop]
      omega
    have hci : c.payload + i < c.stop := by
      simp only [Block.payload, Block.stop]
      omega
    exact (f₂.kept.bytes c hcm _ hlow hci).trans ((hmoved i hi).trans
      (f₁.kept.bytes b (ht.sub b hba) _ (Nat.le_add_right _ _) hbi))

end Krealloc

section Valloc

def alignedTotal (size align : Nat) : Nat := size + max align alignment + 4

structure Placed (h : Heap) (c : Block) (p size align : Nat) : Prop where
  above : c.payload + 4 ≤ p
  below : p + size ≤ c.stop
  aligned : p % align = 0
  raw : load32 h.mem (p - 4) = c.payload

theorem align_up {k a : Nat} (hk : k < 32) (ha : a + 2 ^ k < 2 ^ 32) :
    sub32 (add32 a (2 ^ k)) 1 &&& not32 (sub32 (2 ^ k) 1) = (a + 2 ^ k - 1) / 2 ^ k * 2 ^ k := by
  have hpos : 0 < 2 ^ k := Nat.two_pow_pos k
  have hmask : not32 (sub32 (2 ^ k) 1) = 2 ^ 32 - 2 ^ k := by
    rw [sub32_eq (by omega) hpos, not32]
    omega
  rw [hmask, add32_eq ha, sub32_eq ha (by omega), and_clear_low hk.le (by omega)]

theorem max_pow (k : Nat) : max (2 ^ k) alignment = 2 ^ max k 3 := by
  rw [show alignment = 2 ^ 3 from rfl]
  rcases Nat.le_total k 3 with hk | hk
  · rw [Nat.max_eq_right hk, Nat.max_eq_right (Nat.pow_le_pow_right (by decide) hk)]
  · rw [Nat.max_eq_left hk, Nat.max_eq_left (Nat.pow_le_pow_right (by decide) hk)]

def alignedAt (raw k : Nat) : Nat := (raw + 4 + 2 ^ max k 3 - 1) / 2 ^ max k 3 * 2 ^ max k 3

theorem alignedAt_bounds (raw k : Nat) :
    raw + 4 ≤ alignedAt raw k ∧ alignedAt raw k < raw + 4 + 2 ^ max k 3 := by
  have hpos : 0 < 2 ^ max k 3 := Nat.two_pow_pos _
  have hdiv := Nat.div_add_mod (raw + 4 + 2 ^ max k 3 - 1) (2 ^ max k 3)
  have hmod := Nat.mod_lt (raw + 4 + 2 ^ max k 3 - 1) hpos
  rw [Nat.mul_comm] at hdiv
  rw [alignedAt]
  omega

theorem alignedAt_mod (raw k : Nat) : alignedAt raw k % 2 ^ k = 0 :=
  Nat.mod_eq_zero_of_dvd ((Nat.pow_dvd_pow 2 (Nat.le_max_left k 3)).trans (Nat.dvd_mul_left _ _))

theorem vallocAligned_eq {k total raw : Nat} (hk : k < 32)
    (htotal : alignedTotal size (2 ^ k) = total) (hsmall : total < 2 ^ 32)
    (hcall : h.kmalloc total = some (raw, h')) (hraw : raw = 0 ∨ raw + total < 2 ^ 32) :
    h.vallocAligned size (2 ^ k) = some (if raw = 0 then (0, h')
      else (alignedAt raw k, { h' with mem := store32 h'.mem (alignedAt raw k - 4) raw })) := by
  have hmax : (if 2 ^ k < alignment then alignment else 2 ^ k) = 2 ^ max k 3 := by
    rw [← max_pow]
    split <;> omega
  rw [alignedTotal, max_pow] at htotal
  have hadd : add32 (add32 size (2 ^ max k 3)) 4 = total := by
    rw [add32_eq (show size + 2 ^ max k 3 < 2 ^ 32 by omega), add32_eq (by omega), htotal]
  have hk' : max k 3 < 32 := by omega
  rw [Heap.vallocAligned, hmax]
  dsimp only
  rw [hadd, hcall]
  dsimp only
  by_cases h0 : raw = 0
  · rw [if_pos h0, if_pos h0]
  · have hroom := hraw.resolve_left h0
    have hlow := alignedAt_bounds raw k
    rw [if_neg h0, if_neg h0, add32_eq (show raw + 4 < 2 ^ 32 by omega),
      align_up hk' (by omega)]
    have hback : sub32 (alignedAt raw k) 4 = alignedAt raw k - 4 :=
      sub32_eq (by omega) (by omega)
    rw [← hback]
    rfl

theorem vallocAligned_spec (R : Rep h bs) {k : Nat} (hk : k < 32)
    (hfits : alignedTotal size (2 ^ k) ≤ 2 ^ 32 - 8) :
    ∃ p h', h.vallocAligned size (2 ^ k) = some (p, h') ∧ (p = 0 ∧ h' = h ∨
      ∃ bs' c, Placed h' c p size (2 ^ k) ∧ Takes (alignSize (alignedTotal size (2 ^ k))) bs c bs' ∧
        Rep h' bs' ∧ Kept h h' (allocated bs)) := by
  obtain ⟨raw, h₁, hcall, hcase⟩ := kmalloc_spec R (alignedTotal size (2 ^ k))
  rcases hcase with ⟨rfl, rfl, _⟩ | ⟨bs', c, rfl, ht, R₁, f⟩
  · exact ⟨0, h₁, vallocAligned_eq hk rfl (by omega) hcall (Or.inl rfl), Or.inl ⟨rfl, rfl⟩⟩
  have hc := ht.mem
  have hroom : alignedTotal size (2 ^ k) ≤ c.size := Nat.le_trans (le_alignSize hfits) ht.fits
  have hend := (R₁.shape.tiles.bounds hc).2
  have hstop := R₁.shape.stop
  have hpay : c.payload + c.size = c.stop := rfl
  have heq := vallocAligned_eq hk rfl (by omega) hcall (Or.inr (by omega))
  rw [if_neg (taken_payload R₁ hc).2] at heq
  obtain ⟨hlow, hhigh⟩ := alignedAt_bounds c.payload k
  rw [alignedTotal, max_pow] at hroom
  have hstay : ∀ x, x < c.payload ∨ c.stop ≤ x →
      store32 h₁.mem (alignedAt c.payload k - 4) c.payload x = h₁.mem x :=
    fun x hx => store32_ne _ (by omega)
  refine ⟨_, _, heq, Or.inr ⟨bs', c, ⟨hlow, by omega, alignedAt_mod _ _, ?_⟩, ht,
    R₁.storeIn hc hstay, ?_⟩⟩
  · show load32 (store32 _ _ _) _ = _
    rw [load32_store32_same, Nat.mod_eq_of_lt (by omega)]
  · exact (f.kept.mono ht.sub).trans (Kept.of_storeIn R₁ hc hstay (ht.others R₁.shape.tiles.nodup))

theorem vfree_zero (h : Heap) : h.vfree 0 = some h := if_pos rfl

-- the word before a block's payload is its `prev` link, empty while the block is taken
theorem vfree_valloc (R : Rep h bs) (hbm : b ∈ bs) (hb : b.free = false) :
    h.vfree b.payload = some h := by
  have hout : b.addr ∉ freeAddrs bs := by
    intro hmem
    obtain ⟨c, hc, hfree, haddr⟩ := mem_freeAddrs.mp hmem
    obtain rfl := R.shape.tiles.addr_inj hc hbm haddr
    rw [hb] at hfree
    cases hfree
  have hprev : load32 h.mem (b.addr + 16) = 0 := (R.shape.loose b hbm hout).2
  have hword : sub32 b.payload 4 = b.addr + 16 := by
    have hstop := R.stop_lt hbm
    simp only [Block.payload, Block.stop, headerBytes] at hstop ⊢
    rw [sub32_eq (by omega) (by omega)]
    omega
  rw [Heap.vfree, if_neg (taken_payload R hbm).2, hword, hprev]
  exact if_pos (Or.inl rfl)

theorem vfree_placed (R : Rep h (l ++ b :: r)) (hb : b.free = false) (hlow : b.payload + 4 ≤ p)
    (hhigh : p ≤ b.stop) (hraw : load32 h.mem (p - 4) = b.payload) :
    ∃ h' bs' c, h.vfree p = some h' ∧ Rep h' bs' ∧ Releases l b r bs' c ∧ Frame h h' bs' := by
  obtain ⟨h', bs', c, hfree, R', hrel, f⟩ := kfree_spec R hb
  have hbm : b ∈ l ++ b :: r := by simp
  have hend := (R.shape.tiles.bounds hbm).2
  have hstop := R.shape.stop
  have hword : sub32 p 4 = p - 4 := sub32_eq (by omega) (by omega)
  refine ⟨h', bs', c, ?_, R', hrel, f⟩
  rw [Heap.vfree, if_neg (by omega), hword, hraw, hfree]

end Valloc

end HouseOS.Mm
