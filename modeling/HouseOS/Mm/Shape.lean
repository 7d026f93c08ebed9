import HouseOS.Mm.Tiling

namespace HouseOS.Mm

open HouseOS.ByteMem
open HouseOS.DoublyLinked
open HouseOS.Word
open Heap

variable {h h' : Heap} {bs l r : List Block} {free fl fr : List Nat} {b : Block} {a : Nat}

section Insert

theorem shape_linked (s : Shape h bs free) (t : Touch h h' (addrs bs)) (ha : a ∈ addrs bs)
    (hout : a ∉ fl ++ fr) (hfree : free = fl ++ fr) (hlow : ∀ x ∈ fl, x < a)
    (hhigh : ∀ x ∈ fr, a < x)
    (hhead : ∀ x ∈ addrs bs, h'.header x =
      if x = a then { h.header x with next := fr.headD 0, prev := fl.getLastD 0 }
      else { h.header x with
        next := if x = fl.getLastD 0 then a else h.next x
        prev := if x = fr.headD 0 then a else h.prev x })
    (hlist : h'.freeList = if fl = [] then a else h.freeList) :
    Shape h' bs (fl ++ a :: fr) := by
  subst hfree
  have hs := s.spread
  have hsorted : (fl ++ a :: fr).Pairwise (· < ·) := by
    obtain ⟨hl, hr, hlr⟩ := List.pairwise_append.mp s.sorted
    refine List.pairwise_append.mpr ⟨hl, List.pairwise_cons.mpr ⟨hhigh, hr⟩, ?_⟩
    intro x hx y hy
    rcases List.mem_cons.mp hy with rfl | hy
    · exact hlow x hx
    · exact hlr x hx y hy
  have hnd : (fl ++ a :: fr).Nodup := hsorted.imp (fun hlt => Nat.ne_of_lt hlt)
  have hin : ∀ x ∈ fl ++ a :: fr, x ∈ addrs bs := by
    intro x hx
    rcases List.mem_append.mp hx with hx | hx
    · exact s.within x (List.mem_append_left _ hx)
    · rcases List.mem_cons.mp hx with rfl | hx
      · exact ha
      · exact s.within x (List.mem_append_right _ hx)
  have hne : ∀ x ∈ fl ++ fr, x ≠ a := by
    rintro x hx rfl
    exact hout hx
  have hold : ∀ x ∈ fl ++ fr, x ∈ addrs bs := s.within
  obtain ⟨hstart, hstop, hroom, htiles⟩ := s.region t s.tiles
  refine ⟨hstart, hstop, hroom, htiles, ?_, ?_, hsorted, hin, ?_⟩
  · intro b hb
    have hb' := hhead b.addr (mem_addrs hb)
    have hold := s.header b hb
    refine .of_header hb' ?_ ?_ ?_
    · split <;> exact hold.magic
    · split <;> exact hold.size
    · split <;> exact hold.isFree
  · have haself := hhead a ha
    rw [if_pos rfl] at haself
    refine s.linked.insert hnd (fun x hx => hs.nonzero x (hin x hx)) (congrArg Header.next haself)
      (congrArg Header.prev haself) ?_ ?_ hlist
    · intro x hx
      have := congrArg Header.next (hhead x (hold x hx))
      rwa [if_neg (hne x hx)] at this
    · intro x hx
      have := congrArg Header.prev (hhead x (hold x hx))
      rwa [if_neg (hne x hx)] at this
  · intro b hb hloose
    have hba : b.addr ≠ a := fun heq => hloose (by simp [heq])
    have hout' : b.addr ∉ fl ++ fr := by
      intro hmem
      refine hloose ?_
      rcases List.mem_append.mp hmem with hmem | hmem
      · exact List.mem_append_left _ hmem
      · exact List.mem_append_right _ (List.mem_cons_of_mem a hmem)
    have hb' := hhead b.addr (mem_addrs hb)
    rw [if_neg hba] at hb'
    have hb0 := hs.nonzero _ (mem_addrs hb)
    have hbl : b.addr ≠ fl.getLastD 0 := by
      intro heq
      rcases getLastD_mem_or fl 0 with hnil | hmem
      · rw [hnil] at heq
        exact hb0 heq
      · exact hout' (List.mem_append_left _ (heq ▸ hmem))
    have hbr : b.addr ≠ fr.headD 0 := by
      intro heq
      rcases headD_mem_or fr 0 with hnil | hmem
      · rw [hnil] at heq
        exact hb0 heq
      · exact hout' (List.mem_append_right _ (heq ▸ hmem))
    have hnext := congrArg Header.next hb'
    have hprev := congrArg Header.prev hb'
    simp only [if_neg hbl, if_neg hbr] at hnext hprev
    have hz := s.loose b hb hout'
    exact ⟨hnext.trans hz.1, hprev.trans hz.2⟩

theorem shape_insert (s : Shape h bs free) (ha : a ∈ addrs bs) (hout : a ∉ free) :
    ∃ fl fr h', free = fl ++ fr ∧ (∀ x ∈ fl, x < a) ∧ (∀ x ∈ fr, a < x) ∧
      h.insertIntoListSorted a = some h' ∧ Shape h' bs (fl ++ a :: fr) ∧
      Touch h h' (addrs bs) := by
  have hs := s.spread
  obtain ⟨fl, fr, hfree, hlow, hhead, h', hins, hcase⟩ :=
    insertIntoListSorted_eq s.linked s.free_nonzero s.free_short a
  have hhigh : ∀ x ∈ fr, a < x := by
    intro x hx
    have hge : a ≤ x := by
      cases fr with
      | nil => cases hx
      | cons y fr =>
        have hy := hhead y rfl
        have hsorted := (List.pairwise_append.mp (hfree ▸ s.sorted)).2.1
        rcases List.mem_cons.mp hx with rfl | hx
        · exact hy
        · exact Nat.le_of_lt (Nat.lt_of_le_of_lt hy ((List.pairwise_cons.mp hsorted).1 x hx))
    rcases Nat.lt_or_eq_of_le hge with hlt | rfl
    · exact hlt
    · exact absurd (hfree ▸ List.mem_append_right _ hx) hout
  refine ⟨fl, fr, h', hfree, hlow, hhigh, hins, ?_⟩
  rcases hcase with ⟨_, rfl⟩ | ⟨hnil, rfl⟩
  · have hcm : fr.headD 0 ≠ 0 → fr.headD 0 ∈ addrs bs := by
      intro h0
      rcases headD_mem_or fr 0 with hn | hmem
      · rw [hn] at h0
        exact absurd rfl h0
      · exact s.within _ (hfree ▸ List.mem_append_right _ hmem)
    have hpm : fl.getLastD 0 ≠ 0 → fl.getLastD 0 ∈ addrs bs := by
      intro h0
      rcases getLastD_mem_or fl 0 with hn | hmem
      · rw [hn] at h0
        exact absurd rfl h0
      · exact s.within _ (hfree ▸ List.mem_append_left _ hmem)
    have ha0 := hs.nonzero a ha
    have hca : fr.headD 0 ≠ a := by
      intro heq
      rcases headD_mem_or fr 0 with hn | hmem
      · rw [hn] at heq
        exact ha0 heq.symm
      · exact Nat.lt_irrefl _ (heq ▸ hhigh _ hmem)
    have hpa : fl.getLastD 0 ≠ a := by
      intro heq
      rcases getLastD_mem_or fl 0 with hn | hmem
      · rw [hn] at heq
        exact ha0 heq.symm
      · exact Nat.lt_irrefl _ (heq ▸ hlow _ hmem)
    have hword : ∀ v, (v ≠ 0 → v ∈ addrs bs) → v < 2 ^ 32 := by
      intro v hv
      by_cases h0 : v = 0
      · rw [h0]
        decide
      · exact hs.word v (hv h0)
    have t : Touch h (linkBetween h a (fr.headD 0) (fl.getLastD 0)) (addrs bs) :=
      linkBetween_touch ha hcm hpm
    refine ⟨shape_linked s t ha (hfree ▸ hout) hfree hlow hhigh ?_ ?_, t⟩
    · exact fun x hx => linkBetween_header hs ha hcm hpm hca hpa (hword _ hcm) (hword _ hpm) hx
    · rw [linkBetween_freeList]
      rcases getLastD_mem_or fl 0 with hn | hmem
      · rw [hn]
        rfl
      · rw [if_neg (fun h0 => s.free_nonzero _ (hfree ▸ List.mem_append_left _ hmem) h0),
          if_neg (fun h0 => by rw [h0] at hmem; cases hmem)]
  · obtain ⟨rfl, rfl⟩ := List.append_eq_nil_iff.mp (hfree ▸ hnil)
    have t : Touch h (((h.setFreeList a).setPrev a 0).setNext a 0) (addrs bs) :=
      (Touch.setFreeList.trans (Touch.setPrev ha)).trans (Touch.setNext ha)
    refine ⟨shape_linked s t ha (hfree ▸ hout) hfree hlow hhigh ?_ rfl, t⟩
    intro x hx
    have hax := hs.apart a ha x hx
    have hx0 : x ≠ 0 := hs.nonzero x hx
    simp only [header_setNext hax, header_setPrev hax, header_setFreeList, List.headD_nil,
      List.getLastD_nil]
    split <;> simp [Heap.header, hx0]

end Insert

section Update

theorem tiles_replace {lo hi : Nat} (b' : Block) (ht : Tiles lo (l ++ b :: r) hi)
    (haddr : b'.addr = b.addr) (hstop : b'.stop = b.stop) : Tiles lo (l ++ b' :: r) hi := by
  obtain ⟨mid, hl, hb, hr⟩ := tiles_append.mp ht
  exact tiles_append.mpr ⟨mid, hl, haddr.trans hb, hstop ▸ hr⟩

theorem shape_setFree (s : Shape h (l ++ b :: r) free) (f : Bool) :
    Shape (h.setIsFree b.addr (if f then 1 else 0)) (l ++ { b with free := f } :: r) free ∧
      Touch h (h.setIsFree b.addr (if f then 1 else 0)) (addrs (l ++ b :: r)) := by
  generalize hv : (if f then (1 : UInt8) else 0) = v
  have hs := s.spread
  have hbm : b ∈ l ++ b :: r := by simp
  have haddrs : addrs (l ++ { b with free := f } :: r) = addrs (l ++ b :: r) := by
    simp [addrs]
  have ht := tiles_replace { b with free := f } s.tiles rfl rfl
  have hhead : ∀ x ∈ addrs (l ++ b :: r), (h.setIsFree b.addr v).header x =
      if x = b.addr then { h.header x with isFree := v } else h.header x := fun x hx =>
    header_setIsFree (hs.apart b.addr (mem_addrs hbm) x hx)
  have hlinks : ∀ x ∈ addrs (l ++ b :: r),
      (h.setIsFree b.addr v).next x = h.next x ∧
        (h.setIsFree b.addr v).prev x = h.prev x := by
    intro x hx
    have hn := congrArg Header.next (hhead x hx)
    have hp := congrArg Header.prev (hhead x hx)
    split at hn <;> split at hp <;> exact ⟨hn, hp⟩
  refine ⟨⟨s.start, s.stop, s.room, ht, ?_, ?_, s.sorted, haddrs ▸ s.within, ?_⟩,
    Touch.setIsFree (mem_addrs hbm)⟩
  · intro c hc
    by_cases hcb : c.addr = b.addr
    · have hceq : c = { b with free := f } := ht.addr_inj hc (by simp) hcb
      subst hceq
      have hb' := hhead b.addr (mem_addrs hbm)
      rw [if_pos rfl] at hb'
      have hold := s.header b hbm
      exact .of_header hb' hold.magic hold.size hv.symm
    · have hcm : c ∈ l ++ b :: r := by
        rcases List.mem_append.mp hc with hc | hc
        · exact List.mem_append_left _ hc
        · rcases List.mem_cons.mp hc with rfl | hc
          · exact absurd rfl hcb
          · exact List.mem_append_right _ (List.mem_cons_of_mem b hc)
      have hc' := hhead c.addr (mem_addrs hcm)
      rw [if_neg hcb] at hc'
      exact (s.header c hcm).of_same hc'
  · exact s.linked.congr (fun x hx => hlinks x (s.within x hx))
  · intro c hc hloose
    have hca : c.addr ∈ addrs (l ++ b :: r) := haddrs ▸ mem_addrs hc
    obtain ⟨c', hc', heq⟩ := List.mem_map.mp hca
    have hz := s.loose c' hc' (heq ▸ hloose)
    rw [heq] at hz
    exact ⟨(hlinks _ hca).1.trans hz.1, (hlinks _ hca).2.trans hz.2⟩

def carved (b : Block) (payload : Nat) : Block := { b with size := payload }

def remainder (b : Block) (payload : Nat) : Block :=
  { addr := b.addr + headerBytes + payload, size := b.size - payload - headerBytes, free := true }

theorem tiles_carve {lo hi payload : Nat} (ht : Tiles lo (l ++ b :: r) hi)
    (hfit : payload + headerBytes ≤ b.size) :
    Tiles lo (l ++ carved b payload :: remainder b payload :: r) hi := by
  obtain ⟨mid, hl, hb, hr⟩ := tiles_append.mp ht
  refine tiles_append.mpr ⟨mid, hl, hb, rfl, ?_⟩
  have hstop : (remainder b payload).stop = b.stop := by
    simp only [Block.stop, remainder]
    omega
  rwa [hstop]

theorem addrs_middle {b : Block} : addrs (l ++ b :: r) = addrs l ++ b.addr :: addrs r := by
  rw [addrs, List.map_append, List.map_cons, addrs, addrs]

theorem mem_skip {α : Type} {xs ys : List α} {a b c : α} (h : c ∈ xs ++ a :: ys) :
    c ∈ xs ++ a :: b :: ys :=
  ((List.Sublist.refl xs).append ((List.sublist_cons_self b ys).cons_cons a)).subset h

theorem mem_unskip {α : Type} {xs ys : List α} {a b c : α} (h : c ∈ xs ++ a :: b :: ys)
    (hne : c ≠ b) : c ∈ xs ++ a :: ys := by
  rcases List.mem_append.mp h with h | h
  · exact List.mem_append_left _ h
  · rcases List.mem_cons.mp h with rfl | h
    · exact List.mem_append_right _ List.mem_cons_self
    · exact List.mem_append_right _ (List.mem_cons_of_mem a ((List.mem_cons.mp h).resolve_left hne))

theorem shape_carve (s : Shape h (l ++ b :: r) free) {payload : Nat}
    (hfit : payload + headerBytes ≤ b.size) :
    let new := remainder b payload
    let h' := (h.newBlock new.addr new.size).setSize b.addr payload
    Shape h' (l ++ carved b payload :: new :: r) free ∧ new.addr ∉ free ∧
      Touch h h' (addrs (l ++ carved b payload :: new :: r)) := by
  intro new h'
  have ht := tiles_carve s.tiles hfit
  have hs := ht.spread s.start s.stop.le
  have hbm : b ∈ l ++ b :: r := by simp
  have hcm : carved b payload ∈ l ++ carved b payload :: new :: r := by simp
  have hnm : new ∈ l ++ carved b payload :: new :: r := by simp
  have hsub : ∀ x ∈ addrs (l ++ b :: r), x ∈ addrs (l ++ carved b payload :: new :: r) := by
    intro x hx
    rw [addrs_middle] at hx ⊢
    exact mem_skip hx
  have hbm' : b.addr ∈ addrs (l ++ carved b payload :: new :: r) :=
    List.mem_map.mpr ⟨_, hcm, rfl⟩
  have hbn : b.addr ≠ new.addr := by
    simp only [new, remainder, headerBytes]
    omega
  have hnew : new.addr ∉ addrs (l ++ b :: r) := by
    intro hmem
    obtain ⟨c, hc, heq⟩ := List.mem_map.mp hmem
    have hsize : new.addr < b.stop := by
      simp only [new, remainder, Block.stop, headerBytes] at hfit ⊢
      omega
    have hlow : b.addr < new.addr := by
      simp only [new, remainder, headerBytes]
      omega
    rcases s.tiles.apart hc hbm with rfl | hcb | hcb
    · exact hbn heq
    · simp only [Block.stop] at hcb
      omega
    · omega
  have hbounds := s.tiles.bounds hbm
  have hstop := s.stop
  have hword : payload % 2 ^ 32 = payload ∧ new.size % 2 ^ 32 = new.size := by
    simp only [Block.stop, new, remainder, headerBytes] at hbounds hfit ⊢
    constructor <;> exact Nat.mod_eq_of_lt (by omega)
  have hhead : ∀ x ∈ addrs (l ++ carved b payload :: new :: r), h'.header x =
      if x = b.addr then { h.header x with size := payload }
      else if x = new.addr then
        { magic := heapMagic, size := new.size, isFree := 1, next := 0, prev := 0 }
      else h.header x := by
    intro x hx
    show ((h.newBlock new.addr new.size).setSize b.addr payload).header x = _
    rw [header_setSize (hs.apart _ hbm' x hx), header_newBlock (hs.apart _ (mem_addrs hnm) x hx),
      hword.1, hword.2]
    by_cases hxb : x = b.addr
    · rw [if_pos hxb, if_pos hxb, if_neg (hxb ▸ hbn)]
    · rw [if_neg hxb, if_neg hxb]
  have hlinks : ∀ x ∈ addrs (l ++ b :: r), h'.next x = h.next x ∧ h'.prev x = h.prev x := by
    intro x hx
    have hx' := hhead x (hsub x hx)
    have hxn : x ≠ new.addr := fun heq => hnew (heq ▸ hx)
    rw [if_neg hxn] at hx'
    have hn := congrArg Header.next hx'
    have hp := congrArg Header.prev hx'
    split at hn
    · rename_i hxb
      rw [if_pos hxb] at hp
      exact ⟨hn, hp⟩
    · rename_i hxb
      rw [if_neg hxb] at hp
      exact ⟨hn, hp⟩
  refine ⟨⟨s.start, s.stop, s.room, ht, ?_, ?_, s.sorted, fun x hx => hsub x (s.within x hx), ?_⟩,
    fun hmem => hnew (s.within _ hmem), ?_⟩
  · intro c hc
    have hc' := hhead c.addr (mem_addrs hc)
    by_cases hcb : c.addr = b.addr
    · obtain rfl : c = carved b payload := ht.addr_inj hc hcm hcb
      rw [if_pos hcb] at hc'
      have hold := s.header b hbm
      exact .of_header hc' hold.magic rfl hold.isFree
    · rw [if_neg hcb] at hc'
      by_cases hcn : c.addr = new.addr
      · obtain rfl : c = new := ht.addr_inj hc hnm hcn
        rw [if_pos rfl] at hc'
        exact .of_header hc' rfl rfl rfl
      · rw [if_neg hcn] at hc'
        have hcold : c ∈ l ++ b :: r := by
          rcases List.mem_append.mp hc with hc | hc
          · exact List.mem_append_left _ hc
          · rcases List.mem_cons.mp hc with rfl | hc
            · exact absurd rfl hcb
            · rcases List.mem_cons.mp hc with rfl | hc
              · exact absurd rfl hcn
              · exact List.mem_append_right _ (List.mem_cons_of_mem b hc)
        exact (s.header c hcold).of_same hc'
  · exact s.linked.congr (fun x hx => hlinks x (s.within x hx))
  · intro c hc hloose
    by_cases hcn : c.addr = new.addr
    · have hc' := hhead c.addr (mem_addrs hc)
      rw [if_neg (fun heq => hbn (heq.symm.trans hcn)), if_pos hcn] at hc'
      exact ⟨congrArg Header.next hc', congrArg Header.prev hc'⟩
    · have hcold : c.addr ∈ addrs (l ++ b :: r) := by
        have hca := mem_addrs hc
        rw [addrs_middle] at hca ⊢
        exact mem_unskip hca hcn
      obtain ⟨c', hc', heq⟩ := List.mem_map.mp hcold
      have hz := s.loose c' hc' (heq ▸ hloose)
      rw [heq] at hz
      exact ⟨(hlinks _ hcold).1.trans hz.1, (hlinks _ hcold).2.trans hz.2⟩
  · exact Touch.trans (Touch.newBlock (mem_addrs hnm)) (Touch.setSize hbm')

def joined (p x : Block) : Block := { p with size := p.size + headerBytes + x.size }

theorem tiles_join {lo hi : Nat} {p x : Block} (ht : Tiles lo (l ++ p :: x :: r) hi) :
    x.addr = p.stop ∧ Tiles lo (l ++ joined p x :: r) hi := by
  obtain ⟨mid, hl, hp, hx, hr⟩ := tiles_append.mp ht
  refine ⟨hx, tiles_append.mpr ⟨mid, hl, hp, ?_⟩⟩
  have hstop : (joined p x).stop = x.stop := by
    simp only [Block.stop, joined] at hx ⊢
    omega
  rwa [hstop]

theorem joined_word {p x : Block} (s : Shape h (l ++ p :: x :: r) free) :
    add32 (h.size p.addr) (h.blockTotalSize x.addr) = (joined p x).size ∧
      (joined p x).size < 2 ^ 32 := by
  have hpm : p ∈ l ++ p :: x :: r := by simp
  have hxm : x ∈ l ++ p :: x :: r := by simp
  obtain ⟨hxp, _⟩ := tiles_join s.tiles
  have hbx := s.tiles.bounds hxm
  have hstop := s.stop
  rw [Heap.blockTotalSize, (s.header p hpm).size, (s.header x hxm).size]
  simp only [Block.stop, headerBytes] at hbx hxp
  simp only [headerBytes, joined]
  rw [add32_eq (show x.size + 20 < 2 ^ 32 by omega), add32_eq (by omega)]
  omega

theorem absorb_neighbours {p x : Block}
    (s : Shape h (l ++ p :: x :: r) (fl ++ p.addr :: x.addr :: fr)) :
    h.prev x.addr = p.addr ∧ h.next x.addr = fr.headD 0 ∧
      (h.next x.addr ≠ 0 → h.next x.addr ∈ addrs (l ++ p :: x :: r)) ∧ h.next x.addr ≠ p.addr := by
  have hfree : fl ++ p.addr :: x.addr :: fr = (fl ++ [p.addr]) ++ x.addr :: fr := by simp
  have s' : Shape h (l ++ p :: x :: r) ((fl ++ [p.addr]) ++ x.addr :: fr) := hfree ▸ s
  obtain ⟨hprev, hnext, _, hnm, _, _⟩ := s'.neighbours
  refine ⟨by simpa using hprev, hnext, hnm, ?_⟩
  rw [hnext]
  intro heq
  rcases headD_mem_or fr 0 with hn | hmem
  · rw [hn] at heq
    exact s.spread.nonzero p.addr (mem_addrs (by simp)) heq.symm
  · have hsorted := (List.pairwise_append.mp s.sorted).2.1
    have := (List.pairwise_cons.mp hsorted).1 _ (List.mem_cons_of_mem x.addr hmem)
    omega

theorem shape_absorb {p x : Block}
    (s : Shape h (l ++ p :: x :: r) (fl ++ p.addr :: x.addr :: fr)) :
    Shape (h.absorb p.addr x.addr) (l ++ joined p x :: r) (fl ++ p.addr :: fr) ∧
      Touch h (h.absorb p.addr x.addr) (addrs (l ++ p :: x :: r)) := by
  have hs := s.spread
  obtain ⟨hxp, ht⟩ := tiles_join s.tiles
  have hpm : p ∈ l ++ p :: x :: r := by simp
  have hxm : x ∈ l ++ p :: x :: r := by simp
  have hjm : joined p x ∈ l ++ joined p x :: r := by simp
  have hp := mem_addrs hpm
  have hx := mem_addrs hxm
  obtain ⟨hprev, hnext, hnm, hnp⟩ := absorb_neighbours s
  obtain ⟨hsize, hword⟩ := joined_word s
  have hpx : p.addr ≠ x.addr := by
    simp only [Block.stop, headerBytes] at hxp
    omega
  have hhead : ∀ y ∈ addrs (l ++ p :: x :: r), _ := fun y hy =>
    absorb_header hs hp hx hpx hnm hnp hsize hword hy
  have t : Touch h (h.absorb p.addr x.addr) _ := absorb_touch hs hp hx hpx hnm
  have hfree : fl ++ p.addr :: x.addr :: fr = (fl ++ [p.addr]) ++ x.addr :: fr := by simp
  have hnd : ((fl ++ [p.addr]) ++ x.addr :: fr).Nodup :=
    hfree ▸ s.sorted.imp (fun hlt => Nat.ne_of_lt hlt)
  have hin : ∀ y ∈ fl ++ p.addr :: fr, y ∈ addrs (l ++ p :: x :: r) :=
    fun y hy => s.within y (mem_skip hy)
  have hsub : ∀ y ∈ addrs (l ++ joined p x :: r), y ∈ addrs (l ++ p :: x :: r) := by
    intro y hy
    rw [addrs_middle] at hy ⊢
    exact mem_skip hy
  obtain ⟨hstart, hstop, hroom, ht'⟩ := s.region t ht
  refine ⟨⟨hstart, hstop, hroom, ht', ?_, ?_, ?_, ?_, ?_⟩, t⟩
  · intro c hc
    have hc' := hhead c.addr (hsub _ (mem_addrs hc))
    by_cases hcp : c.addr = p.addr
    · obtain rfl : c = joined p x := ht.addr_inj hc hjm hcp
      rw [if_pos hcp] at hc'
      have hold := s.header p hpm
      exact .of_header hc' hold.magic rfl hold.isFree
    · rw [if_neg hcp] at hc'
      have hcold : c ∈ l ++ p :: x :: r := by
        rcases List.mem_append.mp hc with hc | hc
        · exact List.mem_append_left _ hc
        · rcases List.mem_cons.mp hc with rfl | hc
          · exact absurd rfl hcp
          · exact List.mem_append_right _ (List.mem_cons_of_mem p (List.mem_cons_of_mem x hc))
      have hold := s.header c hcold
      exact .of_header hc' hold.magic hold.size hold.isFree
  · have hprev' : h.links.prev x.addr = p.addr := hprev
    have hin' : ∀ y ∈ (fl ++ [p.addr]) ++ fr, y ∈ addrs (l ++ p :: x :: r) := by
      intro y hy
      exact hin y (by simpa using hy)
    have hlinked : Linked h.links h.freeList ((fl ++ [p.addr]) ++ x.addr :: fr) := hfree ▸ s.linked
    have hres : Linked (h.absorb p.addr x.addr).links (h.absorb p.addr x.addr).freeList
        ((fl ++ [p.addr]) ++ fr) := by
      refine hlinked.unlink hnd (fun y hy => s.free_nonzero y (hfree ▸ hy)) ?_ ?_ ?_
      · intro y hy
        have hy' := congrArg Header.next (hhead y (hin' y hy))
        rw [hprev']
        split at hy'
        · rename_i hyp
          rw [if_pos hyp]
          exact hy'
        · rename_i hyp
          rw [if_neg hyp]
          exact hy'
      · intro y hy
        have hy' := congrArg Header.prev (hhead y (hin' y hy))
        rw [hprev']
        split at hy'
        · rename_i hyp
          have hne : y ≠ h.links.next x.addr := fun heq => hnp (heq.symm.trans hyp)
          rw [if_neg hne]
          exact hy'
        · exact hy'
      · rw [absorb_freeList hs hp hx hpx, hprev', if_neg (hs.nonzero _ hp)]
    simpa using hres
  · refine s.sorted.sublist (List.Sublist.append (List.Sublist.refl _) ?_)
    exact List.Sublist.cons_cons _ (List.sublist_cons_self _ _)
  · intro y hy
    have hyold := hin y hy
    have hyx : y ≠ x.addr := by
      rintro rfl
      obtain ⟨_, hnd2, hdisj⟩ := List.nodup_append.mp hnd
      rw [show fl ++ p.addr :: fr = (fl ++ [p.addr]) ++ fr by simp] at hy
      rcases List.mem_append.mp hy with hy | hy
      · exact hdisj _ hy _ List.mem_cons_self rfl
      · exact (List.nodup_cons.mp hnd2).1 hy
    rw [addrs_middle] at hyold ⊢
    exact mem_unskip hyold hyx
  · intro c hc hloose
    have hcp : c.addr ≠ p.addr := fun heq => hloose (by simp [heq])
    have hcx : c.addr ≠ x.addr := by
      intro heq
      rcases ht.apart hc hjm with rfl | hcj | hcj
      · exact hpx heq
      · simp only [Block.stop, joined, headerBytes] at hcj hxp
        omega
      · simp only [Block.stop, joined, headerBytes] at hcj hxp
        omega
    have hcold : c.addr ∉ fl ++ p.addr :: x.addr :: fr :=
      fun hmem => hloose (mem_unskip hmem hcx)
    have hca := hsub _ (mem_addrs hc)
    obtain ⟨c', hcm, hceq⟩ := List.mem_map.mp hca
    have hz := s.loose c' hcm (hceq ▸ hcold)
    rw [hceq] at hz
    have hc' := hhead c.addr hca
    rw [if_neg hcp] at hc'
    have hcn : c.addr ≠ h.next x.addr := by
      rw [hnext]
      intro heq
      rcases headD_mem_or fr 0 with hn | hmem
      · rw [hn] at heq
        exact hs.nonzero _ hca heq
      · rw [← heq] at hmem
        exact hcold (by simp [hmem])
    have hn := congrArg Header.next hc'
    have hpr := congrArg Header.prev hc'
    simp only [if_neg hcn] at hpr
    exact ⟨hn.trans hz.1, hpr.trans hz.2⟩

end Update

end HouseOS.Mm
