import HouseOS.Mm.Init

namespace HouseOS.Mm

open HouseOS.ByteMem
open HouseOS.Word
open Heap

def nextBlock (h : Heap) (b : Nat) : Nat := add32 b (h.blockTotalSize b)

inductive BlockAt (h : Heap) : Nat → Prop
  | first (hroom : h.heapStart < h.heapEnd) : BlockAt h h.heapStart
  | next {b : Nat} (hb : BlockAt h b) (hend : nextBlock h b < h.heapEnd) : BlockAt h (nextBlock h b)

def NoAdjacentFree (h : Heap) : Prop :=
  ∀ b, BlockAt h b → BlockAt h (nextBlock h b) →
    ¬ (h.isFree b ≠ 0 ∧ h.isFree (nextBlock h b) ≠ 0)

section Walk

variable {h : Heap} {bs l r : List Block} {b c : Block} {x : Nat}

theorem nextBlock_eq (R : Rep h bs) (hb : b ∈ bs) : nextBlock h b.addr = b.stop :=
  stop_eq R.shape hb

theorem free_flag (R : Rep h bs) (hb : b ∈ bs) : h.isFree b.addr ≠ 0 ↔ b.free = true := by
  rw [(R.shape.header b hb).isFree]
  cases b.free <;> decide

theorem Tiles.follow {lo hi : Nat} (ht : Tiles lo (l ++ b :: r) hi) :
    r = [] ∧ b.stop = hi ∨ ∃ c r', r = c :: r' ∧ c.addr = b.stop := by
  obtain ⟨_, _, _, hr⟩ := tiles_append.mp ht
  cases r with
  | nil => exact Or.inl ⟨rfl, hr⟩
  | cons c r' => exact Or.inr ⟨c, r', rfl, hr.1⟩

theorem BlockAt.mem (R : Rep h bs) (hx : BlockAt h x) : x ∈ addrs bs := by
  induction hx with
  | first hroom =>
    cases bs with
    | nil => exact absurd R.shape.tiles (Nat.ne_of_lt hroom)
    | cons b r => exact List.mem_cons.mpr (Or.inl R.shape.tiles.1.symm)
  | next _ hend ih =>
    obtain ⟨b, hb, rfl⟩ := List.mem_map.mp ih
    rw [nextBlock_eq R hb] at hend ⊢
    obtain ⟨l, r, rfl⟩ := List.append_of_mem hb
    rcases R.shape.tiles.follow with ⟨_, hstop⟩ | ⟨c, r', rfl, haddr⟩
    · exact absurd hstop (Nat.ne_of_lt hend)
    · exact haddr ▸ mem_addrs (by simp)

theorem blockAt_of_mem (R : Rep h bs) : ∀ l b r, bs = l ++ b :: r → BlockAt h b.addr := by
  intro l
  induction l using List.reverseRecOn with
  | nil =>
    rintro b r rfl
    have hb := R.shape.tiles.bounds (List.mem_cons_self : b ∈ [] ++ b :: r)
    rw [R.shape.tiles.1]
    simp only [Block.stop, headerBytes] at hb
    exact .first (by omega)
  | append_singleton l p ih =>
    rintro b r hbs
    have hbs' : bs = l ++ p :: b :: r := by simpa using hbs
    have hp := ih p (b :: r) hbs'
    subst hbs'
    have hstop := (tiles_join R.shape.tiles).1
    have hb := R.shape.tiles.bounds (by simp : b ∈ l ++ p :: b :: r)
    have hnext := nextBlock_eq R (by simp : p ∈ l ++ p :: b :: r)
    rw [hstop, ← hnext]
    refine .next hp ?_
    simp only [Block.stop, headerBytes] at hb
    rw [hnext, ← hstop]
    omega

theorem blockAt_iff (R : Rep h bs) : BlockAt h x ↔ x ∈ addrs bs := by
  refine ⟨BlockAt.mem R, ?_⟩
  intro hx
  obtain ⟨b, hb, rfl⟩ := List.mem_map.mp hx
  obtain ⟨l, r, hbs⟩ := List.append_of_mem hb
  exact blockAt_of_mem R l b r hbs

theorem coalesced_iff (R : Rep h bs) : Coalesced bs ↔ NoAdjacentFree h := by
  constructor
  · rintro hbs x hx hnext ⟨hfree, hfree'⟩
    obtain ⟨b, hb, rfl⟩ := List.mem_map.mp (hx.mem R)
    rw [nextBlock_eq R hb] at hnext hfree'
    obtain ⟨c, hc, haddr⟩ := List.mem_map.mp (hnext.mem R)
    obtain ⟨l, r, rfl⟩ := List.append_of_mem hb
    rw [← haddr] at hfree'
    have hcb := (R.shape.tiles.bounds hc).2
    rcases R.shape.tiles.follow with ⟨_, hstop⟩ | ⟨d, r', rfl, hd⟩
    · simp only [Block.stop, headerBytes] at hcb hstop haddr
      omega
    · obtain rfl := R.shape.tiles.addr_inj hc (by simp) (haddr.trans hd.symm)
      have hstart := ((coalesced_middle.mp hbs).2.2 ((free_flag R hb).mp hfree)).2
      have htaken := hstart c rfl
      rw [(free_flag R hc).mp hfree'] at htaken
      cases htaken
  · intro hno
    refine List.isChain_iff_forall_rel_of_append_cons_cons.mpr ?_
    rintro b c l r hbs
    subst hbs
    intro hb
    rw [← Bool.not_eq_true]
    intro hc
    have hbm : b ∈ l ++ b :: c :: r := by simp
    have hcm : c ∈ l ++ b :: c :: r := by simp
    have hnext : nextBlock h b.addr = c.addr :=
      (nextBlock_eq R hbm).trans (tiles_join R.shape.tiles).1.symm
    refine hno b.addr ((blockAt_iff R).mpr (mem_addrs hbm)) ?_ ⟨(free_flag R hbm).mpr hb, ?_⟩
    · rw [hnext]
      exact (blockAt_iff R).mpr (mem_addrs hcm)
    · rw [hnext]
      exact (free_flag R hcm).mpr hc

end Walk

-- a shrinking `krealloc` that splits a remainder off in front of a free block
def Call.Strands (h : Heap) : Call → Prop
  | krealloc ptr size => ptr ≠ 0 ∧ size ≠ 0 ∧
      headerBytes + minBlockSize + alignSize size ≤ h.size (getBlockFromPayload ptr) ∧
      nextBlock h (getBlockFromPayload ptr) < h.heapEnd ∧
      h.isFree (nextBlock h (getBlockFromPayload ptr)) ≠ 0
  | _ => False

section Coalesce

variable {h h' : Heap} {bs bs' l r : List Block} {b d : Block} {c : Call} {w w' : World}
  {mmap : List MapEntry} {size : Nat}

theorem strands_iff (R : Rep h (l ++ b :: r)) (hsize : size ≠ 0) {gap : List Block}
    (hs : Split (alignSize size) b d gap) :
    Call.Strands h (.krealloc b.payload size) ↔ ¬ (gap = [] ∨ StartsTaken r) := by
  have hb : b ∈ l ++ b :: r := by simp
  have hp := (taken_payload R hb).2
  simp only [Call.Strands, getBlockFromPayload_eq R hb, (R.shape.header b hb).size,
    nextBlock_eq R hb]
  constructor
  · rintro ⟨_, _, hroom, hend, hfree⟩ (hgap | hstart)
    · cases hs with
      | whole _ hsmall => omega
      | carve _ => cases hgap
    · rcases R.shape.tiles.follow with ⟨_, hstop⟩ | ⟨c, r', rfl, hc⟩
      · exact absurd hstop (Nat.ne_of_lt hend)
      · have htaken := hstart c rfl
        rw [← hc] at hfree
        rw [(free_flag R (by simp)).mp hfree] at htaken
        cases htaken
  · intro hnot
    obtain ⟨hgap, hstart⟩ := not_or.mp hnot
    obtain ⟨c, hc⟩ : ∃ c, c ∈ r.head? ∧ c.free = true := by
      by_contra hnone
      refine hstart fun x hx => ?_
      rw [← Bool.not_eq_true]
      exact fun hfree => hnone ⟨x, hx, hfree⟩
    obtain ⟨r', rfl⟩ := List.head?_eq_some_iff.mp hc.1
    have hcm : c ∈ l ++ b :: c :: r' := by simp
    have haddr := (tiles_join R.shape.tiles).1
    have hbounds := R.shape.tiles.bounds hcm
    refine ⟨hp, hsize, ?_, ?_, ?_⟩
    · cases hs with
      | whole _ _ => exact absurd rfl hgap
      | carve hroom => exact hroom
    · simp only [Block.stop, headerBytes] at hbounds haddr ⊢
      omega
    · rw [← haddr]
      exact (free_flag R hcm).mpr hc.2

theorem Change.coalesced (R : Rep h bs) (hc : Change c bs bs') (hbs : Coalesced bs)
    (hno : ¬ c.Strands h) : Coalesced bs' := by
  cases hc with
  | none _ => exact hbs
  | take ht => exact ht.coalesced hbs
  | shrink hcall hsize hb hs =>
    subst hcall
    exact (shrink_coalesced hs hb hbs).mpr (not_not.mp (mt (strands_iff R hsize hs).mpr hno))
  | release hr => exact hr.coalesced hbs
  | move ht hr => exact hr.coalesced (ht.coalesced hbs)

structure Settled (h₀ : Heap) (w : World) : Prop where
  joined : ∃ bs own, Tenancy w.heap bs own w.live ∧ Coalesced bs
  start : w.heap.heapStart = h₀.heapStart
  stop : w.heap.heapEnd = h₀.heapEnd

def Coalescing (w : World) (c : Call) : Prop := Allowed w c ∧ ¬ c.Strands w.heap

theorem step_settled {h₀ : Heap} (hw : Settled h₀ w) (hc : Coalescing w c) :
    ∃ w', w.step c = some w' ∧ Settled h₀ w' := by
  obtain ⟨bs, own, T, hbs⟩ := hw.joined
  obtain ⟨p, h', bs', own', hcall, o⟩ := call_outcome T hc.1.1 hc.1.2
  refine ⟨⟨h', c.after p w.live⟩, ?_, ⟨bs', own', o.tenancy, o.change.coalesced T.rep hbs hc.2⟩,
    o.start.trans hw.start, o.stop.trans hw.stop⟩
  rw [World.step, hcall]
  rfl

theorem strands_krealloc : ∀ {c : Call}, c.Strands h → ∃ ptr size, c = .krealloc ptr size
  | .krealloc ptr size, _ => ⟨ptr, size, rfl⟩

theorem shrink_strands {h₀ : Heap} (hw : Settled h₀ w) (hc : Allowed w c) (hs : c.Strands w.heap) :
    ∃ w', w.step c = some w' ∧ ¬ NoAdjacentFree w'.heap := by
  obtain ⟨bs, own, T, hbs⟩ := hw.joined
  obtain ⟨ptr, size, rfl⟩ := strands_krealloc hs
  have ⟨hptr, hsize, hroom, _⟩ := hs
  obtain ⟨b, _, _, hb, htaken, hholds, _⟩ := T.find (hc.1.2.resolve_left hptr)
  obtain rfl : ptr = b.payload := hholds
  rw [getBlockFromPayload_eq T.rep hb, (T.rep.shape.header b hb).size] at hroom
  obtain ⟨l, r, rfl⟩ := List.append_of_mem hb
  obtain ⟨h', d, gap, hcall, o⟩ := krealloc_shrink T.rep htaken hsize (by omega)
  refine ⟨_, by rw [World.step, Call.exec, hcall, Option.map_some], ?_⟩
  have hnot := (strands_iff T.rep hsize o.split).mp hs
  rw [← coalesced_iff o.rep]
  exact fun h => hnot ((shrink_coalesced o.split htaken hbs).mp h)

structure OneFreeBlock (h h₀ : Heap) : Prop where
  start : h.heapStart = h₀.heapStart
  stop : h.heapEnd = h₀.heapEnd
  freeList : h.freeList = h₀.freeList
  used : h.usedHeapSize = h₀.usedHeapSize
  header : h.header h₀.heapStart = h₀.header h₀.heapStart
  only : ∀ x, BlockAt h x ↔ x = h₀.heapStart

theorem all_free (hbs : Coalesced bs) (hnone : allocated bs = []) : bs.length ≤ 1 := by
  have hfree : ∀ b ∈ bs, b.free = true := by
    intro b hb
    cases hf : b.free with
    | true => rfl
    | false =>
      have hmem := mem_allocated.mpr ⟨hb, hf⟩
      rw [hnone] at hmem
      cases hmem
  match bs, hbs with
  | [], _ => exact Nat.zero_le 1
  | [_], _ => exact le_rfl
  | b :: c :: r, hbs =>
    have hstart := (coalesced_cons.mp hbs).2 (hfree b (by simp))
    have hc := hstart c rfl
    rw [hfree c (by simp)] at hc
    cases hc

theorem single_header (R : Rep h [b]) (hb : b.free = true) :
    h.heapStart = b.addr ∧ h.heapEnd = b.stop ∧ h.freeList = b.addr ∧ h.usedHeapSize = 0 ∧
      h.header b.addr =
        { magic := heapMagic, size := b.size, isFree := 1, next := 0, prev := 0 } := by
  have s := R.shape
  have hk := s.header b List.mem_cons_self
  have hlist : freeAddrs [b] = [b.addr] := by rw [freeAddrs_free hb, freeAddrs_nil]
  have hused : usedBytes [b] = 0 := by rw [usedBytes_eq, allocated_free hb]; rfl
  have hlinked := s.linked
  rw [hlist] at hlinked
  obtain ⟨hhead, hprev, hnext, _⟩ := hlinked
  refine ⟨s.tiles.1.symm, s.tiles.2.symm, hhead, R.used.trans hused, ?_⟩
  have hfree := hk.isFree
  rw [hb] at hfree
  have hprev : h.prev b.addr = 0 := hprev
  have hnext : h.next b.addr = 0 := hnext
  simp only [Heap.header, hk.magic, hk.size, hfree, hprev, hnext, if_true]

theorem settled_empty (hr : Region mmap) (mem : Mem) (hw : Settled (kmallocInit mmap mem) w)
    (hlive : w.live = []) : OneFreeBlock w.heap (kmallocInit mmap mem) := by
  obtain ⟨bs, own, T, hbs⟩ := hw.joined
  have hown : own = [] := List.map_eq_nil_iff.mp (hlive ▸ T.live).eq_nil
  have hnone : allocated bs = [] := by
    have hblocks := T.blocks
    rw [hown] at hblocks
    exact hblocks.symm.eq_nil
  have hone := all_free hbs hnone
  have R₀ := kmallocInit_spec hr mem
  obtain ⟨hstart₀, hstop₀, hlist₀, hused₀, hhead₀⟩ := single_header R₀ rfl
  match bs, hone with
  | [], _ =>
    have hempty : w.heap.heapStart = w.heap.heapEnd := T.rep.shape.tiles
    rw [hw.start, hw.stop, hstart₀, hstop₀] at hempty
    simp only [Block.stop, headerBytes] at hempty
    omega
  | [b], _ =>
    have hb : b.free = true := by
      cases hf : b.free with
      | true => rfl
      | false => rw [allocated_taken hf] at hnone; cases hnone
    obtain ⟨hstart, hstop, hlist, hused, hhead⟩ := single_header T.rep hb
    have haddr : b.addr = (firstBlock (heapBase mmap % 2 ^ 32)).addr :=
      hstart.symm.trans (hw.start.trans hstart₀)
    have hsize : b.size = (firstBlock (heapBase mmap % 2 ^ 32)).size := by
      have hends := hstop.symm.trans (hw.stop.trans hstop₀)
      simp only [Block.stop, haddr] at hends
      omega
    refine ⟨hw.start, hw.stop, ?_, hused.trans hused₀.symm, ?_, ?_⟩
    · rw [hlist, hlist₀, haddr]
    · rw [hstart₀, hhead₀, ← haddr, hhead, hsize]
    · intro x
      rw [blockAt_iff T.rep, hstart₀, ← haddr]
      exact List.mem_singleton

theorem freed_memory_coalesces (mem : Mem) (hr : Region mmap) (cs : List Call)
    (hok : Run.Along World.step Coalescing (World.start mmap mem) cs) :
    ∃ w, Run.run World.step (World.start mmap mem) cs = some w ∧ NoAdjacentFree w.heap ∧
      (w.live = [] → OneFreeBlock w.heap (kmallocInit mmap mem)) := by
  have hfirst : Coalesced [firstBlock (heapBase mmap % 2 ^ 32)] := List.isChain_singleton _
  obtain ⟨w, hrun, hw⟩ := Run.run_total (fun _ _ hw hc => step_settled hw hc) cs _
    (⟨⟨_, _, start_tenancy hr mem, hfirst⟩, rfl, rfl⟩ :
      Settled (kmallocInit mmap mem) (World.start mmap mem)) hok
  refine ⟨w, hrun, ?_, settled_empty hr mem hw⟩
  obtain ⟨bs, own, T, hbs⟩ := hw.joined
  exact (coalesced_iff T.rep).mp hbs

end Coalesce

section Stranded

theorem noMap_region : Region [] := by decide

private theorem fits_word : 200 < 2 ^ 32 := by decide

private def shrinkCalls : List Call := [.kmalloc 200, .krealloc 0x900014 100]

def giveBackCalls : List Call := [.kmalloc 200, .kfree 0x900014]

theorem shrink_leaves_neighbours :
    Run.Along World.step Allowed (World.start [] fun _ => 0) shrinkCalls ∧
      ∃ w, Run.run World.step (World.start [] fun _ => 0) shrinkCalls = some w ∧
        ¬ NoAdjacentFree w.heap := by
  obtain ⟨h₁, c, hstep, hc, R₁⟩ :=
    first_step noMap_region (fun _ => 0) (by decide : 200 ≠ 0) (by decide)
  obtain ⟨w₁, hstep', hw₁⟩ := step_settled
    (⟨⟨_, _, start_tenancy noMap_region fun _ => 0, List.isChain_singleton _⟩, rfl, rfl⟩ :
      Settled (kmallocInit [] fun _ => 0) (World.start [] fun _ => 0))
    (⟨⟨fits_word, trivial⟩, id⟩ : Coalescing _ (.kmalloc 200))
  obtain rfl : ⟨h₁, [.plain 0x900014]⟩ = w₁ := Option.some.inj (hstep.symm.trans hstep')
  have hallowed : Allowed ⟨h₁, [.plain 0x900014]⟩ (.krealloc 0x900014 100) :=
    ⟨⟨by decide, Or.inr List.mem_cons_self⟩, trivial⟩
  have hstrands : Call.Strands h₁ (.krealloc 0x900014 100) := by
    subst hc
    refine (strands_iff (l := []) R₁ (by decide) (.carve (by decide))).mpr ?_
    rintro (hgap | hstart)
    · cases hgap
    · cases hstart _ rfl
  obtain ⟨w₂, hstep₂, hno⟩ := shrink_strands hw₁ hallowed hstrands
  refine ⟨⟨⟨fits_word, trivial⟩, ?_⟩, w₂, ?_, hno⟩
  · intro w hw
    obtain rfl := Option.some.inj (hstep.symm.trans hw)
    exact ⟨hallowed, fun _ _ => trivial⟩
  · exact Run.run_cons_some.mpr ⟨_, hstep, Run.run_cons_some.mpr ⟨_, hstep₂, rfl⟩⟩

theorem giveBack_coalescing : Run.Along World.step Coalescing (World.start [] fun _ => 0)
    giveBackCalls := by
  obtain ⟨h₁, c, hstep, _, _⟩ :=
    first_step noMap_region (fun _ => 0) (by decide : 200 ≠ 0) (by decide)
  refine ⟨⟨⟨fits_word, trivial⟩, id⟩, ?_⟩
  intro w hw
  obtain rfl := Option.some.inj (hstep.symm.trans hw)
  exact ⟨⟨⟨Or.inr List.mem_cons_self, trivial⟩, id⟩, fun _ _ => trivial⟩

theorem freed_memory_coalesces_pair :
    ∃ w, Run.run World.step (World.start [] fun _ => 0) giveBackCalls = some w ∧
      NoAdjacentFree w.heap ∧
      (w.live = [] → OneFreeBlock w.heap (kmallocInit [] fun _ => 0)) :=
  freed_memory_coalesces (fun _ => 0) noMap_region giveBackCalls giveBack_coalescing

theorem giveBack_allowed : Run.Along World.step Allowed (World.start [] fun _ => 0) giveBackCalls :=
  Run.along_mono (fun _ _ hc => hc.1) giveBackCalls _ giveBack_coalescing

end Stranded

end HouseOS.Mm
