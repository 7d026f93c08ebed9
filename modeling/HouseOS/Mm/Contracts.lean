import HouseOS.Mm.Fragments

namespace HouseOS.Mm

open HouseOS.ByteMem
open HouseOS.Word
open Heap

def Apart (h : Heap) (g g' : Live) : Prop :=
  g.ptr + g.bytes h ≤ g'.ptr ∨ g'.ptr + g'.bytes h ≤ g.ptr

structure Represented (w : World) : Prop where
  blocks : ∃ bs, Rep w.heap bs ∧ ∀ g ∈ w.live, ∃ b ∈ bs, b.free = false ∧
    b.payload ≤ g.ptr ∧ g.ptr + g.bytes w.heap ≤ b.stop
  apart : w.live.Pairwise (Apart w.heap)

def Undisturbed (w : World) (c : Call) : Prop :=
  ∃ p h', c.exec w.heap = some (p, h') ∧ ∀ g ∈ w.live, ¬ c.Targets w.heap g →
    g ∈ c.after p w.live ∧ g.bytes h' = g.bytes w.heap ∧
      ∀ i < g.bytes w.heap, h'.mem (g.ptr + i) = w.heap.mem (g.ptr + i)

section Represent

variable {h h' : Heap} {bs bs' : List Block} {own own' : List (Live × Block)} {live : List Live}
  {c : Call} {p : Nat} {g : Live} {b : Block} {w : World} {mmap : List MapEntry}

theorem Tenancy.mem (T : Tenancy h bs own live) {e : Live × Block} (he : e ∈ own) :
    e.1 ∈ live ∧ e.2 ∈ bs ∧ e.2.free = false := by
  have hb := mem_allocated.mp (T.blocks.mem_iff.mp (List.mem_map_of_mem he))
  exact ⟨T.live.mem_iff.mp (List.mem_map_of_mem he), hb⟩

theorem Tenancy.owner (T : Tenancy h bs own live) (hg : g ∈ live) : ∃ b, (g, b) ∈ own := by
  obtain ⟨⟨_, b⟩, he, rfl⟩ := List.mem_map.mp (T.live.mem_iff.mpr hg)
  exact ⟨b, he⟩

theorem holds_apart (T : Tenancy h bs own live) {e e' : Live × Block} (he : e ∈ own) (he' : e' ∈ own)
    (hne : e.2 ≠ e'.2) : Apart h e.1 e'.1 := by
  have hb := live_bytes T.rep (T.mem he).2.1 (T.holds e he)
  have hb' := live_bytes T.rep (T.mem he').2.1 (T.holds e' he')
  have hapart := (T.rep.shape.tiles.apart (T.mem he).2.1 (T.mem he').2.1).resolve_left hne
  simp only [Block.payload, Apart] at *
  omega

theorem Tenancy.represented (T : Tenancy w.heap bs own w.live) : Represented w where
  blocks := by
    refine ⟨bs, T.rep, ?_⟩
    intro g hg
    obtain ⟨b, he⟩ := T.owner hg
    obtain ⟨_, hb, htaken⟩ := T.mem he
    exact ⟨b, hb, htaken, live_bytes T.rep hb (T.holds _ he)⟩
  apart := by
    have hnd : (own.map Prod.snd).Nodup :=
      T.blocks.nodup_iff.mpr (T.rep.shape.tiles.nodup.filter _)
    have hown : (own.map Prod.fst).Pairwise (Apart w.heap) := by
      refine List.pairwise_map.mpr (List.Pairwise.imp_of_mem ?_ (List.pairwise_map.mp hnd))
      exact fun he he' hne => holds_apart T he he' hne
    have hsymm : ∀ {g g' : Live}, Apart w.heap g g' → Apart w.heap g' g := fun h => h.symm
    exact (T.live.pairwise_iff hsymm).mp hown

theorem Outcome.undisturbed (T : Tenancy h bs own live) (o : Outcome h bs own live c p h' bs' own')
    (hg : g ∈ live) (hnot : ¬ c.Targets h g) : g ∈ c.after p live ∧ g.bytes h' = g.bytes h ∧
      ∀ i < g.bytes h, h'.mem (g.ptr + i) = h.mem (g.ptr + i) := by
  obtain ⟨b, he⟩ := T.owner hg
  obtain ⟨he', k⟩ := o.kept _ he hnot
  have T' := o.tenancy
  obtain ⟨_, hb, _⟩ := T.mem he
  obtain ⟨hg', hb', _⟩ := T'.mem he'
  have ⟨hlow, hhigh⟩ : b.payload ≤ g.ptr ∧ g.ptr + g.bytes h ≤ b.stop :=
    live_bytes T.rep hb (T.holds _ he)
  refine ⟨hg', ?_, fun i hi => k.bytes b List.mem_cons_self _ (by omega) (by omega)⟩
  cases g with
  | plain p =>
    obtain rfl : p = b.payload := T.holds _ he
    rw [Live.bytes, Live.bytes, getBlockFromPayload_eq T.rep hb, (T.rep.shape.header b hb).size,
      (T'.rep.shape.header b hb').size]
  | aligned p size => rfl

theorem heap_stays_represented (mem : Mem) (hr : Region mmap) (cs : List Call)
    (hok : Run.Along World.step Allowed (World.start mmap mem) cs) :
    ∃ w, Run.run World.step (World.start mmap mem) cs = some w ∧ Represented w ∧
      ∀ c, Allowed w c → Undisturbed w c := by
  obtain ⟨w, hrun, bs, own, T⟩ := run_housed hr mem cs hok
  refine ⟨w, hrun, T.represented, ?_⟩
  intro c hc
  obtain ⟨p, h', bs', own', hcall, o⟩ := call_outcome T hc.1 hc.2
  exact ⟨p, h', hcall, fun g hg hnot => o.undisturbed T hg hnot⟩

theorem heap_stays_represented_pair :
    ∃ w, Run.run World.step (World.start [] fun _ => 0) giveBackCalls = some w ∧ Represented w ∧
      ∀ c, Allowed w c → Undisturbed w c :=
  heap_stays_represented (fun _ => 0) noMap_region giveBackCalls giveBack_allowed

end Represent

section Wipe

variable {mmap : List MapEntry} {num size n p a : Nat}

theorem alignSize_wraps (hn : n = 2 ^ 32 - 1) : alignSize n = 0 := by
  rw [alignSize_eq]
  omega

theorem wipe_fills (hn : n = 2 ^ 32 - 1) (hp' : p < 2 ^ 32) (ha : a + 4 < p) (m : Mem) :
    load32 (fill m p 0 n) a = 0 := by
  have hzero : ∀ x, x + 1 < p → fill m p 0 n x = 0 := by
    intro x hx
    exact fill_wrap 0 n m p x (by omega) ⟨x + 2 ^ 32 - p, by omega, by omega⟩
  simp only [load32, hzero a (by omega), hzero (a + 1) (by omega), hzero (a + 2) (by omega),
    hzero (a + 3) (by omega)]
  rfl

-- a product of `SIZE_MAX` passes the overflow check, and rounding it up gives 0
theorem kcalloc_wipes (hr : Region mmap) (mem : Mem) (hn : num * size = 2 ^ 32 - 1) :
    ∃ w, (World.start mmap mem).step (.kcalloc num size) = some w ∧ ¬ Represented w := by
  have hzero := alignSize_wraps hn
  obtain ⟨h', c, hcall, hc, R'⟩ :=
    first_kmalloc hr mem (by omega : num * size ≠ 0) (by rw [hzero]; decide)
  have hp : firstPayload mmap < 2 ^ 32 := by
    have hlt := hr.2
    simp only [firstPayload, wantedSize, headerBytes] at hlt ⊢
    omega
  have heq := kcalloc_eq (by omega) hcall
  rw [if_pos (by simp only [firstPayload, headerBytes]; omega)] at heq
  have hstart : h'.heapStart = heapBase mmap % 2 ^ 32 := by
    have hfirst : c.addr = h'.heapStart := R'.shape.tiles.1
    rw [← hfirst, hc]
    rfl
  have hwiped := wipe_fills (a := heapBase mmap % 2 ^ 32) hn hp
    (by simp only [firstPayload, headerBytes]; omega) h'.mem
  generalize fill h'.mem (firstPayload mmap) 0 (num * size) = m at heq hwiped
  refine ⟨⟨{ h' with mem := m }, Call.after (.kcalloc num size) (firstPayload mmap) []⟩, ?_, ?_⟩
  · rw [World.step, Call.exec]
    exact congrArg (Option.map _) heq
  · intro hrep
    obtain ⟨bs, R, _⟩ := hrep.blocks
    have hroom : h'.heapStart < h'.heapEnd := by
      have hle := R'.shape.tiles.le
      simp only [headerBytes, List.length_cons, List.length_nil] at hle
      omega
    have hmem : h'.heapStart ∈ addrs bs := BlockAt.mem R (.first hroom)
    obtain ⟨b, hb, haddr⟩ := List.mem_map.mp hmem
    have hmagic : load32 m b.addr = heapMagic := (R.shape.header b hb).magic
    rw [haddr, hstart, hwiped] at hmagic
    exact absurd hmagic (by decide)

theorem kcalloc_wipes_heap : Call.Legal (World.start [] fun _ => 0).heap [] (.kcalloc 65535 65537) ∧
    ∃ w, (World.start [] fun _ => 0).step (.kcalloc 65535 65537) = some w ∧ ¬ Represented w :=
  ⟨⟨by omega, by omega⟩, kcalloc_wipes noMap_region _ (by omega)⟩

end Wipe

structure Granted (h h' : Heap) (c : Call) (p : Nat) (others : List Live) : Prop where
  inside : h'.heapStart ≤ p ∧ p + c.need ≤ h'.heapEnd
  block : ∃ b, BlockAt h' b ∧ h'.isFree b = 0 ∧ b + headerBytes ≤ p ∧
    p + c.need ≤ b + headerBytes + h'.size b
  apart : ∀ g ∈ others, p + c.need ≤ g.ptr ∨ g.ptr + g.bytes h' ≤ p
  moved : ∀ ptr size, c = .krealloc ptr size → ptr ≠ 0 →
    ∀ i < min (h.size (getBlockFromPayload ptr)) size, h'.mem (p + i) = h.mem (ptr + i)

def Call.Fits : Call → Prop
  | vallocAligned size align => alignedTotal size align ≤ 2 ^ 32 - 8
  | c => c.need ≤ 2 ^ 32 - 8

section Grant

variable {h h' : Heap} {bs bs' : List Block} {own own' keep : List (Live × Block)}
  {live : List Live} {c : Call} {p size : Nat} {g : Live} {b d : Block} {w : World}
  {mmap : List MapEntry}

theorem fits_room (hl : c.Legal h live) (hroom : c.need < 2 ^ 24 + headerBytes) : c.Fits := by
  cases c with
  | vallocAligned size align =>
    obtain ⟨_, k, hk, rfl⟩ := hl
    have hpow : 2 ^ max k 3 ≤ 2 ^ 31 := Nat.pow_le_pow_right (by decide) (by omega)
    simp only [Call.need, headerBytes] at hroom
    simp only [Call.Fits, alignedTotal, max_pow]
    omega
  | _ =>
    simp only [headerBytes] at hroom
    exact Nat.le_trans (Nat.le_of_lt hroom) (by decide)

theorem fits_sound (hfits : c.Fits) : c.Sound := by
  cases c with
  | kcalloc num size => exact Or.inl hfits
  | vallocAligned size align => exact hfits
  | _ => trivial

theorem Granted.fits {others : List Live} (R : Rep h bs) (hl : c.Legal h live)
    (hstart : h'.heapStart = h.heapStart) (hstop : h'.heapEnd = h.heapEnd)
    (hg : Granted h h' c p others) : c.Fits := by
  refine fits_room hl ?_
  obtain ⟨hlow, hhigh⟩ := hg.inside
  have hroom := R.shape.room
  simp only [listFuel] at hroom
  omega

theorem Gains.need (hgains : Gains c d) (hfits : c.Fits) (hholds : Holds h d (c.grant p)) :
    d.payload ≤ p ∧ p + c.need ≤ d.stop := by
  have hplain : alignSize c.need ≤ d.size → c.need ≤ 2 ^ 32 - 8 → p = d.payload →
      d.payload ≤ p ∧ p + c.need ≤ d.stop := by
    rintro hsize hsmall rfl
    have hle := le_alignSize hsmall
    simp only [Block.payload, Block.stop]
    omega
  cases c with
  | vallocAligned size align =>
    obtain ⟨hlow, hhigh, _⟩ := hholds
    exact ⟨Nat.le_trans (Nat.le_add_right _ 4) hlow, hhigh⟩
  | _ => exact hplain hgains hfits hholds

theorem Outcome.granted (T : Tenancy h bs own live) (o : Outcome h bs own live c p h' bs' own')
    (hl : c.Legal h live) (hp : p ≠ 0) (hfits : c.Fits) : Granted h h' c p (c.rest p live) := by
  have T' := o.tenancy
  obtain ⟨d, keep, rfl, hgains, hmoved⟩ := o.result hp
  have hdm := T'.mem (List.mem_cons_self : (c.grant p, d) ∈ (c.grant p, d) :: keep)
  have hneed := hgains.need hfits (T'.holds _ List.mem_cons_self)
  have hbounds : h'.heapStart ≤ d.addr ∧ d.stop ≤ h'.heapEnd := T'.rep.shape.tiles.bounds hdm.2.1
  have hk := T'.rep.shape.header d hdm.2.1
  have hnd : (d :: keep.map Prod.snd).Nodup :=
    T'.blocks.nodup_iff.mpr (T'.rep.shape.tiles.nodup.filter _)
  refine ⟨?_, ⟨d.addr, (blockAt_iff T'.rep).mpr (mem_addrs hdm.2.1), ?_, hneed.1, ?_⟩, ?_, ?_⟩
  · simp only [Block.payload] at hneed
    omega
  · have hfree : d.free = false := hdm.2.2
    rw [hk.isFree, hfree]
    rfl
  · rw [hk.size]
    exact hneed.2
  · intro g hg
    have hlive : (c.grant p :: keep.map Prod.fst).Perm (c.grant p :: c.rest p live) := by
      have hT := T'.live
      rwa [Call.after, if_neg hp] at hT
    obtain ⟨⟨g', e⟩, he, rfl⟩ := List.mem_map.mp (((List.perm_cons _).mp hlive).mem_iff.mpr hg)
    have hem := T'.mem (List.mem_cons_of_mem _ he)
    have hne : e ≠ d := by
      rintro rfl
      exact (List.nodup_cons.mp hnd).1 (List.mem_map_of_mem he)
    have hbytes := live_bytes T'.rep hem.2.1 (T'.holds _ (List.mem_cons_of_mem _ he))
    have hapart := (T'.rep.shape.tiles.apart hem.2.1 hdm.2.1).resolve_left hne
    simp only [Block.payload] at hneed hbytes hapart ⊢
    omega
  · rintro ptr size rfl hptr i hi
    have hsize : size ≤ d.size := Nat.le_trans (le_alignSize hfits) hgains
    obtain ⟨b, he⟩ := T.owner (hl.2.resolve_left hptr)
    obtain rfl : ptr = b.payload := T.holds _ he
    have hb := (T.mem he).2.1
    rw [getBlockFromPayload_eq T.rep hb, (T.rep.shape.header b hb).size] at hi
    exact hmoved _ size b rfl he i (by omega)

theorem exec_total (T : Tenancy h bs own live) (hl : c.Legal h live) :
    ∃ p h', c.exec h = some (p, h') ∧ h'.heapStart = h.heapStart ∧ h'.heapEnd = h.heapEnd := by
  by_cases hs : c.Sound
  · obtain ⟨p, h', _, _, hcall, o⟩ := call_outcome T hl hs
    exact ⟨p, h', hcall, o.start, o.stop⟩
  · have hk : ∀ n, ∃ p h', h.kmalloc n = some (p, h') ∧ h'.heapStart = h.heapStart ∧
        h'.heapEnd = h.heapEnd := by
      intro n
      obtain ⟨p, h', hcall, hcase⟩ := kmalloc_spec T.rep n
      rcases hcase with ⟨_, rfl, _⟩ | ⟨_, _, _, _, _, f⟩
      · exact ⟨p, h', hcall, rfl, rfl⟩
      · exact ⟨p, h', hcall, f.start, f.stop⟩
    cases c with
    | kcalloc num size =>
      obtain ⟨_, hsmall⟩ := not_or.mp hs
      obtain ⟨p, h', hcall, hstart, hstop⟩ := hk (num * size)
      refine ⟨_, _, kcalloc_eq (Nat.lt_of_not_le hsmall) hcall, ?_, ?_⟩ <;> split <;> assumption
    | vallocAligned size align =>
      rw [Call.exec, Heap.vallocAligned]
      dsimp only
      obtain ⟨raw, h', hcall, hstart, hstop⟩ :=
        hk (add32 (add32 size (if align < alignment then alignment else align)) 4)
      rw [hcall]
      dsimp only
      split
      · exact ⟨0, h', rfl, hstart, hstop⟩
      · exact ⟨_, _, rfl, hstart, hstop⟩
    | _ => exact absurd trivial hs

theorem allocation_contract (mem : Mem) (hr : Region mmap) (cs : List Call)
    (hok : Run.Along World.step Allowed (World.start mmap mem) cs) :
    ∃ w, Run.run World.step (World.start mmap mem) cs = some w ∧
      ∀ c, c.Legal w.heap w.live → ∃ p h', c.exec w.heap = some (p, h') ∧
        (p ≠ 0 → (Granted w.heap h' c p (c.rest p w.live) ↔ c.Fits)) := by
  obtain ⟨w, hrun, bs, own, T⟩ := run_housed hr mem cs hok
  refine ⟨w, hrun, ?_⟩
  intro c hl
  obtain ⟨p, h', hcall, hstart, hstop⟩ := exec_total T hl
  refine ⟨p, h', hcall, fun hp => ⟨Granted.fits T.rep hl hstart hstop, ?_⟩⟩
  intro hfits
  obtain ⟨q, h₂, _, _, hcall₂, o⟩ := call_outcome T hl (fits_sound hfits)
  obtain ⟨rfl, rfl⟩ := Prod.mk.inj (Option.some.inj (hcall.symm.trans hcall₂))
  exact o.granted T hl hp hfits

theorem allocation_contract_pair :
    ∃ w, Run.run World.step (World.start [] fun _ => 0) giveBackCalls = some w ∧
      ∀ c, c.Legal w.heap w.live → ∃ p h', c.exec w.heap = some (p, h') ∧
        (p ≠ 0 → (Granted w.heap h' c p (c.rest p w.live) ↔ c.Fits)) :=
  allocation_contract (fun _ => 0) noMap_region giveBackCalls giveBack_allowed

theorem kmalloc_wraps (hr : Region mmap) (mem : Mem) :
    Call.Legal (World.start mmap mem).heap [] (.kmalloc (2 ^ 32 - 1)) ∧
      ∃ p h', (Call.kmalloc (2 ^ 32 - 1)).exec (World.start mmap mem).heap = some (p, h') ∧ p ≠ 0 ∧
        ¬ Granted (World.start mmap mem).heap h' (.kmalloc (2 ^ 32 - 1)) p [] := by
  have hl : Call.Legal (World.start mmap mem).heap [] (.kmalloc (2 ^ 32 - 1)) :=
    Nat.sub_lt (Nat.two_pow_pos 32) Nat.one_pos
  have T := start_tenancy hr mem
  obtain ⟨h', _, hcall, _, _⟩ :=
    first_kmalloc hr mem (by omega : 2 ^ 32 - 1 ≠ 0) (by rw [alignSize_wraps rfl]; decide)
  obtain ⟨_, _, hcall', hstart, hstop⟩ := exec_total T hl
  obtain ⟨rfl, rfl⟩ := Prod.mk.inj (Option.some.inj (hcall.symm.trans hcall'))
  refine ⟨hl, _, h', hcall, by simp only [firstPayload, headerBytes]; omega, ?_⟩
  intro hg
  have hfits := Granted.fits T.rep hl hstart hstop hg
  simp only [Call.Fits, Call.need] at hfits
  omega

theorem kmalloc_wraps_low : Call.Legal (World.start [] fun _ => 0).heap [] (.kmalloc (2 ^ 32 - 1)) ∧
    ∃ p h', (Call.kmalloc (2 ^ 32 - 1)).exec (World.start [] fun _ => 0).heap = some (p, h') ∧
      p ≠ 0 ∧ ¬ Granted (World.start [] fun _ => 0).heap h' (.kmalloc (2 ^ 32 - 1)) p [] :=
  kmalloc_wraps noMap_region _

end Grant

section Vfree

variable {h h' h'' : Heap} {bs bs' l r : List Block} {own : List (Live × Block)} {live : List Live}
  {c : Call} {p n x size : Nat} {b d : Block} {w : World} {mmap : List MapEntry}

def TakenAt (h : Heap) (b n : Nat) : Prop := BlockAt h b ∧ h.isFree b = 0 ∧ h.size b = n

structure Undone (h h' h'' : Heap) (p : Nat) : Prop where
  used : h''.usedHeapSize = h.usedHeapSize
  taken : ∀ b n, TakenAt h'' b n ↔ TakenAt h b n
  kept : ∀ b n, TakenAt h b n → ∀ x, b + headerBytes ≤ x → x < b + headerBytes + n →
    h''.mem x = h.mem x
  again : ∀ b n, TakenAt h' b n → b + headerBytes ≤ p → p ≤ b + headerBytes + n →
    ¬ TakenAt h'' b n ∧ ∀ size, size ≠ 0 → alignSize size ≤ n →
      ∃ q h₃, h''.kmalloc size = some (q, h₃) ∧ q ≠ 0

theorem takenAt_iff (R : Rep h bs) : TakenAt h x n ↔ ∃ b ∈ allocated bs, b.addr = x ∧ b.size = n := by
  rw [TakenAt, blockAt_iff R]
  constructor
  · rintro ⟨hx, hfree, hsize⟩
    obtain ⟨b, hb, rfl⟩ := List.mem_map.mp hx
    refine ⟨b, mem_allocated.mpr ⟨hb, ?_⟩, rfl, (R.shape.header b hb).size.symm.trans hsize⟩
    rw [← Bool.not_eq_true]
    exact fun h => (free_flag R hb).mpr h hfree
  · rintro ⟨b, hba, rfl, rfl⟩
    obtain ⟨hb, htaken⟩ := mem_allocated.mp hba
    have hk := R.shape.header b hb
    refine ⟨mem_addrs hb, ?_, hk.size⟩
    rw [hk.isFree, htaken]
    rfl

theorem kmalloc_room (R : Rep h bs) (hb : b ∈ bs) (hfree : b.free = true) (hsize : size ≠ 0)
    (hfit : alignSize size ≤ b.size) : ∃ q h', h.kmalloc size = some (q, h') ∧ q ≠ 0 := by
  obtain ⟨q, h', hcall, hcase⟩ := kmalloc_spec R size
  refine ⟨q, h', hcall, ?_⟩
  rcases hcase with ⟨_, _, hnone⟩ | ⟨bs', c, rfl, ht, R', _⟩
  · exact absurd ((hnone.resolve_left hsize) b hb hfree) (Nat.not_lt.mpr hfit)
  · exact (taken_payload R' ht.mem).2

theorem vfree_aligned_undoes (R : Rep h bs) (R' : Rep h' (l ++ d :: r))
    (ht : Takes n bs d (l ++ d :: r)) (hkept : Kept h h' (allocated bs))
    (hlow : d.payload + 4 ≤ p) (hhigh : p ≤ d.stop) (hraw : load32 h'.mem (p - 4) = d.payload) :
    ∃ h'', h'.vfree p = some h'' ∧ Undone h h' h'' p := by
  obtain ⟨h'', bs'', e, hcall, R'', hrel, f⟩ := vfree_placed R' ht.taken hlow hhigh hraw
  have hdm : d ∈ l ++ d :: r := by simp
  have hperm : (allocated bs'').Perm (allocated bs) :=
    (List.perm_cons d).mp (hrel.perm.symm.trans ht.perm)
  have hnd : (d :: allocated bs'').Nodup :=
    hrel.perm.nodup_iff.mp (R'.shape.tiles.nodup.filter _)
  have htaken : ∀ b n, TakenAt h'' b n ↔ TakenAt h b n := by
    intro b n
    rw [takenAt_iff R, takenAt_iff R'']
    simp only [hperm.mem_iff]
  refine ⟨h'', hcall, ?_, htaken, ?_, ?_⟩
  · rw [R''.used, R.used, usedBytes_eq, usedBytes_eq, (hperm.map Block.total).sum_eq]
  · intro b n hb x hlow hhigh
    obtain ⟨a, ha, rfl, rfl⟩ := (takenAt_iff R).mp hb
    exact (f.kept.bytes a (hperm.mem_iff.mpr ha) x hlow hhigh).trans
      (hkept.bytes a ha x hlow hhigh)
  · intro b n hb hfirst hlast
    obtain ⟨a, ha, rfl, rfl⟩ := (takenAt_iff R').mp hb
    have ham := (mem_allocated.mp ha).1
    obtain rfl : a = d := by
      rcases R'.shape.tiles.apart ham hdm with had | had | had
      · exact had
      · simp only [Block.payload, Block.stop] at *
        omega
      · simp only [Block.payload, Block.stop, headerBytes] at *
        omega
    obtain ⟨headdr, hestop⟩ := hrel.covers R'.shape.tiles
    refine ⟨?_, ?_⟩
    · intro hstill
      obtain ⟨b', hb', haddr, _⟩ := (takenAt_iff R'').mp hstill
      have hb'm := mem_allocated.mp (hrel.perm.mem_iff.mpr (List.mem_cons_of_mem a hb'))
      obtain rfl := R'.shape.tiles.addr_inj hb'm.1 ham haddr
      exact (List.nodup_cons.mp hnd).1 hb'
    · intro size hsize hfit
      refine kmalloc_room R'' hrel.mem.1 hrel.mem.2 hsize ?_
      simp only [Block.stop] at hestop
      omega

theorem valloc_stays (R : Rep h bs) (R' : Rep h' bs') (ht : Takes n bs d bs') :
    h'.vfree d.payload = some h' ∧ ¬ Undone h h' h' d.payload := by
  refine ⟨vfree_valloc R' ht.mem ht.taken, ?_⟩
  intro hu
  have hused := hu.used
  rw [R'.used, R.used, usedBytes_perm ht.perm, Block.total, headerBytes] at hused
  omega

inductive Call.Valloc : Call → Prop
  | plain (size : Nat) : Valloc (.valloc size)
  | aligned (size align : Nat) : Valloc (.vallocAligned size align)

def Call.IsAligned : Call → Prop
  | vallocAligned _ _ => True
  | _ => False

theorem vfree_undoes_aligned (mem : Mem) (hr : Region mmap) (cs : List Call)
    (hok : Run.Along World.step Allowed (World.start mmap mem) cs) :
    ∃ w, Run.run World.step (World.start mmap mem) cs = some w ∧
      ∀ c, c.Valloc → Allowed w c → ∃ p h', c.exec w.heap = some (p, h') ∧
        (p ≠ 0 → ∃ h'', h'.vfree p = some h'' ∧ (Undone w.heap h' h'' p ↔ c.IsAligned)) := by
  obtain ⟨w, hrun, bs, own, T⟩ := run_housed hr mem cs hok
  refine ⟨w, hrun, ?_⟩
  rintro c hv ⟨hl, hs⟩
  cases hv with
  | plain size =>
    obtain ⟨p, h', hcall, hcase⟩ := kmalloc_spec T.rep size
    refine ⟨p, h', hcall, fun hp => ?_⟩
    obtain ⟨bs', d, rfl, ht, R', _⟩ := hcase.resolve_left fun h0 => hp h0.1
    obtain ⟨hfree, hnot⟩ := valloc_stays T.rep R' ht
    exact ⟨h', hfree, fun hu => absurd hu hnot, fun h => h.elim⟩
  | aligned size align =>
    obtain ⟨_, k, hk, rfl⟩ := hl
    obtain ⟨p, h', hcall, hcase⟩ := vallocAligned_spec T.rep hk hs
    refine ⟨p, h', hcall, fun hp => ?_⟩
    obtain ⟨bs', d, hplaced, ht, R', hkept⟩ := hcase.resolve_left fun h0 => hp h0.1
    obtain ⟨l, r, rfl⟩ := List.append_of_mem ht.mem
    have hbelow := hplaced.below
    obtain ⟨h'', hfree, hu⟩ :=
      vfree_aligned_undoes T.rep R' ht hkept hplaced.above (by omega) hplaced.raw
    exact ⟨h'', hfree, fun _ => trivial, fun _ => hu⟩

theorem vfree_undoes_aligned_pair :
    ∃ w, Run.run World.step (World.start [] fun _ => 0) giveBackCalls = some w ∧
      ∀ c, c.Valloc → Allowed w c → ∃ p h', c.exec w.heap = some (p, h') ∧
        (p ≠ 0 → ∃ h'', h'.vfree p = some h'' ∧ (Undone w.heap h' h'' p ↔ c.IsAligned)) :=
  vfree_undoes_aligned (fun _ => 0) noMap_region giveBackCalls giveBack_allowed

theorem valloc_leaks : Call.Legal (World.start [] fun _ => 0).heap [] (.valloc 64) ∧
    ∃ p h' h'', (Call.valloc 64).exec (World.start [] fun _ => 0).heap = some (p, h') ∧ p ≠ 0 ∧
      h'.vfree p = some h'' ∧ ¬ Undone (World.start [] fun _ => 0).heap h' h'' p := by
  have R := kmallocInit_spec noMap_region fun _ => 0
  refine ⟨(by omega : 64 < 2 ^ 32), ?_⟩
  obtain ⟨p, h', hcall, hcase⟩ := kmalloc_spec R 64
  rcases hcase with ⟨_, _, hnone⟩ | ⟨bs', d, rfl, ht, R', _⟩
  · have hsmall := (hnone.resolve_left (by decide)) _ List.mem_cons_self rfl
    exact absurd hsmall (by decide)
  · obtain ⟨hfree, hnot⟩ := valloc_stays R R' ht
    exact ⟨_, h', h', hcall, (taken_payload R' ht.mem).2, hfree, hnot⟩

end Vfree

end HouseOS.Mm
