import HouseOS.Library.Run
import HouseOS.Mm.Payload

namespace HouseOS.Mm

open HouseOS.ByteMem
open HouseOS.Word
open Heap

inductive Live where
  | plain (ptr : Nat)
  | aligned (ptr size : Nat)
deriving DecidableEq

namespace Live

def ptr : Live → Nat
  | plain p => p
  | aligned p _ => p

def bytes (h : Heap) : Live → Nat
  | plain p => h.size (getBlockFromPayload p)
  | aligned _ size => size

def alignedAt (p : Nat) : Live → Bool
  | plain _ => false
  | aligned q _ => q = p

end Live

inductive Call where
  | kmalloc (size : Nat)
  | kcalloc (num size : Nat)
  | krealloc (ptr size : Nat)
  | kfree (ptr : Nat)
  | valloc (size : Nat)
  | vallocAligned (size align : Nat)
  | vfree (ptr : Nat)
  | store (a : Nat) (v : UInt8)

structure World where
  heap : Heap
  live : List Live

namespace Call

def exec (h : Heap) : Call → Option (Nat × Heap)
  | kmalloc size => h.kmalloc size
  | kcalloc num size => h.kcalloc num size
  | krealloc ptr size => h.krealloc ptr size
  | kfree ptr => (h.kfree ptr).map fun h => (0, h)
  | valloc size => h.valloc size
  | vallocAligned size align => h.vallocAligned size align
  | vfree ptr => (h.vfree ptr).map fun h => (0, h)
  | store a v => some (0, { h with mem := store8 h.mem a v })

def grant (p : Nat) : Call → Live
  | vallocAligned size _ => .aligned p size
  | _ => .plain p

-- a pointer from `valloc` survives `vfree`: its block stays taken
def rest (p : Nat) (live : List Live) : Call → List Live
  | krealloc ptr size => if size = 0 ∨ p ≠ 0 then live.erase (.plain ptr) else live
  | kfree ptr => live.erase (.plain ptr)
  | vfree ptr => live.eraseP (Live.alignedAt ptr)
  | _ => live

def after (c : Call) (p : Nat) (live : List Live) : List Live :=
  if p = 0 then c.rest p live else c.grant p :: c.rest p live

def Legal (h : Heap) (live : List Live) : Call → Prop
  | kmalloc size => size < 2 ^ 32
  | kcalloc num size => num < 2 ^ 32 ∧ size < 2 ^ 32
  | krealloc ptr size => size < 2 ^ 32 ∧ (ptr = 0 ∨ .plain ptr ∈ live)
  | kfree ptr => ptr = 0 ∨ .plain ptr ∈ live
  | valloc size => size < 2 ^ 32
  | vallocAligned size align => size < 2 ^ 32 ∧ ∃ k < 32, align = 2 ^ k
  | vfree ptr => ptr = 0 ∨ .plain ptr ∈ live ∨ ∃ size, .aligned ptr size ∈ live
  | store a _ => ∃ g ∈ live, g.ptr ≤ a ∧ a < g.ptr + g.bytes h

-- the sums and products behind a request do not wrap unseen
def Sound : Call → Prop
  | kcalloc num size => num * size ≤ 2 ^ 32 - 8 ∨ 2 ^ 32 ≤ num * size
  | vallocAligned size align => alignedTotal size align ≤ 2 ^ 32 - 8
  | _ => True

def Targets (h : Heap) (g : Live) : Call → Prop
  | krealloc ptr _ => g = .plain ptr
  | kfree ptr => g = .plain ptr
  | vfree ptr => g.ptr = ptr
  | store a _ => g.ptr ≤ a ∧ a < g.ptr + g.bytes h
  | _ => False

def need : Call → Nat
  | kmalloc size => size
  | kcalloc num size => num * size
  | krealloc _ size => size
  | valloc size => size
  | vallocAligned size _ => size
  | _ => 0

end Call

def World.step (w : World) (c : Call) : Option World :=
  (c.exec w.heap).map fun (p, h) => ⟨h, c.after p w.live⟩

def World.start (mmap : List MapEntry) (mem : Mem) : World := ⟨kmallocInit mmap mem, []⟩

inductive Change (c : Call) : List Block → List Block → Prop
  | none (bs : List Block) : Change c bs bs
  | take {bs bs' : List Block} {d : Block} {n : Nat} (ht : Takes n bs d bs') : Change c bs bs'
  | shrink {l r gap : List Block} {b d : Block} {size : Nat} (hc : c = .krealloc b.payload size)
      (hsize : size ≠ 0) (hb : b.free = false) (hs : Split (alignSize size) b d gap) :
      Change c (l ++ b :: r) (l ++ d :: (gap ++ r))
  | release {l r bs' : List Block} {b d : Block} (hr : Releases l b r bs' d) :
      Change c (l ++ b :: r) bs'
  | move {bs l r bs' : List Block} {b d e : Block} {n : Nat} (ht : Takes n bs d (l ++ b :: r))
      (hr : Releases l b r bs' e) : Change c bs bs'

def Holds (h : Heap) (b : Block) : Live → Prop
  | .plain p => p = b.payload
  | .aligned p size => b.payload + 4 ≤ p ∧ p + size ≤ b.stop ∧ load32 h.mem (p - 4) = b.payload

structure Tenancy (h : Heap) (bs : List Block) (own : List (Live × Block)) (live : List Live) :
    Prop where
  rep : Rep h bs
  live : (own.map Prod.fst).Perm live
  blocks : (own.map Prod.snd).Perm (allocated bs)
  holds : ∀ e ∈ own, Holds h e.2 e.1

section Tenancy

variable {h h' : Heap} {bs bs' : List Block} {b : Block} {g : Live} {live live' : List Live}
  {own : List (Live × Block)}

theorem Holds.kept (hb : Holds h b g) (k : ∀ x, b.payload ≤ x → x < b.stop → h'.mem x = h.mem x) :
    Holds h' b g := by
  cases g with
  | plain p => exact hb
  | aligned p size =>
    obtain ⟨hlow, hhigh, hraw⟩ := hb
    refine ⟨hlow, hhigh, ?_⟩
    rw [← hraw]
    exact load32_congr fun x _ _ => k x (by omega) (by omega)

theorem Tenancy.change (T : Tenancy h bs own live) (out into keep : List (Live × Block))
    (hown : own.Perm (out ++ keep))
    (R' : Rep h' bs') (hblocks : (into.map Prod.snd ++ keep.map Prod.snd).Perm (allocated bs'))
    (hkept : Kept h h' (keep.map Prod.snd)) (hinto : ∀ e ∈ into, Holds h' e.2 e.1)
    (hlive : (into.map Prod.fst ++ keep.map Prod.fst).Perm live') :
    Tenancy h' bs' (into ++ keep) live' where
  rep := R'
  live := by rwa [List.map_append]
  blocks := by rwa [List.map_append]
  holds := by
    intro e he
    rcases List.mem_append.mp he with he | he
    · exact hinto e he
    · have he' : e ∈ own := hown.mem_iff.mpr (List.mem_append_right out he)
      exact (T.holds e he').kept (hkept.bytes e.2 (List.mem_map_of_mem he))

theorem Tenancy.find (T : Tenancy h bs own live) (hg : g ∈ live) :
    ∃ b keep, own.Perm ((g, b) :: keep) ∧ b ∈ bs ∧ b.free = false ∧ Holds h b g ∧
      (allocated bs).Perm (b :: keep.map Prod.snd) ∧ live.Perm (g :: keep.map Prod.fst) := by
  have hmem : g ∈ own.map Prod.fst := T.live.mem_iff.mpr hg
  obtain ⟨⟨g', b⟩, he, rfl⟩ := List.mem_map.mp hmem
  obtain ⟨o₁, o₂, rfl⟩ := List.append_of_mem he
  have hp : (o₁ ++ (g', b) :: o₂).Perm ((g', b) :: (o₁ ++ o₂)) := List.perm_middle
  have hblocks := T.blocks.symm.trans (hp.map Prod.snd)
  have hb := mem_allocated.mp (hblocks.mem_iff.mpr List.mem_cons_self)
  exact ⟨b, o₁ ++ o₂, hp, hb.1, hb.2, T.holds _ he, hblocks, T.live.symm.trans (hp.map Prod.fst)⟩

end Tenancy

def Gains (c : Call) (d : Block) : Prop :=
  match c with
  | .vallocAligned _ _ => True
  | _ => alignSize c.need ≤ d.size

structure Outcome (h : Heap) (bs : List Block) (own : List (Live × Block)) (live : List Live)
    (c : Call) (p : Nat) (h' : Heap) (bs' : List Block) (own' : List (Live × Block)) : Prop where
  tenancy : Tenancy h' bs' own' (c.after p live)
  change : Change c bs bs'
  start : h'.heapStart = h.heapStart
  stop : h'.heapEnd = h.heapEnd
  kept : ∀ e ∈ own, ¬ c.Targets h e.1 → e ∈ own' ∧ Kept h h' [e.2]
  result : p ≠ 0 → ∃ d keep, own' = (c.grant p, d) :: keep ∧ Gains c d ∧
    ∀ ptr size b, c = .krealloc ptr size → (.plain ptr, b) ∈ own →
      ∀ i < min b.size d.size, h'.mem (p + i) = h.mem (ptr + i)

section Outcome

variable {h h' : Heap} {bs bs' l r : List Block} {b d : Block} {g : Live} {live : List Live}
  {own keep : List (Live × Block)} {c : Call} {p n size ptr : Nat}

theorem Tenancy.nonzero (T : Tenancy h bs own live) : .plain 0 ∉ live := by
  intro hmem
  obtain ⟨b, _, _, hb, _, hholds, _⟩ := T.find hmem
  exact (taken_payload T.rep hb).2 hholds.symm

theorem outcome_none (T : Tenancy h bs own live) (hrest : c.rest 0 live = live) :
    Outcome h bs own live c 0 h bs own where
  tenancy := by rwa [Call.after, if_pos rfl, hrest]
  change := .none bs
  start := rfl
  stop := rfl
  kept e he _ := ⟨he, Kept.refl h _⟩
  result h0 := absurd rfl h0

theorem outcome_take (T : Tenancy h bs own live) (hp : p ≠ 0) (hrest : c.rest p live = live)
    (ht : Takes n bs d bs') (R' : Rep h' bs') (hkept : Kept h h' (allocated bs))
    (hholds : Holds h' d (c.grant p)) (hgains : Gains c d)
    (hre : ∀ ptr size, c = .krealloc ptr size → ptr = 0) :
    Outcome h bs own live c p h' bs' ((c.grant p, d) :: own) where
  tenancy := by
    rw [Call.after, if_neg hp, hrest]
    have hblocks : ([(c.grant p, d)].map Prod.snd ++ own.map Prod.snd).Perm (allocated bs') :=
      (T.blocks.cons d).trans ht.perm.symm
    refine T.change [] [(c.grant p, d)] own (.refl own) R' hblocks (hkept.mono fun e he => T.blocks.mem_iff.mp he) ?_
      (T.live.cons (c.grant p))
    intro e he
    rwa [List.mem_singleton.mp he]
  change := .take ht
  start := hkept.start
  stop := hkept.stop
  kept e he _ := ⟨List.mem_cons_of_mem _ he,
    hkept.single (T.blocks.mem_iff.mp (List.mem_map_of_mem he))⟩
  result _ := by
    refine ⟨d, own, rfl, hgains, ?_⟩
    intro ptr size b hc hb
    obtain rfl := hre ptr size hc
    exact absurd (T.live.mem_iff.mp (List.mem_map_of_mem hb)) T.nonzero

theorem kmalloc_outcome (T : Tenancy h bs own live) (hexec : c.exec h = h.kmalloc size)
    (hneed : Gains c = fun d => alignSize size ≤ d.size) (hgrant : ∀ p, c.grant p = .plain p)
    (hrest : ∀ p, c.rest p live = live) (hre : ∀ ptr size, c = .krealloc ptr size → ptr = 0) :
    ∃ p h' bs' own', c.exec h = some (p, h') ∧ Outcome h bs own live c p h' bs' own' := by
  obtain ⟨p, h', hcall, hcase⟩ := kmalloc_spec T.rep size
  rw [hexec, hcall]
  rcases hcase with ⟨rfl, rfl, _⟩ | ⟨bs', d, rfl, ht, R', f⟩
  · exact ⟨0, h', bs, own, rfl, outcome_none T (hrest 0)⟩
  · have hholds : Holds h' d (c.grant d.payload) := by
      rw [hgrant]
      rfl
    have hgains : Gains c d := by
      rw [hneed]
      exact ht.fits
    exact ⟨_, h', bs', _, rfl, outcome_take T (taken_payload R' ht.mem).2 (hrest _) ht R'
      (f.kept.mono ht.sub) hholds hgains hre⟩

theorem kcalloc_outcome (T : Tenancy h bs own live) {num : Nat}
    (hs : Call.Sound (.kcalloc num size)) :
    ∃ p h' bs' own', (Call.kcalloc num size).exec h = some (p, h') ∧
      Outcome h bs own live (.kcalloc num size) p h' bs' own' := by
  obtain ⟨p, h', hcall, hcase⟩ := kcalloc_spec T.rep hs
  rcases hcase with ⟨rfl, rfl⟩ | ⟨bs', d, rfl, _, ht, R', hkept⟩
  · exact ⟨0, h', bs, own, hcall, outcome_none T rfl⟩
  · exact ⟨_, h', bs', _, hcall, outcome_take T (taken_payload R' ht.mem).2 rfl ht R' hkept rfl
      ht.fits (fun _ _ hc => by cases hc)⟩

theorem vallocAligned_outcome (T : Tenancy h bs own live) {k : Nat} (hk : k < 32)
    (hs : Call.Sound (.vallocAligned size (2 ^ k))) :
    ∃ p h' bs' own', (Call.vallocAligned size (2 ^ k)).exec h = some (p, h') ∧
      Outcome h bs own live (.vallocAligned size (2 ^ k)) p h' bs' own' := by
  obtain ⟨p, h', hcall, hcase⟩ := vallocAligned_spec T.rep hk hs
  rcases hcase with ⟨rfl, rfl⟩ | ⟨bs', d, hplaced, ht, R', hkept⟩
  · exact ⟨0, h', bs, own, hcall, outcome_none T rfl⟩
  · have hp : p ≠ 0 := by
      have habove := hplaced.above
      omega
    exact ⟨_, h', bs', _, hcall, outcome_take T hp rfl ht R' hkept
      ⟨hplaced.above, hplaced.below, hplaced.raw⟩ trivial (fun _ _ hc => by cases hc)⟩

theorem outcome_release (T : Tenancy h bs own live) (hown : own.Perm ((g, b) :: keep))
    (hblocks : (allocated bs).Perm (b :: keep.map Prod.snd)) (hbs : bs = l ++ b :: r)
    (R' : Rep h' bs') (hr : Releases l b r bs' d) (f : Frame h h' bs')
    (htarget : c.Targets h g) (hlive : (keep.map Prod.fst).Perm (c.rest 0 live)) :
    Outcome h bs own live c 0 h' bs' keep := by
  subst hbs
  have hblocks' : (keep.map Prod.snd).Perm (allocated bs') :=
    (List.perm_cons b).mp (hblocks.symm.trans hr.perm)
  have hkept : Kept h h' (keep.map Prod.snd) :=
    f.kept.mono fun e he => hblocks'.mem_iff.mp he
  refine ⟨?_, .release hr, hkept.start, hkept.stop, ?_, fun h0 => absurd rfl h0⟩
  · rw [Call.after, if_pos rfl]
    exact T.change [(g, b)] [] keep hown R' hblocks' hkept (by simp) hlive
  · intro e he hnot
    rcases List.mem_cons.mp (hown.mem_iff.mp he) with rfl | he'
    · exact absurd htarget hnot
    · exact ⟨he', hkept.single (List.mem_map_of_mem he')⟩

theorem kfree_outcome (T : Tenancy h bs own live) (hptr : ptr ≠ 0) (hmem : .plain ptr ∈ live)
    (hexec : c.exec h = (h.kfree ptr).map fun h => (0, h))
    (hrest : c.rest 0 live = live.erase (.plain ptr)) (htarget : c.Targets h (.plain ptr)) :
    ∃ p h' bs' own', c.exec h = some (p, h') ∧ Outcome h bs own live c p h' bs' own' := by
  obtain ⟨b, keep, hown, hb, htaken, hholds, hblocks, hlive⟩ := T.find hmem
  obtain rfl : ptr = b.payload := hholds
  obtain ⟨l, r, rfl⟩ := List.append_of_mem hb
  obtain ⟨h', bs', d, hfree, R', hr, f⟩ := kfree_spec T.rep htaken
  have hrest' : (keep.map Prod.fst).Perm (c.rest 0 live) := by
    rw [hrest]
    exact (List.cons_perm_iff_perm_erase.mp hlive.symm).2
  refine ⟨0, h', bs', keep, ?_, outcome_release T hown hblocks rfl R' hr f htarget hrest'⟩
  rw [hexec, hfree]
  rfl

theorem vfree_outcome (T : Tenancy h bs own live)
    (hl : Call.Legal h live (.vfree ptr)) :
    ∃ p h' bs' own', (Call.vfree ptr).exec h = some (p, h') ∧
      Outcome h bs own live (.vfree ptr) p h' bs' own' := by
  by_cases hany : ∃ g ∈ live, g.alignedAt ptr = true
  · obtain ⟨g₀, hg₀, hat₀⟩ := hany
    obtain ⟨g, l₁, l₂, _, hat, rfl, herase⟩ := List.exists_of_eraseP hg₀ hat₀
    obtain ⟨b, keep, hown, hb, htaken, hholds, hblocks, hlive⟩ :=
      T.find (List.mem_append_right l₁ List.mem_cons_self : g ∈ l₁ ++ g :: l₂)
    obtain ⟨size, rfl⟩ : ∃ size, g = .aligned ptr size := by
      cases g with
      | plain q => cases hat
      | aligned q size =>
        obtain rfl : q = ptr := of_decide_eq_true hat
        exact ⟨size, rfl⟩
    obtain ⟨hlow, hhigh, hraw⟩ := hholds
    obtain ⟨l, r, rfl⟩ := List.append_of_mem hb
    obtain ⟨h', bs', d, hfree, R', hr, f⟩ := vfree_placed T.rep htaken hlow (by omega) hraw
    have hrest : (keep.map Prod.fst).Perm (Call.rest 0 (l₁ ++ .aligned ptr size :: l₂) (.vfree ptr)) := by
      rw [Call.rest, herase]
      exact ((List.perm_cons _).mp (List.perm_middle.symm.trans hlive)).symm
    refine ⟨0, h', bs', keep, ?_, outcome_release T hown hblocks rfl R' hr f rfl hrest⟩
    rw [Call.exec, hfree]
    rfl
  · have hrest : Call.rest 0 live (.vfree ptr) = live :=
      List.eraseP_of_forall_not fun g hg hat => hany ⟨g, hg, hat⟩
    refine ⟨0, h, bs, own, ?_, outcome_none T hrest⟩
    have hsame : h.vfree ptr = some h := by
      rcases hl with rfl | hmem | ⟨size, hmem⟩
      · exact vfree_zero h
      · obtain ⟨b, _, _, hb, htaken, hholds, _⟩ := T.find hmem
        obtain rfl : ptr = b.payload := hholds
        exact vfree_valloc T.rep hb htaken
      · exact absurd ⟨_, hmem, decide_eq_true rfl⟩ hany
    rw [Call.exec, hsame]
    rfl

theorem live_bytes (R : Rep h bs) (hb : b ∈ bs) (hg : Holds h b g) :
    b.payload ≤ g.ptr ∧ g.ptr + g.bytes h ≤ b.stop := by
  cases g with
  | plain p =>
    obtain rfl : p = b.payload := hg
    have hbytes : (Live.plain b.payload).bytes h = b.size := by
      rw [Live.bytes, getBlockFromPayload_eq R hb, (R.shape.header b hb).size]
    rw [hbytes]
    exact ⟨le_rfl, le_rfl⟩
  | aligned p size =>
    obtain ⟨hlow, hhigh, _⟩ := hg
    exact ⟨Nat.le_trans (Nat.le_add_right _ 4) hlow, hhigh⟩

theorem store_outcome (T : Tenancy h bs own live) {a : Nat} {v : UInt8}
    (hl : Call.Legal h live (.store a v)) :
    ∃ p h' bs' own', (Call.store a v).exec h = some (p, h') ∧
      Outcome h bs own live (.store a v) p h' bs' own' := by
  obtain ⟨g, hg, hlow, hhigh⟩ := hl
  obtain ⟨b, keep, hown, hb, htaken, hholds, hblocks, hlive⟩ := T.find hg
  obtain ⟨hfirst, hlast⟩ := live_bytes T.rep hb hholds
  have hnd : (b :: keep.map Prod.snd).Nodup :=
    hblocks.nodup_iff.mp (T.rep.shape.tiles.nodup.filter _)
  have hstay : ∀ x, x < b.payload ∨ b.stop ≤ x → store8 h.mem a v x = h.mem x :=
    fun x hx => store8_ne v (by omega)
  have hothers : ∀ d ∈ keep.map Prod.snd, d ∈ bs ∧ d ≠ b := by
    intro d hd
    refine ⟨(mem_allocated.mp (hblocks.mem_iff.mpr (List.mem_cons_of_mem b hd))).1, ?_⟩
    rintro rfl
    exact (List.nodup_cons.mp hnd).1 hd
  have hkept := Kept.of_storeIn T.rep hb hstay hothers
  have hholds' : ∀ e ∈ [(g, b)], Holds { h with mem := store8 h.mem a v } e.2 e.1 := by
    intro e he
    obtain rfl := List.mem_singleton.mp he
    cases g with
    | plain p => exact hholds
    | aligned p size =>
      obtain ⟨hbelow, habove, hraw⟩ := hholds
      have hlow : p ≤ a := hlow
      exact ⟨hbelow, habove, (load32_store8_ne v (by omega)).trans hraw⟩
  refine ⟨0, _, bs, [(g, b)] ++ keep, rfl, ?_, .none bs, rfl, rfl, ?_,
    fun h0 => absurd rfl h0⟩
  · exact T.change [(g, b)] [(g, b)] keep hown (T.rep.storeIn hb hstay) hblocks.symm hkept hholds'
      hlive.symm
  · intro e he hnot
    rcases List.mem_cons.mp (hown.mem_iff.mp he) with rfl | he'
    · exact absurd ⟨hlow, hhigh⟩ hnot
    · exact ⟨List.mem_append_right _ he', hkept.single (List.mem_map_of_mem he')⟩

structure Found (own : List (Live × Block)) (live : List Live) (bs : List Block) (g : Live)
    (b : Block) (keep : List (Live × Block)) : Prop where
  own : own.Perm ((g, b) :: keep)
  blocks : (allocated bs).Perm (b :: keep.map Prod.snd)
  live : live.Perm (g :: keep.map Prod.fst)

theorem krealloc_rest (F : Found own live bs (.plain ptr) b keep) (hp : p ≠ 0) :
    (keep.map Prod.fst).Perm (Call.rest p live (.krealloc ptr size)) := by
  rw [Call.rest, if_pos (Or.inr hp)]
  exact (List.cons_perm_iff_perm_erase.mp F.live.symm).2

theorem krealloc_other (F : Found own live bs (.plain ptr) b keep) (k : Kept h h' (keep.map Prod.snd)) :
    ∀ e ∈ own, ¬ Call.Targets h e.1 (.krealloc ptr size) → e ∈ keep ∧ Kept h h' [e.2] := by
  intro e he hnot
  rcases List.mem_cons.mp (F.own.mem_iff.mp he) with rfl | he'
  · exact absurd rfl hnot
  · exact ⟨he', k.single (List.mem_map_of_mem he')⟩

theorem shrink_outcome (T : Tenancy h (l ++ b :: r) own live)
    (F : Found own live (l ++ b :: r) (.plain b.payload) b keep) (htaken : b.free = false)
    (hsize : size ≠ 0) (hfit : alignSize size ≤ b.size) :
    ∃ p h' bs' own', (Call.krealloc b.payload size).exec h = some (p, h') ∧
      Outcome h (l ++ b :: r) own live (.krealloc b.payload size) p h' bs' own' := by
  obtain ⟨h', d, gap, hcall, o⟩ := krealloc_shrink T.rep htaken hsize hfit
  have hd : d.free = false := o.split.free.trans htaken
  have hpay : d.payload = b.payload := congrArg (· + headerBytes) o.split.addr
  have hp := (taken_payload T.rep (by simp : b ∈ l ++ b :: r)).2
  have hblocks : (d :: keep.map Prod.snd).Perm (allocated (l ++ d :: (gap ++ r))) := by
    have hold := F.blocks
    rw [allocated_append, allocated_taken htaken] at hold
    rw [allocated_append, allocated_taken hd, o.split.allocated_rest]
    have hrest := (List.perm_cons b).mp (List.perm_middle.symm.trans hold)
    exact (hrest.symm.cons d).trans List.perm_middle.symm
  have hkept : Kept h h' (keep.map Prod.snd) :=
    o.frame.kept.mono fun e he => hblocks.mem_iff.mp (List.mem_cons_of_mem d he)
  refine ⟨b.payload, h', _, [(.plain b.payload, d)] ++ keep, hcall, ?_,
    .shrink rfl hsize htaken o.split, hkept.start, hkept.stop, ?_, fun _ => ⟨d, keep, rfl, o.split.fits, ?_⟩⟩
  · rw [Call.after, if_neg hp]
    refine T.change [(.plain b.payload, b)] _ keep F.own o.rep hblocks hkept ?_
      ((krealloc_rest F hp).cons _)
    intro e he
    obtain rfl := List.mem_singleton.mp he
    exact hpay.symm
  · intro e he hnot
    obtain ⟨he', k⟩ := krealloc_other F hkept e he hnot
    exact ⟨List.mem_append_right _ he', k⟩
  · rintro ptr size b' hc _ i hi
    cases hc
    have hdm := mem_allocated.mpr ⟨(by simp : d ∈ l ++ d :: (gap ++ r)), hd⟩
    refine o.frame.kept.bytes d hdm _ (hpay.le.trans (Nat.le_add_right _ _)) ?_
    rw [← hpay]
    simp only [Block.payload, Block.stop]
    omega

theorem grow_outcome (T : Tenancy h bs own live) (F : Found own live bs (.plain b.payload) b keep)
    (hb : b ∈ bs) (htaken : b.free = false) (hsize : size ≠ 0) (hgrow : b.size < alignSize size) :
    ∃ p h' bs' own', (Call.krealloc b.payload size).exec h = some (p, h') ∧
      Outcome h bs own live (.krealloc b.payload size) p h' bs' own' := by
  obtain ⟨p, h', hcall, hcase⟩ := krealloc_grow T.rep hb htaken hsize hgrow
  rcases hcase with ⟨rfl, rfl⟩ | ⟨bs', d, rfl, o⟩
  · have hsame : Call.rest 0 live (.krealloc b.payload size) = live := by
      rw [Call.rest, if_neg (by simp [hsize])]
    exact ⟨0, h', bs, own, hcall, outcome_none T hsame⟩
  obtain ⟨l, r, e₀, ht, hr⟩ := o.moves
  have hblocks : (d :: keep.map Prod.snd).Perm (allocated bs') :=
    ((List.perm_cons b).mp (o.perm.trans ((F.blocks.cons d).trans (.swap b d _)))).symm
  have hda := mem_allocated.mp (hblocks.mem_iff.mp List.mem_cons_self)
  have hp := (taken_payload o.rep hda.1).2
  have hnd : (d :: keep.map Prod.snd).Nodup :=
    hblocks.nodup_iff.mpr (o.rep.shape.tiles.nodup.filter _)
  have hkept : Kept h h' (keep.map Prod.snd) := by
    refine o.kept.mono ?_
    intro e he
    have hea := hblocks.mem_iff.mp (List.mem_cons_of_mem d he)
    refine List.mem_filter.mpr ⟨hea, decide_eq_true ?_⟩
    intro haddr
    obtain rfl := o.rep.shape.tiles.addr_inj (mem_allocated.mp hea).1 hda.1 haddr
    exact (List.nodup_cons.mp hnd).1 he
  refine ⟨d.payload, h', bs', [(.plain d.payload, d)] ++ keep, hcall, ?_, .move ht hr, hkept.start, hkept.stop, ?_,
    fun _ => ⟨d, keep, rfl, ht.fits, ?_⟩⟩
  · rw [Call.after, if_neg hp]
    refine T.change [(.plain b.payload, b)] _ keep F.own o.rep hblocks hkept ?_
      ((krealloc_rest F hp).cons _)
    intro e he
    obtain rfl := List.mem_singleton.mp he
    rfl
  · intro e he hnot
    obtain ⟨he', k⟩ := krealloc_other F hkept e he hnot
    exact ⟨List.mem_append_right _ he', k⟩
  · rintro ptr size b' hc hb' i hi
    cases hc
    have haddr : b'.payload = b.payload := (T.holds _ hb').symm
    have hb'm := mem_allocated.mp (T.blocks.mem_iff.mp (List.mem_map_of_mem hb'))
    have hsame : b' = b :=
      T.rep.shape.tiles.addr_inj hb'm.1 hb (Nat.add_right_cancel haddr)
    rw [hsame] at hi
    exact o.bytes i (by omega)

theorem krealloc_outcome (T : Tenancy h bs own live) (hmem : .plain ptr ∈ live) (hsize : size ≠ 0) :
    ∃ p h' bs' own', (Call.krealloc ptr size).exec h = some (p, h') ∧
      Outcome h bs own live (.krealloc ptr size) p h' bs' own' := by
  obtain ⟨b, keep, hown, hb, htaken, hholds, hblocks, hlive⟩ := T.find hmem
  obtain rfl : ptr = b.payload := hholds
  have F : Found own live bs (.plain b.payload) b keep := ⟨hown, hblocks, hlive⟩
  by_cases hfit : alignSize size ≤ b.size
  · obtain ⟨l, r, rfl⟩ := List.append_of_mem hb
    exact shrink_outcome T F htaken hsize hfit
  · exact grow_outcome T F hb htaken hsize (Nat.lt_of_not_le hfit)

theorem call_outcome (T : Tenancy h bs own live) (hl : c.Legal h live) (hs : c.Sound) :
    ∃ p h' bs' own', c.exec h = some (p, h') ∧ Outcome h bs own live c p h' bs' own' := by
  cases c with
  | kmalloc size =>
    exact kmalloc_outcome T rfl rfl (fun _ => rfl) (fun _ => rfl) (fun _ _ hc => by cases hc)
  | kcalloc num size => exact kcalloc_outcome T hs
  | krealloc ptr size =>
    obtain ⟨_, hptr⟩ := hl
    by_cases h0 : ptr = 0
    · subst h0
      refine kmalloc_outcome T rfl rfl (fun _ => rfl) ?_ (fun _ _ hc => by cases hc; rfl)
      intro p
      rw [Call.rest, List.erase_of_not_mem T.nonzero, ite_self]
    · have hmem := hptr.resolve_left h0
      by_cases hsize : size = 0
      · subst hsize
        refine kfree_outcome T h0 hmem ?_ (by rw [Call.rest, if_pos (Or.inl rfl)]) rfl
        rw [Call.exec, Heap.krealloc, if_neg h0, if_pos rfl]
        cases h.kfree ptr <;> rfl
      · exact krealloc_outcome T hmem hsize
  | kfree ptr =>
    by_cases h0 : ptr = 0
    · subst h0
      refine ⟨0, h, bs, own, ?_, outcome_none T (List.erase_of_not_mem T.nonzero)⟩
      rw [Call.exec, Heap.kfree, if_pos (Or.inl rfl)]
      rfl
    · exact kfree_outcome T h0 (hl.resolve_left h0) rfl rfl rfl
  | valloc size =>
    exact kmalloc_outcome T rfl rfl (fun _ => rfl) (fun _ => rfl) (fun _ _ hc => by cases hc)
  | vallocAligned size align =>
    obtain ⟨_, k, hk, rfl⟩ := hl
    exact vallocAligned_outcome T hk hs
  | vfree ptr => exact vfree_outcome T hl
  | store a v => exact store_outcome T hl

end Outcome

end HouseOS.Mm
