import Mathlib.Data.List.Chain
import HouseOS.Mm.Shape

namespace HouseOS.Mm

variable {l r bs bs' : List Block} {b c p x : Block} {n : Nat}

def allocated (bs : List Block) : List Block := bs.filter (fun b => !b.free)

section Allocated

theorem mem_allocated : b ∈ allocated bs ↔ b ∈ bs ∧ b.free = false := by
  simp [allocated]

theorem allocated_append (l r : List Block) : allocated (l ++ r) = allocated l ++ allocated r :=
  List.filter_append _ _

theorem allocated_free (hb : b.free = true) (r : List Block) : allocated (b :: r) = allocated r :=
  List.filter_cons_of_neg (by simp [hb])

theorem allocated_taken (hb : b.free = false) (r : List Block) :
    allocated (b :: r) = b :: allocated r :=
  List.filter_cons_of_pos (by simp [hb])

theorem freeAddrs_free (hb : b.free = true) (r : List Block) :
    freeAddrs (b :: r) = b.addr :: freeAddrs r := by
  simp [freeAddrs, addrs, hb]

theorem freeAddrs_taken (hb : b.free = false) (r : List Block) :
    freeAddrs (b :: r) = freeAddrs r := by
  simp [freeAddrs, addrs, hb]

theorem freeAddrs_nil : freeAddrs [] = [] := rfl

theorem usedBytes_eq (bs : List Block) : usedBytes bs = ((allocated bs).map Block.total).sum := rfl

theorem usedBytes_perm (hp : (allocated bs').Perm (c :: allocated bs)) :
    usedBytes bs' = c.total + usedBytes bs := by
  rw [usedBytes_eq, (hp.map Block.total).sum_eq, List.map_cons, List.sum_cons, usedBytes_eq]

end Allocated

def Block.taken (b : Block) : Block := { b with free := false }

def Block.freed (b : Block) : Block := { b with free := true }

-- what a split leaves of a block: the part kept and what stands behind it
inductive Split (n : Nat) (b : Block) : Block → List Block → Prop
  | whole (hfit : n ≤ b.size) (hsmall : b.size < headerBytes + minBlockSize + n) : Split n b b []
  | carve (hroom : headerBytes + minBlockSize + n ≤ b.size) :
      Split n b (carved b n) [remainder b n]

inductive JoinPrev : List Block → Block → List Block → Block → Prop
  | stay {l : List Block} {b : Block} (hprev : ∀ p ∈ l.getLast?, p.free = false) : JoinPrev l b l b
  | join {l : List Block} {b p : Block} (hp : p.free = true) : JoinPrev (l ++ [p]) b l (joined p b)

inductive JoinNext : Block → List Block → Block → List Block → Prop
  | stay {b : Block} {r : List Block} (hnext : ∀ x ∈ r.head?, x.free = false) : JoinNext b r b r
  | join {b x : Block} {r : List Block} (hx : x.free = true) : JoinNext b (x :: r) (joined b x) r

inductive Takes (n : Nat) : List Block → Block → List Block → Prop
  | intro {l r gap : List Block} {b c : Block} (hfree : b.free = true) (hs : Split n b c gap) :
      Takes n (l ++ b :: r) c.taken (l ++ c.taken :: (gap ++ r))

inductive Releases (l : List Block) (b : Block) (r : List Block) : List Block → Block → Prop
  | intro {l' r' : List Block} {b' b'' : Block} (htaken : b.free = false)
      (hprev : JoinPrev l b.freed l' b') (hnext : JoinNext b' r b'' r') :
      Releases l b r (l' ++ b'' :: r') b''

section Split

variable {gap : List Block}

theorem Split.addr (h : Split n b c gap) : c.addr = b.addr := by
  cases h <;> rfl

theorem Split.free (h : Split n b c gap) : c.free = b.free := by
  cases h <;> rfl

theorem Split.fits (h : Split n b c gap) : n ≤ c.size := by
  cases h with
  | whole hfit _ => exact hfit
  | carve _ => exact le_rfl

theorem Split.gap_free (h : Split n b c gap) : ∀ g ∈ gap, g.free = true := by
  intro g hg
  cases h with
  | whole _ _ => cases hg
  | carve _ =>
    obtain rfl := List.mem_singleton.mp hg
    rfl

theorem Split.allocated_rest (h : Split n b c gap) (r : List Block) : allocated (gap ++ r) = allocated r := by
  rw [allocated_append]
  have hnil : allocated gap = [] := by
    refine List.filter_eq_nil_iff.mpr ?_
    intro g hg
    simp [h.gap_free g hg]
  rw [hnil, List.nil_append]

end Split

section Takes

theorem Takes.fits (h : Takes n bs c bs') : n ≤ c.size := by
  cases h with
  | intro _ hs => exact hs.fits

theorem Takes.taken (h : Takes n bs c bs') : c.free = false := by
  cases h
  rfl

theorem Takes.perm (h : Takes n bs c bs') : (allocated bs').Perm (c :: allocated bs) := by
  cases h with
  | intro hfree hs =>
    rw [allocated_append, allocated_append, allocated_taken rfl, allocated_free hfree, hs.allocated_rest]
    exact List.perm_middle

theorem Takes.mem {c : Block} {bs' : List Block} (ht : Takes n bs c bs') : c ∈ bs' :=
  (mem_allocated.mp (ht.perm.mem_iff.mpr List.mem_cons_self)).1

theorem Takes.others {c : Block} {bs' : List Block} (ht : Takes n bs c bs') (hnd : bs'.Nodup) :
    ∀ d ∈ allocated bs, d ∈ bs' ∧ d ≠ c := by
  intro d hd
  have hnd' : (c :: allocated bs).Nodup := ht.perm.nodup_iff.mp (hnd.filter _)
  refine ⟨(mem_allocated.mp (ht.perm.mem_iff.mpr (List.mem_cons_of_mem c hd))).1, ?_⟩
  rintro rfl
  exact (List.nodup_cons.mp hnd').1 hd

theorem Takes.sub {c : Block} {bs' : List Block} (ht : Takes n bs c bs') :
    ∀ d ∈ allocated bs, d ∈ allocated bs' :=
  fun _ hd => ht.perm.mem_iff.mpr (List.mem_cons_of_mem c hd)

end Takes

section Releases

variable {l' r' : List Block} {b' : Block}

theorem JoinPrev.allocated (h : JoinPrev l b l' b') (hb : b.free = true) :
    b'.free = true ∧ allocated l' = allocated l := by
  cases h with
  | stay _ => exact ⟨hb, rfl⟩
  | join hp =>
    rw [allocated_append, allocated_free hp]
    exact ⟨hp, (List.append_nil _).symm⟩

theorem JoinNext.allocated (h : JoinNext b r b' r') (hb : b.free = true) :
    b'.free = true ∧ allocated r' = allocated r := by
  cases h with
  | stay _ => exact ⟨hb, rfl⟩
  | join hx => exact ⟨hb, (allocated_free hx _).symm⟩

theorem JoinPrev.covers {lo hi : Nat} (h : JoinPrev l b l' b') (ht : Tiles lo (l ++ b :: r) hi) :
    Tiles lo (l' ++ b' :: r) hi ∧ b'.addr ≤ b.addr ∧ b'.stop = b.stop := by
  cases h with
  | stay _ => exact ⟨ht, le_rfl, rfl⟩
  | @join _ _ p _ =>
    rw [List.append_assoc, List.singleton_append] at ht
    obtain ⟨hadj, hjoin⟩ := tiles_join ht
    refine ⟨hjoin, ?_⟩
    simp only [Block.stop, joined] at hadj ⊢
    omega

theorem JoinNext.covers {lo hi : Nat} (h : JoinNext b r b' r') (ht : Tiles lo (l ++ b :: r) hi) :
    b'.addr = b.addr ∧ b.stop ≤ b'.stop := by
  cases h with
  | stay _ => exact ⟨rfl, le_rfl⟩
  | join _ =>
    refine ⟨rfl, ?_⟩
    simp only [Block.stop, joined]
    omega

theorem Releases.allocated (h : Releases l b r bs' c) : allocated bs' = allocated (l ++ r) := by
  cases h with
  | intro _ hprev hnext =>
    obtain ⟨hb', hl⟩ := hprev.allocated rfl
    obtain ⟨hb'', hr⟩ := hnext.allocated hb'
    rw [allocated_append, allocated_append, allocated_free hb'', hl, hr]

theorem Releases.perm (h : Releases l b r bs' c) :
    (Mm.allocated (l ++ b :: r)).Perm (b :: Mm.allocated bs') := by
  have halloc := h.allocated
  cases h with
  | intro htaken _ _ =>
    rw [halloc, allocated_append, allocated_append, allocated_taken htaken]
    exact List.perm_middle

theorem Releases.mem (h : Releases l b r bs' c) : c ∈ bs' ∧ c.free = true := by
  cases h with
  | intro _ hprev hnext =>
    have hb' := (hprev.allocated rfl).1
    exact ⟨by simp, (hnext.allocated hb').1⟩

theorem Releases.covers {lo hi : Nat} (h : Releases l b r bs' c) (ht : Tiles lo (l ++ b :: r) hi) :
    c.addr ≤ b.addr ∧ b.stop ≤ c.stop := by
  cases h with
  | intro _ hprev hnext =>
    have ht' : Tiles lo (l ++ b.freed :: r) hi := tiles_replace _ ht rfl rfl
    obtain ⟨ht'', haddr, hstop⟩ := hprev.covers ht'
    obtain ⟨haddr', hstop'⟩ := hnext.covers ht''
    exact ⟨haddr'.le.trans haddr, hstop ▸ hstop'⟩

end Releases

def Coalesced (bs : List Block) : Prop := bs.IsChain (fun a b => a.free = true → b.free = false)

section Coalesced

def EndsTaken (l : List Block) : Prop := ∀ p ∈ l.getLast?, p.free = false

def StartsTaken (r : List Block) : Prop := ∀ x ∈ r.head?, x.free = false

theorem coalesced_cons :
    Coalesced (b :: r) ↔ Coalesced r ∧ (b.free = true → StartsTaken r) := by
  rw [Coalesced, List.isChain_cons, StartsTaken, Coalesced]
  tauto

theorem coalesced_append :
    Coalesced (l ++ r) ↔ Coalesced l ∧ Coalesced r ∧
      ∀ p ∈ l.getLast?, p.free = true → StartsTaken r := by
  rw [Coalesced, List.isChain_append]
  simp only [StartsTaken, Coalesced]
  tauto

theorem coalesced_middle :
    Coalesced (l ++ b :: r) ↔ Coalesced l ∧ Coalesced r ∧
      (b.free = true → EndsTaken l ∧ StartsTaken r) := by
  rw [coalesced_append, coalesced_cons]
  simp only [StartsTaken, EndsTaken, List.head?_cons, Option.mem_some_iff, forall_eq']
  constructor
  · rintro ⟨hl, ⟨hr, hbr⟩, hlb⟩
    refine ⟨hl, hr, fun hb => ⟨?_, hbr hb⟩⟩
    intro p hp
    cases hpf : p.free with
    | false => rfl
    | true => rw [hlb p hp hpf] at hb; cases hb
  · rintro ⟨hl, hr, hb⟩
    refine ⟨hl, ⟨hr, fun h => (hb h).2⟩, ?_⟩
    intro p hp hpf
    cases hbf : b.free with
    | false => rfl
    | true => rw [(hb hbf).1 p hp] at hpf; cases hpf

theorem Takes.coalesced (h : Takes n bs c bs') (hbs : Coalesced bs) : Coalesced bs' := by
  cases h with
  | intro hfree hs =>
    obtain ⟨hl, hr, hb⟩ := coalesced_middle.mp hbs
    refine coalesced_middle.mpr ⟨hl, ?_, fun h => by cases h⟩
    cases hs with
    | whole _ _ => exact hr
    | carve _ => exact coalesced_cons.mpr ⟨hr, fun _ => (hb hfree).2⟩

theorem Releases.coalesced (h : Releases l b r bs' c) (hbs : Coalesced (l ++ b :: r)) :
    Coalesced bs' := by
  cases h with
  | @intro l' r' _ _ _ hprev hnext =>
    obtain ⟨hl, hr, _⟩ := coalesced_middle.mp hbs
    have hleft : Coalesced l' ∧ EndsTaken l' := by
      cases hprev with
      | stay hlast => exact ⟨hl, hlast⟩
      | join hp =>
        obtain ⟨hl', _, hends⟩ := coalesced_middle.mp hl
        exact ⟨hl', (hends hp).1⟩
    have hright : Coalesced r' ∧ StartsTaken r' := by
      cases hnext with
      | stay hhead => exact ⟨hr, hhead⟩
      | join hx =>
        obtain ⟨hr', hstarts⟩ := coalesced_cons.mp hr
        exact ⟨hr', hstarts hx⟩
    exact coalesced_middle.mpr ⟨hleft.1, hright.1, fun _ => ⟨hleft.2, hright.2⟩⟩

-- an in-place shrink leaves its remainder apart from what follows
theorem shrink_coalesced {gap : List Block} (hs : Split n b c gap) (htaken : b.free = false)
    (hbs : Coalesced (l ++ b :: r)) :
    Coalesced (l ++ c :: (gap ++ r)) ↔ (gap = [] ∨ StartsTaken r) := by
  obtain ⟨hl, hr, _⟩ := coalesced_middle.mp hbs
  have hc : c.free = true → EndsTaken l ∧ StartsTaken (gap ++ r) := by
    intro h
    rw [hs.free, htaken] at h
    cases h
  cases hs with
  | whole _ _ => exact ⟨fun _ => Or.inl rfl, fun _ => hbs⟩
  | carve _ =>
    constructor
    · intro h
      obtain ⟨_, hg, _⟩ := coalesced_middle.mp h
      exact Or.inr ((coalesced_cons.mp hg).2 rfl)
    · intro h
      have hstart := h.resolve_left (by simp)
      exact coalesced_middle.mpr ⟨hl, coalesced_cons.mpr ⟨hr, fun _ => hstart⟩, hc⟩

end Coalesced

end HouseOS.Mm
