import HouseOS.Fat32.RoundTrip

namespace HouseOS.Fat32

open HouseOS.Components
open HouseOS.Disk
open HouseOS.Program
open HouseOS.Program.Prog
open HouseOS.Word

section Size

variable {sec : List UInt8} {off size : Nat}

theorem take_two (h : off + 2 ≤ sec.length) :
    (sec.drop off).take 2 = [sec.getD off 0, sec.getD (off + 1) 0] := by
  rw [List.getD_eq_getElem _ _ (by omega), List.getD_eq_getElem _ _ (by omega),
    List.drop_eq_getElem_cons (by omega), List.drop_eq_getElem_cons (by omega)]
  rfl

theorem le16_eq {a b : UInt8} {v : Nat} (hv : v % 2 ^ 16 = a.toNat + b.toNat * 2 ^ 8) : le16 v = [a, b] := by
  have ha := a.toNat_lt
  have hb := b.toNat_lt
  have hlow : UInt8.ofNat v = a := UInt8.toNat_inj.mp (by rw [UInt8.toNat_ofNat']; omega)
  have hhigh : UInt8.ofNat (v / 2 ^ 8) = b := UInt8.toNat_inj.mp (by rw [UInt8.toNat_ofNat']; omega)
  rw [le16, hlow, hhigh]

theorem le16_rdLe16 {v : Nat} (h : off + 2 ≤ sec.length) (hv : v % 2 ^ 16 = rdLe16 sec off) :
    le16 v = (sec.drop off).take 2 := by
  rw [take_two h]
  exact le16_eq hv

theorem le32_rdLe32 (h : off + 4 ≤ sec.length) : le32 (rdLe32 sec off) = (sec.drop off).take 4 := by
  have h0 := byteAt_lt sec off
  have h1 := byteAt_lt sec (off + 1)
  have h2 := byteAt_lt sec (off + 2)
  have h3 := byteAt_lt sec (off + 3)
  have hsplit : (sec.drop off).take 4 = (sec.drop off).take 2 ++ (sec.drop (off + 2)).take 2 := by
    rw [← List.drop_drop]
    exact List.take_add (i := 2) (j := 2)
  have hlow : le16 (rdLe32 sec off) = (sec.drop off).take 2 :=
    le16_rdLe16 (by omega) (by simp only [rdLe16, rdLe32]; omega)
  have hhigh : le16 (rdLe32 sec off / 2 ^ 16) = (sec.drop (off + 2)).take 2 :=
    le16_rdLe16 (by omega) (by simp only [rdLe16, rdLe32, Nat.add_assoc, Nat.reduceAdd]; omega)
  rw [hsplit, le32, hlow, hhigh]

variable {e : Dirent}

theorem setSize_eq (he : e.length = 32) : Dirent.setSize e size = Dirent.setFile e (entryCluster e 0) size := by
  have hlow := rdLe16_lt e 26
  have hhead : e.take 28 = e.take 20 ++ ((e.drop 20).take 2 ++ ((e.drop 22).take 4 ++ (e.drop 26).take 2)) := by
    have h1 : e.take 28 = e.take 20 ++ (e.drop 20).take 8 := List.take_add (i := 20) (j := 8)
    have h2 : (e.drop 20).take 8 = (e.drop 20).take 2 ++ ((e.drop 20).drop 2).take 6 :=
      List.take_add (i := 2) (j := 6)
    have h3 : (e.drop 22).take 6 = (e.drop 22).take 4 ++ ((e.drop 22).drop 4).take 2 :=
      List.take_add (i := 4) (j := 2)
    rw [h1, h2, List.drop_drop, h3, List.drop_drop]
  have hfirst : le16 (entryCluster e 0) = (e.drop 26).take 2 :=
    le16_rdLe16 (by omega) (by simp only [entryCluster, Nat.zero_add]; omega)
  have hupper : le16 (entryCluster e 0 / 2 ^ 16) = (e.drop 20).take 2 := by
    have hhigh := rdLe16_lt e 20
    exact le16_rdLe16 (by omega) (by simp only [entryCluster, Nat.zero_add]; omega)
  rw [Dirent.setSize, Dirent.setFile, hhead, hfirst, hupper]
  simp only [List.append_assoc]

theorem setSize_self (he : e.length = 32) : Dirent.setSize e (entrySize e 0) = e := by
  have hall : (e.drop 28).take 4 = e.drop 28 := List.take_of_length_le (by rw [List.length_drop]; omega)
  rw [Dirent.setSize, entrySize, Nat.zero_add, le32_rdLe32 (by omega), hall, List.take_append_drop]

theorem byteAt_entry {k : Nat} (hk : k < 32) : byteAt ((sec.drop off).take 32) k = byteAt sec (off + k) := by
  rw [byteAt, byteAt, List.getD_eq_getElem?_getD, List.getD_eq_getElem?_getD, List.getElem?_take_of_lt hk,
    List.getElem?_drop]

theorem entry_fields (sec : List UInt8) (off : Nat) :
    entryCluster ((sec.drop off).take 32) 0 = entryCluster sec off ∧
      entrySize ((sec.drop off).take 32) 0 = entrySize sec off := by
  simp only [entryCluster, entrySize, rdLe16, rdLe32, Nat.zero_add, Nat.add_assoc]
  simp (disch := decide) only [byteAt_entry, Nat.reduceAdd, and_self]

variable (hlen : off + 32 ≤ sec.length)

include hlen

theorem entry_length : ((sec.drop off).take 32).length = 32 := by
  rw [List.length_take, List.length_drop]
  omega

theorem placed_setSize (size : Nat) : placed sec off (Dirent.setSize ((sec.drop off).take 32) size) =
    patched sec off (entryCluster sec off) size := by
  rw [setSize_eq (entry_length hlen), (entry_fields sec off).1, patched]

theorem patched_self : patched sec off (entryCluster sec off) (entrySize sec off) = sec := by
  rw [← placed_setSize hlen, ← (entry_fields sec off).2, setSize_self (entry_length hlen), placed,
    List.append_assoc, ← List.drop_drop, List.take_append_drop, List.take_append_drop]

end Size

def Resized (d : Sectors) (rel off : Nat) (d' : Sectors) : Prop :=
  ∃ size < 2 ^ 32, d' = Function.update d rel (patched (d rel) off (entryCluster (d rel) off) size)

theorem Resized.refl {d : Sectors} {rel off : Nat} (hlen : off + 32 ≤ (d rel).length) : Resized d rel off d :=
  ⟨entrySize (d rel) off, rdLe32_lt (d rel) (off + 28), by rw [patched_self hlen, Function.update_eq_self]⟩

namespace Fat32Fs

section Length

variable {fs : Fat32Fs} {answer : Store → SectorReq → Option (List UInt8) × Store} {s : Store}

theorem recordAppend_length (n : Found) (written : Nat) :
    Ensures answer (recordAppend n written) s fun r _ => ∀ m, r = some m → m = written := by
  rw [recordAppend]
  split
  · rename_i hzero
    exact ensures_done fun m hm => (Option.some.inj hm).symm.trans hzero.symm
  · refine ensures_bind (ensures_any _ s) fun e s₁ _ => ?_
    cases e with
    | none => exact ensures_done fun _ hr => by cases hr
    | some e =>
      refine ensures_bind (ensures_any _ s₁) fun ok _ _ => ?_
      cases ok with
      | false => exact ensures_done fun _ hr => by cases hr
      | true => exact ensures_done fun m hm => (Option.some.inj hm).symm

theorem appendFound_length (fuel : Nat) (n : Found) (data : List UInt8) :
    Ensures answer (fs.appendFound fuel n data) s fun r _ => ∀ m, r = some (some m) → m ≤ data.length := by
  rw [appendFound]
  refine ensures_bind (ensures_any _ s) fun r s₁ _ => ?_
  rcases r with _ | ⟨last, _⟩
  · exact ensures_done fun _ hr => by cases hr
  dsimp only
  refine ensures_bind (ensures_any _ s₁) fun r s₂ _ => ?_
  cases r with
  | none => exact ensures_done fun _ hr => by cases hr
  | some rest =>
    refine ensures_bind (ensures_any _ s₂) fun r s₃ _ => ?_
    cases r with
    | none => exact ensures_done fun _ hr => by cases hr
    | some rest =>
      refine ensures_bind (recordAppend_length n _) fun r _ hr => ensures_done fun m hm => ?_
      rw [hr m (Option.some.inj hm)]
      exact Nat.sub_le _ _

theorem appendOp_length {fails : Nat → Bool} (fuel : Nat) (junk : Found) (path : Path) (data : List UInt8) :
    Ensures (fs.access fails) (fs.fat32AppendOp fuel junk path data) s fun r _ =>
      ∀ m, r = some (some m) → m ≤ data.length := by
  rw [fat32AppendOp]
  split
  · refine ensures_done fun m hm => ?_
    cases hm
    exact Nat.zero_le _
  refine ensures_bind (ensures_any _ s) fun r s₁ _ => ?_
  rcases r with _ | _ | n
  · exact ensures_done fun _ hr => by cases hr
  · exact ensures_done fun _ hr => by cases hr
  dsimp only
  split
  · exact ensures_done fun _ hr => by cases hr
  split
  · rw [fat32WriteOp]
    refine ensures_bind (ensures_any _ s₁) fun r s₂ _ => ?_
    rcases r with _ | _ | n
    · exact ensures_done fun _ hr => by cases hr
    · exact ensures_done fun _ hr => by cases hr
    · exact (writeFound_length fs fails s₂ n data).imp fun r _ hr m hm => Nat.le_of_eq (hr m hm)
  · exact appendFound_length fuel n data

end Length

variable {fs : Fat32Fs} {fails : Nat → Bool} {own : Nat → Prop} {s : Store} {d₀ d d' : Sectors}
  {c k v : Nat}

-- an append may write to the chain it makes longer and to clusters that were free
def Open (fs : Fat32Fs) (own : Nat → Prop) (d₀ : Sectors) (c : Nat) : Prop :=
  fs.IsCluster c ∧ (own c ∨ fs.entry d₀ c = 0)

structure Lengthened (fs : Fat32Fs) (own : Nat → Prop) (d₀ d : Sectors) : Prop where
  length : ∀ r, (d r).length = 512
  entry : ∀ c, fs.InFat c → ¬ own c → fs.entry d₀ c ≠ 0 → fs.entry d c = fs.entry d₀ c
  data : ∀ c, fs.IsCluster c → ¬ own c → fs.entry d₀ c ≠ 0 → ∀ i < fs.sectorsPerCluster,
    d (fs.clusterSector c i) = d₀ (fs.clusterSector c i)

namespace Lengthened

theorem refl (hd : ∀ r, (d r).length = 512) : fs.Lengthened own d d :=
  ⟨hd, fun _ _ _ _ => rfl, fun _ _ _ _ _ _ => rfl⟩

theorem wrote (h : fs.Laid) (hl : fs.Lengthened own d₀ d) (hc : fs.Open own d₀ c)
    (hw : fs.Wrote c v k d d') : fs.Lengthened own d₀ d' where
  length := hw.length
  entry x hx hown hused := by
    rw [h.inFat_entry hw hx, if_neg, hl.entry x hx hown hused]
    rintro ⟨rfl, -⟩
    exact hc.2.elim hown hused
  data x hx hown hused i hi := by
    rw [hw.data _ (by rw [clusterSector]; omega), hl.data x hx hown hused i hi]

theorem filled (h : fs.Laid) (hl : fs.Lengthened own d₀ d) (hc : fs.Open own d₀ c)
    (hf : fs.Filled c d d') : fs.Lengthened own d₀ d' where
  length := hf.length
  entry x hx hown hused := by rw [h.filled_entry hf hx, hl.entry x hx hown hused]
  data x hx hown hused i hi := by
    rw [hf.others, hl.data x hx hown hused i hi]
    intro i' hi' heq
    obtain rfl := (clusterSector_inj hx.1 hc.1.1 hi hi' heq).1
    exact hc.2.elim hown hused

theorem took (h : fs.Laid) (hl : fs.Lengthened own d₀ d) (ht : fs.Took c k d d') :
    fs.Open own d₀ c ∧ fs.Lengthened own d₀ d' ∧ ∀ x, fs.InFat x → fs.entry d' x =
      if x = c ∧ 0 < k then fat32Eoc else fs.entry d x := by
  obtain ⟨d₁, hw, hf⟩ := ht.steps
  have hopen : fs.Open own d₀ c := by
    refine ⟨ht.cluster, ?_⟩
    by_contra hnot
    rw [not_or] at hnot
    exact hnot.2 ((hl.entry c (h.inFat ht.cluster) hnot.1 hnot.2).symm.trans ht.free)
  refine ⟨hopen, (hl.wrote h hopen hw).filled h hopen hf, fun x hx => ?_⟩
  rw [h.filled_entry hf hx, h.inFat_entry hw hx]
  rfl

end Lengthened

theorem freeLoop_lengthened (h : fs.Laid) (hc : fs.Open own d₀ c) (heoc : isEoc (fs.entry s.sector c) = true)
    (hl : fs.Lengthened own d₀ s.sector) (guard : Nat) :
    Ensures (fs.access fails) (fs.freeLoop guard c) s fun _ s' => fs.Lengthened own d₀ s'.sector := by
  cases guard with
  | zero => exact ensures_done hl
  | succ guard =>
    rw [freeLoop, if_neg (by have := hc.1.1; omega)]
    refine ensures_bind (fatGet_ensures h hc.1) fun r s₁ hget => ?_
    obtain ⟨hsame, hget, -⟩ := hget
    rcases hget with rfl | rfl
    · exact ensures_done (hsame ▸ hl)
    refine ensures_bind (fatSet_ensures h 0 hc.1 (hsame ▸ hl.length)) fun ok s₂ hset => ?_
    obtain ⟨k, -, hw, -, -⟩ := hset
    rw [hsame] at hw
    have hl₂ := hl.wrote h hc hw
    cases ok with
    | false => exact ensures_done hl₂
    | true =>
      simp only [Bool.not_true, Bool.false_eq_true, if_false, heoc, true_or, if_true]
      exact ensures_done hl₂

theorem freeChain_lengthened (h : fs.Laid) (hc : fs.Open own d₀ c)
    (heoc : isEoc (fs.entry s.sector c) = true) (hl : fs.Lengthened own d₀ s.sector) :
    Ensures (fs.access fails) (fs.fat32FreeChain c) s fun _ s' => fs.Lengthened own d₀ s'.sector := by
  rw [fat32FreeChain, if_neg (by have := hc.1.1; omega)]
  exact freeLoop_lengthened h hc heoc hl _

theorem appendCluster_fills (h : fs.Laid) (hc : fs.IsCluster c) : ∀ (left i : Nat) (data : List UInt8)
    (s : Store), i + left ≤ fs.sectorsPerCluster → fs.Filled c d s.sector →
      Ensures (fs.access fails) (appendCluster (fs.fat32ClusterToRelLba c) left i data) s fun _ s' =>
        fs.Filled c d s'.sector := by
  intro left
  induction left with
  | zero => exact fun _ _ _ _ hf => ensures_done hf
  | succ left ih =>
    intro i data s hi hf
    have hlt : i < fs.sectorsPerCluster := by omega
    rw [appendCluster, h.clusterSector_eq hc hlt]
    refine ensures_ask ?_
    rcases access_write fs fails s (fs.clusterSector c i) (block_length data) with
      ⟨hwrite, hkept⟩ | ⟨hwrite, hput⟩
    · rw [hwrite]
      exact ensures_done (hkept ▸ hf)
    · rw [hwrite]
      refine ih (i + 1) (data.drop 512) _ (by omega) ?_
      rw [hput]
      exact hf.put hlt (block_length data)

theorem appendChain_lengthens (h : fs.Laid) : ∀ (fuel last : Nat) (data : List UInt8) (s : Store),
    fs.Open own d₀ last → isEoc (fs.entry s.sector last) = true → fs.Lengthened own d₀ s.sector →
      Ensures (fs.access fails) (fs.appendChain fuel last data) s fun _ s' =>
        fs.Lengthened own d₀ s'.sector := by
  intro fuel
  induction fuel with
  | zero =>
    intro last data s _ _ hl
    rw [appendChain]
    split
    · exact ensures_done hl
    · exact ensures_done hl
  | succ fuel ih =>
    intro last data s hlast heoc hl
    rw [appendChain]
    split
    · exact ensures_done hl
    refine ensures_bind (allocCluster_ensures h hl.length) fun r s₁ halloc => ?_
    rcases halloc with ⟨rfl, hsame⟩ | ⟨c, k, htook, hr, -⟩
    · exact ensures_done (hsame ▸ hl)
    obtain ⟨hopen, hl₁, hentry⟩ := hl.took h htook
    cases r with
    | none => exact ensures_done hl₁
    | some nc =>
      obtain ⟨rfl, rfl⟩ := hr nc rfl
      have hne : nc ≠ last := by
        rintro rfl
        rw [htook.free] at heoc
        cases heoc
      have hfat := h.inFat hopen.1
      have hnew : fs.entry s₁.sector nc = fat32Eoc := by
        rw [hentry nc hfat, if_pos ⟨rfl, h.fat_pos⟩]
      refine ensures_bind (fatSet_ensures h nc hlast.1 hl₁.length) fun ok s₂ hset => ?_
      obtain ⟨k₂, -, hw₂, -, -⟩ := hset
      have hl₂ := hl₁.wrote h hlast hw₂
      have hnew₂ : fs.entry s₂.sector nc = fat32Eoc := by
        rw [h.inFat_entry hw₂ hfat, if_neg (fun heq => hne heq.1), hnew]
      cases ok with
      | false =>
        exact ensures_bind (freeChain_lengthened h hopen (by rw [hnew₂]; rfl) hl₂) fun _ _ hl₃ =>
          ensures_done hl₃
      | true =>
        simp only [Bool.not_true, Bool.false_eq_true, if_false]
        refine ensures_bind (fatSet_ensures h fat32Eoc hopen.1 hl₂.length) fun ok s₃ hset => ?_
        obtain ⟨k₃, -, hw₃, -, -⟩ := hset
        have hl₃ := hl₂.wrote h hopen hw₃
        have hnew₃ : fs.entry s₃.sector nc = fat32Eoc := by
          rw [h.inFat_entry hw₃ hfat]
          split
          · rfl
          · exact hnew₂
        cases ok with
        | false =>
          exact ensures_bind (freeChain_lengthened h hopen (by rw [hnew₃]; rfl) hl₃) fun _ _ hl₄ =>
            ensures_done hl₄
        | true =>
          refine ensures_bind (appendCluster_fills h hopen.1 fs.sectorsPerCluster 0 data s₃ (by omega)
            (Filled.refl hl₃.length)) fun rest s₄ hf => ?_
          exact ih nc rest s₄ hopen (by rw [h.filled_entry hf hfat, hnew₃]; rfl) (hl₃.filled h hopen hf)

theorem lastLoop_last (h : fs.Laid) (hown : fs.Chained own d) : ∀ (left c len : Nat) (s : Store), own c →
    s.sector = d → Ensures (fs.access fails) (fs.lastLoop left c len) s fun r s' => s'.sector = d ∧
      ∀ last len', r = some (last, len') → own last ∧ isEoc (fs.entry d last) = true := by
  intro left
  induction left with
  | zero => exact fun _ _ _ _ hs => ensures_done ⟨hs, fun _ _ hr => by cases hr⟩
  | succ left ih =>
    intro c len s hc hs
    subst hs
    rw [lastLoop]
    refine ensures_bind (fatGet_ensures h (hown.clusters c hc)) fun r s₁ hget => ?_
    obtain ⟨hsame, hget, -⟩ := hget
    rcases hget with rfl | rfl
    · exact ensures_done ⟨hsame, fun _ _ hr => by cases hr⟩
    dsimp only
    rcases hown.chain c hc with heoc | hnext
    · rw [if_pos (Or.inl heoc)]
      refine ensures_done ⟨hsame, fun last len' hr => ?_⟩
      cases hr
      exact ⟨hc, heoc⟩
    · have hcl := hown.clusters _ hnext
      have hgo : ¬ (isEoc (fs.entry s.sector c) = true ∨ fs.entry s.sector c < 2) := by
        rw [h.not_eoc hcl, not_or, Nat.not_lt]
        exact ⟨by decide, hcl.1⟩
      rw [if_neg hgo]
      exact ih _ _ s₁ hnext hsame

-- the last cluster of a chain is the one whose entry ends it
theorem chainLast_last (h : fs.Laid) (hown : fs.Chained own s.sector) (hc : own c) :
    Ensures (fs.access fails) (fs.fat32ChainLast c) s fun r s' => s'.sector = s.sector ∧
      ∀ last len, r = some (last, len) → own last ∧ isEoc (fs.entry s.sector last) = true := by
  rw [fat32ChainLast, if_neg (by have := (hown.clusters c hc).1; omega)]
  exact lastLoop_last h hown _ c 0 s hc rfl

theorem fillLast_fills (h : fs.Laid) (hc : fs.IsCluster c) {used : Nat} (hused : used < fs.fat32ClusterSize)
    (hs : ∀ r, (s.sector r).length = 512) (data : List UInt8) :
    Ensures (fs.access fails) (fs.fillLast c used data) s fun _ s' => fs.Filled c s.sector s'.sector := by
  rw [h.clusterSize] at hused
  have hlt : used / 512 < fs.sectorsPerCluster := by omega
  have hrefl : fs.Filled c s.sector s.sector := Filled.refl hs
  rw [fillLast, h.clusterSector_eq hc hlt]
  refine ensures_ask ?_
  obtain ⟨hsame, hread⟩ := access_read fs fails s (fs.clusterSector c (used / 512))
  rcases hread with hread | hread
  · rw [hread]
    exact ensures_done (hsame ▸ hrefl)
  rw [hread]
  refine ensures_ask ?_
  have hlen : ((s.sector (fs.clusterSector c (used / 512))).take (used % 512) ++ data.take (512 - used % 512) ++
      (s.sector (fs.clusterSector c (used / 512))).drop
        (used % 512 + (data.take (512 - used % 512)).length)).length = 512 := by
    have hmod := Nat.mod_lt used (show 0 < 512 by decide)
    simp only [List.length_append, List.length_take, List.length_drop, hs]
    omega
  rcases access_write fs fails (fs.access fails s (.read (fs.clusterSector c (used / 512)) 1)).2
    (fs.clusterSector c (used / 512)) hlen with ⟨hwrite, hkept⟩ | ⟨hwrite, hput⟩
  · rw [hwrite]
    refine ensures_done ?_
    rw [hkept, hsame]
    exact hrefl
  · rw [hwrite]
    refine (fillCluster_ensures h hc _ _ _ _ (by omega) ?_).imp fun _ _ hr => hr.1
    rw [hput, hsame]
    exact hrefl.put hlt hlen

theorem writeDirent_puts (hs : ∀ r, (s.sector r).length = 512) {rel off : Nat} {e : Dirent} (he : e.length = 32) :
    Ensures (fs.access fails) (fat32WriteDirentAt rel off e) s fun _ s' => s'.sector = s.sector ∨
      s'.sector = Function.update s.sector rel (placed (s.sector rel) off e) := by
  rw [fat32WriteDirentAt]
  split
  · exact ensures_done (Or.inl rfl)
  rename_i hoff
  simp only [misplaced, Bool.or_eq_true, decide_eq_true_eq, not_or] at hoff
  obtain ⟨hsame, hread⟩ := access_read fs fails s rel
  refine ensures_ask ?_
  rcases hread with hread | hread
  · rw [hread]
    exact ensures_done (Or.inl hsame)
  rw [hread]
  have hlen : (placed (s.sector rel) off e).length = 512 := by rw [placed_length (by rw [hs]; omega) he, hs]
  refine ensures_ask (ensures_done ?_)
  rcases access_write fs fails (fs.access fails s (.read rel 1)).2 rel hlen with ⟨-, hkept⟩ | ⟨-, hput⟩
  · exact Or.inl (hkept.trans hsame)
  · rw [hsame] at hput
    exact Or.inr hput

theorem recordAppend_resizes (hs : ∀ r, (s.sector r).length = 512) {n : Found} (hoff : n.entryOffset ≤ 480)
    (written : Nat) : Ensures (fs.access fails) (recordAppend n written) s fun _ s' =>
      Resized s.sector n.entryRelSector n.entryOffset s'.sector := by
  have hroom : n.entryOffset + 32 ≤ (s.sector n.entryRelSector).length := by
    rw [hs]
    omega
  have hrefl : Resized s.sector n.entryRelSector n.entryOffset s.sector := Resized.refl hroom
  have hread : Ensures (fs.access fails) (fat32ReadDirentAt n.entryRelSector n.entryOffset) s fun r s' =>
      s'.sector = s.sector ∧ ∀ e, r = some e → e = ((s.sector n.entryRelSector).drop n.entryOffset).take 32 := by
    rw [fat32ReadDirentAt]
    split
    · exact ensures_done ⟨rfl, fun _ hr => by cases hr⟩
    obtain ⟨hsame, hread⟩ := access_read fs fails s n.entryRelSector
    refine ensures_ask (ensures_done ⟨hsame, fun e he => ?_⟩)
    rcases hread with hread | hread
    · rw [hread] at he
      cases he
    · rw [hread] at he
      exact (Option.some.inj he).symm
  rw [recordAppend]
  split
  · exact ensures_done hrefl
  refine ensures_bind hread fun r s₁ hr => ?_
  obtain ⟨hsame, he⟩ := hr
  cases r with
  | none => exact ensures_done (hsame ▸ hrefl)
  | some e =>
    obtain rfl := he e rfl
    dsimp only
    have hlen : (Dirent.setSize (((s.sector n.entryRelSector).drop n.entryOffset).take 32)
        (add32 n.node.size written)).length = 32 := by
      rw [setSize_eq (entry_length hroom), setFile_length hroom]
    refine ensures_bind (writeDirent_puts (hsame ▸ hs) hlen) fun ok s₂ hput => ?_
    have hdone : Resized s.sector n.entryRelSector n.entryOffset s₂.sector := by
      rcases hput with hkept | hput
      · rw [hkept, hsame]
        exact hrefl
      · refine ⟨add32 n.node.size written, Nat.mod_lt _ (by decide), ?_⟩
        rw [hput, hsame, placed_setSize hroom]
    cases ok with
    | false => exact ensures_done hdone
    | true => exact ensures_done hdone

theorem appendFound_lengthens (h : fs.Laid) (hs : ∀ r, (s.sector r).length = 512) {n : Found}
    (hown : fs.Chained own s.sector) (hfirst : own n.node.firstCluster) (hoff : n.entryOffset ≤ 480)
    (fuel : Nat) (data : List UInt8) :
    Ensures (fs.access fails) (fs.appendFound fuel n data) s fun _ s' => ∃ d,
      fs.Lengthened own s.sector d ∧ Resized d n.entryRelSector n.entryOffset s'.sector := by
  have hresized : ∀ {d : Sectors}, (∀ r, (d r).length = 512) →
      Resized d n.entryRelSector n.entryOffset d := fun hd => Resized.refl (by rw [hd]; omega)
  have hrefl : fs.Lengthened own s.sector s.sector := Lengthened.refl hs
  rw [appendFound]
  refine ensures_bind (chainLast_last h hown hfirst) fun r s₁ hr => ?_
  obtain ⟨hsame, hlast⟩ := hr
  rcases r with _ | ⟨last, len⟩
  · exact ensures_done ⟨_, hsame ▸ hrefl, hsame ▸ hresized hs⟩
  obtain ⟨hmine, heoc⟩ := hlast last len rfl
  have hcl := hown.clusters last hmine
  have hopen : fs.Open own s.sector last := ⟨hcl, Or.inl hmine⟩
  dsimp only
  have hpos : 0 < fs.fat32ClusterSize := by
    rw [h.clusterSize]
    have hspc := h.accepted.clusterPos
    omega
  have hfill : Ensures (fs.access fails) (if n.node.size % fs.fat32ClusterSize = 0 then .done (some data)
      else fs.fillLast last (n.node.size % fs.fat32ClusterSize) data) s₁ fun _ s' =>
        fs.Filled last s.sector s'.sector := by
    rw [← hsame] at hs ⊢
    split
    · exact ensures_done (Filled.refl hs)
    · exact fillLast_fills h hcl (Nat.mod_lt _ hpos) hs data
  refine ensures_bind hfill fun r s₂ hf => ?_
  have hl₂ := hrefl.filled h hopen hf
  cases r with
  | none => exact ensures_done ⟨_, hl₂, hresized hl₂.length⟩
  | some rest =>
    refine ensures_bind (appendChain_lengthens h fuel last rest s₂ hopen
      (by rw [h.filled_entry hf (h.inFat hcl), heoc]) hl₂) fun r s₃ hl₃ => ?_
    cases r with
    | none => exact ensures_done ⟨_, hl₃, hresized hl₃.length⟩
    | some rest =>
      exact ensures_bind (recordAppend_resizes hl₃.length hoff _) fun _ s₄ hr => ensures_done ⟨_, hl₃, hr⟩

end Fat32Fs

section Others

variable {fs : Fat32Fs} {fails : Nat → Bool} {s s' : Store} {holder : Nat → Holder} {d d₁ : Sectors}
  {path : Path} {f g : Found} {data : List UInt8}

section After

variable (hu : Unshared fs holder d f) (hf : IsFile fs d path f)
  (hl : fs.Lengthened (fun c => holder c = .written) d d₁)

include hu hf hl

theorem lengthened_sector : d₁ f.entryRelSector = d f.entryRelSector := by
  obtain ⟨c, i, hdir, hi, hrel⟩ := (hf.sits hu).cluster
  have hused : holder c ≠ .nobody := by rw [hdir]; decide
  rw [hrel, hl.data c (hu.clusters c hused) (by rw [hdir]; decide) (hu.used hused) i hi]

theorem resized_kept (x : List UInt8) {c : Nat} (hown : holder c ≠ .written) (hused : holder c ≠ .nobody) :
    fs.entry (Function.update d₁ f.entryRelSector x) c = fs.entry d c ∧
      ∀ i < fs.sectorsPerCluster, Function.update d₁ f.entryRelSector x (fs.clusterSector c i) =
        if fs.clusterSector c i = f.entryRelSector then x else d (fs.clusterSector c i) := by
  obtain ⟨c₀, i₀, -, -, hrel⟩ := (hf.sits hu).cluster
  have hcl := hu.clusters c hused
  have hentry := hl.entry c (hu.laid.inFat hcl) hown (hu.used hused)
  refine ⟨?_, fun i hi => ?_⟩
  · rw [hrel, Fat32Fs.entry, Fat32Fs.word_update_data hu.laid hu.laid.fat_pos (hu.laid.inFat hcl),
      ← Fat32Fs.entry, hentry]
  · rw [Function.update_apply, hl.data c hcl hown (hu.used hused) i hi]

theorem resized_same (x : List UInt8) :
    fs.Same (fun c => holder c = .file) d (Function.update d₁ f.entryRelSector x) where
  clusters c hc := hu.clusters c (by rw [hc]; decide)
  chain := (hu.chained (by decide)).chain
  entry c hc := (resized_kept hu hf hl x (by rw [hc]; decide) (by rw [hc]; decide)).1
  data c hc i hi := by
    rw [(resized_kept hu hf hl x (by rw [hc]; decide) (by rw [hc]; decide)).2 i hi, if_neg (hf.apart hu hc hi)]

theorem resized_patched {size : Nat} (hsize : size < 2 ^ 32) : fs.Patched (fun c => holder c = .directory) d
    (Function.update d₁ f.entryRelSector
      (patched (d f.entryRelSector) f.entryOffset (entryCluster (d f.entryRelSector) f.entryOffset) size))
    f.entryRelSector f.entryOffset (entryCluster (d f.entryRelSector) f.entryOffset) size where
  entry c hc := (resized_kept hu hf hl _ (by rw [hc]; decide) (by rw [hc]; decide)).1
  data c hc := (resized_kept hu hf hl _ (by rw [hc]; decide) (by rw [hc]; decide)).2
  room := by
    have hle := hf.place.1
    rw [hu.length]
    omega
  aligned := hf.place.2.1
  attr := by
    have hsits := hf.sits hu
    rw [← hsits.attr]
    exact hsits.notLfn
  first := by
    have hlow := rdLe16_lt (d f.entryRelSector) (f.entryOffset + 26)
    have hhigh := rdLe16_lt (d f.entryRelSector) (f.entryOffset + 20)
    simp only [entryCluster]
    omega
  size := hsize

end After

theorem appendOp_lengthens {junk : Found} {fuel : Nat} (hu : Unshared fs holder s.sector f)
    (hf : IsFile fs s.sector path f) (hstarted : 2 ≤ f.node.firstCluster ∧ f.node.size ≠ 0) :
    Ensures (fs.access fails) (fs.fat32AppendOp fuel junk path data) s fun _ s' => ∃ d,
      fs.Lengthened (fun c => holder c = .written) s.sector d ∧
        Resized d f.entryRelSector f.entryOffset s'.sector := by
  obtain ⟨hle, -, -⟩ := hf.place
  have hrefl : ∃ d, fs.Lengthened (fun c => holder c = .written) s.sector d ∧
      Resized d f.entryRelSector f.entryOffset s.sector :=
    ⟨_, Fat32Fs.Lengthened.refl hu.length, Resized.refl (by rw [hu.length]; omega)⟩
  rw [Fat32Fs.fat32AppendOp]
  split
  · exact ensures_done hrefl
  refine ensures_bind hf.resolve_finds fun r s₁ hr => ?_
  obtain ⟨hsame, hfound⟩ := hr
  rw [← hsame] at hu hrefl ⊢
  rcases r with _ | _ | n
  · exact ensures_done hrefl
  · exact ensures_done hrefl
  obtain rfl := hfound n rfl
  have hmine : holder n.node.firstCluster = .written := hu.written.resolve_left (by omega)
  have hgo : ¬ (n.node.firstCluster < 2 ∨ n.node.size = 0) := by omega
  simp only [hf.file, Bool.false_eq_true, if_false, if_neg hgo]
  exact Fat32Fs.appendFound_lengthens hu.laid hu.length (hu.chained (by decide)) hmine hle fuel data

-- whatever fails, an append to a file with content leaves what every other file reads as
theorem append_spares {junk : Found} {fuel : Nat} {r : Option (Option Nat)}
    (hu : Unshared fs holder s.sector f) (hf : IsFile fs s.sector path f)
    (hstarted : 2 ≤ f.node.firstCluster ∧ f.node.size ≠ 0)
    (hrun : (fs.fat32AppendOp fuel junk path data).run (fs.access fails) s = (r, s')) :
    ∀ q g, IsFile fs s.sector q g → ¬ SameEntry f g → IsFile fs s'.sector q g ∧ ∀ junk size bytes,
      Reads fs s'.sector junk q size bytes ↔ Reads fs s.sector junk q size bytes := by
  have hens : Ensures (fs.access fails) (fs.fat32AppendOp fuel junk path data) s _ :=
    appendOp_lengthens hu hf hstarted
  rw [Ensures, hrun] at hens
  obtain ⟨d, hl, size, hsize, heq⟩ := hens
  have hsec := lengthened_sector hu hf hl
  intro q g hg hother
  have hkept : moved f.entryRelSector f.entryOffset (entryCluster (s.sector f.entryRelSector) f.entryOffset)
      size g = g := if_neg hother
  have hafter := patched_isFile hu hf (resized_patched hu hf hl hsize) hg
  rw [hsec] at heq
  rw [hkept, ← heq] at hafter
  refine ⟨hafter, fun junk size' bytes => ?_⟩
  rw [hafter.reads, hg.reads, heq, Fat32Fs.look_readFound hu.laid (resized_same hu hf hl _)
    (hu.files _ g hg.denotes hg.file hother)]

end Others

end HouseOS.Fat32
