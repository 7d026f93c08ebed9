import HouseOS.Fat32.Store

namespace HouseOS.Fat32

open HouseOS.Disk
open HouseOS.Program
open HouseOS.Program.Prog
open HouseOS.Word

def NoFault (fails : Nat → Bool) : Prop := ∀ t, fails t = false

namespace Fat32Fs

variable {fs : Fat32Fs} {fails : Nat → Bool} {s : Store}

theorem fatGet_ensures (h : fs.Laid) {c : Nat} (hc : fs.IsCluster c) :
    Ensures (fs.access fails) (fs.fat32FatGet c) s fun r s' =>
      s'.sector = s.sector ∧ (r = none ∨ r = some (fs.entry s.sector c)) ∧
        (NoFault fails → r = some (fs.entry s.sector c)) := by
  have hsec : add32 fs.fatStartLba (mul32 c 4 / 512) = fs.wordSector 0 c := by
    have heq := h.fatSector_eq h.accepted.fatsPos hc
    rw [fatSector, mul32, Nat.zero_mul, Nat.zero_mod] at heq
    have hstart : add32 fs.fatStartLba 0 = fs.fatStartLba := by
      have hreserved := h.accepted.reserved
      rw [h.accepted.start]
      exact add32_eq (by omega)
    rwa [hstart] at heq
  have hserved : fs.unserved (fs.wordSector 0 c) 1 = false :=
    h.served ((h.wordSector_lt h.accepted.fatsPos (h.inFat hc)).trans h.data_lt_total)
  rw [fat32FatGet, if_neg (by have := hc.1; omega)]
  dsimp only
  rw [hsec, h.fatOffset_eq hc]
  obtain ⟨hsame, hread⟩ := access_read fs fails s (fs.wordSector 0 c)
  refine ensures_ask ?_
  rcases hread with hread | hread
  · rw [hread]
    refine ensures_done ⟨hsame, Or.inl rfl, fun hno => ?_⟩
    rw [(access_served hno s hserved).1] at hread
    cases hread
  · rw [hread]
    exact ensures_done ⟨hsame, Or.inr rfl, fun _ => rfl⟩

structure Wrote (fs : Fat32Fs) (c v k : Nat) (d d' : Sectors) : Prop where
  length : ∀ r, (d' r).length = 512
  word : ∀ j < fs.numFats, ∀ c', fs.InFat c' → fs.word d' j c' =
    if c' = c ∧ j < k then fs.word d j c / 2 ^ 28 * 2 ^ 28 + v % 2 ^ 28 else fs.word d j c'
  data : ∀ r, fs.dataStartLba ≤ r → d' r = d r

theorem Wrote.zero {c v : Nat} {d : Sectors} (hd : ∀ r, (d r).length = 512) : fs.Wrote c v 0 d d where
  length := hd
  word j _ c' _ := by rw [if_neg (by omega)]
  data _ _ := rfl

theorem Wrote.succ {c v k : Nat} {d d' : Sectors} (h : fs.Laid) (hc : fs.IsCluster c)
    (hk : k < fs.numFats) (hw : fs.Wrote c v k d d') :
    fs.Wrote c v (k + 1) d (Function.update d' (fs.wordSector k c)
      (putEntry (d' (fs.wordSector k c)) (c % 128 * 4) v)) where
  length r := by
    rw [Function.update_apply]
    split
    · rw [putEntry_length, hw.length]
    · exact hw.length r
  word j hj c' hc' := by
    have hold : fs.word d' k c = fs.word d k c := by
      rw [hw.word k hk c (h.inFat hc), if_neg (fun hlt => Nat.lt_irrefl k hlt.2)]
    rw [word_put h hw.length hc hc', hw.word j hj c' hc', hold]
    by_cases hcc : c' = c
    · rcases lt_trichotomy j k with hlt | rfl | hlt
      · rw [if_neg (by omega), if_pos ⟨hcc, hlt⟩, if_pos ⟨hcc, by omega⟩]
      · rw [if_pos ⟨rfl, hcc⟩, if_pos ⟨hcc, by omega⟩]
      · rw [if_neg (by omega), if_neg (by omega), if_neg (by omega)]
    · rw [if_neg (fun h => hcc h.2), if_neg (fun h => hcc h.1), if_neg (fun h => hcc h.1)]
  data r hr := by
    rw [Function.update_of_ne, hw.data r hr]
    have hlt := h.wordSector_lt hk (h.inFat hc)
    omega

theorem fatSetLoop_ensures (h : fs.Laid) {c v : Nat} (hc : fs.IsCluster c) {d : Sectors} :
    ∀ (left k : Nat) (s : Store), k + left = fs.numFats → fs.Wrote c v k d s.sector →
      Ensures (fs.access fails) (fs.fatSetLoop (mul32 c 4) v left k) s fun ok s' =>
        ∃ k ≤ fs.numFats, fs.Wrote c v k d s'.sector ∧ (ok = true → k = fs.numFats) ∧
          (NoFault fails → ok = true) := by
  intro left
  induction left with
  | zero =>
    intro k s hk hw
    exact ensures_done ⟨k, by omega, hw, fun _ => by omega, fun _ => rfl⟩
  | succ left ih =>
    intro k s hk hw
    have hlt : k < fs.numFats := by omega
    have hserved : fs.unserved (fs.wordSector k c) 1 = false :=
      h.served ((h.wordSector_lt hlt (h.inFat hc)).trans h.data_lt_total)
    rw [fatSetLoop, h.fatSector_eq hlt hc, h.fatOffset_eq hc]
    obtain ⟨hsame, hread⟩ := access_read fs fails s (fs.wordSector k c)
    refine ensures_ask ?_
    rcases hread with hread | hread
    · rw [hread]
      refine ensures_done ⟨k, hlt.le, hsame ▸ hw, nofun, fun hno => ?_⟩
      rw [(access_served hno s hserved).1] at hread
      cases hread
    rw [hread]
    refine ensures_ask ?_
    have hlen : (putEntry (s.sector (fs.wordSector k c)) (c % 128 * 4) v).length = 512 := by
      rw [putEntry_length, hw.length]
    rcases access_write fs fails (fs.access fails s (.read (fs.wordSector k c) 1)).2
      (fs.wordSector k c) hlen with ⟨hwrite, hkept⟩ | ⟨hwrite, hput⟩
    · rw [hwrite]
      refine ensures_done ⟨k, hlt.le, ?_, nofun, fun hno => ?_⟩
      · rw [hkept, hsame]
        exact hw
      · rw [(access_served hno _ hserved).2] at hwrite
        cases hwrite
    · rw [hwrite]
      refine ih (k + 1) _ (by omega) ?_
      rw [hput, hsame]
      exact hw.succ h hc hlt

theorem fatSet_ensures (h : fs.Laid) {c : Nat} (v : Nat) (hc : fs.IsCluster c)
    (hs : ∀ r, (s.sector r).length = 512) :
    Ensures (fs.access fails) (fs.fat32FatSet c v) s fun ok s' =>
      ∃ k ≤ fs.numFats, fs.Wrote c v k s.sector s'.sector ∧ (ok = true → k = fs.numFats) ∧
        (NoFault fails → ok = true) := by
  rw [fat32FatSet, if_neg (by have := hc.1; omega)]
  exact fatSetLoop_ensures h hc fs.numFats 0 s (by omega) (Wrote.zero hs)

structure Filled (fs : Fat32Fs) (c : Nat) (d d' : Sectors) : Prop where
  length : ∀ r, (d' r).length = 512
  others : ∀ r, (∀ i < fs.sectorsPerCluster, r ≠ fs.clusterSector c i) → d' r = d r

theorem Filled.refl {c : Nat} {d : Sectors} (hd : ∀ r, (d r).length = 512) : fs.Filled c d d :=
  ⟨hd, fun _ _ => rfl⟩

theorem Filled.put {c i : Nat} {d d' : Sectors} {x : List UInt8} (hi : i < fs.sectorsPerCluster)
    (hx : x.length = 512) (hf : fs.Filled c d d') :
    fs.Filled c d (Function.update d' (fs.clusterSector c i) x) where
  length r := by
    rw [Function.update_apply]
    split
    · exact hx
    · exact hf.length r
  others r hr := by rw [Function.update_of_ne (hr i hi), hf.others r hr]

theorem Filled.word (h : fs.Laid) {c j c' : Nat} {d d' : Sectors} (hf : fs.Filled c d d')
    (hj : j < fs.numFats) (hc' : fs.InFat c') : fs.word d' j c' = fs.word d j c' := by
  rw [Fat32Fs.word, hf.others _ fun i _ => (h.clusterSector_ne_word hj hc').symm, Fat32Fs.word]

theorem block_length (data : List UInt8) : (block data).length = 512 := by
  rw [block, List.length_append, List.length_take, List.length_replicate]
  omega

theorem fillCluster_ensures (h : fs.Laid) {c : Nat} (hc : fs.IsCluster c) {d : Sectors} :
    ∀ (left i : Nat) (data : List UInt8) (s : Store), i + left ≤ fs.sectorsPerCluster →
      fs.Filled c d s.sector →
      Ensures (fs.access fails) (fillCluster (fs.fat32ClusterToRelLba c) left i data) s fun r s' =>
        fs.Filled c d s'.sector ∧ (NoFault fails → r = some (data.drop (512 * left))) := by
  intro left
  induction left with
  | zero =>
    intro i data s _ hf
    exact ensures_done ⟨hf, fun _ => by simp⟩
  | succ left ih =>
    intro i data s hi hf
    have hlt : i < fs.sectorsPerCluster := by omega
    rw [fillCluster, h.clusterSector_eq hc hlt]
    refine ensures_ask ?_
    rcases access_write fs fails s (fs.clusterSector c i) (block_length data) with
      ⟨hwrite, hkept⟩ | ⟨hwrite, hput⟩
    · rw [hwrite]
      refine ensures_done ⟨hkept ▸ hf, fun hno => ?_⟩
      rw [(access_served hno s (h.served (h.clusterSector_lt hc hlt))).2] at hwrite
      cases hwrite
    · rw [hwrite]
      refine (ih (i + 1) (data.drop 512) _ (by omega) ?_).imp fun r s' hr => ⟨hr.1, fun hno => ?_⟩
      · rw [hput]
        exact hf.put hlt (block_length data)
      · rw [hr.2 hno, List.drop_drop]
        congr 2
        omega

theorem zeroLoop_eq_fillCluster (rel : Nat) : ∀ left i : Nat,
    zeroLoop rel left i = (fillCluster rel left i []).bind fun r => .done r.isSome := by
  intro left
  induction left with
  | zero => exact fun _ => rfl
  | succ left ih =>
    intro i
    have hblock : block [] = List.replicate 512 0 := rfl
    simp only [zeroLoop, fillCluster, hblock, List.drop_nil, Prog.bind]
    congr 1
    funext r
    cases r with
    | none => rfl
    | some _ => exact ih (i + 1)

theorem zeroCluster_ensures (h : fs.Laid) {c : Nat} (hc : fs.IsCluster c)
    (hs : ∀ r, (s.sector r).length = 512) :
    Ensures (fs.access fails) (fs.fat32ZeroCluster c) s fun ok s' =>
      fs.Filled c s.sector s'.sector ∧ (NoFault fails → ok = true) := by
  rw [fat32ZeroCluster, if_neg (by have := hc.1; omega), zeroLoop_eq_fillCluster]
  refine ensures_bind (fillCluster_ensures h hc fs.sectorsPerCluster 0 [] s (by omega)
    (Filled.refl hs)) fun r s' hr => ensures_done ⟨hr.1, fun hno => ?_⟩
  rw [hr.2 hno]
  rfl

structure Took (fs : Fat32Fs) (c k : Nat) (d d' : Sectors) : Prop where
  cluster : fs.IsCluster c
  free : fs.entry d c = 0
  count : k ≤ fs.numFats
  steps : ∃ d₁, fs.Wrote c fat32Eoc k d d₁ ∧ fs.Filled c d₁ d'

theorem allocLoop_ensures (h : fs.Laid) (hs : ∀ r, (s.sector r).length = 512) :
    ∀ (left c : Nat) (s' : Store), 2 ≤ c → c + left = fs.fat32MaxCluster + 1 →
      s'.sector = s.sector →
      Ensures (fs.access fails) (fs.allocLoop left c) s' fun r s' =>
        r = none ∧ s'.sector = s.sector ∨
          ∃ c k, fs.Took c k s.sector s'.sector ∧ (∀ c', r = some c' → c' = c ∧ k = fs.numFats) ∧
            (NoFault fails → r = some c) := by
  intro left
  induction left with
  | zero =>
    intro c s' _ _ hsame
    exact ensures_done (Or.inl ⟨rfl, hsame⟩)
  | succ left ih =>
    intro c s' hc hleft hsame
    have hcl : fs.IsCluster c := ⟨hc, by omega⟩
    rw [allocLoop]
    refine ensures_bind (fatGet_ensures h hcl) fun r s₁ hget => ?_
    obtain ⟨hkept, hget, -⟩ := hget
    rw [hsame] at hkept hget
    rcases hget with rfl | rfl
    · exact ensures_done (Or.inl ⟨rfl, hkept⟩)
    · by_cases hfree : fs.entry s.sector c = 0
      · simp only [hfree, ne_eq, not_true_eq_false, if_false]
        refine ensures_bind (fatSet_ensures h fat32Eoc hcl (hkept ▸ hs)) fun ok s₂ hset => ?_
        obtain ⟨k, hk, hwrote, hall, hok⟩ := hset
        rw [hkept] at hwrote
        cases ok with
        | false =>
          exact ensures_done (Or.inr ⟨c, k, ⟨hcl, hfree, hk, _, hwrote, Filled.refl hwrote.length⟩,
            nofun, fun hno => nomatch hok hno⟩)
        | true =>
          refine ensures_bind (zeroCluster_ensures h hcl hwrote.length) fun ok s₃ hzero => ?_
          refine ensures_done (Or.inr ⟨c, k, ⟨hcl, hfree, hk, _, hwrote, hzero.1⟩, ?_, ?_⟩)
          · intro c' hc'
            split at hc'
            · cases hc'
              exact ⟨rfl, hall rfl⟩
            · cases hc'
          · intro hno
            rw [if_pos (hzero.2 hno)]
      · simp only [ne_eq, hfree, not_false_eq_true, if_true]
        exact ih (c + 1) s₁ (by omega) (by omega) hkept

theorem allocCluster_ensures (h : fs.Laid) (hs : ∀ r, (s.sector r).length = 512) :
    Ensures (fs.access fails) fs.fat32AllocCluster s fun r s' =>
      r = none ∧ s'.sector = s.sector ∨
        ∃ c k, fs.Took c k s.sector s'.sector ∧ (∀ c', r = some c' → c' = c ∧ k = fs.numFats) ∧
          (NoFault fails → r = some c) := by
  by_cases hmax : fs.fat32MaxCluster = 0
  · rw [fat32AllocCluster, hmax]
    exact ensures_done (Or.inl ⟨rfl, rfl⟩)
  · exact allocLoop_ensures h hs _ 2 s le_rfl (by omega) rfl

end Fat32Fs

end HouseOS.Fat32
