import HouseOS.Fat32.Effects

namespace HouseOS.Fat32

open HouseOS.Disk
open HouseOS.Program
open HouseOS.Program.Prog
open HouseOS.Word

namespace Fat32Fs

variable {fs : Fat32Fs} {fails : Nat → Bool} {s : Store} {d₀ d d' : Sectors} {N : Nat → Prop}
  {c k v : Nat}

theorem Laid.inFat_entry (h : fs.Laid) (hw : fs.Wrote c v k d d') {c' : Nat} (hc' : fs.InFat c') :
    fs.entry d' c' = if c' = c ∧ 0 < k then v % 2 ^ 28 else fs.entry d c' := by
  rw [entry, hw.word 0 h.fat_pos c' hc']
  split
  · omega
  · rfl

theorem Laid.filled_entry (h : fs.Laid) (hf : fs.Filled c d d') {c' : Nat} (hc' : fs.InFat c') :
    fs.entry d' c' = fs.entry d c' := by
  rw [entry, hf.word h h.fat_pos hc', entry]

-- `d` differs from `d₀` in clusters of `N` only, which were free and lead only to one another
structure Borrowed (fs : Fat32Fs) (d₀ : Sectors) (N : Nat → Prop) (d : Sectors) : Prop where
  length : ∀ r, (d r).length = 512
  free : ∀ c, N c → fs.IsCluster c ∧ fs.entry d₀ c = 0
  chain : ∀ c, N c → fs.entry d c < 2 ∨ isEoc (fs.entry d c) = true ∨ N (fs.entry d c)
  words : ∀ j < fs.numFats, ∀ c, fs.InFat c → fs.word d j c = fs.word d₀ j c ∨
    N c ∧ fs.word d j c / 2 ^ 28 = fs.word d₀ j c / 2 ^ 28
  data : ∀ c, fs.IsCluster c → ¬ N c → ∀ i < fs.sectorsPerCluster,
    d (fs.clusterSector c i) = d₀ (fs.clusterSector c i)

namespace Borrowed

theorem refl (hd : ∀ r, (d r).length = 512) : fs.Borrowed d (fun _ => False) d where
  length := hd
  free _ := False.elim
  chain _ := False.elim
  words _ _ _ _ := Or.inl rfl
  data _ _ _ _ _ := rfl

theorem entry_eq (h : fs.Laid) (hb : fs.Borrowed d₀ N d) (hc : fs.InFat c) (hN : ¬ N c) :
    fs.entry d c = fs.entry d₀ c := by
  rcases hb.words 0 h.fat_pos c hc with heq | ⟨hmem, _⟩
  · rw [entry, heq, entry]
  · exact absurd hmem hN

theorem wrote (h : fs.Laid) (hb : fs.Borrowed d₀ N d) (hc : N c) (hv : v < 2 ^ 28)
    (hnext : v < 2 ∨ isEoc v = true ∨ N v) (hw : fs.Wrote c v k d d') :
    fs.Borrowed d₀ N d' where
  length := hw.length
  free := hb.free
  chain c' hc' := by
    rw [h.inFat_entry hw (h.inFat (hb.free c' hc').1)]
    split
    · rwa [Nat.mod_eq_of_lt hv]
    · exact hb.chain c' hc'
  words j hj c' hc' := by
    rw [hw.word j hj c' hc']
    split
    · rename_i heq
      obtain ⟨rfl, _⟩ := heq
      refine Or.inr ⟨hc, ?_⟩
      have htop : fs.word d j c' / 2 ^ 28 = fs.word d₀ j c' / 2 ^ 28 := by
        rcases hb.words j hj c' hc' with heq | ⟨_, heq⟩
        · rw [heq]
        · exact heq
      omega
    · exact hb.words j hj c' hc'
  data c' hc' hN i hi := by
    rw [hw.data _ (by rw [clusterSector]; omega)]
    exact hb.data c' hc' hN i hi

theorem filled (h : fs.Laid) (hb : fs.Borrowed d₀ N d) (hc : N c) (hf : fs.Filled c d d') :
    fs.Borrowed d₀ N d' where
  length := hf.length
  free := hb.free
  chain c' hc' := by
    rw [h.filled_entry hf (h.inFat (hb.free c' hc').1)]
    exact hb.chain c' hc'
  words j hj c' hc' := by
    rw [hf.word h hj hc']
    exact hb.words j hj c' hc'
  data c' hc' hN i hi := by
    rw [hf.others, hb.data c' hc' hN i hi]
    intro i' hi' heq
    have hcl := (hb.free c hc).1
    exact hN ((clusterSector_inj hc'.1 hcl.1 hi hi' heq).1 ▸ hc)

theorem add (h : fs.Laid) (hb : fs.Borrowed d₀ N d) (hcl : fs.IsCluster c)
    (hfree : fs.entry d c = 0) : fs.Borrowed d₀ (fun x => N x ∨ x = c) d where
  length := hb.length
  free := by
    rintro x (hx | rfl)
    · exact hb.free x hx
    · refine ⟨hcl, ?_⟩
      by_cases hN : N x
      · exact (hb.free x hN).2
      · rwa [← hb.entry_eq h (h.inFat hcl) hN]
  chain := by
    rintro x (hx | rfl)
    · rcases hb.chain x hx with hlt | heoc | hmem
      · exact Or.inl hlt
      · exact Or.inr (Or.inl heoc)
      · exact Or.inr (Or.inr (Or.inl hmem))
    · rw [hfree]
      exact Or.inl (by decide)
  words j hj x hx := (hb.words j hj x hx).imp_right fun hw => ⟨Or.inl hw.1, hw.2⟩
  data x hx hN := hb.data x hx fun hmem => hN (Or.inl hmem)

theorem took (h : fs.Laid) (hb : fs.Borrowed d₀ N d) (ht : fs.Took c k d d') :
    fs.Borrowed d₀ (fun x => N x ∨ x = c) d' := by
  obtain ⟨d₁, hw, hf⟩ := ht.steps
  exact ((hb.add h ht.cluster ht.free).wrote h (Or.inr rfl) (by decide)
    (Or.inr (Or.inl rfl)) hw).filled h (Or.inr rfl) hf

end Borrowed

theorem freeLoop_borrowed (h : fs.Laid) : ∀ (guard c : Nat) (s : Store), N c →
    fs.Borrowed d₀ N s.sector →
    Ensures (fs.access fails) (fs.freeLoop guard c) s fun _ s' => fs.Borrowed d₀ N s'.sector := by
  intro guard
  induction guard with
  | zero => exact fun _ _ _ hb => ensures_done hb
  | succ guard ih =>
    intro c s hc hb
    have hcl := (hb.free c hc).1
    rw [freeLoop, if_neg (by have := hcl.1; omega)]
    refine ensures_bind (fatGet_ensures h hcl) fun r s₁ hget => ?_
    obtain ⟨hsame, hget, -⟩ := hget
    rcases hget with rfl | rfl
    · exact ensures_done (hsame ▸ hb)
    refine ensures_bind (fatSet_ensures h 0 hcl (hsame ▸ hb.length)) fun ok s₂ hset => ?_
    obtain ⟨k, -, hw, -, -⟩ := hset
    rw [hsame] at hw
    have hb₂ := hb.wrote h hc (by decide) (Or.inl (by decide)) hw
    cases ok with
    | false => exact ensures_done hb₂
    | true =>
      simp only [Bool.not_true, Bool.false_eq_true, if_false]
      split
      · exact ensures_done hb₂
      · rename_i hgo
        rw [not_or] at hgo
        rcases hb.chain c hc with hlt | heoc | hmem
        · exact absurd hlt hgo.2
        · exact absurd heoc hgo.1
        · exact ih _ s₂ hmem hb₂

theorem freeChain_borrowed (h : fs.Laid) (hc : c < 2 ∨ N c) (hb : fs.Borrowed d₀ N s.sector) :
    Ensures (fs.access fails) (fs.fat32FreeChain c) s fun _ s' => fs.Borrowed d₀ N s'.sector := by
  rw [fat32FreeChain]
  split
  · exact ensures_done hb
  · rename_i hge
    exact freeLoop_borrowed h _ c s (hc.resolve_left hge) hb

theorem takeClusters_borrowed (h : fs.Laid) : ∀ (need first prev : Nat) (N : Nat → Prop) (s : Store),
    (first < 2 ∨ N first) → (prev < 2 ∨ N prev) → fs.Borrowed d₀ N s.sector →
    Ensures (fs.access fails) (fs.takeClusters need first prev) s fun r s' =>
      ∃ N, fs.Borrowed d₀ N s'.sector ∧ ∀ first, r = some first → first < 2 ∨ N first := by
  intro need
  induction need with
  | zero =>
    rintro first prev N s hfirst - hb
    exact ensures_done ⟨N, hb, by rintro _ ⟨⟩; exact hfirst⟩
  | succ need ih =>
    intro first prev N s hfirst hprev hb
    rw [takeClusters]
    refine ensures_bind (allocCluster_ensures h hb.length) fun r s₁ halloc => ?_
    rcases halloc with ⟨rfl, hsame⟩ | ⟨c, k, htook, hr, -⟩
    · exact ensures_bind (freeChain_borrowed h hfirst (hsame ▸ hb)) fun _ s₂ hb₂ =>
        ensures_done ⟨N, hb₂, nofun⟩
    have hb₁ := hb.took h htook
    have hfirst₁ : first < 2 ∨ N first ∨ first = c := hfirst.imp_right Or.inl
    cases r with
    | none =>
      exact ensures_bind (freeChain_borrowed h hfirst₁ hb₁) fun _ s₂ hb₂ =>
        ensures_done ⟨_, hb₂, nofun⟩
    | some nc =>
      obtain ⟨rfl, -⟩ := hr nc rfl
      have hnew : (if first < 2 then nc else first) < 2 ∨
          N (if first < 2 then nc else first) ∨ (if first < 2 then nc else first) = nc := by
        split
        · exact Or.inr (Or.inr rfl)
        · exact hfirst₁
      dsimp only
      split
      · exact ih _ nc _ s₁ hnew (Or.inr (Or.inr rfl)) hb₁
      · rename_i hge
        have hmem : N prev ∨ prev = nc := Or.inl (hprev.resolve_left hge)
        have hcl := (hb₁.free prev hmem).1
        have hlt : nc < 2 ^ 28 := by
          have hfew := h.few
          have hmax := htook.cluster.2
          omega
        refine ensures_bind (fatSet_ensures h nc hcl hb₁.length) fun ok s₂ hset => ?_
        obtain ⟨k, -, hw, -, -⟩ := hset
        have hb₂ := hb₁.wrote h hmem hlt (Or.inr (Or.inr (Or.inr rfl))) hw
        cases ok with
        | true => exact ih _ nc _ s₂ hnew (Or.inr (Or.inr rfl)) hb₂
        | false =>
          exact ensures_bind (freeChain_borrowed h hfirst₁ hb₂) fun _ s₃ hb₃ =>
            ensures_done ⟨_, hb₃, nofun⟩

theorem fillChain_borrowed (h : fs.Laid) : ∀ (fuel c : Nat) (data : List UInt8) (s : Store),
    (c < 2 ∨ isEoc c = true ∨ N c) → fs.Borrowed d₀ N s.sector →
    Ensures (fs.access fails) (fs.fillChain fuel c data) s fun _ s' =>
      fs.Borrowed d₀ N s'.sector := by
  intro fuel
  induction fuel with
  | zero =>
    intro c data s _ hb
    rw [fillChain]
    split
    · exact ensures_done hb
    · exact ensures_done hb
  | succ fuel ih =>
    intro c data s hc hb
    rw [fillChain]
    split
    · exact ensures_done hb
    rename_i hgo
    rw [not_or, not_or] at hgo
    obtain ⟨_, hge, heoc⟩ := hgo
    have hmem : N c := (hc.resolve_left hge).resolve_left heoc
    have hcl := (hb.free c hmem).1
    refine ensures_bind (fillCluster_ensures h hcl fs.sectorsPerCluster 0 data s (by omega)
      (Filled.refl hb.length)) fun r s₁ hfill => ?_
    have hb₁ := hb.filled h hmem hfill.1
    cases r with
    | none => exact ensures_done hb₁
    | some rest =>
      dsimp only
      split
      · exact ensures_done hb₁
      refine ensures_bind (fatGet_ensures h hcl) fun r s₂ hget => ?_
      obtain ⟨hsame, hget, -⟩ := hget
      rcases hget with rfl | rfl
      · exact ensures_done (hsame ▸ hb₁)
      · exact ih _ rest s₂ (hb₁.chain c hmem) (hsame ▸ hb₁)

theorem readDirent_ensures (fs : Fat32Fs) (fails : Nat → Bool) (s : Store) (rel off : Nat) :
    Ensures (fs.access fails) (fat32ReadDirentAt rel off) s fun _ s' => s'.sector = s.sector := by
  rw [fat32ReadDirentAt]
  split
  · exact ensures_done rfl
  · exact (access_read fs fails s rel).1

theorem access_write_none {rel : Nat} {data : List UInt8}
    (h : (fs.access fails s (.write rel 1 data)).1 = none) :
    (fs.access fails s (.write rel 1 data)).2.sector = s.sector := by
  simp only [access] at h ⊢
  split
  · rfl
  · rename_i hserved
    rw [if_neg hserved] at h
    split
    · rfl
    · rename_i hfails
      rw [if_neg hfails] at h
      cases h

theorem writeDirent_ensures (fs : Fat32Fs) (fails : Nat → Bool) (s : Store) (rel off : Nat)
    (e : Dirent) : Ensures (fs.access fails) (fat32WriteDirentAt rel off e) s fun ok s' =>
      ok = false → s'.sector = s.sector := by
  rw [fat32WriteDirentAt]
  split
  · exact ensures_done fun _ => rfl
  obtain ⟨hsame, hread⟩ := access_read fs fails s rel
  refine ensures_ask ?_
  rcases hread with hread | hread
  · rw [hread]
    exact ensures_done fun _ => hsame
  · rw [hread]
    refine ensures_ask (ensures_done fun hok => ?_)
    rw [access_write_none (Option.isSome_eq_false_iff.mp hok |> Option.isNone_iff_eq_none.mp), hsame]

theorem writeFound_borrowed (h : fs.Laid) (hs : ∀ r, (s.sector r).length = 512) (n : Found)
    (data : List UInt8) :
    Ensures (fs.access fails) (fs.writeFound n data) s fun r s' =>
      r = some none → ∃ N, fs.Borrowed s.sector N s'.sector := by
  have hrefl : fs.Borrowed s.sector (fun _ => False) s.sector := Borrowed.refl hs
  rw [writeFound]
  split
  · exact ensures_done fun _ => ⟨_, hrefl⟩
  refine ensures_bind (takeClusters_borrowed h _ 0 0 _ s (Or.inl (by decide)) (Or.inl (by decide))
    hrefl) fun r s₁ htake => ?_
  obtain ⟨N, hb, hfirst⟩ := htake
  cases r with
  | none => exact ensures_done fun _ => ⟨N, hb⟩
  | some first =>
    have hfirst := hfirst first rfl
    refine ensures_bind (fillChain_borrowed h _ first data s₁ (hfirst.imp_right Or.inr) hb)
      fun r s₂ hb₂ => ?_
    rcases r with _ | _ | _
    · exact ensures_done nofun
    · exact ensures_bind (freeChain_borrowed h hfirst hb₂) fun _ s₃ hb₃ =>
        ensures_done fun _ => ⟨N, hb₃⟩
    · refine ensures_bind (readDirent_ensures fs fails s₂ _ _) fun e s₃ hsame => ?_
      cases e with
      | none => exact ensures_done fun _ => ⟨N, hsame ▸ hb₂⟩
      | some e =>
        refine ensures_bind (writeDirent_ensures fs fails s₃ _ _ _) fun ok s₄ hput => ?_
        cases ok with
        | false =>
          refine ensures_done fun _ => ⟨N, ?_⟩
          rw [hput rfl, hsame]
          exact hb₂
        | true =>
          rw [Ensures, run_bind]
          rintro ⟨⟩

theorem writeFound_length (fs : Fat32Fs) (fails : Nat → Bool) (s : Store) (n : Found)
    (data : List UInt8) : Ensures (fs.access fails) (fs.writeFound n data) s fun r _ =>
      ∀ m, r = some (some m) → m = data.length := by
  rw [writeFound]
  split
  · exact ensures_done nofun
  refine ensures_bind (ensures_any _ s) fun r s₁ _ => ?_
  cases r with
  | none => exact ensures_done nofun
  | some first =>
    refine ensures_bind (ensures_any _ s₁) fun r s₂ _ => ?_
    rcases r with _ | _ | _
    · exact ensures_done nofun
    · exact ensures_bind (ensures_any _ s₂) fun _ _ _ => ensures_done nofun
    · refine ensures_bind (ensures_any _ s₂) fun e s₃ _ => ?_
      cases e with
      | none => exact ensures_done nofun
      | some e =>
        refine ensures_bind (ensures_any _ s₃) fun ok s₄ _ => ?_
        cases ok with
        | false => exact ensures_done nofun
        | true =>
          refine ensures_bind (ensures_any _ s₄) fun _ _ _ => ensures_done ?_
          rintro m ⟨⟩
          rfl

end Fat32Fs

end HouseOS.Fat32
