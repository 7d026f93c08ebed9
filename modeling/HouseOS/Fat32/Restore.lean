import HouseOS.Fat32.Borrow
import Mathlib.Order.Interval.Finset.Nat

namespace HouseOS.Fat32

open HouseOS.Disk
open HouseOS.Program
open HouseOS.Program.Prog
open HouseOS.Word

namespace Fat32Fs

variable {fs : Fat32Fs} {fails : Nat → Bool} {s : Store} {d₀ d d' : Sectors} {c next : Nat}
  {l : List Nat}

def Linked (fs : Fat32Fs) (d : Sectors) : Nat → List Nat → Prop
  | _, [] => True
  | next, c :: l => fs.entry d c = next ∧ Linked fs d c l

theorem Linked.congr : ∀ {l : List Nat} {next : Nat}, fs.Linked d next l →
    (∀ c ∈ l, fs.entry d' c = fs.entry d c) → fs.Linked d' next l
  | [], _, _, _ => trivial
  | c :: _, _, ⟨hc, hl⟩, hsame =>
    ⟨(hsame c List.mem_cons_self).trans hc, hl.congr fun x hx => hsame x (List.mem_cons_of_mem c hx)⟩

theorem Linked.entry_mem : ∀ {l : List Nat} {next : Nat}, fs.Linked d next l → ∀ c ∈ l,
    fs.entry d c = next ∨ fs.entry d c ∈ l
  | c :: l, next, ⟨hc, hl⟩, x, hx => by
    rcases List.mem_cons.mp hx with rfl | hx
    · exact Or.inl hc
    · rcases hl.entry_mem x hx with heq | hmem
      · exact Or.inr (heq ▸ List.mem_cons_self)
      · exact Or.inr (List.mem_cons_of_mem c hmem)

theorem linked_snoc : ∀ {l : List Nat} {next : Nat}, fs.Linked d next (l ++ [c]) ↔
    fs.Linked d next l ∧ fs.entry d c = l.getLast?.getD next
  | [], next => by simp [Linked]
  | x :: l, next => by
    have hlast : (x :: l).getLast?.getD next = l.getLast?.getD x := by
      cases l with
      | nil => rfl
      | cons y l => simp [List.getLast?_eq_some_getLast]
    rw [List.cons_append, Linked, Linked, linked_snoc, hlast, and_assoc]

theorem Linked.isChain : ∀ {l : List Nat} {next : Nat}, fs.Linked d next l →
    l.reverse.IsChain fun c c' => fs.entry d c = c'
  | [], _, _ => List.isChain_nil
  | [c], _, _ => List.isChain_singleton c
  | c :: c' :: l, _, ⟨_, hl⟩ => by
    rw [List.reverse_cons, List.isChain_append]
    refine ⟨hl.isChain, List.isChain_singleton c, fun x hx y hy => ?_⟩
    rw [List.reverse_cons, List.getLast?_concat, Option.mem_some] at hx
    rw [List.head?_cons, Option.mem_some] at hy
    rw [← hx, ← hy]
    exact hl.1

structure Freed (fs : Fat32Fs) (l : List Nat) (d d' : Sectors) : Prop where
  length : ∀ r, (d' r).length = 512
  word : ∀ j < fs.numFats, ∀ c, fs.InFat c → fs.word d' j c =
    if c ∈ l then fs.word d j c / 2 ^ 28 * 2 ^ 28 else fs.word d j c
  data : ∀ r, fs.dataStartLba ≤ r → d' r = d r

theorem Freed.nil (hd : ∀ r, (d r).length = 512) : fs.Freed [] d d where
  length := hd
  word j _ c _ := by rw [if_neg (List.not_mem_nil)]
  data _ _ := rfl

theorem Freed.snoc {d₁ : Sectors} (hw : fs.Wrote c 0 fs.numFats d d₁) (hf : fs.Freed l d₁ d') :
    fs.Freed (l ++ [c]) d d' where
  length := hf.length
  word j hj x hx := by
    have hword := hw.word j hj x hx
    rw [hf.word j hj x hx]
    by_cases hxc : x = c
    · subst hxc
      rw [if_pos ⟨rfl, hj⟩] at hword
      rw [if_pos (by simp : x ∈ l ++ [x]), hword]
      split
      · omega
      · omega
    · rw [if_neg (fun h => hxc h.1)] at hword
      simp only [hword, List.mem_append, List.mem_singleton, hxc, or_false]
  data r hr := by rw [hf.data r hr, hw.data r hr]

theorem freeLoop_frees (h : fs.Laid) (hno : NoFault fails) (l : List Nat) :
    ∀ (guard first : Nat) (s : Store), (∀ r, (s.sector r).length = 512) → l.Nodup →
      (∀ c ∈ l, fs.IsCluster c) → fs.Linked s.sector fat32Eoc l → l.getLast? = some first →
      l.length ≤ guard →
      Ensures (fs.access fails) (fs.freeLoop guard first) s fun _ s' =>
        fs.Freed l s.sector s'.sector := by
  induction l using List.reverseRecOn with
  | nil =>
    intro guard first s _ _ _ _ hlast
    cases hlast
  | append_singleton l c ih =>
    intro guard first s hs hnodup hcl hlinked hlast hguard
    obtain rfl : c = first := by simpa using hlast
    obtain ⟨hlinked, hentry⟩ := linked_snoc.mp hlinked
    obtain ⟨hl, -, hdisj⟩ := List.nodup_append.mp hnodup
    have hc := hcl c (by simp)
    obtain ⟨guard, rfl⟩ : ∃ g, guard = g + 1 := ⟨guard - 1, by simp at hguard; omega⟩
    rw [freeLoop, if_neg (by have := hc.1; omega)]
    refine ensures_bind (fatGet_ensures h hc) fun r s₁ hget => ?_
    obtain ⟨hsame, -, hget⟩ := hget
    obtain rfl := hget hno
    refine ensures_bind (fatSet_ensures h 0 hc (hsame ▸ hs)) fun ok s₂ hset => ?_
    obtain ⟨k, -, hw, hall, hok⟩ := hset
    obtain rfl := hok hno
    obtain rfl := hall rfl
    rw [hsame] at hw
    simp only [Bool.not_true, Bool.false_eq_true, if_false]
    rcases List.eq_nil_or_concat l with rfl | ⟨l', prev, rfl⟩
    · have heoc : isEoc (fs.entry s.sector c) = true := by
        rw [hentry]
        rfl
      rw [if_pos (Or.inl heoc)]
      exact ensures_done ((Freed.nil hw.length).snoc hw)
    · have hprev : fs.entry s.sector c = prev := by simpa using hentry
      have hprevcl := hcl prev (by simp)
      have hgo : ¬ (isEoc prev = true ∨ prev < 2) := by
        have hge := hprevcl.1
        simp only [h.not_eoc hprevcl, Bool.false_eq_true, false_or]
        omega
      rw [hprev, if_neg hgo]
      refine (ih guard prev s₂ hw.length hl (fun x hx => hcl x (List.mem_append_left _ hx)) ?_ (by simp) ?_).imp
        fun _ s₃ hf => hf.snoc hw
      · refine hlinked.congr fun x hx => ?_
        rw [h.inFat_entry hw (h.inFat (hcl x (List.mem_append_left _ hx))), if_neg]
        rintro ⟨rfl, -⟩
        exact hdisj x hx x (by simp) rfl
      · simp only [List.length_append, List.length_singleton] at hguard ⊢
        omega

-- the clusters taken so far, the last one first, are linked from the last of them on
structure Lent (fs : Fat32Fs) (d₀ : Sectors) (l : List Nat) (d : Sectors) : Prop where
  borrowed : fs.Borrowed d₀ (fun c => c ∈ l) d
  nodup : l.Nodup
  linked : fs.Linked d fat32Eoc l

def Copied (fs : Fat32Fs) (d : Sectors) : Prop :=
  ∀ j < fs.numFats, ∀ c, fs.InFat c → fs.word d j c % 2 ^ 28 = fs.entry d c

-- every entry of every FAT and every cluster that is not free are as before
structure Restored (fs : Fat32Fs) (d₀ d : Sectors) : Prop where
  words : ∀ j < fs.numFats, ∀ c, fs.InFat c → fs.word d j c = fs.word d₀ j c
  clusters : ∀ c, fs.IsCluster c → fs.entry d₀ c ≠ 0 → ∀ i < fs.sectorsPerCluster,
    d (fs.clusterSector c i) = d₀ (fs.clusterSector c i)

theorem Restored.refl (d : Sectors) : fs.Restored d d := ⟨fun _ _ _ _ => rfl, fun _ _ _ _ _ => rfl⟩

namespace Lent

theorem nil (hd : ∀ r, (d r).length = 512) : fs.Lent d [] d where
  borrowed :=
    { length := hd
      free := fun _ hc => nomatch hc
      chain := fun _ hc => nomatch hc
      words := fun _ _ _ _ => Or.inl rfl
      data := fun _ _ _ _ _ => rfl }
  nodup := List.nodup_nil
  linked := trivial

theorem isCluster (hl : fs.Lent d₀ l d) : ∀ c ∈ l, fs.IsCluster c :=
  fun c hc => (hl.borrowed.free c hc).1

theorem length_le (hl : fs.Lent d₀ l d) : l.length ≤ fs.fat32MaxCluster := by
  have hsub : l.toFinset ⊆ Finset.Icc 1 fs.fat32MaxCluster := by
    intro c hc
    have hcl := hl.isCluster c (List.mem_toFinset.mp hc)
    exact Finset.mem_Icc.mpr ⟨by have := hcl.1; omega, hcl.2⟩
  have hcard := Finset.card_le_card hsub
  rw [List.toFinset_card_of_nodup hl.nodup, Nat.card_Icc] at hcard
  omega

theorem not_mem_of_free (hl : fs.Lent d₀ l d) (hfree : fs.entry d c = 0) : c ∉ l := by
  intro hc
  rcases hl.linked.entry_mem c hc with heq | hmem
  · rw [hfree] at heq
    cases heq
  · rw [hfree] at hmem
    exact absurd (hl.isCluster 0 hmem).1 (by decide)

theorem freed (hl : fs.Lent d₀ l d) (hcopies : fs.Copied d₀)
    (hf : fs.Freed l d d') : fs.Restored d₀ d' where
  words j hj c hc := by
    rw [hf.word j hj c hc]
    have hw := hl.borrowed.words j hj c hc
    split
    · rename_i hmem
      have htop : fs.word d j c / 2 ^ 28 = fs.word d₀ j c / 2 ^ 28 := by
        rcases hw with heq | ⟨_, heq⟩
        · rw [heq]
        · exact heq
      have hzero := hcopies j hj c hc
      rw [(hl.borrowed.free c hmem).2] at hzero
      omega
    · rename_i hnot
      exact hw.resolve_right fun h => hnot h.1
  clusters c hc hused i hi := by
    rw [hf.data _ (by rw [clusterSector]; omega)]
    exact hl.borrowed.data c hc (fun hmem => hused (hl.borrowed.free c hmem).2) i hi

theorem release (h : fs.Laid) (hno : NoFault fails) (hl : fs.Lent d₀ l s.sector) :
    Ensures (fs.access fails) (fs.fat32FreeChain (l.getLast?.getD 0)) s fun _ s' =>
      fs.Copied d₀ → fs.Restored d₀ s'.sector := by
  have hlen := hl.length_le
  rcases List.eq_nil_or_concat l with rfl | ⟨l', first, rfl⟩
  · exact ensures_done fun hcopies => hl.freed hcopies (Freed.nil hl.borrowed.length)
  · have hcl := hl.isCluster first (by simp)
    have hfew := h.few
    have hguard : add32 fs.fat32MaxCluster 8 = fs.fat32MaxCluster + 8 := add32_eq (by omega)
    have hfirst : (l'.concat first).getLast?.getD 0 = first := by simp
    rw [hfirst, fat32FreeChain, if_neg (by have := hcl.1; omega), hguard]
    exact (freeLoop_frees h hno _ _ first s hl.borrowed.length hl.nodup hl.isCluster hl.linked
      (by simp) (by omega)).imp fun _ s' hf hcopies => hl.freed hcopies hf

theorem took (h : fs.Laid) (hl : fs.Lent d₀ l d) (ht : fs.Took c fs.numFats d d') :
    c ∉ l ∧ fs.entry d' c = fat32Eoc ∧ (∀ x ∈ l, fs.entry d' x = fs.entry d x) ∧
      fs.Borrowed d₀ (fun x => x ∈ c :: l) d' := by
  have hnot := hl.not_mem_of_free ht.free
  have hb := hl.borrowed.took h ht
  obtain ⟨d₁, hw, hf⟩ := ht.steps
  have hentry : ∀ x, fs.InFat x → fs.entry d' x =
      if x = c ∧ 0 < fs.numFats then fat32Eoc % 2 ^ 28 else fs.entry d x := by
    intro x hx
    rw [h.filled_entry hf hx, h.inFat_entry hw hx]
  refine ⟨hnot, ?_, fun x hx => ?_, ?_⟩
  · rw [hentry c (h.inFat ht.cluster), if_pos ⟨rfl, h.fat_pos⟩]
    rfl
  · rw [hentry x (h.inFat (hl.isCluster x hx)), if_neg]
    rintro ⟨rfl, -⟩
    exact hnot hx
  · have hmem : (fun x => x ∈ c :: l) = fun x => x ∈ l ∨ x = c := by
      funext x
      rw [List.mem_cons, or_comm]
    rw [hmem]
    exact hb

theorem first (hl : fs.Lent d₀ l d) (hb : fs.Borrowed d₀ (fun x => x ∈ c :: l) d')
    (hnot : c ∉ l) (hc : fs.entry d' c = fat32Eoc) (hlinked : fs.Linked d' c l) :
    fs.Lent d₀ (c :: l) d' :=
  ⟨hb, List.nodup_cons.mpr ⟨hnot, hl.nodup⟩, hc, hlinked⟩

theorem link (h : fs.Laid) {prev : Nat} (hl : fs.Lent d₀ (prev :: l) d) {d₁ d₂ : Sectors}
    (ht : fs.Took c fs.numFats d d₁) (hw : fs.Wrote prev c fs.numFats d₁ d₂) :
    fs.Lent d₀ (c :: prev :: l) d₂ := by
  obtain ⟨hnot, heoc, hsame, hb⟩ := hl.took h ht
  have hlt : c < 2 ^ 28 := by
    have hfew := h.few
    have hmax := ht.cluster.2
    omega
  have hb₂ := hb.wrote h (List.mem_cons_of_mem c List.mem_cons_self) hlt
    (Or.inr (Or.inr List.mem_cons_self)) hw
  have hentry : ∀ x ∈ c :: prev :: l, fs.entry d₂ x = if x = prev then c else fs.entry d₁ x := by
    intro x hx
    rw [h.inFat_entry hw (h.inFat (hb.free x hx).1), Nat.mod_eq_of_lt hlt]
    exact if_congr (and_iff_left h.fat_pos) rfl rfl
  have hne : c ≠ prev := fun heq => hnot (heq ▸ List.mem_cons_self)
  refine hl.first hb₂ hnot ?_ ⟨?_, hl.linked.2.congr fun x hx => ?_⟩
  · rw [hentry c List.mem_cons_self, if_neg hne, heoc]
  · rw [hentry prev (List.mem_cons_of_mem c List.mem_cons_self), if_pos rfl]
  · rw [hentry x (List.mem_cons_of_mem c (List.mem_cons_of_mem prev hx)), if_neg,
      hsame x (List.mem_cons_of_mem prev hx)]
    rintro rfl
    exact (List.nodup_cons.mp hl.nodup).1 hx

theorem last_ge {prev : Nat} (hl : fs.Lent d₀ (prev :: l) d) :
    ¬ (prev :: l).getLast?.getD 0 < 2 ∧ ¬ (prev :: l).head?.getD 0 < 2 := by
  have hge : ∀ c ∈ prev :: l, 2 ≤ c := fun c hc => (hl.isCluster c hc).1
  rw [List.getLast?_eq_some_getLast (List.cons_ne_nil prev l)]
  exact ⟨Nat.not_lt.mpr (hge _ (List.getLast_mem _)), Nat.not_lt.mpr (hge prev List.mem_cons_self)⟩

end Lent

theorem takeClusters_lent (h : fs.Laid) (hno : NoFault fails) : ∀ (need : Nat) (l : List Nat) (s : Store),
    fs.Lent d₀ l s.sector →
      Ensures (fs.access fails) (fs.takeClusters need (l.getLast?.getD 0) (l.head?.getD 0)) s fun r s' =>
        (r = none → fs.Copied d₀ → fs.Restored d₀ s'.sector) ∧
          ∀ first, r = some first → ∃ l', fs.Lent d₀ l' s'.sector ∧ l'.length = l.length + need ∧
            first = l'.getLast?.getD 0 := by
  intro need
  induction need with
  | zero =>
    intro l s hl
    exact ensures_done ⟨fun hr => (by cases hr), fun first hfirst => ⟨l, hl, rfl, (Option.some.inj hfirst).symm⟩⟩
  | succ need ih =>
    intro l s hl
    rw [takeClusters]
    refine ensures_bind (allocCluster_ensures h hl.borrowed.length) fun r s₁ halloc => ?_
    rcases halloc with ⟨rfl, hsame⟩ | ⟨c, k, htook, hr, hsome⟩
    · exact ensures_bind (Lent.release h hno (hsame ▸ hl)) fun _ s₂ hrestored =>
        ensures_done ⟨fun _ => hrestored, fun _ hr => by cases hr⟩
    obtain rfl := hsome hno
    obtain ⟨-, rfl⟩ := hr c rfl
    cases l with
    | nil =>
      obtain ⟨hnot, heoc, -, hb⟩ := hl.took h htook
      refine (ih [c] s₁ (hl.first hb hnot heoc trivial)).imp fun r s' hr => ⟨hr.1, fun first hfirst => ?_⟩
      obtain ⟨l', hl', hlen, hlast⟩ := hr.2 first hfirst
      exact ⟨l', hl', by rw [hlen, List.length_singleton, List.length_nil]; omega, hlast⟩
    | cons prev l =>
      obtain ⟨hfirst, hge⟩ := hl.last_ge
      simp only [if_neg hfirst, if_neg hge]
      have hprev := hl.isCluster prev List.mem_cons_self
      refine ensures_bind (fatSet_ensures h c hprev (hl.took h htook).2.2.2.length) fun ok s₂ hset => ?_
      obtain ⟨k, -, hw, hall, hok⟩ := hset
      obtain rfl := hok hno
      obtain rfl := hall rfl
      have hrest := ih (c :: prev :: l) s₂ (hl.link h htook hw)
      have hlast : (c :: prev :: l).getLast?.getD 0 = (prev :: l).getLast?.getD 0 := by simp
      rw [hlast] at hrest
      refine hrest.imp fun r s' hr => ⟨hr.1, fun first hfirst => ?_⟩
      obtain ⟨l', hl', hlen, hlast⟩ := hr.2 first hfirst
      exact ⟨l', hl', by rw [hlen, List.length_cons]; omega, hlast⟩

theorem fillChain_succeeds (h : fs.Laid) (hno : NoFault fails) {N : Nat → Prop} :
    ∀ (fuel c : Nat) (data : List UInt8) (s : Store), (c < 2 ∨ isEoc c = true ∨ N c) →
      fs.Borrowed d₀ N s.sector →
      Ensures (fs.access fails) (fs.fillChain fuel c data) s fun r _ => r ≠ some false := by
  intro fuel
  induction fuel with
  | zero =>
    intro c data s _ _
    rw [fillChain]
    split
    · exact ensures_done (by decide)
    · exact ensures_done (by decide)
  | succ fuel ih =>
    intro c data s hc hb
    rw [fillChain]
    split
    · exact ensures_done (by decide)
    rename_i hgo
    rw [not_or, not_or] at hgo
    obtain ⟨_, hge, heoc⟩ := hgo
    have hmem : N c := (hc.resolve_left hge).resolve_left heoc
    have hcl := (hb.free c hmem).1
    refine ensures_bind (fillCluster_ensures h hcl fs.sectorsPerCluster 0 data s (by omega)
      (Filled.refl hb.length)) fun r s₁ hfill => ?_
    have hb₁ := hb.filled h hmem hfill.1
    obtain rfl := hfill.2 hno
    dsimp only
    split
    · exact ensures_done (by decide)
    refine ensures_bind (fatGet_ensures h hcl) fun r s₂ hget => ?_
    obtain ⟨hsame, -, hget⟩ := hget
    obtain rfl := hget hno
    exact ih _ _ s₂ (hb₁.chain c hmem) (hsame ▸ hb₁)

theorem dirents_served (hno : NoFault fails) {rel off : Nat} (hserved : fs.unserved rel 1 = false)
    (hoff : misplaced off = false) (s : Store) :
    Ensures (fs.access fails) (fat32ReadDirentAt rel off) s (fun r _ => r ≠ none) ∧
      ∀ e, Ensures (fs.access fails) (fat32WriteDirentAt rel off e) s fun ok _ => ok = true := by
  refine ⟨?_, fun e => ?_⟩
  · rw [fat32ReadDirentAt, if_neg (by rw [hoff]; decide)]
    refine ensures_ask ?_
    rw [(access_served hno s hserved).1]
    exact ensures_done (Option.some_ne_none _)
  · rw [fat32WriteDirentAt, if_neg (by rw [hoff]; decide)]
    refine ensures_ask ?_
    rw [(access_served hno s hserved).1]
    refine ensures_ask ?_
    rw [(access_served hno _ hserved).2]
    exact ensures_done rfl

-- with every access served, a write can only fail for want of a cluster
theorem writeFound_restored (h : fs.Laid) (hno : NoFault fails)
    (hs : ∀ r, (s.sector r).length = 512)
    (hcopies : fs.Copied s.sector) {n : Found}
    (hserved : fs.unserved n.entryRelSector 1 = false) (hoff : misplaced n.entryOffset = false)
    (data : List UInt8) :
    Ensures (fs.access fails) (fs.writeFound n data) s fun r s' =>
      r = some none → fs.Restored s.sector s'.sector := by
  rw [writeFound]
  split
  · exact ensures_done fun _ => Restored.refl _
  have htake : Ensures (fs.access fails) (fs.takeClusters (fs.needClusters data.length) 0 0) s
      fun r s' => (r = none → fs.Restored s.sector s'.sector) ∧ ∃ N,
        fs.Borrowed s.sector N s'.sector ∧ ∀ first, r = some first → first < 2 ∨ N first :=
    ⟨(takeClusters_lent h hno _ [] s (Lent.nil hs)).imp fun _ _ hr hnone => hr.1 hnone hcopies,
      takeClusters_borrowed h _ 0 0 _ s
      (Or.inl (by decide)) (Or.inl (by decide)) (Borrowed.refl hs)⟩
  refine ensures_bind htake fun r s₁ htaken => ?_
  obtain ⟨hnone, N, hb, hfirst⟩ := htaken
  cases r with
  | none => exact ensures_done fun _ => hnone rfl
  | some first =>
    refine ensures_bind (fillChain_succeeds h hno _ first data s₁
      ((hfirst first rfl).imp_right Or.inr) hb) fun r s₂ hfill => ?_
    rcases r with _ | _ | _
    · exact ensures_done fun h => by cases h
    · exact absurd rfl hfill
    · refine ensures_bind (dirents_served hno hserved hoff s₂).1 fun e s₃ he => ?_
      cases e with
      | none => exact absurd rfl he
      | some e =>
        refine ensures_bind ((dirents_served hno hserved hoff s₃).2 _) fun ok s₄ hok => ?_
        subst hok
        rw [Ensures, run_bind]
        rintro ⟨⟩

end Fat32Fs

end HouseOS.Fat32
