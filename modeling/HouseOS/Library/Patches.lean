import HouseOS.Library.ByteMem
import Mathlib.Data.List.Perm.Basic
import Mathlib.Data.List.Pairwise

namespace HouseOS.Patches

open HouseOS.ByteMem

section Folds

variable {σ γ δ : Type} {f g : σ → γ → Option σ} {Inv : σ → Prop} {l : List γ} {s s' : σ}

theorem foldlM_flatMap (h : γ → List δ) (g : σ → δ → Option σ) (l : List γ) (s : σ) :
    (l.flatMap h).foldlM g s = l.foldlM (fun t c => (h c).foldlM g t) s := by
  induction l generalizing s with
  | nil => rfl
  | cons c l ih =>
    rw [List.flatMap_cons, List.foldlM_append, List.foldlM_cons]
    exact congrArg _ (funext ih)

theorem foldlM_congr (hsame : ∀ c ∈ l, ∀ t, Inv t → f t c = g t c)
    (hkeep : ∀ c ∈ l, ∀ t t', Inv t → g t c = some t' → Inv t') (hs : Inv s) :
    l.foldlM f s = l.foldlM g s := by
  induction l generalizing s with
  | nil => rfl
  | cons c l ih =>
    rw [List.foldlM_cons, List.foldlM_cons, hsame c List.mem_cons_self s hs]
    cases hstep : g s c with
    | none => rfl
    | some t =>
      have ht := hkeep c List.mem_cons_self s t hs hstep
      exact ih (fun c hc => hsame c (List.mem_cons_of_mem _ hc))
        (fun c hc => hkeep c (List.mem_cons_of_mem _ hc)) ht

theorem foldlM_keeps (hkeep : ∀ c ∈ l, ∀ t t', Inv t → g t c = some t' → Inv t') (hs : Inv s)
    (h : l.foldlM g s = some s') : Inv s' := by
  induction l generalizing s with
  | nil =>
    cases h
    exact hs
  | cons c l ih =>
    rw [List.foldlM_cons] at h
    obtain ⟨t, hstep, h⟩ := Option.bind_eq_some_iff.mp h
    exact ih (fun c hc => hkeep c (List.mem_cons_of_mem _ hc))
      (hkeep c List.mem_cons_self s t hs hstep) h

end Folds

section Words

variable {ι : Type} (place : ι → Nat) (val : ι → Nat → Option Nat)

def patch (m : Mem) (i : ι) : Option Mem :=
  (val i (load32 m (place i))).map (store32 m (place i))

def Apart (i j : ι) : Prop := place i + 4 ≤ place j ∨ place j + 4 ≤ place i

structure Patched (m : Mem) (l : List ι) (m' : Mem) : Prop where
  words : ∀ i ∈ l, ∃ v, val i (load32 m (place i)) = some v ∧ ∀ k < 4, m' (place i + k) = byte v k
  others : ∀ x, (∀ i ∈ l, ∀ k < 4, x ≠ place i + k) → m' x = m x

variable {place val} {m m' m'' : Mem} {l l' : List ι} {i : ι}

theorem load32_patch {v : Nat} {j : ι} (hapart : Apart place i j) :
    load32 (store32 m (place i) v) (place j) = load32 m (place j) :=
  load32_store32_ne v (Or.symm hapart)

theorem patched_of_patches (hapart : l.Pairwise (Apart place))
    (h : l.foldlM (patch place val) m = some m') : Patched place val m l m' := by
  induction l generalizing m with
  | nil =>
    cases h
    exact ⟨fun i hi => (List.not_mem_nil hi).elim, fun _ _ => rfl⟩
  | cons i l ih =>
    rw [List.foldlM_cons] at h
    obtain ⟨m₁, hstep, h⟩ := Option.bind_eq_some_iff.mp h
    obtain ⟨v, hv, rfl⟩ := Option.map_eq_some_iff.mp hstep
    obtain ⟨hi, hl⟩ := List.pairwise_cons.mp hapart
    have hrest := ih hl h
    refine ⟨List.forall_mem_cons.mpr ⟨⟨v, hv, fun k hk => ?_⟩, fun j hj => ?_⟩, fun x hx => ?_⟩
    · rw [hrest.others _ fun j hj k' hk' heq => ?_, store32_byte m _ v hk]
      have := hi j hj
      unfold Apart at this
      omega
    · have hword := hrest.words j hj
      rwa [load32_patch (hi j hj)] at hword
    · rw [hrest.others x fun j hj => hx j (List.mem_cons_of_mem i hj)]
      refine store32_ne v ?_
      by_contra hin
      exact hx i List.mem_cons_self (x - place i) (by omega) (by omega)

theorem patches_isSome_iff (hapart : l.Pairwise (Apart place)) :
    (l.foldlM (patch place val) m).isSome ↔ ∀ i ∈ l, (val i (load32 m (place i))).isSome := by
  induction l generalizing m with
  | nil => exact iff_of_true rfl fun i hi => (List.not_mem_nil hi).elim
  | cons i l ih =>
    obtain ⟨hi, hl⟩ := List.pairwise_cons.mp hapart
    rw [List.foldlM_cons, List.forall_mem_cons, patch]
    cases hv : val i (load32 m (place i)) with
    | none => exact iff_of_false (fun h => nomatch h) fun h => nomatch h.1
    | some v =>
      have hrest := ih (m := store32 m (place i) v) hl
      refine hrest.trans ⟨fun h => ⟨rfl, fun j hj => ?_⟩, fun h j hj => ?_⟩
      · rw [← load32_patch (v := v) (hi j hj)]
        exact h j hj
      · rw [load32_patch (hi j hj)]
        exact h.2 j hj

theorem Apart.symm {j : ι} (h : Apart place i j) : Apart place j i := Or.symm h

theorem apart_perm (hp : l'.Perm l) (hapart : l.Pairwise (Apart place)) :
    l'.Pairwise (Apart place) :=
  (hp.pairwise_iff fun h => h.symm).mpr hapart

end Words

end HouseOS.Patches
