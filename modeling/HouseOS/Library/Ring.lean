import Mathlib.Data.Int.ModEq
import Mathlib.Data.List.Range
import Mathlib.Logic.Function.Basic
import Mathlib.Tactic.Common
import Mathlib.Data.List.TakeDrop

namespace HouseOS.Ring

variable {α : Type} {q : Nat → α} {cap head tail len : Nat} {marked : α → Prop}

def contents (q : Nat → α) (cap head len : Nat) : List α :=
  (List.range len).map fun i => q ((head + i) % cap)

def Occupied (cap head len k : Nat) : Prop := ∃ i < len, (head + i) % cap = k

theorem slot_inj {i j : Nat} (hi : i < cap) (hj : j < cap)
    (h : (head + i) % cap = (head + j) % cap) : i = j := by
  have hmod : i ≡ j [MOD cap] := Nat.ModEq.add_left_cancel' head h
  unfold Nat.ModEq at hmod
  rwa [Nat.mod_eq_of_lt hi, Nat.mod_eq_of_lt hj] at hmod

theorem length_contents : (contents q cap head len).length = len := by
  rw [contents, List.length_map, List.length_range]

theorem contents_zero : contents q cap head 0 = [] := rfl

theorem contents_push (h : len < cap) (x : α) :
    contents (Function.update q ((head + len) % cap) x) cap head (len + 1) =
      contents q cap head len ++ [x] := by
  rw [contents, List.range_succ, List.map_append, List.map_singleton, Function.update_self, contents]
  congr 1
  refine List.map_congr_left fun i hi => Function.update_of_ne (fun heq => ?_) _ _
  have hi := List.mem_range.mp hi
  exact absurd (slot_inj (by omega) h heq) (by omega)

theorem contents_pop :
    contents q cap head (len + 1) = q (head % cap) :: contents q cap ((head + 1) % cap) len := by
  rw [contents, List.range_succ_eq_map, List.map_cons, List.map_map, contents]
  congr 1
  refine List.map_congr_left fun i _ => ?_
  rw [Function.comp_apply, Nat.mod_add_mod, Nat.succ_eq_add_one, Nat.add_assoc, Nat.add_comm 1 i]

theorem contents_clear (hhead : head < cap) (h : len < cap) (y : α) :
    contents (Function.update q head y) cap ((head + 1) % cap) len =
      contents q cap ((head + 1) % cap) len := by
  refine List.map_congr_left fun i hi => Function.update_of_ne (fun heq => ?_) _ _
  have hi := List.mem_range.mp hi
  rw [Nat.mod_add_mod, Nat.add_assoc] at heq
  have hzero : (head + (1 + i)) % cap = (head + 0) % cap := by
    rw [heq, Nat.add_zero, Nat.mod_eq_of_lt hhead]
  exact absurd (slot_inj (by omega) (by omega) hzero) (by omega)

-- the marked cells are the `len` ones from the head on
structure Holds (marked : α → Prop) (cap : Nat) (q : Nat → α) (head tail len : Nat) : Prop where
  inside : head < cap
  room : len ≤ cap
  end_eq : tail = (head + len) % cap
  marks : ∀ k < cap, marked (q k) ↔ Occupied cap head len k

namespace Holds

theorem empty (hcap : 0 < cap) (h : ∀ k < cap, ¬ marked (q k)) : Holds marked cap q 0 0 0 :=
  ⟨hcap, Nat.zero_le _, (Nat.zero_mod _).symm, fun k hk =>
    ⟨fun hm => absurd hm (h k hk), fun ⟨_, hi, _⟩ => absurd hi (Nat.not_lt_zero _)⟩⟩

theorem push (h : Holds marked cap q head tail len) (hlen : len < cap) {x : α} (hx : marked x) :
    Holds marked cap (Function.update q tail x) head ((tail + 1) % cap) (len + 1) := by
  refine ⟨h.inside, hlen, ?_, fun k hk => ?_⟩
  · rw [h.end_eq, Nat.mod_add_mod, Nat.add_assoc]
  · rw [h.end_eq]
    by_cases hkt : k = (head + len) % cap
    · rw [hkt, Function.update_self]
      exact ⟨fun _ => ⟨len, Nat.lt_succ_self _, rfl⟩, fun _ => hx⟩
    · rw [Function.update_of_ne hkt, h.marks k hk]
      constructor
      · rintro ⟨i, hi, rfl⟩
        exact ⟨i, by omega, rfl⟩
      · rintro ⟨i, hi, rfl⟩
        have hne : i ≠ len := fun heq => hkt (by rw [heq])
        exact ⟨i, by omega, rfl⟩

theorem pop (h : Holds marked cap q head tail (len + 1)) {y : α} (hy : ¬ marked y) :
    Holds marked cap (Function.update q head y) ((head + 1) % cap) tail len := by
  have hlen := h.room
  refine ⟨Nat.mod_lt _ (by omega), by omega, ?_, fun k hk => ?_⟩
  · rw [h.end_eq, Nat.mod_add_mod, Nat.add_assoc, Nat.add_comm 1 len]
  · by_cases hkh : k = head
    · rw [hkh, Function.update_self]
      refine ⟨fun hm => absurd hm hy, ?_⟩
      rintro ⟨i, hi, heq⟩
      rw [Nat.mod_add_mod, Nat.add_assoc] at heq
      have hzero : (head + (1 + i)) % cap = (head + 0) % cap := by
        rw [heq, Nat.add_zero, Nat.mod_eq_of_lt h.inside]
      exact absurd (slot_inj (by omega) (by omega) hzero) (by omega)
    · rw [Function.update_of_ne hkh, h.marks k hk]
      constructor
      · rintro ⟨i, hi, rfl⟩
        obtain ⟨j, rfl⟩ : ∃ j, i = j + 1 := Nat.exists_eq_succ_of_ne_zero fun h0 => hkh (by
          rw [h0, Nat.add_zero, Nat.mod_eq_of_lt h.inside])
        exact ⟨j, by omega, by rw [Nat.mod_add_mod, Nat.add_assoc, Nat.add_comm 1 j]⟩
      · rintro ⟨j, hj, rfl⟩
        exact ⟨j + 1, by omega, by rw [Nat.mod_add_mod, Nat.add_assoc, Nat.add_comm 1 j]⟩

theorem marked_head (h : Holds marked cap q head tail (len + 1)) : marked (q head) :=
  (h.marks head h.inside).mpr ⟨0, Nat.succ_pos _, by rw [Nat.add_zero, Nat.mod_eq_of_lt h.inside]⟩

end Holds

end HouseOS.Ring

namespace HouseOS.RecentRing

variable {β : Type} {cap next count : Nat} {get get' : Nat → β}

def slot (cap next i : Nat) : Nat := (next + cap - 1 - i) % cap

def entries (cap next count : Nat) (get : Nat → β) : List β :=
  (List.range count).map fun i => get (slot cap next i)

theorem slot_lt (hcap : 0 < cap) (i : Nat) : slot cap next i < cap := Nat.mod_lt _ hcap

theorem length_entries : (entries cap next count get).length = count := by
  rw [entries, List.length_map, List.length_range]

theorem getElem?_entries {i : Nat} (hi : i < count) :
    (entries cap next count get)[i]? = some (get (slot cap next i)) := by
  rw [entries, List.getElem?_map, List.getElem?_range hi, Option.map_some]

theorem head?_entries (h : 0 < count) :
    (entries cap next count get).head? = some (get (slot cap next 0)) := by
  rw [List.head?_eq_getElem?, getElem?_entries h]

theorem slot_push_zero (hnext : next < cap) : slot cap ((next + 1) % cap) 0 = next := by
  unfold slot
  by_cases hlast : next + 1 = cap
  · rw [hlast, Nat.mod_self, Nat.mod_eq_of_lt (by omega)]
    omega
  · rw [Nat.mod_eq_of_lt (show next + 1 < cap by omega)]
    have hturn : next + 1 + cap - 1 - 0 = next + cap := by omega
    rw [hturn, Nat.add_mod_right, Nat.mod_eq_of_lt hnext]

theorem slot_push_succ (hnext : next < cap) {i : Nat} (hi : i + 1 < cap) :
    slot cap ((next + 1) % cap) (i + 1) = slot cap next i := by
  unfold slot
  by_cases hlast : next + 1 = cap
  · have hturn : next + cap - 1 - i = cap - 1 - (i + 1) + cap := by omega
    rw [hlast, Nat.mod_self, hturn, Nat.add_mod_right, Nat.zero_add]
  · rw [Nat.mod_eq_of_lt (show next + 1 < cap by omega)]
    congr 1
    omega

theorem slot_ne_next (hnext : next < cap) {i : Nat} (hi : i + 1 < cap) : slot cap next i ≠ next := by
  unfold slot
  by_cases hwrap : next < i + 1
  · rw [Nat.mod_eq_of_lt (by omega)]
    omega
  · have hturn : next + cap - 1 - i = next - 1 - i + cap := by omega
    rw [hturn, Nat.add_mod_right, Nat.mod_eq_of_lt (by omega)]
    omega

theorem entries_push (hnext : next < cap) (hcount : count ≤ cap)
    (hold : ∀ s < cap, s ≠ next → get' s = get s) :
    entries cap ((next + 1) % cap) (if count < cap then count + 1 else count) get' =
      (get' next :: entries cap next count get).take cap := by
  have hnew : (if count < cap then count + 1 else count) = min (count + 1) cap := by
    split <;> omega
  have hrest (i : Nat) (hi : i + 1 < cap) :
      get' (slot cap ((next + 1) % cap) (i + 1)) = get (slot cap next i) := by
    rw [slot_push_succ hnext hi]
    exact hold _ (slot_lt (by omega) i) (slot_ne_next hnext hi)
  rw [hnew]
  refine List.ext_getElem? fun i => ?_
  by_cases hi : i < min (count + 1) cap
  · rw [getElem?_entries hi, List.getElem?_take, if_pos (by omega)]
    cases i with
    | zero => rw [slot_push_zero hnext, List.getElem?_cons_zero]
    | succ i =>
      rw [List.getElem?_cons_succ, getElem?_entries (by omega), hrest i (by omega)]
  · rw [List.getElem?_eq_none (by rw [length_entries]; omega), List.getElem?_eq_none]
    rw [List.length_take, List.length_cons, length_entries]
    omega

end HouseOS.RecentRing

namespace HouseOS.CycleRing

variable {α : Type} {n k i j : Nat} {ring : Nat → α} {l : List α} {x : α}

-- the cycle bit of the pass that the entry of a number falls into
def cycleAt (n i : Nat) : Bool := i / n % 2 == 0

theorem cycleAt_first (hi : i < n) : cycleAt n i = true := by
  rw [cycleAt, Nat.div_eq_of_lt hi]
  rfl

theorem cycleAt_add (hn : 0 < n) : cycleAt n (i + n) = !cycleAt n i := by
  rw [cycleAt, cycleAt, Nat.add_div_right i hn]
  rcases Nat.mod_two_eq_zero_or_one (i / n) with h | h
  · rw [h, show (i / n).succ % 2 = 1 by omega]
    rfl
  · rw [h, show (i / n).succ % 2 = 0 by omega]
    rfl

theorem div_succ (hi : i % n + 1 < n) : (i + 1) / n = i / n := by
  have hi' := Nat.div_add_mod i n
  have hq : i + 1 = i % n + 1 + n * (i / n) := by omega
  rw [hq, Nat.add_mul_div_left _ _ (by omega), Nat.div_eq_of_lt hi, Nat.zero_add]

theorem mod_succ (hi : i % n + 1 < n) : (i + 1) % n = i % n + 1 := by
  have hi' := Nat.div_add_mod i n
  have hq : i + 1 = i % n + 1 + n * (i / n) := by omega
  rw [hq, Nat.add_mul_mod_self_left, Nat.mod_eq_of_lt hi]

theorem cycleAt_succ (hi : i % n + 1 < n) : cycleAt n (i + 1) = cycleAt n i := by
  rw [cycleAt, cycleAt, div_succ hi]

theorem turn (hi : i % n + 1 = n) : i + 1 = n * (i / n + 1) := by
  have hi' := Nat.div_add_mod i n
  rw [Nat.mul_succ]
  omega

theorem mod_turn (hi : i % n + 1 = n) : (i + 1) % n = 0 := by
  rw [turn hi, Nat.mul_mod_right]

theorem cycleAt_turn (hn : 0 < n) (hi : i % n + 1 = n) : cycleAt n (i + 1) = !cycleAt n i := by
  have hdiv : (i + 1) / n = (i + n) / n := by
    rw [turn hi, Nat.mul_div_cancel_left _ hn, Nat.add_div_right i hn]
  rw [cycleAt, hdiv]
  exact cycleAt_add hn

theorem two_passes (hi : i < 2 * n) :
    (i < n ∧ i % n = i ∧ cycleAt n i = true) ∨ (n ≤ i ∧ i % n = i - n ∧ cycleAt n i = false) := by
  rcases Nat.lt_or_ge i n with h | h
  · exact .inl ⟨h, Nat.mod_eq_of_lt h, cycleAt_first h⟩
  · obtain ⟨j, rfl⟩ := Nat.exists_eq_add_of_le' h
    have hj : j < n := by omega
    rw [Nat.add_mod_right, Nat.mod_eq_of_lt hj, cycleAt_add (by omega), cycleAt_first hj]
    exact .inr ⟨h, by omega, rfl⟩

-- the last `k` of the entries written in turn into `n` slots
def Holds (k n : Nat) (ring : Nat → α) (l : List α) : Prop :=
  ∀ j x, l[j]? = some x → l.length ≤ j + k → ring (j % n) = x

theorem Holds.mono (h : Holds n k ring l) (hj : j ≤ n) : Holds j k ring l :=
  fun i x hx hi => h i x hx (by omega)

theorem Holds.nil : Holds k n ring [] := fun _ _ hx _ => nomatch (List.getElem?_nil ▸ hx)

theorem slot_ne (hk : k < n) (hj : j < i) (hlast : i ≤ j + k) : j % n ≠ i % n := by
  intro heq
  have hzero := Nat.sub_mod_eq_zero_of_mod_eq heq.symm
  rw [Nat.mod_eq_of_lt (by omega)] at hzero
  omega

theorem Holds.update (hk : k < n) (h : Holds k n ring l) (x : α) :
    Holds k n (Function.update ring (l.length % n) x) l := by
  intro j y hy hj
  have hlt : j < l.length := (List.getElem?_eq_some_iff.mp hy).1
  rw [Function.update_of_ne (slot_ne hk hlt hj)]
  exact h j y hy hj

theorem Holds.push (h : Holds k n ring l) (hx : ring (l.length % n) = x) :
    Holds (k + 1) n ring (l ++ [x]) := by
  intro j y hy hj
  rw [List.length_append, List.length_singleton] at hj
  rw [List.getElem?_append] at hy
  split at hy
  · exact h j y hy (by omega)
  · rename_i hge
    have hlt := (List.getElem?_eq_some_iff.mp hy).1
    have hlast : j = l.length := by
      rw [List.length_singleton] at hlt
      omega
    subst hlast
    rw [Nat.sub_self, List.getElem?_cons_zero] at hy
    cases hy
    exact hx

end HouseOS.CycleRing
