import HouseOS.Library.ByteMem
import Mathlib.Data.List.TakeWhile

namespace HouseOS.ByteMem

variable {m m' src : Mem} {a b n x : Nat} {xs ys : List UInt8}

-- `n` bytes of one object written over another, or over itself as `memmove` does
def copyFrom (m : Mem) (a : Nat) (src : Mem) (b n : Nat) : Mem := fun x =>
  if a ≤ x ∧ x < a + n then src (b + (x - a)) else m x

def cstrAt (m : Mem) (a room : Nat) : List UInt8 :=
  ((List.range room).map fun k => m (a + k)).takeWhile (· ≠ 0)

theorem copyFrom_in (h : a ≤ x) (h' : x < a + n) : copyFrom m a src b n x = src (b + (x - a)) :=
  if_pos ⟨h, h'⟩

theorem copyFrom_out (h : x < a ∨ a + n ≤ x) : copyFrom m a src b n x = m x := if_neg (by omega)

theorem bytesAt_nil : BytesAt m a [] := fun k _ hb => by simp at hb

theorem bytesAt_singleton {c : UInt8} : BytesAt m a [c] ↔ m a = c := by
  constructor
  · intro h
    exact h 0 c rfl
  · rintro rfl k d hd
    cases k with
    | zero => exact Option.some.inj hd
    | succ k => simp at hd

theorem bytesAt_append : BytesAt m a (xs ++ ys) ↔ BytesAt m a xs ∧ BytesAt m (a + xs.length) ys := by
  constructor
  · intro h
    refine ⟨fun k c hc => h k c ?_, fun k c hc => ?_⟩
    · rw [List.getElem?_append_left (List.getElem?_eq_some_iff.mp hc).1]
      exact hc
    · rw [Nat.add_assoc]
      refine h (xs.length + k) c ?_
      rw [List.getElem?_append_right (Nat.le_add_right _ _), Nat.add_sub_cancel_left]
      exact hc
  · rintro ⟨hx, hy⟩ k c hc
    by_cases hk : k < xs.length
    · rw [List.getElem?_append_left hk] at hc
      exact hx k c hc
    · rw [List.getElem?_append_right (by omega)] at hc
      have hat := hy (k - xs.length) c hc
      rwa [Nat.add_assoc, Nat.add_sub_cancel' (by omega)] at hat

theorem bytesAt_copyFrom (h : BytesAt src b xs) (hn : xs.length ≤ n) :
    BytesAt (copyFrom m a src b n) a xs := by
  intro k c hc
  have hk := (List.getElem?_eq_some_iff.mp hc).1
  rw [copyFrom_in (by omega) (by omega), Nat.add_sub_cancel_left]
  exact h k c hc

theorem bytesAt_copyFrom_apart (h : BytesAt m b xs) (hapart : b + xs.length ≤ a ∨ a + n ≤ b)
    {src : Mem} {c : Nat} : BytesAt (copyFrom m a src c n) b xs :=
  h.congr fun _ _ _ => copyFrom_out (by omega)

theorem bytesAt_store8_apart {c : UInt8} (h : BytesAt m b xs) (hapart : a < b ∨ b + xs.length ≤ a) :
    BytesAt (store8 m a c) b xs :=
  h.congr fun _ _ _ => store8_ne c (by omega)

theorem range_map_of_bytesAt (h : BytesAt m a xs) :
    (List.range xs.length).map (fun k => m (a + k)) = xs := by
  refine List.ext_getElem? fun k => ?_
  by_cases hk : k < xs.length
  · have hat := h k xs[k] (List.getElem?_eq_getElem hk)
    rw [List.getElem?_map, List.getElem?_range hk, Option.map_some, hat, List.getElem?_eq_getElem hk]
  · rw [List.getElem?_eq_none (by rw [List.length_map, List.length_range]; omega),
      List.getElem?_eq_none (by omega)]

theorem bytesAt_range (m : Mem) (a n : Nat) :
    BytesAt m a ((List.range n).map fun k => m (a + k)) := by
  intro k c hc
  rw [List.getElem?_map, Option.map_eq_some_iff] at hc
  obtain ⟨j, hj, rfl⟩ := hc
  rw [List.getElem?_eq_some_iff] at hj
  obtain ⟨hlt, rfl⟩ := hj
  rw [List.getElem_range]

theorem cstrAt_prefix (m : Mem) (a room : Nat) : BytesAt m a (cstrAt m a room) := by
  have h := bytesAt_range m a room
  have hsplit := List.takeWhile_append_dropWhile
    (p := fun c => decide (c ≠ 0)) (l := (List.range room).map fun k => m (a + k))
  rw [← hsplit] at h
  exact (bytesAt_append.mp h).1

theorem zero_not_mem_cstrAt (m : Mem) (a room : Nat) : 0 ∉ cstrAt m a room := by
  intro h
  simpa using List.mem_takeWhile_imp h

theorem cstrAt_congr (h : ∀ k < n, m' (a + k) = m (a + k)) : cstrAt m' a n = cstrAt m a n := by
  rw [cstrAt, cstrAt]
  congr 1
  exact List.map_congr_left fun k hk => h k (List.mem_range.mp hk)

theorem cstrAt_eq {room : Nat} (h : BytesAt m a xs) (hzero : 0 ∉ xs) (hend : m (a + xs.length) = 0)
    (hroom : xs.length < room) : cstrAt m a room = xs := by
  have hrange : room = xs.length + (room - xs.length - 1 + 1) := by omega
  have hfirst := range_map_of_bytesAt h
  rw [cstrAt, hrange, List.range_add, List.map_append, hfirst, List.takeWhile_append_of_pos,
    List.range_succ_eq_map, List.map_cons, List.map_cons, Nat.add_zero, hend, List.takeWhile_cons]
  · simp
  · exact fun c hc => by simpa using fun h0 : c = 0 => hzero (h0 ▸ hc)

theorem cstrAt_end {room : Nat} (h : (cstrAt m a room).length < room) :
    m (a + (cstrAt m a room).length) = 0 := by
  induction room generalizing a with
  | zero => exact absurd h (Nat.not_lt_zero _)
  | succ room ih =>
    have hsplit : cstrAt m a (room + 1) =
        if m a = 0 then [] else m a :: cstrAt m (a + 1) room := by
      rw [cstrAt, List.range_succ_eq_map, List.map_cons, Nat.add_zero, List.takeWhile_cons,
        List.map_map, cstrAt]
      by_cases hzero : m a = 0
      · simp [hzero]
      · have hshift : ((fun k => m (a + k)) ∘ Nat.succ) = fun k => m (a + 1 + k) := by
          funext k
          rw [Function.comp_apply, Nat.succ_eq_add_one, Nat.add_assoc, Nat.add_comm 1 k]
        simp [hzero, hshift]
    by_cases hzero : m a = 0
    · rw [hsplit, if_pos hzero]
      exact hzero
    · rw [hsplit, if_neg hzero, List.length_cons] at h
      rw [hsplit, if_neg hzero, List.length_cons, Nat.add_comm _ 1, ← Nat.add_assoc]
      exact ih (Nat.lt_of_succ_lt_succ h)

theorem BytesAt.take (h : BytesAt m a xs) (n : Nat) : BytesAt m a (xs.take n) := by
  rw [← List.take_append_drop n xs] at h
  exact (bytesAt_append.mp h).1

theorem bytesAt_cons {c : UInt8} : BytesAt m a (c :: xs) ↔ m a = c ∧ BytesAt m (a + 1) xs := by
  have hsplit : BytesAt m a ([c] ++ xs) ↔ BytesAt m a [c] ∧ BytesAt m (a + 1) xs := bytesAt_append
  rwa [bytesAt_singleton] at hsplit

theorem bytesAt_copy (h : BytesAt m b xs) (hapart : b + xs.length ≤ a ∨ a + xs.length ≤ b) :
    BytesAt (copy m a b xs.length) a xs := by
  intro k c hc
  have hk := (List.getElem?_eq_some_iff.mp hc).1
  rw [copy_apply _ _ _ _ _ hapart, if_pos (by omega), Nat.add_sub_cancel_left]
  exact h k c hc

structure CString (m : Mem) (a : Nat) (text : List UInt8) : Prop where
  bytes : BytesAt m a text
  ends : m (a + text.length) = 0
  clean : 0 ∉ text

namespace CString

variable {c : UInt8} {text rest : List UInt8}

theorem nil_iff : CString m a [] ↔ m a = 0 :=
  ⟨fun h => h.ends, fun h => ⟨bytesAt_nil, h, List.not_mem_nil⟩⟩

theorem cons_iff : CString m a (c :: text) ↔ m a = c ∧ c ≠ 0 ∧ CString m (a + 1) text := by
  have hend : a + (c :: text).length = a + 1 + text.length := by
    rw [List.length_cons]
    omega
  constructor
  · rintro ⟨hbytes, hends, hclean⟩
    obtain ⟨hhead, htail⟩ := bytesAt_cons.mp hbytes
    rw [List.mem_cons, not_or] at hclean
    exact ⟨hhead, Ne.symm hclean.1, htail, by rwa [hend] at hends, hclean.2⟩
  · rintro ⟨hhead, hc, hbytes, hends, hclean⟩
    refine ⟨bytesAt_cons.mpr ⟨hhead, hbytes⟩, by rwa [hend], ?_⟩
    rw [List.mem_cons, not_or]
    exact ⟨Ne.symm hc, hclean⟩

theorem congr (h : CString m a text) (hsame : ∀ x, a ≤ x → x ≤ a + text.length → m' x = m x) :
    CString m' a text :=
  ⟨h.bytes.congr fun x hx hlt => hsame x hx (Nat.le_of_lt hlt),
    (hsame _ (Nat.le_add_right _ _) (Nat.le_refl _)).trans h.ends, h.clean⟩

theorem of_append (h : CString m a (text ++ rest)) : CString m (a + text.length) rest := by
  refine ⟨(bytesAt_append.mp h.bytes).2, ?_, fun hz => h.clean (List.mem_append_right _ hz)⟩
  have hends := h.ends
  rwa [List.length_append, ← Nat.add_assoc] at hends

theorem cut (h : CString m a (text ++ c :: rest)) :
    CString (store8 m (a + text.length) 0) a text ∧
      CString (store8 m (a + text.length) 0) (a + text.length + 1) rest := by
  refine ⟨⟨?_, if_pos rfl, fun hz => h.clean (List.mem_append_left _ hz)⟩, ?_⟩
  · exact bytesAt_store8_apart (bytesAt_append.mp h.bytes).1 (Or.inr (Nat.le_refl _))
  · exact (cons_iff.mp h.of_append).2.2.congr fun x hx _ => store8_ne 0 (by omega)

end CString

end HouseOS.ByteMem
