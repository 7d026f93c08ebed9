import Mathlib.Tactic.Common
import Mathlib.Data.List.TakeWhile

namespace HouseOS.Words

def byteText (s : String) : List UInt8 := s.toList.map (fun c => UInt8.ofNat c.toNat)

variable {α : Type}

section CString

variable [DecidableEq α] {z : α} {pre text post : List α}

def cstr (z : α) (buf : List α) (p : Nat) : List α := (buf.drop p).takeWhile (· ≠ z)

theorem cstr_at (h : z ∉ text) : cstr z (pre ++ (text ++ z :: post)) pre.length = text := by
  rw [cstr, List.drop_left, List.takeWhile_append_of_pos, List.takeWhile_cons]
  · simp
  · intro c hc
    simpa using fun hz : c = z => h (hz ▸ hc)

omit [DecidableEq α] in
theorem set_at (c d : α) : (pre ++ c :: post).set pre.length d = pre ++ d :: post := by
  rw [List.set_append_right _ _ (Nat.le_refl _), Nat.sub_self, List.set_cons_zero]

end CString

section Split

variable {blank : α → Bool} {text : List α}

def words (blank : α → Bool) (text : List α) : List (List α) :=
  (text.splitOnP blank).filter fun w => !w.isEmpty

theorem words_blank {c : α} (hc : blank c = true) : words blank (c :: text) = words blank text := by
  have h : (c :: text).splitOnP blank = [[]] ++ text.splitOnP blank :=
    List.splitOnP_append_cons [] text hc
  rw [words, h]
  rfl

theorem words_dropWhile (text : List α) : words blank (text.dropWhile blank) = words blank text := by
  induction text with
  | nil => rfl
  | cons c text ih =>
    rw [List.dropWhile_cons]
    split
    · rename_i hc
      rw [ih, words_blank hc]
    · rfl

theorem words_single {w : List α} (hw : w ≠ []) (h : ∀ c ∈ w, blank c = false) :
    words blank w = [w] := by
  rw [words, List.splitOnP_eq_singleton h]
  simp [hw]

theorem words_cons {w rest : List α} {c : α} (hw : w ≠ []) (h : ∀ c ∈ w, blank c = false)
    (hc : blank c = true) : words blank (w ++ c :: rest) = w :: words blank rest := by
  rw [words, List.splitOnP_append_cons _ _ hc, List.splitOnP_eq_singleton h]
  simp [words, hw]

end Split

section Cut

variable [DecidableEq α]

def cut? (sep : α) (w : List α) : Option (List α × List α) :=
  match w.dropWhile (· ≠ sep) with
  | [] => none
  | _ :: rest => some (w.takeWhile (· ≠ sep), rest)

theorem cut?_eq_some {sep : α} {w a b : List α} (h : cut? sep w = some (a, b)) :
    w = a ++ sep :: b ∧ sep ∉ a := by
  unfold cut? at h
  split at h
  · cases h
  · rename_i c rest hdrop
    cases h
    have hhead : c = sep := by
      have hne : w.dropWhile (fun x => decide (x ≠ sep)) ≠ [] := by
        rw [hdrop]
        exact List.cons_ne_nil c b
      have hlast := List.head_dropWhile_not (fun x => decide (x ≠ sep)) hne
      simp only [hdrop, List.head_cons] at hlast
      simpa using hlast
    refine ⟨?_, fun hmem => ?_⟩
    · subst hhead
      rw [← hdrop, List.takeWhile_append_dropWhile]
    · simpa using List.mem_takeWhile_imp hmem

end Cut

end HouseOS.Words
