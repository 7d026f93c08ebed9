import Mathlib.Tactic.Common
import Mathlib.Data.Nat.Bitwise

namespace HouseOS.ByteMem

abbrev Mem := Nat → UInt8

def byte (v k : Nat) : UInt8 := UInt8.ofNat (v / 256 ^ k)

def load16 (m : Mem) (a : Nat) : Nat := (m a).toNat + 256 * (m (a + 1)).toNat

def load32 (m : Mem) (a : Nat) : Nat :=
  (m a).toNat + 256 * (m (a + 1)).toNat + 65536 * (m (a + 2)).toNat +
    16777216 * (m (a + 3)).toNat

def store8 (m : Mem) (a : Nat) (v : UInt8) : Mem := fun x => if x = a then v else m x

def store16 (m : Mem) (a v : Nat) : Mem := fun x =>
  if x = a then byte v 0 else if x = a + 1 then byte v 1 else m x

def store32 (m : Mem) (a v : Nat) : Mem := fun x =>
  if x = a then byte v 0 else if x = a + 1 then byte v 1
  else if x = a + 2 then byte v 2 else if x = a + 3 then byte v 3 else m x

def copy (m : Mem) (dst src : Nat) : Nat → Mem
  | 0 => m
  | n + 1 => copy (store8 m dst (m src)) (dst + 1) (src + 1) n

def fill (m : Mem) (a : Nat) (v : UInt8) : Nat → Mem
  | 0 => m
  | n + 1 => fill (store8 m (a % 2 ^ 32) v) (a + 1) v n

def storeBytes (m : Mem) (a : Nat) : List UInt8 → Mem
  | [] => m
  | b :: bs => storeBytes (store8 m a b) (a + 1) bs

def BytesAt (m : Mem) (a : Nat) (bytes : List UInt8) : Prop :=
  ∀ (k : Nat) (b : UInt8), bytes[k]? = some b → m (a + k) = b

theorem byte_toNat (v k : Nat) : (byte v k).toNat = v / 256 ^ k % 256 := rfl

theorem load32_lt (m : Mem) (a : Nat) : load32 m a < 2 ^ 32 := by
  have h0 := (m a).toNat_lt
  have h1 := (m (a + 1)).toNat_lt
  have h2 := (m (a + 2)).toNat_lt
  have h3 := (m (a + 3)).toNat_lt
  simp only [load32]
  omega

theorem load16_lt (m : Mem) (a : Nat) : load16 m a < 2 ^ 16 := by
  have h0 := (m a).toNat_lt
  have h1 := (m (a + 1)).toNat_lt
  simp only [load16]
  omega

theorem load32_congr {m m' : Mem} {a : Nat} (h : ∀ x, a ≤ x → x < a + 4 → m' x = m x) :
    load32 m' a = load32 m a := by
  simp only [load32, h a (by omega) (by omega), h (a + 1) (by omega) (by omega),
    h (a + 2) (by omega) (by omega), h (a + 3) (by omega) (by omega)]

theorem load16_congr {m m' : Mem} {a : Nat} (h : ∀ x, a ≤ x → x < a + 2 → m' x = m x) :
    load16 m' a = load16 m a := by
  simp only [load16, h a (by omega) (by omega), h (a + 1) (by omega) (by omega)]

theorem store8_ne {m : Mem} {a x : Nat} (v : UInt8) (h : x ≠ a) : store8 m a v x = m x :=
  if_neg h

theorem store32_ne {m : Mem} {a x : Nat} (v : Nat) (h : x < a ∨ a + 4 ≤ x) :
    store32 m a v x = m x := by
  rw [store32, if_neg (by omega), if_neg (by omega), if_neg (by omega), if_neg (by omega)]

theorem load32_store32_same (m : Mem) (a v : Nat) : load32 (store32 m a v) a = v % 2 ^ 32 := by
  have h0 : store32 m a v a = byte v 0 := by simp [store32]
  have h1 : store32 m a v (a + 1) = byte v 1 := by simp [store32]
  have h2 : store32 m a v (a + 2) = byte v 2 := by simp [store32]
  have h3 : store32 m a v (a + 3) = byte v 3 := by simp [store32]
  simp only [load32, h0, h1, h2, h3, byte_toNat]
  omega

theorem load32_store32_ne {m : Mem} {a b : Nat} (v : Nat) (h : b + 4 ≤ a ∨ a + 4 ≤ b) :
    load32 (store32 m a v) b = load32 m b :=
  load32_congr fun _ _ _ => store32_ne v (by omega)

theorem load32_store8_ne {m : Mem} {a b : Nat} (v : UInt8) (h : a < b ∨ b + 4 ≤ a) :
    load32 (store8 m a v) b = load32 m b :=
  load32_congr fun _ _ _ => store8_ne v (by omega)

theorem copy_apply (n : Nat) : ∀ (m : Mem) (dst src x : Nat), src + n ≤ dst ∨ dst + n ≤ src →
    copy m dst src n x = if dst ≤ x ∧ x < dst + n then m (src + (x - dst)) else m x := by
  induction n with
  | zero =>
    intro m dst src x _
    rw [if_neg (by omega)]
    rfl
  | succ n ih =>
    intro m dst src x hapart
    rw [copy, ih _ _ _ _ (by omega)]
    by_cases hx : x = dst
    · subst hx
      rw [if_neg (by omega), if_pos (by omega), Nat.sub_self, Nat.add_zero]
      exact if_pos rfl
    · by_cases hin : dst + 1 ≤ x ∧ x < dst + 1 + n
      · rw [if_pos hin, if_pos (by omega), store8_ne _ (by omega)]
        congr 1
        omega
      · rw [if_neg hin, if_neg (by omega), store8_ne _ hx]

theorem store32_byte (m : Mem) (a v : Nat) {k : Nat} (hk : k < 4) :
    store32 m a v (a + k) = byte v k := by
  rcases (by omega : k = 0 ∨ k = 1 ∨ k = 2 ∨ k = 3) with rfl | rfl | rfl | rfl <;> simp [store32]

theorem load32_bytes {m : Mem} {a v : Nat} (h : ∀ k < 4, m (a + k) = byte v k) :
    load32 m a = v % 2 ^ 32 := by
  rw [← load32_store32_same m a v]
  refine load32_congr fun x hx hlt => ?_
  obtain ⟨k, rfl⟩ : ∃ k, x = a + k := ⟨x - a, by omega⟩
  rw [h k (by omega), store32_byte m a v (by omega)]

section Copy

variable {m : Mem} {a b n k x : Nat}

theorem copy_add (m : Mem) (a b n k : Nat) :
    copy m a b (n + k) = copy (copy m a b n) (a + n) (b + n) k := by
  induction n generalizing m a b with
  | zero => rw [Nat.zero_add]; rfl
  | succ n ih =>
    rw [Nat.succ_add, copy, ih, copy, Nat.add_assoc, Nat.add_assoc, Nat.add_comm 1 n]

theorem copy_outside (hx : x < a ∨ a + n ≤ x) : copy m a b n x = m x := by
  induction n generalizing m a b with
  | zero => rfl
  | succ n ih => rw [copy, ih (by omega), store8_ne _ (by omega)]

theorem copy_self (m : Mem) (a n : Nat) : copy m a a n = m := by
  induction n generalizing a with
  | zero => rfl
  | succ n ih =>
    have hsame : store8 m a (m a) = m := by
      funext x
      unfold store8
      split
      next heq => rw [heq]
      next => rfl
    rw [copy, hsame, ih]

end Copy

theorem storeBytes_ne : ∀ (bytes : List UInt8) {m : Mem} {a x : Nat},
    x < a ∨ a + bytes.length ≤ x → storeBytes m a bytes x = m x := by
  intro bytes
  induction bytes with
  | nil => exact fun _ => rfl
  | cons b bs ih =>
    intro m a x hx
    rw [List.length_cons] at hx
    rw [storeBytes, ih (by omega), store8_ne b (by omega)]

theorem bytesAt_storeBytes : ∀ (bytes : List UInt8) (m : Mem) (a : Nat),
    BytesAt (storeBytes m a bytes) a bytes := by
  intro bytes
  induction bytes with
  | nil => exact fun _ _ _ _ hb => by simp at hb
  | cons b bs ih =>
    intro m a k c hc
    cases k with
    | zero =>
      obtain rfl : b = c := by simpa using hc
      rw [storeBytes, Nat.add_zero, storeBytes_ne bs (by omega)]
      exact if_pos rfl
    | succ k =>
      have hk := ih (store8 m a b) (a + 1) k c (by simpa using hc)
      rw [storeBytes]
      rwa [Nat.add_assoc, Nat.add_comm 1 k] at hk

theorem BytesAt.congr {m m' : Mem} {a : Nat} {bytes : List UInt8} (h : BytesAt m a bytes)
    (hsame : ∀ x, a ≤ x → x < a + bytes.length → m' x = m x) : BytesAt m' a bytes := by
  intro k b hb
  have hk : k < bytes.length := (List.getElem?_eq_some_iff.mp hb).1
  rw [hsame (a + k) (by omega) (by omega)]
  exact h k b hb

theorem fill_apply (v : UInt8) (n : Nat) : ∀ (m : Mem) (a x : Nat), a + n ≤ 2 ^ 32 →
    fill m a v n x = if a ≤ x ∧ x < a + n then v else m x := by
  induction n with
  | zero =>
    intro m a x _
    rw [if_neg (by omega)]
    rfl
  | succ n ih =>
    intro m a x hlt
    rw [fill, ih _ _ _ (by omega), Nat.mod_eq_of_lt (by omega)]
    by_cases hx : x = a
    · subst hx
      rw [if_neg (by omega), if_pos (by omega)]
      exact if_pos rfl
    · rw [store8_ne _ hx]
      by_cases hin : a + 1 ≤ x ∧ x < a + 1 + n
      · rw [if_pos hin, if_pos (by omega)]
      · rw [if_neg hin, if_neg (by omega)]

theorem fill_ne (v : UInt8) (n : Nat) : ∀ (m : Mem) (a x : Nat),
    (∀ k < n, (a + k) % 2 ^ 32 ≠ x) → fill m a v n x = m x := by
  induction n with
  | zero => exact fun _ _ _ _ => rfl
  | succ n ih =>
    intro m a x hout
    have hfirst : a % 2 ^ 32 ≠ x := hout 0 (Nat.succ_pos n)
    rw [fill, ih _ _ _ (fun k hk hkx => hout (k + 1) (by omega) (by rw [← hkx]; congr 1; omega)),
      store8_ne v (Ne.symm hfirst)]

-- past the end of the address space a fill goes on at 0
theorem fill_wrap (v : UInt8) (n : Nat) : ∀ (m : Mem) (a x : Nat), x < 2 ^ 32 →
    (∃ k < n, (a + k) % 2 ^ 32 = x) → fill m a v n x = v := by
  induction n with
  | zero =>
    rintro m a x _ ⟨k, hk, _⟩
    exact absurd hk (Nat.not_lt_zero k)
  | succ n ih =>
    rintro m a x hx ⟨k, hk, hkx⟩
    rw [fill]
    by_cases hlater : ∃ j < n, (a + 1 + j) % 2 ^ 32 = x
    · exact ih _ _ _ hx hlater
    · have hk0 : k = 0 := by
        by_contra hne
        exact hlater ⟨k - 1, by omega, by rw [← hkx]; congr 1; omega⟩
      subst hk0
      rw [fill_ne v n (store8 m (a % 2 ^ 32) v) _ _ (fun j hj hjx => hlater ⟨j, hj, hjx⟩)]
      exact if_pos hkx.symm

end HouseOS.ByteMem
