import Mathlib.Data.List.Basic
import Mathlib.Tactic.Common

namespace HouseOS.ByteCursor

variable {B : Type}

-- a buffer is the list of the bytes it has room for: a store past its end has no result
def put (buf : List B) (off : Nat) (data : List B) : Option (List B) :=
  if off + data.length ≤ buf.length then
    some (buf.take off ++ data ++ buf.drop (off + data.length))
  else none

def get (buf : List B) (off n : Nat) : Option (List B) :=
  if off + n ≤ buf.length then some ((buf.drop off).take n) else none

def overwrite (zero : B) (bytes : List B) (off : Nat) (data : List B) : List B :=
  bytes.take off ++ List.replicate (off - bytes.length) zero ++ data ++
    bytes.drop (off + data.length)

structure Cursor (B : Type) where
  bytes : List B
  pos : Nat

namespace Cursor

def next (c : Cursor B) (n : Nat) : List B := (c.bytes.drop c.pos).take n

def advance (c : Cursor B) (n : Nat) : Cursor B := { c with pos := c.pos + n }

def write (zero : B) (c : Cursor B) (off : Nat) (data : List B) : Cursor B :=
  { bytes := overwrite zero c.bytes off data, pos := off + data.length }

end Cursor

section Buffers

variable {buf buf' data : List B} {off n : Nat}

theorem put_eq (h : off + data.length ≤ buf.length) :
    put buf off data = some (buf.take off ++ data ++ buf.drop (off + data.length)) := if_pos h

theorem put_none (h : buf.length < off + data.length) : put buf off data = none :=
  if_neg (by omega)

theorem put_length (h : put buf off data = some buf') : buf'.length = buf.length := by
  rw [put] at h
  split at h
  · obtain rfl := Option.some.inj h
    simp only [List.length_append, List.length_take, List.length_drop]
    omega
  · cases h

theorem put_fits (h : put buf off data = some buf') : off + data.length ≤ buf.length := by
  rw [put] at h
  split at h
  · assumption
  · cases h

theorem get_eq (h : off + n ≤ buf.length) : get buf off n = some ((buf.drop off).take n) := if_pos h

theorem getElem?_put (h : put buf off data = some buf') (i : Nat) :
    buf'[i]? = if off ≤ i ∧ i < off + data.length then data[i - off]? else buf[i]? := by
  have hfit := put_fits h
  rw [put_eq hfit] at h
  obtain rfl := Option.some.inj h
  have hoff : (buf.take off).length = off := by
    rw [List.length_take]
    omega
  rw [List.append_assoc]
  by_cases hlow : i < off
  · rw [List.getElem?_append_left (by omega), List.getElem?_take, if_pos hlow, if_neg (by omega)]
  rw [List.getElem?_append_right (by omega), hoff]
  by_cases hin : i < off + data.length
  · rw [List.getElem?_append_left (by omega), if_pos ⟨by omega, hin⟩]
  · rw [List.getElem?_append_right (by omega), List.getElem?_drop, if_neg (by omega)]
    congr 1
    omega

theorem put_nil (buf : List B) : put buf 0 [] = some buf := by
  rw [put_eq (by simp)]
  simp

theorem get_put (h : put buf 0 data = some buf') (hn : off + n ≤ data.length) :
    get buf' off n = some ((data.drop off).take n) := by
  have hfit := put_fits h
  have hlen := put_length h
  rw [get_eq (by omega)]
  congr 1
  refine List.ext_getElem? fun i => ?_
  rw [List.getElem?_take, List.getElem?_take]
  by_cases hi : i < n
  · rw [if_pos hi, if_pos hi, List.getElem?_drop, List.getElem?_drop, getElem?_put h,
      if_pos (by omega), Nat.sub_zero]
  · rw [if_neg hi, if_neg hi]

end Buffers

section Overwrite

variable (zero : B) (bytes : List B) (off : Nat) (data : List B)

theorem overwrite_length :
    (overwrite zero bytes off data).length = max bytes.length (off + data.length) := by
  simp only [overwrite, List.length_append, List.length_take, List.length_replicate,
    List.length_drop]
  omega

-- the bytes of the range are the ones written, the ones before the old end stay, the gap is zeros
theorem getElem?_overwrite (i : Nat) :
    (overwrite zero bytes off data)[i]? =
      if off ≤ i ∧ i < off + data.length then data[i - off]?
      else if i < off ∧ bytes.length ≤ i then some zero
      else bytes[i]? := by
  have hlen : (bytes.take off ++ List.replicate (off - bytes.length) zero).length = off := by
    simp only [List.length_append, List.length_take, List.length_replicate]
    omega
  rw [overwrite, List.append_assoc]
  by_cases hlow : i < off
  · rw [List.getElem?_append_left (by omega), if_neg (by omega)]
    by_cases hold : i < bytes.length
    · rw [List.getElem?_append_left (by rw [List.length_take]; omega), List.getElem?_take,
        if_pos hlow, if_neg (by omega)]
    · rw [List.getElem?_append_right (by rw [List.length_take]; omega), List.getElem?_replicate,
        if_pos (by rw [List.length_take]; omega), if_pos ⟨hlow, by omega⟩]
  rw [List.getElem?_append_right (by omega), hlen]
  by_cases hin : i < off + data.length
  · rw [List.getElem?_append_left (by omega), if_pos ⟨by omega, hin⟩]
  · rw [List.getElem?_append_right (by omega), List.getElem?_drop, if_neg (by omega),
      if_neg (by omega)]
    congr 1
    omega

theorem overwrite_of_put {buf filled loaded stored : List B} {n : Nat}
    (hn : n = max bytes.length (off + data.length))
    (hfill : put buf 0 (List.replicate n zero) = some filled)
    (hload : put filled 0 bytes = some loaded) (hstore : put loaded off data = some stored) :
    get stored 0 n = some (overwrite zero bytes off data) := by
  have hfit := put_fits hfill
  have hlen : stored.length = buf.length := by
    rw [put_length hstore, put_length hload, put_length hfill]
  simp only [List.length_replicate, Nat.zero_add] at hfit
  rw [get_eq (by omega), List.drop_zero]
  congr 1
  refine List.ext_getElem? fun i => ?_
  rw [List.getElem?_take, getElem?_overwrite, getElem?_put hstore, getElem?_put hload,
    getElem?_put hfill, List.length_replicate]
  simp only [Nat.zero_add, Nat.zero_le, true_and, Nat.sub_zero, List.getElem?_replicate]
  by_cases hin : off ≤ i ∧ i < off + data.length
  · rw [if_pos hin, if_pos (by omega), if_pos hin]
  rw [if_neg hin, if_neg hin]
  by_cases hold : i < bytes.length
  · rw [if_pos (by omega), if_pos hold, if_neg (by omega)]
  rw [if_neg hold]
  by_cases hgap : i < off
  · rw [if_pos (by omega), if_pos (by omega), if_pos (by omega), if_pos ⟨hgap, by omega⟩]
  · rw [if_neg (by omega), if_neg (by omega), List.getElem?_eq_none (by omega)]

end Overwrite

end HouseOS.ByteCursor
