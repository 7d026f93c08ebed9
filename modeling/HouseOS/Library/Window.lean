import HouseOS.Library.Ring

namespace HouseOS.Window

variable {α : Type} {cap : Nat} {l m : List α}

def recent (cap : Nat) (l : List α) : List α := l.drop (l.length - cap)

theorem length_recent : (recent cap l).length = min cap l.length := by
  rw [recent, List.length_drop]
  omega

theorem recent_of_le (h : l.length ≤ cap) : recent cap l = l := by
  rw [recent, Nat.sub_eq_zero_of_le h, List.drop_zero]

theorem recent_of_full (hcap : 0 < cap) (h : l.length = cap) (x : α) :
    recent cap (l ++ [x]) = l.drop 1 ++ [x] := by
  have hone : (l ++ [x]).length - cap = 1 := by
    rw [List.length_append, h, List.length_singleton]
    omega
  rw [recent, hone, List.drop_append_of_le_length (by omega)]

theorem recent_recent_append : recent cap (recent cap l ++ m) = recent cap (l ++ m) := by
  have hpart (k : Nat) (hk : k ≤ l.length) (hcap : k ≤ (l ++ m).length - cap) :
      recent cap (l.drop k ++ m) = recent cap (l ++ m) := by
    rw [← List.drop_append_of_le_length hk, recent, recent, List.drop_drop, List.length_drop]
    congr 1
    omega
  refine hpart _ (Nat.sub_le _ _) ?_
  rw [List.length_append]
  omega

-- what was written since the last clearing, and how much of it is read or passed by
structure Stream (α : Type) where
  written : List α
  passed : Nat
  inside : passed ≤ written.length

namespace Stream

variable (s : Stream α)

def fresh : Stream α := ⟨[], 0, Nat.le_refl 0⟩

def unread : List α := s.written.drop s.passed

def queue (cap : Nat) : List α := recent cap s.unread

def write (l : List α) : Stream α where
  written := s.written ++ l
  passed := s.passed
  inside := by
    have h := s.inside
    rw [List.length_append]
    omega

def read (cap n : Nat) : Stream α where
  written := s.written
  passed := s.written.length - ((s.queue cap).drop n).length
  inside := Nat.sub_le _ _

theorem queue_fresh : (fresh : Stream α).queue cap = [] := by
  rw [queue, unread, fresh, List.drop_nil, recent, List.drop_nil]

theorem length_queue : (s.queue cap).length ≤ cap := by
  rw [queue, length_recent]
  exact Nat.min_le_left _ _

theorem queue_write (l : List α) : (s.write l).queue cap = recent cap (s.queue cap ++ l) := by
  rw [queue, queue, recent_recent_append, unread, unread, write,
    List.drop_append_of_le_length s.inside]

theorem write_nil : s.write [] = s := by
  obtain ⟨written, passed, inside⟩ := s
  simp only [write, List.append_nil]

theorem queue_suffix : s.queue cap <:+ s.written :=
  (List.drop_suffix _ _).trans (List.drop_suffix _ _)

theorem queue_read (n : Nat) : (s.read cap n).queue cap = (s.queue cap).drop n := by
  have hsuffix : (s.queue cap).drop n <:+ s.written :=
    (List.drop_suffix n _).trans s.queue_suffix
  have hunread : (s.read cap n).unread = (s.queue cap).drop n := by
    rw [unread, read]
    exact (List.suffix_iff_eq_drop.mp hsuffix).symm
  rw [queue, hunread]
  refine recent_of_le ?_
  have hlen : (s.queue cap).length ≤ cap := s.length_queue
  rw [List.length_drop]
  omega

end Stream

section Overwriting

open HouseOS.Ring (contents contents_push contents_pop length_contents)

variable {q : Nat → α} {head tail len : Nat}

structure Spells (cap : Nat) (q : Nat → α) (head tail len : Nat) (l : List α) : Prop where
  inside : head < cap
  room : len ≤ cap
  end_eq : tail = (head + len) % cap
  cells : contents q cap head len = l

namespace Spells

theorem length (h : Spells cap q head tail len l) : l.length = len := by
  rw [← h.cells, length_contents]

theorem tail_inside (h : Spells cap q head tail len l) : tail < cap := by
  have hpos := h.inside
  rw [h.end_eq]
  exact Nat.mod_lt _ (by omega)

theorem empty (hcap : 0 < cap) : Spells cap q 0 0 0 [] :=
  ⟨hcap, Nat.zero_le _, (Nat.zero_mod _).symm, rfl⟩

theorem push (h : Spells cap q head tail len l) (hlen : len < cap) (x : α) :
    Spells cap (Function.update q tail x) head ((tail + 1) % cap) (len + 1) (l ++ [x]) := by
  refine ⟨h.inside, hlen, ?_, ?_⟩
  · rw [h.end_eq, Nat.mod_add_mod, Nat.add_assoc]
  · rw [h.end_eq, contents_push hlen, h.cells]

theorem pop (h : Spells cap q head tail (len + 1) l) :
    l = q head :: l.drop 1 ∧ Spells cap q ((head + 1) % cap) tail len (l.drop 1) := by
  have hroom := h.room
  have hcells := h.cells
  rw [contents_pop, Nat.mod_eq_of_lt h.inside] at hcells
  subst hcells
  refine ⟨rfl, Nat.mod_lt _ (by omega), by omega, ?_, rfl⟩
  rw [h.end_eq, Nat.mod_add_mod, Nat.add_assoc, Nat.add_comm 1 len]

end Spells

end Overwriting

end HouseOS.Window
