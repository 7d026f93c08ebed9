import HouseOS.Library.ByteCopy
import HouseOS.Library.Ring
import HouseOS.Tty.Reader
import Mathlib.Data.List.Destutter

namespace HouseOS.Tty

open HouseOS.ByteMem

-- `history`, `history_next` and `history_count` of a terminal; no memory for it: `none`
structure HistoryRing where
  bytes : Option Mem
  next : Nat
  count : Nat

namespace HistoryRing

variable (h : HistoryRing)

def base (slot : Nat) : Nat := slot * historyLineMax

def ttyHistoryStore (line : Mem) (len : Nat) : HistoryRing :=
  match h.bytes with
  | none => h
  | some m =>
      if len = 0 then h
      else
        let len := if historyLineMax ≤ len then historyLineMax - 1 else len
        let last := base ((h.next + historyMax - 1) % historyMax)
        let i := ((List.range len).takeWhile fun i => m (last + i) = line i).length
        if 0 < h.count ∧ i = len ∧ m (last + i) = 0 then h
        else
          { bytes := some (store8 (copyFrom m (base h.next) line 0 len) (base h.next + len) 0)
            next := (h.next + 1) % historyMax
            count := if h.count < historyMax then h.count + 1 else h.count }

def ttyHistoryGet (fromLatest : Nat) : Option (Mem × Nat) :=
  if h.count ≤ fromLatest then none
  else h.bytes.map fun m => (m, base ((h.next + historyMax - 1 - fromLatest) % historyMax))

variable {h : HistoryRing} {m line : Mem} {xs : Line} {len : Nat}

structure Terminated (h : HistoryRing) : Prop where
  next_lt : h.next < historyMax
  count_le : h.count ≤ historyMax
  count_of_none : h.bytes = none → h.count = 0
  ends : ∀ m, h.bytes = some m → ∀ i < h.count,
    (cstrAt m (base (RecentRing.slot historyMax h.next i)) historyLineMax).length < historyLineMax

def lines (h : HistoryRing) : History :=
  h.bytes.map fun m =>
    RecentRing.entries historyMax h.next h.count fun slot => cstrAt m (base slot) historyLineMax

theorem lines_of_some (hm : h.bytes = some m) : h.lines = some
    (RecentRing.entries historyMax h.next h.count fun slot => cstrAt m (base slot) historyLineMax) := by
  rw [lines, hm]
  rfl

theorem length_lines (hring : Terminated h) : (h.lines.getD []).length = h.count := by
  cases hm : h.bytes with
  | none =>
    rw [lines, hm, Option.map_none, Option.getD_none, List.length_nil, hring.count_of_none hm]
  | some m => rw [lines_of_some hm, Option.getD_some, RecentRing.length_entries]

theorem ttyHistoryGet_eq (hring : Terminated h) {pos : Nat} (hpos : pos < h.count) :
    ∃ m a, h.ttyHistoryGet pos = some (m, a) ∧
      (h.lines.getD []).getD pos [] = cstrAt m a historyLineMax ∧
      (cstrAt m a historyLineMax).length < historyLineMax := by
  cases hm : h.bytes with
  | none =>
    rw [hring.count_of_none hm] at hpos
    exact absurd hpos (Nat.not_lt_zero _)
  | some m =>
    have hget : h.ttyHistoryGet pos =
        some (m, base ((h.next + historyMax - 1 - pos) % historyMax)) := by
      rw [ttyHistoryGet, if_neg (Nat.not_le.mpr hpos), hm, Option.map_some]
    refine ⟨m, _, hget, ?_, hring.ends m hm pos hpos⟩
    rw [lines_of_some hm, Option.getD_some, List.getD_eq_getElem?_getD,
      RecentRing.getElem?_entries hpos, Option.getD_some, RecentRing.slot]

theorem base_apart {i j : Nat} (hne : i ≠ j) :
    base i + historyLineMax ≤ base j ∨ base j + historyLineMax ≤ base i := by
  rw [base, base, historyLineMax]
  omega

-- the compare runs over the whole line and then finds the end of the entry
theorem compare_all (hline : BytesAt line 0 xs) (hlen : xs.length = len) (a : Nat) :
    ((List.range len).takeWhile fun i => m (a + i) = line i).length = len ↔ BytesAt m a xs := by
  have hlen' : (List.range len).length = len := List.length_range
  constructor
  · intro hall k c hc
    have hk := (List.getElem?_eq_some_iff.mp hc).1
    have hwhole : (List.range len).takeWhile (fun i => m (a + i) = line i) = List.range len :=
      ( List.takeWhile_prefix _).eq_of_length (hall.trans hlen'.symm)
    have hmem : k ∈ (List.range len).takeWhile (fun i => m (a + i) = line i) := by
      rw [hwhole]
      exact List.mem_range.mpr (hlen ▸ hk)
    have hsame : m (a + k) = line k := by simpa using List.mem_takeWhile_imp hmem
    rw [hsame, ← hline k c hc, Nat.zero_add]
  · intro hat
    rw [List.takeWhile_eq_self_iff.mpr, hlen']
    intro k hk
    have hklt : k < xs.length := hlen ▸ List.mem_range.mp hk
    have hc := List.getElem?_eq_getElem hklt
    have hsame := (hat k _ hc).trans (hline k _ hc).symm
    rw [Nat.zero_add] at hsame
    exact decide_eq_true hsame

theorem compare_iff (hline : BytesAt line 0 xs) (hlen : xs.length = len) (hzero : 0 ∉ xs)
    (hroom : len < historyLineMax) (a : Nat) :
    (((List.range len).takeWhile fun i => m (a + i) = line i).length = len ∧
      m (a + ((List.range len).takeWhile fun i => m (a + i) = line i).length) = 0) ↔
    cstrAt m a historyLineMax = xs := by
  constructor
  · rintro ⟨hall, hend⟩
    rw [hall, ← hlen] at hend
    exact cstrAt_eq ((compare_all hline hlen a).mp hall) hzero hend (hlen ▸ hroom)
  · intro hstr
    have hall := (compare_all (m := m) hline hlen a).mpr (hstr ▸ cstrAt_prefix m a historyLineMax)
    have hshort : (cstrAt m a historyLineMax).length < historyLineMax := by
      rw [hstr, hlen]
      exact hroom
    have hend := cstrAt_end hshort
    rw [hstr, hlen] at hend
    rw [hall]
    exact ⟨rfl, hend⟩

def put (h : HistoryRing) (m line : Mem) (len : Nat) : HistoryRing where
  bytes := some (store8 (copyFrom m (base h.next) line 0 len) (base h.next + len) 0)
  next := (h.next + 1) % historyMax
  count := if h.count < historyMax then h.count + 1 else h.count

theorem put_same {slot : Nat} (hlen : len < historyLineMax) (hne : slot ≠ h.next) :
    cstrAt (store8 (copyFrom m (base h.next) line 0 len) (base h.next + len) 0) (base slot)
      historyLineMax = cstrAt m (base slot) historyLineMax := by
  have hapart := base_apart hne
  refine cstrAt_congr fun k hk => ?_
  rw [store8_ne 0 (by omega), copyFrom_out (by omega)]

theorem put_new (hline : BytesAt line 0 xs) (hlen : xs.length = len) (hzero : 0 ∉ xs)
    (hroom : len < historyLineMax) :
    cstrAt (store8 (copyFrom m (base h.next) line 0 len) (base h.next + len) 0) (base h.next)
      historyLineMax = xs := by
  refine cstrAt_eq ?_ hzero ?_ (hlen ▸ hroom)
  · exact bytesAt_store8_apart (bytesAt_copyFrom hline hlen.le) (.inr (by rw [hlen]))
  · rw [hlen]
    exact if_pos rfl

theorem lines_put (hring : Terminated h) (hline : BytesAt line 0 xs) (hlen : xs.length = len)
    (hzero : 0 ∉ xs) (hroom : len < historyLineMax) (hm : h.bytes = some m) :
    (h.put m line len).lines = h.lines.map fun lines => (xs :: lines).take historyMax := by
  rw [lines_of_some hm, Option.map_some, lines_of_some (m := _) rfl]
  congr 1
  have hold : ∀ slot < historyMax, slot ≠ h.next →
      cstrAt (store8 (copyFrom m (base h.next) line 0 len) (base h.next + len) 0) (base slot)
        historyLineMax = cstrAt m (base slot) historyLineMax := fun slot _ hne => put_same hroom hne
  have hpush := RecentRing.entries_push hring.next_lt hring.count_le hold
  rw [put_new hline hlen hzero hroom] at hpush
  exact hpush

theorem terminated_put (hring : Terminated h) (hline : BytesAt line 0 xs) (hlen : xs.length = len)
    (hzero : 0 ∉ xs) (hroom : len < historyLineMax) (hm : h.bytes = some m) :
    Terminated (h.put m line len) := by
  have hnext := hring.next_lt
  have hcount := hring.count_le
  have hnew : (if h.count < historyMax then h.count + 1 else h.count) ≤ historyMax := by
    split <;> omega
  refine ⟨Nat.mod_lt _ (Nat.zero_lt_of_lt hnext), hnew, (nomatch ·), ?_⟩
  rintro m' hm' i hi
  obtain rfl := Option.some.inj hm'
  have hi : i < if h.count < historyMax then h.count + 1 else h.count := hi
  show (cstrAt _ (base (RecentRing.slot historyMax ((h.next + 1) % historyMax) i)) _).length < _
  cases i with
  | zero =>
    rw [RecentRing.slot_push_zero hnext, put_new hline hlen hzero hroom, hlen]
    exact hroom
  | succ i =>
    have hlt : i < h.count ∧ i + 1 < historyMax := by
      split at hi <;> omega
    rw [RecentRing.slot_push_succ hnext hlt.2, put_same hroom (RecentRing.slot_ne_next hnext hlt.2)]
    exact hring.ends m hm i hlt.1

theorem ttyHistoryStore_of_some (hm : h.bytes = some m) (hpos : 0 < len)
    (hroom : len < historyLineMax) :
    h.ttyHistoryStore line len =
      if 0 < h.count ∧
          ((List.range len).takeWhile fun i =>
            m (base ((h.next + historyMax - 1) % historyMax) + i) = line i).length = len ∧
          m (base ((h.next + historyMax - 1) % historyMax) +
            ((List.range len).takeWhile fun i =>
              m (base ((h.next + historyMax - 1) % historyMax) + i) = line i).length) = 0
      then h else h.put m line len := by
  rw [ttyHistoryStore, hm]
  simp only [if_neg (Nat.ne_of_gt hpos), if_neg (Nat.not_le.mpr hroom)]
  rfl

theorem head?_lines (hm : h.bytes = some m) (xs : Line) :
    (h.lines.getD []).head? = some xs ↔
      0 < h.count ∧
        cstrAt m (base ((h.next + historyMax - 1) % historyMax)) historyLineMax = xs := by
  rw [lines_of_some hm, Option.getD_some]
  by_cases hcount : 0 < h.count
  · rw [RecentRing.head?_entries hcount, RecentRing.slot, Nat.sub_zero, Option.some.injEq]
    exact (and_iff_right hcount).symm
  · obtain hnone : h.count = 0 := by omega
    rw [hnone]
    exact ⟨(nomatch ·), fun hlatest => absurd hlatest.1 (Nat.lt_irrefl 0)⟩

theorem historyStore_some {lines : List Line} (hlen : xs.length < historyLineMax) :
    historyStore (some lines) xs =
      some (if xs = [] ∨ lines.head? = some xs then lines else (xs :: lines).take historyMax) := by
  have hkept : xs.take (historyLineMax - 1) = xs := List.take_of_length_le (by omega)
  rw [historyStore, Option.map_some]
  simp only [hkept]

theorem store_refines (hring : Terminated h) (hline : BytesAt line 0 xs) (hlen : xs.length = len)
    (hzero : 0 ∉ xs) (hroom : len < historyLineMax) :
    (h.ttyHistoryStore line len).lines = historyStore h.lines xs ∧
      Terminated (h.ttyHistoryStore line len) := by
  cases hm : h.bytes with
  | none =>
    rw [ttyHistoryStore, hm]
    refine ⟨?_, hring⟩
    rw [lines, hm]
    rfl
  | some m =>
    have hlines : h.lines = some (h.lines.getD []) := by rw [lines_of_some hm, Option.getD_some]
    rw [hlines, historyStore_some (hlen ▸ hroom)]
    by_cases hpos : 0 < len
    · have hne : xs ≠ [] := List.ne_nil_of_length_pos (hlen ▸ hpos)
      rw [ttyHistoryStore_of_some hm hpos hroom]
      have hrepeats := (and_congr_right' (compare_iff hline hlen hzero hroom _)).trans
        (head?_lines hm xs).symm
      by_cases hlatest : (h.lines.getD []).head? = some xs
      · rw [if_pos (hrepeats.mpr hlatest), if_pos (.inr hlatest)]
        exact ⟨hlines, hring⟩
      · rw [if_neg (hrepeats.not.mpr hlatest), if_neg (not_or.mpr ⟨hne, hlatest⟩)]
        refine ⟨?_, terminated_put hring hline hlen hzero hroom hm⟩
        rw [lines_put hring hline hlen hzero hroom hm, hlines, Option.map_some, Option.getD_some]
    · have hnil : xs = [] := List.length_eq_zero_iff.mp (by omega)
      have hsame : h.ttyHistoryStore line len = h := by
        rw [ttyHistoryStore, hm]
        exact if_pos (by omega)
      rw [hsame, if_pos (.inl hnil)]
      exact ⟨hlines, hring⟩

theorem ttyHistoryStore_cut (h : HistoryRing) (line : Mem) (len : Nat) :
    h.ttyHistoryStore line len = h.ttyHistoryStore line (min len (historyLineMax - 1)) := by
  by_cases hlong : historyLineMax ≤ len
  · have hcut : min len (historyLineMax - 1) = historyLineMax - 1 := by omega
    have hshort : ¬ historyLineMax ≤ historyLineMax - 1 := by
      rw [historyLineMax]
      omega
    have hne : len ≠ 0 ∧ historyLineMax - 1 ≠ 0 := by
      rw [historyLineMax] at hlong ⊢
      omega
    rw [hcut, ttyHistoryStore, ttyHistoryStore]
    simp only [if_neg hne.1, if_neg hne.2, if_pos hlong, if_neg hshort]
  · rw [Nat.min_eq_left (by omega)]

structure Call where
  text : Mem
  len : Nat

def Call.bytes (call : Call) : Line := (List.range call.len).map call.text

def opened (bytes : Option Mem) : HistoryRing := ⟨bytes, 0, 0⟩

def storeAll (h : HistoryRing) (calls : List Call) : HistoryRing :=
  calls.foldl (fun h call => h.ttyHistoryStore call.text call.len) h

-- the lines cut to the room of a slot, of equal ones in a row only one, the latest first
def keptLines (calls : List Call) : List Line :=
  ((calls.map fun call => call.bytes.take (historyLineMax - 1)).reverse).destutter (· ≠ ·)

theorem opened_terminated (bytes : Option Mem) : Terminated (opened bytes) :=
  ⟨Nat.zero_lt_succ _, Nat.zero_le _, fun _ => rfl, fun _ _ i hi => absurd hi (Nat.not_lt_zero i)⟩

theorem destutter_cons {α : Type} [DecidableEq α] (x : α) (l : List α) :
    (x :: l).destutter (· ≠ ·) =
      if l.head? = some x then l.destutter (· ≠ ·) else x :: l.destutter (· ≠ ·) := by
  cases l with
  | nil => rfl
  | cons y l =>
    rw [List.destutter_cons_cons, List.head?_cons, List.destutter_cons']
    by_cases hxy : x = y
    · rw [hxy, if_neg (not_not.mpr rfl), if_pos rfl]
    · rw [if_pos hxy, if_neg fun h => hxy (Option.some.inj h).symm]

theorem head?_destutter {α : Type} [DecidableEq α] (l : List α) :
    (l.destutter (· ≠ ·)).head? = l.head? := by
  induction l with
  | nil => rfl
  | cons x l ih =>
    rw [destutter_cons]
    split
    case isTrue hhead => rw [ih, hhead, List.head?_cons]
    case isFalse => rw [List.head?_cons, List.head?_cons]

theorem store_kept {kept : List Line} {last : Option Line} (hlast : kept.head? = last)
    (hlen : xs.length < historyLineMax) (hne : xs ≠ []) :
    historyStore (some (kept.take historyMax)) xs =
      some ((if last = some xs then kept else xs :: kept).take historyMax) := by
  have hhead : (kept.take historyMax).head? = last := by
    rw [← hlast]
    cases kept <;> rfl
  rw [historyStore_some hlen, hhead]
  by_cases hsame : last = some xs
  · rw [if_pos (.inr hsame), if_pos hsame]
  · rw [if_neg (not_or.mpr ⟨hne, hsame⟩), if_neg hsame, List.take_cons (by rw [historyMax]; omega),
      List.take_cons (by rw [historyMax]; omega), List.take_take, Nat.min_eq_left (Nat.sub_le _ _)]

theorem Call.bytes_cut (call : Call) :
    call.bytes.take (historyLineMax - 1) =
      Call.bytes ⟨call.text, min call.len (historyLineMax - 1)⟩ := by
  rw [Call.bytes, Call.bytes, ← List.map_take, List.take_range, Nat.min_comm]

theorem call_refines (hring : Terminated h) (call : Call) (htext : 0 ∉ call.bytes) :
    (h.ttyHistoryStore call.text call.len).lines =
        historyStore h.lines (call.bytes.take (historyLineMax - 1)) ∧
      Terminated (h.ttyHistoryStore call.text call.len) := by
  rw [ttyHistoryStore_cut, call.bytes_cut]
  have hlt : min call.len (historyLineMax - 1) < historyLineMax := by
    rw [historyLineMax]
    omega
  have hline : BytesAt call.text 0 (Call.bytes ⟨call.text, min call.len (historyLineMax - 1)⟩) := by
    have hrange := bytesAt_range call.text 0 (min call.len (historyLineMax - 1))
    simp only [Nat.zero_add] at hrange
    exact hrange
  have hlen : (Call.bytes ⟨call.text, min call.len (historyLineMax - 1)⟩).length =
      min call.len (historyLineMax - 1) := by
    rw [Call.bytes, List.length_map, List.length_range]
  refine store_refines hring hline hlen (fun hzero => htext ?_) hlt
  rw [← call.bytes_cut] at hzero
  exact List.mem_of_mem_take hzero

theorem storeAll_lines (m : Mem) (calls : List Call) (hpos : ∀ call ∈ calls, call.len ≠ 0)
    (htext : ∀ call ∈ calls, 0 ∉ call.bytes) :
    ((opened (some m)).storeAll calls).lines = some ((keptLines calls).take historyMax) ∧
      Terminated ((opened (some m)).storeAll calls) := by
  induction calls using List.reverseRecOn with
  | nil => exact ⟨rfl, opened_terminated _⟩
  | append_singleton calls call ih =>
    obtain ⟨hlines, hring⟩ := ih (fun c hc => hpos c (by simp [hc])) fun c hc => htext c (by simp [hc])
    have hcall := call_refines hring call (htext call (by simp))
    have hne : call.bytes.take (historyLineMax - 1) ≠ [] := by
      have hcount : min call.len (historyLineMax - 1) ≠ 0 := by
        have hcall := hpos call (by simp)
        rw [historyLineMax]
        omega
      rw [call.bytes_cut, Call.bytes, ne_eq, List.map_eq_nil_iff, List.range_eq_nil]
      exact hcount
    have hlt : (call.bytes.take (historyLineMax - 1)).length < historyLineMax := by
      rw [List.length_take, historyLineMax]
      omega
    have hkept := store_kept
      (head?_destutter (calls.map fun call => call.bytes.take (historyLineMax - 1)).reverse) hlt hne
    have hlast : (opened (some m)).storeAll (calls ++ [call]) =
        ((opened (some m)).storeAll calls).ttyHistoryStore call.text call.len := by
      rw [storeAll, List.foldl_append]
      rfl
    rw [hlast]
    refine ⟨?_, hcall.2⟩
    rw [hcall.1, hlines, keptLines, hkept, keptLines, List.map_append, List.reverse_append,
      List.map_singleton, List.reverse_singleton, List.singleton_append, destutter_cons]

def ReadsAt (m : Mem) (a : Nat) (line : Line) : Prop := BytesAt m a line ∧ m (a + line.length) = 0

theorem storeAll_none (calls : List Call) : (opened none).storeAll calls = opened none := by
  induction calls with
  | nil => rfl
  | cons call calls ih => exact ih

theorem get_latest (bytes : Option Mem) (calls : List Call) (hpos : ∀ call ∈ calls, call.len ≠ 0)
    (htext : ∀ call ∈ calls, 0 ∉ call.bytes) :
    let h := (opened bytes).storeAll calls
    let kept := if bytes.isSome then keptLines calls else []
    h.count = min historyMax kept.length ∧
      ∀ k < h.count, ∃ m a line, h.ttyHistoryGet k = some (m, a) ∧ kept[k]? = some line ∧
        ReadsAt m a line := by
  intro h kept
  cases bytes with
  | none =>
    have hcount : h.count = 0 := by
      rw [show h = opened none from storeAll_none calls]
      rfl
    rw [hcount]
    exact ⟨rfl, fun k hk => absurd hk (Nat.not_lt_zero k)⟩
  | some m =>
    obtain ⟨hlines, hring⟩ := storeAll_lines m calls hpos htext
    have hcount : h.count = min historyMax kept.length := by
      rw [← length_lines hring, hlines, Option.getD_some, List.length_take]
      rfl
    refine ⟨hcount, fun k hk => ?_⟩
    obtain ⟨m', a, hget, hentry, hend⟩ := ttyHistoryGet_eq hring hk
    have hlt : k < kept.length := by omega
    have hmax : k < historyMax := by omega
    have hnth : (keptLines calls)[k]? = some ((keptLines calls).get ⟨k, hlt⟩) :=
      List.getElem?_eq_getElem hlt
    rw [hlines, Option.getD_some, List.getD_eq_getElem?_getD, List.getElem?_take_of_lt hmax, hnth,
      Option.getD_some] at hentry
    have hline : kept[k]? = some (cstrAt m' a historyLineMax) := hentry ▸ hnth
    exact ⟨m', a, _, hget, hline, cstrAt_prefix m' a historyLineMax, cstrAt_end hend⟩

theorem get_latest_three :
    let h := (opened (some fun _ => 0)).storeAll [⟨fun _ => 97, 2⟩, ⟨fun _ => 97, 2⟩, ⟨fun _ => 98, 1⟩]
    h.count = min historyMax 2 ∧ ∀ k < h.count, ∃ m a line, h.ttyHistoryGet k = some (m, a) ∧
      [[98], [97, 97]][k]? = some line ∧ ReadsAt m a line :=
  get_latest (some fun _ => 0) [⟨fun _ => 97, 2⟩, ⟨fun _ => 97, 2⟩, ⟨fun _ => 98, 1⟩] (by decide)
    (by decide)

end HistoryRing

end HouseOS.Tty
