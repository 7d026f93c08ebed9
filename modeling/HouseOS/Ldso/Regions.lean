import HouseOS.Elf.Bounds
import HouseOS.Ldso.Model
import HouseOS.Library.Run

namespace HouseOS.Ldso

open HouseOS.ByteMem
open HouseOS.Elf (InFile inFile_of_le entry_inFile phdrBytes ptLoad)
open HouseOS.Scan
open HouseOS.Word

theorem alignUp_eq {v : Nat} (h : v + 4095 < 2 ^ 32) :
    alignUp v 0x1000 = (v + 4095) / 4096 * 4096 := by
  have hmask : not32 (0x1000 - 1) = 2 ^ 32 - 2 ^ 12 := rfl
  rw [alignUp, hmask, add32_eq (by omega), and_clear_low (by omega) (by omega)]
  rfl

theorem le_alignUp {v : Nat} (h : v + 4095 < 2 ^ 32) : v ≤ alignUp v 0x1000 := by
  rw [alignUp_eq h]
  omega

namespace SoFile

variable (f : SoFile)

theorem pVaddr_lt (i : Nat) : f.elf.pVaddr i < 2 ^ 32 := load32_lt _ _

theorem pMemsz_lt (i : Nat) : f.elf.pMemsz i < 2 ^ 32 := load32_lt _ _

def spanBefore (n : Nat) : Span := (List.range n).foldl (fun s i => f.visit i s) noSpan

def loadSpanBefore (n : Nat) : Span := (List.range n).foldl (fun s i => f.visitLoad i s) noSpan

def span : Span := f.spanBefore f.elf.ePhnum

def loadSpan : Span := f.loadSpanBefore f.elf.ePhnum

structure Bounds (n : Nat) (s : Span) : Prop where
  low : ∀ i < n, f.loaded i = true → s.minV ≤ f.elf.pVaddr i
  high : ∀ i < n, f.loaded i = true → add32 (f.elf.pVaddr i) (f.elf.pMemsz i) ≤ s.maxV
  attained : s.minV = 0xffffffff ∨ ∃ i < n, f.loaded i = true ∧ s.minV = f.elf.pVaddr i
  word : s.maxV < 2 ^ 32

theorem bounds_noSpan : Bounds f 0 noSpan := by
  refine ⟨fun i hi => ?_, fun i hi => ?_, Or.inl rfl, by decide⟩
  · omega
  · omega

theorem bounds_visitLoad {n : Nat} {s : Span} (h : Bounds f n s) :
    Bounds f (n + 1) (f.visitLoad n s) := by
  have hvisit : f.visitLoad n s = s ∧ f.loaded n = false ∨ f.loaded n = true ∧
      (f.visitLoad n s).minV = (if f.elf.pVaddr n < s.minV then f.elf.pVaddr n else s.minV) ∧
      (f.visitLoad n s).maxV = (if s.maxV < add32 (f.elf.pVaddr n) (f.elf.pMemsz n)
        then add32 (f.elf.pVaddr n) (f.elf.pMemsz n) else s.maxV) := by
    rw [visitLoad]
    split
    · exact Or.inr ⟨‹_›, rfl, rfl⟩
    · rename_i hno
      exact Or.inl ⟨rfl, Bool.eq_false_iff.mpr hno⟩
  rcases hvisit with ⟨hsame, hno⟩ | ⟨hyes, hmin, hmax⟩
  · rw [hsame]
    have hlt (i : Nat) (hi : i < n + 1) (hl : f.loaded i = true) : i < n := by
      rcases Nat.lt_succ_iff_lt_or_eq.mp hi with hi | rfl
      · exact hi
      · rw [hno] at hl
        cases hl
    refine ⟨fun i hi hl => h.low i (hlt i hi hl) hl, fun i hi hl => h.high i (hlt i hi hl) hl, ?_,
      h.word⟩
    rcases h.attained with hnone | ⟨i, hi, hl, heq⟩
    · exact Or.inl hnone
    · exact Or.inr ⟨i, by omega, hl, heq⟩
  · refine ⟨fun i hi hl => ?_, fun i hi hl => ?_, ?_, ?_⟩
    · rw [hmin]
      rcases Nat.lt_succ_iff_lt_or_eq.mp hi with hi | rfl
      · have := h.low i hi hl
        split <;> omega
      · split <;> omega
    · rw [hmax]
      rcases Nat.lt_succ_iff_lt_or_eq.mp hi with hi | rfl
      · have := h.high i hi hl
        split <;> omega
      · split <;> omega
    · rw [hmin]
      split
      · exact Or.inr ⟨n, by omega, hyes, rfl⟩
      · rcases h.attained with hnone | ⟨i, hi, hl, heq⟩
        · exact Or.inl hnone
        · exact Or.inr ⟨i, by omega, hl, heq⟩
    · rw [hmax]
      split
      · exact Nat.mod_lt _ (by decide)
      · exact h.word

theorem bounds_visitDynamic {n i : Nat} {s : Span} (h : Bounds f n s) :
    Bounds f n (f.visitDynamic i s) := by
  rw [visitDynamic]
  split
  · exact ⟨h.low, h.high, h.attained, h.word⟩
  · exact h

theorem bounds_spanBefore (n : Nat) : Bounds f n (f.spanBefore n) := by
  induction n with
  | zero => exact bounds_noSpan f
  | succ n ih =>
    rw [spanBefore, List.range_succ, List.foldl_append]
    exact bounds_visitLoad f (bounds_visitDynamic f ih)

theorem bounds_loadSpanBefore (n : Nat) : Bounds f n (f.loadSpanBefore n) := by
  induction n with
  | zero => exact bounds_noSpan f
  | succ n ih =>
    rw [loadSpanBefore, List.range_succ, List.foldl_append]
    exact bounds_visitLoad f ih

-- a segment that passes the scan ends where its sum says
theorem segBad_false {i : Nat} (h : f.segBad i = false) (hl : f.loaded i = true) :
    ¬ f.size < add32 (f.elf.pOffset i) (f.elf.pFilesz i) ∧
      f.elf.pVaddr i + f.elf.pMemsz i < 2 ^ 32 := by
  rw [segBad, hl, Bool.true_and, decide_eq_false_iff_not, not_or] at h
  obtain ⟨hfile, hmem⟩ := h
  refine ⟨hfile, ?_⟩
  have hv := pVaddr_lt f i
  have hm := pMemsz_lt f i
  rw [add32] at hmem
  omega

theorem high_end {n : Nat} {s : Span} (h : Bounds f n s) {i : Nat} (hi : i < n)
    (hl : f.loaded i = true) (hok : f.segBad i = false) :
    f.elf.pVaddr i + f.elf.pMemsz i ≤ s.maxV := by
  have hsum := (segBad_false f hok hl).2
  have := h.high i hi hl
  rwa [add32_eq hsum] at this

end SoFile

section Ranges

def InRange (lo hi : Nat) (r : Nat × Nat) : Prop :=
  ∀ k < r.2, lo ≤ (r.1 + k) % 2 ^ 32 ∧ (r.1 + k) % 2 ^ 32 < hi

def ReadsIn (size : Nat) (reads : List (Nat × Nat)) : Prop := ∀ r ∈ reads, InFile size r

variable {lo hi a n size : Nat} {reads reads' : List (Nat × Nat)}

theorem inRange_of_le (hlo : lo ≤ a) (hhi : a + n ≤ hi) (hword : hi < 2 ^ 32) :
    InRange lo hi (a, n) := by
  intro k hk
  have hk : k < n := hk
  show lo ≤ (a + k) % 2 ^ 32 ∧ (a + k) % 2 ^ 32 < hi
  rw [Nat.mod_eq_of_lt (by omega)]
  omega

theorem inRange_empty : InRange lo hi (a, 0) := fun _ hk => absurd hk (Nat.not_lt_zero _)

theorem readsIn_append (h : ReadsIn size reads) (h' : ReadsIn size reads') :
    ReadsIn size (reads ++ reads') := by
  intro r hr
  rcases List.mem_append.mp hr with hr | hr
  · exact h r hr
  · exact h' r hr

theorem readsIn_nil : ReadsIn size [] := fun _ hr => absurd hr List.not_mem_nil

theorem readsIn_singleton {r : Nat × Nat} (h : InFile size r) : ReadsIn size [r] := by
  intro q hq
  rwa [List.mem_singleton.mp hq]

end Ranges

namespace SoFile

variable (f : SoFile)

theorem size_lt : f.size < 2 ^ 32 := Nat.lt_of_le_of_lt f.fits (by decide)

def info : HouseOS.Elf.Info := ⟨.file, f.size, f.size_lt⟩

def TableIn : Prop := f.elf.ePhoff + phdrBytes * f.elf.ePhnum ≤ f.size

variable {f} {i : Nat}

theorem field_in (ht : f.TableIn) (hi : i < f.elf.ePhnum) {k : Nat} (hk : k + 4 ≤ phdrBytes) :
    InFile f.size (f.elf.ph i + k, 4) :=
  have hin : InFile f.info.size (f.elf.ph i + k, 4) := entry_inFile hi f.size_lt ht hk
  hin

theorem fields_in (ht : f.TableIn) (hi : i < f.elf.ePhnum) (ks : List Nat)
    (hk : ∀ k ∈ ks, k + 4 ≤ phdrBytes) :
    ReadsIn f.size (ks.map (fun k => (f.elf.ph i + k, 4))) := by
  intro r hr
  obtain ⟨k, hmem, rfl⟩ := List.mem_map.mp hr
  exact field_in ht hi (hk k hmem)

theorem dynamicReads_in (ht : f.TableIn) (hi : i < f.elf.ePhnum) :
    ReadsIn f.size (f.dynamicReads i) := by
  rw [dynamicReads]
  split
  · exact fields_in ht hi [8, 4, 16] (by decide)
  · exact readsIn_nil

theorem loadReads_in (ht : f.TableIn) (hi : i < f.elf.ePhnum) :
    ReadsIn f.size (f.loadReads i) := by
  rw [loadReads]
  split_ifs
  · exact fields_in ht hi [0] (by decide)
  · exact fields_in ht hi [0, 20] (by decide)
  · exact fields_in ht hi [0, 20, 4, 16, 8] (by decide)

theorem hashReads_in (ht : f.TableIn) (hi : i < f.elf.ePhnum) :
    ReadsIn f.size (f.hashReads i) := by
  rw [hashReads]
  split_ifs
  · exact fields_in ht hi [0] (by decide)
  · exact fields_in ht hi [0, 16] (by decide)
  · exact fields_in ht hi [0, 16, 8] (by decide)

theorem headerReads_in : ReadsIn f.size f.headerReads := by
  rw [headerReads]
  split
  · exact readsIn_singleton (inFile_of_le f.size_lt (by omega))
  · exact readsIn_nil

theorem segScan_reads (ht : f.TableIn) {reads : List (Nat × Nat)} (h : ReadsIn f.size reads) :
    ReadsIn f.size (scan f.segBody f.elf.ePhnum 0 (noSpan, reads)).2.2 := by
  refine scan_invariant_lt f.segBody (fun s => ReadsIn f.size s.2) f.elf.ePhnum ?_ _ 0 _
    (by omega) h
  intro i s hi hs
  have hall := readsIn_append (readsIn_append hs (dynamicReads_in ht hi)) (loadReads_in ht hi)
  rw [segBody]
  split <;> exact hall

theorem segScan_none {reads : List (Nat × Nat)} {s : Span × List (Nat × Nat)}
    (h : scan f.segBody f.elf.ePhnum 0 (noSpan, reads) = (none, s)) :
    (∀ i < f.elf.ePhnum, f.segBad i = false) ∧ s.1 = f.span := by
  have hpass (i : Nat) (s : Span × List (Nat × Nat)) :
      (f.segBody i s).1 = none ↔ f.segBad i = false := by
    rw [segBody]
    split <;> simp_all
  have hall := (scan_none_iff f.segBody hpass f.elf.ePhnum 0 (noSpan, reads)).mp (by rw [h])
  have hok (i : Nat) (hi : i < f.elf.ePhnum) : f.segBad i = false := hall i (by omega) (by omega)
  refine ⟨hok, ?_⟩
  have hproj := scan_project_all f.segBody (fun i => f.segBad i = false)
    Prod.fst (fun i sp => f.visit i sp) (fun i s hi => by rw [segBody, hi]; exact ⟨rfl, rfl⟩)
    f.elf.ePhnum 0 (noSpan, reads) (fun i _ hi => hok i (by omega))
  rw [h, ← List.range_eq_range'] at hproj
  exact hproj

def hashOff (f : SoFile) (v : Nat) : Option Nat :=
  ((List.range f.elf.ePhnum).find? (f.hashHit v)).map
    (fun j => add32 (f.elf.pOffset j) (sub32 v (f.elf.pVaddr j)))

theorem hashScan_fst (v : Nat) : ∀ (n i : Nat) (reads : List (Nat × Nat)),
    (scan (f.hashBody v) n i reads).1 = ((List.range' i n).find? (f.hashHit v)).map
      (fun j => add32 (f.elf.pOffset j) (sub32 v (f.elf.pVaddr j))) := by
  intro n
  induction n with
  | zero => exact fun _ _ => rfl
  | succ n ih =>
    intro i reads
    rw [List.range'_succ]
    cases hhit : f.hashHit v i with
    | true =>
      rw [scan_stop (by rw [hashBody, if_pos hhit]), List.find?_cons_of_pos hhit]
      rfl
    | false =>
      rw [scan_go (by rw [hashBody, if_neg (by simp [hhit])]), ih,
        List.find?_cons_of_neg (by simp [hhit])]

theorem hashScan_reads (ht : f.TableIn) (v : Nat) {reads : List (Nat × Nat)}
    (h : ReadsIn f.size reads) :
    ReadsIn f.size (scan (f.hashBody v) f.elf.ePhnum 0 reads).2 := by
  refine scan_invariant_lt (f.hashBody v) (ReadsIn f.size) f.elf.ePhnum ?_ _ 0 _ (by omega) h
  intro i reads hi hs
  have hall := readsIn_append hs (hashReads_in ht hi)
  rw [hashBody]
  split
  · exact readsIn_append hall (readsIn_singleton (field_in ht hi (by decide)))
  · exact hall

def hashValue (f : SoFile) (v : Nat) : Option Nat :=
  match f.hashOff v with
  | none => none
  | some off => if f.size < add32 off 8 then none else some (load32 f.elf.at_ (add32 off 4))

theorem hashCount_fst (v : Nat) (reads : List (Nat × Nat)) :
    (f.hashCount v reads).1 = f.hashValue v := by
  have hoff : (scan (f.hashBody v) f.elf.ePhnum 0 reads).1 = f.hashOff v := by
    rw [hashScan_fst, ← List.range_eq_range', hashOff]
  rw [hashCount, hashValue]
  rcases hs : scan (f.hashBody v) f.elf.ePhnum 0 reads with ⟨_ | off, reads'⟩
  · rw [hs] at hoff
    rw [← hoff]
  · rw [hs] at hoff
    rw [← hoff]
    dsimp only
    split <;> rfl

theorem hashCount_reads (ht : f.TableIn) {v : Nat}
    (hv : ∀ off, f.hashOff v = some off → ¬ f.size < add32 off 8 → add32 off 4 + 4 ≤ f.size)
    {reads : List (Nat × Nat)} (h : ReadsIn f.size reads) :
    ReadsIn f.size (f.hashCount v reads).2 := by
  have hscan := hashScan_reads ht v h
  have hoff : (scan (f.hashBody v) f.elf.ePhnum 0 reads).1 = f.hashOff v := by
    rw [hashScan_fst, ← List.range_eq_range', hashOff]
  rw [hashCount]
  rcases hs : scan (f.hashBody v) f.elf.ePhnum 0 reads with ⟨_ | off, reads'⟩
  · rw [hs] at hscan
    exact hscan
  · rw [hs] at hscan hoff
    dsimp only
    split
    · exact hscan
    · rename_i hsize
      exact readsIn_append hscan
        (readsIn_singleton (inFile_of_le f.size_lt (hv off hoff.symm hsize)))

def reached (f : SoFile) (dynOff i : Nat) : Prop := ∀ j < i, f.dynTag dynOff j ≠ dtNull

structure DynFits (f : SoFile) (dynOff count : Nat) : Prop where
  entry : ∀ i < count, f.reached dynOff i →
    dynOff + dynBytes * i + (if f.dynTag dynOff i ∈ knownTags then 8 else 4) ≤ f.size
  hash : ∀ i < count, f.reached dynOff i → f.dynTag dynOff i = dtHash →
    ∀ off, f.hashOff (f.dynVal dynOff i) = some off → ¬ f.size < add32 off 8 →
      add32 off 4 + 4 ≤ f.size

theorem dynReads_in {dynOff i : Nat}
    (h : dynOff + dynBytes * i + (if f.dynTag dynOff i ∈ knownTags then 8 else 4) ≤ f.size) :
    ReadsIn f.size (f.dynReads dynOff i) := by
  rw [dynReads]
  split at h <;> rename_i hknown
  · rw [if_pos hknown]
    intro r hr
    simp only [List.mem_cons, List.not_mem_nil, or_false] at hr
    rcases hr with rfl | rfl <;> exact inFile_of_le f.size_lt (by omega)
  · rw [if_neg hknown]
    exact readsIn_singleton (inFile_of_le f.size_lt h)

theorem dynScan_reads (ht : f.TableIn) (bias : Nat) {dynOff count : Nat}
    (h : f.DynFits dynOff count) : ∀ (n i : Nat) (s : Dyn × List (Nat × Nat)), i + n = count →
      f.reached dynOff i → ReadsIn f.size s.2 →
      ReadsIn f.size (scan (f.dynBody bias dynOff) n i s).2.2 := by
  intro n
  induction n with
  | zero => exact fun _ _ _ _ hs => hs
  | succ n ih =>
    intro i s hn hreach hs
    have hall := readsIn_append hs (dynReads_in (h.entry i (by omega) hreach))
    by_cases hnull : f.dynTag dynOff i = dtNull
    · rw [scan_stop (by rw [dynBody, if_pos hnull])]
      exact hall
    · rw [scan_go (by rw [dynBody, if_neg hnull])]
      refine ih (i + 1) _ (by omega) ?_ ?_
      · intro j hj
        rcases Nat.lt_succ_iff_lt_or_eq.mp hj with hj | rfl
        · exact hreach j hj
        · exact hnull
      · by_cases hhash : f.dynTag dynOff i = dtHash
        · rw [if_pos hhash]
          exact hashCount_reads ht (h.hash i (by omega) hreach hhash) hall
        · rw [if_neg hhash]
          exact hall

def dynTable (f : SoFile) (bias dynOff count : Nat) : Dyn :=
  ((List.range count).takeWhile (fun i => decide (f.dynTag dynOff i ≠ dtNull))).foldl
    (fun d i => visitDyn bias (f.dynTag dynOff i) (f.dynVal dynOff i)
      (if f.dynTag dynOff i = dtHash then f.hashValue (f.dynVal dynOff i) else none) d) noDyn

theorem dynScan_dyn (bias dynOff count : Nat) (reads : List (Nat × Nat)) :
    (scan (f.dynBody bias dynOff) count 0 (noDyn, reads)).2.1 = f.dynTable bias dynOff count := by
  have hproj := scan_project (f.dynBody bias dynOff)
    (fun i => decide (f.dynTag dynOff i ≠ dtNull)) Prod.fst
    (fun i d => visitDyn bias (f.dynTag dynOff i) (f.dynVal dynOff i)
      (if f.dynTag dynOff i = dtHash then f.hashValue (f.dynVal dynOff i) else none) d)
    ?_ ?_ count 0 (noDyn, reads)
  · rw [hproj, dynTable, List.range_eq_range']
  · intro i s hgood
    have hnull : f.dynTag dynOff i ≠ dtNull := of_decide_eq_true hgood
    rw [dynBody, if_neg hnull]
    refine ⟨rfl, ?_⟩
    by_cases hhash : f.dynTag dynOff i = dtHash
    · simp only [if_pos hhash, hashCount_fst]
    · simp only [if_neg hhash]
  · intro i s hgood
    have hnull : f.dynTag dynOff i = dtNull := by
      by_contra hne
      rw [decide_eq_true hne] at hgood
      cases hgood
    rw [dynBody, if_pos hnull]
    exact ⟨by simp, rfl⟩

end SoFile

end HouseOS.Ldso
