import HouseOS.Ldso.Loads

namespace HouseOS.Ldso

open HouseOS.ByteMem
open HouseOS.Run
open HouseOS.Scan
open HouseOS.Word

def InImage (w : Nat × Nat) : Prop := ∀ k < w.2, w.1 + k < dlImageCap

theorem inImage_iff {a n : Nat} : InImage (a, n) ↔ n = 0 ∨ a + n ≤ dlImageCap := by
  constructor
  · intro h
    by_cases hn : n = 0
    · exact Or.inl hn
    · have : a + (n - 1) < dlImageCap := h (n - 1) (show n - 1 < n by omega)
      exact Or.inr (by omega)
  · intro h k hk
    have hk : k < n := hk
    show a + k < dlImageCap
    omega

variable {f : SoFile} {image : Mem}

structure DlAccepts (f : SoFile) : Prop where
  header : f.parseEhdr = true
  segs : ∀ i < f.elf.ePhnum, f.segBad i = false
  span : ¬ (f.loadSpan.minV = 0xffffffff ∨ f.loadSpan.maxV ≤ f.loadSpan.minV)
  small : ¬ dlImageCap < f.loadSpan.maxV - f.loadSpan.minV

theorem dlScan_none_iff (reads : List (Nat × Nat)) :
    (scan (dlBody f) f.elf.ePhnum 0 (noSpan, reads)).1 = none ↔
      ∀ i < f.elf.ePhnum, f.segBad i = false := by
  have hpass (i : Nat) (s : Span × List (Nat × Nat)) :
      (dlBody f i s).1 = none ↔ f.segBad i = false := by
    rw [dlBody]
    split <;> simp_all
  rw [scan_none_iff (dlBody f) hpass]
  constructor
  · exact fun h i hi => h i (Nat.zero_le _) (by omega)
  · exact fun h i _ hi => h i (by omega)

theorem dlScan_span (reads : List (Nat × Nat)) (h : ∀ i < f.elf.ePhnum, f.segBad i = false) :
    (scan (dlBody f) f.elf.ePhnum 0 (noSpan, reads)).2.1 = f.loadSpan := by
  have hproj := scan_project_all (dlBody f) (fun i => f.segBad i = false)
    Prod.fst (fun i sp => f.visitLoad i sp) (fun i s hi => by rw [dlBody, hi]; exact ⟨rfl, rfl⟩)
    f.elf.ePhnum 0 (noSpan, reads) (fun i _ hi => h i (by omega))
  rwa [← List.range_eq_range'] at hproj

theorem dlFold_writes (minV : Nat) (p : Placed) (n : Nat) (w : Nat × Nat) :
    w ∈ ((List.range n).foldl (dlSeg f minV) p).writes ↔ w ∈ p.writes ∨
      ∃ i < n, f.loaded i = true ∧ w = (f.elf.pVaddr i - minV, f.elf.pFilesz i) := by
  induction n with
  | zero => simp
  | succ n ih =>
    rw [List.range_succ, List.foldl_append]
    have hseg (q : Placed) : w ∈ (dlSeg f minV q n).writes ↔ w ∈ q.writes ∨
        f.loaded n = true ∧ w = (f.elf.pVaddr n - minV, f.elf.pFilesz n) := by
      rw [dlSeg]
      split
      · rename_i hl
        simp [Placed.memcpy, hl]
      · rename_i hl
        simp [hl]
    show w ∈ (dlSeg f minV ((List.range n).foldl (dlSeg f minV) p) n).writes ↔ _
    rw [hseg, ih]
    constructor
    · rintro ((hw | ⟨i, hi, hl, heq⟩) | ⟨hl, heq⟩)
      · exact Or.inl hw
      · exact Or.inr ⟨i, by omega, hl, heq⟩
      · exact Or.inr ⟨n, by omega, hl, heq⟩
    · rintro (hw | ⟨i, hi, hl, heq⟩)
      · exact Or.inl (Or.inl hw)
      · rcases Nat.lt_succ_iff_lt_or_eq.mp hi with hi | rfl
        · exact Or.inl (Or.inr ⟨i, hi, hl, heq⟩)
        · exact Or.inr ⟨hl, heq⟩

theorem parseAndLoad_refused (h : ¬ DlAccepts f) : (parseAndLoad f image).2.writes = [] := by
  rw [parseAndLoad]
  dsimp only
  split
  · rfl
  · rename_i hparse
    rcases hscan : scan (dlBody f) f.elf.ePhnum 0 (noSpan, f.headerReads) with ⟨_ | e, s⟩
    · have hsegs := (dlScan_none_iff f.headerReads).mp (congrArg Prod.fst hscan)
      have hspan := dlScan_span f.headerReads hsegs
      rw [hscan] at hspan
      dsimp only
      split
      · rfl
      · rename_i hempty
        split
        · rfl
        · rename_i hsmall
          refine absurd ⟨by simpa using hparse, hsegs, ?_, ?_⟩ h
          · exact hspan ▸ hempty
          · exact hspan ▸ hsmall
    · rfl

theorem parseAndLoad_writes (h : DlAccepts f) (w : Nat × Nat) :
    w ∈ (parseAndLoad f image).2.writes ↔ w = (0, f.loadSpan.maxV - f.loadSpan.minV) ∨
      ∃ i < f.elf.ePhnum, f.loaded i = true ∧
        w = (f.elf.pVaddr i - f.loadSpan.minV, f.elf.pFilesz i) := by
  have hnone := (dlScan_none_iff f.headerReads).mpr h.segs
  have hspan := dlScan_span f.headerReads h.segs
  rw [parseAndLoad, if_neg (by rw [h.header]; decide)]
  dsimp only
  rcases hscan : scan (dlBody f) f.elf.ePhnum 0 (noSpan, f.headerReads) with ⟨_ | e, s⟩
  · rw [hscan] at hspan
    have hspan : s.1 = f.loadSpan := hspan
    dsimp only
    rw [hspan, if_neg h.span, if_neg h.small, dlFold_writes]
    simp [Placed.memset0]
  · rw [hscan] at hnone
    cases hnone

-- no segment copies more of the file than the image has room for behind its address
def DylibFits (f : SoFile) : Prop :=
  DlAccepts f → ∀ i < f.elf.ePhnum, f.loaded i = true → f.elf.pFilesz i = 0 ∨
    ∀ j < f.elf.ePhnum, f.loaded j = true →
      f.elf.pVaddr i + f.elf.pFilesz i ≤ f.elf.pVaddr j + dlImageCap

theorem parseAndLoad_in_image_iff (f : SoFile) (image : Mem) :
    (∀ w ∈ (parseAndLoad f image).2.writes, InImage w) ↔ DylibFits f := by
  by_cases hacc : DlAccepts f
  · have hbounds := f.bounds_loadSpanBefore f.elf.ePhnum
    obtain ⟨hmin, hmax⟩ := not_or.mp hacc.span
    constructor
    · intro h _ i hi hl
      have hw := h _ ((parseAndLoad_writes hacc _).mpr (Or.inr ⟨i, hi, hl, rfl⟩))
      rcases inImage_iff.mp hw with hzero | hfit
      · exact Or.inl hzero
      · refine Or.inr fun j hj hlj => ?_
        have hlow : f.loadSpan.minV ≤ f.elf.pVaddr j := hbounds.low j hj hlj
        omega
    · intro h w hw
      rcases (parseAndLoad_writes hacc w).mp hw with rfl | ⟨i, hi, hl, rfl⟩
      · have := hacc.small
        exact inImage_iff.mpr (Or.inr (by omega))
      · rcases h hacc i hi hl with hzero | hfit
        · exact inImage_iff.mpr (Or.inl hzero)
        · rcases hbounds.attained with hnone | ⟨j, hj, hlj, heq⟩
          · exact absurd hnone hmin
          · have heq : f.loadSpan.minV = f.elf.pVaddr j := heq
            have hlow : f.loadSpan.minV ≤ f.elf.pVaddr i := hbounds.low i hi hl
            have := hfit j hj hlj
            exact inImage_iff.mpr (Or.inr (by omega))
  · constructor
    · exact fun _ h => absurd h hacc
    · intro _ w hw
      rw [parseAndLoad_refused hacc] at hw
      exact absurd hw List.not_mem_nil

theorem objects_stay_in_their_images (l : Loader) (calls : List Call) (s : Loader × List Trace)
    (f : SoFile) (image : Mem) :
    (l.nextLibBase = userLibStart → Along loadStep CallFits (l, []) calls →
      run loadStep (l, []) calls = some s →
      (∀ t ∈ s.2, StaysIn t) ∧ (s.2.filterMap Trace.region).Pairwise Apart) ∧
    ((∀ w ∈ (parseAndLoad f image).2.writes, InImage w) ↔ DylibFits f) := by
  refine ⟨?_, parseAndLoad_in_image_iff f image⟩
  intro hstart hfit hrun
  have h := separate_run hstart calls hfit hrun
  exact ⟨h.stays, h.apart⟩

section Examples

def leBytes (v : Nat) : List UInt8 := [byte v 0, byte v 1, byte v 2, byte v 3]

-- a header with two program headers at once behind it
def ehdrOfTwo : List UInt8 :=
  [0x7f, 0x45, 0x4c, 0x46, 1, 1, 1, 0, 0, 0, 0, 0, 0, 0, 0, 0, 3, 0, 3, 0, 1, 0, 0, 0, 0, 0, 0, 0,
   52, 0, 0, 0, 0, 0, 0, 0, 0, 0, 0, 0, 52, 0, 32, 0, 2, 0, 0, 0, 0, 0, 0, 0]

def phdrOf (type offset vaddr filesz memsz : Nat) : List UInt8 :=
  leBytes type ++ leBytes offset ++ leBytes vaddr ++ leBytes 0 ++ leBytes filesz ++
    leBytes memsz ++ leBytes 5 ++ leBytes 0x1000

def memOf (bytes : List UInt8) : Mem := fun x => bytes.getD x 0

-- DT_STRTAB, DT_SYMTAB and DT_NULL
def plainObject : SoFile :=
  { size := 256
    bytes := memOf (ehdrOfTwo ++ phdrOf 1 0 0 0x100 0x200 ++ phdrOf 2 128 128 24 24 ++
      List.replicate 12 0 ++ leBytes 5 ++ leBytes 64 ++ leBytes 6 ++ leBytes 32)
    fits := by decide }

-- one more byte in the file than a page, sixteen bytes in memory
def longSegment : SoFile :=
  { size := 0x1001
    bytes := memOf (ehdrOfTwo ++ phdrOf 1 0 0 0x1001 0x10 ++ phdrOf 2 0 1 0 0)
    fits := by decide }

def longTail : SoFile :=
  { size := 0x100
    bytes := memOf (ehdrOfTwo ++ phdrOf 1 0 0 0x10 0x10 ++ phdrOf 1 0 0xfff0 0x100 0x10)
    fits := by decide }

def emptyLoader : Loader := { objs := [], nextLibBase := userLibStart, mem := fun _ => 0 }

def loadOf (f : SoFile) : Call := { path := [47, 97], soname := [97], file := some f }

theorem plainObject_fits {l : Loader} (h : l.nextLibBase = 0x6c0000 ∨ l.nextLibBase = 0x6c1000) :
    SumsFit plainObject l where
  table _ _ := Or.inr (by decide)
  window _ := by
    rw [Loader.base]
    rcases h with h | h
    · rw [h]
      decide
    · rw [h]
      decide
  span _ := by decide
  segs _ := by decide
  dyn _ := by
    have htags : ∀ i < 3, plainObject.dynTag 128 i ≠ dtHash := by decide
    refine ⟨?_, fun i hi _ htag => absurd htag (htags i hi)⟩
    unfold SoFile.reached
    decide
  rels hrels := by
    have hcount := hrels.symcnt
    rw [SoFile.dyn, Loader.base] at hcount
    rcases h with h | h
    · rw [h] at hcount
      exact absurd hcount (by decide)
    · rw [h] at hcount
      exact absurd hcount (by decide)

def twoLoads : List Call := [loadOf plainObject, { loadOf plainObject with path := [47, 98], soname := [98] }]

-- the second object is put behind the first one
theorem objects_stay_in_their_images_two :
    ∃ s, run loadStep (emptyLoader, []) twoLoads = some s ∧
      s.2.filterMap Trace.region = [(0x6c0000, 0x1000), (0x6c1000, 0x1000)] ∧
        (∀ t ∈ s.2, StaysIn t) ∧ (s.2.filterMap Trace.region).Pairwise Apart := by
  refine ⟨_, rfl, by decide, (objects_stay_in_their_images emptyLoader twoLoads _ plainObject
    (fun _ => 0)).1 rfl ?_ rfl⟩
  refine ⟨fun _ f hf => ?_, ?_⟩
  · obtain rfl := Option.some.inj hf
    exact plainObject_fits (Or.inl rfl)
  rintro _ ⟨⟩
  refine ⟨fun _ f hf => ?_, fun _ _ => trivial⟩
  obtain rfl := Option.some.inj hf
  exact plainObject_fits (Or.inr (by decide))

theorem long_segments_leave_their_images :
    (loadSharedObject emptyLoader (loadOf longSegment)).2.2.region = some (0x6c0000, 0x1000) ∧
      (loadSharedObject emptyLoader (loadOf longSegment)).2.2.writes =
        [(0x6c0000, 0x1000), (0x6c0000, 0x1001)] ∧
      ¬ StaysIn (loadSharedObject emptyLoader (loadOf longSegment)).2.2 ∧
      ¬ ∀ w ∈ (parseAndLoad longTail (fun _ => 0)).2.writes, InImage w := by
  have hregion : (loadSharedObject emptyLoader (loadOf longSegment)).2.2.region =
      some (0x6c0000, 0x1000) := by decide
  have hwrites : (loadSharedObject emptyLoader (loadOf longSegment)).2.2.writes =
      [(0x6c0000, 0x1000), (0x6c0000, 0x1001)] := by decide
  refine ⟨hregion, hwrites, fun h => ?_, fun h => ?_⟩
  · obtain ⟨b, n, hb, hin⟩ := h.writes (0x6c0000, 0x1001) (by rw [hwrites]; simp)
    rw [hregion] at hb
    obtain ⟨rfl, rfl⟩ := Prod.mk.inj (Option.some.inj hb)
    exact absurd (hin 0x1000 (by decide)).2 (by decide)
  · have hwrites : (parseAndLoad longTail (fun _ => 0)).2.writes =
        [(0, 0x10000), (0, 0x10), (0xfff0, 0x100)] := by decide
    have := h (0xfff0, 0x100) (by rw [hwrites]; simp) 0x10 (by decide)
    exact absurd this (by decide)

end Examples

end HouseOS.Ldso
