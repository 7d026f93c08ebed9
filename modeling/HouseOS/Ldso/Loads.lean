import HouseOS.Ldso.Regions

namespace HouseOS.Ldso

open HouseOS.ByteMem
open HouseOS.Elf (InFile inFile_of_le phdrBytes)
open HouseOS.Run
open HouseOS.Scan
open HouseOS.Word

def Loader.base (l : Loader) : Nat := alignUp l.nextLibBase 0x1000

structure Accepts (f : SoFile) : Prop where
  header : f.parseEhdr = true
  type : f.elf.eType = etDyn
  segs : ∀ i < f.elf.ePhnum, f.segBad i = false
  span : ¬ (f.span.minV = 0xffffffff ∨ f.span.maxV ≤ f.span.minV ∨ f.span.dynVaddr = 0)

structure Reserves (f : SoFile) (l : Loader) : Prop extends Accepts f where
  room : ¬ userLibEnd < add32 l.base (spanBytes f.span)

structure Fills (f : SoFile) (l : Loader) : Prop extends Reserves f l where
  slot : ¬ loaderMaxObjs ≤ l.objs.length

structure ReadsDyn (f : SoFile) (l : Loader) : Prop extends Fills f l where
  range : ¬ (f.size < add32 f.span.dynOff f.span.dynSz ∨ f.span.dynSz < dynBytes)

def SoFile.dyn (f : SoFile) (l : Loader) : Dyn :=
  f.dynTable (sub32 l.base f.span.minV) f.span.dynOff (f.span.dynSz / dynBytes)

structure ReadsTables (f : SoFile) (l : Loader) : Prop extends ReadsDyn f l where
  tables : ¬ ((f.dyn l).strtab = 0 ∨ (f.dyn l).symtab = 0)
  symcnt : symcntOfTables (f.dyn l) = 0

def TableFits (lo hi table count : Nat) : Prop :=
  count = 0 ∨ lo ≤ table + 4 ∧ table + relBytes * count ≤ hi

-- what the checks of the loader leave open, each where the loader comes to rely on it
structure SumsFit (f : SoFile) (l : Loader) : Prop where
  table : f.parseEhdr = true → f.elf.eType = etDyn →
    f.elf.ePhnum = 0 ∨ f.elf.ePhoff + phdrBytes * f.elf.ePhnum < 2 ^ 32
  window : Reserves f l → l.base + spanBytes f.span < 2 ^ 32
  span : Fills f l → f.span.maxV - f.span.minV + 4095 < 2 ^ 32
  segs : Fills f l → ∀ i < f.elf.ePhnum, f.loaded i = true →
    f.elf.pFilesz i = 0 ∨ f.elf.pOffset i + f.elf.pFilesz i < 2 ^ 32 ∧
      f.elf.pVaddr i + f.elf.pFilesz i ≤ f.span.minV + spanBytes f.span
  dyn : ReadsDyn f l → f.DynFits f.span.dynOff (f.span.dynSz / dynBytes)
  rels : ReadsTables f l →
    TableFits l.base (l.base + spanBytes f.span) (f.dyn l).rel (f.dyn l).relCount ∧
      TableFits l.base (l.base + spanBytes f.span) (f.dyn l).jmprel (f.dyn l).jmprelCount

structure StaysIn (t : Trace) : Prop where
  reads : ReadsIn t.fileSz t.reads
  window : ∀ b n, t.region = some (b, n) → userLibStart ≤ b ∧ b + n ≤ userLibEnd
  writes : ∀ w ∈ t.writes, ∃ b n, t.region = some (b, n) ∧ InRange b (b + n) w
  loads : ∀ r ∈ t.loads, ∃ b n, t.region = some (b, n) ∧ InRange b (b + n) r

theorem staysIn_reads {t : Trace} (h : ReadsIn t.fileSz t.reads) (hregion : t.region = none)
    (hwrites : t.writes = []) (hloads : t.loads = []) : StaysIn t := by
  refine ⟨h, ?_, ?_, ?_⟩
  · rw [hregion]
    exact fun _ _ h => by cases h
  · rw [hwrites]
    exact fun _ h => absurd h List.not_mem_nil
  · rw [hloads]
    exact fun _ h => absurd h List.not_mem_nil

variable {f : SoFile} {l : Loader} {c : Call}

theorem table_in (hpos : f.elf.ePhnum = 0 ∨ f.elf.ePhoff + phdrBytes * f.elf.ePhnum < 2 ^ 32)
    (hok : f.parseEhdr = true) : f.TableIn := by
  rw [SoFile.parseEhdr, Bool.and_eq_true, SoFile.tableOk, decide_eq_true_eq] at hok
  have hsum := hok.2
  have hoff : f.elf.ePhoff < 2 ^ 32 := load32_lt _ _
  have hnum : f.elf.ePhnum < 2 ^ 16 := load16_lt _ _
  rw [SoFile.TableIn]
  simp only [add32, mul32, phdrBytes] at *
  omega

section Placing

structure PlacedIn (size lo hi : Nat) (p : Placed) : Prop where
  reads : ReadsIn size p.reads
  writes : ∀ w ∈ p.writes, InRange lo hi w

variable {size lo hi : Nat} {p : Placed}

theorem PlacedIn.memset0 (h : PlacedIn size lo hi p) {dst n : Nat} (hin : InRange lo hi (dst, n)) :
    PlacedIn size lo hi (p.memset0 dst n) := by
  refine ⟨h.reads, fun w hw => ?_⟩
  rcases List.mem_append.mp hw with hw | hw
  · exact h.writes w hw
  · rwa [List.mem_singleton.mp hw]

theorem PlacedIn.memcpy (h : PlacedIn size lo hi p) {dst off n : Nat}
    (hin : InRange lo hi (dst, n)) (hoff : InFile size (off, n)) :
    PlacedIn size lo hi (p.memcpy f dst off n) := by
  refine ⟨readsIn_append h.reads (readsIn_singleton hoff), fun w hw => ?_⟩
  rcases List.mem_append.mp hw with hw | hw
  · exact h.writes w hw
  · rwa [List.mem_singleton.mp hw]

theorem PlacedIn.addReads (h : PlacedIn size lo hi p) {reads : List (Nat × Nat)}
    (hreads : ReadsIn size reads) :
    PlacedIn size lo hi { p with reads := p.reads ++ reads } :=
  ⟨readsIn_append h.reads hreads, h.writes⟩

theorem PlacedIn.foldl {seg : Placed → Nat → Placed} {count : Nat}
    (hseg : ∀ p i, i < count → PlacedIn size lo hi p → PlacedIn size lo hi (seg p i))
    (h : PlacedIn size lo hi p) : PlacedIn size lo hi ((List.range count).foldl seg p) := by
  induction count with
  | zero => exact h
  | succ n ih =>
    rw [List.range_succ, List.foldl_append]
    exact hseg _ n (by omega) (ih fun p i hi => hseg p i (by omega))

theorem dst_eq {base minV vaddr : Nat} (hbase : base < 2 ^ 32) (hmin : minV ≤ vaddr)
    (hsum : base + (vaddr - minV) < 2 ^ 32) :
    add32 (sub32 base minV) vaddr = base + (vaddr - minV) := by
  simp only [add32, sub32]
  omega

theorem seg_placedIn (hfit : SumsFit f l) (hfill : Fills f l)
    (hwin : l.base + spanBytes f.span ≤ userLibEnd) {i : Nat} (hi : i < f.elf.ePhnum)
    (h : PlacedIn f.size l.base (l.base + spanBytes f.span) p) :
    PlacedIn f.size l.base (l.base + spanBytes f.span)
      (Placed.seg f (sub32 l.base f.span.minV) p i) := by
  have ht := table_in (hfit.table hfill.header hfill.type) hfill.header
  have hreads := h.addReads (SoFile.loadReads_in ht hi)
  rw [Placed.seg]
  dsimp only
  split
  · rename_i hl
    have hok := hfill.segs i hi
    have hbounds := f.bounds_spanBefore f.elf.ePhnum
    have hlow : f.span.minV ≤ f.elf.pVaddr i := hbounds.low i hi hl
    have hhigh : f.elf.pVaddr i + f.elf.pMemsz i ≤ f.span.maxV := f.high_end hbounds hi hl hok
    have hmax : f.span.maxV < 2 ^ 32 := hbounds.word
    have hv := f.pVaddr_lt i
    have hspan : f.span.maxV - f.span.minV ≤ spanBytes f.span := by
      have hle := le_alignUp (hfit.span hfill)
      rwa [spanBytes, sub32_eq hmax (by omega)]
    have hend : userLibEnd < 2 ^ 32 := by decide
    have hmem : f.elf.pMemsz i ≠ 0 := by
      rw [SoFile.loaded, decide_eq_true_eq] at hl
      exact hl.2
    have hdst : add32 (sub32 l.base f.span.minV) (f.elf.pVaddr i) =
        l.base + (f.elf.pVaddr i - f.span.minV) :=
      dst_eq (by omega) hlow (by omega)
    rw [hdst]
    have hcopy : PlacedIn f.size l.base (l.base + spanBytes f.span)
        (Placed.memcpy { p with reads := p.reads ++ f.loadReads i } f
          (l.base + (f.elf.pVaddr i - f.span.minV)) (f.elf.pOffset i) (f.elf.pFilesz i)) := by
      rcases hfit.segs hfill i hi hl with hzero | ⟨hoff, hfile⟩
      · rw [hzero]
        exact hreads.memcpy inRange_empty (fun _ hk => absurd hk (Nat.not_lt_zero _))
      · have hsum := (f.segBad_false hok hl).1
        rw [add32_eq hoff] at hsum
        refine hreads.memcpy (inRange_of_le (by omega) (by omega) (by omega)) ?_
        exact inFile_of_le f.size_lt (by omega)
    split
    · rename_i hless
      refine hcopy.memset0 ?_
      rw [add32_eq (by omega)]
      exact inRange_of_le (by omega) (by omega) (by omega)
    · exact hcopy
  · exact hreads

end Placing

theorem relLoads_in {lo hi : Nat} {d : Dyn} (hword : hi < 2 ^ 32)
    (h : symcntOfTables d = 0 → TableFits lo hi d.rel d.relCount ∧
      TableFits lo hi d.jmprel d.jmprelCount) :
    ∀ r ∈ relLoads d, InRange lo hi r := by
  have htable {table count : Nat} (ht : TableFits lo hi table count) :
      ∀ r ∈ (List.range count).map (relAddr table), InRange lo hi r := by
    intro r hr
    obtain ⟨i, hmem, rfl⟩ := List.mem_map.mp hr
    have hlt : i < count := List.mem_range.mp hmem
    rcases ht with hzero | ⟨hlo, hhi⟩
    · omega
    · simp only [relBytes] at hhi
      refine inRange_of_le ?_ ?_ hword
      · simp only [relBytes]
        omega
      · simp only [relBytes]
        omega
  intro r hr
  rw [relLoads] at hr
  split at hr
  · obtain ⟨hrel, hjmp⟩ := h ‹_›
    rcases List.mem_append.mp hr with hr | hr
    · exact htable hrel r hr
    · exact htable hjmp r hr
  · exact absurd hr List.not_mem_nil

theorem fillObject_stays (hfit : SumsFit f l) (hfill : Fills f l)
    (hlow : userLibStart ≤ l.base) (hwin : l.base + spanBytes f.span ≤ userLibEnd)
    {m : Loader} {t : Trace} (hsize : t.fileSz = f.size) (hreads : ReadsIn f.size t.reads)
    (hwrites : t.writes = []) (hloads : t.loads = [])
    (hregion : t.region = some (l.base, spanBytes f.span)) :
    StaysIn (fillObject m c f l.base f.span t).2.2 ∧
      (fillObject m c f l.base f.span t).2.2.region = t.region ∧
      (fillObject m c f l.base f.span t).2.1.nextLibBase = m.nextLibBase := by
  have ht := table_in (hfit.table hfill.header hfill.type) hfill.header
  have hend : userLibEnd < 2 ^ 32 := by decide
  have hplaced : PlacedIn f.size l.base (l.base + spanBytes f.span)
      ((List.range f.elf.ePhnum).foldl (Placed.seg f (sub32 l.base f.span.minV))
        (Placed.memset0 { writes := t.writes, reads := t.reads, mem := m.mem } l.base
          (spanBytes f.span))) := by
    refine PlacedIn.foldl (fun p i hi => seg_placedIn hfit hfill hwin hi) ?_
    refine PlacedIn.memset0 ⟨hreads, fun w hw => ?_⟩ ?_
    · rw [hwrites] at hw
      exact absurd hw List.not_mem_nil
    · exact inRange_of_le (le_refl _) (le_refl _) (by omega)
  have hstay (reads : List (Nat × Nat)) (loads : List (Nat × Nat))
      (hr : ReadsIn f.size reads)
      (hl : ∀ r ∈ loads, InRange l.base (l.base + spanBytes f.span) r) :
      StaysIn { t with
        writes := ((List.range f.elf.ePhnum).foldl (Placed.seg f (sub32 l.base f.span.minV))
          (Placed.memset0 { writes := t.writes, reads := t.reads, mem := m.mem } l.base
            (spanBytes f.span))).writes
        reads := reads, loads := loads } := by
    refine ⟨by rw [hsize]; exact hr, ?_, fun w hw => ⟨_, _, hregion, hplaced.writes w hw⟩,
      fun r hr => ⟨_, _, hregion, hl r hr⟩⟩
    intro b n hb
    obtain ⟨rfl, rfl⟩ := Prod.mk.inj (Option.some.inj (hregion.symm.trans hb))
    exact ⟨hlow, hwin⟩
  have hnone : ∀ r ∈ t.loads, InRange l.base (l.base + spanBytes f.span) r := by
    rw [hloads]
    exact fun _ h => absurd h List.not_mem_nil
  rw [fillObject]
  dsimp only
  split
  · exact ⟨hstay _ _ hplaced.reads hnone, rfl, rfl⟩
  · rename_i hrange
    have hdyn : ReadsDyn f l := ⟨hfill, hrange⟩
    have hscan := SoFile.dynScan_reads ht (sub32 l.base f.span.minV) (hfit.dyn hdyn)
      (f.span.dynSz / dynBytes) 0 (noDyn, _) (by omega) (fun j hj => absurd hj (Nat.not_lt_zero _))
      hplaced.reads
    rw [SoFile.dynScan_dyn]
    split
    · exact ⟨hstay _ _ hscan hnone, rfl, rfl⟩
    · rename_i htables
      refine ⟨hstay _ _ hscan (relLoads_in (by omega) fun hcnt => ?_), rfl, rfl⟩
      exact hfit.rels ⟨hdyn, htables, hcnt⟩

-- what a call leaves: its trace stays in the range it took from the window, if it took one
structure Took (l l' : Loader) (t : Trace) : Prop where
  stays : StaysIn t
  takes : t.region = none ∧ l'.nextLibBase = l.nextLibBase ∨
    ∃ b n, t.region = some (b, n) ∧ l.nextLibBase ≤ b ∧ b + n = l'.nextLibBase

theorem took_nothing {t : Trace} (h : ReadsIn t.fileSz t.reads) (hregion : t.region = none)
    (hwrites : t.writes = []) (hloads : t.loads = []) : Took l l t :=
  ⟨staysIn_reads h hregion hwrites hloads, Or.inl ⟨hregion, rfl⟩⟩

theorem load_took (hlow : userLibStart ≤ l.nextLibBase) (hhigh : l.nextLibBase ≤ userLibEnd)
    (hfit : lookupObjBySonameOrPath l.objs c.path c.soname = none →
      ∀ f, c.file = some f → SumsFit f l) :
    Took l (loadSharedObject l c).2.1 (loadSharedObject l c).2.2 := by
  rw [loadSharedObject]
  cases hlook : lookupObjBySonameOrPath l.objs c.path c.soname with
  | some slot => exact took_nothing readsIn_nil rfl rfl rfl
  | none =>
    dsimp only
    cases hfile : c.file with
    | none => exact took_nothing readsIn_nil rfl rfl rfl
    | some f =>
      have hfit := hfit hlook f hfile
      dsimp only
      split
      · exact took_nothing SoFile.headerReads_in rfl rfl rfl
      · rename_i hhead
        obtain ⟨hparse, htype⟩ := not_or.mp hhead
        have hok : f.parseEhdr = true := by simpa using hparse
        have hdyn : f.elf.eType = etDyn := not_not.mp htype
        have ht := table_in (hfit.table hok hdyn) hok
        have hreads := SoFile.segScan_reads ht SoFile.headerReads_in
        rcases hscan : scan f.segBody f.elf.ePhnum 0 (noSpan, f.headerReads) with ⟨_ | e, s⟩
        · rw [hscan] at hreads
          obtain ⟨hsegs, hspan⟩ := SoFile.segScan_none hscan
          dsimp only
          rw [hspan]
          split
          · exact took_nothing hreads rfl rfl rfl
          · rename_i hempty
            split
            · exact took_nothing hreads rfl rfl rfl
            · rename_i hroom
              have hres : Reserves f l := ⟨⟨hok, hdyn, hsegs, hempty⟩, hroom⟩
              have hsum : add32 l.base (spanBytes f.span) = l.base + spanBytes f.span :=
                add32_eq (hfit.window hres)
              have hwin : l.base + spanBytes f.span ≤ userLibEnd := by
                have hroom' : ¬ userLibEnd < add32 l.base (spanBytes f.span) := hroom
                omega
              have hbase : l.nextLibBase ≤ l.base := by
                have hend : userLibEnd + 4095 < 2 ^ 32 := by decide
                exact le_alignUp (by omega)
              have htakes : l.nextLibBase ≤ alignUp l.nextLibBase 0x1000 ∧
                  alignUp l.nextLibBase 0x1000 + spanBytes f.span =
                    add32 (alignUp l.nextLibBase 0x1000) (spanBytes f.span) :=
                ⟨hbase, hsum.symm⟩
              split
              · refine ⟨⟨hreads, ?_, fun _ h => absurd h List.not_mem_nil,
                  fun _ h => absurd h List.not_mem_nil⟩, Or.inr ⟨_, _, rfl, htakes⟩⟩
                intro b n hb
                obtain ⟨rfl, rfl⟩ := Prod.mk.inj (Option.some.inj hb)
                exact ⟨hlow.trans hbase, hwin⟩
              · rename_i hslot
                obtain ⟨hstay, hregion, hnext⟩ := fillObject_stays (c := c)
                  (m := ⟨l.objs, add32 (alignUp l.nextLibBase 0x1000) (spanBytes f.span), l.mem⟩)
                  (t := ⟨f.size, s.2, [], [], some (alignUp l.nextLibBase 0x1000, spanBytes f.span)⟩)
                  hfit ⟨hres, hslot⟩ (hlow.trans hbase) hwin rfl hreads rfl rfl rfl
                exact ⟨hstay, Or.inr ⟨_, _, hregion, htakes.1, htakes.2.trans hnext.symm⟩⟩
        · rw [hscan] at hreads
          exact took_nothing hreads rfl rfl rfl

section Runs

def loadStep (s : Loader × List Trace) (c : Call) : Option (Loader × List Trace) :=
  some ((loadSharedObject s.1 c).2.1, s.2 ++ [(loadSharedObject s.1 c).2.2])

def CallFits (s : Loader × List Trace) (c : Call) : Prop :=
  lookupObjBySonameOrPath s.1.objs c.path c.soname = none → ∀ f, c.file = some f → SumsFit f s.1

def Apart (r r' : Nat × Nat) : Prop := r.1 + r.2 ≤ r'.1 ∨ r'.1 + r'.2 ≤ r.1

structure Separate (s : Loader × List Trace) : Prop where
  low : userLibStart ≤ s.1.nextLibBase
  high : s.1.nextLibBase ≤ userLibEnd
  stays : ∀ t ∈ s.2, StaysIn t
  below : ∀ r ∈ s.2.filterMap Trace.region, r.1 + r.2 ≤ s.1.nextLibBase
  apart : (s.2.filterMap Trace.region).Pairwise Apart

theorem separate_step {s s' : Loader × List Trace} (h : Separate s) (hfit : CallFits s c)
    (hstep : loadStep s c = some s') : Separate s' := by
  obtain rfl := Option.some.inj hstep
  obtain ⟨hstay, htakes⟩ := load_took h.low h.high hfit
  have hall : ∀ t ∈ s.2 ++ [(loadSharedObject s.1 c).2.2], StaysIn t := by
    intro t ht
    rcases List.mem_append.mp ht with ht | ht
    · exact h.stays t ht
    · rwa [List.mem_singleton.mp ht]
  rcases htakes with ⟨hnone, hnext⟩ | ⟨b, n, hregion, hle, hnext⟩
  · have hregions : (s.2 ++ [(loadSharedObject s.1 c).2.2]).filterMap Trace.region =
        s.2.filterMap Trace.region := by
      rw [List.filterMap_append, List.filterMap_cons_none hnone, List.filterMap_nil,
        List.append_nil]
    refine ⟨?_, ?_, hall, ?_, ?_⟩
    · exact hnext ▸ h.low
    · exact hnext ▸ h.high
    · rw [hregions, hnext]
      exact h.below
    · rw [hregions]
      exact h.apart
  · have hregions : (s.2 ++ [(loadSharedObject s.1 c).2.2]).filterMap Trace.region =
        s.2.filterMap Trace.region ++ [(b, n)] := by
      rw [List.filterMap_append, List.filterMap_cons_some hregion, List.filterMap_nil]
    obtain ⟨hstart, hend⟩ := hstay.window b n hregion
    refine ⟨?_, ?_, hall, ?_, ?_⟩
    · exact hnext ▸ by show userLibStart ≤ b + n; omega
    · exact hnext ▸ hend
    · rw [hregions, ← hnext]
      intro r hr
      rcases List.mem_append.mp hr with hr | hr
      · have := h.below r hr
        omega
      · rw [List.mem_singleton.mp hr]
    · rw [hregions, List.pairwise_append]
      refine ⟨h.apart, List.pairwise_singleton _ _, fun r hr q hq => Or.inl ?_⟩
      rw [List.mem_singleton.mp hq]
      exact (h.below r hr).trans hle

theorem separate_run {l : Loader} (hstart : l.nextLibBase = userLibStart) (calls : List Call)
    {s : Loader × List Trace} (hfit : Along loadStep CallFits (l, []) calls)
    (hrun : run loadStep (l, []) calls = some s) : Separate s := by
  refine run_invariant (fun s e s' hs hok h => separate_step hs hok h) calls (l, []) s ?_ hfit hrun
  refine ⟨Nat.le_of_eq hstart.symm, ?_, fun _ h => absurd h List.not_mem_nil,
    fun _ h => absurd h List.not_mem_nil, List.Pairwise.nil⟩
  show l.nextLibBase ≤ userLibEnd
  rw [hstart]
  decide

end Runs

end HouseOS.Ldso
