import HouseOS.Elf.Model

namespace HouseOS.Elf

open HouseOS.ByteMem
open HouseOS.Scan
open HouseOS.Vfs
open HouseOS.Word
open ElfFile

variable {f : ElfFile} {info : Info} {out : Bool} {cap size i : Nat} {s : Load} {user : Mem}

section Ranges

def InFile (size : Nat) (r : Nat × Nat) : Prop := ∀ k < r.2, (r.1 + k) % 2 ^ 32 < size

def InWindow (w : Nat × Nat) : Prop :=
  ∀ k < w.2, userVaddrBase ≤ w.1 + k ∧ w.1 + k < userVaddrBase + userVaddrSize

def ReadsIn (size : Nat) (s : Load) : Prop := ∀ r ∈ s.reads, InFile size r

def WritesIn (s : Load) : Prop := ∀ w ∈ s.writes, InWindow w

theorem inFile_of_le {off n : Nat} (hsize : size < 2 ^ 32) (h : off + n ≤ size) :
    InFile size (off, n) := by
  intro k hk
  have hk : k < n := hk
  show (off + k) % 2 ^ 32 < size
  rw [Nat.mod_eq_of_lt (by omega)]
  omega

theorem inFile_iff {off n : Nat} (hsize : size < 2 ^ 32) (hoff : off < 2 ^ 32) (hn : 0 < n) :
    InFile size (off, n) ↔ off + n ≤ size := by
  constructor
  · intro h
    by_contra hover
    by_cases hout : size ≤ off
    · have h0 : (off + 0) % 2 ^ 32 < size := h 0 hn
      rw [Nat.add_zero, Nat.mod_eq_of_lt hoff] at h0
      omega
    · have h1 : (off + (size - off)) % 2 ^ 32 < size := h (size - off) (by show size - off < n; omega)
      rw [show off + (size - off) = size by omega, Nat.mod_eq_of_lt hsize] at h1
      omega
  · exact inFile_of_le hsize

theorem rangeOk_iff {vaddr n : Nat} :
    rangeOk vaddr n = true ↔ userVaddrBase ≤ vaddr ∧ vaddr + n ≤ userVaddrBase + userVaddrSize := by
  have hrange : rangeOk vaddr n = decide (¬ vaddr < userElfMinVaddr ∧
      ¬ userElfMaxVaddr - userElfMinVaddr < n ∧ ¬ userElfMaxVaddr - n < vaddr) := by
    by_cases h1 : vaddr < userElfMinVaddr
    · simp [rangeOk, h1]
    · by_cases h2 : userElfMaxVaddr - userElfMinVaddr < n
      · simp [rangeOk, h1, h2]
      · by_cases h3 : userElfMaxVaddr - n < vaddr <;> simp [rangeOk, h1, h2, h3]
  rw [hrange, decide_eq_true_eq]
  simp only [userElfMinVaddr, userElfMaxVaddr, userVaddrBase, userVaddrSize]
  omega

theorem readsIn_read {off n : Nat} :
    ReadsIn size (s.read off n) ↔ ReadsIn size s ∧ InFile size (off, n) := by
  simp only [ReadsIn, Load.read, List.mem_append, List.mem_singleton]
  constructor
  · intro h
    exact ⟨fun r hr => h r (Or.inl hr), h _ (Or.inr rfl)⟩
  · rintro ⟨hs, hr⟩ r (hmem | rfl)
    · exact hs r hmem
    · exact hr

end Ranges

section Bodies

def interpPasses (f : ElfFile) (size : Nat) (out : Bool) (cap i : Nat) : Prop :=
  f.pType i = ptInterp →
    out = true ∧ 2 ≤ cap ∧ add32 (f.pOffset i) (f.pFilesz i) ≤ size ∧ 2 ≤ f.pFilesz i ∧
      (copiedInterp f cap i).head? = some slash

def loadPasses (f : ElfFile) (size i : Nat) : Prop :=
  f.pType i = ptLoad →
    f.pFilesz i ≤ f.pMemsz i ∧ add32 (f.pOffset i) (f.pFilesz i) ≤ size ∧
      rangeOk (f.pVaddr i) (f.pMemsz i) = true

theorem interpBody_none_iff (i : Nat) (s : Load) :
    (interpBody f size out cap i s).1 = none ↔ interpPasses f size out cap i := by
  by_cases htype : f.pType i = ptInterp
  · by_cases hout : out = false ∨ cap < 2
    · rw [interpBody, if_neg (not_not.mpr htype), if_pos hout]
      simp only [reduceCtorEq, false_iff, interpPasses]
      intro h
      obtain ⟨h1, h2, _⟩ := h htype
      rcases hout with h0 | hc
      · rw [h0] at h1
        cases h1
      · omega
    · by_cases hsum : size < add32 (f.pOffset i) (f.pFilesz i) ∨ f.pFilesz i < 2
      · rw [interpBody, if_neg (not_not.mpr htype), if_neg hout, if_pos hsum]
        simp only [reduceCtorEq, false_iff, interpPasses]
        intro h
        obtain ⟨_, _, h3, h4, _⟩ := h htype
        omega
      · rw [interpBody, if_neg (not_not.mpr htype), if_neg hout, if_neg hsum]
        dsimp only
        have hout' : out = true ∧ 2 ≤ cap := by
          rw [not_or] at hout
          exact ⟨by simpa using hout.1, by omega⟩
        split
        next hslash =>
          simp only [reduceCtorEq, false_iff, interpPasses]
          exact fun h => hslash (h htype).2.2.2.2
        next hslash =>
          simp only [true_iff, interpPasses]
          exact fun _ => ⟨hout'.1, hout'.2, by omega, by omega, not_not.mp hslash⟩
  · rw [interpBody, if_pos htype]
    simp only [true_iff, interpPasses]
    exact fun h => absurd h htype

theorem loadBody_none_iff (i : Nat) (s : Load) :
    (loadBody f size i s).1 = none ↔ loadPasses f size i := by
  by_cases htype : f.pType i = ptLoad
  · rw [loadBody, if_neg (not_not.mpr htype)]
    dsimp only
    simp only [loadPasses, htype, forall_const]
    split
    next h => simp; omega
    next =>
      split
      next h => simp; omega
      next =>
        split
        next h => simp [h]
        next h =>
          have hr : rangeOk (f.pVaddr i) (f.pMemsz i) = true := by simpa using h
          split
          next => simp [hr]; omega
          next => simp [hr]; omega
  · rw [loadBody, if_pos htype]
    simp only [true_iff, loadPasses]
    exact fun h => absurd h htype

theorem entry_inFile {k : Nat} (hi : i < f.ePhnum)
    (hsize : info.size < 2 ^ 32) (htable : f.ePhoff + phdrBytes * f.ePhnum ≤ info.size)
    (hk : k + 4 ≤ phdrBytes) : InFile info.size (f.ph i + k, 4) := by
  refine inFile_of_le hsize ?_
  simp only [ph, phdrBytes] at *
  omega

def CopiesInterp (f : ElfFile) (size : Nat) (out : Bool) (cap i : Nat) : Prop :=
  f.pType i = ptInterp ∧ out = true ∧ 2 ≤ cap ∧ add32 (f.pOffset i) (f.pFilesz i) ≤ size ∧
    2 ≤ f.pFilesz i

theorem interpBytes_pos {filesz : Nat} (hcap : 2 ≤ cap) (hfile : 2 ≤ filesz) :
    0 < interpBytes cap filesz := by
  rw [interpBytes]
  split <;> omega

theorem pOffset_lt (f : ElfFile) (i : Nat) : f.pOffset i < 2 ^ 32 := load32_lt _ _

theorem pFilesz_lt (f : ElfFile) (i : Nat) : f.pFilesz i < 2 ^ 32 := load32_lt _ _

theorem readsIn_interp (hi : i < f.ePhnum)
    (htable : f.ePhoff + phdrBytes * f.ePhnum ≤ info.size) :
    ReadsIn info.size (interpBody f info.size out cap i s).2 ↔
      ReadsIn info.size s ∧ (CopiesInterp f info.size out cap i →
        f.pOffset i + interpBytes cap (f.pFilesz i) ≤ info.size) := by
  have h0 : InFile info.size (f.ph i, 4) := entry_inFile (k := 0) hi info.word htable (by decide)
  have h4 := entry_inFile (k := 4) hi info.word htable (by decide)
  have h16 := entry_inFile (k := 16) hi info.word htable (by decide)
  by_cases htype : f.pType i = ptInterp
  · by_cases hout : out = false ∨ cap < 2
    · have hno : ¬ CopiesInterp f info.size out cap i := by
        rintro ⟨_, h1, h2, _⟩
        rcases hout with hf | hc
        · rw [hf] at h1
          cases h1
        · omega
      rw [interpBody, if_neg (not_not.mpr htype), if_pos hout]
      simp [readsIn_read, h0, hno]
    · by_cases hsum : info.size < add32 (f.pOffset i) (f.pFilesz i) ∨ f.pFilesz i < 2
      · have hno : ¬ CopiesInterp f info.size out cap i := by
          rintro ⟨_, _, _, h1, h2⟩
          omega
        rw [interpBody, if_neg (not_not.mpr htype), if_neg hout, if_pos hsum]
        simp [readsIn_read, h0, h4, h16, hno]
      · have hcap : 2 ≤ cap := by
          rw [not_or] at hout
          omega
        have hyes : CopiesInterp f info.size out cap i := by
          rw [not_or] at hout
          exact ⟨htype, by simpa using hout.1, hcap, by omega, by omega⟩
        have hin : InFile info.size (f.pOffset i, interpBytes cap (f.pFilesz i)) ↔
            f.pOffset i + interpBytes cap (f.pFilesz i) ≤ info.size :=
          inFile_iff info.word (pOffset_lt f i) (interpBytes_pos hcap hyes.2.2.2.2)
        have hfield : ∀ (t : Load) (bytes : List UInt8),
            ReadsIn info.size { t with interp := bytes } ↔ ReadsIn info.size t :=
          fun _ _ => Iff.rfl
        rw [interpBody, if_neg (not_not.mpr htype), if_neg hout, if_neg hsum]
        dsimp only
        split <;> simp only [hfield, readsIn_read, h0, h4, h16, hin, hyes, forall_const, and_true]
  · have hno : ¬ CopiesInterp f info.size out cap i := fun h => htype h.1
    rw [interpBody, if_pos htype]
    simp [readsIn_read, h0, hno]

theorem readsIn_load (hi : i < f.ePhnum)
    (htable : f.ePhoff + phdrBytes * f.ePhnum ≤ info.size) :
    ReadsIn info.size (loadBody f info.size i s).2 ↔
      ReadsIn info.size s ∧ (f.pType i = ptLoad → loadPasses f info.size i →
        f.pOffset i + f.pFilesz i < 2 ^ 32) := by
  have h0 : InFile info.size (f.ph i, 4) := entry_inFile (k := 0) hi info.word htable (by decide)
  have h4 := entry_inFile (k := 4) hi info.word htable (by decide)
  have h8 := entry_inFile (k := 8) hi info.word htable (by decide)
  have h16 := entry_inFile (k := 16) hi info.word htable (by decide)
  have h20 := entry_inFile (k := 20) hi info.word htable (by decide)
  by_cases htype : f.pType i = ptLoad
  · rw [loadBody, if_neg (not_not.mpr htype)]
    dsimp only
    split
    next hmem =>
      have hno : ¬ loadPasses f info.size i := fun h => by
        have := (h htype).1
        omega
      simp [readsIn_read, h0, h16, h20, hno]
    next hmem =>
      split
      next hsum =>
        have hno : ¬ loadPasses f info.size i := fun h => by
          have := (h htype).2.1
          omega
        simp [readsIn_read, h0, h4, h16, h20, hno]
      next hsum =>
        split
        next hrange =>
          have hno : ¬ loadPasses f info.size i := fun h => by
            rw [(h htype).2.2] at hrange
            cases hrange
          simp [readsIn_read, h0, h4, h8, h16, h20, hno]
        next hrange =>
          have hyes : loadPasses f info.size i := fun _ =>
            ⟨by omega, by omega, by simpa using hrange⟩
          have hin : InFile info.size (f.pOffset i, f.pFilesz i) ↔
              f.pOffset i + f.pFilesz i < 2 ^ 32 := by
            have hoff := pOffset_lt f i
            have hword := info.word
            by_cases hz : f.pFilesz i = 0
            · constructor
              · intro _
                omega
              · intro _ k hk
                have hk : k < f.pFilesz i := hk
                omega
            · rw [inFile_iff info.word hoff (by omega)]
              rw [add32] at hsum
              have hlt := pFilesz_lt f i
              omega
          have hcopy : ∀ t : Load, ReadsIn info.size
              (t.memcpy f (f.pVaddr i) (f.pOffset i) (f.pFilesz i)) ↔
                ReadsIn info.size (t.read (f.pOffset i) (f.pFilesz i)) := fun _ => Iff.rfl
          have hset : ∀ (t : Load) (a n : Nat),
              ReadsIn info.size (t.memset0 a n) ↔ ReadsIn info.size t := fun _ _ _ => Iff.rfl
          split <;> simp only [hset, hcopy, readsIn_read, h0, h4, h8, h16, h20, hin, hyes, htype,
            forall_const, and_true]
  · rw [loadBody, if_pos htype]
    simp [readsIn_read, h0, htype]

theorem writesIn_interp (i : Nat) (s : Load) (h : WritesIn s) :
    WritesIn (interpBody f size out cap i s).2 := by
  rw [interpBody]
  dsimp only
  split_ifs <;> exact h

theorem writesIn_write {t : Load} {a n : Nat} (h : WritesIn s)
    (hwrites : t.writes = s.writes ++ [(a, n)]) (hlow : userVaddrBase ≤ a)
    (hhigh : a + n ≤ userVaddrBase + userVaddrSize) : WritesIn t := by
  intro w hw
  rw [hwrites] at hw
  rcases List.mem_append.mp hw with hw | hw
  · exact h w hw
  · rw [List.mem_singleton.mp hw]
    intro k hk
    have hk : k < n := hk
    exact ⟨by show userVaddrBase ≤ a + k; omega, by show a + k < _; omega⟩

theorem writesIn_load (i : Nat) (s : Load) (h : WritesIn s) :
    WritesIn (loadBody f size i s).2 := by
  rw [loadBody]
  dsimp only
  split
  next => exact h
  next =>
    split
    next => exact h
    next hmem =>
      split
      next => exact h
      next =>
        split
        next => exact h
        next hrange =>
          obtain ⟨hlow, hhigh⟩ := rangeOk_iff.mp (by simpa using hrange)
          have hcopy : ∀ t : Load, t.writes = s.writes →
              WritesIn (t.memcpy f (f.pVaddr i) (f.pOffset i) (f.pFilesz i)) := by
            intro t ht
            exact writesIn_write h (by show t.writes ++ _ = _; rw [ht]) hlow (by omega)
          split
          next =>
            refine writesIn_write (hcopy _ rfl) rfl (by omega) (by omega)
          next => exact hcopy _ rfl

end Bodies

section Program

structure Accepted (f : ElfFile) (info : Info) : Prop where
  type : info.type = .file
  header : ehdrBytes ≤ info.size
  buffer : f.buffer = true
  readFull : f.readFull = true
  ident : f.badHeader = false
  table : add32 f.ePhoff (mul32 f.ePhnum phdrBytes) ≤ info.size

structure SumsFit (f : ElfFile) (info : Info) (out : Bool) (cap : Nat) : Prop where
  table : f.ePhoff + phdrBytes * f.ePhnum < 2 ^ 32
  interp : ∀ i < f.ePhnum, (∀ j < i, interpPasses f info.size out cap j) →
    CopiesInterp f info.size out cap i →
    f.pOffset i + interpBytes cap (f.pFilesz i) ≤ info.size
  load : (∀ j < f.ePhnum, interpPasses f info.size out cap j) →
    ∀ i < f.ePhnum, (∀ j < i, loadPasses f info.size j) → f.pType i = ptLoad →
    loadPasses f info.size i → f.pOffset i + f.pFilesz i < 2 ^ 32

theorem elfLoad_rejected (out : Bool) (cap : Nat) (user : Mem) (hinfo : f.info = some info) (h : ¬ Accepted f info) :
    ∃ e s, elfLoadFromVfsEx f out cap user = (.error e, s) ∧ s.writes = [] ∧ s.user = user ∧
      ReadsIn info.size s := by
  have hnil : ReadsIn info.size { reads := [], writes := [], user := user, interp := [] } := by
    intro r hr
    cases hr
  rw [elfLoadFromVfsEx, hinfo]
  dsimp only
  split
  next => exact ⟨3, _, rfl, rfl, rfl, hnil⟩
  next hfile =>
    split
    next => exact ⟨4, _, rfl, rfl, rfl, hnil⟩
    next hbuffer =>
      split
      next => exact ⟨5, _, rfl, rfl, rfl, hnil⟩
      next hread =>
        rw [not_or] at hfile
        have hhead : InFile info.size (0, ehdrBytes) := inFile_of_le info.word (by omega)
        have hone := readsIn_read.mpr ⟨hnil, hhead⟩
        split
        next => exact ⟨6, _, rfl, rfl, rfl, hone⟩
        next hbad =>
          split
          next => exact ⟨7, _, rfl, rfl, rfl, hone⟩
          next htable =>
            exact absurd ⟨not_not.mp hfile.1, by omega, by simpa using hbuffer,
              by simpa using hread, by simpa using hbad, by omega⟩ h

theorem elfLoad_accepted (hinfo : f.info = some info) (h : Accepted f info) :
    elfLoadFromVfsEx f out cap user = loadProgram f info.size out cap
      (({ reads := [], writes := [], user := user, interp := [] } : Load).read 0 ehdrBytes) := by
  have hfile : ¬ (info.type ≠ .file ∨ info.size < ehdrBytes) := by
    rintro (ht | hs)
    · exact ht h.type
    · have := h.header
      omega
  rw [elfLoadFromVfsEx, hinfo]
  dsimp only
  rw [if_neg hfile, h.buffer, h.readFull, h.ident, if_neg (Nat.not_lt.mpr h.table)]
  rfl

theorem phnum_table (f : ElfFile) : mul32 f.ePhnum phdrBytes = phdrBytes * f.ePhnum := by
  have hlt : f.ePhnum < 2 ^ 16 := load16_lt _ _
  simp only [mul32, phdrBytes]
  omega

theorem Accepted.table_le (h : Accepted f info) (hfit : f.ePhoff + phdrBytes * f.ePhnum < 2 ^ 32) :
    f.ePhoff + phdrBytes * f.ePhnum ≤ info.size := by
  have htable := h.table
  rwa [phnum_table, add32_eq hfit] at htable

theorem loadProgram_cases (f : ElfFile) (size : Nat) (out : Bool) (cap : Nat) (s : Load) :
    (∃ e s₁, scan (interpBody f size out cap) f.ePhnum 0 s = (some e, s₁) ∧
        loadProgram f size out cap s = (.error e, s₁)) ∨
      ∃ s₁ res, scan (interpBody f size out cap) f.ePhnum 0 s = (none, s₁) ∧
        loadProgram f size out cap s = (res, (scan (loadBody f size) f.ePhnum 0 s₁).2) ∧
        ∀ entry, res = .ok entry → rangeOk entry 1 = true := by
  rw [loadProgram]
  rcases hscan : scan (interpBody f size out cap) f.ePhnum 0 s with ⟨_ | e, s₁⟩
  · refine Or.inr ⟨s₁, ?_⟩
    dsimp only
    rcases scan (loadBody f size) f.ePhnum 0 s₁ with ⟨_ | e, s₂⟩
    · by_cases hrange : rangeOk f.eEntry 1 = false
      · refine ⟨.error 11, rfl, ?_, by simp⟩
        dsimp only
        rw [if_pos hrange]
      · refine ⟨.ok f.eEntry, rfl, ?_, ?_⟩
        · dsimp only
          rw [if_neg hrange]
        · intro entry hentry
          cases hentry
          simpa using hrange
    · exact ⟨.error e, rfl, rfl, by simp⟩
  · exact Or.inl ⟨e, s₁, rfl, rfl⟩

theorem readsIn_program (htable : f.ePhoff + phdrBytes * f.ePhnum ≤ info.size)
    (hs : ReadsIn info.size s) :
    ReadsIn info.size (loadProgram f info.size out cap s).2 ↔ SumsFit f info out cap := by
  have hinterp := scan_good_iff (interpBody f info.size out cap) (ReadsIn info.size) f.ePhnum
    interpBody_none_iff
    (fun i t hi => readsIn_interp (s := t) hi htable) f.ePhnum 0 s (by omega)
  have hpass := scan_none_iff (interpBody f info.size out cap) interpBody_none_iff
    f.ePhnum 0 s
  have hfit : f.ePhoff + phdrBytes * f.ePhnum < 2 ^ 32 := Nat.lt_of_le_of_lt htable info.word
  simp only [hs, true_and, Nat.zero_le, forall_const, Nat.zero_add] at hinterp hpass
  rcases loadProgram_cases f info.size out cap s with
    ⟨e, s₁, hscan, hload⟩ | ⟨s₁, res, hscan, hload, _⟩
  · rw [hscan] at hinterp hpass
    have hfail : ¬ ∀ j < f.ePhnum, interpPasses f info.size out cap j := fun hall => by
      cases hpass.mpr hall
    rw [hload]
    exact hinterp.trans ⟨fun hi => ⟨hfit, hi, fun hall => absurd hall hfail⟩, fun h => h.interp⟩
  · rw [hscan] at hinterp hpass
    have hseg := scan_good_iff (loadBody f info.size) (ReadsIn info.size) f.ePhnum
      loadBody_none_iff
      (fun i t hi => readsIn_load (s := t) hi htable) f.ePhnum 0 s₁ (by omega)
    simp only [Nat.zero_le, forall_const, Nat.zero_add] at hseg
    have hall := hpass.mp rfl
    rw [hload]
    refine hseg.trans ?_
    rw [hinterp]
    constructor
    · rintro ⟨hi, hl⟩
      exact ⟨hfit, hi, fun _ => hl⟩
    · intro hsum
      exact ⟨hsum.interp, hsum.load hall⟩

theorem program_invariant {good : Load → Prop}
    (hinterp : ∀ i s, good s → good (interpBody f size out cap i s).2)
    (hload : ∀ i s, good s → good (loadBody f size i s).2) (hs : good s) :
    good (loadProgram f size out cap s).2 := by
  have hfirst := scan_invariant _ good hinterp f.ePhnum 0 s hs
  rcases loadProgram_cases f size out cap s with ⟨e, s₁, hscan, hprog⟩ | ⟨s₁, res, hscan, hprog, _⟩
  · rw [hprog]
    rwa [hscan] at hfirst
  · rw [hprog]
    rw [hscan] at hfirst
    exact scan_invariant _ good hload f.ePhnum 0 s₁ hfirst

theorem program_entry {entry : Nat} (h : (loadProgram f size out cap s).1 = .ok entry) :
    rangeOk entry 1 = true := by
  rcases loadProgram_cases f size out cap s with ⟨e, s₁, _, hprog⟩ | ⟨s₁, res, _, hprog, hok⟩
  · rw [hprog] at h
    cases h
  · rw [hprog] at h
    exact hok entry h

theorem interp_keeps_reads {r : Nat × Nat} (hr : r ∈ s.reads) :
    r ∈ (interpBody f size out cap i s).2.reads := by
  rw [interpBody]
  dsimp only [Load.read]
  split_ifs <;> simp [hr]

theorem load_keeps_reads {r : Nat × Nat} (hr : r ∈ s.reads) :
    r ∈ (loadBody f size i s).2.reads := by
  rw [loadBody]
  dsimp only [Load.read, Load.memcpy, Load.memset0]
  split_ifs <;> simp [hr]

theorem first_entry_read (hphnum : 0 < f.ePhnum) :
    (f.ph 0, 4) ∈ (loadProgram f size out cap s).2.reads := by
  have hkeep : ∀ t : Load, (f.ph 0, 4) ∈ t.reads → ∀ n,
      (f.ph 0, 4) ∈ (scan (loadBody f size) n 0 t).2.reads := fun t ht n =>
    scan_invariant _ (fun t : Load => (f.ph 0, 4) ∈ t.reads) (fun _ _ hr => load_keeps_reads hr)
      n 0 t ht
  have hfirst : (f.ph 0, 4) ∈ (interpBody f size out cap 0 s).2.reads := by
    rw [interpBody]
    dsimp only [Load.read]
    split_ifs <;> simp
  have hscan : (f.ph 0, 4) ∈ (scan (interpBody f size out cap) f.ePhnum 0 s).2.reads := by
    obtain ⟨n, hn⟩ := Nat.exists_eq_succ_of_ne_zero (Nat.ne_of_gt hphnum)
    rw [hn]
    rcases hb : interpBody f size out cap 0 s with ⟨_ | e, s₁⟩
    · rw [hb] at hfirst
      rw [scan_go hb]
      exact scan_invariant _ (fun t : Load => (f.ph 0, 4) ∈ t.reads)
        (fun _ _ ht => interp_keeps_reads ht) n 1 s₁ hfirst
    · rw [hb] at hfirst
      rw [scan_stop hb]
      exact hfirst
  rcases loadProgram_cases f size out cap s with ⟨e, s₁, heq, hprog⟩ | ⟨s₁, res, heq, hprog, _⟩
  · rw [heq] at hscan
    rw [hprog]
    exact hscan
  · rw [heq] at hscan
    rw [hprog]
    exact hkeep s₁ hscan f.ePhnum

theorem table_fits_of_reads (hsmall : info.size ≤ 2 ^ 32 - 2 ^ 21)
    (h : ReadsIn info.size (loadProgram f info.size out cap s).2) :
    f.ePhoff + phdrBytes * f.ePhnum < 2 ^ 32 := by
  by_contra hover
  have hnum : f.ePhnum < 2 ^ 16 := load16_lt _ _
  have hoff : f.ePhoff < 2 ^ 32 := load32_lt _ _
  simp only [phdrBytes] at hover
  have hread := h _ (first_entry_read (by omega))
  have h0 : (f.ph 0 + 0) % 2 ^ 32 < info.size := hread 0 (by decide : 0 < 4)
  simp only [ph, Nat.mul_zero, Nat.add_zero, Nat.mod_eq_of_lt hoff] at h0
  omega

end Program

section Main

structure StaysInBounds (f : ElfFile) (out : Bool) (cap : Nat) (user : Mem) : Prop where
  reads : ∀ info, f.info = some info → ReadsIn info.size (elfLoadFromVfsEx f out cap user).2
  writes : WritesIn (elfLoadFromVfsEx f out cap user).2
  entry : ∀ entry, (elfLoadFromVfsEx f out cap user).1 = .ok entry →
    userVaddrBase ≤ entry ∧ entry < userVaddrBase + userVaddrSize

def NoSumWraps (f : ElfFile) (out : Bool) (cap : Nat) : Prop :=
  ∀ info, f.info = some info → Accepted f info → SumsFit f info out cap

theorem elf_load_writes_and_entry (f : ElfFile) (out : Bool) (cap : Nat) (user : Mem) :
    WritesIn (elfLoadFromVfsEx f out cap user).2 ∧
      ∀ entry, (elfLoadFromVfsEx f out cap user).1 = .ok entry →
        userVaddrBase ≤ entry ∧ entry < userVaddrBase + userVaddrSize := by
  have hnil : ∀ {t : Load}, t.writes = [] → WritesIn t := by
    intro t ht w hw
    rw [ht] at hw
    cases hw
  cases hinfo : f.info with
  | none =>
    rw [elfLoadFromVfsEx, hinfo]
    refine ⟨hnil rfl, ?_⟩
    intro entry h
    cases h
  | some info =>
    by_cases hacc : Accepted f info
    · rw [elfLoad_accepted hinfo hacc]
      refine ⟨program_invariant writesIn_interp writesIn_load (hnil rfl), ?_⟩
      intro entry h
      have hrange := rangeOk_iff.mp (program_entry h)
      omega
    · obtain ⟨e, t, hload, hwrites, _⟩ := elfLoad_rejected out cap user hinfo hacc
      rw [hload]
      refine ⟨hnil hwrites, ?_⟩
      intro entry h
      cases h

theorem elf_load_stays_in_bounds (f : ElfFile) (out : Bool) (cap : Nat) (user : Mem) :
    (NoSumWraps f out cap → StaysInBounds f out cap user) ∧
      ((∀ info, f.info = some info → info.size ≤ 2 ^ 32 - 2 ^ 21) →
        StaysInBounds f out cap user → NoSumWraps f out cap) := by
  obtain ⟨hwrites, hentry⟩ := elf_load_writes_and_entry f out cap user
  have hhead : ∀ {info : Info}, Accepted f info → ReadsIn info.size
      (({ reads := [], writes := [], user := user, interp := [] } : Load).read 0 ehdrBytes) := by
    intro info hacc
    refine readsIn_read.mpr ⟨?_, inFile_of_le info.word (by have := hacc.header; omega)⟩
    intro r hr
    cases hr
  constructor
  · intro hfit
    refine ⟨?_, hwrites, hentry⟩
    intro info hinfo
    by_cases hacc : Accepted f info
    · have hsum := hfit info hinfo hacc
      rw [elfLoad_accepted hinfo hacc]
      exact (readsIn_program (hacc.table_le hsum.table) (hhead hacc)).mpr hsum
    · obtain ⟨e, t, hload, _, _, hreads⟩ := elfLoad_rejected out cap user hinfo hacc
      rw [hload]
      exact hreads
  · intro hsmall hstays info hinfo hacc
    have hreads := hstays.reads info hinfo
    rw [elfLoad_accepted hinfo hacc] at hreads
    have htable := table_fits_of_reads (hsmall info hinfo) hreads
    exact (readsIn_program (hacc.table_le htable) (hhead hacc)).mp hreads

def elfHeader (entry phoff phnum : UInt8 × UInt8 × UInt8 × UInt8) : List UInt8 :=
  [0x7F, 0x45, 0x4C, 0x46, 1, 1, 1, 0, 0, 0, 0, 0, 0, 0, 0, 0, 2, 0, 3, 0, 1, 0, 0, 0,
    entry.1, entry.2.1, entry.2.2.1, entry.2.2.2, phoff.1, phoff.2.1, phoff.2.2.1, phoff.2.2.2,
    0, 0, 0, 0, 0, 0, 0, 0, 52, 0, 32, 0, phnum.1, phnum.2.1, 0, 0, 0, 0, 0, 0]

def oneSegment : List UInt8 :=
  [1, 0, 0, 0, 84, 0, 0, 0, 0, 0, 0x40, 0, 0, 0, 0, 0, 4, 0, 0, 0, 8, 0, 0, 0, 5, 0, 0, 0, 0, 0x10,
    0, 0, 0x90, 0x90, 0x90, 0xC3]

def elfOf (bytes : List UInt8) (h : bytes.length < 2 ^ 32) : ElfFile :=
  { info := some { type := .file, size := bytes.length, word := h }
    buffer := true
    readFull := true
    bytes := fun x => bytes.getD x 0 }

theorem elf_load_stays_in_bounds_one_segment :
    let f := elfOf (elfHeader (0, 0, 0x40, 0) (52, 0, 0, 0) (1, 0, 0, 0) ++ oneSegment) (by decide)
    StaysInBounds f true 256 (fun _ => 0) ∧
      (elfLoadFromVfsEx f true 256 (fun _ => 0)).1.toOption = some 0x400000 := by
  refine ⟨(elf_load_stays_in_bounds _ true 256 _).1 ?_, by decide⟩
  intro info hinfo _
  obtain rfl := Option.some.inj hinfo
  refine ⟨by decide, ?_, ?_⟩
  · intro i hi _ hcopy
    have hi : i < 1 := hi
    obtain rfl : i = 0 := by omega
    exact absurd hcopy.1 (by decide)
  · intro _ i hi _ _ _
    have hi : i < 1 := hi
    obtain rfl : i = 0 := by omega
    decide

theorem wrapped_table_reads_outside :
    ¬ StaysInBounds (elfOf (elfHeader (0, 0, 0x40, 0) (0xE0, 0xFF, 0xFF, 0xFF) (1, 0, 0, 0))
      (by decide)) true 256 (fun _ => 0) := by
  intro h
  have hread := h.reads _ rfl (0xFFFFFFE0, 4) (by decide) 0 (by decide)
  exact absurd hread (by decide)

end Main

end HouseOS.Elf
