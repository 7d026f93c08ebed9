import HouseOS.Elf.Model

namespace HouseOS.Ldso

open HouseOS.ByteMem
open HouseOS.Elf (ElfFile elfMagic elfClass32 elfData2Lsb em386 etExec ptLoad ehdrBytes phdrBytes)
open HouseOS.Scan
open HouseOS.Vfs (Path)
open HouseOS.Word

def userLibStart : Nat := 0x6c0000

def userLibEnd : Nat := 0x7a0000

def loaderMaxObjs : Nat := 16

def loaderMaxNeeded : Nat := 16

def loaderFileCap : Nat := 128 * 1024

def dlImageCap : Nat := 64 * 1024

def objPathSize : Nat := 96

def sonameSize : Nat := 64

def etDyn : Nat := 3

def ptDynamic : Nat := 2

def dynBytes : Nat := 8

def symBytes : Nat := 16

def relBytes : Nat := 8

def dtNull : Nat := 0

def dtNeeded : Nat := 1

def dtPltrelsz : Nat := 2

def dtHash : Nat := 4

def dtStrtab : Nat := 5

def dtSymtab : Nat := 6

def dtStrsz : Nat := 10

def dtRel : Nat := 17

def dtRelsz : Nat := 18

def dtJmprel : Nat := 23

def alignUp (v a : Nat) : Nat := add32 v (a - 1) &&& not32 (a - 1)

-- `file_sz` and the bytes at every 32-bit offset from the start of `g_file_buf`
structure SoFile where
  size : Nat
  bytes : Mem
  fits : size ≤ loaderFileCap

structure Span where
  minV : Nat
  maxV : Nat
  dynVaddr : Nat
  dynOff : Nat
  dynSz : Nat
  deriving DecidableEq, Repr

def noSpan : Span := { minV := 0xffffffff, maxV := 0, dynVaddr := 0, dynOff := 0, dynSz := 0 }

structure Dyn where
  needed : List Nat
  symtabV : Nat
  strtabV : Nat
  symtab : Nat
  strtab : Nat
  strsz : Nat
  symcnt : Nat
  rel : Nat
  relCount : Nat
  jmprel : Nat
  jmprelCount : Nat
  deriving DecidableEq, Repr

def noDyn : Dyn :=
  { needed := [], symtabV := 0, strtabV := 0, symtab := 0, strtab := 0, strsz := 0, symcnt := 0,
    rel := 0, relCount := 0, jmprel := 0, jmprelCount := 0 }

namespace SoFile

-- the header fields stand where the kernel's loader reads them
def elf (f : SoFile) : ElfFile := { info := none, buffer := true, readFull := true, bytes := f.bytes }

def headerOk (f : SoFile) : Bool :=
  decide (ehdrBytes ≤ f.size ∧ load32 f.elf.at_ 0 = elfMagic ∧ f.elf.eIdent 4 = elfClass32 ∧
    f.elf.eIdent 5 = elfData2Lsb ∧ f.elf.eMachine = em386 ∧ f.elf.ePhentsize = phdrBytes ∧
    (f.elf.eType = etExec ∨ f.elf.eType = etDyn))

def tableOk (f : SoFile) : Bool :=
  decide (¬ f.size < add32 f.elf.ePhoff (mul32 f.elf.ePhnum phdrBytes))

def parseEhdr (f : SoFile) : Bool := f.headerOk && f.tableOk

def headerReads (f : SoFile) : List (Nat × Nat) := if ehdrBytes ≤ f.size then [(0, ehdrBytes)] else []

def loaded (f : SoFile) (i : Nat) : Bool := decide (f.elf.pType i = ptLoad ∧ f.elf.pMemsz i ≠ 0)

def segBad (f : SoFile) (i : Nat) : Bool :=
  f.loaded i && decide (f.size < add32 (f.elf.pOffset i) (f.elf.pFilesz i) ∨
    add32 (f.elf.pVaddr i) (f.elf.pMemsz i) < f.elf.pVaddr i)

def visitLoad (f : SoFile) (i : Nat) (s : Span) : Span :=
  if f.loaded i then
    { s with
      minV := if f.elf.pVaddr i < s.minV then f.elf.pVaddr i else s.minV
      maxV := if s.maxV < add32 (f.elf.pVaddr i) (f.elf.pMemsz i)
        then add32 (f.elf.pVaddr i) (f.elf.pMemsz i) else s.maxV }
  else s

def visitDynamic (f : SoFile) (i : Nat) (s : Span) : Span :=
  if f.elf.pType i = ptDynamic then
    { s with dynVaddr := f.elf.pVaddr i, dynOff := f.elf.pOffset i, dynSz := f.elf.pFilesz i }
  else s

def visit (f : SoFile) (i : Nat) (s : Span) : Span := f.visitLoad i (f.visitDynamic i s)

def dynamicReads (f : SoFile) (i : Nat) : List (Nat × Nat) :=
  if f.elf.pType i = ptDynamic then
    [(f.elf.ph i + 8, 4), (f.elf.ph i + 4, 4), (f.elf.ph i + 16, 4)]
  else []

def loadReads (f : SoFile) (i : Nat) : List (Nat × Nat) :=
  if f.elf.pType i ≠ ptLoad then [(f.elf.ph i, 4)]
  else if f.elf.pMemsz i = 0 then [(f.elf.ph i, 4), (f.elf.ph i + 20, 4)]
  else [(f.elf.ph i, 4), (f.elf.ph i + 20, 4), (f.elf.ph i + 4, 4), (f.elf.ph i + 16, 4),
    (f.elf.ph i + 8, 4)]

def segBody (f : SoFile) (i : Nat) (s : Span × List (Nat × Nat)) :
    Option Unit × (Span × List (Nat × Nat)) :=
  let reads := s.2 ++ f.dynamicReads i ++ f.loadReads i
  if f.segBad i then (some (), (s.1, reads)) else (none, (f.visit i s.1, reads))

def dynTag (f : SoFile) (dynOff i : Nat) : Nat := load32 f.elf.at_ (dynOff + dynBytes * i)

def dynVal (f : SoFile) (dynOff i : Nat) : Nat := load32 f.elf.at_ (dynOff + dynBytes * i + 4)

def hashHit (f : SoFile) (v j : Nat) : Bool :=
  decide (f.elf.pType j = ptLoad ∧ f.elf.pFilesz j ≠ 0 ∧ ¬ v < f.elf.pVaddr j ∧
    ¬ add32 (f.elf.pVaddr j) (f.elf.pFilesz j) < add32 v 8)

def hashReads (f : SoFile) (j : Nat) : List (Nat × Nat) :=
  if f.elf.pType j ≠ ptLoad then [(f.elf.ph j, 4)]
  else if f.elf.pFilesz j = 0 then [(f.elf.ph j, 4), (f.elf.ph j + 16, 4)]
  else [(f.elf.ph j, 4), (f.elf.ph j + 16, 4), (f.elf.ph j + 8, 4)]

def hashBody (f : SoFile) (v j : Nat) (reads : List (Nat × Nat)) :
    Option Nat × List (Nat × Nat) :=
  if f.hashHit v j then
    (some (add32 (f.elf.pOffset j) (sub32 v (f.elf.pVaddr j))),
      reads ++ f.hashReads j ++ [(f.elf.ph j + 4, 4)])
  else (none, reads ++ f.hashReads j)

-- `h[1]`, read only when `hash_off + 8u <= file_sz`
def hashCount (f : SoFile) (v : Nat) (reads : List (Nat × Nat)) :
    Option Nat × List (Nat × Nat) :=
  match scan (f.hashBody v) f.elf.ePhnum 0 reads with
  | (none, reads) => (none, reads)
  | (some off, reads) =>
      if f.size < add32 off 8 then (none, reads)
      else (some (load32 f.elf.at_ (add32 off 4)), reads ++ [(add32 off 4, 4)])

def knownTags : List Nat :=
  [dtNeeded, dtStrtab, dtSymtab, dtStrsz, dtRel, dtRelsz, dtJmprel, dtPltrelsz, dtHash]

def dynReads (f : SoFile) (dynOff i : Nat) : List (Nat × Nat) :=
  if f.dynTag dynOff i ∈ knownTags then
    [(dynOff + dynBytes * i, 4), (dynOff + dynBytes * i + 4, 4)]
  else [(dynOff + dynBytes * i, 4)]

def visitDyn (bias tag val : Nat) (count : Option Nat) (d : Dyn) : Dyn :=
  if tag = dtNeeded then
    if d.needed.length < loaderMaxNeeded then { d with needed := d.needed ++ [val] } else d
  else if tag = dtStrtab then { d with strtabV := val, strtab := add32 bias val }
  else if tag = dtSymtab then { d with symtabV := val, symtab := add32 bias val }
  else if tag = dtStrsz then { d with strsz := val }
  else if tag = dtRel then { d with rel := add32 bias val }
  else if tag = dtRelsz then { d with relCount := val / relBytes }
  else if tag = dtJmprel then { d with jmprel := add32 bias val }
  else if tag = dtPltrelsz then { d with jmprelCount := val / relBytes }
  else if tag = dtHash then
    match count with
    | some n => { d with symcnt := n }
    | none => d
  else d

def dynBody (f : SoFile) (bias dynOff i : Nat) (s : Dyn × List (Nat × Nat)) :
    Option Unit × (Dyn × List (Nat × Nat)) :=
  let tag := f.dynTag dynOff i
  let val := f.dynVal dynOff i
  let reads := s.2 ++ f.dynReads dynOff i
  if tag = dtNull then (some (), (s.1, reads))
  else
    let (count, reads) := if tag = dtHash then f.hashCount val reads else (none, reads)
    (none, (visitDyn bias tag val count s.1, reads))

end SoFile

structure Obj where
  isMain : Bool
  path : Path
  soname : Path
  loadBias : Nat
  minVaddr : Nat
  maxVaddr : Nat
  dyn : Dyn

structure Loader where
  objs : List Obj
  nextLibBase : Nat
  mem : Mem

-- what a call touches: offsets in `g_file_buf`, addresses of memory, the range it reserves
structure Trace where
  fileSz : Nat
  reads : List (Nat × Nat)
  loads : List (Nat × Nat)
  writes : List (Nat × Nat)
  region : Option (Nat × Nat)

def noTrace : Trace := { fileSz := 0, reads := [], loads := [], writes := [], region := none }

structure Call where
  path : Path
  soname : Path
  file : Option SoFile

def lookupObjBySonameOrPath (objs : List Obj) (path soname : Path) : Option Nat :=
  objs.findIdx? (fun o => decide (o.path = path ∨ soname ≠ [] ∧ o.soname = soname))

structure Placed where
  writes : List (Nat × Nat)
  reads : List (Nat × Nat)
  mem : Mem

namespace Placed

def memset0 (p : Placed) (dst n : Nat) : Placed :=
  { p with
    writes := p.writes ++ [(dst, n)]
    mem := fun x => if sub32 x dst < n then 0 else p.mem x }

def memcpy (p : Placed) (f : SoFile) (dst off n : Nat) : Placed :=
  { writes := p.writes ++ [(dst, n)]
    reads := p.reads ++ [(off, n)]
    mem := fun x => if sub32 x dst < n then f.elf.at_ (off + sub32 x dst) else p.mem x }

def seg (f : SoFile) (bias : Nat) (p : Placed) (i : Nat) : Placed :=
  let p := { p with reads := p.reads ++ f.loadReads i }
  if f.loaded i then
    let dst := add32 bias (f.elf.pVaddr i)
    let p := p.memcpy f dst (f.elf.pOffset i) (f.elf.pFilesz i)
    if f.elf.pFilesz i < f.elf.pMemsz i then
      p.memset0 (add32 dst (f.elf.pFilesz i)) (f.elf.pMemsz i - f.elf.pFilesz i)
    else p
  else p

end Placed

def relAddr (table i : Nat) : Nat × Nat := (table + relBytes * i + 4, 4)

def symIdx (mem : Mem) (table i : Nat) : Nat :=
  load32 (fun x => mem (x % 2 ^ 32)) (relAddr table i).1 / 2 ^ 8

def maxSymIdx (mem : Mem) (table count best : Nat) : Nat :=
  (List.range count).foldl (fun b i => if b < symIdx mem table i then symIdx mem table i else b) best

def symcntOfTables (d : Dyn) : Nat :=
  if d.symcnt = 0 ∧ d.symtabV < d.strtabV then (d.strtabV - d.symtabV) / symBytes else d.symcnt

def relLoads (d : Dyn) : List (Nat × Nat) :=
  if symcntOfTables d = 0 then
    (List.range d.relCount).map (relAddr d.rel) ++
      (List.range d.jmprelCount).map (relAddr d.jmprel)
  else []

def finalSymcnt (mem : Mem) (d : Dyn) : Nat :=
  if symcntOfTables d = 0 then
    maxSymIdx mem d.jmprel d.jmprelCount (maxSymIdx mem d.rel d.relCount 0) + 1
  else symcntOfTables d

def newObj (path soname : Path) (bias : Nat) (s : Span) (d : Dyn) : Obj :=
  { isMain := false, path := path.take (objPathSize - 1), soname := soname.take (sonameSize - 1),
    loadBias := bias, minVaddr := s.minV, maxVaddr := s.maxV, dyn := d }

def spanBytes (s : Span) : Nat := alignUp (sub32 s.maxV s.minV) 0x1000

-- from `alloc_obj_slot` on: the segments are copied and the dynamic table is read
def fillObject (l : Loader) (c : Call) (f : SoFile) (base : Nat) (s : Span) (t : Trace) :
    Option Nat × Loader × Trace :=
  let bias := sub32 base s.minV
  let slot := l.objs.length
  let put (d : Dyn) (mem : Mem) : Loader :=
    { l with objs := l.objs ++ [newObj c.path c.soname bias s d], mem := mem }
  let p := (List.range f.elf.ePhnum).foldl (Placed.seg f bias)
    (Placed.memset0 { writes := t.writes, reads := t.reads, mem := l.mem } base (spanBytes s))
  let t := { t with writes := p.writes, reads := p.reads }
  if f.size < add32 s.dynOff s.dynSz ∨ s.dynSz < dynBytes then (none, put noDyn p.mem, t)
  else
    let (d, reads) := (scan (f.dynBody bias s.dynOff) (s.dynSz / dynBytes) 0 (noDyn, t.reads)).2
    let t := { t with reads := reads }
    if d.strtab = 0 ∨ d.symtab = 0 then (none, put d p.mem, t)
    else
      (some slot, put { d with symcnt := finalSymcnt p.mem d } p.mem, { t with loads := relLoads d })

def loadSharedObject (l : Loader) (c : Call) : Option Nat × Loader × Trace :=
  match lookupObjBySonameOrPath l.objs c.path c.soname with
  | some slot => (some slot, l, noTrace)
  | none =>
      match c.file with
      | none => (none, l, noTrace)
      | some f =>
          let t := { noTrace with fileSz := f.size, reads := f.headerReads }
          if f.parseEhdr = false ∨ f.elf.eType ≠ etDyn then (none, l, t)
          else
            match scan f.segBody f.elf.ePhnum 0 (noSpan, t.reads) with
            | (some _, s) => (none, l, { t with reads := s.2 })
            | (none, s) =>
                let t := { t with reads := s.2 }
                if s.1.minV = 0xffffffff ∨ s.1.maxV ≤ s.1.minV ∨ s.1.dynVaddr = 0 then (none, l, t)
                else
                  let base := alignUp l.nextLibBase 0x1000
                  if userLibEnd < add32 base (spanBytes s.1) then (none, l, t)
                  else
                    let l := { l with nextLibBase := add32 base (spanBytes s.1) }
                    let t := { t with region := some (base, spanBytes s.1) }
                    if loaderMaxObjs ≤ l.objs.length then (none, l, t)
                    else fillObject l c f base s.1 t

-- the dylib loader copies into `image`, an offset there stands for an address
def dlSeg (f : SoFile) (minV : Nat) (p : Placed) (i : Nat) : Placed :=
  let p := { p with reads := p.reads ++ f.loadReads i }
  if f.loaded i then p.memcpy f (f.elf.pVaddr i - minV) (f.elf.pOffset i) (f.elf.pFilesz i)
  else p

def dlBody (f : SoFile) (i : Nat) (s : Span × List (Nat × Nat)) :
    Option Unit × (Span × List (Nat × Nat)) :=
  let reads := s.2 ++ f.loadReads i
  if f.segBad i then (some (), (s.1, reads)) else (none, (f.visitLoad i s.1, reads))

def parseAndLoad (f : SoFile) (image : Mem) : Option Span × Placed :=
  let p : Placed := { writes := [], reads := f.headerReads, mem := image }
  if f.parseEhdr = false then (none, p)
  else
    match scan (dlBody f) f.elf.ePhnum 0 (noSpan, p.reads) with
    | (some _, s) => (none, { p with reads := s.2 })
    | (none, s) =>
        let p := { p with reads := s.2 }
        if s.1.minV = 0xffffffff ∨ s.1.maxV ≤ s.1.minV then (none, p)
        else if dlImageCap < s.1.maxV - s.1.minV then (none, p)
        else
          (some s.1, (List.range f.elf.ePhnum).foldl (dlSeg f s.1.minV)
            (p.memset0 0 (s.1.maxV - s.1.minV)))

end HouseOS.Ldso
