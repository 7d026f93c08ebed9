import HouseOS.Library.ByteMem
import HouseOS.Library.Scan
import HouseOS.Library.Word
import HouseOS.Vfs.Model

namespace HouseOS.Elf

open HouseOS.ByteMem
open HouseOS.Scan
open HouseOS.Vfs
open HouseOS.Word

def elfMagic : Nat := 0x464C457F

def elfClass32 : UInt8 := 1

def elfData2Lsb : UInt8 := 1

def etExec : Nat := 2

def em386 : Nat := 3

def ptLoad : Nat := 1

def ptInterp : Nat := 3

def ehdrBytes : Nat := 52

def phdrBytes : Nat := 32

def userVaddrBase : Nat := 0x400000

def userVaddrSize : Nat := 0x400000

def userElfMinVaddr : Nat := userVaddrBase

def userElfMaxVaddr : Nat := userVaddrBase + userVaddrSize

def rangeOk (vaddr size : Nat) : Bool :=
  if vaddr < userElfMinVaddr then false
  else if userElfMaxVaddr - userElfMinVaddr < size then false
  else if userElfMaxVaddr - size < vaddr then false
  else true

structure Info where
  type : NodeType
  size : Nat
  word : size < 2 ^ 32

-- what the loader meets: the answers of `vfs_get_info`, `kmalloc` and `vfs_read`, and the bytes
-- at every 32-bit offset from the start of the buffer
structure ElfFile where
  info : Option Info
  buffer : Bool
  readFull : Bool
  bytes : Mem

namespace ElfFile

def at_ (f : ElfFile) : Mem := fun x => f.bytes (x % 2 ^ 32)

def eIdent (f : ElfFile) (k : Nat) : UInt8 := f.at_ k

def eType (f : ElfFile) : Nat := load16 f.at_ 16

def eMachine (f : ElfFile) : Nat := load16 f.at_ 18

def eEntry (f : ElfFile) : Nat := load32 f.at_ 24

def ePhoff (f : ElfFile) : Nat := load32 f.at_ 28

def ePhentsize (f : ElfFile) : Nat := load16 f.at_ 42

def ePhnum (f : ElfFile) : Nat := load16 f.at_ 44

def ph (f : ElfFile) (i : Nat) : Nat := f.ePhoff + phdrBytes * i

def pType (f : ElfFile) (i : Nat) : Nat := load32 f.at_ (f.ph i)

def pOffset (f : ElfFile) (i : Nat) : Nat := load32 f.at_ (f.ph i + 4)

def pVaddr (f : ElfFile) (i : Nat) : Nat := load32 f.at_ (f.ph i + 8)

def pFilesz (f : ElfFile) (i : Nat) : Nat := load32 f.at_ (f.ph i + 16)

def pMemsz (f : ElfFile) (i : Nat) : Nat := load32 f.at_ (f.ph i + 20)

def badHeader (f : ElfFile) : Bool :=
  decide (load32 f.at_ 0 ≠ elfMagic ∨ f.eIdent 4 ≠ elfClass32 ∨ f.eIdent 5 ≠ elfData2Lsb ∨
    f.eType ≠ etExec ∨ f.eMachine ≠ em386 ∨ f.ePhentsize ≠ phdrBytes)

end ElfFile

structure Load where
  reads : List (Nat × Nat)
  writes : List (Nat × Nat)
  user : Mem
  interp : List UInt8

namespace Load

def read (s : Load) (off n : Nat) : Load := { s with reads := s.reads ++ [(off, n)] }

def memcpy (s : Load) (f : ElfFile) (vaddr off n : Nat) : Load :=
  { s.read off n with
    writes := s.writes ++ [(vaddr, n)]
    user := fun x => if vaddr ≤ x ∧ x < vaddr + n then f.at_ (off + (x - vaddr)) else s.user x }

def memset0 (s : Load) (vaddr n : Nat) : Load :=
  { s with
    writes := s.writes ++ [(vaddr, n)]
    user := fun x => if vaddr ≤ x ∧ x < vaddr + n then 0 else s.user x }

end Load

def interpBytes (cap filesz : Nat) : Nat := if cap ≤ filesz then cap - 1 else filesz

def copiedInterp (f : ElfFile) (cap i : Nat) : List UInt8 :=
  (List.range (interpBytes cap (f.pFilesz i))).map (fun k => f.at_ (f.pOffset i + k))

def interpBody (f : ElfFile) (size : Nat) (interpOut : Bool) (cap i : Nat) (s : Load) :
    Option Nat × Load :=
  let s := s.read (f.ph i) 4
  if f.pType i ≠ ptInterp then (none, s)
  else if interpOut = false ∨ cap < 2 then (some 12, s)
  else
    let s := (s.read (f.ph i + 4) 4).read (f.ph i + 16) 4
    if size < add32 (f.pOffset i) (f.pFilesz i) ∨ f.pFilesz i < 2 then (some 13, s)
    else
      let s := s.read (f.pOffset i) (interpBytes cap (f.pFilesz i))
      let s := { s with interp := copiedInterp f cap i }
      if s.interp.head? ≠ some slash then (some 14, s) else (none, s)

def loadBody (f : ElfFile) (size i : Nat) (s : Load) : Option Nat × Load :=
  let s := s.read (f.ph i) 4
  if f.pType i ≠ ptLoad then (none, s)
  else
    let s := (s.read (f.ph i + 20) 4).read (f.ph i + 16) 4
    if f.pMemsz i < f.pFilesz i then (some 8, s)
    else
      let s := s.read (f.ph i + 4) 4
      if size < add32 (f.pOffset i) (f.pFilesz i) then (some 9, s)
      else
        let s := s.read (f.ph i + 8) 4
        if rangeOk (f.pVaddr i) (f.pMemsz i) = false then (some 10, s)
        else
          let s := s.memcpy f (f.pVaddr i) (f.pOffset i) (f.pFilesz i)
          if f.pFilesz i < f.pMemsz i then
            (none, s.memset0 (f.pVaddr i + f.pFilesz i) (f.pMemsz i - f.pFilesz i))
          else (none, s)

def loadProgram (f : ElfFile) (size : Nat) (interpOut : Bool) (cap : Nat) (s : Load) :
    Except Nat Nat × Load :=
  match scan (interpBody f size interpOut cap) f.ePhnum 0 s with
  | (some e, s) => (.error e, s)
  | (none, s) =>
      match scan (loadBody f size) f.ePhnum 0 s with
      | (some e, s) => (.error e, s)
      | (none, s) => if rangeOk f.eEntry 1 = false then (.error 11, s) else (.ok f.eEntry, s)

def elfLoadFromVfsEx (f : ElfFile) (interpOut : Bool) (cap : Nat) (user : Mem) :
    Except Nat Nat × Load :=
  let s : Load := { reads := [], writes := [], user := user, interp := [] }
  match f.info with
  | none => (.error 2, s)
  | some info =>
      if info.type ≠ .file ∨ info.size < ehdrBytes then (.error 3, s)
      else if f.buffer = false then (.error 4, s)
      else if f.readFull = false then (.error 5, s)
      else
        let s := s.read 0 ehdrBytes
        if f.badHeader then (.error 6, s)
        else if info.size < add32 f.ePhoff (mul32 f.ePhnum phdrBytes) then (.error 7, s)
        else loadProgram f info.size interpOut cap s

def elfLoadFromVfs (f : ElfFile) (user : Mem) : Except Nat Nat × Load :=
  elfLoadFromVfsEx f false 0 user

end HouseOS.Elf
