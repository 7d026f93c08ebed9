import HouseOS.Library.Word

namespace HouseOS.Disk

open HouseOS.Word

-- the drive behind the ports: whether it gets ready, and what a command on one sector does
structure Ata (σ : Type) where
  ready : σ → Bool × σ
  readSector : σ → Nat → Option (List UInt8) × σ
  writeSector : σ → Nat → List UInt8 → Bool × σ

structure DiskPart where
  baseLba : Nat
  totalSectors : Nat
  flags : Nat
  deriving DecidableEq, Repr

-- `issued` is the history of the sector numbers given to the drive, the latest first
structure Drive (σ : Type) where
  dev : σ
  issued : List Nat
  totalSectors : Nat
  parts : Nat → DiskPart

def sectorBytes : Nat := 512

def maxTransfer : Nat := 255

def maxLba28 : Nat := 0x0FFFFFFF

-- what the registers DRIVE, LBA2, LBA1 and LBA0 hold of a sector number
def addressed (cur : Nat) : Nat :=
  cur / 2 ^ 24 % 16 * 2 ^ 24 + cur / 2 ^ 16 % 256 * 2 ^ 16 + cur / 2 ^ 8 % 256 * 2 ^ 8 + cur % 256

def byteAt (bytes : List UInt8) (i : Nat) : Nat := (bytes.getD i 0).toNat

def rdLe32 (bytes : List UInt8) (i : Nat) : Nat :=
  byteAt bytes i + byteAt bytes (i + 1) * 2 ^ 8 + byteAt bytes (i + 2) * 2 ^ 16 +
    byteAt bytes (i + 3) * 2 ^ 24

def rdLe16 (bytes : List UInt8) (i : Nat) : Nat :=
  byteAt bytes i + byteAt bytes (i + 1) * 2 ^ 8

section Transfer

variable {σ : Type} (a : Ata σ)

namespace Drive

def issue (d : Drive σ) (cur : Nat) (dev : σ) : Drive σ :=
  { d with dev := dev, issued := addressed cur :: d.issued }

def readLoop (lba : Nat) : Nat → Nat → Drive σ → Option (List UInt8) × Drive σ
  | 0, _, d => (some [], d)
  | left + 1, s, d =>
      let cur := add32 lba s
      let (idle, dev) := a.ready d.dev
      if !idle then (none, { d with dev := dev })
      else
        let (sector, dev) := a.readSector dev (addressed cur)
        let d := d.issue cur dev
        match sector with
        | none => (none, d)
        | some bytes =>
            let (rest, d) := readLoop lba left (s + 1) d
            (rest.map (fun rest => bytes ++ rest), d)

def writeLoop (lba : Nat) (buffer : List UInt8) : Nat → Nat → Drive σ → Bool × Drive σ
  | 0, _, d =>
      let (idle, dev) := a.ready d.dev
      (idle, { d with dev := dev })
  | left + 1, s, d =>
      let cur := add32 lba s
      let (idle, dev) := a.ready d.dev
      if !idle then (false, { d with dev := dev })
      else
        let (ok, dev) := a.writeSector dev (addressed cur)
          ((buffer.drop (s * sectorBytes)).take sectorBytes)
        let d := d.issue cur dev
        if !ok then (false, d) else writeLoop lba buffer left (s + 1) d

def refuses28 (lba count : Nat) : Bool :=
  decide (count = 0) || decide (maxTransfer < count) || decide (maxLba28 < lba)

def ataRead28 (d : Drive σ) (lba count : Nat) : Option (List UInt8) × Drive σ :=
  if refuses28 lba count then (none, d) else d.readLoop a lba count 0

def ataWrite28 (d : Drive σ) (lba count : Nat) (buffer : List UInt8) : Bool × Drive σ :=
  if refuses28 lba count then (false, d) else d.writeLoop a lba buffer count 0

def partEntry (mbr : List UInt8) (total i : Nat) : Option DiskPart :=
  let start := rdLe32 mbr (446 + i * 16 + 8)
  let count := rdLe32 mbr (446 + i * 16 + 12)
  let stop := add32 start count
  if count = 0 ∨ stop < start ∨ total < stop then none else some ⟨start, count, 1⟩

def signed (mbr : List UInt8) : Bool :=
  decide (byteAt mbr 510 = 0x55) && decide (byteAt mbr 511 = 0xAA)

def noPart : DiskPart := ⟨0, 0, 0⟩

def wholeDisk (total i : Nat) : DiskPart := if i = 0 then ⟨0, total, 1⟩ else noPart

def diskPartsInit (d : Drive σ) : Drive σ :=
  let d := { d with parts := wholeDisk d.totalSectors }
  match d.ataRead28 a 0 1 with
  | (none, d) => d
  | (some mbr, d) =>
      if !signed mbr then d
      else
        { d with parts := fun i =>
            if 1 ≤ i ∧ i ≤ 4 then (partEntry mbr d.totalSectors (i - 1)).getD noPart
            else d.parts i }

-- the count the drive identifies with; a drive that gives none is taken for a floppy
def identified (reported : Nat) : Nat := if reported = 0 then 2880 else reported

def diskInit (dev : σ) (reported : Nat) : Drive σ :=
  diskPartsInit a
    { dev := dev, issued := [], totalSectors := identified reported, parts := fun _ => noPart }

def outside (total lba count : Nat) : Bool :=
  decide (count = 0) || decide (maxTransfer < count) || decide (total = 0) || decide (total ≤ lba) ||
    decide (add32 lba count < lba) || decide (total < add32 lba count)

def diskReadKernel (d : Drive σ) (lba count : Nat) : Option (List UInt8) × Drive σ :=
  if outside d.totalSectors lba count then (none, d) else d.ataRead28 a lba count

def diskWriteKernel (d : Drive σ) (lba count : Nat) (buffer : List UInt8) : Bool × Drive σ :=
  if outside d.totalSectors lba count then (false, d) else d.ataWrite28 a lba count buffer

def diskGetPartitionInfo (d : Drive σ) (index : Nat) : Option (Nat × Nat) :=
  if 4 < index ∨ (d.parts index).totalSectors = 0 then none
  else some ((d.parts index).baseLba, (d.parts index).totalSectors)

end Drive

-- a user buffer is an address; what it holds comes with a write
inductive DiskIoctl where
  | getInfo
  | read (lba count buffer : Nat)
  | write (lba count buffer : Nat) (data : List UInt8)
  deriving DecidableEq, Repr

inductive IoctlReply where
  | failed
  | info (sectorSize total flags : Nat)
  | bytes (data : List UInt8)
  | written
  deriving DecidableEq, Repr

namespace Drive

-- the buffer may not wrap round the address space
def ioctlRefuses (part : DiskPart) (lba count buffer : Nat) : Bool :=
  decide (buffer = 0) || outside part.totalSectors lba count ||
    decide (add32 buffer (mul32 count sectorBytes) < buffer)

def diskIoctl (d : Drive σ) (part : DiskPart) : DiskIoctl → IoctlReply × Drive σ
  | .getInfo => (.info sectorBytes part.totalSectors part.flags, d)
  | .read lba count buffer =>
      if ioctlRefuses part lba count buffer then (.failed, d)
      else
        match d.ataRead28 a (add32 part.baseLba lba) count with
        | (none, d) => (.failed, d)
        | (some data, d) => (.bytes data, d)
  | .write lba count buffer data =>
      if ioctlRefuses part lba count buffer then (.failed, d)
      else
        match d.ataWrite28 a (add32 part.baseLba lba) count data with
        | (false, d) => (.failed, d)
        | (true, d) => (.written, d)

end Drive

end Transfer

end HouseOS.Disk
