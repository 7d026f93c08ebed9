import HouseOS.Disk.Model
import HouseOS.Library.Program

namespace HouseOS.Fat32

open HouseOS.Disk
open HouseOS.Program
open HouseOS.Word

structure Fat32Fs where
  diskKind : Nat
  diskIndex : Nat
  partStartLba : Nat
  partTotalSectors : Nat
  bytesPerSector : Nat
  sectorsPerCluster : Nat
  reservedSectors : Nat
  numFats : Nat
  fatSizeSectors : Nat
  rootCluster : Nat
  fatStartLba : Nat
  dataStartLba : Nat
  deriving DecidableEq, Repr

def fat32DiskAta : Nat := 0

def fat32Eoc : Nat := 0x0FFFFFFF

-- every access of the driver is one of these, counted from the start of its partition
inductive SectorReq where
  | read (relLba count : Nat)
  | write (relLba count : Nat) (data : List UInt8)
  deriving DecidableEq, Repr

-- a reply is what was read, nothing for a write, `none` for -1
abbrev Driver (α : Type) := Prog SectorReq (Option (List UInt8)) α

namespace Fat32Fs

def refuses (fs : Fat32Fs) (relLba count : Nat) : Bool :=
  decide (count = 0) || decide (fs.partTotalSectors ≤ relLba) ||
    decide (add32 relLba count < relLba) || decide (fs.partTotalSectors < add32 relLba count)

section Sectors

variable {σ : Type} (a : Ata σ)

def fat32ReadSectors (fs : Fat32Fs) (d : Drive σ) (relLba count : Nat) :
    Option (List UInt8) × Drive σ :=
  if fs.refuses relLba count then (none, d)
  else if fs.diskKind = fat32DiskAta then
    d.diskReadKernel a (add32 fs.partStartLba relLba) count
  else (none, d)

def fat32WriteSectors (fs : Fat32Fs) (d : Drive σ) (relLba count : Nat) (data : List UInt8) :
    Bool × Drive σ :=
  if fs.refuses relLba count then (false, d)
  else if fs.diskKind = fat32DiskAta then
    d.diskWriteKernel a (add32 fs.partStartLba relLba) count data
  else (false, d)

def serve (fs : Fat32Fs) (d : Drive σ) : SectorReq → Option (List UInt8) × Drive σ
  | .read relLba count => fs.fat32ReadSectors a d relLba count
  | .write relLba count data =>
      match fs.fat32WriteSectors a d relLba count data with
      | (true, d) => (some [], d)
      | (false, d) => (none, d)

end Sectors

def fat32ClusterToRelLba (fs : Fat32Fs) (cluster : Nat) : Nat :=
  add32 fs.dataStartLba (mul32 (sub32 cluster 2) fs.sectorsPerCluster)

def fat32MaxCluster (fs : Fat32Fs) : Nat :=
  if fs.partTotalSectors ≤ fs.dataStartLba ∨ fs.sectorsPerCluster = 0 then 1
  else (fs.partTotalSectors - fs.dataStartLba) / fs.sectorsPerCluster + 1

def fatEntry (sec : List UInt8) (off : Nat) : Nat := rdLe32 sec off % 2 ^ 28

def fat32FatGet (fs : Fat32Fs) (cluster : Nat) : Driver (Option Nat) :=
  if cluster < 2 then .done none
  else
    let fatOff := mul32 cluster 4
    .ask (.read (add32 fs.fatStartLba (fatOff / 512)) 1) fun
      | none => .done none
      | some sec => .done (some (fatEntry sec (fatOff % 512)))

-- the top four bits of an entry stay as they are
def putEntry (sec : List UInt8) (off value : Nat) : List UInt8 :=
  let cur := rdLe32 sec off / 2 ^ 28 * 2 ^ 28 + value % 2 ^ 28
  (((sec.set off (UInt8.ofNat cur)).set (off + 1) (UInt8.ofNat (cur / 2 ^ 8))).set (off + 2)
    (UInt8.ofNat (cur / 2 ^ 16))).set (off + 3) (UInt8.ofNat (cur / 2 ^ 24))

def fatSector (fs : Fat32Fs) (fatI relSecInFat : Nat) : Nat :=
  add32 (add32 fs.fatStartLba (mul32 fatI fs.fatSizeSectors)) relSecInFat

def fatSetLoop (fs : Fat32Fs) (fatOff value : Nat) : Nat → Nat → Driver Bool
  | 0, _ => .done true
  | left + 1, fatI =>
      let relSec := fs.fatSector fatI (fatOff / 512)
      .ask (.read relSec 1) fun
        | none => .done false
        | some sec =>
            .ask (.write relSec 1 (putEntry sec (fatOff % 512) value)) fun
              | none => .done false
              | some _ => fatSetLoop fs fatOff value left (fatI + 1)

def fat32FatSet (fs : Fat32Fs) (cluster value : Nat) : Driver Bool :=
  if cluster < 2 then .done false else fs.fatSetLoop (mul32 cluster 4) value fs.numFats 0

def zeroLoop (rel : Nat) : Nat → Nat → Driver Bool
  | 0, _ => .done true
  | left + 1, s =>
      .ask (.write (add32 rel s) 1 (List.replicate 512 0)) fun
        | none => .done false
        | some _ => zeroLoop rel left (s + 1)

def fat32ZeroCluster (fs : Fat32Fs) (cluster : Nat) : Driver Bool :=
  if cluster < 2 then .done false
  else zeroLoop (fs.fat32ClusterToRelLba cluster) fs.sectorsPerCluster 0

def allocLoop (fs : Fat32Fs) : Nat → Nat → Driver (Option Nat)
  | 0, _ => .done none
  | left + 1, c =>
      (fs.fat32FatGet c).bind fun
        | none => .done none
        | some v =>
            if v ≠ 0 then allocLoop fs left (c + 1)
            else
              (fs.fat32FatSet c fat32Eoc).bind fun set =>
                if !set then .done none
                else (fs.fat32ZeroCluster c).bind fun zeroed =>
                  .done (if zeroed then some c else none)

def fat32AllocCluster (fs : Fat32Fs) : Driver (Option Nat) :=
  fs.allocLoop (fs.fat32MaxCluster - 1) 2

end Fat32Fs

section Init

variable {σ : Type} (a : Ata σ)

def disk0 : List UInt8 := [100, 105, 115, 107, 48]

def diskNameParse (name : List UInt8) : Option (Nat × Nat) :=
  if name = [48] ∨ name = disk0 then some (fat32DiskAta, 0) else none

def diskReadAbs (d : Drive σ) (kind index lba count : Nat) : Option (List UInt8) × Drive σ :=
  if kind = fat32DiskAta ∧ index = 0 then d.diskReadKernel a lba count else (none, d)

def diskGetTotal (d : Drive σ) (kind index : Nat) : Option Nat :=
  if kind = fat32DiskAta ∧ index = 0 then (d.diskGetPartitionInfo 0).map Prod.snd else none

def diskPartitionBounds (d : Drive σ) (kind index partitionIndex : Nat) :
    Option (Nat × Nat) × Drive σ :=
  match diskGetTotal d kind index with
  | none => (none, d)
  | some total =>
      if total = 0 then (none, d)
      else if partitionIndex = 0 then (some (0, total), d)
      else if 4 < partitionIndex then (none, d)
      else
        match diskReadAbs a d kind index 0 1 with
        | (none, d) => (none, d)
        | (some mbr, d) =>
            if !Drive.signed mbr then (none, d)
            else
              ((Drive.partEntry mbr total (partitionIndex - 1)).map
                (fun e => (e.baseLba, e.totalSectors)), d)

def readBootSector (kind index start count : Nat) (bs : List UInt8) : Fat32Fs :=
  let reserved := rdLe16 bs 14
  let fats := byteAt bs 16
  let size := rdLe32 bs 36
  { diskKind := kind
    diskIndex := index
    partStartLba := start
    partTotalSectors := count
    bytesPerSector := rdLe16 bs 11
    sectorsPerCluster := byteAt bs 13
    reservedSectors := reserved
    numFats := fats
    fatSizeSectors := size
    rootCluster := rdLe32 bs 44
    fatStartLba := reserved
    dataStartLba := add32 reserved (mul32 fats size) }

def Fat32Fs.accepted (fs : Fat32Fs) : Bool :=
  decide (fs.bytesPerSector = 512) && decide (fs.sectorsPerCluster ≠ 0) && decide (fs.numFats ≠ 0) &&
    decide (fs.fatSizeSectors ≠ 0) && decide (fs.dataStartLba < fs.partTotalSectors) &&
    decide (2 ≤ fs.rootCluster)

def fat32InitNamed (d : Drive σ) (name : List UInt8) (partitionIndex : Nat) :
    Option Fat32Fs × Drive σ :=
  match diskNameParse name with
  | none => (none, d)
  | some (kind, index) =>
      match diskPartitionBounds a d kind index partitionIndex with
      | (none, d) => (none, d)
      | (some (start, count), d) =>
          if count = 0 then (none, d)
          else
            match diskReadAbs a d kind index start 1 with
            | (none, d) => (none, d)
            | (some bs, d) =>
                let fs := readBootSector kind index start count bs
                (if fs.accepted then some fs else none, d)

end Init

end HouseOS.Fat32
