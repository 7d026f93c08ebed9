import HouseOS.Fat32.Model
import HouseOS.Library.Components

namespace HouseOS.Fat32

open HouseOS.Components
open HouseOS.Disk
open HouseOS.Program
open HouseOS.Word

abbrev Name := List UInt8

abbrev Path := List UInt8

def slash : UInt8 := 47

def attrVolumeId : Nat := 0x08

def attrDir : Nat := 0x10

def attrLfn : Nat := 0x0F

def isEoc (cluster : Nat) : Bool := decide (0x0FFFFFF8 ≤ cluster)

structure Node where
  attr : Nat
  firstCluster : Nat
  size : Nat
  name : Name
  deriving DecidableEq, Repr

structure Found where
  node : Node
  ownerDirCluster : Nat
  entryRelSector : Nat
  entryOffset : Nat
  deriving DecidableEq, Repr

def Found.isDir (f : Found) : Bool := decide (f.node.attr &&& attrDir ≠ 0)

def asciiToLower (c : UInt8) : UInt8 := if 65 ≤ c ∧ c ≤ 90 then c - 65 + 97 else c

def nameEqCi (a b : Name) : Bool := decide (a.map asciiToLower = b.map asciiToLower)

-- a C string ends at its first zero byte
def cText (text : List UInt8) : Name := text.takeWhile (· ≠ 0)

section Entries

variable (sec : List UInt8) (off : Nat)

def nameByte (i : Nat) : UInt8 := sec.getD (off + i) 0

def entryAttr : Nat := byteAt sec (off + 11)

def entryCluster : Nat := rdLe16 sec (off + 20) * 2 ^ 16 + rdLe16 sec (off + 26)

def entrySize : Nat := rdLe32 sec (off + 28)

def shortPart (start len : Nat) : Name :=
  (((List.range len).map fun i => nameByte sec off (start + i)).takeWhile (· ≠ 32)).map asciiToLower

def decodeShortName : Name :=
  cText (shortPart sec off 0 8 ++
    if nameByte sec off 8 ≠ 32 then 46 :: shortPart sec off 8 3 else [])

def lfnRun (start len : Nat) : List UInt8 :=
  (((List.range len).map fun i => rdLe16 sec (off + start + 2 * i)).takeWhile
    fun u => u ≠ 0x0000 ∧ u ≠ 0xFFFF).map fun u => UInt8.ofNat (u % 2 ^ 8)

def lfnExtractPiece : Name := cText (lfnRun sec off 1 5 ++ lfnRun sec off 14 6 ++ lfnRun sec off 28 2)

end Entries

abbrev Lfn := Nat → Option Name

def noLfn : Lfn := fun _ => none

def lfnText (lfn : Lfn) : Nat → Nat → List UInt8
  | 0, _ => []
  | left + 1, i =>
      match lfn i with
      | none => []
      | some piece => piece ++ lfnText lfn left (i + 1)

def decodedName (lfn : Lfn) (sec : List UInt8) (off : Nat) : Name :=
  if (lfn 0).isSome then (lfnText lfn 20 0).take 255 else decodeShortName sec off

inductive Scan where
  | stop
  | next (lfn : Lfn)
  | hit (f : Found)

section Find

variable (dir : Nat) (name : Name)

def findEntry (rel : Nat) (sec : List UInt8) (off : Nat) (lfn : Lfn) : Scan :=
  if nameByte sec off 0 = 0 then .stop
  else if nameByte sec off 0 = 0xE5 then .next noLfn
  else if entryAttr sec off = attrLfn then
    let idx := (nameByte sec off 0).toNat % 32
    .next (if 0 < idx ∧ idx ≤ 20 then
      fun i => if i = idx - 1 then some (lfnExtractPiece sec off) else lfn i else lfn)
  else if entryAttr sec off &&& attrVolumeId ≠ 0 then .next noLfn
  else if nameEqCi (decodedName lfn sec off) name then
    .hit ⟨⟨entryAttr sec off, entryCluster sec off, entrySize sec off, decodedName lfn sec off⟩,
      dir, rel, off⟩
  else .next noLfn

def findSector (rel : Nat) (sec : List UInt8) : Nat → Nat → Lfn → Scan
  | 0, _, lfn => .next lfn
  | left + 1, off, lfn =>
      match findEntry dir name rel sec off lfn with
      | .next lfn => findSector rel sec left (off + 32) lfn
      | r => r

def findCluster (rel : Nat) : Nat → Nat → Lfn → Driver Scan
  | 0, _, lfn => .done (.next lfn)
  | left + 1, s, lfn =>
      .ask (.read (add32 rel s) 1) fun
        | none => .done .stop
        | some sec =>
            match findSector dir name (add32 rel s) sec 16 0 lfn with
            | .next lfn => findCluster rel left (s + 1) lfn
            | r => .done r

-- `none` while the chain goes on, else what the search returns
def findChain (fs : Fat32Fs) : Nat → Nat → Lfn → Driver (Option (Option Found))
  | 0, _, _ => .done none
  | fuel + 1, c, lfn =>
      if c < 2 ∨ isEoc c then .done (some none)
      else
        (findCluster dir name (fs.fat32ClusterToRelLba c) fs.sectorsPerCluster 0 lfn).bind fun
          | .stop => .done (some none)
          | .hit f => .done (some (some f))
          | .next lfn =>
              (fs.fat32FatGet c).bind fun
                | none => .done (some none)
                | some next => findChain fs fuel next lfn

end Find

namespace Fat32Fs

def fat32DirFind (fs : Fat32Fs) (fuel dir : Nat) (name : Name) : Driver (Option (Option Found)) :=
  findChain dir name fs fuel dir noLfn

def rootFound (fs : Fat32Fs) : Found := ⟨⟨attrDir, fs.rootCluster, 0, [slash]⟩, 0, 0, 0⟩

def clusterOf (fs : Fat32Fs) (f : Found) : Nat :=
  if f.node.firstCluster ≠ 0 then f.node.firstCluster else fs.rootCluster

-- `seg` is the component read so far, `found` the variable of that name
def resolveLoop (fs : Fat32Fs) (fuel : Nat) :
    Path → Name → Nat → Found → Driver (Option (Option Found))
  | [], seg, cur, found =>
      if seg = [] then .done (some (some found)) else fs.fat32DirFind fuel cur seg
  | c :: rest, seg, cur, found =>
      if c = slash then
        if seg = [] then resolveLoop fs fuel rest [] cur found
        else
          (fs.fat32DirFind fuel cur seg).bind fun
            | some (some f) => resolveLoop fs fuel rest [] (fs.clusterOf f) f
            | r => .done r
      else if 256 ≤ seg.length + 1 then .done (some none)
      else resolveLoop fs fuel rest (seg ++ [c]) cur found

-- `junk` is what the stack holds where `found` is
def fat32Resolve (fs : Fat32Fs) (fuel : Nat) (junk : Found) (path : Path) :
    Driver (Option (Option Found)) :=
  if path.head? ≠ some slash then .done (some none)
  else if path = [slash] then .done (some (some fs.rootFound))
  else fs.resolveLoop fuel path [] fs.rootCluster junk

end Fat32Fs

end HouseOS.Fat32
