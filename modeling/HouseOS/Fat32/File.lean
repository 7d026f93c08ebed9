import HouseOS.Fat32.Dir

namespace HouseOS.Fat32

open HouseOS.Disk
open HouseOS.Program
open HouseOS.Word

abbrev Dirent := List UInt8

def le16 (v : Nat) : List UInt8 := [UInt8.ofNat v, UInt8.ofNat (v / 2 ^ 8)]

def le32 (v : Nat) : List UInt8 := le16 v ++ le16 (v / 2 ^ 16)

def Dirent.setSize (e : Dirent) (size : Nat) : Dirent := e.take 28 ++ le32 size

def Dirent.setFile (e : Dirent) (first size : Nat) : Dirent :=
  e.take 20 ++ le16 (first / 2 ^ 16) ++ (e.drop 22).take 4 ++ le16 first ++ le32 size

def misplaced (off : Nat) : Bool := decide (480 < off) || decide (off % 32 ≠ 0)

def fat32ReadDirentAt (rel off : Nat) : Driver (Option Dirent) :=
  if misplaced off then .done none
  else .ask (.read rel 1) fun reply => .done (reply.map fun sec => (sec.drop off).take 32)

def fat32WriteDirentAt (rel off : Nat) (e : Dirent) : Driver Bool :=
  if misplaced off then .done false
  else
    .ask (.read rel 1) fun
      | none => .done false
      | some sec =>
          .ask (.write rel 1 (sec.take off ++ e ++ sec.drop (off + 32))) fun reply =>
            .done reply.isSome

def block (data : List UInt8) : List UInt8 :=
  data.take 512 ++ List.replicate (512 - data.length) 0

namespace Fat32Fs

def fat32ClusterSize (fs : Fat32Fs) : Nat := mul32 fs.sectorsPerCluster fs.bytesPerSector

def freeLoop (fs : Fat32Fs) : Nat → Nat → Driver Bool
  | 0, _ => .done true
  | guard + 1, c =>
      if c < 2 then .done true
      else
        (fs.fat32FatGet c).bind fun
          | none => .done false
          | some next =>
              (fs.fat32FatSet c 0).bind fun set =>
                if !set then .done false
                else if isEoc next ∨ next < 2 then .done true
                else freeLoop fs guard next

def fat32FreeChain (fs : Fat32Fs) (first : Nat) : Driver Bool :=
  if first < 2 then .done true else fs.freeLoop (add32 fs.fat32MaxCluster 8) first

section Read

variable (size fileSize : Nat)

def copiedAll (copied : List UInt8) : Bool :=
  decide (size ≤ copied.length) || decide (fileSize ≤ copied.length)

def readCluster (rel : Nat) : Nat → Nat → List UInt8 → Driver (Option (List UInt8))
  | 0, _, copied => .done (some copied)
  | left + 1, s, copied =>
      if copiedAll size fileSize copied then .done (some copied)
      else
        .ask (.read (add32 rel s) 1) fun
          | none => .done none
          | some sec =>
              let take := min (min (fileSize - copied.length) (size - copied.length)) 512
              readCluster rel left (s + 1) (copied ++ sec.take take)

-- `none` while the chain goes on
def readChain (fs : Fat32Fs) : Nat → Nat → List UInt8 → Driver (Option (Option (List UInt8)))
  | fuel, c, copied =>
      if c < 2 ∨ isEoc c ∨ copiedAll size fileSize copied then .done (some (some copied))
      else
        match fuel with
        | 0 => .done none
        | fuel + 1 =>
            (readCluster size fileSize (fs.fat32ClusterToRelLba c) fs.sectorsPerCluster 0
              copied).bind fun
              | none => .done (some none)
              | some copied =>
                  (fs.fat32FatGet c).bind fun
                    | none => .done (some none)
                    | some next => readChain fs fuel next copied

end Read

-- every turn of the loop over the clusters copies a byte
def readFound (fs : Fat32Fs) (n : Found) (size : Nat) : Driver (Option (Option (List UInt8))) :=
  if n.isDir then .done (some none)
  else if n.node.firstCluster < 2 ∧ n.node.size = 0 then .done (some (some []))
  else readChain size n.node.size fs size n.node.firstCluster []

def fat32ReadOp (fs : Fat32Fs) (fuel : Nat) (junk : Found) (path : Path) (size : Nat) :
    Driver (Option (Option (List UInt8))) :=
  (fs.fat32Resolve fuel junk path).bind fun
    | none => .done none
    | some none => .done (some none)
    | some (some n) => fs.readFound n size

def needClusters (fs : Fat32Fs) (size : Nat) : Nat :=
  if size = 0 then 0 else sub32 (add32 size fs.fat32ClusterSize) 1 / fs.fat32ClusterSize

-- `first` and `prev` are below 2 until a cluster is taken
def takeClusters (fs : Fat32Fs) : Nat → Nat → Nat → Driver (Option Nat)
  | 0, first, _ => .done (some first)
  | need + 1, first, prev =>
      fs.fat32AllocCluster.bind fun
        | none => (fs.fat32FreeChain first).bind fun _ => .done none
        | some nc =>
            let rest := takeClusters fs need (if first < 2 then nc else first) nc
            if prev < 2 then rest
            else
              (fs.fat32FatSet prev nc).bind fun set =>
                if set then rest else (fs.fat32FreeChain first).bind fun _ => .done none

-- what of the data is left after the cluster, `none` for a failed write
def fillCluster (rel : Nat) : Nat → Nat → List UInt8 → Driver (Option (List UInt8))
  | 0, _, data => .done (some data)
  | left + 1, s, data =>
      .ask (.write (add32 rel s) 1 (block data)) fun
        | none => .done none
        | some _ => fillCluster rel left (s + 1) (data.drop 512)

def fillChain (fs : Fat32Fs) : Nat → Nat → List UInt8 → Driver (Option Bool)
  | fuel, c, data =>
      if data = [] ∨ c < 2 ∨ isEoc c then .done (some true)
      else
        match fuel with
        | 0 => .done none
        | fuel + 1 =>
            (fillCluster (fs.fat32ClusterToRelLba c) fs.sectorsPerCluster 0 data).bind fun
              | none => .done (some false)
              | some rest =>
                  if rest = [] then .done (some true)
                  else
                    (fs.fat32FatGet c).bind fun
                      | none => .done (some false)
                      | some next => fillChain fs fuel next rest

def writeFound (fs : Fat32Fs) (n : Found) (data : List UInt8) : Driver (Option (Option Nat)) :=
  if n.isDir then .done (some none)
  else
    (fs.takeClusters (fs.needClusters data.length) 0 0).bind fun
      | none => .done (some none)
      | some first =>
          (fs.fillChain data.length first data).bind fun
            | none => .done none
            | some false => (fs.fat32FreeChain first).bind fun _ => .done (some none)
            | some true =>
                (fat32ReadDirentAt n.entryRelSector n.entryOffset).bind fun
                  | none => .done (some none)
                  | some e =>
                      (fat32WriteDirentAt n.entryRelSector n.entryOffset
                        (Dirent.setFile e first data.length)).bind fun
                        | false => .done (some none)
                        | true =>
                            (fs.fat32FreeChain n.node.firstCluster).bind fun _ =>
                              .done (some (some data.length))

def fat32WriteOp (fs : Fat32Fs) (fuel : Nat) (junk : Found) (path : Path) (data : List UInt8) :
    Driver (Option (Option Nat)) :=
  (fs.fat32Resolve fuel junk path).bind fun
    | none => .done none
    | some none => .done (some none)
    | some (some n) => fs.writeFound n data

def lastLoop (fs : Fat32Fs) : Nat → Nat → Nat → Driver (Option (Nat × Nat))
  | 0, _, _ => .done none
  | left + 1, c, len =>
      (fs.fat32FatGet c).bind fun
        | none => .done none
        | some next =>
            if isEoc next ∨ next < 2 then .done (some (c, len + 1))
            else lastLoop fs left next (len + 1)

def fat32ChainLast (fs : Fat32Fs) (first : Nat) : Driver (Option (Nat × Nat)) :=
  if first < 2 then .done none else fs.lastLoop (add32 fs.fat32MaxCluster 8 + 1) first 0

def fillLast (fs : Fat32Fs) (last used : Nat) (data : List UInt8) : Driver (Option (List UInt8)) :=
  let rel := fs.fat32ClusterToRelLba last
  let secIdx := used / 512
  let secOff := used % 512
  .ask (.read (add32 rel secIdx) 1) fun
    | none => .done none
    | some sec =>
        let part := data.take (512 - secOff)
        .ask (.write (add32 rel secIdx) 1
          (sec.take secOff ++ part ++ sec.drop (secOff + part.length))) fun
          | none => .done none
          | some _ =>
              let rest := data.drop (512 - secOff)
              fillCluster rel (min ((rest.length + 511) / 512) (fs.sectorsPerCluster - (secIdx + 1)))
                (secIdx + 1) rest

-- a failed write leaves the loop over the sectors of this cluster only
def appendCluster (rel : Nat) : Nat → Nat → List UInt8 → Driver (List UInt8)
  | 0, _, data => .done data
  | left + 1, s, data =>
      .ask (.write (add32 rel s) 1 (block data)) fun
        | none => .done data
        | some _ => appendCluster rel left (s + 1) (data.drop 512)

-- what of the data is left, `none` while the loop goes on
def appendChain (fs : Fat32Fs) : Nat → Nat → List UInt8 → Driver (Option (List UInt8))
  | fuel, last, data =>
      if data = [] then .done (some [])
      else
        match fuel with
        | 0 => .done none
        | fuel + 1 =>
            fs.fat32AllocCluster.bind fun
              | none => .done (some data)
              | some nc =>
                  (fs.fat32FatSet last nc).bind fun set =>
                    if !set then (fs.fat32FreeChain nc).bind fun _ => .done (some data)
                    else
                      (fs.fat32FatSet nc fat32Eoc).bind fun set =>
                        if !set then (fs.fat32FreeChain nc).bind fun _ => .done (some data)
                        else
                          (appendCluster (fs.fat32ClusterToRelLba nc) fs.sectorsPerCluster 0
                            data).bind fun rest => appendChain fs fuel nc rest

def recordAppend (n : Found) (written : Nat) : Driver (Option Nat) :=
  if written = 0 then .done (some 0)
  else
    (fat32ReadDirentAt n.entryRelSector n.entryOffset).bind fun
      | none => .done none
      | some e =>
          (fat32WriteDirentAt n.entryRelSector n.entryOffset
            (Dirent.setSize e (add32 n.node.size written))).bind fun
            | false => .done none
            | true => .done (some written)

def appendFound (fs : Fat32Fs) (fuel : Nat) (n : Found) (data : List UInt8) :
    Driver (Option (Option Nat)) :=
  (fs.fat32ChainLast n.node.firstCluster).bind fun
    | none => .done (some none)
    | some (last, _) =>
        let used := n.node.size % fs.fat32ClusterSize
        (if used = 0 then .done (some data) else fs.fillLast last used data).bind fun
          | none => .done (some none)
          | some rest =>
              (fs.appendChain fuel last rest).bind fun
                | none => .done none
                | some rest =>
                    (recordAppend n (data.length - rest.length)).bind fun r => .done (some r)

def fat32AppendOp (fs : Fat32Fs) (fuel : Nat) (junk : Found) (path : Path) (data : List UInt8) :
    Driver (Option (Option Nat)) :=
  if data = [] then .done (some (some 0))
  else
    (fs.fat32Resolve fuel junk path).bind fun
      | none => .done none
      | some none => .done (some none)
      | some (some n) =>
          if n.isDir then .done (some none)
          else if n.node.firstCluster < 2 ∨ n.node.size = 0 then
            fs.fat32WriteOp fuel junk path data
          else fs.appendFound fuel n data

end Fat32Fs

end HouseOS.Fat32
