import HouseOS.Library.ByteMem
import HouseOS.Library.Loop
import HouseOS.Library.Word

namespace HouseOS.Mm

open HouseOS.ByteMem
open HouseOS.Loop
open HouseOS.Word

def heapMagic : Nat := 0xDEADBEEF

def minBlockSize : Nat := 16

def alignment : Nat := 8

def headerBytes : Nat := 20

def sizeMax : Nat := 2 ^ 32 - 1

structure Heap where
  mem : Mem
  heapStart : Nat
  heapEnd : Nat
  freeList : Nat
  totalHeapSize : Nat
  usedHeapSize : Nat

structure MapEntry where
  base : Nat
  length : Nat
  type : Nat

-- more steps than a list of disjoint headers inside the heap can take
def listFuel : Nat := 2 ^ 24

def alignSize (size : Nat) : Nat := add32 size (alignment - 1) &&& not32 (alignment - 1)

namespace Heap

def magic (h : Heap) (b : Nat) : Nat := load32 h.mem b

def size (h : Heap) (b : Nat) : Nat := load32 h.mem (b + 4)

def isFree (h : Heap) (b : Nat) : UInt8 := h.mem (b + 8)

def next (h : Heap) (b : Nat) : Nat := load32 h.mem (b + 12)

def prev (h : Heap) (b : Nat) : Nat := load32 h.mem (b + 16)

def setMagic (h : Heap) (b v : Nat) : Heap := { h with mem := store32 h.mem b v }

def setSize (h : Heap) (b v : Nat) : Heap := { h with mem := store32 h.mem (b + 4) v }

def setIsFree (h : Heap) (b : Nat) (v : UInt8) : Heap := { h with mem := store8 h.mem (b + 8) v }

def setNext (h : Heap) (b v : Nat) : Heap := { h with mem := store32 h.mem (b + 12) v }

def setPrev (h : Heap) (b v : Nat) : Heap := { h with mem := store32 h.mem (b + 16) v }

def setFreeList (h : Heap) (b : Nat) : Heap := { h with freeList := b }

def blockTotalSize (h : Heap) (b : Nat) : Nat := add32 (h.size b) headerBytes

def getBlockPayload (b : Nat) : Nat := add32 b headerBytes

def getBlockFromPayload (ptr : Nat) : Nat := if ptr = 0 then 0 else sub32 ptr headerBytes

def findStep (h : Heap) (neededPayload cur : Nat) : Step Nat Nat :=
  if cur = 0 then .ret 0
  else if h.isFree cur ≠ 0 ∧ neededPayload ≤ h.size cur then .ret cur
  else .go (h.next cur)

def findFreeBlock (h : Heap) (neededPayload : Nat) : Option Nat :=
  loop (h.findStep neededPayload) listFuel h.freeList

def sortedStep (h : Heap) (block : Nat) (s : Nat × Nat) : Step (Nat × Nat) (Nat × Nat) :=
  if s.1 ≠ 0 ∧ s.1 < block then .go (h.next s.1, s.1) else .ret s

def insertIntoListSorted (h : Heap) (block : Nat) : Option Heap :=
  if h.freeList = 0 then
    some (((h.setFreeList block).setPrev block 0).setNext block 0)
  else
    match loop (h.sortedStep block) listFuel (h.freeList, 0) with
    | none => none
    | some (cur, prev) =>
        let h := (h.setNext block cur).setPrev block prev
        let h := if prev ≠ 0 then h.setNext prev block else h.setFreeList block
        some (if cur ≠ 0 then h.setPrev cur block else h)

def removeFromList (h : Heap) (block : Nat) : Heap :=
  if block = 0 then h
  else
    let h := if h.prev block ≠ 0 then h.setNext (h.prev block) (h.next block)
      else h.setFreeList (h.next block)
    let h := if h.next block ≠ 0 then h.setPrev (h.next block) (h.prev block) else h
    (h.setNext block 0).setPrev block 0

def newBlock (h : Heap) (b size : Nat) : Heap :=
  ((((h.setMagic b heapMagic).setSize b size).setIsFree b 1).setNext b 0).setPrev b 0

def splitBlock (h : Heap) (block payloadSize : Nat) : Option (Nat × Heap) :=
  let payloadSize := alignSize payloadSize
  let remaining := sub32 (h.size block) payloadSize
  if headerBytes + minBlockSize ≤ remaining then
    let new := add32 (getBlockPayload block) payloadSize
    let h := (h.newBlock new (sub32 remaining headerBytes)).setSize block payloadSize
    match h.insertIntoListSorted new with
    | none => none
    | some h => some (new, h)
  else some (0, h)

def absorb (h : Heap) (p x : Nat) : Heap :=
  let h := h.setSize p (add32 (h.size p) (h.blockTotalSize x))
  let h := h.setNext p (h.next x)
  if h.next x ≠ 0 then h.setPrev (h.next x) p else h

def mergePrev (h : Heap) (block : Nat) : Nat × Heap :=
  if h.prev block ≠ 0 ∧ h.isFree (h.prev block) ≠ 0 ∧
      block = add32 (h.prev block) (h.blockTotalSize (h.prev block)) then
    (h.prev block, h.absorb (h.prev block) block)
  else (block, h)

def mergeNext (h : Heap) (block : Nat) : Heap :=
  if h.next block ≠ 0 ∧ h.isFree (h.next block) ≠ 0 ∧
      h.next block = add32 block (h.blockTotalSize block) then
    h.absorb block (h.next block)
  else h

def mergeFreeBlocks (h : Heap) (block : Nat) : Heap :=
  if block = 0 ∨ h.isFree block = 0 then h
  else
    let (block, h) := h.mergePrev block
    h.mergeNext block

def kmalloc (h : Heap) (size : Nat) : Option (Nat × Heap) :=
  if size = 0 ∨ h.heapStart = 0 then some (0, h)
  else
    let size := alignSize size
    match h.findFreeBlock size with
    | none => none
    | some 0 => some (0, h)
    | some block =>
        match (h.removeFromList block).splitBlock block size with
        | none => none
        | some (_, h) =>
            let h := h.setIsFree block 0
            some (getBlockPayload block,
              { h with usedHeapSize := add32 h.usedHeapSize (h.blockTotalSize block) })

def kcalloc (h : Heap) (num size : Nat) : Option (Nat × Heap) :=
  if num ≠ 0 ∧ sizeMax / num < size then some (0, h)
  else
    let total := mul32 num size
    match h.kmalloc total with
    | none => none
    | some (p, h) => some (p, if p ≠ 0 then { h with mem := fill h.mem p 0 total } else h)

def kfree (h : Heap) (ptr : Nat) : Option Heap :=
  if ptr = 0 ∨ h.heapStart = 0 then some h
  else
    let block := getBlockFromPayload ptr
    if block = 0 ∨ h.magic block ≠ heapMagic then some h
    else if h.isFree block ≠ 0 then some h
    else
      let h := h.setIsFree block 1
      let h := { h with usedHeapSize := sub32 h.usedHeapSize (h.blockTotalSize block) }
      match h.insertIntoListSorted block with
      | none => none
      | some h => some (h.mergeFreeBlocks block)

def krealloc (h : Heap) (ptr size : Nat) : Option (Nat × Heap) :=
  if ptr = 0 then h.kmalloc size
  else if size = 0 then
    match h.kfree ptr with
    | none => none
    | some h => some (0, h)
  else
    let block := getBlockFromPayload ptr
    if block = 0 ∨ h.magic block ≠ heapMagic then some (0, h)
    else
      let size := alignSize size
      if size ≤ h.size block then
        match h.splitBlock block size with
        | none => none
        | some (newFree, h) => some (ptr,
            if newFree ≠ 0 then
              { h with usedHeapSize := sub32 h.usedHeapSize (h.blockTotalSize newFree) }
            else h)
      else
        match h.kmalloc size with
        | none => none
        | some (newp, h) =>
            if newp = 0 then some (0, h)
            else
              match ({ h with mem := copy h.mem newp ptr (h.size block) } : Heap).kfree ptr with
              | none => none
              | some h => some (newp, h)

def valloc (h : Heap) (size : Nat) : Option (Nat × Heap) := h.kmalloc size

def vallocAligned (h : Heap) (size align : Nat) : Option (Nat × Heap) :=
  let align := if align < alignment then alignment else align
  let total := add32 (add32 size align) 4
  match h.kmalloc total with
  | none => none
  | some (raw, h) =>
      if raw = 0 then some (0, h)
      else
        let addr := add32 raw 4
        let aligned := sub32 (add32 addr align) 1 &&& not32 (sub32 align 1)
        some (aligned, { h with mem := store32 h.mem (sub32 aligned 4) raw })

def vfree (h : Heap) (ptr : Nat) : Option Heap :=
  if ptr = 0 then some h else h.kfree (load32 h.mem (sub32 ptr 4))

end Heap

def wantedBase : Nat := 0x900000

def wantedSize : Nat := 0x1000000

def coversHeap (e : MapEntry) : Bool :=
  decide (e.type = 1 ∧ e.base ≤ wantedBase ∧
    wantedBase + wantedSize ≤ (e.base + e.length) % 2 ^ 64)

def holdsHeap (e : MapEntry) : Bool :=
  decide (e.type = 1 ∧ wantedBase ≤ e.base ∧ wantedSize ≤ e.length)

def heapBase (mmap : List MapEntry) : Nat :=
  if mmap.any coversHeap then wantedBase
  else
    match mmap.find? holdsHeap with
    | some e => e.base
    | none => wantedBase

def kmallocInit (mmap : List MapEntry) (mem : Mem) : Heap :=
  let start := heapBase mmap % 2 ^ 32
  let stop := (heapBase mmap + wantedSize) % 2 ^ 32
  let first := start
  let h : Heap :=
    { mem := mem, heapStart := start, heapEnd := stop, freeList := first, totalHeapSize := 0,
      usedHeapSize := 0 }
  let h := h.newBlock first (sub32 (sub32 stop start) headerBytes)
  { h with totalHeapSize := h.blockTotalSize first }

end HouseOS.Mm
