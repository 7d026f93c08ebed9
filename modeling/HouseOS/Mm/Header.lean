import HouseOS.Library.Linked
import HouseOS.Mm.Model

namespace HouseOS.Mm

open HouseOS.ByteMem
open HouseOS.DoublyLinked
open HouseOS.Word

structure Header where
  magic : Nat
  size : Nat
  isFree : UInt8
  next : Nat
  prev : Nat

namespace Heap

def header (h : Heap) (b : Nat) : Header :=
  { magic := h.magic b, size := h.size b, isFree := h.isFree b, next := h.next b, prev := h.prev b }

def links (h : Heap) : Links := { next := h.next, prev := h.prev }

def SameOrApart (a b : Nat) : Prop := a = b ∨ a + headerBytes ≤ b ∨ b + headerBytes ≤ a

variable {h : Heap} {a b v x : Nat}

theorem header_congr {h' : Heap}
    (hmem : ∀ x, b ≤ x → x < b + headerBytes → h'.mem x = h.mem x) : h'.header b = h.header b := by
  simp only [headerBytes] at hmem
  simp only [header, magic, size, isFree, next, prev, Header.mk.injEq]
  refine ⟨?_, ?_, hmem _ (by omega) (by omega), ?_, ?_⟩ <;>
    exact load32_congr fun x _ _ => hmem x (by omega) (by omega)

theorem header_setMagic (hab : SameOrApart a b) : (h.setMagic a v).header b =
    if b = a then { h.header b with magic := v % 2 ^ 32 } else h.header b := by
  split
  · rename_i hba
    subst hba
    simp only [header, magic, size, isFree, next, prev, setMagic, load32_store32_same]
    rw [load32_store32_ne _ (by omega), store32_ne _ (by omega), load32_store32_ne _ (by omega),
      load32_store32_ne _ (by omega)]
  · simp only [SameOrApart, headerBytes] at hab
    exact header_congr fun x _ _ => store32_ne _ (by simp only [headerBytes] at *; omega)

theorem header_setSize (hab : SameOrApart a b) : (h.setSize a v).header b =
    if b = a then { h.header b with size := v % 2 ^ 32 } else h.header b := by
  split
  · rename_i hba
    subst hba
    simp only [header, magic, size, isFree, next, prev, setSize, load32_store32_same]
    rw [load32_store32_ne _ (by omega), store32_ne _ (by omega), load32_store32_ne _ (by omega),
      load32_store32_ne _ (by omega)]
  · simp only [SameOrApart, headerBytes] at hab
    exact header_congr fun x _ _ => store32_ne _ (by simp only [headerBytes] at *; omega)

theorem header_setNext (hab : SameOrApart a b) : (h.setNext a v).header b =
    if b = a then { h.header b with next := v % 2 ^ 32 } else h.header b := by
  split
  · rename_i hba
    subst hba
    simp only [header, magic, size, isFree, next, prev, setNext, load32_store32_same]
    rw [load32_store32_ne _ (by omega), load32_store32_ne _ (by omega), store32_ne _ (by omega),
      load32_store32_ne _ (by omega)]
  · simp only [SameOrApart, headerBytes] at hab
    exact header_congr fun x _ _ => store32_ne _ (by simp only [headerBytes] at *; omega)

theorem header_setPrev (hab : SameOrApart a b) : (h.setPrev a v).header b =
    if b = a then { h.header b with prev := v % 2 ^ 32 } else h.header b := by
  split
  · rename_i hba
    subst hba
    simp only [header, magic, size, isFree, next, prev, setPrev, load32_store32_same]
    rw [load32_store32_ne _ (by omega), load32_store32_ne _ (by omega), store32_ne _ (by omega),
      load32_store32_ne _ (by omega)]
  · simp only [SameOrApart, headerBytes] at hab
    exact header_congr fun x _ _ => store32_ne _ (by simp only [headerBytes] at *; omega)

theorem header_setIsFree {f : UInt8} (hab : SameOrApart a b) : (h.setIsFree a f).header b =
    if b = a then { h.header b with isFree := f } else h.header b := by
  split
  · rename_i hba
    subst hba
    have hfree : store8 h.mem (b + 8) f (b + 8) = f := if_pos rfl
    simp only [header, magic, size, isFree, next, prev, setIsFree, hfree]
    rw [load32_store8_ne _ (by omega), load32_store8_ne _ (by omega), load32_store8_ne _ (by omega),
      load32_store8_ne _ (by omega)]
  · simp only [SameOrApart, headerBytes] at hab
    exact header_congr fun x _ _ => store8_ne _ (by simp only [headerBytes] at *; omega)

theorem header_setFreeList : (h.setFreeList v).header b = h.header b :=
  header_congr fun _ _ _ => rfl

theorem header_newBlock (hab : SameOrApart a b) : (h.newBlock a v).header b =
    if b = a then
      { magic := heapMagic, size := v % 2 ^ 32, isFree := 1, next := 0, prev := 0 }
    else h.header b := by
  simp only [newBlock, header_setPrev hab, header_setNext hab, header_setIsFree hab,
    header_setSize hab, header_setMagic hab]
  split <;> rfl

end Heap

structure Touch (h h' : Heap) (a : List Nat) : Prop where
  mem : ∀ x, (∀ b ∈ a, x < b ∨ b + headerBytes ≤ x) → h'.mem x = h.mem x
  start : h'.heapStart = h.heapStart
  stop : h'.heapEnd = h.heapEnd
  used : h'.usedHeapSize = h.usedHeapSize

namespace Touch

variable {h h' h'' : Heap} {as : List Nat} {a v : Nat}

theorem refl (h : Heap) (as : List Nat) : Touch h h as := ⟨fun _ _ => rfl, rfl, rfl, rfl⟩

theorem trans (t : Touch h h' as) (t' : Touch h' h'' as) : Touch h h'' as where
  mem x hx := (t'.mem x hx).trans (t.mem x hx)
  start := t'.start.trans t.start
  stop := t'.stop.trans t.stop
  used := t'.used.trans t.used

theorem mono {bs : List Nat} (t : Touch h h' as) (hsub : ∀ x ∈ as, x ∈ bs) : Touch h h' bs :=
  ⟨fun x hx => t.mem x (fun b hb => hx b (hsub b hb)), t.start, t.stop, t.used⟩

theorem setMagic (ha : a ∈ as) : Touch h (h.setMagic a v) as :=
  ⟨fun x hx => store32_ne _ (by have := hx a ha; simp only [headerBytes] at this; omega), rfl, rfl, rfl⟩

theorem setSize (ha : a ∈ as) : Touch h (h.setSize a v) as :=
  ⟨fun x hx => store32_ne _ (by have := hx a ha; simp only [headerBytes] at this; omega), rfl, rfl, rfl⟩

theorem setNext (ha : a ∈ as) : Touch h (h.setNext a v) as :=
  ⟨fun x hx => store32_ne _ (by have := hx a ha; simp only [headerBytes] at this; omega), rfl, rfl, rfl⟩

theorem setPrev (ha : a ∈ as) : Touch h (h.setPrev a v) as :=
  ⟨fun x hx => store32_ne _ (by have := hx a ha; simp only [headerBytes] at this; omega), rfl, rfl, rfl⟩

theorem setIsFree {f : UInt8} (ha : a ∈ as) : Touch h (h.setIsFree a f) as :=
  ⟨fun x hx => store8_ne _ (by have := hx a ha; simp only [headerBytes] at this; omega), rfl, rfl, rfl⟩

theorem setFreeList : Touch h (h.setFreeList v) as := ⟨fun _ _ => rfl, rfl, rfl, rfl⟩

theorem newBlock (ha : a ∈ as) : Touch h (h.newBlock a v) as :=
  (((((setMagic ha).trans (setSize ha)).trans (setIsFree ha)).trans (setNext ha)).trans (setPrev ha))

end Touch

end HouseOS.Mm
