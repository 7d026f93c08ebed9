import HouseOS.Ldso.Model
import HouseOS.Library.Patches

namespace HouseOS.Ldso

open HouseOS.ByteMem HouseOS.Patches
open HouseOS.Word

def r386None : Nat := 0

def r38632 : Nat := 1

def r386Pc32 : Nat := 2

def r386GlobDat : Nat := 6

def r386JmpSlot : Nat := 7

def r386Relative : Nat := 8

structure Rel where
  offset : Nat
  info : Nat
  deriving DecidableEq, Repr

def Rel.type (e : Rel) : Nat := e.info % 256

def Rel.sym (e : Rel) : Nat := e.info / 256

section Source

variable (m : Mem) (objs : List Obj) (o : Obj)

def relAt (table i : Nat) : Rel :=
  ⟨load32 m (table + relBytes * i), load32 m (table + relBytes * i + 4)⟩

-- the main program is the one object that is not ET_DYN
def objRtAddr (vaddr : Nat) : Nat := if o.isMain then vaddr else add32 o.loadBias vaddr

def stName (idx : Nat) : Nat := load32 m (o.dyn.symtab + symBytes * idx)

def stValue (idx : Nat) : Nat := load32 m (o.dyn.symtab + symBytes * idx + 4)

def stShndx (idx : Nat) : Nat := load16 m (o.dyn.symtab + symBytes * idx + 14)

def cstring (m : Mem) : Nat → Nat → List UInt8
  | 0, _ => []
  | n + 1, p => if m p = 0 then [] else m p :: cstring m n (p + 1)

def textAt (p : Nat) : List UInt8 := cstring m (2 ^ 32) p

def symAddrFromObj (idx : Nat) : Nat :=
  if o.dyn.symtab = 0 ∨ o.dyn.symcnt ≤ idx then 0
  else if stShndx m o idx = 0 ∨ stValue m o idx = 0 then 0
  else objRtAddr o (stValue m o idx)

def resolveSym (name : List UInt8) (si : Nat) : Option Nat :=
  if stShndx m o si = 0 ∨ o.dyn.strsz ≤ stName m o si then none
  else if textAt m (o.dyn.strtab + stName m o si) ≠ name then none
  else if stValue m o si = 0 then none
  else some (objRtAddr o (stValue m o si))

def resolveInObj (name : List UInt8) (o : Obj) : Option Nat :=
  if o.dyn.symtab = 0 ∨ o.dyn.strtab = 0 then none
  else (List.range' 1 (o.dyn.symcnt - 1)).findSome? (resolveSym m o name)

def resolveGlobalSymbol (name : Option Nat) : Nat :=
  match name with
  | none => 0
  | some p => if m p = 0 then 0 else (objs.findSome? (resolveInObj m (textAt m p))).getD 0

def nameFor (sym : Nat) : Option Nat :=
  if o.dyn.strtab ≠ 0 ∧ o.dyn.symtab ≠ 0 ∧ sym < o.dyn.symcnt then
    if stName m o sym < o.dyn.strsz then some (o.dyn.strtab + stName m o sym) else none
  else none

def symbolFor (sym : Nat) : Option Nat :=
  if symAddrFromObj m o sym ≠ 0 then some (symAddrFromObj m o sym)
  else
    let S := resolveGlobalSymbol m objs (nameFor m o sym)
    if S = 0 then none else some S

def relocated (type S A P : Nat) : Option Nat :=
  if type = r38632 then some (add32 S A)
  else if type = r386Pc32 then some (sub32 (add32 S A) P)
  else if type = r386GlobDat ∨ type = r386JmpSlot then some S
  else if type = r386Relative then some (add32 o.loadBias A)
  else none

def applyRel (e : Rel) : Option Mem :=
  let place := objRtAddr o e.offset
  let A := load32 m place
  if e.type = r386None then some m
  else
    (if e.type ≠ r386Relative ∧ e.sym ≠ 0 then symbolFor m objs o e.sym else some 0).bind fun S =>
      (relocated o e.type S A place).map (store32 m place)

def applyRelTable (rel count : Nat) : Option Mem :=
  if rel = 0 ∨ count = 0 then some m
  else (List.range count).foldlM (fun m i => applyRel m objs o (relAt m rel i)) m

def relocateAll : Option Mem :=
  (objs.foldlM (fun m o => applyRelTable m objs o o.dyn.rel o.dyn.relCount) m).bind fun m =>
    objs.foldlM (fun m o => applyRelTable m objs o o.dyn.jmprel o.dyn.jmprelCount) m

end Source

section Abi

variable (m : Mem) (objs : List Obj)

def definition (o : Obj) (idx : Nat) : Option Nat :=
  if o.dyn.symtab ≠ 0 ∧ idx < o.dyn.symcnt ∧ stShndx m o idx ≠ 0 ∧ stValue m o idx ≠ 0 then
    some (objRtAddr o (stValue m o idx))
  else none

def Called (o : Obj) (idx : Nat) (name : List UInt8) : Prop :=
  o.dyn.strtab ≠ 0 ∧ stName m o idx < o.dyn.strsz ∧ textAt m (o.dyn.strtab + stName m o idx) = name

instance (o : Obj) (idx : Nat) (name : List UInt8) : Decidable (Called m o idx name) :=
  inferInstanceAs (Decidable (_ ∧ _))

def definitionCalled (name : List UInt8) (o : Obj) : Option Nat :=
  (List.range' 1 (o.dyn.symcnt - 1)).findSome? fun si =>
    if Called m o si name then definition m o si else none

def symbolName (o : Obj) (sym : Nat) : Option (List UInt8) :=
  (nameFor m o sym).bind fun p => if textAt m p = [] then none else some (textAt m p)

-- the object's own definition, else the first one of the name in load order
def symbolValue (o : Obj) (sym : Nat) : Option Nat :=
  if sym = 0 then some 0
  else
    (definition m o sym).or
      ((symbolName m o sym).bind fun name => objs.findSome? (definitionCalled m name))

def abiWord (type : Nat) (S A P B : Int) : Option Int :=
  if type = r38632 then some (S + A)
  else if type = r386Pc32 then some (S + A - P)
  else if type = r386GlobDat ∨ type = r386JmpSlot then some S
  else if type = r386Relative then some (B + A)
  else none

def supported : List Nat := [r38632, r386Pc32, r386GlobDat, r386JmpSlot, r386Relative]

def tableOf (o : Obj) (rel count : Nat) : List (Obj × Rel) :=
  if rel = 0 then [] else (List.range count).map fun i => (o, relAt m rel i)

def entries : List (Obj × Rel) :=
  objs.flatMap (fun o => tableOf m o o.dyn.rel o.dyn.relCount) ++
    objs.flatMap fun o => tableOf m o o.dyn.jmprel o.dyn.jmprelCount

def active : List (Obj × Rel) := (entries m objs).filter fun a => a.2.type ≠ r386None

def place (a : Obj × Rel) : Nat := objRtAddr a.1 a.2.offset

def RelByte (o : Obj) (x : Nat) : Prop :=
  (o.dyn.rel ≠ 0 ∧ o.dyn.rel ≤ x ∧ x < o.dyn.rel + relBytes * o.dyn.relCount) ∨
    o.dyn.jmprel ≠ 0 ∧ o.dyn.jmprel ≤ x ∧ x < o.dyn.jmprel + relBytes * o.dyn.jmprelCount

def SymByte (o : Obj) (x : Nat) : Prop :=
  o.dyn.symtab ≠ 0 ∧ o.dyn.symtab ≤ x ∧ x < o.dyn.symtab + symBytes * o.dyn.symcnt

def StrByte (o : Obj) (x : Nat) : Prop :=
  o.dyn.strtab ≠ 0 ∧ ∃ off < o.dyn.strsz, o.dyn.strtab + off ≤ x ∧
    x ≤ o.dyn.strtab + off + (textAt m (o.dyn.strtab + off)).length

-- the places are words apart from each other and from every table
structure PlacesApart : Prop where
  apart : (active m objs).Pairwise (Patches.Apart place)
  clear : ∀ a ∈ active m objs, ∀ k < 4, ∀ o ∈ objs,
    ¬RelByte o (place a + k) ∧ ¬SymByte o (place a + k) ∧ ¬StrByte m o (place a + k)

def Bad (a : Obj × Rel) : Prop :=
  a.2.type ∉ supported ∨ a.2.type ≠ r386Relative ∧ symbolValue m objs a.1 a.2.sym = none

structure Reordered (m' : Mem) : Prop where
  tables : ∀ o ∈ objs, (tableOf m' o o.dyn.rel o.dyn.relCount).Perm (tableOf m o o.dyn.rel o.dyn.relCount) ∧
    (tableOf m' o o.dyn.jmprel o.dyn.jmprelCount).Perm (tableOf m o o.dyn.jmprel o.dyn.jmprelCount)
  names : ∀ o ∈ objs, ∀ x, SymByte o x ∨ StrByte m o x → m' x = m x
  others : ∀ x, (∀ o ∈ objs, ¬RelByte o x) → m' x = m x

structure RelocatesRight : Prop where
  fails : relocateAll m objs = none ↔ ∃ a ∈ active m objs, Bad m objs a
  places : ∀ m', relocateAll m objs = some m' → ∀ a ∈ active m objs, ∃ S v,
    (a.2.type = r386Relative ∨ symbolValue m objs a.1 a.2.sym = some S) ∧
      abiWord a.2.type S (load32 m (place a)) (place a) a.1.loadBias = some v ∧
      (load32 m' (place a) : Int) = v % 2 ^ 32
  others : ∀ m', relocateAll m objs = some m' →
    ∀ x, (∀ a ∈ active m objs, ∀ k < 4, x ≠ place a + k) → m' x = m x
  order : ∀ m₁, Reordered m objs m₁ → (relocateAll m₁ objs = none ↔ relocateAll m objs = none) ∧
    ∀ m' m₁', relocateAll m objs = some m' → relocateAll m₁ objs = some m₁' →
      ∀ x, (∀ o ∈ objs, ¬RelByte o x) → m₁' x = m' x

end Abi

end HouseOS.Ldso
