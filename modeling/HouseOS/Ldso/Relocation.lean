import HouseOS.Ldso.Relocate

namespace HouseOS.Ldso

open HouseOS.ByteMem HouseOS.Patches
open HouseOS.Word

section Tables

variable {m t : Mem} {objs : List Obj} {o : Obj} {idx : Nat}

def SameTables (m : Mem) (objs : List Obj) (t : Mem) : Prop :=
  ∀ o ∈ objs, ∀ x, RelByte o x ∨ SymByte o x ∨ StrByte m o x → t x = m x

theorem SameTables.names (h : SameTables m objs t) (ho : o ∈ objs) :
    ∀ x, SymByte o x ∨ StrByte m o x → t x = m x := fun x hx => h o ho x (.inr hx)

theorem cstring_congr {n p : Nat}
    (h : ∀ x, p ≤ x → x ≤ p + (cstring m n p).length → t x = m x) :
    cstring t n p = cstring m n p := by
  induction n generalizing p with
  | zero => rfl
  | succ n ih =>
    have hhead : t p = m p := h p (Nat.le_refl p) (Nat.le_add_right _ _)
    rw [cstring, cstring, hhead]
    by_cases hz : m p = 0
    · rw [if_pos hz, if_pos hz]
    · rw [if_neg hz, if_neg hz, ih]
      intro x hx hle
      refine h x (by omega) ?_
      rw [cstring, if_neg hz, List.length_cons]
      omega

theorem findSome?_congr {α β : Type} {f g : α → Option β} {l : List α} (h : ∀ a ∈ l, f a = g a) :
    l.findSome? f = l.findSome? g := by
  induction l with
  | nil => rfl
  | cons a l ih =>
    rw [List.findSome?_cons, List.findSome?_cons, h a List.mem_cons_self,
      ih fun b hb => h b (List.mem_cons_of_mem a hb)]

section Names

variable (hsame : ∀ x, SymByte o x ∨ StrByte m o x → t x = m x)

include hsame

theorem symField_same (htab : o.dyn.symtab ≠ 0) (hidx : idx < o.dyn.symcnt) {x : Nat}
    (hx : o.dyn.symtab + symBytes * idx ≤ x) (hlt : x < o.dyn.symtab + symBytes * idx + symBytes) :
    t x = m x := by
  refine hsame x (.inl ⟨htab, by omega, ?_⟩)
  have hle := Nat.mul_le_mul_left symBytes (Nat.succ_le_of_lt hidx)
  rw [Nat.mul_succ] at hle
  omega

theorem stName_same (htab : o.dyn.symtab ≠ 0) (hidx : idx < o.dyn.symcnt) :
    stName t o idx = stName m o idx :=
  load32_congr fun x hx hlt => symField_same hsame htab hidx (by omega) (by
    have hsize : symBytes = 16 := rfl
    omega)

theorem stValue_same (htab : o.dyn.symtab ≠ 0) (hidx : idx < o.dyn.symcnt) :
    stValue t o idx = stValue m o idx :=
  load32_congr fun x hx hlt => symField_same hsame htab hidx (by omega) (by
    have hsize : symBytes = 16 := rfl
    omega)

theorem stShndx_same (htab : o.dyn.symtab ≠ 0) (hidx : idx < o.dyn.symcnt) :
    stShndx t o idx = stShndx m o idx :=
  load16_congr fun x hx hlt => symField_same hsame htab hidx (by omega) (by
    have hsize : symBytes = 16 := rfl
    omega)

theorem textAt_same (htab : o.dyn.strtab ≠ 0) {off : Nat} (hoff : off < o.dyn.strsz) :
    textAt t (o.dyn.strtab + off) = textAt m (o.dyn.strtab + off) :=
  cstring_congr fun x hx hle => hsame x (.inr ⟨htab, off, hoff, hx, hle⟩)

theorem symAddrFromObj_same (idx : Nat) : symAddrFromObj t o idx = symAddrFromObj m o idx := by
  rw [symAddrFromObj, symAddrFromObj]
  by_cases hno : o.dyn.symtab = 0 ∨ o.dyn.symcnt ≤ idx
  · rw [if_pos hno, if_pos hno]
  · obtain ⟨htab, hidx⟩ := not_or.mp hno
    have hidx := Nat.lt_of_not_le hidx
    rw [if_neg hno, if_neg hno, stShndx_same hsame htab hidx, stValue_same hsame htab hidx]

theorem nameFor_same (sym : Nat) : nameFor t o sym = nameFor m o sym := by
  rw [nameFor, nameFor]
  by_cases hno : o.dyn.strtab ≠ 0 ∧ o.dyn.symtab ≠ 0 ∧ sym < o.dyn.symcnt
  · rw [if_pos hno, if_pos hno, stName_same hsame hno.2.1 hno.2.2]
  · rw [if_neg hno, if_neg hno]

theorem resolveInObj_same (name : List UInt8) : resolveInObj t name o = resolveInObj m name o := by
  rw [resolveInObj, resolveInObj]
  by_cases hno : o.dyn.symtab = 0 ∨ o.dyn.strtab = 0
  · rw [if_pos hno, if_pos hno]
  · obtain ⟨htab, hstr⟩ := not_or.mp hno
    rw [if_neg hno, if_neg hno]
    have hsym (si : Nat) (hsi : si ∈ List.range' 1 (o.dyn.symcnt - 1)) :
        resolveSym t o name si = resolveSym m o name si := by
      have hidx : si < o.dyn.symcnt := by
        have := List.mem_range'_1.mp hsi
        omega
      rw [resolveSym, resolveSym, stShndx_same hsame htab hidx, stName_same hsame htab hidx,
        stValue_same hsame htab hidx]
      by_cases hskip : stShndx m o si = 0 ∨ o.dyn.strsz ≤ stName m o si
      · rw [if_pos hskip, if_pos hskip]
      · rw [if_neg hskip, if_neg hskip,
          textAt_same hsame hstr (Nat.lt_of_not_le (not_or.mp hskip).2)]
    exact findSome?_congr hsym

end Names

theorem nameFor_some {sym p : Nat} (h : nameFor m o sym = some p) :
    o.dyn.strtab ≠ 0 ∧ ∃ off < o.dyn.strsz, p = o.dyn.strtab + off := by
  rw [nameFor] at h
  split at h
  · rename_i htab
    split at h
    · rename_i hoff
      cases h
      exact ⟨htab.1, _, hoff, rfl⟩
    · cases h
  · cases h

theorem textAt_nil {p : Nat} : textAt m p = [] ↔ m p = 0 := by
  have hstep : textAt m p = if m p = 0 then [] else m p :: cstring m (2 ^ 32 - 1) (p + 1) := rfl
  rw [hstep]
  by_cases hz : m p = 0
  · rw [if_pos hz]
    exact iff_of_true rfl hz
  · rw [if_neg hz]
    exact iff_of_false (List.cons_ne_nil _ _) hz

variable (h : ∀ o ∈ objs, ∀ x, SymByte o x ∨ StrByte m o x → t x = m x)

include h

theorem symbolFor_same (ho : o ∈ objs) (sym : Nat) :
    symbolFor t objs o sym = symbolFor m objs o sym := by
  have hresolve : resolveGlobalSymbol t objs (nameFor m o sym) =
      resolveGlobalSymbol m objs (nameFor m o sym) := by
    cases hname : nameFor m o sym with
    | none => rfl
    | some p =>
      obtain ⟨htab, off, hoff, rfl⟩ := nameFor_some hname
      have htext := textAt_same (h o ho) htab hoff
      have hzero : t (o.dyn.strtab + off) = 0 ↔ m (o.dyn.strtab + off) = 0 := by
        rw [← textAt_nil, htext, textAt_nil]
      have hfind : objs.findSome? (resolveInObj t (textAt m (o.dyn.strtab + off))) =
          objs.findSome? (resolveInObj m (textAt m (o.dyn.strtab + off))) :=
        findSome?_congr fun o ho => resolveInObj_same (h o ho) _
      simp only [resolveGlobalSymbol, hzero, htext, hfind]
  rw [symbolFor, symbolFor, symAddrFromObj_same (h o ho), nameFor_same (h o ho), hresolve]

end Tables

section Fold

variable {m t t' : Mem} {objs : List Obj} {o : Obj} {a : Obj × Rel}

def valueOf (m : Mem) (objs : List Obj) (a : Obj × Rel) (A : Nat) : Option Nat :=
  (if a.2.type ≠ r386Relative ∧ a.2.sym ≠ 0 then symbolFor m objs a.1 a.2.sym else some 0).bind
    fun S => relocated a.1 a.2.type S A (place a)

def applied (m : Mem) (objs : List Obj) (t : Mem) (a : Obj × Rel) : Option Mem :=
  if a.2.type = r386None then some t else patch place (valueOf m objs) t a

theorem applyRel_eq (h : SameTables m objs t) (ho : o ∈ objs) (e : Rel) :
    applyRel t objs o e = applied m objs t (o, e) := by
  rw [applyRel, applied, patch, valueOf]
  dsimp only
  rw [symbolFor_same (fun o ho => h.names ho) ho]
  by_cases hnone : e.type = r386None
  · rw [if_pos hnone, if_pos hnone]
  · rw [if_neg hnone, if_neg hnone]
    split
    · rw [Option.map_bind]
      rfl
    · rw [Option.map_bind]
      rfl

theorem applied_keeps (hsep : PlacesApart m objs) (ha : a ∈ entries m objs) (h : SameTables m objs t)
    (hstep : applied m objs t a = some t') : SameTables m objs t' := by
  rw [applied] at hstep
  split at hstep
  · cases hstep
    exact h
  · rename_i hactive
    obtain ⟨v, -, rfl⟩ := Option.map_eq_some_iff.mp hstep
    have hmem : a ∈ active m objs := List.mem_filter.mpr ⟨ha, decide_eq_true hactive⟩
    intro o ho x hx
    rw [← h o ho x hx]
    refine store32_ne v ?_
    by_contra hin
    obtain ⟨k, hk, rfl⟩ : ∃ k < 4, x = place a + k := ⟨x - place a, by omega, by omega⟩
    obtain ⟨hrel, hsym, hstr⟩ := hsep.clear a hmem k hk o ho
    rcases hx with hx | hx | hx
    · exact hrel hx
    · exact hsym hx
    · exact hstr hx

def IsTable (o : Obj) (rel count : Nat) : Prop :=
  rel = o.dyn.rel ∧ count = o.dyn.relCount ∨ rel = o.dyn.jmprel ∧ count = o.dyn.jmprelCount

theorem relAt_same (h : SameTables m objs t) (ho : o ∈ objs) {rel count i : Nat}
    (htable : IsTable o rel count) (hrel : rel ≠ 0) (hi : i < count) : relAt t rel i = relAt m rel i := by
  have hsize : relBytes = 8 := rfl
  have hle := Nat.mul_le_mul_left relBytes (Nat.succ_le_of_lt hi)
  rw [Nat.mul_succ] at hle
  have hbyte (x : Nat) (hx : rel + relBytes * i ≤ x) (hlt : x < rel + relBytes * i + 8) :
      t x = m x := by
    refine h o ho x (.inl ?_)
    rcases htable with ⟨rfl, rfl⟩ | ⟨rfl, rfl⟩
    · exact .inl ⟨hrel, by omega, by omega⟩
    · exact .inr ⟨hrel, by omega, by omega⟩
  rw [relAt, relAt, load32_congr fun x hx hlt => hbyte x hx (by omega),
    load32_congr fun x hx hlt => hbyte x (by omega) (by omega)]

theorem applyRelTable_eq (hsep : PlacesApart m objs) (ho : o ∈ objs) {rel count : Nat}
    (htable : IsTable o rel count)
    (hentries : ∀ a ∈ tableOf m o rel count, a ∈ entries m objs) (h : SameTables m objs t) :
    applyRelTable t objs o rel count = (tableOf m o rel count).foldlM (applied m objs) t := by
  rw [applyRelTable, tableOf]
  by_cases hrel : rel = 0
  · rw [if_pos (.inl hrel), if_pos hrel]
    rfl
  have hlist : tableOf m o rel count = (List.range count).map fun i => (o, relAt m rel i) :=
    if_neg hrel
  rw [if_neg hrel, List.foldlM_map]
  by_cases hcount : count = 0
  · rw [if_pos (.inr hcount), hcount]
    rfl
  rw [if_neg (not_or.mpr ⟨hrel, hcount⟩)]
  refine @foldlM_congr _ _ _ _ (SameTables m objs) _ _ (fun i hi t ht => ?_) (fun i hi t t' ht => ?_) h
  · rw [relAt_same ht ho htable hrel (List.mem_range.mp hi)]
    exact applyRel_eq ht ho _
  · refine applied_keeps hsep (hentries _ ?_) ht
    rw [hlist]
    exact List.mem_map_of_mem hi

theorem pass_eq (hsep : PlacesApart m objs) {rel count : Obj → Nat}
    (htable : ∀ o, IsTable o (rel o) (count o))
    (hentries : ∀ o ∈ objs, ∀ a ∈ tableOf m o (rel o) (count o), a ∈ entries m objs)
    (h : SameTables m objs t) :
    objs.foldlM (fun t o => applyRelTable t objs o (rel o) (count o)) t =
      (objs.flatMap fun o => tableOf m o (rel o) (count o)).foldlM (applied m objs) t := by
  rw [foldlM_flatMap]
  refine @foldlM_congr _ _ _ _ (SameTables m objs) _ _
    (fun o ho t ht => applyRelTable_eq hsep ho (htable o) (hentries o ho) ht)
    (fun o ho t t' ht hrun => ?_) h
  exact foldlM_keeps (fun a ha t t' ht => applied_keeps hsep (hentries o ho a ha) ht) ht hrun

theorem relocateAll_eq (hsep : PlacesApart m objs) :
    relocateAll m objs = (active m objs).foldlM (patch place (valueOf m objs)) m := by
  have hfirst (o : Obj) (ho : o ∈ objs) (a : Obj × Rel)
      (ha : a ∈ tableOf m o o.dyn.rel o.dyn.relCount) : a ∈ entries m objs :=
    List.mem_append_left _ (List.mem_flatMap.mpr ⟨o, ho, ha⟩)
  have hsecond (o : Obj) (ho : o ∈ objs) (a : Obj × Rel)
      (ha : a ∈ tableOf m o o.dyn.jmprel o.dyn.jmprelCount) : a ∈ entries m objs :=
    List.mem_append_right _ (List.mem_flatMap.mpr ⟨o, ho, ha⟩)
  have hstart : SameTables m objs m := fun _ _ _ _ => rfl
  have hall : relocateAll m objs = (entries m objs).foldlM (applied m objs) m := by
    rw [relocateAll, entries, List.foldlM_append,
      pass_eq hsep (fun o => .inl ⟨rfl, rfl⟩) hfirst hstart]
    cases hrun : (objs.flatMap fun o => tableOf m o o.dyn.rel o.dyn.relCount).foldlM
        (applied m objs) m with
    | none => rfl
    | some t =>
      have ht : SameTables m objs t := by
        refine foldlM_keeps (fun a ha t t' ht => applied_keeps hsep ?_ ht) hstart hrun
        exact List.mem_append_left _ ha
      exact pass_eq hsep (fun o => .inr ⟨rfl, rfl⟩) hsecond ht
  rw [hall, active, List.foldlM_filter]
  refine congrArg (fun f => (entries m objs).foldlM f m) (funext fun t => funext fun a => ?_)
  rw [applied]
  by_cases hnone : a.2.type = r386None
  · rw [if_pos hnone, if_neg (by simpa using hnone)]
    rfl
  · rw [if_neg hnone, if_pos (by simpa using hnone)]

end Fold

section Symbols

variable {m : Mem} {objs : List Obj} {o : Obj} {sym : Nat}

theorem resolveInObj_eq (name : List UInt8) (o : Obj) :
    resolveInObj m name o = definitionCalled m name o := by
  rw [resolveInObj, definitionCalled]
  by_cases htab : o.dyn.symtab = 0 ∨ o.dyn.strtab = 0
  · rw [if_pos htab]
    symm
    rw [List.findSome?_eq_none_iff]
    intro si _
    rcases htab with htab | htab
    · have hdef : definition m o si = none := if_neg fun h => h.1 htab
      rw [hdef, ite_self]
    · exact if_neg fun h => h.1 htab
  · obtain ⟨hsym, hstr⟩ := not_or.mp htab
    rw [if_neg htab]
    refine findSome?_congr fun si hsi => ?_
    have hlt : si < o.dyn.symcnt := by
      have := List.mem_range'_1.mp hsi
      omega
    simp only [resolveSym, definition, Called]
    grind

theorem resolveGlobalSymbol_eq (m : Mem) (objs : List Obj) (o : Obj) (sym : Nat) :
    resolveGlobalSymbol m objs (nameFor m o sym) =
      ((symbolName m o sym).bind fun name => objs.findSome? (definitionCalled m name)).getD 0 := by
  rw [symbolName]
  cases nameFor m o sym with
  | none => rfl
  | some p =>
    rw [resolveGlobalSymbol, Option.bind_some]
    by_cases hz : m p = 0
    · rw [if_pos hz, if_pos (textAt_nil.mpr hz)]
      rfl
    · rw [if_neg hz, if_neg (mt textAt_nil.mp hz)]
      exact congrArg (Option.getD · 0) (findSome?_congr fun o _ => resolveInObj_eq _ o)

theorem symAddrFromObj_eq (m : Mem) (o : Obj) (sym : Nat) :
    symAddrFromObj m o sym = (definition m o sym).getD 0 := by
  rw [symAddrFromObj, definition]
  split_ifs <;> first | rfl | (exfalso; omega)

-- the linker takes the address 0 for no address
theorem symbolFor_eq (hsym : sym ≠ 0) (h : symbolValue m objs o sym ≠ some 0) :
    symbolFor m objs o sym = symbolValue m objs o sym := by
  rw [symbolValue, if_neg hsym] at h ⊢
  rw [symbolFor, symAddrFromObj_eq, resolveGlobalSymbol_eq]
  cases hown : definition m o sym with
  | some S =>
    rw [hown] at h
    have hS : S ≠ 0 := fun hz => h (hz ▸ rfl)
    rw [Option.getD_some, if_pos hS]
    rfl
  | none =>
    rw [hown, Option.none_or] at h
    rw [Option.getD_none, if_neg (not_not.mpr rfl), Option.none_or]
    cases hfound : (symbolName m o sym).bind fun name => objs.findSome? (definitionCalled m name) with
    | none => rfl
    | some S =>
      rw [hfound] at h
      exact if_neg fun hz => h (congrArg some hz)

theorem symbolFor_ne_zero : symbolFor m objs o sym ≠ some 0 := by
  rw [symbolFor]
  dsimp only
  split_ifs with hown hfound
  · exact fun h => hown (Option.some.inj h)
  · exact nofun
  · exact fun h => hfound (Option.some.inj h)

theorem objRtAddr_lt {v : Nat} (h : v < 2 ^ 32) : objRtAddr o v < 2 ^ 32 := by
  rw [objRtAddr]
  split
  · exact h
  · exact Nat.mod_lt _ (by decide)

theorem definition_lt {S : Nat} (h : definition m o sym = some S) : S < 2 ^ 32 := by
  rw [definition] at h
  split at h
  · cases h
    exact objRtAddr_lt (load32_lt _ _)
  · cases h

theorem symbolFor_lt {S : Nat} (h : symbolFor m objs o sym = some S) : S < 2 ^ 32 := by
  rw [symbolFor, symAddrFromObj_eq, resolveGlobalSymbol_eq] at h
  dsimp only at h
  split_ifs at h with hown hfound
  · cases hdef : definition m o sym with
    | none =>
      rw [hdef] at hown
      exact (hown rfl).elim
    | some T =>
      rw [hdef] at h
      cases h
      exact definition_lt hdef
  · cases hfind : (symbolName m o sym).bind fun name => objs.findSome? (definitionCalled m name) with
    | none =>
      rw [hfind] at hfound
      exact (hfound rfl).elim
    | some T =>
      rw [hfind] at h
      cases h
      obtain ⟨name, -, hobj⟩ := Option.bind_eq_some_iff.mp hfind
      obtain ⟨p, -, hp⟩ := List.exists_of_findSome?_eq_some hobj
      obtain ⟨si, -, hsi⟩ := List.exists_of_findSome?_eq_some hp
      split at hsi
      · exact definition_lt hsi
      · cases hsi

theorem relocated_isSome {type S A P : Nat} :
    (relocated o type S A P).isSome ↔ type ∈ supported := by
  simp only [relocated, supported, List.mem_cons, List.not_mem_nil, or_false]
  split_ifs with h1 h2 h3 h4
  · exact iff_of_true rfl (.inl h1)
  · exact iff_of_true rfl (.inr (.inl h2))
  · exact iff_of_true rfl (by tauto)
  · exact iff_of_true rfl (by tauto)
  · exact iff_of_false (nomatch ·) (by tauto)

theorem relocated_abi {type S A P w : Nat} (hP : P < 2 ^ 32) (h : relocated o type S A P = some w) :
    ∃ v, abiWord type S A P o.loadBias = some v ∧ ((w % 2 ^ 32 : Nat) : Int) = v % 2 ^ 32 := by
  rw [relocated] at h
  simp only [abiWord]
  split_ifs at h ⊢ with h1 h2 h3 h4
  · cases h
    refine ⟨_, rfl, ?_⟩
    simp only [add32]
    omega
  · cases h
    refine ⟨_, rfl, ?_⟩
    simp only [add32, sub32]
    omega
  · cases h
    exact ⟨_, rfl, Int.natCast_mod _ _⟩
  · cases h
    refine ⟨_, rfl, ?_⟩
    simp only [add32]
    omega

end Symbols

section Result

variable {m m' t : Mem} {objs : List Obj} {a : Obj × Rel}

theorem active_entry (ha : a ∈ active m objs) :
    a.1 ∈ objs ∧ ∃ rel i, a.2 = relAt m rel i := by
  have htable {o : Obj} {rel count : Nat} (ho : o ∈ objs) (h : a ∈ tableOf m o rel count) :
      a.1 ∈ objs ∧ ∃ rel i, a.2 = relAt m rel i := by
    rw [tableOf] at h
    split at h
    · exact (List.not_mem_nil h).elim
    · obtain ⟨i, -, rfl⟩ := List.mem_map.mp h
      exact ⟨ho, rel, i, rfl⟩
  rcases List.mem_append.mp (List.mem_filter.mp ha).1 with h | h
  · obtain ⟨o, ho, h⟩ := List.mem_flatMap.mp h
    exact htable ho h
  · obtain ⟨o, ho, h⟩ := List.mem_flatMap.mp h
    exact htable ho h

theorem place_lt (ha : a ∈ active m objs) : place a < 2 ^ 32 := by
  obtain ⟨-, rel, i, hrel⟩ := active_entry ha
  refine objRtAddr_lt ?_
  rw [hrel]
  exact load32_lt _ _

theorem valueOf_bad (hbad : Bad m objs a) (A : Nat) : valueOf m objs a A = none := by
  rw [valueOf, Option.bind_eq_none_iff]
  intro S hS
  rcases hbad with htype | ⟨hrelative, hnone⟩
  · rw [← Option.not_isSome_iff_eq_none, relocated_isSome]
    exact htype
  · have hsym : a.2.sym ≠ 0 := by
      intro hz
      rw [symbolValue, if_pos hz] at hnone
      cases hnone
    rw [if_pos ⟨hrelative, hsym⟩, symbolFor_eq hsym (by rw [hnone]; exact nofun), hnone] at hS
    cases hS

def Nonzero (m : Mem) (objs : List Obj) (a : Obj × Rel) : Prop :=
  a.2.type ≠ r386Relative → a.2.sym ≠ 0 → symbolValue m objs a.1 a.2.sym ≠ some 0

theorem valueOf_good (hnz : Nonzero m objs a) (hbad : ¬Bad m objs a) (A : Nat) :
    ∃ S w, (a.2.type = r386Relative ∨ symbolValue m objs a.1 a.2.sym = some S) ∧
      relocated a.1 a.2.type S A (place a) = some w ∧ valueOf m objs a A = some w := by
  obtain ⟨htype, hsymbol⟩ := not_or.mp hbad
  have htype := not_not.mp htype
  have hword (S : Nat) : ∃ w, relocated a.1 a.2.type S A (place a) = some w :=
    Option.isSome_iff_exists.mp (relocated_isSome.mpr htype)
  rw [valueOf]
  by_cases hrelative : a.2.type = r386Relative
  · obtain ⟨w, hw⟩ := hword 0
    refine ⟨0, w, .inl hrelative, hw, ?_⟩
    rw [if_neg fun h => h.1 hrelative, Option.bind_some, hw]
  · obtain ⟨S, hS⟩ := Option.ne_none_iff_exists'.mp fun hnone => hsymbol ⟨hrelative, hnone⟩
    obtain ⟨w, hw⟩ := hword S
    refine ⟨S, w, .inr hS, hw, ?_⟩
    by_cases hsym : a.2.sym = 0
    · rw [symbolValue, if_pos hsym] at hS
      cases hS
      rw [if_neg fun h => h.2 hsym, Option.bind_some, hw]
    · rw [if_pos ⟨hrelative, hsym⟩, symbolFor_eq hsym (hnz hrelative hsym), hS, Option.bind_some, hw]

theorem abi_inj {o : Obj} {type S S' A P w : Nat} {v : Int} (hP : P < 2 ^ 32)
    (hrelative : type ≠ r386Relative) (h : relocated o type S A P = some w)
    (habi : abiWord type S' A P o.loadBias = some v) (hsame : ((w % 2 ^ 32 : Nat) : Int) = v % 2 ^ 32) :
    S % 2 ^ 32 = S' % 2 ^ 32 := by
  obtain ⟨v', habi', hw⟩ := relocated_abi hP h
  rw [hw] at hsame
  simp only [abiWord] at habi habi'
  split_ifs at habi habi' with h1 h2 h3
  all_goals
    cases habi
    cases habi'
    omega

theorem relocate_fails_iff (hsep : PlacesApart m objs) :
    relocateAll m objs = none ↔ ∃ a ∈ active m objs, valueOf m objs a (load32 m (place a)) = none := by
  rw [relocateAll_eq hsep, ← Option.not_isSome_iff_eq_none, patches_isSome_iff hsep.apart]
  push Not
  simp only [Bool.not_eq_true, Option.isSome_eq_false_iff, Option.isNone_iff_eq_none]

theorem relocate_patched (hsep : PlacesApart m objs) (h : relocateAll m objs = some m') :
    Patched place (valueOf m objs) m (active m objs) m' :=
  patched_of_patches hsep.apart ((relocateAll_eq hsep).symm.trans h)

section Order

variable {m₁ : Mem} (hreordered : Reordered m objs m₁)

include hreordered

theorem Reordered.active : (active m₁ objs).Perm (active m objs) := by
  refine List.Perm.filter _ (List.Perm.append ?_ ?_)
  · exact List.Perm.flatMap_left _ fun o ho => (hreordered.tables o ho).1
  · exact List.Perm.flatMap_left _ fun o ho => (hreordered.tables o ho).2

theorem Reordered.strByte {o : Obj} (ho : o ∈ objs) (x : Nat) : StrByte m₁ o x ↔ StrByte m o x := by
  refine and_congr_right fun htab => exists_congr fun off => and_congr_right fun hoff => ?_
  rw [textAt_same (hreordered.names o ho) htab hoff]

theorem Reordered.separate (hsep : PlacesApart m objs) : PlacesApart m₁ objs := by
  refine ⟨apart_perm hreordered.active hsep.apart, fun a ha k hk o ho => ?_⟩
  obtain ⟨hrel, hsym, hstr⟩ := hsep.clear a (hreordered.active.mem_iff.mp ha) k hk o ho
  exact ⟨hrel, hsym, fun h => hstr ((hreordered.strByte ho _).mp h)⟩

theorem Reordered.valueOf (hsep : PlacesApart m objs) (ha : a ∈ Ldso.active m objs) :
    Ldso.valueOf m₁ objs a (load32 m₁ (place a)) = Ldso.valueOf m objs a (load32 m (place a)) := by
  have hword : load32 m₁ (place a) = load32 m (place a) := by
    refine load32_congr fun x hx hlt => hreordered.others x fun o ho => ?_
    obtain ⟨k, rfl⟩ : ∃ k, x = place a + k := ⟨x - place a, by omega⟩
    exact (hsep.clear a ha k (by omega) o ho).1
  rw [Ldso.valueOf, Ldso.valueOf, hword, symbolFor_same hreordered.names (active_entry ha).1]

theorem Reordered.fails (hsep : PlacesApart m objs) :
    relocateAll m₁ objs = none ↔ relocateAll m objs = none := by
  rw [relocate_fails_iff hsep, relocate_fails_iff (hreordered.separate hsep)]
  refine exists_congr fun a => ?_
  rw [hreordered.active.mem_iff]
  refine and_congr_right fun ha => ?_
  rw [hreordered.valueOf hsep ha]

theorem Reordered.result (hsep : PlacesApart m objs) {m₁' : Mem} (h : relocateAll m objs = some m')
    (h₁ : relocateAll m₁ objs = some m₁') (x : Nat) (hx : ∀ o ∈ objs, ¬RelByte o x) : m₁' x = m' x := by
  have hp := relocate_patched hsep h
  have hp₁ := relocate_patched (hreordered.separate hsep) h₁
  by_cases hin : ∃ a ∈ Ldso.active m objs, ∃ k < 4, x = place a + k
  · obtain ⟨a, ha, k, hk, rfl⟩ := hin
    obtain ⟨v, hv, hbytes⟩ := hp.words a ha
    obtain ⟨v₁, hv₁, hbytes₁⟩ := hp₁.words a (hreordered.active.mem_iff.mpr ha)
    rw [hreordered.valueOf hsep ha, hv] at hv₁
    cases hv₁
    rw [hbytes k hk, hbytes₁ k hk]
  · push Not at hin
    rw [hp.others x hin, hp₁.others x fun a ha => hin a (hreordered.active.mem_iff.mp ha)]
    exact hreordered.others x hx

end Order

theorem relocates_of_nonzero (hsep : PlacesApart m objs)
    (hnz : (∃ a ∈ active m objs, Bad m objs a) ∨ ∀ a ∈ active m objs, Nonzero m objs a) :
    RelocatesRight m objs := by
  have hfails : relocateAll m objs = none ↔ ∃ a ∈ active m objs, Bad m objs a := by
    rw [relocate_fails_iff hsep]
    constructor
    · rintro ⟨a, ha, hnone⟩
      rcases hnz with hbad | hnz
      · exact hbad
      · refine ⟨a, ha, ?_⟩
        by_contra hgood
        obtain ⟨S, w, -, -, hsome⟩ := valueOf_good (hnz a ha) hgood (load32 m (place a))
        rw [hnone] at hsome
        cases hsome
    · rintro ⟨a, ha, hbad⟩
      exact ⟨a, ha, valueOf_bad hbad _⟩
  refine ⟨hfails, fun m' h a ha => ?_, fun m' h => (relocate_patched hsep h).others, fun m₁ h₁ =>
    ⟨h₁.fails hsep, fun m' m₁' h h' => h₁.result hsep h h'⟩⟩
  have hgood : ∀ a ∈ active m objs, ¬Bad m objs a := by
    intro a ha hbad
    rw [hfails.mpr ⟨a, ha, hbad⟩] at h
    cases h
  have hnz := hnz.resolve_left fun ⟨a, ha, hbad⟩ => hgood a ha hbad
  obtain ⟨S, w, hS, hw, hvalue⟩ := valueOf_good (hnz a ha) (hgood a ha) (load32 m (place a))
  obtain ⟨v, habi, hword⟩ := relocated_abi (place_lt ha) hw
  obtain ⟨w', hw', hbytes⟩ := (relocate_patched hsep h).words a ha
  rw [hvalue] at hw'
  cases hw'
  refine ⟨S, v, hS, habi, ?_⟩
  rw [load32_bytes hbytes]
  exact hword

theorem not_relocates_of_zero (hsep : PlacesApart m objs) (hgood : ∀ a ∈ active m objs, ¬Bad m objs a)
    (ha : a ∈ active m objs) (hzero : ¬Nonzero m objs a) : ¬RelocatesRight m objs := by
  intro hright
  unfold Nonzero at hzero
  push Not at hzero
  obtain ⟨hrelative, hsym, hvalue⟩ := hzero
  cases hrun : relocateAll m objs with
  | none =>
    obtain ⟨b, hb, hbad⟩ := hright.fails.mp hrun
    exact hgood b hb hbad
  | some m' =>
    obtain ⟨w, hw, hbytes⟩ := (relocate_patched hsep hrun).words a ha
    obtain ⟨S, v, hS, habi, hword⟩ := hright.places m' hrun a ha
    have hS := hS.resolve_left hrelative
    rw [hvalue] at hS
    cases hS
    rw [valueOf, if_pos ⟨hrelative, hsym⟩] at hw
    obtain ⟨S, hfound, hw⟩ := Option.bind_eq_some_iff.mp hw
    rw [load32_bytes hbytes] at hword
    have hmod := abi_inj (place_lt ha) hrelative hw habi hword
    rw [Nat.mod_eq_of_lt (symbolFor_lt hfound), Nat.zero_mod] at hmod
    rw [hmod] at hfound
    exact symbolFor_ne_zero hfound

theorem relocation_exact_iff (hsep : PlacesApart m objs) :
    RelocatesRight m objs ↔
      (∃ a ∈ active m objs, Bad m objs a) ∨ ∀ a ∈ active m objs, Nonzero m objs a := by
  refine ⟨fun hright => ?_, relocates_of_nonzero hsep⟩
  by_contra hcond
  push Not at hcond
  obtain ⟨hgood, a, ha, hzero⟩ := hcond
  exact not_relocates_of_zero hsep hgood ha hzero hright

end Result

section TwoObjects

-- from 0x1000 on: symbols, strings and entries of the program, then those of the library
def crossWords : List Nat :=
  [0, 0, 0, 0, 1, 0, 0, 0x12, 0x6600, 0, 0, 0, 0x2000, 0x101, 0x2004, 0x102,
   0, 0, 0, 0, 1, 0x10, 0, 0x10012, 0x6600, 0, 0, 0, 0x40, 8, 0x44, 0x107]

def crossMem : Mem := fun x =>
  if 0x1000 ≤ x then byte (crossWords.getD ((x - 0x1000) / 4) 0) ((x - 0x1000) % 4) else 0

-- the program calls `f`, which the library defines
def crossProgram : Obj :=
  { isMain := true, path := [], soname := [], loadBias := 0, minVaddr := 0x1000, maxVaddr := 0x3000,
    dyn := { noDyn with
      symtab := 0x1000, strtab := 0x1020, strsz := 3, symcnt := 2, rel := 0x1030, relCount := 2 } }

def crossLibrary : Obj :=
  { isMain := false, path := [], soname := [], loadBias := userLibStart, minVaddr := 0, maxVaddr := 0x100,
    dyn := { noDyn with
      symtab := 0x1040, strtab := 0x1060, strsz := 3, symcnt := 2, rel := 0x1070, relCount := 1,
      jmprel := 0x1078, jmprelCount := 1 } }

def crossObjects : List Obj := [crossProgram, crossLibrary]

def crossEntries : List (Obj × Rel) :=
  [(crossProgram, ⟨0x2000, 0x101⟩), (crossProgram, ⟨0x2004, 0x102⟩), (crossLibrary, ⟨0x40, 8⟩),
   (crossLibrary, ⟨0x44, 0x107⟩)]

theorem active_cross : active crossMem crossObjects = crossEntries := by
  have h0 : relAt crossMem 0x1030 0 = ⟨0x2000, 0x101⟩ := by decide
  have h1 : relAt crossMem 0x1030 1 = ⟨0x2004, 0x102⟩ := by decide
  have h2 : relAt crossMem 0x1070 0 = ⟨0x40, 8⟩ := by decide
  have h3 : relAt crossMem 0x1078 0 = ⟨0x44, 0x107⟩ := by decide
  have hentries : entries crossMem crossObjects =
      [(crossProgram, relAt crossMem 0x1030 0), (crossProgram, relAt crossMem 0x1030 1),
       (crossLibrary, relAt crossMem 0x1070 0), (crossLibrary, relAt crossMem 0x1078 0)] := rfl
  rw [active, hentries, h0, h1, h2, h3]
  rfl

theorem crossTables_below {o : Obj} (ho : o ∈ crossObjects) {x : Nat} (hx : 0x2000 ≤ x) :
    ¬RelByte o x ∧ ¬SymByte o x ∧ ¬StrByte crossMem o x := by
  have htexts : ∀ off < 3, (textAt crossMem (0x1020 + off)).length ≤ 1 ∧
      (textAt crossMem (0x1060 + off)).length ≤ 1 := by
    decide +kernel
  have hprogram : o = crossProgram ∨ o = crossLibrary := by simpa [crossObjects] using ho
  rcases hprogram with rfl | rfl
  · refine ⟨?_, ?_, ?_⟩
    · rintro (⟨-, -, h⟩ | ⟨h, -⟩)
      · simp only [crossProgram, relBytes] at h
        omega
      · exact h rfl
    · rintro ⟨-, -, h⟩
      simp only [crossProgram, symBytes] at h
      omega
    · rintro ⟨-, off, hoff, -, h⟩
      have hlen := (htexts off hoff).1
      simp only [crossProgram] at h hoff
      omega
  · refine ⟨?_, ?_, ?_⟩
    · rintro (⟨-, -, h⟩ | ⟨-, -, h⟩)
      · simp only [crossLibrary, relBytes] at h
        omega
      · simp only [crossLibrary, relBytes] at h
        omega
    · rintro ⟨-, -, h⟩
      simp only [crossLibrary, symBytes] at h
      omega
    · rintro ⟨-, off, hoff, -, h⟩
      have hlen := (htexts off hoff).2
      simp only [crossLibrary] at h hoff
      omega

theorem apart_cross : PlacesApart crossMem crossObjects := by
  refine ⟨?_, fun a ha k hk o ho => crossTables_below ho ?_⟩
  · have hwords : crossEntries.Pairwise fun a b => place a + 4 ≤ place b ∨ place b + 4 ≤ place a := by decide
    rw [active_cross]
    exact hwords
  · rw [active_cross] at ha
    have hplaces : ∀ a ∈ crossEntries, 0x2000 ≤ place a := by decide
    have hplace := hplaces a ha
    omega

-- an entry of each kind but one: the absolute address, the distance, the base and the jump slot
theorem relocation_exact_cross : RelocatesRight crossMem crossObjects ∧
    (relocateAll crossMem crossObjects).map (fun m => (load32 m 0x2000, load32 m 0x2004, load32 m 0x6c0040,
      load32 m 0x6c0044)) = some (0x6c0010, 0x6be00c, 0x6c0000, 0x6c0010) := by
  refine ⟨(relocation_exact_iff apart_cross).mpr (.inr ?_), by decide +kernel⟩
  rw [active_cross]
  have hnonzero : ∀ a ∈ crossEntries, symbolValue crossMem crossObjects a.1 a.2.sym ≠ some 0 ∨ a.2.sym = 0 := by
    decide +kernel
  exact fun a ha _ hsym => (hnonzero a ha).resolve_right hsym

end TwoObjects

def probeDyn : Dyn := { noDyn with symtab := 0x1000, symcnt := 2, rel := 0x3000, relCount := 1 }

def probeLibrary : Obj :=
  { isMain := false, path := [], soname := [], loadBias := userLibStart, minVaddr := 0,
    maxVaddr := 0x100, dyn := probeDyn }

def probeMem (value : Nat) : Mem :=
  store32 (store32 (store32 (store16 (fun _ => 0) 0x101e 1) 0x1014 value) 0x3000 0x40) 0x3004 0x101

theorem relAt_probe (value : Nat) : relAt (probeMem value) 0x3000 0 = ⟨0x40, 0x101⟩ := by
  have hoffset : load32 (probeMem value) 0x3000 = 0x40 := by
    rw [probeMem, load32_store32_ne _ (by decide)]
    exact load32_store32_same _ _ _
  have hinfo : load32 (probeMem value) 0x3004 = 0x101 := load32_store32_same _ _ _
  exact congrArg₂ Rel.mk hoffset hinfo

theorem active_probe (value : Nat) :
    active (probeMem value) [probeLibrary] = [(probeLibrary, ⟨0x40, 0x101⟩)] := by
  have hentries : entries (probeMem value) [probeLibrary] =
      [(probeLibrary, relAt (probeMem value) 0x3000 0)] := rfl
  rw [active, hentries, relAt_probe]
  rfl

theorem apart_probe (value : Nat) : PlacesApart (probeMem value) [probeLibrary] := by
  refine ⟨?_, fun a ha k hk o ho => ?_⟩
  · rw [active_probe]
    exact List.pairwise_singleton _ _
  · rw [active_probe] at ha
    cases List.mem_singleton.mp ha
    cases List.mem_singleton.mp ho
    have hplace : place (probeLibrary, ⟨0x40, 0x101⟩) = 0x6c0040 := rfl
    rw [hplace]
    refine ⟨?_, ?_, fun h => h.1 rfl⟩
    · rintro (⟨-, -, h⟩ | ⟨h, -⟩)
      · simp only [probeLibrary, probeDyn, relBytes] at h
        omega
      · exact h rfl
    · rintro ⟨-, -, h⟩
      simp only [probeLibrary, probeDyn, symBytes] at h
      omega

theorem symbolValue_probe {value : Nat} (hlt : value < 2 ^ 32) (hne : value ≠ 0) :
    symbolValue (probeMem value) [probeLibrary] probeLibrary 1 = some (add32 userLibStart value) := by
  have hvalue : stValue (probeMem value) probeLibrary 1 = value := by
    have hat : probeLibrary.dyn.symtab + symBytes * 1 + 4 = 0x1014 := rfl
    rw [stValue, hat, probeMem, load32_store32_ne _ (by decide), load32_store32_ne _ (by decide),
      load32_store32_same, Nat.mod_eq_of_lt hlt]
  have hshndx : stShndx (probeMem value) probeLibrary 1 = 1 := rfl
  have hdef : definition (probeMem value) probeLibrary 1 = some (add32 userLibStart value) := by
    rw [definition, hvalue, hshndx, if_pos ⟨by decide, by decide, by decide, hne⟩]
    rfl
  rw [symbolValue, if_neg Nat.one_ne_zero, hdef, Option.some_or]

theorem relocation_wraps :
    ¬∀ (m : Mem) (objs : List Obj), PlacesApart m objs → RelocatesRight m objs := by
  intro hright
  have hvalue : symbolValue (probeMem 0xff940000) [probeLibrary] probeLibrary 1 = some 0 :=
    symbolValue_probe (by decide) (by decide)
  have hentry : (probeLibrary, (⟨0x40, 0x101⟩ : Rel)) ∈ active (probeMem 0xff940000) [probeLibrary] := by
    rw [active_probe]
    exact List.mem_singleton_self _
  refine not_relocates_of_zero (apart_probe 0xff940000) (fun a ha hbad => ?_) hentry
    (fun hnz => hnz (by decide) (by decide) hvalue) (hright _ _ (apart_probe 0xff940000))
  rw [active_probe] at ha
  cases List.mem_singleton.mp ha
  rcases hbad with htype | ⟨-, hnone⟩
  · exact htype (by decide)
  · exact nomatch hvalue.symm.trans hnone

end HouseOS.Ldso
