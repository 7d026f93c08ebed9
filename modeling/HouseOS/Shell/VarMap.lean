import HouseOS.Shell.Vars

namespace HouseOS.Shell

open HouseOS.Run (Along)
open HouseOS.Words (byteText)

inductive Op where
  | set (name value : Text)
  | unset (name : Text)
  | get (name : Text)
  | expand (cmd : Text)

inductive Answer where
  | done (ok : Bool)
  | value (v : Option Text)
  | expansion (text rest : Text)

def Env.step (s : Env) : Op → Answer × Env
  | .set name value => (.done (s.setVar name value).1, (s.setVar name value).2)
  | .unset name => (.done (s.unsetVar name).1, (s.unsetVar name).2)
  | .get name => (.value (s.getVar name), s)
  | .expand cmd => (.expansion (s.expand cmd).1 (s.expand cmd).2, s)

abbrev VarMap : Type := Text → Option Text

namespace VarMap

variable (m : VarMap)

def after : Op → Answer → VarMap
  | .set name value, .done true => Function.update m name (some value)
  | .unset name, .done true => Function.update m name none
  | _, _ => m

def startsName (cmd : Text) : Bool := (cmd.head?.map isNameStart).getD false

def expand (cmd : Text) : Text × Text :=
  if startsName cmd then ((m (cmd.takeWhile isNameChar)).getD [], cmd.dropWhile isNameChar)
  else ([36], cmd)

def Answers : Op → Answer → Prop
  | .get name, .value v => v = m name
  | .expand cmd, .expansion text rest => (text, rest) = m.expand cmd
  | _, _ => True

end VarMap

def KeepsMap : Env → VarMap → List Op → Prop
  | s, m, [] => s.getVar = m
  | s, m, o :: os =>
      s.getVar = m ∧ m.Answers o (s.step o).1 ∧ KeepsMap (s.step o).2 (m.after o (s.step o).1) os

def Op.Short : Op → Prop
  | .set _ value => value.length ≤ maxVarValue - 1
  | _ => True

instance : ∀ o : Op, Decidable o.Short
  | .set _ _ => inferInstanceAs (Decidable (_ ≤ _))
  | .unset _ => isTrue trivial
  | .get _ => isTrue trivial
  | .expand _ => isTrue trivial

def Op.Fits (s : Env) : Op → Prop
  | .set name value =>
      accepted name = true →
        (name = byteText "PATH" ∨ name = byteText "PWD" → value.length < pathSize) ∧
          (name ≠ byteText "PATH" → name ≠ byteText "PWD" →
            s.findVar name ≠ none ∨ s.varCount < maxVars →
              name.length < maxVarName ∧ (name = byteText "TTY" → value = s.ttyName))
  | .expand cmd => VarMap.startsName cmd = true → (cmd.takeWhile isNameChar).length < maxVarName
  | _ => True

instance (s : Env) : ∀ o : Op, Decidable (o.Fits s)
  | .set name _ => inferInstanceAs (Decidable (accepted name = true → _))
  | .unset _ => isTrue trivial
  | .get _ => isTrue trivial
  | .expand _ => inferInstanceAs (Decidable (_ → _))

section Table

variable {s : Env} {name k v : Text} {i : Nat}

structure Sound (s : Env) : Prop where
  distinct : ∀ i j, i < s.varCount → j < s.varCount → s.varName i = s.varName j → i = j
  short : ∀ i, i < s.varCount → (s.varName i).length < maxVarName

def Entry (s : Env) (name value : Text) : Prop :=
  ∃ i, i < s.varCount ∧ s.varName i = name ∧ s.varVal i = value

def Env.lookup (s : Env) (name : Text) : Option Text := (s.findVar name).map s.varVal

theorem findVar_some (h : s.findVar name = some i) : i < s.varCount ∧ s.varName i = name := by
  have hname := List.find?_some h
  exact ⟨List.mem_range.mp (List.mem_of_find?_eq_some h), of_decide_eq_true hname⟩

theorem findVar_none (h : s.findVar name = none) (i : Nat) (hi : i < s.varCount) :
    s.varName i ≠ name := by
  have hall := List.find?_eq_none.mp h i (List.mem_range.mpr hi)
  simpa using hall

theorem findVar_eq (hs : Sound s) (hi : i < s.varCount) (hname : s.varName i = name) :
    s.findVar name = some i := by
  cases hfind : s.findVar name with
  | none => exact absurd hname (findVar_none hfind i hi)
  | some j =>
    obtain ⟨hj, hjname⟩ := findVar_some hfind
    rw [hs.distinct j i hj hi (hjname.trans hname.symm)]

theorem lookup_iff (hs : Sound s) : s.lookup name = some v ↔ Entry s name v := by
  rw [Env.lookup, Option.map_eq_some_iff]
  constructor
  · rintro ⟨i, hfind, rfl⟩
    obtain ⟨hi, hname⟩ := findVar_some hfind
    exact ⟨i, hi, hname, rfl⟩
  · rintro ⟨i, hi, hname, rfl⟩
    exact ⟨i, findVar_eq hs hi hname, rfl⟩

theorem lookup_update {s' : Env} (hs : Sound s) (hs' : Sound s') {o : Option Text}
    (h : ∀ k v, Entry s' k v ↔ (k = name ∧ o = some v) ∨ (k ≠ name ∧ Entry s k v)) :
    s'.lookup = Function.update s.lookup name o := by
  funext k
  refine Option.ext fun v => ?_
  rw [lookup_iff hs', h, Function.update_apply]
  split
  next heq => simp [heq]
  next hne => simp [hne, lookup_iff hs]

theorem shiftDown_apply (a : Nat → Text) (i n k : Nat) :
    shiftDown a i n k = if i ≤ k ∧ k < i + n then a (k + 1) else a k := by
  induction n generalizing a i with
  | zero => rw [shiftDown, List.range'_zero, List.foldl_nil, if_neg (by omega)]
  | succ n ih =>
    have hstep : shiftDown a i (n + 1) = shiftDown (Function.update a i (a (i + 1))) (i + 1) n := by
      rw [shiftDown, List.range'_succ, List.foldl_cons, Nat.add_sub_cancel, shiftDown]
    rw [hstep, ih]
    by_cases hk : k = i
    · rw [hk, if_neg (by omega), if_pos ⟨Nat.le_refl _, by omega⟩, Function.update_self]
    · by_cases hin : i + 1 ≤ k ∧ k < i + 1 + n
      · rw [if_pos hin, if_pos (by omega), Function.update_of_ne (by omega)]
      · rw [if_neg hin, if_neg (by omega), Function.update_of_ne hk]

def Env.putVal (s : Env) (i : Nat) (v : Text) : Env :=
  { s with varVal := Function.update s.varVal i v }

theorem lookup_putVal (hs : Sound s) (hi : i < s.varCount) (hname : s.varName i = name) :
    (s.putVal i v).lookup = Function.update s.lookup name (some v) := by
  have hs' : Sound (s.putVal i v) := ⟨hs.distinct, hs.short⟩
  have hval : (s.putVal i v).varVal = Function.update s.varVal i v := rfl
  refine lookup_update hs hs' fun k w => ?_
  constructor
  · rintro ⟨j, hj, rfl, rfl⟩
    have hj : j < s.varCount := hj
    show (s.varName j = name ∧ _) ∨ (s.varName j ≠ name ∧ _)
    by_cases hji : j = i
    · refine Or.inl ⟨hji ▸ hname, ?_⟩
      rw [hji, hval, Function.update_self]
    · refine Or.inr ⟨fun heq => hji (hs.distinct j i hj hi (heq.trans hname.symm)), j, hj, rfl, ?_⟩
      rw [hval, Function.update_of_ne hji]
  · rintro (⟨rfl, heq⟩ | ⟨hne, j, hj, rfl, rfl⟩)
    · obtain rfl := Option.some.inj heq
      exact ⟨i, hi, hname, Function.update_self _ _ _⟩
    · have hji : j ≠ i := fun heq => hne (heq ▸ hname)
      exact ⟨j, hj, rfl, Function.update_of_ne hji _ _⟩

def Env.addVar (s : Env) (name v : Text) : Env :=
  { s with
    varName := Function.update s.varName s.varCount name
    varVal := Function.update s.varVal s.varCount v
    varCount := s.varCount + 1 }

theorem addVar_old (hi : i < s.varCount) : (s.addVar name v).varName i = s.varName i ∧
    (s.addVar name v).varVal i = s.varVal i :=
  have hne : i ≠ s.varCount := Nat.ne_of_lt hi
  ⟨Function.update_of_ne hne _ _, Function.update_of_ne hne _ _⟩

theorem addVar_new : (s.addVar name v).varName s.varCount = name ∧
    (s.addVar name v).varVal s.varCount = v :=
  ⟨Function.update_self _ _ _, Function.update_self _ _ _⟩

theorem sound_addVar (hs : Sound s) (hnew : s.findVar name = none) (hlen : name.length < maxVarName) :
    Sound (s.addVar name v) := by
  have hcases (i : Nat) (hi : i < (s.addVar name v).varCount) : i < s.varCount ∨ i = s.varCount := by
    have hi : i < s.varCount + 1 := hi
    omega
  refine ⟨fun i j hi hj heq => ?_, fun i hi => ?_⟩
  · rcases hcases i hi with hi | rfl <;> rcases hcases j hj with hj | rfl
    · rw [(addVar_old hi).1, (addVar_old hj).1] at heq
      exact hs.distinct i j hi hj heq
    · rw [(addVar_old hi).1, addVar_new.1] at heq
      exact absurd heq (findVar_none hnew i hi)
    · rw [(addVar_old hj).1, addVar_new.1] at heq
      exact absurd heq.symm (findVar_none hnew j hj)
    · rfl
  · rcases hcases i hi with hi | rfl
    · rw [(addVar_old hi).1]
      exact hs.short i hi
    · rw [addVar_new.1]
      exact hlen

theorem lookup_addVar (hs : Sound s) (hnew : s.findVar name = none)
    (hlen : name.length < maxVarName) :
    (s.addVar name v).lookup = Function.update s.lookup name (some v) := by
  refine lookup_update hs (sound_addVar hs hnew hlen) fun k w => ?_
  constructor
  · rintro ⟨i, hi, rfl, rfl⟩
    have hi : i < s.varCount + 1 := hi
    by_cases hin : i < s.varCount
    · rw [(addVar_old hin).1, (addVar_old hin).2]
      exact Or.inr ⟨findVar_none hnew i hin, i, hin, rfl, rfl⟩
    · obtain rfl : i = s.varCount := by omega
      rw [addVar_new.1, addVar_new.2]
      exact Or.inl ⟨rfl, rfl⟩
  · rintro (⟨rfl, heq⟩ | ⟨-, i, hi, rfl, rfl⟩)
    · obtain rfl := Option.some.inj heq
      exact ⟨s.varCount, Nat.lt_succ_self _, addVar_new⟩
    · exact ⟨i, Nat.lt_succ_of_lt hi, addVar_old hi⟩

def Env.dropVar (s : Env) (i : Nat) : Env :=
  { s with
    varName := shiftDown s.varName i (s.varCount - (i + 1))
    varVal := shiftDown s.varVal i (s.varCount - (i + 1))
    varCount := s.varCount - 1 }

def behind (i k : Nat) : Nat := if i ≤ k then k + 1 else k

theorem dropVar_at (hi : i < s.varCount) {k : Nat} (hk : k < s.varCount - 1) :
    (s.dropVar i).varName k = s.varName (behind i k) ∧
      (s.dropVar i).varVal k = s.varVal (behind i k) := by
  rw [Env.dropVar, behind]
  dsimp only
  rw [shiftDown_apply, shiftDown_apply]
  have hshift : i ≤ k ∧ k < i + (s.varCount - (i + 1)) ↔ i ≤ k := by omega
  simp only [hshift]
  split <;> exact ⟨rfl, rfl⟩

theorem behind_inside (hi : i < s.varCount) {k : Nat} (hk : k < s.varCount - 1) :
    behind i k < s.varCount ∧ behind i k ≠ i := by
  rw [behind]
  split <;> omega

theorem sound_dropVar (hs : Sound s) (hi : i < s.varCount) : Sound (s.dropVar i) := by
  refine ⟨fun j k hj hk heq => ?_, fun j hj => ?_⟩
  · rw [(dropVar_at hi hj).1, (dropVar_at hi hk).1] at heq
    have hsame := hs.distinct _ _ (behind_inside hi hj).1 (behind_inside hi hk).1 heq
    rw [behind, behind] at hsame
    split at hsame <;> split at hsame <;> omega
  · rw [(dropVar_at hi hj).1]
    exact hs.short _ (behind_inside hi hj).1

theorem lookup_dropVar (hs : Sound s) (hi : i < s.varCount) (hname : s.varName i = name) :
    (s.dropVar i).lookup = Function.update s.lookup name none := by
  refine lookup_update hs (sound_dropVar hs hi) fun k v => ?_
  constructor
  · rintro ⟨j, hj, rfl, rfl⟩
    have hj : j < s.varCount - 1 := hj
    obtain ⟨hin, hne⟩ := behind_inside hi hj
    rw [(dropVar_at hi hj).1, (dropVar_at hi hj).2]
    exact Or.inr ⟨fun heq => hne (hs.distinct _ _ hin hi (heq.trans hname.symm)), _, hin, rfl, rfl⟩
  · rintro (⟨-, heq⟩ | ⟨hne, j, hj, rfl, rfl⟩)
    · exact nomatch heq
    · have hji : j ≠ i := fun heq => hne (heq ▸ hname)
      obtain ⟨k, hk, hkj⟩ : ∃ k, k < s.varCount - 1 ∧ behind i k = j := by
        by_cases hlt : j < i
        · exact ⟨j, by omega, if_neg (by omega)⟩
        · refine ⟨j - 1, by omega, ?_⟩
          rw [behind, if_pos (by omega)]
          omega
      refine ⟨k, hk, ?_, ?_⟩
      · rw [(dropVar_at hi hk).1, hkj]
      · rw [(dropVar_at hi hk).2, hkj]

end Table

section Steps

variable {s s' : Env} {name value cmd : Text} {o : Op}

theorem getVar_path (v : Text) : Env.getVar { s with path := v } =
    Function.update s.getVar (byteText "PATH") (some v) := by
  funext k
  rw [Function.update_apply, Env.getVar]
  by_cases hk : k = byteText "PATH"
  · rw [if_pos hk, if_pos hk]
  · rw [if_neg hk, if_neg hk, Env.getVar, if_neg hk]
    rfl

theorem getVar_pwd (v : Text) : Env.getVar { s with pwd := v } =
    Function.update s.getVar (byteText "PWD") (some v) := by
  funext k
  rw [Function.update_apply, Env.getVar]
  by_cases hk : k = byteText "PWD"
  · have hpath : k ≠ byteText "PATH" := hk ▸ by decide
    rw [if_neg hpath, if_pos hk, if_pos hk]
  · rw [if_neg hk, Env.getVar, if_neg hk, if_neg hk]
    rfl

structure SameOwn (s s' : Env) : Prop where
  path : s'.path = s.path
  pwd : s'.pwd = s.pwd
  ttyName : s'.ttyName = s.ttyName

theorem SameOwn.putVal (i : Nat) (v : Text) : SameOwn s (s.putVal i v) := ⟨rfl, rfl, rfl⟩

theorem SameOwn.addVar (name v : Text) : SameOwn s (s.addVar name v) := ⟨rfl, rfl, rfl⟩

theorem SameOwn.dropVar (i : Nat) : SameOwn s (s.dropVar i) := ⟨rfl, rfl, rfl⟩

theorem getVar_table (hown : SameOwn s s') {v : Option Text}
    (hlookup : s'.lookup = Function.update s.lookup name v) (hpath : name ≠ byteText "PATH")
    (hpwd : name ≠ byteText "PWD") (htty : name ≠ byteText "TTY") :
    s'.getVar = Function.update s.getVar name v := by
  funext k
  have hk := congrFun hlookup k
  rw [Function.update_apply] at hk ⊢
  rw [Env.getVar, Env.getVar, hown.path, hown.pwd, hown.ttyName]
  by_cases heq : k = name
  · rw [heq, if_neg hpath, if_neg hpwd, if_neg htty, if_pos rfl]
    rw [if_pos heq, heq] at hk
    exact hk
  · rw [if_neg heq] at hk ⊢
    split_ifs
    · rfl
    · rfl
    · rfl
    · exact hk

theorem getVar_tty (hown : SameOwn s s') {v : Option Text}
    (hlookup : s'.lookup = Function.update s.lookup (byteText "TTY") v) : s'.getVar = s.getVar := by
  funext k
  have hk := congrFun hlookup k
  rw [Function.update_apply] at hk
  rw [Env.getVar, Env.getVar, hown.path, hown.pwd, hown.ttyName]
  split_ifs with h1 h2 h3
  · rfl
  · rfl
  · rfl
  · rwa [if_neg h3] at hk

theorem take_eq_iff {n : Nat} (h : 0 < n) : value.take (n - 1) = value ↔ value.length < n := by
  constructor
  · intro heq
    have hlen := congrArg List.length heq
    rw [List.length_take] at hlen
    omega
  · exact fun hlen => List.take_of_length_le (by omega)

theorem getVar_set (hown : SameOwn s s')
    (hlookup : s'.lookup = Function.update s.lookup name (some value))
    (hpath : name ≠ byteText "PATH") (hpwd : name ≠ byteText "PWD") :
    s'.getVar = Function.update s.getVar name (some value) ↔
      (name = byteText "TTY" → value = s.ttyName) := by
  by_cases htty : name = byteText "TTY"
  · subst htty
    have hown' : s.getVar (byteText "TTY") = some s.ttyName := rfl
    rw [getVar_tty hown hlookup, eq_comm, Function.update_eq_self_iff, hown', Option.some.injEq]
    exact ⟨fun h _ => h, fun h => h rfl⟩
  · exact iff_of_true (getVar_table hown hlookup hpath hpwd htty) fun h => absurd h htty

-- a name that is cut short is not found again
theorem getVar_cut (hs : Sound s) (hlong : maxVarName ≤ name.length) (v : Text) :
    (s.addVar (name.take (maxVarName - 1)) v).getVar name = none := by
  have hsize : maxVarName = 24 := rfl
  have hother (k : Text) (hk : k.length < maxVarName) : name ≠ k := fun heq => by
    rw [heq] at hlong
    omega
  rw [Env.getVar, if_neg (hother _ (by decide)), if_neg (hother _ (by decide)),
    if_neg (hother _ (by decide)), Option.map_eq_none_iff]
  refine List.find?_eq_none.mpr fun i hi => ?_
  have hi : i < s.varCount + 1 := List.mem_range.mp hi
  rw [decide_eq_true_iff]
  by_cases hin : i < s.varCount
  · rw [(addVar_old hin).1]
    exact fun heq => hother _ (hs.short i hin) heq.symm
  · obtain rfl : i = s.varCount := by omega
    rw [addVar_new.1]
    refine fun heq => hother _ ?_ heq.symm
    rw [List.length_take]
    omega

theorem set_keeps (hs : Sound s) (hshort : value.length ≤ maxVarValue - 1) :
    ((s.setVar name value).2.getVar =
        VarMap.after s.getVar (.set name value) (.done (s.setVar name value).1) ↔
      Op.Fits s (.set name value)) ∧
      (Op.Fits s (.set name value) → Sound (s.setVar name value).2) := by
  have hvalue : value.take (maxVarValue - 1) = value := List.take_of_length_le hshort
  rw [Env.setVar, Op.Fits]
  by_cases hname : accepted name = false
  · have hrefused : ¬accepted name = true := by rw [hname]; exact Bool.false_ne_true
    rw [if_pos hname]
    exact ⟨iff_of_true rfl fun h => absurd h hrefused, fun _ => hs⟩
  have haccepted : accepted name = true := by simpa using hname
  rw [if_neg hname]
  by_cases hpath : name = byteText "PATH"
  · subst hpath
    rw [if_pos rfl]
    refine ⟨?_, fun _ => ⟨hs.distinct, hs.short⟩⟩
    rw [VarMap.after, getVar_path, (Function.update_injective _ _).eq_iff, Option.some.injEq,
      take_eq_iff (by decide)]
    exact ⟨fun hlen _ => ⟨fun _ => hlen, fun hne => absurd rfl hne⟩,
      fun h => (h haccepted).1 (Or.inl rfl)⟩
  rw [if_neg hpath]
  by_cases hpwd : name = byteText "PWD"
  · subst hpwd
    rw [if_pos rfl]
    refine ⟨?_, fun _ => ⟨hs.distinct, hs.short⟩⟩
    rw [VarMap.after, getVar_pwd, (Function.update_injective _ _).eq_iff, Option.some.injEq,
      take_eq_iff (by decide)]
    exact ⟨fun hlen _ => ⟨fun _ => hlen, fun _ hne => absurd rfl hne⟩,
      fun h => (h haccepted).1 (Or.inr rfl)⟩
  rw [if_neg hpwd, hvalue]
  have hplain : (accepted name = true →
      (name = byteText "PATH" ∨ name = byteText "PWD" → value.length < pathSize) ∧
        (name ≠ byteText "PATH" → name ≠ byteText "PWD" →
          s.findVar name ≠ none ∨ s.varCount < maxVars →
            name.length < maxVarName ∧ (name = byteText "TTY" → value = s.ttyName))) ↔
      (s.findVar name ≠ none ∨ s.varCount < maxVars →
        name.length < maxVarName ∧ (name = byteText "TTY" → value = s.ttyName)) :=
    ⟨fun h => (h haccepted).2 hpath hpwd, fun h _ =>
      ⟨fun hor => (hor.elim hpath hpwd).elim, fun _ _ => h⟩⟩
  rw [hplain]
  cases hfind : s.findVar name with
  | some i =>
    obtain ⟨hi, hiname⟩ := findVar_some hfind
    have hlen : name.length < maxVarName := hiname ▸ hs.short i hi
    have hset := getVar_set (SameOwn.putVal i value) (lookup_putVal hs hi hiname) hpath hpwd
    refine ⟨hset.trans ⟨fun htty _ => ⟨hlen, htty⟩, fun h => (h (Or.inl (Option.some_ne_none i))).2⟩,
      fun _ => ⟨hs.distinct, hs.short⟩⟩
  | none =>
    dsimp only
    by_cases hfull : maxVars ≤ s.varCount
    · rw [if_pos hfull]
      refine ⟨iff_of_true rfl fun hor => ?_, fun _ => hs⟩
      exact absurd hor (by rintro (h | h); exacts [h rfl, absurd h (Nat.not_lt.mpr hfull)])
    rw [if_neg hfull]
    have hroom : (none : Option Nat) ≠ none ∨ s.varCount < maxVars := Or.inr (Nat.not_le.mp hfull)
    by_cases hlong : name.length < maxVarName
    · have hcut : name.take (maxVarName - 1) = name :=
        List.take_of_length_le (Nat.le_sub_one_of_lt hlong)
      have hset := getVar_set (SameOwn.addVar name value) (lookup_addVar hs hfind hlong) hpath hpwd
      rw [hcut]
      exact ⟨hset.trans ⟨fun htty _ => ⟨hlong, htty⟩, fun h => (h hroom).2⟩,
        fun _ => sound_addVar hs hfind hlong⟩
    · refine ⟨iff_of_false (fun heq => ?_) fun h => hlong (h hroom).1, fun h => absurd (h hroom).1 hlong⟩
      have hget := congrFun heq name
      rw [VarMap.after, Function.update_self] at hget
      exact nomatch (getVar_cut hs (Nat.not_lt.mp hlong) value).symm.trans hget

theorem unset_keeps (hs : Sound s) :
    (s.unsetVar name).2.getVar =
        VarMap.after s.getVar (.unset name) (.done (s.unsetVar name).1) ∧
      Sound (s.unsetVar name).2 := by
  rw [Env.unsetVar]
  split
  next => exact ⟨rfl, hs⟩
  next hother =>
    obtain ⟨hpath, hpwd, htty⟩ : name ≠ byteText "PATH" ∧ name ≠ byteText "PWD" ∧
      name ≠ byteText "TTY" := by simpa only [not_or] using hother
    cases hfind : s.findVar name with
    | none => exact ⟨rfl, hs⟩
    | some i =>
      obtain ⟨hi, hname⟩ := findVar_some hfind
      exact ⟨getVar_table (SameOwn.dropVar i) (lookup_dropVar hs hi hname) hpath hpwd htty,
        sound_dropVar hs hi⟩

theorem readName_eq (n : Nat) (cmd : Text) :
    readName n cmd = ((cmd.takeWhile isNameChar).take n, cmd.drop (min n (cmd.takeWhile isNameChar).length)) := by
  induction n generalizing cmd with
  | zero => rw [readName, List.take_zero, Nat.zero_min, List.drop_zero]
  | succ n ih =>
    cases cmd with
    | nil => rfl
    | cons c cs =>
      rw [readName]
      by_cases hc : isNameChar c = true
      · rw [if_pos hc, ih, List.takeWhile_cons_of_pos hc, List.take_succ_cons, List.length_cons,
          Nat.succ_min_succ, List.drop_succ_cons]
      · rw [if_neg hc, List.takeWhile_cons_of_neg hc, List.take_nil, List.length_nil, Nat.min_zero,
          List.drop_zero]

theorem dropWhile_eq_drop (cmd : Text) :
    cmd.dropWhile isNameChar = cmd.drop (cmd.takeWhile isNameChar).length := by
  induction cmd with
  | nil => rfl
  | cons c cs ih =>
    by_cases hc : isNameChar c = true
    · rw [List.dropWhile_cons_of_pos hc, List.takeWhile_cons_of_pos hc, List.length_cons,
        List.drop_succ_cons, ih]
    · rw [List.dropWhile_cons_of_neg hc, List.takeWhile_cons_of_neg hc, List.length_nil, List.drop_zero]

theorem expand_iff : s.expand cmd = VarMap.expand s.getVar cmd ↔ Op.Fits s (.expand cmd) := by
  have hinside := ( List.takeWhile_prefix isNameChar (l := cmd)).length_le
  have hsize : maxVarName = 24 := rfl
  rw [Env.expand, VarMap.expand, VarMap.startsName, Op.Fits, VarMap.startsName, readName_eq,
    dropWhile_eq_drop]
  split
  next hstart =>
    constructor
    · intro heq _
      have hlen := congrArg (fun e : Text × Text => e.2.length) heq
      simp only [List.length_drop] at hlen
      omega
    · intro hfits
      have hshort := hfits hstart
      rw [List.take_of_length_le (by omega), Nat.min_eq_right (by omega)]
  next hstart => exact iff_of_true rfl fun h => absurd h hstart

theorem step_keeps (hs : Sound s) (o : Op) (hshort : o.Short) :
    (VarMap.Answers s.getVar o (s.step o).1 ∧
        (s.step o).2.getVar = VarMap.after s.getVar o (s.step o).1 ↔ o.Fits s) ∧
      (o.Fits s → Sound (s.step o).2) := by
  cases o with
  | set name value =>
    obtain ⟨hiff, hsound⟩ := set_keeps hs hshort
    exact ⟨⟨fun h => hiff.mp h.2, fun h => ⟨trivial, hiff.mpr h⟩⟩, hsound⟩
  | unset name =>
    obtain ⟨hget, hsound⟩ := unset_keeps hs
    exact ⟨iff_of_true ⟨trivial, hget⟩ trivial, fun _ => hsound⟩
  | get name => exact ⟨iff_of_true ⟨rfl, rfl⟩ trivial, fun _ => hs⟩
  | expand cmd => exact ⟨⟨fun h => expand_iff.mp h.1, fun h => ⟨expand_iff.mpr h, rfl⟩⟩, fun _ => hs⟩

theorem keepsMap_head {m : VarMap} {ops : List Op} (h : KeepsMap s m ops) : s.getVar = m := by
  cases ops with
  | nil => exact h
  | cons o ops => exact h.1

def OpsFit (s : Env) (ops : List Op) : Prop :=
  Along (fun s o => some (Env.step s o).2) (fun s o => o.Fits s) s ops

instance (s : Env) (ops : List Op) : Decidable (OpsFit s ops) := inferInstanceAs (Decidable (Along _ _ _ _))

theorem keepsMap_iff (hs : Sound s) {ops : List Op} (hshort : ∀ o ∈ ops, o.Short) :
    KeepsMap s s.getVar ops ↔ OpsFit s ops := by
  induction ops generalizing s with
  | nil => exact iff_of_true rfl trivial
  | cons o ops ih =>
    obtain ⟨hiff, hsound⟩ := step_keeps hs o (hshort o List.mem_cons_self)
    have hrest : ∀ o ∈ ops, o.Short := fun x hx => hshort x (List.mem_cons_of_mem o hx)
    constructor
    · rintro ⟨-, hanswer, hnext⟩
      have hget := keepsMap_head hnext
      have hfits := hiff.mp ⟨hanswer, hget⟩
      rw [← hget] at hnext
      refine ⟨hfits, ?_⟩
      rintro _ ⟨⟩
      exact (ih (hsound hfits) hrest).mp hnext
    · rintro ⟨hfits, hnext⟩
      obtain ⟨hanswer, hget⟩ := hiff.mpr hfits
      refine ⟨rfl, hanswer, ?_⟩
      rw [← hget]
      exact (ih (hsound hfits) hrest).mpr (hnext _ rfl)

theorem sound_boot (ttyName : Text) : Sound (boot ttyName) :=
  ⟨fun _ _ hi => absurd hi (Nat.not_lt_zero _), fun _ hi => absurd hi (Nat.not_lt_zero _)⟩

theorem shell_variables_iff (ttyName : Text) (ops : List Op) (hshort : ∀ o ∈ ops, o.Short) :
    KeepsMap (boot ttyName) (boot ttyName).getVar ops ↔ OpsFit (boot ttyName) ops :=
  keepsMap_iff (sound_boot ttyName) hshort

def wordOps : List Op :=
  [.set (byteText "x") (byteText "1"), .expand (byteText "x/bin"), .unset (byteText "x"), .get (byteText "x")]

theorem shell_variables_word : KeepsMap (boot (byteText "tty0")) (boot (byteText "tty0")).getVar wordOps :=
  (shell_variables_iff (byteText "tty0") wordOps (by decide)).mpr (by decide +kernel)

-- `abcdefghijklmnopqrstuvwx=1`: the stored name has 23 of the 24 letters
theorem long_name_not_found : ¬KeepsMap (boot (byteText "tty0")) (boot (byteText "tty0")).getVar
    [.set (byteText "abcdefghijklmnopqrstuvwx") (byteText "1")] := by
  rintro ⟨-, -, hkept⟩
  have hget := congrFun hkept (byteText "abcdefghijklmnopqrstuvwx")
  have hset : ((boot (byteText "tty0")).step
      (.set (byteText "abcdefghijklmnopqrstuvwx") (byteText "1"))).2.getVar
        (byteText "abcdefghijklmnopqrstuvwx") = none := by decide
  rw [hset] at hget
  exact absurd hget (by decide)

end Steps

section Parsing

variable {e e' : Text → Text × Text} {text tok rest tok' : Text} {sq dq : Bool}

theorem parseToken_congr (hrest : ∀ cs, (e' cs).2 <:+ cs) (n : Nat)
    (heq : ∀ cs, 36 :: cs <:+ text → e cs = e' cs) :
    parseToken e n text sq dq tok = parseToken e' n text sq dq tok := by
  induction n generalizing text sq dq tok with
  | zero => rfl
  | succ n ih =>
    cases text with
    | nil => rfl
    | cons c cs =>
      have hlater {t : Text} (ht : t <:+ cs) (sq dq : Bool) (tok : Text) :
          parseToken e n t sq dq tok = parseToken e' n t sq dq tok :=
        ih fun ds hds => heq ds (hds.trans (ht.trans (List.suffix_cons c cs)))
      rw [parseToken, parseToken]
      split
      · rfl
      split
      · exact hlater (List.suffix_refl cs) _ _ _
      split
      · exact hlater (List.suffix_refl cs) _ _ _
      split
      · exact congrArg _ (funext fun t => hlater (List.drop_suffix 1 cs) _ _ t)
      split
      next hdollar =>
        obtain ⟨-, rfl⟩ := hdollar
        rw [heq cs (List.suffix_refl _)]
        exact congrArg _ (funext fun t => hlater (hrest cs) _ _ t)
      next => exact congrArg _ (funext fun t => hlater (List.suffix_refl cs) _ _ t)

theorem parseToken_suffix (hrest : ∀ cs, (e cs).2 <:+ cs) {n : Nat}
    (h : parseToken e n text sq dq tok = some (tok', rest)) : rest <:+ text := by
  induction n generalizing text sq dq tok with
  | zero => exact nomatch h
  | succ n ih =>
    cases text with
    | nil =>
      rw [parseToken, Option.ite_none_left_eq_some] at h
      obtain ⟨-, h⟩ := h
      cases h
      exact List.suffix_refl []
    | cons c cs =>
      have hcs := List.suffix_cons c cs
      have hbind {t : Text} (ht : t <:+ cs) {o : Option Text}
          (hb : o.bind (parseToken e n t sq dq) = some (tok', rest)) : rest <:+ c :: cs := by
        obtain ⟨t', -, hb⟩ := Option.bind_eq_some_iff.mp hb
        exact (ih hb).trans (ht.trans hcs)
      rw [parseToken] at h
      split at h
      · cases h
        exact List.suffix_refl _
      split at h
      · exact (ih h).trans hcs
      split at h
      · exact (ih h).trans hcs
      split at h
      · exact hbind (List.drop_suffix 1 cs) h
      split at h
      · exact hbind (hrest cs) h
      · exact hbind (List.suffix_refl cs) h

theorem parseArgs_congr (hrest : ∀ cs, (e' cs).2 <:+ cs) (n : Nat)
    (heq : ∀ cs, 36 :: cs <:+ text → e cs = e' cs) (argv : List Text) :
    parseArgs e n text argv = parseArgs e' n text argv := by
  induction n generalizing text argv with
  | zero => rfl
  | succ n ih =>
    have hskip := List.dropWhile_suffix (l := text) isSpace
    rw [parseArgs, parseArgs]
    cases hcmd : text.dropWhile isSpace with
    | nil => rfl
    | cons c cs =>
      rw [hcmd] at hskip
      dsimp only
      rw [parseToken_congr hrest (cs.length + 2) fun ds hds => heq ds (hds.trans hskip)]
      split
      · rfl
      split
      · rfl
      · cases htok : parseToken e' (cs.length + 2) (c :: cs) false false [] with
        | none => rfl
        | some t => exact ih (fun ds hds => heq ds (hds.trans
            ((parseToken_suffix hrest htok).trans hskip))) _

theorem VarMap.expand_suffix (m : VarMap) (cs : Text) : (m.expand cs).2 <:+ cs := by
  rw [VarMap.expand]
  split
  · exact List.dropWhile_suffix _
  · exact List.suffix_refl cs

theorem parseArgv_expands {s : Env} {cmd : Text}
    (hfits : ∀ cs, 36 :: cs <:+ cmd → Op.Fits s (.expand cs)) :
    s.parseArgv cmd = parseArgs (VarMap.expand s.getVar) (cmd.length + 1) cmd [] :=
  parseArgs_congr (VarMap.expand_suffix s.getVar) _ (fun cs hcs => expand_iff.mpr (hfits cs hcs)) []

end Parsing

end HouseOS.Shell
