import HouseOS.Library.Components
import HouseOS.Procfs.Paths
import HouseOS.Procfs.Sizes

namespace HouseOS.Procfs

open HouseOS.Builder
open HouseOS.Sched (Task TaskState noSlot)

abbrev Text := List UInt8

section Decimal

def decimalText (v : Nat) : Text := byteText v.repr

def signedText (v : Int) : Text := byteText v.repr

theorem byteText_append (s t : String) : byteText (s ++ t) = byteText s ++ byteText t := by
  rw [Words.byteText, String.toList_append, List.map_append]
  rfl

theorem decimalText_small {d : Nat} (h : d < 10) : decimalText d = [UInt8.ofNat (48 + d)] := by
  have hchar : ∀ d < 10, [UInt8.ofNat d.digitChar.toNat] = [UInt8.ofNat (48 + d)] := by decide
  rw [decimalText, Nat.repr_of_lt h, Words.byteText, String.toList_singleton]
  exact hchar d h

theorem decimalText_step {v : Nat} (h : 10 ≤ v) :
    decimalText v = decimalText (v / 10) ++ [UInt8.ofNat (48 + v % 10)] := by
  rw [decimalText, Nat.repr_eq_repr_append_repr h, byteText_append]
  exact congrArg (byteText (v / 10).repr ++ ·) (decimalText_small (Nat.mod_lt _ (by decide)))

theorem reverse_u32Digits : ∀ (n : Nat) {v : Nat}, 0 < v → v < 10 ^ n →
    (u32Digits n v).reverse = decimalText v := by
  intro n
  induction n with
  | zero => intro v h0 h1; omega
  | succ n ih =>
    intro v hpos hlt
    rw [u32Digits, if_neg (by omega), List.reverse_cons]
    by_cases hsmall : v < 10
    · have hzero : u32Digits n (v / 10) = [] := by
        rw [Nat.div_eq_of_lt hsmall]
        cases n <;> rfl
      rw [hzero, decimalText_small hsmall, Nat.mod_eq_of_lt hsmall]
      rfl
    · rw [ih (by omega) (by omega), ← decimalText_step (by omega)]

theorem decimalText_ne_nil (v : Nat) : decimalText v ≠ [] := by
  by_cases h : v < 10
  · rw [decimalText_small h]
    exact List.cons_ne_nil _ _
  · rw [decimalText_step (by omega)]
    exact List.append_ne_nil_of_right_ne_nil _ (List.cons_ne_nil _ _)

theorem digit_value {d : Nat} (h : d < 10) :
    isDigit (UInt8.ofNat (48 + d)) = true ∧ (UInt8.ofNat (48 + d)).toNat - 48 = d := by
  have hbyte : (UInt8.ofNat (48 + d)).toNat = 48 + d := by
    rw [UInt8.toNat_ofNat']
    omega
  rw [isDigit, decide_eq_true_eq, hbyte]
  omega

theorem decimalText_read (v : Nat) :
    (decimalText v).all isDigit = true ∧ decimal (decimalText v) = v := by
  induction v using Nat.strongRecOn with
  | _ v ih =>
    by_cases h : v < 10
    · obtain ⟨hdigit, hval⟩ := digit_value h
      rw [decimalText_small h]
      refine ⟨by rw [List.all_cons, hdigit]; rfl, ?_⟩
      change 0 * 10 + _ = v
      omega
    · have hd : v % 10 < 10 := Nat.mod_lt _ (by decide)
      obtain ⟨hdigit, hval⟩ := digit_value hd
      obtain ⟨hall, hdec⟩ := ih (v / 10) (by omega)
      rw [decimal] at hdec
      rw [decimalText_step (by omega), List.all_append, hall, List.all_cons, hdigit, decimal,
        List.foldl_append, hdec]
      refine ⟨rfl, ?_⟩
      change v / 10 * 10 + _ = v
      omega

def number? (text : Text) : Option Nat :=
  if text ≠ [] ∧ text.all isDigit = true then some (decimal text) else none

def signed? : Text → Option Int
  | [] => none
  | c :: text =>
      if c = 45 then (number? text).map fun n : Nat => -(n : Int) else (number? (c :: text)).map Int.ofNat

theorem number?_decimalText (v : Nat) : number? (decimalText v) = some v := by
  obtain ⟨hall, hdec⟩ := decimalText_read v
  rw [number?, if_pos ⟨decimalText_ne_nil v, hall⟩, hdec]

theorem decimalText_digits {v : Nat} {c : UInt8} (h : c ∈ decimalText v) : isDigit c = true :=
  List.all_eq_true.mp (decimalText_read v).1 c h

theorem signedText_of_nonneg {v : Int} (h : 0 ≤ v) : signedText v = decimalText v.toNat := by
  rw [signedText, Int.repr_eq_if, if_pos h]
  rfl

theorem signedText_of_neg {v : Int} (h : v < 0) : signedText v = 45 :: decimalText (-v).toNat := by
  rw [signedText, Int.repr_eq_if, if_neg (by omega), byteText_append]
  rfl

theorem signed?_signedText (v : Int) : signed? (signedText v) = some v := by
  by_cases h : v < 0
  · rw [signedText_of_neg h, signed?, if_pos rfl, number?_decimalText, Option.map_some]
    congr 1
    omega
  · rw [signedText_of_nonneg (by omega)]
    have hread := number?_decimalText v.toNat
    obtain ⟨c, text, htext⟩ := List.exists_cons_of_ne_nil (decimalText_ne_nil v.toNat)
    have hc : c ≠ 45 := by
      rintro rfl
      have hmem : (45 : UInt8) ∈ decimalText v.toNat := by
        rw [htext]
        exact List.mem_cons_self
      exact absurd (decimalText_digits hmem) (by decide)
    rw [htext] at hread ⊢
    rw [signed?, if_neg hc, hread, Option.map_some]
    exact congrArg some (Int.toNat_of_nonneg (by omega))

end Decimal

section Emit

variable {cap : Nat}

theorem emits_text (text : Text) : Emits cap text (procAppendText cap text) := by
  intro out hroom
  rw [procAppendText, if_neg (by omega)]

theorem emits_chars (cs : Text) : Emits cap cs (appendChars cap cs) := by
  induction cs with
  | nil =>
    intro out _
    rw [appendChars, List.append_nil]
  | cons c cs ih =>
    intro out hroom
    rw [List.length_cons] at hroom
    have hchar : procAppendChar cap c out = (true, out ++ [c]) := by
      rw [procAppendChar, if_neg (by omega)]
    have hrest : (out ++ [c]).length + cs.length < cap := by
      rw [List.length_append, List.length_singleton]
      omega
    rw [appendChars, hchar, if_pos rfl, ih _ hrest, List.append_assoc]
    rfl

theorem emits_u32 {v : Nat} (h : v < 2 ^ 32) : Emits cap (decimalText v) (procAppendU32 cap v) := by
  by_cases hzero : v = 0
  · subst hzero
    intro out hroom
    rw [decimalText_small (by decide)] at hroom ⊢
    rw [procAppendU32, if_pos rfl, procAppendChar, if_neg]
    · rfl
    · exact Nat.not_le.mpr hroom
  · rw [← reverse_u32Digits 16 (by omega) (by omega), procAppendU32, if_neg hzero]
    exact emits_chars _

theorem emits_i32 {v : Int} (hlow : -2 ^ 31 ≤ v) (hhigh : v < 2 ^ 31) :
    Emits cap (signedText v) (procAppendI32 cap v) := by
  by_cases hneg : v < 0
  · intro out hroom
    have hmod : (-v % 2 ^ 32).toNat = (-v).toNat := by rw [Int.emod_eq_of_lt (by omega) (by omega)]
    rw [signedText_of_neg hneg] at hroom ⊢
    rw [List.length_cons] at hroom
    have hchar : procAppendChar cap 45 out = (true, out ++ [45]) := by
      rw [procAppendChar, if_neg (by omega)]
    have hrest : (out ++ [45]).length + (decimalText (-v).toNat).length < cap := by
      rw [List.length_append, List.length_singleton]
      omega
    rw [procAppendI32, if_pos hneg, hchar, if_pos rfl, hmod,
      emits_u32 (by omega) _ hrest, List.append_assoc]
    rfl
  · intro out hroom
    rw [signedText_of_nonneg (by omega)] at hroom ⊢
    rw [procAppendI32, if_neg hneg]
    exact emits_u32 (by omega) out hroom

end Emit

section Lines

variable {label v : Text} {lines : List Text}

def fieldLine (label : Text) (lines : List Text) : Option Text :=
  (lines.find? label.isPrefixOf).map (·.drop label.length)

def Apart (a b : Text) : Prop := ¬ a <+: b ∧ ¬ b <+: a

instance (a b : Text) : Decidable (Apart a b) := inferInstanceAs (Decidable (_ ∧ _))

theorem fieldLine_here (label v : Text) (lines : List Text) :
    fieldLine label ((label ++ v) :: lines) = some v := by
  have hpre : label.isPrefixOf (label ++ v) = true :=
    List.isPrefixOf_iff_prefix.mpr ( List.prefix_append label v)
  rw [fieldLine, List.find?_cons_of_pos hpre, Option.map_some, List.drop_left]

theorem fieldLine_next {other : Text} (h : Apart other label) (v : Text) (lines : List Text) :
    fieldLine label ((other ++ v) :: lines) = fieldLine label lines := by
  have hpre : ¬ label.isPrefixOf (other ++ v) = true := by
    rw [List.isPrefixOf_iff_prefix]
    intro hlabel
    rcases List.prefix_or_prefix_of_prefix hlabel ( List.prefix_append other v) with hp | hp
    · exact h.2 hp
    · exact h.1 hp
  rw [fieldLine, List.find?_cons_of_neg hpre, fieldLine]

theorem fieldLine_pair {pairs : List (Text × Text)} {p : Text × Text} (rest : List Text)
    (hpairs : (pairs.map Prod.fst).Pairwise Apart) (hp : p ∈ pairs) :
    fieldLine p.1 (pairs.map (fun p => p.1 ++ p.2) ++ rest) = some p.2 := by
  induction pairs with
  | nil => exact absurd hp List.not_mem_nil
  | cons q pairs ih =>
    rw [List.map_cons, List.pairwise_cons] at hpairs
    rw [List.map_cons, List.cons_append]
    rcases List.mem_cons.mp hp with rfl | hmem
    · exact fieldLine_here p.1 p.2 _
    · rw [fieldLine_next (hpairs.1 p.1 (List.mem_map_of_mem hmem)), ih hpairs.2 hmem]

theorem fieldLine_mem (h : fieldLine label lines = some v) : ∃ l ∈ lines, v = l.drop label.length := by
  obtain ⟨l, hl, rfl⟩ := Option.map_eq_some_iff.mp h
  exact ⟨l, List.mem_of_find?_eq_some hl, rfl⟩

end Lines

section Record

variable {task : Task}

structure Status where
  pid : Nat
  state : TaskState
  tty : Text
  exe : Text
  cmdline : Text
  exitStatus : Int
  termSignal : Nat
  userSlot : Nat
  deriving DecidableEq

def statusOf (task : Task) : Status :=
  ⟨task.pid, task.state, task.ttyPath, task.progPath, task.cmdline, task.exitStatus,
    task.termSignal, task.userSlot⟩

def slotText (task : Task) : Text :=
  if task.userSlot = noSlot then byteText "-1" else decimalText task.userSlot

def statusFields (task : Task) : List (Text × Text) :=
  [(byteText "Pid:\t", decimalText task.pid),
   (byteText "State:\t", procTaskStateName task.state),
   (byteText "Tty:\t", orDash task.ttyPath),
   (byteText "Exe:\t", orDash task.progPath),
   (byteText "Cmdline:\t", orDash task.cmdline),
   (byteText "ExitStatus:\t", signedText task.exitStatus),
   (byteText "TermSignal:\t", decimalText task.termSignal),
   (byteText "UserSlot:\t", slotText task)]

def statusLines (task : Task) : List Text := (statusFields task).map fun p => p.1 ++ p.2

def statusBody (task : Task) : Text := [10].intercalate (statusLines task)

def statFields (task : Task) : List Text :=
  [decimalText task.pid, procTaskStateName task.state, signedText task.exitStatus,
   decimalText task.termSignal,
   if task.userSlot = noSlot then byteText "0" else decimalText task.userPhysBase]

def record (task : Task) : PidFile → Text
  | .cmdline => if task.cmdline ≠ [] then task.cmdline else task.progPath
  | .status => statusBody task
  | .stat => [32].intercalate (statFields task)
  | .mem => []
  | .tty => orDash task.ttyPath
  | .exe => orDash task.progPath

def stateNamed (v : Text) : Option TaskState :=
  [TaskState.ready, .running, .blocked, .terminated].find? fun st => procTaskStateName st = v

def unDash (v : Text) : Text := if v = byteText "-" then [] else v

def slot? (v : Text) : Option Nat := if v = byteText "-1" then some noSlot else number? v

def parseStatus (text : Text) : Option Status :=
  let lines := text.splitOn 10
  (fieldLine (byteText "Pid:\t") lines).bind fun pid => (number? pid).bind fun pid =>
  (fieldLine (byteText "State:\t") lines).bind fun state => (stateNamed state).bind fun state =>
  (fieldLine (byteText "Tty:\t") lines).bind fun tty =>
  (fieldLine (byteText "Exe:\t") lines).bind fun exe =>
  (fieldLine (byteText "Cmdline:\t") lines).bind fun cmdline =>
  (fieldLine (byteText "ExitStatus:\t") lines).bind fun status => (signed? status).bind fun status =>
  (fieldLine (byteText "TermSignal:\t") lines).bind fun sig => (number? sig).bind fun sig =>
  (fieldLine (byteText "UserSlot:\t") lines).bind fun slot => (slot? slot).bind fun slot =>
  some ⟨pid, state, unDash tty, unDash exe, unDash cmdline, status, sig, slot⟩

-- what the members of the task structure have room for
structure Holds (task : Task) : Prop where
  pid : task.pid < 2 ^ 32
  exitLow : -2 ^ 31 ≤ task.exitStatus
  exitHigh : task.exitStatus < 2 ^ 31
  termSignal : task.termSignal < 2 ^ 32
  userSlot : task.userSlot < 2 ^ 32
  userPhysBase : task.userPhysBase < 2 ^ 32
  ttyPath : task.ttyPath.length < 64
  progPath : task.progPath.length < 256
  cmdline : task.cmdline.length < 512

def recordParts (task : Task) : PidFile → List Text
  | .cmdline =>
      if task.cmdline ≠ [] then [task.cmdline] else if task.progPath ≠ [] then [task.progPath] else []
  | .status =>
      [byteText "Pid:\t", decimalText task.pid, byteText "\nState:\t", procTaskStateName task.state,
       byteText "\nTty:\t", orDash task.ttyPath, byteText "\nExe:\t", orDash task.progPath,
       byteText "\nCmdline:\t", orDash task.cmdline, byteText "\nExitStatus:\t",
       signedText task.exitStatus, byteText "\nTermSignal:\t", decimalText task.termSignal,
       byteText "\nUserSlot:\t", slotText task]
  | .stat =>
      [decimalText task.pid, byteText " ", procTaskStateName task.state, byteText " ",
       signedText task.exitStatus, byteText " ", decimalText task.termSignal, byteText " ",
       if task.userSlot = noSlot then byteText "0" else decimalText task.userPhysBase]
  | .mem => []
  | .tty => [orDash task.ttyPath]
  | .exe => [orDash task.progPath]

theorem recordParts_flatten (task : Task) (id : PidFile) :
    (recordParts task id).flatten = record task id := by
  cases id with
  | cmdline =>
    rw [recordParts, record]
    split_ifs with h1 h2
    · exact List.append_nil _
    · exact List.append_nil _
    · exact (not_not.mp h2).symm
  | status =>
    have hlabels : byteText "\nState:\t" = 10 :: byteText "State:\t" ∧
        byteText "\nTty:\t" = 10 :: byteText "Tty:\t" ∧
        byteText "\nExe:\t" = 10 :: byteText "Exe:\t" ∧
        byteText "\nCmdline:\t" = 10 :: byteText "Cmdline:\t" ∧
        byteText "\nExitStatus:\t" = 10 :: byteText "ExitStatus:\t" ∧
        byteText "\nTermSignal:\t" = 10 :: byteText "TermSignal:\t" ∧
        byteText "\nUserSlot:\t" = 10 :: byteText "UserSlot:\t" := by decide
    obtain ⟨h1, h2, h3, h4, h5, h6, h7⟩ := hlabels
    rw [recordParts, record, statusBody, statusLines, statusFields, h1, h2, h3, h4, h5, h6, h7]
    simp only [List.map_cons, List.map_nil, List.intercalate_cons_cons, List.intercalate_singleton,
      List.flatten_cons, List.flatten_nil, List.append_assoc, List.append_nil, List.cons_append,
      List.nil_append]
  | stat =>
    have hblank : byteText " " = [32] := by decide
    rw [recordParts, record, statFields, hblank]
    simp only [List.intercalate_cons_cons, List.intercalate_singleton, List.flatten_cons,
      List.flatten_nil, List.append_assoc, List.append_nil]
  | mem => rfl
  | tty => exact List.append_nil _
  | exe => exact List.append_nil _

theorem emits_slot (h : task.userSlot < 2 ^ 32) : Emits procPidTextCap (slotText task)
    (if task.userSlot = noSlot then procAppendText procPidTextCap (byteText "-1")
      else procAppendU32 procPidTextCap task.userSlot) := by
  rw [slotText]
  split
  · exact emits_text _
  · exact emits_u32 h

theorem emits_base (h : task.userPhysBase < 2 ^ 32) : Emits procPidTextCap
    (if task.userSlot = noSlot then byteText "0" else decimalText task.userPhysBase)
    (if task.userSlot = noSlot then procAppendText procPidTextCap (byteText "0")
      else procAppendU32 procPidTextCap task.userPhysBase) := by
  split
  · exact emits_text _
  · exact emits_u32 h

-- every file is its record and one more line end
theorem pidText_parts (h : Holds task) {id : PidFile} (hid : id ≠ .mem) :
    ∃ fs, pidText task id = fs ++ [procAppendText procPidTextCap (byteText "\n")] ∧
      List.Forall₂ (Emits procPidTextCap) (recordParts task id) fs := by
  have hpid := @emits_u32 procPidTextCap _ h.pid
  have hsignal := @emits_u32 procPidTextCap _ h.termSignal
  have hexit := @emits_i32 procPidTextCap _ h.exitLow h.exitHigh
  have hslot := emits_slot h.userSlot
  have hbase := emits_base h.userPhysBase
  cases id with
  | cmdline =>
    refine ⟨_, rfl, ?_⟩
    rw [recordParts]
    split_ifs
    · exact .cons (emits_text _) .nil
    · exact .cons (emits_text _) .nil
    · exact .nil
  | status =>
    exact ⟨_ :: _ :: _ :: _ :: _ :: _ :: _ :: _ :: _ :: _ :: _ :: _ :: _ :: _ :: _ :: _ :: [], rfl,
      .cons (emits_text _) (.cons hpid (.cons (emits_text _) (.cons (emits_text _)
      (.cons (emits_text _) (.cons (emits_text _) (.cons (emits_text _) (.cons (emits_text _)
      (.cons (emits_text _) (.cons (emits_text _) (.cons (emits_text _) (.cons hexit
      (.cons (emits_text _) (.cons hsignal (.cons (emits_text _) (.cons hslot .nil)))))))))))))))⟩
  | stat =>
    exact ⟨_ :: _ :: _ :: _ :: _ :: _ :: _ :: _ :: _ :: [], rfl,
      .cons hpid (.cons (emits_text _) (.cons (emits_text _) (.cons (emits_text _) (.cons hexit
      (.cons (emits_text _) (.cons hsignal (.cons (emits_text _) (.cons hbase .nil))))))))⟩
  | mem => exact absurd rfl hid
  | tty => exact ⟨_ :: [], rfl, .cons (emits_text _) .nil⟩
  | exe => exact ⟨_ :: [], rfl, .cons (emits_text _) .nil⟩

def fileText (task : Task) (id : PidFile) : Text := (procReadPidText task id procPidTextCap).2

theorem fileText_eq {id : PidFile} (hid : id ≠ .mem) :
    fileText task id = lax (pidText task id) [] := by
  have hlen := pidText_length task id
  rw [fileText, procReadPidText, if_neg hid, handOut]
  exact List.take_of_length_le (by omega)

theorem fileText_length {id : PidFile} (hid : id ≠ .mem) :
    (fileText task id).length < procPidTextCap := by
  rw [fileText_eq hid]
  exact pidText_length task id

theorem fileText_whole (h : Holds task) {id : PidFile} (hid : id ≠ .mem)
    (hroom : (record task id).length < procPidTextCap) :
    fileText task id = record task id ∨ fileText task id = record task id ++ [10] := by
  obtain ⟨fs, hfs, hemits⟩ := pidText_parts h hid
  have hparts := recordParts_flatten task id
  have hbody : lax fs [] = record task id := by
    have hlax := @lax_emits _ _ _ _ [] hemits (by rw [hparts]; simpa using hroom)
    rwa [hparts] at hlax
  rw [fileText_eq hid, hfs, lax_append, hbody, lax, List.foldl_cons, List.foldl_nil, procAppendText]
  split
  · exact .inl rfl
  · exact .inr rfl

theorem record_kept_iff (h : Holds task) {id : PidFile} (hid : id ≠ .mem) :
    record task id <+: fileText task id ↔ (record task id).length < procPidTextCap := by
  constructor
  · intro hpre
    exact Nat.lt_of_le_of_lt hpre.length_le (fileText_length hid)
  · intro hroom
    rcases fileText_whole h hid hroom with htext | htext
    · rw [htext]
    · rw [htext]
      exact List.prefix_append _ _

theorem decimalText_length {v : Nat} (h : v < 2 ^ 32) : (decimalText v).length ≤ 10 := by
  have hrepr : v.repr.length ≤ 10 := (Nat.length_repr_le_iff (by decide)).mpr (by omega)
  rw [decimalText, Words.byteText, List.length_map]
  exact hrepr

theorem signedText_length {v : Int} (hlow : -2 ^ 31 ≤ v) (hhigh : v < 2 ^ 31) :
    (signedText v).length ≤ 11 := by
  by_cases hneg : v < 0
  · rw [signedText_of_neg hneg, List.length_cons]
    have := @decimalText_length (-v).toNat (by omega)
    omega
  · rw [signedText_of_nonneg (by omega)]
    have := @decimalText_length v.toNat (by omega)
    omega

theorem stateName_length (st : TaskState) : (procTaskStateName st).length ≤ 10 := by
  cases st <;> decide

theorem orDash_length {v : Text} {n : Nat} (h : v.length < n) (hn : 1 < n) :
    (orDash v).length < n := by
  rw [orDash]
  split
  · exact h
  · exact hn

theorem statusBody_length (task : Task) : (statusBody task).length =
    72 + (decimalText task.pid).length + (procTaskStateName task.state).length +
      (orDash task.ttyPath).length + (orDash task.progPath).length + (orDash task.cmdline).length +
      (signedText task.exitStatus).length + (decimalText task.termSignal).length +
      (slotText task).length := by
  have hlabels : (byteText "Pid:\t").length = 5 ∧ (byteText "State:\t").length = 7 ∧
      (byteText "Tty:\t").length = 5 ∧ (byteText "Exe:\t").length = 5 ∧
      (byteText "Cmdline:\t").length = 9 ∧ (byteText "ExitStatus:\t").length = 12 ∧
      (byteText "TermSignal:\t").length = 12 ∧ (byteText "UserSlot:\t").length = 10 := by decide
  rw [statusBody, statusLines, statusFields]
  simp only [List.map_cons, List.map_nil, List.intercalate_cons_cons, List.intercalate_singleton,
    List.length_append, List.length_singleton, hlabels]
  omega

theorem record_short (h : Holds task) {id : PidFile} (hstatus : id ≠ .status) :
    (record task id).length < procPidTextCap := by
  have hcap : procPidTextCap = 768 := rfl
  have hcmd := h.cmdline
  have hprog := h.progPath
  cases id with
  | cmdline =>
    rw [record]
    split <;> omega
  | status => exact absurd rfl hstatus
  | stat =>
    have hpid := decimalText_length h.pid
    have hstate := stateName_length task.state
    have hexit := signedText_length h.exitLow h.exitHigh
    have hsignal := decimalText_length h.termSignal
    have hbase : (if task.userSlot = noSlot then byteText "0"
        else decimalText task.userPhysBase).length ≤ 10 := by
      split
      · decide
      · exact decimalText_length h.userPhysBase
    rw [record, statFields]
    simp only [List.intercalate_cons_cons, List.intercalate_singleton, List.length_append,
      List.length_singleton]
    omega
  | mem => exact (by decide : 0 < procPidTextCap)
  | tty =>
    have := orDash_length h.ttyPath (by decide)
    rw [record]
    omega
  | exe =>
    have := orDash_length hprog (by decide)
    rw [record]
    omega

end Record

section Parse

variable {task : Task} {text : Text}

def Plain (v : Text) : Prop := 10 ∉ v ∧ v ≠ byteText "-"

def textFields (task : Task) : List Text := [task.ttyPath, task.progPath, task.cmdline]

def statusLabels : List Text :=
  [byteText "Pid:\t", byteText "State:\t", byteText "Tty:\t", byteText "Exe:\t",
   byteText "Cmdline:\t", byteText "ExitStatus:\t", byteText "TermSignal:\t",
   byteText "UserSlot:\t"]

theorem statusFields_labels (task : Task) : (statusFields task).map Prod.fst = statusLabels := rfl

theorem statusLabels_apart : statusLabels.Pairwise Apart := by decide

theorem stateNamed_name (st : TaskState) : stateNamed (procTaskStateName st) = some st := by
  cases st <;> decide

theorem unDash_orDash {v : Text} (h : v ≠ byteText "-") : unDash (orDash v) = v := by
  rw [orDash]
  split
  · exact if_neg h
  · rename_i hempty
    rw [not_not.mp hempty]
    exact if_pos rfl

theorem slot?_slotText (task : Task) : slot? (slotText task) = some task.userSlot := by
  rw [slotText]
  split
  · rename_i hslot
    rw [hslot]
    exact if_pos rfl
  · rw [slot?, if_neg, number?_decimalText]
    intro heq
    have hmem : (45 : UInt8) ∈ decimalText task.userSlot := by
      rw [heq]
      decide
    exact absurd (decimalText_digits hmem) (by decide)

theorem orDash_newline {v : Text} (h : 10 ∉ v) : 10 ∉ orDash v := by
  rw [orDash]
  split
  · exact h
  · decide

theorem decimalText_newline (v : Nat) : 10 ∉ decimalText v :=
  fun h => absurd (decimalText_digits h) (by decide)

theorem signedText_newline (v : Int) : 10 ∉ signedText v := by
  by_cases h : v < 0
  · rw [signedText_of_neg h, List.mem_cons]
    rintro (h | h)
    · cases h
    · exact decimalText_newline _ h
  · rw [signedText_of_nonneg (by omega)]
    exact decimalText_newline _

theorem statusFields_newline (hplain : ∀ v ∈ textFields task, Plain v) :
    ∀ p ∈ statusFields task, 10 ∉ p.1 ++ p.2 := by
  have hlabels : ∀ l ∈ (statusFields task).map Prod.fst, 10 ∉ l := by
    rw [statusFields_labels]
    decide
  have hstate : 10 ∉ procTaskStateName task.state := by cases task.state <;> decide
  have hslot : 10 ∉ slotText task := by
    rw [slotText]
    split
    · decide
    · exact decimalText_newline _
  simp only [textFields, List.mem_cons, List.not_mem_nil, or_false, forall_eq_or_imp,
    forall_eq] at hplain
  obtain ⟨htty, hexe, hcmd⟩ := hplain
  have hvalues : ∀ p ∈ statusFields task, 10 ∉ p.2 := by
    simp only [statusFields, List.mem_cons, List.not_mem_nil, or_false, forall_eq_or_imp, forall_eq]
    exact ⟨decimalText_newline _, hstate, orDash_newline htty.1, orDash_newline hexe.1,
      orDash_newline hcmd.1, signedText_newline _, decimalText_newline _, hslot⟩
  intro p hp hmem
  rcases List.mem_append.mp hmem with hmem | hmem
  · exact hlabels p.1 (List.mem_map_of_mem hp) hmem
  · exact hvalues p hp hmem

theorem splitOn_status (hplain : ∀ v ∈ textFields task, Plain v)
    (htext : text = statusBody task ∨ text = statusBody task ++ [10]) :
    ∃ rest, text.splitOn 10 = statusLines task ++ rest := by
  have hlines : (statusBody task).splitOn 10 = statusLines task := by
    refine List.splitOn_intercalate 10 ?_ (List.cons_ne_nil _ _)
    intro l hl
    obtain ⟨p, hp, rfl⟩ := List.mem_map.mp hl
    exact statusFields_newline hplain p hp
  rcases htext with rfl | rfl
  · exact ⟨[], by rw [hlines, List.append_nil]⟩
  · exact ⟨[[]], by rw [List.splitOn_append_cons_self, hlines]; rfl⟩

theorem parseStatus_fields (hplain : ∀ v ∈ textFields task, Plain v)
    (htext : text = statusBody task ∨ text = statusBody task ++ [10]) :
    parseStatus text = some (statusOf task) := by
  obtain ⟨rest, hsplit⟩ := splitOn_status hplain htext
  have hfield (p : Text × Text) (hp : p ∈ statusFields task) :
      fieldLine p.1 (text.splitOn 10) = some p.2 := by
    rw [hsplit]
    exact fieldLine_pair rest (statusFields_labels task ▸ statusLabels_apart) hp
  simp only [statusFields, List.mem_cons, List.not_mem_nil, or_false, forall_eq_or_imp,
    forall_eq] at hfield
  obtain ⟨hpid, hstate, htty, hexe, hcmd, hexit, hsignal, hslot⟩ := hfield
  simp only [textFields, List.mem_cons, List.not_mem_nil, or_false, forall_eq_or_imp,
    forall_eq] at hplain
  rw [parseStatus, hpid, hstate, htty, hexe, hcmd, hexit, hsignal, hslot]
  simp only [Option.bind_some, number?_decimalText, stateNamed_name, signed?_signedText,
    slot?_slotText, unDash_orDash hplain.1.2, unDash_orDash hplain.2.1.2,
    unDash_orDash hplain.2.2.2]
  rfl

theorem unDash_plain {label v : Text} (h : fieldLine label (text.splitOn 10) = some v) :
    Plain (unDash v) := by
  obtain ⟨l, hl, rfl⟩ := fieldLine_mem h
  have hfree : 10 ∉ l.drop label.length := fun hmem =>
    (Components.mem_splitOn 10 hl).1 (List.mem_of_mem_drop hmem)
  rw [unDash]
  split
  · exact ⟨List.not_mem_nil, by decide⟩
  · exact ⟨hfree, by assumption⟩

-- what is read from a line has no line end and is no dash
theorem plain_of_parseStatus (h : parseStatus text = some (statusOf task)) :
    ∀ v ∈ textFields task, Plain v := by
  simp only [parseStatus, Option.bind_eq_some_iff] at h
  obtain ⟨_, _, _, _, _, _, _, _, tty, htty, exe, hexe, cmd, hcmd, _, _, _, _, _, _, _, _, _, _, _, _,
    heq⟩ := h
  simp only [Option.some.injEq, statusOf, Status.mk.injEq] at heq
  obtain ⟨-, -, rtty, rexe, rcmd, -⟩ := heq
  simp only [textFields, List.mem_cons, List.not_mem_nil, or_false, forall_eq_or_imp, forall_eq]
  rw [← rtty, ← rexe, ← rcmd]
  exact ⟨unDash_plain htty, unDash_plain hexe, unDash_plain hcmd⟩

def RecordsComplete (task : Task) : Prop :=
  (∀ id, id ≠ .mem → record task id <+: fileText task id) ∧
    parseStatus (fileText task .status) = some (statusOf task)

theorem records_complete_iff (h : Holds task) : RecordsComplete task ↔
    (statusBody task).length < procPidTextCap ∧ ∀ v ∈ textFields task, Plain v := by
  have hstatus : PidFile.status ≠ .mem := nofun
  constructor
  · rintro ⟨hkept, hparse⟩
    exact ⟨(record_kept_iff h hstatus).mp (hkept _ hstatus), plain_of_parseStatus hparse⟩
  · rintro ⟨hroom, hplain⟩
    refine ⟨fun id hid => (record_kept_iff h hid).mpr ?_,
      parseStatus_fields hplain (fileText_whole h hstatus hroom)⟩
    by_cases hs : id = .status
    · subst hs
      exact hroom
    · exact record_short h hs

def initTask : Task :=
  ⟨2, 1, 0, noSlot, 0, .running, none, 0, 0, 0, 0, byteText "/dev/tty0", byteText "/bin/init",
    byteText "init -v"⟩

theorem records_complete_iff_init : RecordsComplete initTask := by
  refine (records_complete_iff ⟨by decide, by decide, by decide, by decide, by decide, by decide,
    by decide, by decide, by decide⟩).mpr ⟨?_, ?_⟩
  · have hpid := @decimalText_length 2 (by decide)
    have hzero := @decimalText_length 0 (by decide)
    have hexit := @signedText_length 0 (by decide) (by decide)
    have htexts : (procTaskStateName .running).length = 7 ∧ (orDash initTask.ttyPath).length = 9 ∧
        (orDash initTask.progPath).length = 9 ∧ (orDash initTask.cmdline).length = 7 ∧
        (slotText initTask).length = 2 ∧ procPidTextCap = 768 := by decide
    rw [statusBody_length]
    simp only [initTask] at htexts ⊢
    omega
  simp only [textFields, List.mem_cons, List.not_mem_nil, or_false, forall_eq_or_imp, forall_eq]
  exact ⟨⟨by decide, by decide⟩, ⟨by decide, by decide⟩, ⟨by decide, by decide⟩⟩

def filledTask : Task :=
  { initTask with
    ttyPath := List.replicate 63 97
    progPath := List.replicate 255 97
    cmdline := List.replicate 511 97 }

-- the longest texts that the members hold do not fit together
theorem filled_task_truncated : Holds filledTask ∧ ¬ RecordsComplete filledTask := by
  have hlong : ¬ (record filledTask .status).length < procPidTextCap := by
    have hroom (n : Nat) (hn : 0 < n) : (orDash (List.replicate n 97)).length = n := by
      have hne : List.replicate n (97 : UInt8) ≠ [] := by
        rw [ne_eq, List.replicate_eq_nil_iff]
        omega
      rw [orDash, if_pos hne, List.length_replicate]
    have htty := hroom 63 (by decide)
    have hexe := hroom 255 (by decide)
    have hcmd := hroom 511 (by decide)
    have hcap : procPidTextCap = 768 := rfl
    rw [record, statusBody_length]
    simp only [filledTask]
    omega
  refine ⟨⟨by decide, by decide, by decide, by decide, by decide, by decide, ?_, ?_, ?_⟩, ?_⟩
  · exact (List.length_replicate.trans_lt (by decide) : (List.replicate 63 _).length < 64)
  · exact (List.length_replicate.trans_lt (by decide) : (List.replicate 255 _).length < 256)
  · exact (List.length_replicate.trans_lt (by decide) : (List.replicate 511 _).length < 512)
  · rintro ⟨hkept, -⟩
    exact hlong (Nat.lt_of_le_of_lt (hkept .status nofun).length_le (fileText_length nofun))

end Parse

end HouseOS.Procfs
