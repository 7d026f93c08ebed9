import Mathlib.Data.List.Infix
import Mathlib.Data.List.TakeWhile

namespace HouseOS.Cmd

abbrev Bytes : Type := List UInt8

def inSize : Nat := 512

def lineSize : Nat := 1024

def newline : UInt8 := 10

def cString (hay : Bytes) : Bytes := hay.takeWhile fun c => decide (c ≠ 0)

def strContains (hay needle : Bytes) : Bool :=
  if needle.length = 0 then true
  else if (cString hay).length < needle.length then false
  else
    (List.range ((cString hay).length - needle.length + 1)).any fun i =>
      decide (((cString hay).drop i).take needle.length = needle)

def printed (needle line : Bytes) : Bytes :=
  if needle.length = 0 ∨ strContains line needle = true then line else []

structure Grep where
  line : Bytes
  out : Bytes

def Grep.feed (needle : Bytes) (g : Grep) (c : UInt8) : Grep :=
  let line := if g.line.length + 1 < lineSize then g.line ++ [c] else g.line
  if c = newline then ⟨[], g.out ++ printed needle line⟩ else ⟨line, g.out⟩

def Grep.reads (needle : Bytes) : Grep → List Bytes → Grep
  | g, [] => g
  | g, chunk :: chunks =>
      let g := chunk.foldl (Grep.feed needle) g
      if chunk.length < inSize then g else g.reads needle chunks

def Grep.finish (needle : Bytes) (g : Grep) : Bytes :=
  if 0 < g.line.length then g.out ++ printed needle g.line else g.out

def grepStream (needle : Bytes) (chunks : List Bytes) : Bytes :=
  (Grep.reads needle ⟨[], []⟩ chunks).finish needle

section Lines

variable {needle text cur l : Bytes} {chunks : List Bytes}

def linesFrom : Bytes → Bytes → List Bytes
  | cur, [] => if cur = [] then [] else [cur]
  | cur, c :: cs => if c = newline then (cur ++ [c]) :: linesFrom [] cs else linesFrom (cur ++ [c]) cs

def matching (needle : Bytes) (lines : List Bytes) : Bytes :=
  lines.flatMap fun l => if needle <:+: l then l else []

def matchingLines (needle text : Bytes) : Bytes := matching needle (linesFrom [] text)

-- what is read: up to the first short chunk
def readPart : List Bytes → Bytes
  | [] => []
  | chunk :: chunks => if chunk.length < inSize then chunk else chunk ++ readPart chunks

def GrepsExactly (needle : Bytes) (chunks : List Bytes) : Prop :=
  grepStream needle chunks = matchingLines needle chunks.flatten

def LinesFit (needle text : Bytes) : Prop :=
  ∀ l ∈ linesFrom [] text, needle <:+: l → l.length < lineSize

theorem cString_eq (h : (0 : UInt8) ∉ l) : cString l = l :=
  List.takeWhile_eq_self_iff.mpr fun _ hc => decide_eq_true fun heq => h (heq ▸ hc)

theorem printed_eq (h : (0 : UInt8) ∉ l) : printed needle l = if needle <:+: l then l else [] := by
  have hiff : needle.length = 0 ∨ strContains l needle = true ↔ needle <:+: l := by
    rw [strContains, cString_eq h]
    constructor
    · rintro (hnil | hfound)
      · rw [List.length_eq_zero_iff.mp hnil]
        exact List.nil_infix
      · split at hfound
        next hnil =>
          rw [List.length_eq_zero_iff.mp hnil]
          exact List.nil_infix
        next =>
          split at hfound
          · exact absurd hfound Bool.false_ne_true
          · obtain ⟨i, -, hi⟩ := List.any_eq_true.mp hfound
            rw [← of_decide_eq_true hi]
            exact ( List.take_prefix _ _).isInfix.trans (List.drop_suffix _ _).isInfix
    · intro hinfix
      obtain ⟨a, b, rfl⟩ := hinfix
      by_cases hnil : needle.length = 0
      · exact Or.inl hnil
      · right
        rw [if_neg hnil, if_neg (by simp only [List.length_append]; omega)]
        refine List.any_eq_true.mpr ⟨a.length, List.mem_range.mpr ?_, decide_eq_true ?_⟩
        · simp only [List.length_append]
          omega
        · rw [List.append_assoc, List.drop_left, List.take_left]
  rw [printed]
  simp only [hiff]

theorem reads_eq (needle : Bytes) (chunks : List Bytes) (g : Grep) :
    g.reads needle chunks = (readPart chunks).foldl (Grep.feed needle) g := by
  induction chunks generalizing g with
  | nil => rfl
  | cons chunk chunks ih =>
    rw [Grep.reads, readPart]
    split
    · rfl
    · rw [ih, List.foldl_append]

theorem readPart_prefix_flatten (chunks : List Bytes) : readPart chunks <+: chunks.flatten := by
  induction chunks with
  | nil => exact List.nil_prefix
  | cons chunk chunks ih =>
    rw [readPart, List.flatten_cons]
    split
    · exact List.prefix_append _ _
    · exact (List.prefix_append_right_inj chunk).mpr ih

theorem take_put (c : UInt8) :
    (if (cur.take (lineSize - 1)).length + 1 < lineSize then cur.take (lineSize - 1) ++ [c]
      else cur.take (lineSize - 1)) = (cur ++ [c]).take (lineSize - 1) := by
  rw [List.length_take]
  by_cases hlong : cur.length < lineSize - 1
  · rw [if_pos (by omega), List.take_of_length_le (by omega),
      List.take_of_length_le (by rw [List.length_append, List.length_singleton]; omega)]
  · rw [if_neg (by omega), List.take_append_of_le_length (by omega)]

-- the code prints each line as far as its buffer holds it
def printedLines (needle : Bytes) (lines : List Bytes) : Bytes :=
  lines.flatMap fun l => printed needle (l.take (lineSize - 1))

theorem feed_lines (needle text cur out : Bytes) :
    (text.foldl (Grep.feed needle) ⟨cur.take (lineSize - 1), out⟩).finish needle =
      out ++ printedLines needle (linesFrom cur text) := by
  induction text generalizing cur out with
  | nil =>
    rw [List.foldl_nil, Grep.finish, linesFrom]
    dsimp only
    by_cases hnil : cur = []
    · rw [if_pos hnil, hnil]
      exact (List.append_nil out).symm
    · have hpos := List.length_pos_iff.mpr hnil
      have htake : 0 < (cur.take (lineSize - 1)).length := by
        have hsize : lineSize = 1024 := rfl
        rw [List.length_take]
        omega
      rw [if_neg hnil, if_pos htake, printedLines, List.flatMap_cons, List.flatMap_nil, List.append_nil]
  | cons c text ih =>
    rw [List.foldl_cons, Grep.feed, linesFrom]
    dsimp only
    rw [take_put]
    split
    · have hrest := ih [] (out ++ printed needle ((cur ++ [c]).take (lineSize - 1)))
      rw [List.take_nil] at hrest
      rw [hrest, printedLines, printedLines, List.flatMap_cons, List.append_assoc]
    · exact ih _ _

theorem grepStream_eq (needle : Bytes) (chunks : List Bytes) :
    grepStream needle chunks = printedLines needle (linesFrom [] (readPart chunks)) := by
  have hlines := feed_lines needle (readPart chunks) [] []
  rwa [List.take_nil, List.nil_append, ← reads_eq] at hlines

theorem mem_linesFrom (h : l ∈ linesFrom cur text) {c : UInt8} (hc : c ∈ l) : c ∈ cur ∨ c ∈ text := by
  induction text generalizing cur with
  | nil =>
    rw [linesFrom] at h
    split at h
    · exact absurd h List.not_mem_nil
    · rw [List.mem_singleton.mp h] at hc
      exact Or.inl hc
  | cons d text ih =>
    have hput (hmem : c ∈ cur ++ [d]) : c ∈ cur ∨ c ∈ d :: text :=
      (List.mem_append.mp hmem).imp_right fun hd => by
        rw [List.mem_singleton.mp hd]
        exact List.mem_cons_self
    rw [linesFrom] at h
    split at h
    · rcases List.mem_cons.mp h with rfl | h
      · exact hput hc
      · exact Or.inr ((ih h).elim (fun hnil => absurd hnil List.not_mem_nil) (List.mem_cons_of_mem d))
    · exact (ih h).elim hput fun htext => Or.inr (List.mem_cons_of_mem d htext)

theorem matching_cons (l : Bytes) (lines : List Bytes) : matching needle (l :: lines) =
    (if needle <:+: l then l else []) ++ matching needle lines := List.flatMap_cons

theorem printed_line (h : (0 : UInt8) ∉ l) :
    (printed needle (l.take (lineSize - 1))).length ≤ (if needle <:+: l then l else []).length ∧
      ((printed needle (l.take (lineSize - 1))).length = (if needle <:+: l then l else []).length ↔
        (needle <:+: l → l.length < lineSize)) ∧
      ((needle <:+: l → l.length < lineSize) →
        printed needle (l.take (lineSize - 1)) = if needle <:+: l then l else []) := by
  have hsize : lineSize = 1024 := rfl
  have hcut : (0 : UInt8) ∉ l.take (lineSize - 1) := fun hmem => h (List.mem_of_mem_take hmem)
  have hsub : needle <:+: l.take (lineSize - 1) → needle <:+: l := fun hin =>
    hin.trans ( List.take_prefix _ _).isInfix
  rw [printed_eq hcut]
  by_cases hmatch : needle <:+: l
  · rw [if_pos hmatch]
    by_cases hlen : l.length < lineSize
    · rw [List.take_of_length_le (by omega), if_pos hmatch]
      exact ⟨Nat.le_refl _, iff_of_true rfl fun _ => hlen, fun _ => rfl⟩
    · have hless : (if needle <:+: l.take (lineSize - 1) then l.take (lineSize - 1) else []).length <
          l.length := by
        split
        · rw [List.length_take]
          omega
        · rw [List.length_nil]
          omega
      exact ⟨Nat.le_of_lt hless, iff_of_false (Nat.ne_of_lt hless) fun hall => hlen (hall hmatch),
        fun hall => absurd (hall hmatch) hlen⟩
  · rw [if_neg hmatch, if_neg (fun hin => hmatch (hsub hin))]
    exact ⟨Nat.le_refl _, iff_of_true rfl fun hin => absurd hin hmatch, fun _ => rfl⟩

theorem printedLines_spec (lines : List Bytes) (h : ∀ l ∈ lines, (0 : UInt8) ∉ l) :
    (printedLines needle lines).length ≤ (matching needle lines).length ∧
      ((printedLines needle lines).length = (matching needle lines).length →
        ∀ l ∈ lines, needle <:+: l → l.length < lineSize) ∧
      ((∀ l ∈ lines, needle <:+: l → l.length < lineSize) →
        printedLines needle lines = matching needle lines) := by
  induction lines with
  | nil => exact ⟨Nat.le_refl _, fun _ _ hl => absurd hl List.not_mem_nil, fun _ => rfl⟩
  | cons l lines ih =>
    obtain ⟨hle, hlen, heq⟩ := ih fun x hx => h x (List.mem_cons_of_mem l hx)
    obtain ⟨hle', hlen', heq'⟩ := printed_line (h l List.mem_cons_self)
    rw [matching_cons, printedLines, List.flatMap_cons, List.length_append, List.length_append]
    rw [printedLines] at hle hlen heq
    refine ⟨Nat.add_le_add hle' hle, fun hsame x hx => ?_, fun hall => ?_⟩
    · rcases List.mem_cons.mp hx with rfl | hx
      · exact hlen'.mp (by omega)
      · exact hlen (by omega) x hx
    · rw [heq' (hall l List.mem_cons_self), heq fun x hx => hall x (List.mem_cons_of_mem l hx)]

theorem begun_line (h : needle <:+: cur) (text : Bytes) : cur <+: matching needle (linesFrom cur text) := by
  induction text generalizing cur with
  | nil =>
    rw [linesFrom]
    split
    next hnil =>
      rw [hnil]
      exact List.nil_prefix
    next =>
      rw [matching_cons, if_pos h]
      exact List.prefix_append _ _
  | cons c text ih =>
    have hput : needle <:+: cur ++ [c] := h.trans (List.prefix_append cur [c]).isInfix
    rw [linesFrom]
    split
    · rw [matching_cons, if_pos hput, List.append_assoc]
      exact List.prefix_append _ _
    · exact (List.prefix_append cur [c]).trans (ih hput)

theorem matching_begins (cur : Bytes) {rest : Bytes} :
    matching needle (linesFrom cur text) <+: matching needle (linesFrom cur (text ++ rest)) := by
  induction text generalizing cur with
  | nil =>
    rw [linesFrom, List.nil_append]
    split
    next => exact List.nil_prefix
    next =>
      rw [matching_cons]
      split
      next hmatch =>
        rw [show matching needle [] = [] from rfl, List.append_nil]
        exact begun_line hmatch rest
      next => exact List.nil_prefix
  | cons c text ih =>
    rw [List.cons_append, linesFrom, linesFrom]
    split
    · rw [matching_cons, matching_cons]
      exact (List.prefix_append_right_inj _).mpr (ih [])
    · exact ih _

theorem greps_exactly_iff (needle : Bytes) (chunks : List Bytes) (htext : (0 : UInt8) ∉ chunks.flatten) :
    GrepsExactly needle chunks ↔ LinesFit needle (readPart chunks) ∧
      matchingLines needle (readPart chunks) = matchingLines needle chunks.flatten := by
  obtain ⟨rest, hrest⟩ := readPart_prefix_flatten chunks
  have hbegin : matchingLines needle (readPart chunks) <+: matchingLines needle chunks.flatten := by
    rw [← hrest]
    exact matching_begins []
  have hnul (l : Bytes) (hl : l ∈ linesFrom [] (readPart chunks)) : (0 : UInt8) ∉ l := by
    intro hzero
    rcases mem_linesFrom hl hzero with hnil | hpart
    · exact absurd hnil List.not_mem_nil
    · exact htext (hrest ▸ List.mem_append_left rest hpart)
  obtain ⟨hle, hlen, heq⟩ := printedLines_spec (linesFrom [] (readPart chunks)) hnul
  rw [GrepsExactly, grepStream_eq]
  constructor
  · intro hexact
    have hshort := hbegin.length_le
    have hsame : (matchingLines needle (readPart chunks)).length =
        (matchingLines needle chunks.flatten).length := by
      rw [hexact] at hle
      exact Nat.le_antisymm hshort hle
    have hwhole := hbegin.eq_of_length hsame
    refine ⟨hlen ?_, hwhole⟩
    rw [hexact, ← hwhole]
    rfl
  · rintro ⟨hfit, hwhole⟩
    rw [heq hfit, ← hwhole]
    rfl

theorem greps_exactly_lines : GrepsExactly [98] [[97, 98, 10, 98]] :=
  (greps_exactly_iff [98] [[97, 98, 10, 98]] (by decide)).mpr ⟨by unfold LinesFit; decide, by decide⟩

-- the second read is not made: the first answered fewer than 512 bytes
theorem short_read_ends_grep : ¬GrepsExactly [98] [[97, 10], [98, 10]] := by
  have hout : grepStream [98] [[97, 10], [98, 10]] = [] := by decide
  rw [GrepsExactly, hout]
  decide

end Lines

end HouseOS.Cmd
