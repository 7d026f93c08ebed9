import Mathlib.Data.List.GetD
import HouseOS.Library.CanonicalPath
import HouseOS.Vfs.Table

namespace HouseOS.Initramfs

open HouseOS.CanonicalPath
open HouseOS.Components (AtBoundary components_cons_component components_cons_sep)
open HouseOS.Vfs (Path pathComponents slash)

abbrev Buffer : Type := Nat → UInt8

def dot : UInt8 := 46

def pathSize : Nat := 256

def strncpy (dest : Buffer) (off : Nat) (src : Path) (n : Nat) : Buffer :=
  fun i => if off ≤ i ∧ i < off + n then src.getD (i - off) 0 else dest i

def makeAbsolutePath (dest : Buffer) (src : Path) (maxLen : Nat) : Buffer :=
  Function.update
    (if src.head? = some slash then strncpy dest 0 src (maxLen - 1)
     else strncpy (Function.update dest 0 slash) 1 src (maxLen - 2))
    (maxLen - 1) 0

structure Cleaning where
  path : Buffer
  r : Nat
  w : Nat
  lastWasSlash : Bool

namespace Cleaning

variable (s : Cleaning)

def skips : Prop :=
  s.path s.r = dot ∧ (s.r = 0 ∨ s.path (s.r - 1) = slash) ∧
    (s.path (s.r + 1) = slash ∨ s.path (s.r + 1) = 0)

instance : Decidable s.skips := inferInstanceAs (Decidable (_ ∧ _ ∧ _))

def next : Cleaning :=
  if s.path s.r = slash then
    if s.lastWasSlash then { s with r := s.r + 1 }
    else ⟨Function.update s.path s.w slash, s.r + 1, s.w + 1, true⟩
  else if s.skips then { s with r := s.r + 1 }
  else ⟨Function.update s.path s.w (s.path s.r), s.r + 1, s.w + 1, false⟩

end Cleaning

def cleanLoop : Nat → Cleaning → Option Cleaning
  | 0, _ => none
  | n + 1, s => if s.path s.r = 0 then some s else cleanLoop n s.next

def strlen (path : Buffer) : Nat → Nat → Option Nat
  | 0, _ => none
  | n + 1, i => if path i = 0 then some i else strlen path n (i + 1)

-- `memmove(path + 1, path, len + 1)` and the slash before it
def shifted (path : Buffer) (len : Nat) : Buffer :=
  fun i => if i = 0 then slash else if i ≤ len + 1 then path (i - 1) else path i

def finishClean (fuel : Nat) (path : Buffer) (w : Nat) : Option Buffer :=
  if w = 0 then some (Function.update (Function.update path 0 slash) 1 0)
  else
    let path := if 1 < w ∧ path (w - 1) = slash then Function.update path (w - 1) 0 else path
    if path 0 ≠ slash then (strlen path fuel 0).map (shifted path) else some path

def cleanPath (fuel : Nat) (path : Buffer) : Option Buffer :=
  if path 0 = 0 then some path
  else
    (cleanLoop fuel ⟨path, 0, 0, false⟩).bind fun s =>
      finishClean fuel (Function.update s.path s.w 0) s.w

section Loop

-- what the loop writes for the rest of the text: `bound` says that a component starts here
def emits : Path → Bool → Bool → Path
  | [], _, _ => []
  | c :: cs, bound, last =>
      if c = slash then if last then emits cs true true else slash :: emits cs true true
      else if c = dot ∧ bound = true ∧ AtBoundary slash cs then emits cs false last
      else c :: emits cs false false

structure Holds (path : Buffer) (t : Path) : Prop where
  text : ∀ i, i ≤ t.length → path i = t.getD i 0
  ends : (0 : UInt8) ∉ t

-- the loop reads nothing that it has overwritten: from the byte before `r` on the text is intact
structure Tracks (t out : Path) (s : Cleaning) : Prop where
  inside : s.r ≤ t.length
  behind : s.w ≤ s.r
  width : s.w = out.length
  ahead : ∀ i, s.r ≤ i + 1 → i ≤ t.length → s.path i = t.getD i 0
  written : ∀ i, i < s.w → s.path i = out.getD i 0

variable {t out : Path} {s : Cleaning} {path : Buffer}

theorem Tracks.skip (h : Tracks t out s) (hr : s.r < t.length) :
    Tracks t out { s with r := s.r + 1 } :=
  ⟨hr, Nat.le_succ_of_le h.behind, h.width, fun i hi hlen => h.ahead i (by
    have hi : s.r + 1 ≤ i + 1 := hi
    omega) hlen, h.written⟩

theorem Tracks.put (h : Tracks t out s) (hr : s.r < t.length) {v : UInt8} (hv : t.getD s.r 0 = v)
    (last : Bool) :
    Tracks t (out ++ [v]) ⟨Function.update s.path s.w v, s.r + 1, s.w + 1, last⟩ := by
  have hw := h.width
  have hbehind := h.behind
  refine ⟨hr, Nat.succ_le_succ h.behind, ?_, fun i hi hlen => ?_, fun i hi => ?_⟩
  · rw [List.length_append, List.length_singleton, ← hw]
  · have hi : s.r + 1 ≤ i + 1 := hi
    dsimp only
    by_cases hiw : i = s.w
    · obtain rfl : i = s.r := by omega
      rw [hiw, Function.update_self, ← hiw, hv]
    · rw [Function.update_of_ne hiw]
      exact h.ahead i (by omega) hlen
  · have hi : i < s.w + 1 := hi
    dsimp only
    by_cases hiw : i = s.w
    · rw [hiw, Function.update_self, hw, List.getD_append_right _ _ _ _ (Nat.le_refl _), Nat.sub_self]
      rfl
    · rw [Function.update_of_ne hiw, List.getD_append _ _ _ _ (by omega)]
      exact h.written i (by omega)

def boundAt (t : Path) (r : Nat) : Bool := decide (r = 0 ∨ t.getD (r - 1) 0 = slash)

theorem getD_drop (t : Path) (r k : Nat) : (t.drop r).getD k 0 = t.getD (r + k) 0 := by
  rw [List.getD_eq_getElem?_getD, List.getElem?_drop, ← List.getD_eq_getElem?_getD]

section Reading

variable {c : UInt8} {cs : Path}

theorem lt_of_drop (hdrop : t.drop s.r = c :: cs) : s.r < t.length := by
  by_contra hge
  rw [List.drop_eq_nil_of_le (by omega)] at hdrop
  exact nomatch hdrop

theorem drop_next (hdrop : t.drop s.r = c :: cs) : t.drop (s.r + 1) = cs := by
  rw [← List.drop_drop, hdrop]
  rfl

theorem getD_here (hdrop : t.drop s.r = c :: cs) : t.getD s.r 0 = c := by
  have hhere := getD_drop t s.r 0
  rw [hdrop] at hhere
  exact hhere.symm

theorem Tracks.here (h : Tracks t out s) (hdrop : t.drop s.r = c :: cs) : s.path s.r = c := by
  have hr := lt_of_drop hdrop
  rw [h.ahead s.r (by omega) (by omega), getD_here hdrop]

theorem Tracks.skips_iff (h : Tracks t out s) (hends : (0 : UInt8) ∉ t)
    (hdrop : t.drop s.r = c :: cs) :
    s.skips ↔ c = dot ∧ boundAt t s.r = true ∧ AtBoundary slash cs := by
  have hr := lt_of_drop hdrop
  have hafter : s.path (s.r + 1) = cs.getD 0 0 := by
    rw [h.ahead (s.r + 1) (by omega) (by omega), ← getD_drop, hdrop]
    rfl
  have hbefore : (s.r = 0 ∨ s.path (s.r - 1) = slash) ↔ boundAt t s.r = true := by
    rw [boundAt, decide_eq_true_iff]
    refine or_congr_right' fun hpos => ?_
    rw [h.ahead (s.r - 1) (by omega) (by omega)]
  have hnext : (s.path (s.r + 1) = slash ∨ s.path (s.r + 1) = 0) ↔ AtBoundary slash cs := by
    rw [hafter]
    cases cs with
    | nil => exact ⟨fun _ _ hd => (nomatch hd), fun _ => Or.inr rfl⟩
    | cons d cs =>
      have hd : d ≠ 0 := by
        rintro rfl
        refine hends (List.mem_of_mem_drop (i := s.r) ?_)
        rw [hdrop]
        exact List.mem_cons_of_mem c List.mem_cons_self
      constructor
      · rintro (heq | heq) e he
        · exact (Option.some.inj he).symm.trans heq
        · exact absurd heq hd
      · exact fun hall => Or.inl (hall d rfl)
  rw [Cleaning.skips, h.here hdrop, hbefore, hnext]

theorem boundAt_next (hdrop : t.drop s.r = c :: cs) :
    boundAt t (s.r + 1) = decide (c = slash) := by
  rw [boundAt, Nat.add_sub_cancel, getD_here hdrop]
  simp only [Nat.add_eq_zero_iff, Nat.one_ne_zero, and_false, false_or]

end Reading

theorem cleanLoop_emits (h : Tracks t out s) (hends : (0 : UInt8) ∉ t) {fuel : Nat}
    (hfuel : t.length - s.r < fuel) :
    ∃ s' out', cleanLoop fuel s = some s' ∧ Tracks t out' s' ∧
      out' = out ++ emits (t.drop s.r) (boundAt t s.r) s.lastWasSlash := by
  induction fuel generalizing s out with
  | zero => exact absurd hfuel (Nat.not_lt_zero _)
  | succ n ih =>
    rw [cleanLoop]
    cases hdrop : t.drop s.r with
    | nil =>
      have hr : s.r = t.length := Nat.le_antisymm h.inside (List.drop_eq_nil_iff.mp hdrop)
      have hzero : s.path s.r = 0 := by
        rw [h.ahead s.r (by omega) (by omega), hr, List.getD_eq_default _ _ (Nat.le_refl _)]
      rw [if_pos hzero]
      exact ⟨s, out, rfl, h, (List.append_nil out).symm⟩
    | cons c cs =>
      have hr := lt_of_drop hdrop
      have hc : c ≠ 0 := by
        rintro rfl
        refine hends (List.mem_of_mem_drop (i := s.r) ?_)
        rw [hdrop]
        exact List.mem_cons_self
      have hhere := h.here hdrop
      have hbound := boundAt_next hdrop
      rw [if_neg (by rw [hhere]; exact hc), Cleaning.next, hhere, emits]
      by_cases hslash : c = slash
      · subst hslash
        rw [if_pos rfl, if_pos rfl]
        by_cases hlast : s.lastWasSlash = true
        · rw [if_pos hlast, if_pos hlast]
          obtain ⟨s', out', hrun, htracks, heq⟩ := ih (h.skip hr) (by dsimp only; omega)
          refine ⟨s', out', hrun, htracks, heq.trans ?_⟩
          dsimp only
          rw [drop_next hdrop, hbound, hlast]
          rfl
        · rw [if_neg hlast, if_neg hlast]
          obtain ⟨s', out', hrun, htracks, heq⟩ :=
            ih (h.put hr (getD_here hdrop) true) (by dsimp only; omega)
          refine ⟨s', out', hrun, htracks, heq.trans ?_⟩
          dsimp only
          rw [drop_next hdrop, hbound, List.append_assoc]
          rfl
      · rw [if_neg hslash, if_neg hslash]
        have hfalse : decide (c = slash) = false := decide_eq_false hslash
        by_cases hskips : s.skips
        · rw [if_pos hskips, if_pos ((h.skips_iff hends hdrop).mp hskips)]
          obtain ⟨s', out', hrun, htracks, heq⟩ := ih (h.skip hr) (by dsimp only; omega)
          refine ⟨s', out', hrun, htracks, heq.trans ?_⟩
          dsimp only
          rw [drop_next hdrop, hbound, hfalse]
        · rw [if_neg hskips, if_neg (fun hall => hskips ((h.skips_iff hends hdrop).mpr hall))]
          obtain ⟨s', out', hrun, htracks, heq⟩ :=
            ih (h.put hr (getD_here hdrop) false) (by dsimp only; omega)
          refine ⟨s', out', hrun, htracks, heq.trans ?_⟩
          dsimp only
          rw [drop_next hdrop, hbound, hfalse, List.append_assoc]
          rfl

end Loop

section Text

variable {p c rest : Path} {x : UInt8}

def kept (p : Path) : List Path := (pathComponents p).filter fun c => decide (c ≠ [dot])

theorem mem_emits {bound last : Bool} (hx : x ∈ emits p bound last) : x = slash ∨ x ∈ p := by
  induction p generalizing bound last with
  | nil => exact absurd hx List.not_mem_nil
  | cons d p ih =>
    have hlater {b l : Bool} (h : x ∈ emits p b l) : x = slash ∨ x ∈ d :: p :=
      (ih h).imp_right (List.mem_cons_of_mem d)
    rw [emits] at hx
    split_ifs at hx
    · exact hlater hx
    · exact (List.mem_cons.mp hx).elim Or.inl hlater
    · exact hlater hx
    · rcases List.mem_cons.mp hx with rfl | hx
      · exact Or.inr List.mem_cons_self
      · exact hlater hx

theorem emits_inside (hc : slash ∉ c) (rest : Path) :
    emits (c ++ rest) false false = c ++ emits rest false false := by
  induction c with
  | nil => rfl
  | cons d c ih =>
    have hd : d ≠ slash := fun heq => hc (heq ▸ List.mem_cons_self)
    rw [List.cons_append, emits, if_neg hd, if_neg (fun h => nomatch h.2.1),
      ih fun hmem => hc (List.mem_cons_of_mem d hmem), List.cons_append]

theorem emits_name (hne : c ≠ []) (hc : slash ∉ c) (hdot : c ≠ [dot]) (rest : Path) :
    emits (c ++ rest) true true = c ++ emits rest false false := by
  obtain ⟨d, c, rfl⟩ := List.exists_cons_of_ne_nil hne
  have hd : d ≠ slash := fun heq => hc (heq ▸ List.mem_cons_self)
  have hc' : slash ∉ c := fun hmem => hc (List.mem_cons_of_mem d hmem)
  have hname : ¬(d = dot ∧ true = true ∧ AtBoundary slash (c ++ rest)) := by
    rintro ⟨rfl, -, hbound⟩
    cases c with
    | nil => exact hdot rfl
    | cons e c => exact hc' (hbound e rfl ▸ List.mem_cons_self)
  rw [List.cons_append, emits, if_neg hd, if_neg hname, emits_inside hc', List.cons_append]

theorem emits_dot (h : AtBoundary slash rest) :
    emits ([dot] ++ rest) true true = emits rest false true := by
  rw [List.singleton_append, emits, if_neg (by decide), if_pos ⟨rfl, rfl, h⟩]

theorem kept_slash (p : Path) : kept (slash :: p) = kept p := by
  rw [kept, pathComponents, components_cons_sep, kept, pathComponents]

theorem kept_name (hne : c ≠ []) (hc : slash ∉ c) (h : AtBoundary slash rest) :
    kept (c ++ rest) = if c = [dot] then kept rest else c :: kept rest := by
  rw [kept, pathComponents, components_cons_component slash (fun x hx heq => hc (heq ▸ hx)) hne h]
  split
  next heq => rw [heq, List.filter_cons_of_neg (by decide), kept, pathComponents]
  next hdot => rw [List.filter_cons_of_pos (by simpa using hdot), kept, pathComponents]

theorem absolute_cons (c : Path) {cs : List Path} (tail : Path)
    (htail : tail = [] ∨ tail = [slash] ∧ cs ≠ []) :
    ∃ tail', slash :: c ++ (absolute slash cs ++ tail) = absolute slash (c :: cs) ++ tail' ∧
      (tail' = [] ∨ tail' = [slash]) := by
  rw [absolute, absolute, if_neg (List.cons_ne_nil c cs), spelled_cons]
  split
  next hnil =>
    obtain rfl : tail = [] := htail.resolve_right fun h => h.2 hnil
    rw [hnil]
    exact ⟨[slash], by rw [spelled, List.flatMap_nil, List.append_nil, List.append_nil], Or.inr rfl⟩
  next => exact ⟨tail, (List.append_assoc _ _ _).symm, htail.imp_right And.left⟩

-- at the start of a component, behind a slash: the kept components and at most one more slash
theorem emits_spells (p : Path) : ∃ tail, slash :: emits p true true = absolute slash (kept p) ++ tail ∧
    (tail = [] ∨ tail = [slash] ∧ kept p ≠ []) := by
  induction hn : p.length using Nat.strong_induction_on generalizing p with
  | _ n ih =>
    cases p with
    | nil => exact ⟨[], rfl, Or.inl rfl⟩
    | cons d p =>
      rw [List.length_cons] at hn
      by_cases hd : d = slash
      · subst hd
        rw [emits, if_pos rfl, if_pos rfl, kept_slash]
        exact ih p.length (by omega) p rfl
      · obtain ⟨c, rest, heq, hne, hc, hrest⟩ := exists_component hd p
        have hlen := congrArg List.length heq
        have hpos := List.length_pos_iff.mpr hne
        rw [List.length_cons, List.length_append] at hlen
        rw [heq, kept_name hne hc hrest]
        by_cases hdot : c = [dot]
        · rw [if_pos hdot, hdot, emits_dot hrest]
          cases rest with
          | nil => exact ⟨[], rfl, Or.inl rfl⟩
          | cons e rest =>
            obtain rfl : e = slash := hrest e rfl
            rw [List.length_cons] at hlen
            rw [emits, if_pos rfl, if_pos rfl, kept_slash]
            exact ih rest.length (by omega) rest rfl
        · rw [if_neg hdot, emits_name hne hc hdot]
          cases rest with
          | nil =>
            refine ⟨[], ?_, Or.inl rfl⟩
            rw [absolute, if_neg (List.cons_ne_nil _ _), spelled_cons, List.append_nil]
            rfl
          | cons e rest =>
            obtain rfl : e = slash := hrest e rfl
            rw [List.length_cons] at hlen
            obtain ⟨tail, hspelled, htail⟩ := ih rest.length (by omega) rest rfl
            obtain ⟨tail', heq', htail'⟩ := absolute_cons c tail htail
            rw [emits, if_pos rfl, if_neg Bool.false_ne_true, hspelled, kept_slash,
              ← List.cons_append, heq']
            exact ⟨tail', rfl, htail'.imp_right fun h => ⟨h, List.cons_ne_nil _ _⟩⟩

theorem areComponents_kept (p : Path) : AreComponents slash (kept p) :=
  (areComponents_components p).filter _

theorem kept_absolute (p : Path) : kept (absolute slash (kept p)) = kept p := by
  rw [kept, pathComponents, components_absolute (areComponents_kept p)]
  exact List.filter_eq_self.mpr fun c hc => (List.mem_filter.mp hc).2

end Text

section Cleaned

variable {path : Buffer} {p t : Path}

theorem Holds.last (h : Holds path t) (hlen : 0 < t.length) :
    t.getLast? = some (path (t.length - 1)) := by
  rw [h.text _ (Nat.sub_le _ _), List.getLast?_eq_getElem?, List.getD_eq_getElem?_getD,
    List.getElem?_eq_getElem (by omega), Option.getD_some]

theorem finishClean_cuts (h : Holds path t) {cs : List Path} {tail : Path}
    (ht : t = absolute slash cs ++ tail) (hcs : AreComponents slash cs)
    (htail : tail = [] ∨ tail = [slash] ∧ cs ≠ []) {fuel : Nat} :
    ∃ path', finishClean fuel path t.length = some path' ∧ Holds path' (absolute slash cs) := by
  obtain ⟨hhead, -, hbare⟩ := absolute_clean hcs
  obtain ⟨rest, habs⟩ := List.head?_eq_some_iff.mp hhead
  have hpos : 0 < t.length := by
    rw [ht, habs]
    exact Nat.succ_pos _
  have hfirst : path 0 = slash := by
    rw [h.text 0 (Nat.zero_le _), ht, habs]
    rfl
  have hlast := h.last hpos
  have hends : (0 : UInt8) ∉ absolute slash cs := fun hmem => h.ends (ht ▸ List.mem_append_left tail hmem)
  rw [finishClean, if_neg (Nat.pos_iff_ne_zero.mp hpos)]
  dsimp only
  rcases htail with rfl | ⟨rfl, hne⟩
  · rw [List.append_nil] at ht
    have hkeep : ¬(1 < t.length ∧ path (t.length - 1) = slash) := by
      rintro ⟨hlong, hslash⟩
      rw [hslash, ht] at hlast
      rcases hbare with hroot | hbare
      · rw [ht, hroot] at hlong
        exact absurd hlong (by decide)
      · exact hbare hlast
    rw [if_neg hkeep, if_neg (not_not.mpr hfirst)]
    exact ⟨path, rfl, ht ▸ h⟩
  · have hlen : t.length = (absolute slash cs).length + 1 := by
      rw [ht, List.length_append]
      rfl
    have hshort : 0 < (absolute slash cs).length := by
      rw [habs]
      exact Nat.succ_pos _
    have hcut : 1 < t.length ∧ path (t.length - 1) = slash := by
      refine ⟨by omega, ?_⟩
      rw [ht, List.getLast?_concat] at hlast
      rw [← ht] at hlast
      exact (Option.some.inj hlast).symm
    have hfirst' : Function.update path (t.length - 1) 0 0 = slash := by
      rw [Function.update_of_ne (by omega), hfirst]
    rw [if_pos hcut, if_neg (not_not.mpr hfirst')]
    refine ⟨_, rfl, fun i hi => ?_, hends⟩
    by_cases hi' : i = t.length - 1
    · rw [hi', Function.update_self, List.getD_eq_default _ _ (by omega)]
    · rw [Function.update_of_ne hi', h.text i (by omega), ht, List.getD_append _ _ _ _ (by omega)]

theorem Holds.cleaned (h : Holds path (slash :: p)) {fuel : Nat}
    (hfuel : (slash :: p).length < fuel) :
    ∃ path', cleanPath fuel path = some path' ∧ Holds path' (absolute slash (kept p)) ∧
      (absolute slash (kept p)).length ≤ (slash :: p).length := by
  have hstart : Tracks (slash :: p) [] ⟨path, 0, 0, false⟩ :=
    ⟨Nat.zero_le _, Nat.le_refl 0, rfl, fun i _ hi => h.text i hi, fun i hi => absurd hi (Nat.not_lt_zero i)⟩
  obtain ⟨s, out, hrun, htracks, hout⟩ := cleanLoop_emits hstart h.ends hfuel
  rw [List.nil_append, List.drop_zero, emits, if_pos rfl, if_neg Bool.false_ne_true] at hout
  obtain ⟨tail, hspelled, htail⟩ := emits_spells p
  rw [hspelled] at hout
  have hlen : out.length ≤ (slash :: p).length := by
    have hbehind := htracks.behind
    have hinside := htracks.inside
    have hwidth := htracks.width
    omega
  have hends : (0 : UInt8) ∉ out := by
    intro hmem
    rw [hout, ← hspelled] at hmem
    rcases List.mem_cons.mp hmem with heq | hmem
    · exact absurd heq (by decide)
    · rcases mem_emits hmem with heq | hmem
      · exact absurd heq (by decide)
      · exact h.ends (List.mem_cons_of_mem slash hmem)
  have hzero : path 0 ≠ 0 := by
    rw [h.text 0 (Nat.zero_le _)]
    exact (by decide : slash ≠ 0)
  have hwritten : ∀ i, i ≤ out.length →
      Function.update s.path s.w 0 i = out.getD i 0 := by
    intro i hi
    rw [← htracks.width] at hi
    by_cases hiw : i = s.w
    · rw [hiw, Function.update_self, htracks.width, List.getD_eq_default _ _ (Nat.le_refl _)]
    · rw [Function.update_of_ne hiw, htracks.written i (by omega)]
  rw [cleanPath, if_neg hzero, hrun, Option.bind_some, htracks.width]
  rw [htracks.width] at hwritten
  obtain ⟨path', hfinish, htext⟩ := finishClean_cuts ⟨hwritten, hends⟩ hout (areComponents_kept p) htail
  refine ⟨path', hfinish, htext, ?_⟩
  rw [hout, List.length_append] at hlen
  omega

theorem strncpy_text (dest : Buffer) {off n : Nat} {src : Path} (i : Nat) (hi : i < n) :
    strncpy dest off src n (off + i) = src.getD i 0 := by
  rw [strncpy, if_pos ⟨Nat.le_add_right _ _, by omega⟩, Nat.add_sub_cancel_left]

theorem makeAbsolutePath_holds (dest : Buffer) {name : Path} (hends : (0 : UInt8) ∉ name)
    (hlen : name.length < 255) :
    ∃ p, Holds (makeAbsolutePath dest name pathSize) (slash :: p) ∧ kept p = kept name ∧
      (slash :: p).length < pathSize := by
  have hsize : pathSize = 256 := rfl
  rw [makeAbsolutePath]
  split
  next hhead =>
    obtain ⟨p, rfl⟩ := List.head?_eq_some_iff.mp hhead
    refine ⟨p, ⟨fun i hi => ?_, hends⟩, (kept_slash p).symm, by omega⟩
    rw [Function.update_of_ne (by omega)]
    have htext : strncpy dest 0 (slash :: p) (pathSize - 1) (0 + i) = (slash :: p).getD i 0 :=
      strncpy_text dest i (by omega)
    rwa [Nat.zero_add] at htext
  next =>
    have hends' : (0 : UInt8) ∉ slash :: name := fun hmem => by
      rcases List.mem_cons.mp hmem with heq | hmem
      · exact absurd heq (by decide)
      · exact hends hmem
    refine ⟨name, ⟨fun i hi => ?_, hends'⟩, rfl, by rw [List.length_cons]; omega⟩
    rw [List.length_cons] at hi
    cases i with
    | zero =>
      rw [Function.update_of_ne (by omega), strncpy, if_neg (by omega), Function.update_self]
      rfl
    | succ i =>
      by_cases hi' : i + 1 = pathSize - 1
      · rw [hi', Function.update_self, List.getD_eq_default _ _ (by rw [List.length_cons]; omega)]
      · rw [Function.update_of_ne hi', Nat.add_comm i 1, strncpy_text _ i (by omega), Nat.add_comm 1 i]
        rfl

structure CleanedName (name out : Path) : Prop where
  clean : Clean slash out
  noDot : [dot] ∉ pathComponents out
  components : pathComponents out = (pathComponents name).filter fun c => decide (c ≠ [dot])

theorem archive_path_cleaned (dest : Buffer) (name : Path) (hends : (0 : UInt8) ∉ name)
    (hlen : name.length < 255) :
    ∃ path out, cleanPath pathSize (makeAbsolutePath dest name pathSize) = some path ∧
      Holds path out ∧ CleanedName name out ∧
        ∃ path', cleanPath pathSize path = some path' ∧ Holds path' out := by
  obtain ⟨p, hholds, hkept, hfit⟩ := makeAbsolutePath_holds dest hends hlen
  obtain ⟨path, hrun, htext, hshort⟩ := hholds.cleaned hfit
  have hcs := areComponents_kept p
  have hclean := absolute_clean hcs
  have hcomponents : pathComponents (absolute slash (kept p)) = kept p := components_absolute hcs
  refine ⟨path, absolute slash (kept p), hrun, htext, ⟨hclean, ?_, ?_⟩, ?_⟩
  · rw [hcomponents]
    exact fun hmem => absurd rfl (of_decide_eq_true (List.mem_filter.mp hmem).2)
  · rw [hcomponents, hkept, kept]
  · obtain ⟨q, hq⟩ := List.head?_eq_some_iff.mp hclean.absolute
    rw [hq] at htext hshort
    have hfit' : (slash :: q).length < pathSize := Nat.lt_of_le_of_lt hshort hfit
    obtain ⟨path', hrun', htext', -⟩ := htext.cleaned hfit'
    refine ⟨path', hrun', ?_⟩
    rwa [← kept_slash, ← hq, kept_absolute] at htext'

theorem archive_path_cleaned_dots :
    ∃ path out, cleanPath pathSize (makeAbsolutePath (fun _ => 170) [46, 47, 97, 47, 47, 98, 47, 46]
        pathSize) = some path ∧ Holds path out ∧ CleanedName [46, 47, 97, 47, 47, 98, 47, 46] out ∧
      ∃ path', cleanPath pathSize path = some path' ∧ Holds path' out :=
  archive_path_cleaned (fun _ => 170) [46, 47, 97, 47, 47, 98, 47, 46] (by decide) (by decide)

end Cleaned

end HouseOS.Initramfs
