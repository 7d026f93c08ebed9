import HouseOS.Cmd.Model
import HouseOS.Library.CanonicalPath
import HouseOS.Vfs.Table

namespace HouseOS.Cmd

open HouseOS.CanonicalPath
open HouseOS.Components (components_cons_sep components_skip components_split)
open HouseOS.Vfs (Path pathComponents slash)

-- the shell's copy takes `g_pwd` for the working directory
def shellNormalizePath (gPwd inp : Path) (cap : Nat) : Option Path := normalizePath gPwd inp cap

section Specification

def climb (stack : List Path) (seg : Path) : List Path :=
  if seg = dot then stack else if seg = dotdot then stack.tail else seg :: stack

def folded (segs : List Path) : List Path := (segs.foldl climb []).reverse

def wholePath (cwd inp : Path) : Path :=
  if inp.head? = some slash then inp else cwd ++ slash :: inp

structure NormalForm (cwd inp out : Path) : Prop where
  folds : out = absolute slash (folded (pathComponents (wholePath cwd inp)))
  clean : Clean slash out
  plain : dot ∉ pathComponents out ∧ dotdot ∉ pathComponents out

def NormalizesWell (normalize : Path → Path → Nat → Option Path) (cwd inp : Path) (cap : Nat) : Prop :=
  ∀ out, normalize cwd inp cap = some out →
    NormalForm cwd inp out ∧ normalize cwd out cap = some out

def CanonicalDir (cwd : Path) : Prop :=
  ∃ cs, AreComponents slash cs ∧ dot ∉ cs ∧ dotdot ∉ cs ∧ cwd = absolute slash cs

end Specification

section Conditions

-- how long the line is and where its components begin, the last one first
structure Room where
  used : Nat
  starts : List Nat

def Room.add (cap : Nat) (r : Room) (seg : Path) : Option Room :=
  if seg = dot then some r
  else if seg = dotdot then
    match r.starts with
    | [] => some r
    | start :: starts => some ⟨start, starts⟩
  else
    let used := if 1 < r.used then r.used + 1 else r.used
    if cap ≤ used + seg.length ∨ segMax ≤ r.starts.length then none
    else some ⟨used + seg.length, used :: r.starts⟩

def FindsRoom (cap : Nat) (segs : List Path) : Prop :=
  (segs.foldlM (Room.add cap) ⟨1, []⟩).isSome

-- the depth, and whether some ".." that did not reach the root came since the root was left
def leave (d : Nat × Bool) (seg : Path) : Nat × Bool :=
  if seg = dot then d
  else if seg = dotdot then
    match d.1 with
    | 0 => d
    | 1 => (0, false)
    | n + 2 => (n + 1, true)
  else (d.1 + 1, d.2)

def LeavesSlash (segs : List Path) : Prop := (segs.foldl leave (0, false)).2 = true

def Normalizable (cwd inp : Path) (cap : Nat) : Prop :=
  ∀ tmp, joinCwd cwd inp = some tmp → 2 ≤ cap → FindsRoom cap (pathComponents tmp) →
    ¬LeavesSlash (pathComponents tmp) ∧
      folded (pathComponents tmp) = folded (pathComponents (wholePath cwd inp))

end Conditions

section Segments

structure Draft where
  out : Path
  starts : List Nat

def Draft.add (cap : Nat) (d : Draft) (seg : Path) : Option Draft :=
  if seg = dot then some d
  else if seg = dotdot then
    match d.starts with
    | [] => some d
    | start :: starts => some ⟨d.out.take start, starts⟩
  else if 1 < d.out.length ∧ cap - 1 ≤ d.out.length then none
  else
    let out := if 1 < d.out.length then d.out ++ [slash] else d.out
    if cap ≤ out.length + seg.length ∨ segMax ≤ d.starts.length then none
    else some ⟨out ++ seg, out.length :: d.starts⟩

theorem addSegments_eq (cap : Nat) {fuel : Nat} {tmp : Path} (hfuel : tmp.length < fuel)
    (out : Path) (starts : List Nat) :
    addSegments cap fuel tmp out starts =
      ((pathComponents tmp).foldlM (Draft.add cap) ⟨out, starts⟩).map Draft.out := by
  induction fuel generalizing tmp out starts with
  | zero => exact absurd hfuel (Nat.not_lt_zero _)
  | succ fuel ih =>
    rw [addSegments, pathComponents, ← components_skip]
    cases hskip : tmp.dropWhile (fun c => decide (c = slash)) with
    | nil =>
      rw [Components.components_nil]
      rfl
    | cons c rest =>
      have hhead : (c :: rest).head? ≠ some slash := by
        rw [← hskip]
        exact Components.skip_head slash tmp
      have hshort : ((c :: rest).dropWhile fun c => decide (c ≠ slash)).length < fuel := by
        have hlen : (c :: rest).length ≤ tmp.length :=
          hskip ▸ (List.dropWhile_sublist _).length_le
        rw [List.dropWhile_cons_of_pos (by simpa using hhead)]
        have hrest := (List.dropWhile_sublist (l := rest) fun c => decide (c ≠ slash)).length_le
        rw [List.length_cons] at hlen
        omega
      rw [components_split slash hhead (List.cons_ne_nil c rest), List.foldlM_cons]
      dsimp only
      have hnext := fun o st => ih hshort o st
      generalize (c :: rest).takeWhile (fun c => decide (c ≠ slash)) = seg
      rw [Draft.add]
      by_cases hdot : seg = dot
      · rw [if_pos hdot, if_pos hdot]
        exact hnext out starts
      rw [if_neg hdot, if_neg hdot]
      by_cases hup : seg = dotdot
      · rw [if_pos hup, if_pos hup]
        cases starts with
        | nil => exact hnext out []
        | cons start starts => exact hnext (out.take start) starts
      rw [if_neg hup, if_neg hup]
      by_cases hfull : 1 < out.length ∧ cap - 1 ≤ out.length
      · rw [if_pos hfull, if_pos hfull]
        rfl
      rw [if_neg hfull, if_neg hfull]
      dsimp only
      generalize (if 1 < out.length then out ++ [slash] else out) = out
      by_cases hroom : cap ≤ out.length + seg.length ∨ segMax ≤ starts.length
      · rw [if_pos hroom, if_pos hroom]
        rfl
      · rw [if_neg hroom, if_neg hroom]
        exact hnext _ _

theorem normalizePath_eq (cwd inp : Path) (cap : Nat) :
    normalizePath cwd inp cap =
      if cap < 2 then none
      else (joinCwd cwd inp).bind fun tmp =>
        ((pathComponents tmp).foldlM (Draft.add cap) ⟨[slash], []⟩).map Draft.out := by
  rw [normalizePath]
  congr 1
  refine congrArg _ (funext fun tmp => ?_)
  exact addSegments_eq cap (Nat.lt_succ_self _) [slash] []

end Segments

section Placement

variable {cap : Nat} {seg : Path} {d d' : Draft}

def Starts (out : Path) : List Nat → Prop
  | [] => out = [slash]
  | start :: starts =>
      start ≤ out.length ∧ (starts ≠ [] → 1 < start ∧ (out.take start).getLast? = some slash) ∧
        1 < out.length ∧ Starts (out.take start) starts

theorem Starts.root {out : Path} {start : Nat} (h : Starts out [start]) : out.take start = [slash] :=
  h.2.2.2

def HasStray (out : Path) : Prop :=
  1 < out.length ∧ (out.getLast? = some slash ∨ ¬out.IsChain fun a b => a = slash → b ≠ slash)

structure Placed (stack : List Path) (left : Nat × Bool) (d : Draft) : Prop where
  starts : Starts d.out d.starts
  depth : d.starts.length = stack.length
  count : left.1 = stack.length
  names : AreComponents slash stack
  exact : left.2 = false → d.out = absolute slash stack.reverse
  stray : left.2 = true → HasStray d.out

theorem HasStray.not_clean {out : Path} (h : HasStray out) : ¬Clean slash out := by
  rintro ⟨-, hsingle, hbare⟩
  obtain ⟨hlen, hlast | hdouble⟩ := h
  · rcases hbare with rfl | hbare
    · exact absurd hlen (by decide)
    · exact hbare hlast
  · exact hdouble hsingle

theorem HasStray.grows {out : Path} (h : HasStray out) (seg : Path) :
    HasStray (out ++ [slash] ++ seg) := by
  obtain ⟨hlen, hstray⟩ := h
  refine ⟨by rw [List.length_append, List.length_append]; omega, Or.inr fun hchain => ?_⟩
  rw [List.append_assoc, List.isChain_append] at hchain
  obtain ⟨hout, -, hmeet⟩ := hchain
  rcases hstray with hlast | hdouble
  · exact hmeet slash hlast slash rfl rfl rfl
  · exact hdouble hout

theorem Placed.long {stack : List Path} {left : Nat × Bool} (h : Placed stack left d)
    (hne : d.starts ≠ []) : 1 < d.out.length := by
  have hstarts := h.starts
  cases heq : d.starts with
  | nil => exact absurd heq hne
  | cons start starts =>
    rw [heq] at hstarts
    exact hstarts.2.2.1

theorem placed_start : Placed [] (0, false) ⟨[slash], []⟩ :=
  ⟨rfl, rfl, rfl, fun _ hc => absurd hc List.not_mem_nil, fun _ => rfl, fun h => nomatch h⟩

theorem Placed.up {stack : List Path} {left : Nat × Bool} {start : Nat} {starts : List Nat}
    (h : Placed stack left d) (heq : d.starts = start :: starts) :
    Placed stack.tail (leave left dotdot) ⟨d.out.take start, starts⟩ := by
  obtain ⟨hstarts, hdepth, hcount, hnames, -, -⟩ := h
  rw [heq] at hstarts hdepth
  obtain ⟨hle, hlast, -, hrest⟩ := hstarts
  rw [List.length_cons] at hdepth
  have hlen : stack.tail.length = starts.length := by
    rw [List.length_tail]
    omega
  have hnames' : AreComponents slash stack.tail := fun c hc => hnames c (List.mem_of_mem_tail hc)
  rw [leave, if_neg (by decide), if_pos rfl]
  cases starts with
  | nil =>
    have hone : left.1 = 1 := by
      rw [hcount, ← hdepth]
      rfl
    rw [hone]
    refine ⟨hrest, hlen.symm, hlen.symm, hnames', fun _ => ?_, fun h => nomatch h⟩
    rw [List.eq_nil_of_length_eq_zero hlen]
    exact hrest
  | cons start' starts =>
    obtain ⟨hpos, hslash⟩ := hlast (List.cons_ne_nil _ _)
    rw [List.length_cons] at hlen hdepth
    obtain ⟨n, hn⟩ : ∃ n, left.1 = n + 2 := ⟨left.1 - 2, by omega⟩
    rw [hn]
    refine ⟨hrest, hlen.symm, by dsimp only; omega, hnames', (fun h => nomatch h), fun _ => ?_⟩
    refine ⟨?_, Or.inl hslash⟩
    dsimp only
    rw [List.length_take]
    omega

theorem Placed.push {stack : List Path} {left : Nat × Bool} (h : Placed stack left d)
    (hne : seg ≠ []) (hseg : slash ∉ seg) (hdot : seg ≠ dot) (hup : seg ≠ dotdot) {out : Path}
    (hout : out = if 1 < d.out.length then d.out ++ [slash] else d.out) :
    Placed (seg :: stack) (leave left seg) ⟨out ++ seg, out.length :: d.starts⟩ := by
  have hlong := h.long
  obtain ⟨hstarts, hdepth, hcount, hnames, hexact, hstray⟩ := h
  have hpos := List.length_pos_iff.mpr hne
  have hnames' : AreComponents slash (seg :: stack) := fun c hc => by
    rcases List.mem_cons.mp hc with rfl | hc
    · exact ⟨hne, hseg⟩
    · exact hnames c hc
  rw [leave, if_neg hdot, if_neg hup]
  have htake : (out ++ seg).take out.length = out := List.take_left
  cases heq : d.starts with
  | nil =>
    rw [heq] at hstarts hdepth
    have hroot : d.out = [slash] := hstarts
    have hstack : stack = [] := List.eq_nil_of_length_eq_zero hdepth.symm
    rw [hroot, if_neg (by decide)] at hout
    have hclean : left.2 = false := by
      by_contra hleft
      have hlen := (hstray (Bool.eq_true_of_not_eq_false hleft)).1
      rw [hroot] at hlen
      exact absurd hlen (by decide)
    subst hout hstack
    refine ⟨⟨?_, fun hcon => absurd rfl hcon, ?_, ?_⟩, rfl, congrArg (· + 1) hcount, hnames', fun _ => ?_,
      fun hcon => ?_⟩
    · rw [List.length_append]
      omega
    · rw [List.length_append, List.length_singleton]
      omega
    · exact htake
    · rw [absolute, if_neg (by simp)]
      exact (List.append_nil _).symm
    · rw [hclean] at hcon
      cases hcon
  | cons start starts =>
    have hlen := hlong (by rw [heq]; exact List.cons_ne_nil _ _)
    rw [if_pos hlen] at hout
    have hstack : stack ≠ [] := by
      rintro rfl
      rw [heq] at hdepth
      cases hdepth
    subst hout
    rw [heq] at hstarts
    refine ⟨⟨?_, fun _ => ⟨?_, ?_⟩, ?_, ?_⟩, ?_, congrArg (· + 1) hcount, hnames', fun hleft => ?_,
      fun hleft => (hstray hleft).grows seg⟩
    · rw [@List.length_append _ _ seg]
      omega
    · rw [List.length_append, List.length_singleton]
      omega
    · rw [htake]
      exact List.getLast?_concat
    · rw [List.length_append, List.length_append]
      omega
    · rw [htake]
      obtain ⟨hle, hlast, -, hrest⟩ := hstarts
      refine ⟨by rw [List.length_append]; omega, ?_, by rw [List.length_append]; omega, ?_⟩
      · rwa [List.take_append_of_le_length hle]
      · rwa [List.take_append_of_le_length hle]
    · rw [heq, List.length_cons] at hdepth
      rw [List.length_cons, List.length_cons, hdepth, List.length_cons]
    · rw [hexact hleft, List.reverse_cons, absolute, absolute, if_neg (by simpa using hstack),
        if_neg (by simp), spelled_append, List.append_assoc]
      exact congrArg (_ ++ ·) (List.append_nil _).symm

def Plain (seg : Path) : Prop := seg ≠ dot ∧ seg ≠ dotdot

theorem climb_plain (h : Plain seg) (stack : List Path) : climb stack seg = seg :: stack := by
  rw [climb, if_neg h.1, if_neg h.2]

theorem Placed.add {stack : List Path} {left : Nat × Bool} (h : Placed stack left d)
    (hne : seg ≠ []) (hseg : slash ∉ seg) (hadd : d.add cap seg = some d') :
    Placed (climb stack seg) (leave left seg) d' := by
  rw [Draft.add] at hadd
  by_cases hdot : seg = dot
  · rw [if_pos hdot] at hadd
    obtain rfl := Option.some.inj hadd
    rw [climb, if_pos hdot, leave, if_pos hdot]
    exact h
  rw [if_neg hdot] at hadd
  by_cases hup : seg = dotdot
  · rw [if_pos hup] at hadd
    rw [climb, if_neg hdot, if_pos hup]
    cases heq : d.starts with
    | nil =>
      rw [heq] at hadd
      obtain rfl := Option.some.inj hadd
      have hdepth := h.depth
      have hcount := h.count
      rw [heq] at hdepth
      have hzero : left.1 = 0 := hcount.trans hdepth.symm
      obtain rfl : stack = [] := List.eq_nil_of_length_eq_zero hdepth.symm
      rw [leave, if_neg hdot, if_pos hup, hzero]
      exact h
    | cons start starts =>
      rw [heq] at hadd
      obtain rfl := Option.some.inj hadd
      rw [hup]
      exact h.up heq
  rw [if_neg hup] at hadd
  split at hadd
  · exact nomatch hadd
  dsimp only at hadd
  generalize hout : (if 1 < d.out.length then d.out ++ [slash] else d.out) = out at hadd
  split at hadd
  · exact nomatch hadd
  obtain rfl := Option.some.inj hadd
  rw [climb_plain ⟨hdot, hup⟩]
  exact h.push hne hseg hdot hup hout.symm

def Draft.room (d : Draft) : Room := ⟨d.out.length, d.starts⟩

theorem Placed.room {stack : List Path} {left : Nat × Bool} (h : Placed stack left d) (seg : Path)
    (hne : seg ≠ []) : (d.add cap seg).map Draft.room = d.room.add cap seg := by
  have hpos := List.length_pos_iff.mpr hne
  rw [Draft.add, Room.add]
  by_cases hdot : seg = dot
  · rw [if_pos hdot, if_pos hdot]
    rfl
  rw [if_neg hdot, if_neg hdot]
  by_cases hup : seg = dotdot
  · rw [if_pos hup, if_pos hup]
    have hstarts := h.starts
    cases heq : d.starts with
    | nil => simp only [Draft.room, heq, Option.map_some]
    | cons start starts =>
      rw [heq] at hstarts
      have hle := hstarts.1
      simp only [Draft.room, heq, Option.map_some, List.length_take, Nat.min_eq_left hle]
  rw [if_neg hup, if_neg hup, Draft.room]
  dsimp only
  by_cases hlong : 1 < d.out.length
  · rw [if_pos hlong, if_pos hlong, List.length_append, List.length_singleton]
    by_cases hroom : cap ≤ d.out.length + 1 + seg.length ∨ segMax ≤ d.starts.length
    · rw [if_pos hroom, if_pos hroom]
      split <;> rfl
    · rw [if_neg (fun hfull => hroom (Or.inl (by omega))), if_neg hroom, if_neg hroom, Option.map_some]
      simp only [Draft.room, List.length_append, List.length_singleton]
  · rw [if_neg (fun hfull => hlong hfull.1), if_neg hlong, if_neg hlong]
    by_cases hroom : cap ≤ d.out.length + seg.length ∨ segMax ≤ d.starts.length
    · rw [if_pos hroom, if_pos hroom]
      rfl
    · rw [if_neg hroom, if_neg hroom, Option.map_some]
      simp only [Draft.room, List.length_append]

section Runs

variable {segs : List Path} {stack : List Path} {left : Nat × Bool}

theorem Placed.run (h : Placed stack left d) (hsegs : AreComponents slash segs)
    (hrun : segs.foldlM (Draft.add cap) d = some d') :
    Placed (segs.foldl climb stack) (segs.foldl leave left) d' := by
  induction segs generalizing stack left d with
  | nil =>
    obtain rfl := Option.some.inj hrun
    exact h
  | cons seg segs ih =>
    rw [List.foldlM_cons, Option.bind_eq_bind, Option.bind_eq_some_iff] at hrun
    obtain ⟨d₁, hadd, hrun⟩ := hrun
    obtain ⟨hne, hseg⟩ := hsegs seg List.mem_cons_self
    exact ih (h.add hne hseg hadd) (fun c hc => hsegs c (List.mem_cons_of_mem seg hc)) hrun

theorem Placed.run_room (h : Placed stack left d) (hsegs : AreComponents slash segs) :
    (segs.foldlM (Draft.add cap) d).map Draft.room = segs.foldlM (Room.add cap) d.room := by
  induction segs generalizing stack left d with
  | nil => rfl
  | cons seg segs ih =>
    obtain ⟨hne, hseg⟩ := hsegs seg List.mem_cons_self
    have hroom : _ = d.room.add cap seg := h.room seg hne
    rw [List.foldlM_cons, List.foldlM_cons, ← hroom]
    cases hadd : d.add cap seg with
    | none => rfl
    | some d₁ => exact ih (h.add hne hseg hadd) fun c hc => hsegs c (List.mem_cons_of_mem seg hc)

theorem findsRoom_iff (hsegs : AreComponents slash segs) :
    FindsRoom cap segs ↔ ∃ d, segs.foldlM (Draft.add cap) ⟨[slash], []⟩ = some d := by
  have hroom : _ = segs.foldlM (Room.add cap) ⟨1, []⟩ := placed_start.run_room hsegs
  rw [FindsRoom, ← hroom, Option.isSome_map, Option.isSome_iff_exists]

theorem folded_areComponents (hsegs : AreComponents slash segs) :
    AreComponents slash (folded segs) := by
  have hclimb (stack : List Path) (hstack : AreComponents slash stack) :
      AreComponents slash (segs.foldl climb stack) := by
    induction segs generalizing stack with
    | nil => exact hstack
    | cons seg segs ih =>
      refine ih (fun c hc => hsegs c (List.mem_cons_of_mem seg hc)) _ fun c hc => ?_
      rw [climb] at hc
      split_ifs at hc
      · exact hstack c hc
      · exact hstack c (List.mem_of_mem_tail hc)
      · rcases List.mem_cons.mp hc with rfl | hc
        · exact hsegs c List.mem_cons_self
        · exact hstack c hc
  exact fun c hc => hclimb [] (fun _ hc => absurd hc List.not_mem_nil) c (List.mem_reverse.mp hc)

theorem folded_plain (segs : List Path) : ∀ c ∈ folded segs, Plain c := by
  have hclimb (stack : List Path) (hstack : ∀ c ∈ stack, Plain c) :
      ∀ c ∈ segs.foldl climb stack, Plain c := by
    induction segs generalizing stack with
    | nil => exact hstack
    | cons seg segs ih =>
      refine ih _ fun c hc => ?_
      rw [climb] at hc
      split_ifs at hc with hdot hup
      · exact hstack c hc
      · exact hstack c (List.mem_of_mem_tail hc)
      · rcases List.mem_cons.mp hc with rfl | hc
        · exact ⟨hdot, hup⟩
        · exact hstack c hc
  exact fun c hc => hclimb [] (fun _ hc => absurd hc List.not_mem_nil) c (List.mem_reverse.mp hc)

theorem length_folded (segs : List Path) :
    (spelled slash (folded segs)).length ≤ (spelled slash segs).length := by
  have hclimb (stack : List Path) : ((segs.foldl climb stack).map fun c => c.length + 1).sum ≤
      (stack.map fun c => c.length + 1).sum + (segs.map fun c => c.length + 1).sum := by
    induction segs generalizing stack with
    | nil => exact Nat.le_refl _
    | cons seg segs ih =>
      have hstep : ((climb stack seg).map fun c => c.length + 1).sum ≤
          (stack.map fun c => c.length + 1).sum + (seg.length + 1) := by
        rw [climb]
        split_ifs
        · omega
        · cases stack with
          | nil => exact Nat.zero_le _
          | cons c stack =>
            rw [List.tail_cons, List.map_cons, List.sum_cons]
            omega
        · rw [List.map_cons, List.sum_cons]
          omega
      have hrest := ih (climb stack seg)
      rw [List.foldl_cons, List.map_cons, List.sum_cons]
      omega
  have hall := hclimb []
  rw [length_spelled, length_spelled, folded, List.map_reverse, List.sum_reverse]
  simpa using hall

theorem run_plain (hsegs : AreComponents slash segs) (hplain : ∀ c ∈ segs, Plain c)
    (hplaced : Placed stack left d) (hleft : left.2 = false)
    (hcap : (absolute slash (stack.reverse ++ segs)).length < cap)
    (hdeep : (stack.reverse ++ segs).length ≤ segMax) :
    ∃ d', segs.foldlM (Draft.add cap) d = some d' ∧
      d'.out = absolute slash (stack.reverse ++ segs) := by
  induction segs generalizing stack left d with
  | nil =>
    refine ⟨d, rfl, ?_⟩
    rw [List.append_nil]
    exact hplaced.exact hleft
  | cons seg segs ih =>
    obtain ⟨hne, hseg⟩ := hsegs seg List.mem_cons_self
    have hseg' := hplain seg List.mem_cons_self
    have hpos := List.length_pos_iff.mpr hne
    have hnext {out : Path} (hout : out = if 1 < d.out.length then d.out ++ [slash] else d.out) :=
      hplaced.push hne hseg hseg'.1 hseg'.2 hout
    have hleft' : (leave left seg).2 = false := by
      rw [leave, if_neg hseg'.1, if_neg hseg'.2]
      exact hleft
    have hlist : stack.reverse ++ seg :: segs = (seg :: stack).reverse ++ segs := by
      rw [List.reverse_cons, List.append_assoc]
      rfl
    rw [hlist] at hcap hdeep ⊢
    have hdepth := hplaced.depth
    have hroom {out : Path} (hout : out = if 1 < d.out.length then d.out ++ [slash] else d.out) :
        out.length + seg.length < cap := by
      have hlen := congrArg List.length ((hnext hout).exact hleft')
      rw [List.length_append] at hlen
      rw [hlen]
      refine Nat.lt_of_le_of_lt ?_ hcap
      rw [absolute, absolute, if_neg (by simp), if_neg (by simp), spelled_append, List.length_append]
      exact Nat.le_add_right _ _
    have hadd : ∃ out, d.add cap seg = some ⟨out ++ seg, out.length :: d.starts⟩ ∧
        out = if 1 < d.out.length then d.out ++ [slash] else d.out := by
      refine ⟨_, ?_, rfl⟩
      have hfits := hroom rfl
      rw [List.length_append, List.length_reverse, List.length_cons] at hdeep
      have hfull : ¬(1 < d.out.length ∧ cap - 1 ≤ d.out.length) := by
        rintro ⟨hlong, hfull⟩
        rw [if_pos hlong, List.length_append, List.length_singleton] at hfits
        omega
      rw [Draft.add, if_neg hseg'.1, if_neg hseg'.2, if_neg hfull]
      dsimp only
      rw [if_neg (by omega)]
    obtain ⟨out, hadd, hout⟩ := hadd
    obtain ⟨d', hrun, hout'⟩ := ih (fun c hc => hsegs c (List.mem_cons_of_mem seg hc))
      (fun c hc => hplain c (List.mem_cons_of_mem seg hc)) (hnext hout) hleft' hcap hdeep
    refine ⟨d', ?_, hout'⟩
    rw [List.foldlM_cons, hadd]
    exact hrun

end Runs

theorem add_bounded (h : d.out.length < cap ∧ d.starts.length ≤ segMax)
    (hadd : d.add cap seg = some d') : d'.out.length < cap ∧ d'.starts.length ≤ segMax := by
  rw [Draft.add] at hadd
  split at hadd
  · obtain rfl := Option.some.inj hadd
    exact h
  split at hadd
  · split at hadd
    next => exact Option.some.inj hadd ▸ h
    next start starts heq =>
      obtain rfl := Option.some.inj hadd
      rw [heq, List.length_cons] at h
      dsimp only
      rw [List.length_take]
      omega
  split at hadd
  · exact nomatch hadd
  dsimp only at hadd
  generalize (if 1 < d.out.length then d.out ++ [slash] else d.out) = out at hadd
  split at hadd
  · exact nomatch hadd
  · obtain rfl := Option.some.inj hadd
    dsimp only
    rw [List.length_append, List.length_cons]
    omega

theorem run_bounded {segs : List Path} (h : d.out.length < cap ∧ d.starts.length ≤ segMax)
    (hrun : segs.foldlM (Draft.add cap) d = some d') :
    d'.out.length < cap ∧ d'.starts.length ≤ segMax := by
  induction segs generalizing d with
  | nil => exact Option.some.inj hrun ▸ h
  | cons seg segs ih =>
    rw [List.foldlM_cons, Option.bind_eq_bind, Option.bind_eq_some_iff] at hrun
    obtain ⟨d₁, hadd, hrun⟩ := hrun
    exact ih (add_bounded h hadd) hrun

end Placement

section Exact

variable {cwd inp tmp out : Path} {cap : Nat}

theorem joinCwd_absolute (hcwd : CanonicalDir cwd) (h : joinCwd cwd inp = some tmp) :
    tmp.head? = some slash ∧ tmp.length < tmpCap := by
  obtain ⟨cs, hcs, -, -, rfl⟩ := hcwd
  have hhead := (absolute_clean hcs).absolute
  have hcap : tmpCap = 256 := rfl
  rw [joinCwd] at h
  split at h
  next hinp =>
    obtain rfl := Option.some.inj h
    obtain ⟨q, rfl⟩ := List.head?_eq_some_iff.mp hinp
    refine ⟨rfl, ?_⟩
    rw [List.length_take]
    omega
  next =>
    split at h
    next =>
      obtain rfl := Option.some.inj h
      refine ⟨rfl, ?_⟩
      rw [List.length_cons, List.length_take]
      omega
    next =>
      dsimp only at h
      split at h
      next => exact nomatch h
      next hroom =>
        obtain rfl := Option.some.inj h
        obtain ⟨q, hq⟩ := List.head?_eq_some_iff.mp hhead
        rw [hq] at hroom ⊢
        refine ⟨rfl, ?_⟩
        rw [List.length_append, List.length_cons]
        omega

theorem joinCwd_of_absolute (hhead : inp.head? = some slash) (hlen : inp.length < tmpCap) :
    joinCwd cwd inp = some inp := by
  have hcap : tmpCap = 256 := rfl
  rw [joinCwd, if_pos hhead, List.take_of_length_le (by omega)]

theorem normalizePath_some : normalizePath cwd inp cap = some out ↔
    2 ≤ cap ∧ ∃ tmp, joinCwd cwd inp = some tmp ∧
      ∃ d, (pathComponents tmp).foldlM (Draft.add cap) ⟨[slash], []⟩ = some d ∧ d.out = out := by
  rw [normalizePath_eq]
  by_cases hcap : cap < 2
  · rw [if_pos hcap]
    exact ⟨fun h => (nomatch h), fun h => absurd h.1 (by omega)⟩
  · rw [if_neg hcap, Option.bind_eq_some_iff]
    simp only [Option.map_eq_some_iff]
    exact ⟨fun h => ⟨by omega, h⟩, fun h => h.2⟩

theorem components_folded (p : Path) :
    pathComponents (absolute slash (folded (pathComponents p))) = folded (pathComponents p) :=
  components_absolute (folded_areComponents (areComponents_components p))

theorem length_folded_absolute (htmp : tmp.head? = some slash) :
    (absolute slash (folded (pathComponents tmp))).length ≤ tmp.length := by
  obtain ⟨q, rfl⟩ := List.head?_eq_some_iff.mp htmp
  rw [absolute]
  split
  next =>
    rw [List.length_singleton, List.length_cons]
    omega
  next =>
    have hfold := length_folded (pathComponents (slash :: q))
    have hspelled := length_spelled_components slash q
    rw [pathComponents, components_cons_sep] at hfold ⊢
    rw [List.length_cons]
    omega

theorem normalizes_well_iff (hcwd : CanonicalDir cwd) :
    NormalizesWell normalizePath cwd inp cap ↔ Normalizable cwd inp cap := by
  constructor
  · intro hwell tmp htmp hcap hfinds
    have hsegs : AreComponents slash (pathComponents tmp) := areComponents_components tmp
    obtain ⟨d, hrun⟩ := (findsRoom_iff hsegs).mp hfinds
    have hplaced := placed_start.run hsegs hrun
    obtain ⟨⟨hfolds, hclean, -⟩, -⟩ := hwell d.out (normalizePath_some.mpr ⟨hcap, tmp, htmp, d, hrun, rfl⟩)
    have hstay : ¬LeavesSlash (pathComponents tmp) := fun hleaves => (hplaced.stray hleaves).not_clean hclean
    refine ⟨hstay, ?_⟩
    have hexact : d.out = absolute slash (folded (pathComponents tmp)) :=
      hplaced.exact (Bool.eq_false_iff.mpr hstay)
    have hcomponents := congrArg pathComponents (hexact.symm.trans hfolds)
    rwa [components_folded, components_folded] at hcomponents
  · intro hcond out hout
    obtain ⟨hcap, tmp, htmp, d, hrun, rfl⟩ := normalizePath_some.mp hout
    have hsegs : AreComponents slash (pathComponents tmp) := areComponents_components tmp
    obtain ⟨hstay, hsame⟩ := hcond tmp htmp hcap ((findsRoom_iff hsegs).mpr ⟨d, hrun⟩)
    have hplaced := placed_start.run hsegs hrun
    have hexact : d.out = absolute slash (folded (pathComponents tmp)) :=
      hplaced.exact (Bool.eq_false_iff.mpr hstay)
    have hfolded := folded_areComponents hsegs
    have hplain := folded_plain (pathComponents tmp)
    have hcomponents : pathComponents d.out = folded (pathComponents tmp) := by
      rw [hexact, components_folded]
    have hclean : Clean slash d.out := hexact ▸ absolute_clean hfolded
    refine ⟨⟨hsame ▸ hexact, hclean, ?_, ?_⟩, ?_⟩
    · rw [hcomponents]
      exact fun hmem => (hplain dot hmem).1 rfl
    · rw [hcomponents]
      exact fun hmem => (hplain dotdot hmem).2 rfl
    · obtain ⟨hhead, hlong⟩ := joinCwd_absolute hcwd htmp
      have hshort := length_folded_absolute hhead
      rw [← hexact] at hshort
      have hbounds := run_bounded ⟨(by omega : (1 : Nat) < cap), Nat.zero_le _⟩ hrun
      have hdepth : d.starts.length = (folded (pathComponents tmp)).length := by
        rw [hplaced.depth, folded, List.length_reverse]
      obtain ⟨d', hrun', hout'⟩ := run_plain hfolded hplain placed_start rfl
        (show (absolute slash (folded (pathComponents tmp))).length < cap from hexact ▸ hbounds.1)
        (show (folded (pathComponents tmp)).length ≤ segMax from hdepth ▸ hbounds.2)
      refine normalizePath_some.mpr ⟨hcap, d.out, joinCwd_of_absolute hclean.absolute (by omega), d', ?_, ?_⟩
      · rw [hcomponents]
        exact hrun'
      · exact hout'.trans hexact.symm

theorem normalize_path_iff (cwd inp : Path) (cap : Nat) (hcwd : CanonicalDir cwd) :
    (NormalizesWell normalizePath cwd inp cap ↔ Normalizable cwd inp cap) ∧
      (NormalizesWell shellNormalizePath cwd inp cap ↔ Normalizable cwd inp cap) :=
  ⟨normalizes_well_iff hcwd, normalizes_well_iff hcwd⟩

theorem normalize_path_iff_down : NormalizesWell normalizePath [47, 97] [98, 47, 46, 47, 99] 256 := by
  have hcwd : CanonicalDir [47, 97] :=
    ⟨[[97]], fun c hc => by rw [List.mem_singleton.mp hc]; exact ⟨by decide, by decide⟩, by decide,
      by decide, rfl⟩
  refine (normalize_path_iff [47, 97] [98, 47, 46, 47, 99] 256 hcwd).1.mpr fun tmp htmp _ _ => ?_
  obtain rfl : [47, 97, 47, 98, 47, 46, 47, 99] = tmp := Option.some.inj htmp
  refine ⟨fun hleaves => ?_, rfl⟩
  exact absurd hleaves (by decide : ([[97], [98], dot, [99]].foldl leave (0, false)).2 ≠ true)

-- "/a/b/.." becomes "/a/"
theorem parent_keeps_slash : ¬NormalizesWell normalizePath [47] [47, 97, 47, 98, 47, 46, 46] 256 ∧
    ¬NormalizesWell shellNormalizePath [47] [47, 97, 47, 98, 47, 46, 46] 256 := by
  have hrun : normalizePath [47] [47, 97, 47, 98, 47, 46, 46] 256 = some [47, 97, 47] := by decide
  have hstray : ¬Clean slash [47, 97, 47] :=
    HasStray.not_clean ⟨by decide, Or.inl (by decide)⟩
  exact ⟨fun hwell => hstray (hwell _ hrun).1.clean, fun hwell => hstray (hwell _ hrun).1.clean⟩

end Exact

end HouseOS.Cmd
