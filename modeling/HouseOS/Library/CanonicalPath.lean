import HouseOS.Library.Components
import Mathlib.Data.List.Chain
import Mathlib.Data.Nat.Bitwise

namespace HouseOS.CanonicalPath

open HouseOS.Components (AtBoundary atBoundary_dropWhile components components_cons_component
  components_cons_sep components_nil mem_components)

variable {α : Type} {sep : α} {c p : List α} {cs : List (List α)}

def spelled (sep : α) (cs : List (List α)) : List α := cs.flatMap fun c => sep :: c

def absolute [DecidableEq α] (sep : α) (cs : List (List α)) : List α :=
  if cs = [] then [sep] else spelled sep cs

def AreComponents (sep : α) (cs : List (List α)) : Prop := ∀ c ∈ cs, c ≠ [] ∧ sep ∉ c

structure Clean (sep : α) (p : List α) : Prop where
  absolute : p.head? = some sep
  single : p.IsChain fun a b => a = sep → b ≠ sep
  bare : p = [sep] ∨ p.getLast? ≠ some sep

theorem areComponents_components [DecidableEq α] (p : List α) :
    AreComponents sep (components sep p) :=
  fun _ hc => ⟨(mem_components sep hc).1, (mem_components sep hc).2.1⟩

theorem AreComponents.filter (h : AreComponents sep cs) (keep : List α → Bool) :
    AreComponents sep (cs.filter keep) :=
  fun c hc => h c (List.mem_filter.mp hc).1

theorem spelled_cons : spelled sep (c :: cs) = sep :: c ++ spelled sep cs := rfl

theorem spelled_append (cs ds : List (List α)) :
    spelled sep (cs ++ ds) = spelled sep cs ++ spelled sep ds := List.flatMap_append

theorem spelled_head (h : cs ≠ []) : (spelled sep cs).head? = some sep := by
  obtain ⟨c, cs, rfl⟩ := List.exists_cons_of_ne_nil h
  rfl

theorem spelled_last (h : AreComponents sep cs) : (spelled sep cs).getLast? ≠ some sep := by
  rcases List.eq_nil_or_concat cs with rfl | ⟨cs, c, rfl⟩
  · exact fun heq => nomatch heq
  · rw [List.concat_eq_append] at h ⊢
    obtain ⟨hne, hsep⟩ := h c (List.mem_append_right cs List.mem_cons_self)
    have hlast : (spelled sep (cs ++ [c])).getLast? = some (c.getLast hne) := by
      rw [spelled_append, show spelled sep [c] = [sep] ++ c from List.append_nil _,
        ← List.append_assoc, List.getLast?_append_of_ne_nil _ hne, List.getLast?_eq_some_getLast hne]
    rw [hlast]
    exact fun heq => hsep (Option.some.inj heq ▸ List.getLast_mem hne)

theorem spelled_chain (h : AreComponents sep cs) :
    (spelled sep cs).IsChain fun a b => a = sep → b ≠ sep := by
  induction cs with
  | nil => exact .nil
  | cons c cs ih =>
    obtain ⟨hne, hsep⟩ := h c List.mem_cons_self
    have hother (x : α) (hx : x ∈ c) : x ≠ sep := fun heq => hsep (heq ▸ hx)
    have hname : c.IsChain fun a b => a = sep → b ≠ sep :=
      (List.pairwise_of_forall_mem_list fun a ha _ _ heq => absurd heq (hother a ha)).isChain
    rw [spelled_cons, List.isChain_append]
    refine ⟨List.isChain_cons.mpr ⟨fun y hy _ => hother y (List.mem_of_mem_head? hy), hname⟩,
      ih fun d hd => h d (List.mem_cons_of_mem c hd), fun x hx y _ heq => ?_⟩
    have hlast : (sep :: c).getLast? = some (c.getLast hne) := by
      rw [List.getLast?_cons, List.getLast?_eq_some_getLast hne, Option.getD_some]
    rw [hlast] at hx
    rw [← Option.some.inj hx] at heq
    exact absurd heq (hother _ (List.getLast_mem hne))

theorem length_spelled (cs : List (List α)) :
    (spelled sep cs).length = (cs.map fun c => c.length + 1).sum := by
  induction cs with
  | nil => rfl
  | cons c cs ih =>
    rw [spelled_cons, List.length_append, ih, List.length_cons, List.map_cons, List.sum_cons]

variable [DecidableEq α]

theorem absolute_clean (h : AreComponents sep cs) : Clean sep (CanonicalPath.absolute sep cs) := by
  rw [CanonicalPath.absolute]
  split
  next => exact ⟨rfl, .singleton _, Or.inl rfl⟩
  next hne => exact ⟨spelled_head hne, spelled_chain h, Or.inr (spelled_last h)⟩

theorem exists_component {d : α} (hd : d ≠ sep) (p : List α) :
    ∃ c rest, d :: p = c ++ rest ∧ c ≠ [] ∧ sep ∉ c ∧ AtBoundary sep rest := by
  refine ⟨(d :: p).takeWhile (fun c => decide (c ≠ sep)), (d :: p).dropWhile _,
    (List.takeWhile_append_dropWhile).symm, ?_, ?_, atBoundary_dropWhile sep _⟩
  · rw [List.takeWhile_cons_of_pos (by simpa using hd)]
    exact List.cons_ne_nil _ _
  · intro hmem
    simpa using List.mem_takeWhile_imp hmem

theorem length_spelled_components (sep : α) (p : List α) :
    (spelled sep (components sep p)).length ≤ p.length + 1 := by
  induction hn : p.length using Nat.strong_induction_on generalizing p with
  | _ n ih =>
    cases p with
    | nil =>
      rw [components_nil]
      exact Nat.zero_le _
    | cons d p =>
      rw [List.length_cons] at hn
      by_cases hd : d = sep
      · subst hd
        rw [components_cons_sep]
        have hp := ih p.length (by omega) p rfl
        omega
      · obtain ⟨c, rest, heq, hne, hc, hrest⟩ := exists_component hd p
        have hlen := congrArg List.length heq
        rw [List.length_cons, List.length_append] at hlen
        rw [heq, components_cons_component sep (fun x hx hxs => hc (hxs ▸ hx)) hne hrest, spelled_cons,
          List.cons_append, List.length_cons, List.length_append]
        cases rest with
        | nil =>
          rw [List.length_nil] at hlen
          rw [components_nil, spelled, List.flatMap_nil, List.length_nil]
          omega
        | cons e rest =>
          obtain rfl : e = sep := hrest e rfl
          rw [List.length_cons] at hlen
          rw [components_cons_sep]
          have hr := ih rest.length (by omega) rest rfl
          omega

theorem components_spelled (h : AreComponents sep cs) : components sep (spelled sep cs) = cs := by
  induction cs with
  | nil => exact components_nil sep
  | cons c cs ih =>
    obtain ⟨hne, hsep⟩ := h c List.mem_cons_self
    have hrest : AtBoundary sep (spelled sep cs) := by
      intro d hd
      cases cs with
      | nil => exact nomatch hd
      | cons e cs => exact (Option.some.inj hd).symm
    rw [spelled_cons, List.cons_append, components_cons_sep,
      components_cons_component sep (fun x hx heq => hsep (heq ▸ hx)) hne hrest,
      ih fun d hd => h d (List.mem_cons_of_mem c hd)]

theorem components_absolute (h : AreComponents sep cs) :
    components sep (CanonicalPath.absolute sep cs) = cs := by
  rw [CanonicalPath.absolute]
  split
  next hnil => rw [hnil, components_cons_sep, components_nil]
  next => exact components_spelled h

end HouseOS.CanonicalPath
