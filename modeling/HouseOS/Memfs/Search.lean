import HouseOS.Library.DepthFirst
import HouseOS.Memfs.Calls

namespace HouseOS.Memfs

open Relation
open HouseOS.DepthFirst (Outcome Fits Hidden)
open HouseOS.Vfs (Path slash NodeType)

def searchRoom : Nat := 128

-- nothing, once the entry would land behind the end of the stack
def push (stack : List Nat) (i : Nat) : Option (List Nat) :=
  if stack.length < searchRoom then some (i :: stack) else none

def pushEntries : List Dentry → List Nat → Option (List Nat)
  | [], stack => some stack
  | d :: ds, stack => (push stack d.inode).bind (pushEntries ds)

namespace World

variable (w : World)

def searchLoop (name : Path) : Nat → List Nat → Option (Outcome Nat)
  | 0, _ => none
  | _ + 1, [] => some .missing
  | fuel + 1, cur :: stack =>
      if w.text (w.inode cur).name = name then some (.found cur)
      else if (w.inode cur).type = .dir then
        match pushEntries (w.inode cur).entries stack with
        | none => some .full
        | some stack => searchLoop name fuel stack
      else searchLoop name fuel stack

def memfsSearch (f : Nat) (name : Path) (fuel : Nat) : Option (Outcome Nat) :=
  w.searchLoop name fuel [w.root f]

def childrenOf (i : Nat) : List Nat :=
  if (w.inode i).type = .dir then (w.inode i).entries.map (·.inode) else []

def Named (name : Path) (i : Nat) : Prop := w.text (w.inode i).name = name

instance (name : Path) : DecidablePred (w.Named name) :=
  fun i => inferInstanceAs (Decidable (w.text (w.inode i).name = name))

def Leads : Nat → Nat → Prop := ReflTransGen fun i j => j ∈ w.childrenOf i

def SearchWorks (f : Nat) (name : Path) : Prop :=
  ∃ fuel o, w.memfsSearch f name fuel = some o ∧ o ≠ .full ∧
    (∀ i, o = .found i → w.Leads (w.root f) i ∧ w.Named name i) ∧
    ((∃ i, o = .found i) ↔ ∃ i, w.Leads (w.root f) i ∧ w.Named name i)

-- as far as the first inode of the name, directories have an end and the stack has room
def SearchFits (f : Nat) (name : Path) : Prop :=
  Fits w.childrenOf (w.Named name) searchRoom 0 (w.root f)

end World

section Machine

variable {w : World} {name : Path} {fuel : Nat} {stack : List Nat}

theorem pushEntries_eq (ds : List Dentry) (h : stack.length ≤ searchRoom) :
    pushEntries ds stack =
      if searchRoom < stack.length + ds.length then none
      else some ((ds.map (·.inode)).reverse ++ stack) := by
  induction ds generalizing stack with
  | nil => exact (if_neg (Nat.not_lt.mpr h)).symm
  | cons d ds ih =>
    rw [pushEntries, push]
    by_cases hroom : stack.length < searchRoom
    · have hpushed : (d.inode :: stack).length ≤ searchRoom := hroom
      have hlen : (d.inode :: stack).length + ds.length = stack.length + (d :: ds).length := by
        rw [List.length_cons, List.length_cons]
        omega
      rw [if_pos hroom, Option.bind_some, ih hpushed, hlen, List.map_cons, List.reverse_cons,
        List.append_assoc, List.singleton_append]
    · rw [if_neg hroom, Option.bind_none, if_pos]
      rw [List.length_cons]
      omega

theorem searchLoop_eq (h : stack.length ≤ searchRoom) :
    w.searchLoop name fuel stack =
      DepthFirst.search w.childrenOf (w.Named name) searchRoom fuel stack := by
  induction fuel generalizing stack with
  | zero => rfl
  | succ fuel ih =>
    cases stack with
    | nil => rfl
    | cons cur stack =>
      have hrest : stack.length ≤ searchRoom := Nat.le_of_lt h
      by_cases hname : w.Named name cur
      · rw [DepthFirst.search_goal hname]
        exact if_pos hname
      have hgo : w.searchLoop name (fuel + 1) (cur :: stack) =
          if (w.inode cur).type = .dir then
            match pushEntries (w.inode cur).entries stack with
            | none => some .full
            | some stack => w.searchLoop name fuel stack
          else w.searchLoop name fuel stack := if_neg hname
      rw [hgo]
      by_cases hdir : (w.inode cur).type = .dir
      · have hkids : w.childrenOf cur = (w.inode cur).entries.map (·.inode) := if_pos hdir
        have hlen : (w.childrenOf cur).length = (w.inode cur).entries.length := by
          rw [hkids, List.length_map]
        rw [if_pos hdir, pushEntries_eq _ hrest, ← hkids, ← hlen]
        by_cases hroom : searchRoom < stack.length + (w.childrenOf cur).length
        · rw [if_pos hroom, DepthFirst.search_full hname hroom]
        · rw [if_neg hroom, DepthFirst.search_push hname (Nat.not_lt.mp hroom)]
          refine ih ?_
          rw [List.length_append, List.length_reverse]
          omega
      · have hkids : w.childrenOf cur = [] := if_neg hdir
        rw [if_neg hdir, DepthFirst.search_push hname, hkids]
        · exact ih hrest
        · rw [hkids]
          exact hrest

theorem memfsSearch_eq (w : World) (f : Nat) (name : Path) (fuel : Nat) :
    w.memfsSearch f name fuel =
      DepthFirst.search w.childrenOf (w.Named name) searchRoom fuel [w.root f] :=
  searchLoop_eq (Nat.succ_le_of_lt (by decide))

end Machine

section Answers

variable {w : World} {f fuel : Nat} {name : Path} {o : Outcome Nat}

theorem search_answers (h : w.memfsSearch f name fuel = some o) (hfull : o ≠ .full) :
    (∀ i, o = .found i → w.Leads (w.root f) i ∧ w.Named name i) ∧
      ((∃ i, o = .found i) ↔ ∃ i, w.Leads (w.root f) i ∧ w.Named name i) := by
  rw [memfsSearch_eq] at h
  have hfound (i : Nat) (hi : o = .found i) : w.Leads (w.root f) i ∧ w.Named name i := by
    rw [hi] at h
    obtain ⟨hname, a, ha, hreach⟩ := DepthFirst.search_found h
    obtain rfl := List.mem_singleton.mp ha
    exact ⟨hreach, hname⟩
  refine ⟨hfound, fun ⟨i, hi⟩ => ⟨i, hfound i hi⟩, ?_⟩
  rintro ⟨i, hreach, hname⟩
  cases o with
  | found j => exact ⟨j, rfl⟩
  | full => exact (hfull rfl).elim
  | missing =>
    exact (DepthFirst.search_missing h _ List.mem_cons_self i hreach hname).elim

theorem search_works_iff (w : World) (f : Nat) (name : Path) :
    w.SearchWorks f name ↔ w.SearchFits f name := by
  rw [World.SearchFits, ← DepthFirst.ends_iff_fits]
  constructor
  · rintro ⟨fuel, o, ho, hfull, -⟩
    exact ⟨fuel, o, (memfsSearch_eq w f name fuel).symm.trans ho, hfull⟩
  · rintro ⟨fuel, o, ho, hfull⟩
    have hsearch : w.memfsSearch f name fuel = some o := (memfsSearch_eq w f name fuel).trans ho
    exact ⟨fuel, o, hsearch, hfull, search_answers hsearch hfull⟩

-- a directory that holds itself under another name
def looped : World :=
  (((untouched (fun _ => true) []).memfsCreate 0).2.memfsLink 0 [slash] [slash, 0x61]).2

theorem search_loops : ¬looped.SearchWorks 0 [0x78] := by
  have hkids : looped.childrenOf (looped.root 0) = [looped.root 0] := by decide +kernel
  have hname : ¬looped.Named [0x78] (looped.root 0) := by decide +kernel
  rw [search_works_iff, World.SearchFits]
  generalize looped.root 0 = i at hkids hname
  intro h
  generalize (0 : Nat) = n at h
  generalize hj : i = j at h
  induction h with
  | goal h => exact hname (hj ▸ h)
  | kids hroom h ih =>
    subst hj
    exact ih [] i [] hkids nofun rfl

end Answers

end HouseOS.Memfs
