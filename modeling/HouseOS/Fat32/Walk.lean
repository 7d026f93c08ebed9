import HouseOS.Fat32.Reader
import HouseOS.Library.Loop

namespace HouseOS.Fat32

open HouseOS.Components
open HouseOS.Disk
open HouseOS.Loop
open HouseOS.Program
open HouseOS.Program.Prog
open HouseOS.Word

-- what one of the directory walks does besides following the chain; `τ` is what it carries along
structure DirWalk (τ ρ : Type) where
  entry : Nat → List UInt8 → Nat → τ → Step τ ρ
  -- the link of a cluster may end the walk before the loop looks at it
  link : Nat → Nat → Option ρ
  unread : τ → ρ
  ended : τ → ρ

section Walk

variable {τ ρ : Type} (w : DirWalk τ ρ)

def walkSector (rel : Nat) (sec : List UInt8) : Nat → Nat → τ → Step τ ρ
  | 0, _, t => .go t
  | left + 1, off, t =>
      match w.entry rel sec off t with
      | .go t => walkSector rel sec left (off + 32) t
      | .ret r => .ret r

def walkCluster (rel : Nat) : Nat → Nat → τ → Driver (Step τ ρ)
  | 0, _, t => .done (.go t)
  | left + 1, s, t =>
      .ask (.read (add32 rel s) 1) fun
        | none => .done (.ret (w.unread t))
        | some sec =>
            match walkSector w (add32 rel s) sec 16 0 t with
            | .go t => walkCluster rel left (s + 1) t
            | .ret r => .done (.ret r)

-- `none` while the chain goes on
def walkChain (fs : Fat32Fs) : Nat → Nat → τ → Driver (Option ρ)
  | 0, _, _ => .done none
  | fuel + 1, c, t =>
      if c < 2 ∨ isEoc c then .done (some (w.ended t))
      else
        (walkCluster w (fs.fat32ClusterToRelLba c) fs.sectorsPerCluster 0 t).bind fun
          | .ret r => .done (some r)
          | .go t =>
              (fs.fat32FatGet c).bind fun
                | none => .done (some (w.unread t))
                | some next =>
                    match w.link c next with
                    | some r => .done (some r)
                    | none => walkChain fs fuel next t

end Walk

def lfnNext (sec : List UInt8) (off : Nat) (lfn : Lfn) : Lfn :=
  let idx := (nameByte sec off 0).toNat % 32
  if 0 < idx ∧ idx ≤ 20 then
    fun i => if i = idx - 1 then some (lfnExtractPiece sec off) else lfn i
  else lfn

def findWalk (dir : Nat) (name : Name) : DirWalk Lfn (Option Found) where
  entry rel sec off lfn :=
    match findEntry dir name rel sec off lfn with
    | .stop => .ret none
    | .next lfn => .go lfn
    | .hit f => .ret (some f)
  link _ _ := none
  unread _ := none
  ended _ := none

inductive SlotEnd where
  | slot (relSec off : Nat)
  | full (last : Nat)
  | fail
  deriving DecidableEq, Repr

def slotWalk : DirWalk Unit SlotEnd where
  entry rel sec off _ :=
    if nameByte sec off 0 = 0x00 ∨ nameByte sec off 0 = 0xE5 then .ret (.slot rel off) else .go ()
  link c next := if isEoc next ∨ next < 2 then some (.full c) else none
  unread _ := .fail
  ended _ := .fail

def emptyWalk : DirWalk Unit Bool where
  entry _ sec off _ :=
    if nameByte sec off 0 = 0x00 then .ret true
    else if nameByte sec off 0 = 0xE5 then .go ()
    else if entryAttr sec off = attrLfn then .go ()
    else if entryAttr sec off &&& attrVolumeId ≠ 0 then .go ()
    else if nameByte sec off 0 = 46 ∧ nameByte sec off 1 = 32 then .go ()
    else if nameByte sec off 0 = 46 ∧ nameByte sec off 1 = 46 ∧ nameByte sec off 2 = 32 then .go ()
    else .ret false
  link _ _ := none
  unread _ := false
  ended _ := true

structure Listing where
  out : List UInt8
  lfn : Lfn

def listWalk (outSize : Nat) : DirWalk Listing (Option (List UInt8)) where
  entry _ sec off l :=
    if nameByte sec off 0 = 0x00 then .ret (some l.out)
    else if nameByte sec off 0 = 0xE5 then .go { l with lfn := noLfn }
    else if entryAttr sec off = attrLfn then .go { l with lfn := lfnNext sec off l.lfn }
    else if entryAttr sec off &&& attrVolumeId ≠ 0 then .go { l with lfn := noLfn }
    else
      let name := decodedName l.lfn sec off
      if nameEqCi name [46] ∨ nameEqCi name [46, 46] then .go { l with lfn := noLfn }
      else if outSize ≤ l.out.length + name.length + 2 then .ret (some l.out)
      else
        let mark := if entryAttr sec off &&& attrDir ≠ 0 then [slash] else []
        .go ⟨l.out ++ (name ++ mark ++ [10]), noLfn⟩
  link _ _ := none
  unread _ := none
  ended l := some l.out

namespace Fat32Fs

variable (fs : Fat32Fs)

def extendDir (last : Nat) : Driver (Option (Nat × Nat)) :=
  fs.fat32AllocCluster.bind fun
    | none => .done none
    | some newc =>
        (fs.fat32FatSet last newc).bind fun linked =>
          if !linked then (fs.fat32FreeChain newc).bind fun _ => .done none
          else
            (fs.fat32FatSet newc fat32Eoc).bind fun ended =>
              if !ended then (fs.fat32FreeChain newc).bind fun _ => .done none
              else .done (some (fs.fat32ClusterToRelLba newc, 0))

def fat32DirFindFreeSlot (fuel dir : Nat) : Driver (Option (Option (Nat × Nat))) :=
  if dir < 2 then .done (some none)
  else
    (walkChain slotWalk fs fuel dir ()).bind fun
      | none => .done none
      | some .fail => .done (some none)
      | some (.slot relSec off) => .done (some (some (relSec, off)))
      | some (.full last) => (fs.extendDir last).bind fun r => .done (some r)

def fat32DirIsEmpty (fuel dir : Nat) : Driver (Option Bool) := walkChain emptyWalk fs fuel dir ()

-- the text of the listing, `none` for -1
def fat32ListOp (fuel : Nat) (junk : Found) (path : Path) (outSize : Nat) :
    Driver (Option (Option (List UInt8))) :=
  if outSize = 0 then .done (some none)
  else
    (fs.fat32Resolve fuel junk path).bind fun
      | none => .done none
      | some none => .done (some none)
      | some (some dir) =>
          if !dir.isDir then .done (some none)
          else walkChain (listWalk outSize) fs fuel (fs.clusterOf dir) ⟨[], noLfn⟩

end Fat32Fs

section Chain

variable {τ ρ : Type} (w : DirWalk τ ρ) (fs : Fat32Fs) (answer : SectorReq → Option (List UInt8))

def chainStep : Nat × τ → Step (Nat × τ) ρ
  | (c, t) =>
      if c < 2 ∨ isEoc c then .ret (w.ended t)
      else
        match (walkCluster w (fs.fat32ClusterToRelLba c) fs.sectorsPerCluster 0 t).look answer with
        | .ret r => .ret r
        | .go t =>
            match (fs.fat32FatGet c).look answer with
            | none => .ret (w.unread t)
            | some next =>
                match w.link c next with
                | some r => .ret r
                | none => .go (next, t)

def linkStep (c : Nat) : Step Nat Unit :=
  if c < 2 ∨ isEoc c then .ret ()
  else
    match (fs.fat32FatGet c).look answer with
    | none => .ret ()
    | some next => .go next

def Loops (c : Nat) : Prop := Revisits (linkStep fs answer) c

def OnChain (c c' : Nat) : Prop := ∃ n, orbit (linkStep fs answer) n c = some c'

-- a cluster of the chain ends the walk, with what the clusters before it have left to carry
def Halts (c : Nat) (t : τ) : Prop :=
  ∃ n c' t' r, orbit (chainStep w fs answer) n (c, t) = some (c', t') ∧
    (walkCluster w (fs.fat32ClusterToRelLba c') fs.sectorsPerCluster 0 t').look answer = .ret r

def Clear (c : Nat) (t : τ) : Prop := ¬Loops fs answer c ∨ Halts w fs answer c t

theorem walkChain_look (fuel c : Nat) (t : τ) :
    (walkChain w fs fuel c t).look answer = loop (chainStep w fs answer) fuel (c, t) := by
  induction fuel generalizing c t with
  | zero => rfl
  | succ fuel ih =>
    rw [walkChain, loop, chainStep]
    split
    · rfl
    · rw [look_bind]
      cases (walkCluster w (fs.fat32ClusterToRelLba c) fs.sectorsPerCluster 0 t).look answer with
      | ret r => rfl
      | go t' =>
        dsimp only
        rw [look_bind]
        cases (fs.fat32FatGet c).look answer with
        | none => rfl
        | some next =>
          dsimp only
          cases w.link c next with
          | some r => rfl
          | none => exact ih next t'

variable {w fs answer}

theorem chainStep_go {c c' : Nat} {t t' : τ} (h : chainStep w fs answer (c, t) = .go (c', t')) :
    linkStep fs answer c = .go c' := by
  rw [chainStep] at h
  rw [linkStep]
  split at h
  · cases h
  · rename_i hc
    rw [if_neg hc]
    split at h
    · cases h
    · split at h
      · cases h
      · split at h
        · cases h
        · cases h
          rfl

theorem orbit_links {n c c' : Nat} {t t' : τ}
    (h : orbit (chainStep w fs answer) n (c, t) = some (c', t')) :
    orbit (linkStep fs answer) n c = some c' :=
  orbit_map (g := Prod.fst) (fun _ _ => chainStep_go) h

theorem chainStep_ret {c : Nat} {t : τ} {r : ρ} (h : chainStep w fs answer (c, t) = .ret r) :
    linkStep fs answer c = .ret () ∨
      (∃ r, (walkCluster w (fs.fat32ClusterToRelLba c) fs.sectorsPerCluster 0 t).look answer =
        .ret r) ∨
      ∃ next r, linkStep fs answer c = .go next ∧ w.link c next = some r := by
  rw [chainStep] at h
  rw [linkStep]
  split at h
  · rename_i hc
    rw [if_pos hc]
    exact Or.inl rfl
  · rename_i hc
    rw [if_neg hc]
    split at h
    · rename_i r' hcluster
      exact Or.inr (Or.inl ⟨r', hcluster⟩)
    · split at h
      · exact Or.inl rfl
      · rename_i next hget
        split at h
        · rename_i r' hlink
          exact Or.inr (Or.inr ⟨next, r', rfl, hlink⟩)
        · cases h

theorem linkStep_lt {c next : Nat} (h : linkStep fs answer c = .go next) : next < 2 ^ 28 := by
  rw [linkStep] at h
  split at h
  · cases h
  · split at h
    · cases h
    · rename_i hget
      cases h
      rw [Fat32Fs.fat32FatGet] at hget
      split at hget
      · cases hget
      · rw [look_ask] at hget
        split at hget
        · cases hget
        · cases hget
          exact Nat.mod_lt _ (by decide)

-- there are finitely many numbers a link can be
theorem returns_links_iff (c : Nat) : Returns (linkStep fs answer) c ↔ ¬Loops fs answer c := by
  have hfinite : ({c} ∪ Set.Iio (2 ^ 28) : Set Nat).Finite :=
    (Set.finite_singleton c).union (Set.finite_Iio _)
  exact returns_iff_not_revisits hfinite fun n c' h => orbit_mem (fun _ _ => linkStep_lt) h

theorem walk_returns_iff
    (hlink : ∀ c next r, w.link c next = some r → next < 2 ∨ isEoc next = true) (c : Nat) (t : τ) :
    Returns (chainStep w fs answer) (c, t) ↔ Clear w fs answer c t := by
  constructor
  · intro h
    obtain ⟨n, ⟨c', t'⟩, r, horbit, hret⟩ := returns_iff_ret.mp h
    rcases chainStep_ret hret with hstop | ⟨r', hcluster⟩ | ⟨next, r', hgo, hend⟩
    · refine Or.inl ((returns_links_iff c).mp (returns_iff_ret.mpr ?_))
      exact ⟨n, c', (), orbit_links horbit, hstop⟩
    · exact Or.inr ⟨n, c', t', r', horbit, hcluster⟩
    · refine Or.inl ((returns_links_iff c).mp (returns_iff_ret.mpr ⟨n + 1, next, (), ?_, ?_⟩))
      · rw [orbit_add (orbit_links horbit)]
        simp [orbit, hgo]
      · rw [linkStep, if_pos (hlink c' next r' hend)]
  · rintro (hloops | ⟨n, c', t', r, horbit, hcluster⟩)
    · obtain ⟨n, hn⟩ := returns_iff_orbit_stops.mp ((returns_links_iff c).mpr hloops)
      refine returns_iff_orbit_stops.mpr ⟨n, ?_⟩
      by_contra hsome
      obtain ⟨⟨c', t'⟩, h⟩ := Option.ne_none_iff_exists'.mp hsome
      rw [orbit_links h] at hn
      cases hn
    · refine returns_iff_ret.mpr ⟨n, (c', t'), ?_⟩
      by_cases hc : c' < 2 ∨ isEoc c' = true
      · exact ⟨w.ended t', horbit, by rw [chainStep, if_pos hc]⟩
      · exact ⟨r, horbit, by rw [chainStep, if_neg hc, hcluster]⟩

end Chain

section Entries

variable {ρ : Type} {w : DirWalk Unit ρ} {fs : Fat32Fs} {answer : SectorReq → Option (List UInt8)}

def HasEntry (p : List UInt8 → Nat → Prop) (fs : Fat32Fs)
    (answer : SectorReq → Option (List UInt8)) (dir : Nat) : Prop :=
  ∃ c, OnChain fs answer dir c ∧ ∃ s < fs.sectorsPerCluster,
    ∀ sec, answer (.read (add32 (fs.fat32ClusterToRelLba c) s) 1) = some sec →
      ∃ k < 16, p sec (32 * k)

variable {p : List UInt8 → Nat → Prop}

theorem walkSector_ret_iff
    (hentry : ∀ rel sec off, (∃ r, w.entry rel sec off () = .ret r) ↔ p sec off) {rel : Nat}
    {sec : List UInt8} : ∀ left off,
      (∃ r, walkSector w rel sec left off () = .ret r) ↔ ∃ k < left, p sec (off + 32 * k) := by
  intro left
  induction left with
  | zero => simp [walkSector]
  | succ left ih =>
    intro off
    have hfirst := hentry rel sec off
    rw [walkSector]
    cases h : w.entry rel sec off () with
    | ret r =>
      have hp : p sec off := hfirst.mp ⟨r, h⟩
      exact iff_of_true ⟨r, rfl⟩ ⟨0, Nat.succ_pos left, by simpa using hp⟩
    | go t =>
      have hp : ¬p sec off := fun hp => by
        obtain ⟨r, hr⟩ := hfirst.mpr hp
        rw [h] at hr
        cases hr
      refine (ih (off + 32)).trans ⟨?_, ?_⟩
      · rintro ⟨k, hk, hpk⟩
        refine ⟨k + 1, by omega, ?_⟩
        rwa [Nat.mul_succ, Nat.add_comm _ 32, ← Nat.add_assoc]
      · rintro ⟨k, hk, hpk⟩
        cases k with
        | zero => exact absurd hpk hp
        | succ k =>
          refine ⟨k, by omega, ?_⟩
          rwa [Nat.mul_succ, Nat.add_comm _ 32, ← Nat.add_assoc] at hpk

theorem walkCluster_ret_iff
    (hentry : ∀ rel sec off, (∃ r, w.entry rel sec off () = .ret r) ↔ p sec off) {rel : Nat} :
    ∀ left s, (∃ r, (walkCluster w rel left s ()).look answer = .ret r) ↔
      ∃ i < left, ∀ sec, answer (.read (add32 rel (s + i)) 1) = some sec →
        ∃ k < 16, p sec (32 * k) := by
  intro left
  induction left with
  | zero => simp [walkCluster]
  | succ left ih =>
    intro s
    rw [walkCluster, look_ask]
    cases hread : answer (.read (add32 rel s) 1) with
    | none =>
      refine iff_of_true ⟨w.unread (), rfl⟩ ⟨0, Nat.succ_pos left, fun sec hsec => ?_⟩
      rw [Nat.add_zero, hread] at hsec
      cases hsec
    | some sec =>
      have hsector := @walkSector_ret_iff _ _ _ hentry (add32 rel s) sec 16 0
      simp only [Nat.zero_add] at hsector
      dsimp only
      cases h : walkSector w (add32 rel s) sec 16 0 () with
      | ret r =>
        refine iff_of_true ⟨r, rfl⟩ ⟨0, Nat.succ_pos left, fun sec' hsec => ?_⟩
        rw [Nat.add_zero, hread] at hsec
        cases hsec
        exact hsector.mp ⟨r, h⟩
      | go t =>
        refine (ih (s + 1)).trans ⟨?_, ?_⟩
        · rintro ⟨i, hi, hend⟩
          refine ⟨i + 1, by omega, ?_⟩
          rwa [Nat.add_comm i 1, ← Nat.add_assoc]
        · rintro ⟨i, hi, hend⟩
          cases i with
          | zero =>
            obtain ⟨r, hr⟩ := hsector.mpr (hend sec hread)
            rw [h] at hr
            cases hr
          | succ i =>
            refine ⟨i, by omega, ?_⟩
            rwa [Nat.add_comm i 1, ← Nat.add_assoc] at hend

theorem stateless_returns_iff
    (hlink : ∀ c next r, w.link c next = some r → next < 2 ∨ isEoc next = true)
    (hentry : ∀ rel sec off, (∃ r, w.entry rel sec off () = .ret r) ↔ p sec off) (dir : Nat) :
    Returns (chainStep w fs answer) (dir, ()) ↔ ¬Loops fs answer dir ∨ HasEntry p fs answer dir := by
  have hcluster := fun c => @walkCluster_ret_iff _ _ answer _ hentry
    (fs.fat32ClusterToRelLba c) fs.sectorsPerCluster 0
  simp only [Nat.zero_add] at hcluster
  constructor
  · intro h
    refine ((walk_returns_iff hlink dir ()).mp h).imp_right ?_
    rintro ⟨n, c, _, r, horbit, hret⟩
    exact ⟨c, ⟨n, orbit_links horbit⟩, (hcluster c).mp ⟨r, hret⟩⟩
  · rintro (hloops | ⟨c, ⟨n, hn⟩, hends⟩)
    · exact (walk_returns_iff hlink dir ()).mpr (Or.inl hloops)
    · cases horbit : orbit (chainStep w fs answer) n (dir, ()) with
      | none => exact returns_iff_orbit_stops.mpr ⟨n, horbit⟩
      | some st =>
        obtain ⟨c', u⟩ := st
        have hc : c' = c := by
          have hsame := orbit_links horbit
          rw [hn] at hsame
          exact (Option.some.inj hsame).symm
        subst hc
        obtain ⟨r, hret⟩ := (hcluster c').mpr hends
        exact (walk_returns_iff hlink dir ()).mpr (Or.inr ⟨n, c', u, r, horbit, hret⟩)

end Entries

section Reads

variable {τ ρ : Type} {w : DirWalk τ ρ} {fs : Fat32Fs}

theorem asks_walkCluster (w : DirWalk τ ρ) (rel : Nat) : ∀ (left s : Nat) (t : τ),
    (walkCluster w rel left s t).Asks SectorReq.IsRead := by
  intro left
  induction left with
  | zero => exact fun _ _ => trivial
  | succ left ih =>
    refine fun s t => ⟨trivial, ?_⟩
    rintro (_ | sec)
    · trivial
    · dsimp only
      split
      · exact ih _ _
      · trivial

theorem asks_walkChain (w : DirWalk τ ρ) (fs : Fat32Fs) : ∀ (fuel c : Nat) (t : τ),
    (walkChain w fs fuel c t).Asks SectorReq.IsRead := by
  intro fuel
  induction fuel with
  | zero => exact fun _ _ => trivial
  | succ fuel ih =>
    intro c t
    rw [walkChain]
    split
    · trivial
    refine asks_bind (asks_walkCluster w _ _ _ _) fun r => ?_
    cases r with
    | ret r => trivial
    | go t' =>
      refine asks_bind (Fat32Fs.asks_fatGet fs c) fun r => ?_
      cases r with
      | none => trivial
      | some next =>
        dsimp only
        split
        · trivial
        · exact ih _ _

end Reads

def toScan : Step Lfn (Option Found) → Scan
  | .go lfn => .next lfn
  | .ret none => .stop
  | .ret (some f) => .hit f

section Search

variable {fs : Fat32Fs} {answer : SectorReq → Option (List UInt8)} {dir : Nat} {name : Name}

theorem findEntry_walk {rel off : Nat} {sec : List UInt8} {lfn : Lfn} :
    findEntry dir name rel sec off lfn = toScan ((findWalk dir name).entry rel sec off lfn) := by
  simp only [findWalk]
  cases findEntry dir name rel sec off lfn with
  | stop => rfl
  | next lfn' => rfl
  | hit f => rfl

theorem findSector_walk {rel : Nat} {sec : List UInt8} : ∀ {left off : Nat} {lfn : Lfn},
    findSector dir name rel sec left off lfn =
      toScan (walkSector (findWalk dir name) rel sec left off lfn) := by
  intro left
  induction left with
  | zero => exact rfl
  | succ left ih =>
    intro off lfn
    rw [findSector, walkSector, findEntry_walk]
    rcases (findWalk dir name).entry rel sec off lfn with lfn' | _ | f
    · exact ih
    · rfl
    · rfl

theorem findCluster_walk {rel : Nat} : ∀ {left s : Nat} {lfn : Lfn},
    (findCluster dir name rel left s lfn).look answer =
      toScan ((walkCluster (findWalk dir name) rel left s lfn).look answer) := by
  intro left
  induction left with
  | zero => exact rfl
  | succ left ih =>
    intro s lfn
    rw [findCluster, walkCluster, look_ask, look_ask]
    cases answer (.read (add32 rel s) 1) with
    | none => rfl
    | some sec =>
      dsimp only
      rw [findSector_walk]
      rcases walkSector (findWalk dir name) (add32 rel s) sec 16 0 lfn with lfn' | _ | f
      · exact ih
      · rfl
      · rfl

theorem findChain_walk : ∀ {fuel c : Nat} {lfn : Lfn},
    (findChain dir name fs fuel c lfn).look answer =
      (walkChain (findWalk dir name) fs fuel c lfn).look answer := by
  intro fuel
  induction fuel with
  | zero => exact rfl
  | succ fuel ih =>
    intro c lfn
    rw [findChain, walkChain]
    split
    · rfl
    rw [look_bind, look_bind, findCluster_walk]
    rcases (walkCluster (findWalk dir name) (fs.fat32ClusterToRelLba c) fs.sectorsPerCluster 0
        lfn).look answer with lfn' | _ | f
    · dsimp only [toScan]
      rw [look_bind, look_bind]
      cases (fs.fat32FatGet c).look answer with
      | none => rfl
      | some next => exact ih
    · rfl
    · rfl

theorem dirFind_ends_iff {v : Volume} :
    (∃ fuel r, (fs.fat32DirFind fuel dir name).look (fs.reply v) = some r) ↔
      Clear (findWalk dir name) fs (fs.reply v) dir noLfn := by
  rw [← walk_returns_iff (by simp [findWalk]), Returns]
  simp only [Fat32Fs.fat32DirFind, findChain_walk, walkChain_look]

end Search

section Path

variable {fs : Fat32Fs} {v : Volume}

def PathClear (fs : Fat32Fs) (v : Volume) (cur : Nat) : List Name → Prop
  | [] => True
  | name :: names =>
      255 < name.length ∨ (Clear (findWalk cur name) fs (fs.reply v) cur noLfn ∧
        ∀ g, Finds fs v cur name g → PathClear fs v (fs.clusterOf g) names)

theorem components_begun {seg : Name} {c : UInt8} {rest : Path} (hseg : slash ∉ seg)
    (hc : c ≠ slash) :
    ∃ tail names, components slash (seg ++ c :: rest) = (seg ++ c :: tail) :: names := by
  have hhead : (seg ++ c :: rest).head? ≠ some slash := by
    cases seg with
    | nil => simpa using hc
    | cons d seg =>
      rw [List.cons_append, List.head?_cons]
      rintro ⟨⟩
      exact hseg List.mem_cons_self
  rw [components_split slash hhead (by simp), List.takeWhile_append_of_pos,
    List.takeWhile_cons_of_pos (by simpa using hc)]
  · exact ⟨_, _, rfl⟩
  · intro x hx
    exact decide_eq_true fun heq => hseg (heq ▸ hx)

theorem resolveLoop_ends_iff {path : Path} : ∀ {seg : Name} {cur : Nat} {found : Found},
    slash ∉ seg → seg.length ≤ 255 →
      ((∃ fuel r, (fs.resolveLoop fuel path seg cur found).look (fs.reply v) = some r) ↔
        PathClear fs v cur (components slash (seg ++ path))) := by
  induction path with
  | nil =>
    intro seg cur found hseg hlen
    rw [List.append_nil]
    by_cases hne : seg = []
    · subst hne
      exact iff_of_true ⟨0, _, rfl⟩ trivial
    · rw [components_of_forall_ne slash (fun x hx heq => hseg (heq ▸ hx)) hne]
      simp only [Fat32Fs.resolveLoop, if_neg hne, PathClear, Nat.not_lt.mpr hlen, false_or,
        implies_true, and_true]
      exact dirFind_ends_iff
  | cons c rest ih =>
    intro seg cur found hseg hlen
    by_cases hc : c = slash
    · subst hc
      by_cases hne : seg = []
      · subst hne
        simp only [Fat32Fs.resolveLoop, if_pos, List.nil_append, components_cons_sep]
        exact ih (by simp) (by simp)
      · rw [components_append_cons,
          components_of_forall_ne slash (fun x hx heq => hseg (heq ▸ hx)) hne,
          List.singleton_append]
        simp only [Fat32Fs.resolveLoop, if_pos, if_neg hne, PathClear, Nat.not_lt.mpr hlen,
          false_or, look_bind, ← dirFind_ends_iff]
        constructor
        · rintro ⟨fuel, r, h⟩
          cases hfind : (fs.fat32DirFind fuel cur seg).look (fs.reply v) with
          | none => simp [hfind] at h
          | some r' =>
            refine ⟨⟨fuel, r', hfind⟩, ?_⟩
            rintro g ⟨fuel', hg⟩
            have hmore := dirFind_more hfind (Nat.le_max_left fuel fuel')
            rw [dirFind_more hg (Nat.le_max_right fuel fuel')] at hmore
            obtain rfl := Option.some.inj hmore
            rw [hfind] at h
            exact (ih (by simp) (by simp)).mp ⟨fuel, r, h⟩
        · rintro ⟨⟨fuel, r, hfind⟩, hrest⟩
          cases r with
          | none => exact ⟨fuel, none, by rw [hfind]; rfl⟩
          | some g =>
            obtain ⟨fuel', r', h⟩ :=
              (@ih [] (fs.clusterOf g) g (by simp) (by simp)).mpr (hrest g ⟨fuel, hfind⟩)
            refine ⟨max fuel fuel', r', ?_⟩
            rw [dirFind_more hfind (Nat.le_max_left fuel fuel')]
            exact resolveLoop_more (Nat.le_max_right fuel fuel') h
    · by_cases hlong : 256 ≤ seg.length + 1
      · obtain ⟨tail, names, hsplit⟩ := @components_begun _ c rest hseg hc
        rw [hsplit]
        simp only [Fat32Fs.resolveLoop, if_neg hc, if_pos hlong, look_done]
        refine iff_of_true ⟨0, none, rfl⟩ (Or.inl ?_)
        rw [List.length_append, List.length_cons]
        omega
      · simp only [Fat32Fs.resolveLoop, if_neg hc, if_neg hlong]
        rw [ih, List.append_assoc, List.singleton_append]
        · simp only [List.mem_append, List.mem_singleton, not_or]
          exact ⟨hseg, fun heq => hc heq.symm⟩
        · rw [List.length_append, List.length_singleton]
          omega

theorem resolve_ends_iff {junk : Found} {path : Path} :
    (∃ fuel r, (fs.fat32Resolve fuel junk path).look (fs.reply v) = some r) ↔
      (path.head? = some slash → PathClear fs v fs.rootCluster (components slash path)) := by
  by_cases hhead : path.head? = some slash
  · by_cases hroot : path = [slash]
    · subst hroot
      exact iff_of_true ⟨0, _, rfl⟩ fun _ => trivial
    · simp only [Fat32Fs.fat32Resolve, hhead, hroot, ne_eq, not_true_eq_false, if_false,
        forall_true_left]
      exact resolveLoop_ends_iff (by simp) (by simp)
  · simp [Fat32Fs.fat32Resolve, hhead]

end Path

section Ends

variable {fs : Fat32Fs} {d : Sectors} {α : Type}

def Ends (fs : Fat32Fs) (d : Sectors) (p : Nat → Driver (Option α)) : Prop :=
  ∃ fuel r, ((p fuel).run (fs.access fun _ => false) ⟨d, 0⟩).1 = some r

theorem ends_iff_look {p : Nat → Driver (Option α)}
    (hp : ∀ fuel, (p fuel).Asks SectorReq.IsRead) :
    Ends fs d p ↔ ∃ fuel r, (p fuel).look (fs.reply d.volume) = some r := by
  have hlook := fun fuel => @Fat32Fs.run_eq_look fs (fun _ => false) _ (fun _ => rfl)
    (p fuel) ⟨d, 0⟩ (hp fuel)
  simp only [Ends, hlook]

theorem find_ends_iff (dir : Nat) (name : Name) :
    Ends fs d (fun fuel => fs.fat32DirFind fuel dir name) ↔
      Clear (findWalk dir name) fs (fs.reply d.volume) dir noLfn :=
  (ends_iff_look fun fuel => Fat32Fs.asks_findChain dir name fs fuel dir noLfn).trans
    dirFind_ends_iff

theorem isEmpty_ends_iff (dir : Nat) :
    Ends fs d (fun fuel => fs.fat32DirIsEmpty fuel dir) ↔
      Returns (chainStep emptyWalk fs (fs.reply d.volume)) (dir, ()) := by
  refine (ends_iff_look fun fuel => asks_walkChain emptyWalk fs fuel dir ()).trans ?_
  simp only [walkChain_look]
  exact Iff.rfl

-- a directory that is full gets a new cluster, which takes no loop over its chain
theorem freeSlot_ends_iff (dir : Nat) :
    Ends fs d (fun fuel => fs.fat32DirFindFreeSlot fuel dir) ↔
      Returns (chainStep slotWalk fs (fs.reply d.volume)) (dir, ()) := by
  by_cases hdir : dir < 2
  · refine iff_of_true ⟨0, none, ?_⟩ ⟨1, .fail, ?_⟩
    · simp only [Fat32Fs.fat32DirFindFreeSlot, if_pos hdir, run]
    · exact loop_ret (by rw [chainStep, if_pos (Or.inl hdir)]; rfl) 0
  · refine exists_congr fun fuel => ?_
    simp only [Fat32Fs.fat32DirFindFreeSlot, if_neg hdir, run_bind,
      @Fat32Fs.run_eq_look _ (fun _ => false) _ (fun _ => rfl) _ _
        (asks_walkChain slotWalk fs fuel dir ()), walkChain_look]
    cases loop (chainStep slotWalk fs (fs.reply d.volume)) fuel (dir, ()) with
    | none => simp [run]
    | some r =>
      cases r with
      | slot rel off => exact iff_of_true ⟨_, rfl⟩ ⟨_, rfl⟩
      | full last =>
        dsimp only
        rw [run_bind]
        exact iff_of_true ⟨_, rfl⟩ ⟨_, rfl⟩
      | fail => exact iff_of_true ⟨_, rfl⟩ ⟨_, rfl⟩

def ListClear (fs : Fat32Fs) (v : Volume) (junk : Found) (path : Path) (outSize : Nat) : Prop :=
  0 < outSize → path.head? = some slash →
    PathClear fs v fs.rootCluster (components slash path) ∧
      ∀ f, Resolves fs v junk path f → f.isDir = true →
        Clear (listWalk outSize) fs (fs.reply v) (fs.clusterOf f) ⟨[], noLfn⟩

theorem asks_listOp (fs : Fat32Fs) (fuel : Nat) (junk : Found) (path : Path) (outSize : Nat) :
    (fs.fat32ListOp fuel junk path outSize).Asks SectorReq.IsRead := by
  rw [Fat32Fs.fat32ListOp]
  split
  · trivial
  · refine asks_bind (Fat32Fs.asks_resolve fs fuel junk path) fun r => ?_
    rcases r with _ | _ | f
    · trivial
    · trivial
    · dsimp only
      split
      · trivial
      · exact asks_walkChain (listWalk outSize) fs fuel _ _

theorem resolve_more {v : Volume} {fuel more : Nat} {junk : Found} {path : Path}
    {r : Option Found} (hle : fuel ≤ more)
    (h : (fs.fat32Resolve fuel junk path).look (fs.reply v) = some r) :
    (fs.fat32Resolve more junk path).look (fs.reply v) = some r := by
  rw [Fat32Fs.fat32Resolve] at h ⊢
  split
  · rename_i hhead
    rwa [if_pos hhead] at h
  · rename_i hhead
    rw [if_neg hhead] at h
    split
    · rename_i hroot
      rwa [if_pos hroot] at h
    · rename_i hroot
      rw [if_neg hroot] at h
      exact resolveLoop_more hle h

theorem list_ends_iff (junk : Found) (path : Path) (outSize : Nat) :
    Ends fs d (fun fuel => fs.fat32ListOp fuel junk path outSize) ↔
      ListClear fs d.volume junk path outSize := by
  refine (ends_iff_look fun fuel => asks_listOp fs fuel junk path outSize).trans ?_
  by_cases hsize : outSize = 0
  · refine iff_of_true ⟨0, none, ?_⟩ fun hpos => by omega
    rw [Fat32Fs.fat32ListOp, if_pos hsize]
    rfl
  have hclear := @walk_returns_iff _ _ (listWalk outSize) fs (fs.reply d.volume) (by simp [listWalk])
  simp only [ListClear, Nat.pos_of_ne_zero hsize, forall_true_left, ← hclear, Fat32Fs.fat32ListOp,
    if_neg hsize, look_bind]
  have hresolve := @resolve_ends_iff fs d.volume junk path
  constructor
  · rintro ⟨fuel, r, h⟩ hhead
    cases hres : (fs.fat32Resolve fuel junk path).look (fs.reply d.volume) with
    | none => simp [hres] at h
    | some r' =>
      refine ⟨hresolve.mp ⟨fuel, r', hres⟩ hhead, ?_⟩
      rintro f ⟨fuel', hf⟩ hdir
      have hmore := resolve_more (Nat.le_max_left fuel fuel') hres
      rw [resolve_more (Nat.le_max_right fuel fuel') hf] at hmore
      obtain rfl := Option.some.inj hmore
      rw [hres] at h
      simp only [hdir, Bool.not_true, Bool.false_eq_true, if_false, walkChain_look] at h
      exact ⟨fuel, r, h⟩
  · intro h
    by_cases hhead : path.head? = some slash
    · obtain ⟨hpath, hwalk⟩ := h hhead
      obtain ⟨fuel, r, hres⟩ := hresolve.mpr fun _ => hpath
      cases r with
      | none => exact ⟨fuel, none, by rw [hres]; rfl⟩
      | some f =>
        cases hdir : f.isDir with
        | false => exact ⟨fuel, none, by rw [hres]; simp [hdir]⟩
        | true =>
          obtain ⟨fuel', r, hloop⟩ := hwalk f ⟨fuel, hres⟩ hdir
          refine ⟨max fuel fuel', r, ?_⟩
          rw [resolve_more (Nat.le_max_left fuel fuel') hres]
          simp only [hdir, Bool.not_true, Bool.false_eq_true, if_false, walkChain_look]
          exact loop_mono (Nat.le_max_right fuel fuel') hloop
    · exact ⟨0, none, by simp [Fat32Fs.fat32Resolve, hhead]⟩

def IsFree (sec : List UInt8) (off : Nat) : Prop :=
  nameByte sec off 0 = 0x00 ∨ nameByte sec off 0 = 0xE5

def Decides (sec : List UInt8) (off : Nat) : Prop :=
  nameByte sec off 0 = 0x00 ∨
    ¬(nameByte sec off 0 = 0xE5 ∨ entryAttr sec off = attrLfn ∨
      entryAttr sec off &&& attrVolumeId ≠ 0 ∨ nameByte sec off 0 = 46 ∧ nameByte sec off 1 = 32 ∨
      nameByte sec off 0 = 46 ∧ nameByte sec off 1 = 46 ∧ nameByte sec off 2 = 32)

theorem slotWalk_entry_iff (rel : Nat) (sec : List UInt8) (off : Nat) :
    (∃ r, slotWalk.entry rel sec off () = .ret r) ↔ IsFree sec off := by
  simp only [slotWalk, IsFree]
  split
  · rename_i hfree
    exact iff_of_true ⟨_, rfl⟩ hfree
  · rename_i hfree
    exact iff_of_false (by rintro ⟨_, ⟨⟩⟩) hfree

theorem emptyWalk_entry_iff (rel : Nat) (sec : List UInt8) (off : Nat) :
    (∃ r, emptyWalk.entry rel sec off () = .ret r) ↔ Decides sec off := by
  simp only [emptyWalk, Decides]
  split_ifs <;> simp_all

theorem dir_walks_return_iff (fs : Fat32Fs) (d : Sectors) :
    (∀ dir name, Ends fs d (fun fuel => fs.fat32DirFind fuel dir name) ↔
      Clear (findWalk dir name) fs (fs.reply d.volume) dir noLfn) ∧
    (∀ dir, Ends fs d (fun fuel => fs.fat32DirFindFreeSlot fuel dir) ↔
      ¬Loops fs (fs.reply d.volume) dir ∨ HasEntry IsFree fs (fs.reply d.volume) dir) ∧
    (∀ dir, Ends fs d (fun fuel => fs.fat32DirIsEmpty fuel dir) ↔
      ¬Loops fs (fs.reply d.volume) dir ∨ HasEntry Decides fs (fs.reply d.volume) dir) ∧
    ∀ junk path outSize, Ends fs d (fun fuel => fs.fat32ListOp fuel junk path outSize) ↔
      ListClear fs d.volume junk path outSize := by
  refine ⟨find_ends_iff, fun dir => ?_, fun dir => ?_, list_ends_iff⟩
  · refine (freeSlot_ends_iff dir).trans (stateless_returns_iff ?_ slotWalk_entry_iff dir)
    intro c next r hlink
    simp only [slotWalk] at hlink
    split at hlink
    · rename_i hend
      exact hend.symm
    · cases hlink
  · exact (isEmpty_ends_iff dir).trans
      (stateless_returns_iff (by simp [emptyWalk]) emptyWalk_entry_iff dir)

-- the root directory is one cluster of volume labels, and the link of that cluster is itself
private def labels : Sectors := fun rel =>
  if rel = 32 then List.replicate 8 0 ++ 2 :: List.replicate 503 0
  else (List.replicate 16 (65 :: List.replicate 10 32 ++ 8 :: List.replicate 20 0)).flatten

private theorem label_entry {k : Nat} (hk : k < 16) :
    nameByte (labels 33) (32 * k) 0 = 65 ∧ entryAttr (labels 33) (32 * k) = attrVolumeId := by
  revert k
  decide +kernel

theorem walkSector_stays {τ ρ : Type} {w : DirWalk τ ρ} {rel : Nat} {sec : List UInt8} {t : τ} :
    ∀ {left off : Nat}, (∀ k < left, w.entry rel sec (off + 32 * k) t = .go t) →
      walkSector w rel sec left off t = .go t := by
  intro left
  induction left with
  | zero => exact fun _ => rfl
  | succ left ih =>
    intro off h
    rw [walkSector, show w.entry rel sec off t = .go t from h 0 (Nat.succ_pos left)]
    refine ih fun k hk => ?_
    rw [Nat.add_assoc, Nat.add_comm 32, ← Nat.mul_succ]
    exact h (k + 1) (by omega)

private theorem labels_revisit {τ ρ : Type} {w : DirWalk τ ρ} {t : τ} (hlink : w.link 2 2 = none)
    (hlabel : ∀ off, nameByte (labels 33) off 0 = 65 →
      entryAttr (labels 33) off = attrVolumeId → w.entry 33 (labels 33) off t = .go t) :
    ¬Returns (chainStep w twoFiles (twoFiles.reply labels.volume)) (2, t) := by
  have hread : twoFiles.reply labels.volume (.read 33 1) = some (labels 33) := by decide +kernel
  have hget : (twoFiles.fat32FatGet 2).look (twoFiles.reply labels.volume) = some 2 := by
    decide +kernel
  have hsector : walkSector w 33 (labels 33) 16 0 t = .go t := by
    refine walkSector_stays fun k hk => ?_
    rw [Nat.zero_add]
    exact hlabel (32 * k) (label_entry hk).1 (label_entry hk).2
  have hcluster : (walkCluster w 33 1 0 t).look (twoFiles.reply labels.volume) = .go t := by
    rw [walkCluster, look_ask, show add32 33 0 = 33 from rfl, hread]
    dsimp only
    rw [hsector]
    rfl
  have hstep : chainStep w twoFiles (twoFiles.reply labels.volume) (2, t) = .go (2, t) := by
    rw [chainStep, if_neg (by decide), show twoFiles.fat32ClusterToRelLba 2 = 33 from rfl,
      show twoFiles.sectorsPerCluster = 1 from rfl, hcluster, hget]
    dsimp only
    rw [hlink]
  exact not_returns_of_revisits ⟨0, 1, (2, t), Nat.one_pos, rfl, by rw [orbit, hstep]; rfl⟩

theorem walks_never_end :
    ¬Ends twoFiles labels (fun fuel => twoFiles.fat32DirFind fuel 2 [98]) ∧
      ¬Ends twoFiles labels (fun fuel => twoFiles.fat32DirFindFreeSlot fuel 2) ∧
      ¬Ends twoFiles labels (fun fuel => twoFiles.fat32DirIsEmpty fuel 2) ∧
      ¬Ends twoFiles labels
        (fun fuel => twoFiles.fat32ListOp fuel twoFiles.rootFound [slash] 1024) := by
  refine ⟨?_, ?_, ?_, ?_⟩
  · rw [find_ends_iff, ← walk_returns_iff (by simp [findWalk])]
    refine labels_revisit rfl fun off hname hattr => ?_
    simp [findWalk, findEntry, hname, hattr, attrVolumeId, attrLfn]
  · rw [freeSlot_ends_iff]
    refine labels_revisit rfl fun off hname hattr => ?_
    simp [slotWalk, hname]
  · rw [isEmpty_ends_iff]
    refine labels_revisit rfl fun off hname hattr => ?_
    simp [emptyWalk, hname, hattr, attrVolumeId, attrLfn]
  · rw [list_ends_iff]
    intro h
    have hwalk := (h (by decide) rfl).2 twoFiles.rootFound ⟨0, rfl⟩ rfl
    rw [← walk_returns_iff (by simp [listWalk])] at hwalk
    refine labels_revisit rfl (fun off hname hattr => ?_) hwalk
    simp [listWalk, hname, hattr, attrVolumeId, attrLfn]

end Ends

end HouseOS.Fat32
