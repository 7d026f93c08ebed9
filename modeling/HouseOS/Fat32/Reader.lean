import HouseOS.Fat32.Restore

namespace HouseOS.Fat32

open HouseOS.Components
open HouseOS.Disk
open HouseOS.Program
open HouseOS.Program.Prog
open HouseOS.Word

def SectorReq.IsRead : SectorReq → Prop
  | .read _ _ => True
  | .write _ _ _ => False

namespace Fat32Fs

section Look

variable {fs : Fat32Fs} {fails : Nat → Bool} {α : Type}

theorem run_reads (fs : Fat32Fs) (fails : Nat → Bool) {p : Driver α} {s : Store} (hp : p.Asks SectorReq.IsRead) :
    (p.run (fs.access fails) s).2.sector = s.sector := by
  refine ensures_asks (I := fun s' : Store => s'.sector = s.sector) (fun s' e he hs => ?_) hp rfl
  cases e with
  | read rel count =>
    simp only [access]
    split
    · exact hs
    split
    · exact hs
    · exact hs
  | write rel count data => exact he.elim

theorem run_eq_look (hno : NoFault fails) : ∀ {p : Driver α} {s : Store}, p.Asks SectorReq.IsRead →
    (p.run (fs.access fails) s).1 = p.look (fs.reply s.sector.volume)
  | .done _, _, _ => rfl
  | .ask (.read rel count) k, s, ⟨_, hk⟩ => by
    have hreply : (fs.access fails s (.read rel count)).1 =
        fs.reply s.sector.volume (.read rel count) ∧
        (fs.access fails s (.read rel count)).2.sector = s.sector := by
      simp only [access, reply, unserved, Bool.or_eq_true, decide_eq_true_eq, hno s.time]
      split
      · exact ⟨rfl, rfl⟩
      · exact ⟨rfl, rfl⟩
    obtain ⟨hreply, hsame⟩ := hreply
    rw [look_ask, ← hreply, ← hsame]
    exact run_eq_look hno (hk _)

theorem asks_fatGet (fs : Fat32Fs) (c : Nat) : (fs.fat32FatGet c).Asks SectorReq.IsRead := by
  rw [fat32FatGet]
  split
  · trivial
  · refine ⟨trivial, ?_⟩
    rintro (_ | sec)
    · trivial
    · trivial

theorem asks_findCluster (dir : Nat) (name : Name) (rel : Nat) : ∀ (left i : Nat) (lfn : Lfn),
    (findCluster dir name rel left i lfn).Asks SectorReq.IsRead := by
  intro left
  induction left with
  | zero => exact fun _ _ => trivial
  | succ left ih =>
    refine fun i lfn => ⟨trivial, ?_⟩
    rintro (_ | sec)
    · trivial
    · dsimp only
      split
      · exact ih _ _
      · trivial

theorem asks_findChain (dir : Nat) (name : Name) (fs : Fat32Fs) : ∀ (fuel c : Nat) (lfn : Lfn),
    (findChain dir name fs fuel c lfn).Asks SectorReq.IsRead := by
  intro fuel
  induction fuel with
  | zero => exact fun _ _ => trivial
  | succ fuel ih =>
    intro c lfn
    rw [findChain]
    split
    · trivial
    refine asks_bind (asks_findCluster dir name _ _ _ _) fun r => ?_
    cases r with
    | stop => trivial
    | hit f => trivial
    | next lfn' =>
      refine asks_bind (asks_fatGet fs c) fun r => ?_
      cases r with
      | none => trivial
      | some next => exact ih next lfn'

theorem asks_resolveLoop (fs : Fat32Fs) (fuel : Nat) : ∀ (path : Path) (seg : Name) (cur : Nat)
    (found : Found), (fs.resolveLoop fuel path seg cur found).Asks SectorReq.IsRead := by
  intro path
  induction path with
  | nil =>
    intro seg cur found
    rw [resolveLoop]
    split
    · trivial
    · exact asks_findChain cur seg fs fuel cur noLfn
  | cons c rest ih =>
    intro seg cur found
    rw [resolveLoop]
    split
    · split
      · exact ih _ _ _
      · refine asks_bind (asks_findChain cur seg fs fuel cur noLfn) fun r => ?_
        rcases r with _ | _ | f
        · trivial
        · trivial
        · exact ih _ _ _
    · split
      · trivial
      · exact ih _ _ _

theorem asks_resolve (fs : Fat32Fs) (fuel : Nat) (junk : Found) (path : Path) :
    (fs.fat32Resolve fuel junk path).Asks SectorReq.IsRead := by
  rw [fat32Resolve]
  split
  · trivial
  split
  · trivial
  · exact asks_resolveLoop fs fuel path [] fs.rootCluster junk

theorem givesUp_fatGet (fs : Fat32Fs) (c : Nat) : (fs.fat32FatGet c).GivesUp (· = none) := by
  rw [fat32FatGet]
  split
  · trivial
  · refine ⟨rfl, ?_⟩
    rintro (_ | sec)
    · trivial
    · trivial

theorem givesUp_findCluster (dir : Nat) (name : Name) (rel : Nat) : ∀ (left i : Nat) (lfn : Lfn),
    (findCluster dir name rel left i lfn).GivesUp (· = .stop) := by
  intro left
  induction left with
  | zero => exact fun _ _ => trivial
  | succ left ih =>
    refine fun i lfn => ⟨rfl, ?_⟩
    rintro (_ | sec)
    · trivial
    · dsimp only
      split
      · exact ih _ _
      · trivial

theorem givesUp_findChain (dir : Nat) (name : Name) (fs : Fat32Fs) : ∀ (fuel c : Nat) (lfn : Lfn),
    (findChain dir name fs fuel c lfn).GivesUp (· = some none) := by
  intro fuel
  induction fuel with
  | zero => exact fun _ _ => trivial
  | succ fuel ih =>
    intro c lfn
    rw [findChain]
    split
    · trivial
    refine givesUp_bind (fun r hr => ?_) (fun r => ?_) (givesUp_findCluster dir name _ _ _ _)
    · subst hr
      exact rfl
    cases r with
    | stop => trivial
    | hit f => trivial
    | next lfn' =>
      refine givesUp_bind (fun r hr => ?_) (fun r => ?_) (givesUp_fatGet fs c)
      · subst hr
        exact rfl
      cases r with
      | none => trivial
      | some next => exact ih next lfn'

theorem givesUp_resolveLoop (fs : Fat32Fs) (fuel : Nat) : ∀ (path : Path) (seg : Name) (cur : Nat)
    (found : Found), (fs.resolveLoop fuel path seg cur found).GivesUp (· = some none) := by
  intro path
  induction path with
  | nil =>
    intro seg cur found
    rw [resolveLoop]
    split
    · trivial
    · exact givesUp_findChain cur seg fs fuel cur noLfn
  | cons c rest ih =>
    intro seg cur found
    rw [resolveLoop]
    split
    · split
      · exact ih _ _ _
      · refine givesUp_bind (fun r hr => ?_) (fun r => ?_) (givesUp_findChain cur seg fs fuel cur noLfn)
        · subst hr
          exact rfl
        rcases r with _ | _ | f
        · trivial
        · trivial
        · exact ih _ _ _
    · split
      · trivial
      · exact ih _ _ _

theorem givesUp_resolve (fs : Fat32Fs) (fuel : Nat) (junk : Found) (path : Path) :
    (fs.fat32Resolve fuel junk path).GivesUp (· = some none) := by
  rw [fat32Resolve]
  split
  · trivial
  split
  · trivial
  · exact givesUp_resolveLoop fs fuel path [] fs.rootCluster junk

theorem access_replies (fs : Fat32Fs) (fails : Nat → Bool) {d : Sectors} (s : Store) (e : SectorReq)
    (he : e.IsRead) (hs : s.sector = d) : (fs.access fails s e).2.sector = d ∧
      ((fs.access fails s e).1 = fs.reply d.volume e ∨ (fs.access fails s e).1 = none) := by
  subst hs
  cases e with
  | read rel count =>
    simp only [access, reply, unserved, Bool.or_eq_true, decide_eq_true_eq]
    split
    · exact ⟨rfl, Or.inr rfl⟩
    split
    · exact ⟨rfl, Or.inr rfl⟩
    · exact ⟨rfl, Or.inl rfl⟩
  | write rel count data => exact he.elim

end Look

-- the chains of `used` clusters are the same, and so is what is in the clusters
structure Same (fs : Fat32Fs) (used : Nat → Prop) (d d' : Sectors) : Prop where
  clusters : ∀ c, used c → fs.IsCluster c
  chain : ∀ c, used c → isEoc (fs.entry d c) = true ∨ used (fs.entry d c)
  entry : ∀ c, used c → fs.entry d' c = fs.entry d c
  data : ∀ c, used c → ∀ i < fs.sectorsPerCluster,
    d' (fs.clusterSector c i) = d (fs.clusterSector c i)

section Same

variable {fs : Fat32Fs} {used : Nat → Prop} {d d' : Sectors} {dir : Nat} {name : Name}

theorem look_fatGet (h : fs.Laid) (d : Sectors) {c : Nat} (hc : fs.IsCluster c) :
    (fs.fat32FatGet c).look (fs.reply d.volume) = some (fs.entry d c) := by
  have hno : NoFault fun _ => false := fun _ => rfl
  have hget : Ensures (fs.access fun _ => false) (fs.fat32FatGet c) ⟨d, 0⟩ _ := fatGet_ensures h hc
  have hsome := hget.2.2 hno
  rwa [run_eq_look hno (asks_fatGet fs c)] at hsome

theorem reply_same (h : fs.Laid) (hs : fs.Same used d d') {c i : Nat} (hc : used c)
    (hi : i < fs.sectorsPerCluster) :
    fs.reply d.volume (.read (add32 (fs.fat32ClusterToRelLba c) i) 1) =
      fs.reply d'.volume (.read (add32 (fs.fat32ClusterToRelLba c) i) 1) := by
  rw [h.clusterSector_eq (hs.clusters c hc) hi]
  simp only [reply, volume_sectors_one, Sectors.volume, hs.data c hc i hi]

theorem look_findCluster (h : fs.Laid) (hs : fs.Same used d d') {c : Nat} (hc : used c) :
    ∀ (left i : Nat) (lfn : Lfn), i + left ≤ fs.sectorsPerCluster →
      (findCluster dir name (fs.fat32ClusterToRelLba c) left i lfn).look (fs.reply d.volume) =
        (findCluster dir name (fs.fat32ClusterToRelLba c) left i lfn).look (fs.reply d'.volume) := by
  intro left
  induction left with
  | zero => exact fun _ _ _ => rfl
  | succ left ih =>
    intro i lfn hi
    rw [findCluster, look_ask, look_ask, reply_same h hs hc (by omega)]
    cases fs.reply d'.volume (.read (add32 (fs.fat32ClusterToRelLba c) i) 1) with
    | none => rfl
    | some sec =>
      dsimp only
      split
      · exact ih _ _ (by omega)
      · rfl

theorem look_findChain (h : fs.Laid) (hs : fs.Same used d d') : ∀ (fuel c : Nat) (lfn : Lfn),
    (c < 2 ∨ isEoc c = true ∨ used c) →
      (findChain dir name fs fuel c lfn).look (fs.reply d.volume) =
        (findChain dir name fs fuel c lfn).look (fs.reply d'.volume) := by
  intro fuel
  induction fuel with
  | zero => exact fun _ _ _ => rfl
  | succ fuel ih =>
    intro c lfn hc
    rw [findChain]
    split
    · rfl
    rename_i hgo
    rw [not_or] at hgo
    have hused : used c := (hc.resolve_left hgo.1).resolve_left hgo.2
    have hcl := hs.clusters c hused
    rw [look_bind, look_bind, look_findCluster h hs hused _ _ _ (by omega)]
    split
    · rfl
    · rfl
    · rw [look_bind, look_bind, look_fatGet h d hcl, look_fatGet h d' hcl, hs.entry c hused]
      exact ih _ _ (Or.inr (hs.chain c hused))

theorem finds_same (h : fs.Laid) (hs : fs.Same used d d') (hdir : used dir) {f : Found} :
    Finds fs d.volume dir name f ↔ Finds fs d'.volume dir name f := by
  simp only [Finds, fat32DirFind, look_findChain h hs _ dir noLfn (Or.inr (Or.inr hdir))]

theorem denotes_same (h : fs.Laid) (hs : fs.Same used d d') (hroot : used fs.rootCluster)
    {f : Found} : ∀ {names : List Name} {here : Found},
      (∀ names g, Denotes fs d.volume here names g →
        g.node.firstCluster = 0 ∨ used g.node.firstCluster) →
      Denotes fs d.volume here names f → Denotes fs d'.volume here names f := by
  intro names
  induction names with
  | nil => exact fun _ hf => hf
  | cons name names ih =>
    rintro here hin ⟨hdir, g, hfind, hrest⟩
    have hcur : used (fs.clusterOf here) := by
      rw [clusterOf]
      split
      · exact (hin [] here rfl).resolve_left ‹_›
      · exact hroot
    refine ⟨hdir, g, (finds_same h hs hcur).mp hfind, ih ?_ hrest⟩
    exact fun names g' hg' => hin (name :: names) g' ⟨hdir, g, hfind, hg'⟩

variable {size fileSize : Nat}

theorem look_readCluster (h : fs.Laid) (hs : fs.Same used d d') {c : Nat} (hc : used c) :
    ∀ (left i : Nat) (copied : List UInt8), i + left ≤ fs.sectorsPerCluster →
      (readCluster size fileSize (fs.fat32ClusterToRelLba c) left i copied).look
          (fs.reply d.volume) =
        (readCluster size fileSize (fs.fat32ClusterToRelLba c) left i copied).look
          (fs.reply d'.volume) := by
  intro left
  induction left with
  | zero => exact fun _ _ _ => rfl
  | succ left ih =>
    intro i copied hi
    rw [readCluster]
    split
    · rfl
    rw [look_ask, look_ask, reply_same h hs hc (by omega)]
    cases fs.reply d'.volume (.read (add32 (fs.fat32ClusterToRelLba c) i) 1) with
    | none => rfl
    | some sec => exact ih _ _ (by omega)

theorem look_readChain (h : fs.Laid) (hs : fs.Same used d d') :
    ∀ (fuel c : Nat) (copied : List UInt8), (c < 2 ∨ isEoc c = true ∨ used c) →
      (readChain size fileSize fs fuel c copied).look (fs.reply d.volume) =
        (readChain size fileSize fs fuel c copied).look (fs.reply d'.volume) := by
  intro fuel
  induction fuel with
  | zero =>
    intro c copied _
    rw [readChain]
    split
    · rfl
    · rfl
  | succ fuel ih =>
    intro c copied hc
    rw [readChain]
    split
    · rfl
    rename_i hgo
    rw [not_or, not_or] at hgo
    have hused : used c := (hc.resolve_left hgo.1).resolve_left hgo.2.1
    have hcl := hs.clusters c hused
    rw [look_bind, look_bind, look_readCluster h hs hused _ _ _ (by omega)]
    split
    · rfl
    · rw [look_bind, look_bind, look_fatGet h d hcl, look_fatGet h d' hcl, hs.entry c hused]
      exact ih _ _ (Or.inr (hs.chain c hused))

theorem look_readFound (h : fs.Laid) (hs : fs.Same used d d') {n : Found}
    (hn : n.node.firstCluster = 0 ∨ used n.node.firstCluster) (size : Nat) :
    (fs.readFound n size).look (fs.reply d.volume) =
      (fs.readFound n size).look (fs.reply d'.volume) := by
  rw [readFound]
  split
  · rfl
  split
  · rfl
  · refine look_readChain h hs _ _ _ ?_
    rcases hn with hzero | hused
    · rw [hzero]
      exact Or.inl (by decide)
    · exact Or.inr (Or.inr hused)

end Same

end Fat32Fs

end HouseOS.Fat32
