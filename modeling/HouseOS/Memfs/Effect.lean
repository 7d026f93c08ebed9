import HouseOS.Memfs.Lookup

namespace HouseOS.Memfs

open Relation
open HouseOS.Graph
open HouseOS.Components
open HouseOS.Loop (Step)
open HouseOS.Vfs (Path slash NodeType pathCap)
open World

variable {w w' : World} {f : Nat}

theorem setInode_inode (w : World) (i : Nat) (n : Inode) (j : Nat) :
    (w.setInode i n).inode j = if j = i then n else w.inode j := rfl

theorem alike_allocs (w : World) (f n : Nat) : Alike w { w with allocs := n } f :=
  ⟨rfl, rfl, rfl, rfl, fun _ => rfl, fun _ => rfl, fun _ => rfl, fun _ => rfl⟩

theorem alike_setMemfs (w : World) (f g : Nat) (m : Fs) (hroot : m.root = w.root g) :
    Alike w (w.setMemfs g m) f := by
  refine ⟨rfl, rfl, rfl, ?_, fun _ => rfl, fun _ => rfl, fun _ => rfl, fun _ => rfl⟩
  simp only [World.root, World.setMemfs] at hroot ⊢
  split
  · rename_i hfg
    rw [hroot, hfg]
  · rfl

theorem alike_setInode (w : World) (f i : Nat) {n : Inode} (ht : n.type = (w.inode i).type)
    (hl : n.linkCount = (w.inode i).linkCount) (he : n.entries = (w.inode i).entries)
    (hc : n.entryCount = (w.inode i).entryCount) : Alike w (w.setInode i n) f := by
  refine ⟨rfl, rfl, rfl, rfl, ?_, ?_, ?_, ?_⟩ <;> intro j <;>
    simp only [World.entries, setInode_inode] <;> split <;> simp_all

theorem alike_usedSub (w : World) (f g n : Nat) : Alike w (w.usedSub g n) f :=
  alike_setMemfs w f g _ rfl

theorem alike_usedAdd (w : World) (f g n : Nat) : Alike w (w.usedAdd g n) f :=
  alike_setMemfs w f g _ rfl

theorem alike_countInode (w : World) (f g : Nat) : Alike w (w.countInode g) f :=
  alike_setMemfs w f g _ rfl

theorem alike_uncountInode (w : World) (f g : Nat) : Alike w (w.uncountInode g) f :=
  alike_setMemfs w f g _ rfl

theorem alike_dropData (w : World) (f g i : Nat) : Alike w (w.dropData g i) f := by
  simp only [World.dropData]
  split
  · exact (alike_usedSub w f g _).trans (alike_setInode _ f i rfl rfl rfl rfl)
  · exact Alike.refl w f

theorem alike_valloc (w : World) (f n : Nat) : Alike w (w.valloc n).2 f :=
  alike_allocs w f _

theorem alike_extend (w : World) (f g i : Nat) (buf : List UInt8) :
    Alike w (w.extend g i buf).2 f := by
  have hv := alike_valloc w f ((w.inode i).size + buf.length)
  simp only [World.extend]
  split
  · rename_i heq
    rwa [heq] at hv
  · rename_i w₁ heq
    rw [heq] at hv
    refine Alike.trans ?_ (alike_usedAdd _ f g _)
    refine hv.trans (alike_setInode w₁ f i ?_ ?_ ?_ ?_)
    · exact (hv.type i).symm
    · exact (hv.links i).symm
    · exact (hv.entries i).symm
    · exact (hv.count i).symm

theorem alike_streamWrite (w : World) (f g i : Nat) (buf : List UInt8) :
    Alike w (w.streamWrite g i buf).2 f := by
  simp only [World.streamWrite]
  split
  · exact Alike.refl w f
  · exact alike_extend w f g i buf

theorem alike_write (w : World) (f g : Nat) (path : Path) (buf : List UInt8) :
    Alike w (w.memfsWrite g path buf).2 f := by
  simp only [World.memfsWrite]
  split
  · exact Alike.refl w f
  rename_i owner i _
  split
  · split
    · exact Alike.refl w f
    split
    · exact Alike.refl w f
    · exact alike_setInode w f i rfl rfl rfl rfl
  split
  · exact Alike.refl w f
  split
  · exact alike_streamWrite w f owner i buf
  · have hd := alike_dropData w f owner i
    have hv := alike_valloc (w.dropData owner i) f buf.length
    split
    · rename_i heq
      rw [heq] at hv
      exact hd.trans hv
    · rename_i heq
      rw [heq] at hv
      refine Alike.trans ?_ (alike_usedAdd _ f owner _)
      exact (hd.trans hv).trans (alike_setInode _ f i rfl rfl rfl rfl)

theorem alike_append (w : World) (f g : Nat) (path : Path) (buf : List UInt8) :
    Alike w (w.memfsAppend g path buf).2 f := by
  simp only [World.memfsAppend]
  split
  · exact Alike.refl w f
  split
  · exact Alike.refl w f
  split
  · exact alike_streamWrite w f _ _ buf
  · exact alike_extend w f _ _ buf

section Insert

variable {w₁ : World} {dir child : Nat} {name : Path}

structure Prepared (w w₁ : World) (f child : Nat) : Prop where
  grant : w₁.grant = w.grant
  live : ∀ i, w₁.live i = if i = child then true else w.live i
  next : w₁.nextInode = max w.nextInode (child + 1)
  root : w₁.root f = w.root f
  type : ∀ i, i < w.nextInode → (w₁.inode i).type = (w.inode i).type
  links : ∀ i, (w₁.inode i).linkCount = (w.inode i).linkCount
  entries : ∀ i, w₁.entries i = w.entries i
  count : ∀ i, (w₁.inode i).entryCount = (w.inode i).entryCount

theorem Grown.alike (g : Grown w w₁ f dir child name) (a : Alike w₁ w' f) :
    Grown w w' f dir child name where
  grant := a.grant.trans g.grant
  live i := by rw [a.live, g.live]
  next := a.next.trans g.next
  root := a.root.trans g.root
  type i hi := (a.type i).trans (g.type i hi)
  links i := (a.links i).trans (g.links i)
  entries i := (a.entries i).trans (g.entries i)
  count i := (a.count i).trans (g.count i)

theorem Prepared.alike (p : Prepared w w₁ f child) (a : Alike w₁ w' f) :
    Prepared w w' f child where
  grant := a.grant.trans p.grant
  live i := by rw [a.live, p.live]
  next := a.next.trans p.next
  root := a.root.trans p.root
  type i hi := (a.type i).trans (p.type i hi)
  links i := (a.links i).trans (p.links i)
  entries i := (a.entries i).trans (p.entries i)
  count i := (a.count i).trans (p.count i)

theorem insert_grown (dir : Nat) (name : Path) (p : Prepared w w₁ f child) :
    Grown w ((w₁.addEntry dir { name := some name, inode := child, mountedFs := none }).addLink child)
      f dir child name where
  grant := p.grant
  live := p.live
  next := p.next
  root := p.root
  type i hi := by
    rw [← p.type i hi]
    simp only [World.addLink, World.addEntry, setInode_inode]
    split <;> split <;> simp_all
  links i := by
    rw [← p.links i]
    simp only [World.addLink, World.addEntry, setInode_inode]
    split <;> split <;> simp_all
  entries i := by
    rw [← p.entries i]
    simp only [World.entries, World.addLink, World.addEntry, setInode_inode]
    split <;> split <;> simp_all
  count i := by
    rw [← p.count i]
    simp only [World.addLink, World.addEntry, setInode_inode]
    split <;> split <;> simp_all

theorem prepared_live (hlive : w.live child) (hlt : child < w.nextInode) : Prepared w w f child where
  grant := rfl
  live i := by
    split
    · rename_i hi
      rw [hi]
      exact hlive
    · rfl
  next := by omega
  root := rfl
  type _ _ := rfl
  links _ := rfl
  entries _ := rfl
  count _ := rfl

theorem valloc_granted (hg : ∀ n, w.grant n = true) {n : Nat} (hn : n ≠ 0) :
    w.valloc n = (true, { w with allocs := w.allocs + 1 }) := by
  simp [World.valloc, hg, hn]

theorem take_name (hshort : name.length < pathCap) : name.take 255 = name := by
  refine List.take_of_length_le ?_
  simp only [pathCap] at hshort
  omega

theorem dupName_granted (hg : ∀ n, w.grant n = true) (hshort : name.length < pathCap) :
    w.dupName (some name) = (some name, { w with allocs := w.allocs + 1 }) := by
  rw [World.dupName, valloc_granted hg (by decide)]
  simp [World.text, take_name hshort]

theorem dentryCreate_granted (hg : ∀ n, w.grant n = true) (hshort : name.length < pathCap) :
    w.dentryCreate child (some name) =
      (some { name := some name, inode := child, mountedFs := none },
        { w with allocs := w.allocs + 1 + 1 }) := by
  rw [World.dentryCreate, valloc_granted hg (by decide)]
  have hg' : ∀ n, ({ w with allocs := w.allocs + 1 } : World).grant n = true := hg
  simp only [dupName_granted hg' hshort]

theorem dirAdd_grown (p : Prepared w w₁ f child) (hg : ∀ n, w.grant n = true)
    (hdir : (w₁.inode dir).type = .dir) (hname : (w₁.inode child).name = some name)
    (hshort : name.length < pathCap) : Grown w (w₁.dirAdd dir child) f dir child name := by
  have hg₁ : ∀ n, w₁.grant n = true := p.grant ▸ hg
  simp only [World.dirAdd, hdir, hname, ne_eq, not_true_eq_false, if_false,
    dentryCreate_granted hg₁ hshort]
  exact insert_grown _ _ (p.alike (alike_allocs w₁ f _))

end Insert

section Alloc

structure Fills (fill : Inode → Inode) : Prop where
  name : ∀ n, (fill n).name = n.name
  links : ∀ n, (fill n).linkCount = n.linkCount
  entries : ∀ n, (fill n).entries = n.entries
  count : ∀ n, (fill n).entryCount = n.entryCount

theorem vallocInode_granted (h : Tree w f) :
    ∃ w₁, w.vallocInode = (some w.nextInode, w₁) ∧ Prepared w w₁ f w.nextInode ∧
      w₁.inode w.nextInode = zeroInode ∧ ∀ i, i ≠ w.nextInode → w₁.inode i = w.inode i := by
  have hv : w.vallocInode = (some w.nextInode, { w with
      inode := fun j => if j = w.nextInode then zeroInode else w.inode j
      live := fun j => if j = w.nextInode then true else w.live j
      nextInode := w.nextInode + 1
      allocs := w.allocs + 1 }) := by
    rw [World.vallocInode, valloc_granted h.granted (by decide)]
  refine ⟨_, hv, ⟨rfl, fun _ => rfl, ?_, rfl, ?_, ?_, ?_, ?_⟩, ?_, ?_⟩
  · show w.nextInode + 1 = _
    omega
  · intro i hi
    show (if i = w.nextInode then zeroInode else w.inode i).type = _
    rw [if_neg (by omega)]
  · intro i
    show (if i = w.nextInode then zeroInode else w.inode i).linkCount = _
    split
    · rename_i hi
      rw [(h.blank i (by omega)).1]
      rfl
    · rfl
  · intro i
    show (if i = w.nextInode then zeroInode else w.inode i).entries = _
    split
    · rename_i hi
      rw [h.entries_fresh (by omega)]
      rfl
    · rfl
  · intro i
    show (if i = w.nextInode then zeroInode else w.inode i).entryCount = _
    split
    · rename_i hi
      rw [(h.blank i (by omega)).2]
      rfl
    · rfl
  · exact if_pos rfl
  · intro i hi
    exact if_neg hi

theorem Prepared.setInode {w₁ : World} (p : Prepared w w₁ f w.nextInode) {n : Inode}
    (hl : n.linkCount = (w₁.inode w.nextInode).linkCount)
    (he : n.entries = (w₁.inode w.nextInode).entries)
    (hc : n.entryCount = (w₁.inode w.nextInode).entryCount) :
    Prepared w (w₁.setInode w.nextInode n) f w.nextInode where
  grant := p.grant
  live := p.live
  next := p.next
  root := p.root
  type i hi := by
    rw [← p.type i hi, setInode_inode, if_neg (by omega)]
  links i := by
    rw [← p.links i, setInode_inode]
    split
    · rename_i hi
      rw [hl, hi]
    · rfl
  entries i := by
    rw [← p.entries i, World.entries, setInode_inode]
    split
    · rename_i hi
      rw [he, hi]
      rfl
    · rfl
  count i := by
    rw [← p.count i, setInode_inode]
    split
    · rename_i hi
      rw [hc, hi]
    · rfl

theorem newNode_grown (h : Tree w f) {parent : Nat} {name : Path} {fill : Inode → Inode}
    (hp : w.IsDir parent) (hshort : name.length < pathCap) (hf : Fills fill) :
    Grown w (w.newNode f parent name fill).2 f parent w.nextInode name := by
  have hne : parent ≠ w.nextInode := by
    have := h.below parent hp.1
    omega
  obtain ⟨w₁, hw₁, p, _, hold⟩ := vallocInode_granted h
  have hg₁ : ∀ n, w₁.grant n = true := p.grant ▸ h.granted
  simp only [World.newNode, hw₁, dupName_granted hg₁ hshort]
  refine Grown.alike ?_ (alike_countInode _ f f)
  have p₂ := p.alike (alike_allocs w₁ f (w₁.allocs + 1))
  refine dirAdd_grown (p₂.setInode (hf.links _) (hf.entries _) (hf.count _)) h.granted ?_ ?_ hshort
  · rw [setInode_inode, if_neg hne]
    exact (hold parent hne).symm ▸ hp.2
  · rw [setInode_inode, if_pos rfl, hf.name]

theorem mkdirHere_grown (h : Tree w f) {cur : Nat} {name : Path} (hp : w.IsDir cur)
    (hshort : name.length < pathCap) :
    ∃ w', w.mkdirHere f cur name = (some w.nextInode, w') ∧
      Grown w w' f cur w.nextInode name ∧ w'.IsDir w.nextInode := by
  have hne : cur ≠ w.nextInode := by
    have := h.below cur hp.1
    omega
  obtain ⟨w₁, hw₁, p, _, hold⟩ := vallocInode_granted h
  obtain ⟨w₂, hw₂⟩ : ∃ w₂, w₂ = w₁.setInode w.nextInode
      { w₁.inode w.nextInode with type := .dir } := ⟨_, rfl⟩
  have p₂ : Prepared w w₂ f w.nextInode := hw₂ ▸ p.setInode rfl rfl rfl
  have hold₂ : w₂.inode cur = w.inode cur := by
    rw [hw₂, setInode_inode, if_neg hne, hold cur hne]
  have hnew₂ : (w₂.inode w.nextInode).type = .dir := by
    rw [hw₂, setInode_inode, if_pos rfl]
  have hg₂ : ∀ n, w₂.grant n = true := p₂.grant ▸ h.granted
  have p₃ := p₂.alike (alike_allocs w₂ f (w₂.allocs + 1))
  obtain ⟨w₄, hw₄⟩ : ∃ w₄, w₄ = ({ w₂ with allocs := w₂.allocs + 1 } : World).setInode w.nextInode
      { w₂.inode w.nextInode with name := some name, parent := some cur } := ⟨_, rfl⟩
  have p₄ : Prepared w w₄ f w.nextInode := hw₄ ▸ p₃.setInode rfl rfl rfl
  have hcur₄ : (w₄.inode cur).type = .dir := by
    rw [hw₄, setInode_inode, if_neg hne]
    exact hold₂ ▸ hp.2
  have hnew₄ : (w₄.inode w.nextInode).type = .dir ∧ (w₄.inode w.nextInode).name = some name := by
    rw [hw₄, setInode_inode, if_pos rfl]
    exact ⟨hnew₂, rfl⟩
  have g := (dirAdd_grown p₄ h.granted hcur₄ hnew₄.2 hshort).alike (alike_countInode _ f f)
  refine ⟨((w₄.dirAdd cur w.nextInode).countInode f), ?_, g, ?_, ?_⟩
  · simp only [World.mkdirHere, hw₁]
    rw [← hw₂, dupName_granted hg₂ hshort, hw₄]
  · rw [g.live, if_pos rfl]
  · have hg₄ : ∀ n, w₄.grant n = true := p₄.grant ▸ h.granted
    simp only [World.countInode, World.setMemfs, World.dirAdd, hcur₄, hnew₄.2, ne_eq,
      not_true_eq_false, if_false, dentryCreate_granted hg₄ hshort, World.addLink, World.addEntry,
      setInode_inode, if_neg (Ne.symm hne), if_true]
    exact hnew₄.1

end Alloc

section Remove

variable {dir : Nat} {d : Dentry}

theorem eraseP_congr {l : List Dentry} {p q : Dentry → Bool} (hpq : ∀ e ∈ l, p e = q e) :
    l.eraseP p = l.eraseP q := by
  induction l with
  | nil => rfl
  | cons e l ih =>
    rw [List.eraseP_cons, List.eraseP_cons, hpq e List.mem_cons_self,
      ih (fun e he => hpq e (List.mem_cons_of_mem _ he))]

structure Unlinked (w w₁ : World) (f dir : Nat) (d : Dentry) : Prop where
  grant : w₁.grant = w.grant
  live : w₁.live = w.live
  next : w₁.nextInode = w.nextInode
  root : w₁.root f = w.root f
  type : ∀ i, (w₁.inode i).type = (w.inode i).type
  links : ∀ i, (w₁.inode i).linkCount = (w.inode i).linkCount - if i = d.inode then 1 else 0
  entries : ∀ i, w₁.entries i =
    if i = dir then (w.entries i).eraseP (fun e => decide (e.name = d.name)) else w.entries i
  count : ∀ i, (w₁.inode i).entryCount = (w.inode i).entryCount - if i = dir then 1 else 0

theorem unlinked (h : Tree w f) (hd : d ∈ w.entries dir) :
    Unlinked w ((w.removeEntry dir d).dropLink d.inode) f dir d := by
  have herase : (w.entries dir).eraseP (fun e => decide (w.text e.name = w.text d.name)) =
      (w.entries dir).eraseP (fun e => decide (e.name = d.name)) := by
    obtain ⟨name, hname, _⟩ := (h.entry dir d hd).named
    refine eraseP_congr ?_
    intro e he
    rw [decide_eq_decide, h.text_eq he, hname]
    rfl
  refine ⟨rfl, rfl, rfl, rfl, ?_, ?_, ?_, ?_⟩
  · intro i
    simp only [World.dropLink, World.removeEntry, setInode_inode]
    split <;> split <;> simp_all
  · intro i
    simp only [World.dropLink, World.removeEntry, setInode_inode]
    split <;> split <;> simp_all
  · intro i
    simp only [World.entries, World.dropLink, World.removeEntry, setInode_inode] at herase ⊢
    split <;> split <;> simp_all
  · intro i
    simp only [World.dropLink, World.removeEntry, setInode_inode]
    split <;> split <;> simp_all

theorem Unlinked.alike {w₁ w₂ : World} (u : Unlinked w w₁ f dir d) (a : Alike w₁ w₂ f) :
    Unlinked w w₂ f dir d where
  grant := a.grant.trans u.grant
  live := a.live.trans u.live
  next := a.next.trans u.next
  root := a.root.trans u.root
  type i := (a.type i).trans (u.type i)
  links i := (a.links i).trans (u.links i)
  entries i := (a.entries i).trans (u.entries i)
  count i := (a.count i).trans (u.count i)

theorem Unlinked.freed {w₁ : World} (u : Unlinked w w₁ f dir d)
    (hone : (w.inode d.inode).linkCount = 1) : Shrunk w (w₁.vfreeInode d.inode) f dir d where
  grant := u.grant
  live i := by
    show (if i = d.inode then false else w₁.live i) = _
    rw [u.live]
    by_cases hi : i = d.inode
    · rw [if_pos hi, if_pos ⟨hi, hi ▸ hone⟩]
    · rw [if_neg hi, if_neg (fun hc => hi hc.1)]
  next := u.next
  root := u.root
  type := u.type
  links := u.links
  entries := u.entries
  count := u.count

theorem Unlinked.kept {w₁ : World} (u : Unlinked w w₁ f dir d)
    (hmany : (w.inode d.inode).linkCount ≠ 1) : Shrunk w w₁ f dir d where
  grant := u.grant
  live i := by
    rw [u.live, if_neg]
    rintro ⟨rfl, hone⟩
    exact hmany hone
  next := u.next
  root := u.root
  type := u.type
  links := u.links
  entries := u.entries
  count := u.count

theorem Tree.linkCount_zero_iff (h : Tree w f) (hd : d ∈ w.entries dir) {w₁ : World}
    (u : Unlinked w w₁ f dir d) :
    (w₁.inode d.inode).linkCount = 0 ↔ (w.inode d.inode).linkCount = 1 := by
  have hpos := h.linked d.inode (h.entry dir d hd).live
  rw [u.links, if_pos rfl]
  omega

def deletedFile (w : World) (f dir : Nat) (d : Dentry) : World :=
  let w := (w.removeEntry dir d).dropLink d.inode
  if (w.inode d.inode).linkCount = 0 then
    ((w.dropData f d.inode).uncountInode f).vfreeInode d.inode
  else w

theorem deletedFile_shrunk (h : Tree w f) (hd : d ∈ w.entries dir) :
    Shrunk w (deletedFile w f dir d) f dir d := by
  have u := unlinked h hd
  have hzero := h.linkCount_zero_iff hd u
  rw [deletedFile]
  split
  · rename_i hlink
    have a := (alike_dropData ((w.removeEntry dir d).dropLink d.inode) f f d.inode).trans
      (alike_uncountInode _ f f)
    exact (u.alike a).freed (hzero.mp hlink)
  · rename_i hlink
    exact u.kept (fun hone => hlink (hzero.mpr hone))

theorem storage_leaf (h : Tree w f) {i : Nat} (hstore : isStorageNode (w.inode i).type = true) :
    w.entries i = [] := by
  by_contra hne
  rw [(h.idle i hne).2] at hstore
  cases hstore

theorem memfsDeleteFile_eq (w : World) (f : Nat) (path : Path) :
    w.memfsDeleteFile f path =
      if path = [slash] then (-1, w)
      else
        match w.lookupPathDentry f path with
        | none => (-1, w)
        | some (d, owner, parent) =>
            if d.mountedFs.isSome then (-1, w)
            else if ¬ isStorageNode (w.inode d.inode).type then (-1, w)
            else (0, deletedFile w owner parent d) := by
  rw [World.memfsDeleteFile]
  cases w.lookupPathDentry f path with
  | none => rfl
  | some r =>
    obtain ⟨d, owner, parent⟩ := r
    simp only [deletedFile]
    split_ifs <;> rfl

theorem tree_deleteFile (h : Tree w f) (path : Path) : Tree (w.memfsDeleteFile f path).2 f := by
  rw [memfsDeleteFile_eq]
  split
  · exact h
  split
  · exact h
  rename_i d owner dir hlook
  obtain ⟨hd, rfl⟩ := h.lookupPathDentry_spec hlook
  split
  · exact h
  split
  · exact h
  rename_i hstore
  exact h.shrink (deletedFile_shrunk h hd) hd (storage_leaf h (by simpa using hstore))

theorem tree_deleteDir (h : Tree w f) (path : Path) : Tree (w.memfsDeleteDir f path).2 f := by
  simp only [World.memfsDeleteDir]
  split
  · exact h
  split
  · exact h
  rename_i d owner dir hlook
  obtain ⟨hd, rfl⟩ := h.lookupPathDentry_spec hlook
  split
  · exact h
  split
  · exact h
  split
  · exact h
  split
  · exact h
  rename_i hempty
  have hleaf : w.entries d.inode = [] := by
    have hcount := h.count d.inode
    exact List.eq_nil_of_length_eq_zero (by omega)
  have u := unlinked h hd
  have hzero := h.linkCount_zero_iff hd u
  split
  · rename_i hlink
    exact h.shrink ((u.alike (alike_uncountInode _ owner owner)).freed (hzero.mp hlink)) hd hleaf
  · rename_i hlink
    exact h.shrink (u.kept (fun hone => hlink (hzero.mpr hone))) hd hleaf

end Remove

end HouseOS.Memfs
