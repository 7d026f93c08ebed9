import HouseOS.Elf.Model
import HouseOS.Output.Model
import HouseOS.Syscall.TreeRefines

namespace HouseOS.Output

open HouseOS.ByteCursor
open HouseOS.Cmd (bufPtr)
open HouseOS.Syscall
open HouseOS.Vfs (Path)

section Text

def overlaid (old w : List UInt8) : List UInt8 := w ++ old.drop w.length

theorem overlaid_eq_iff (old w : List UInt8) : overlaid old w = w ↔ old.length ≤ w.length := by
  simp [overlaid]

theorem overwrite_overlaid (old w data : List UInt8) :
    overwrite 0 (overlaid old w) w.length data = overlaid old (w ++ data) := by
  have hpad : w.length - (overlaid old w).length = 0 := by
    rw [overlaid, List.length_append]
    omega
  rw [overwrite, hpad, overlaid, overlaid, List.take_left, List.replicate_zero, List.append_nil,
    List.length_append, ← List.drop_drop, List.drop_left, List.drop_drop]

end Text

section Write

variable {Disk E : Type} [DecidableEq E] {v : View Disk E} {o : TreeCalls Disk}
  {files : Files Disk} {d : Disk} {path : Path} {i fd : Nat} {old w : List UInt8}

structure Written (v : View Disk E) (d : Disk) (path : Path) (i fd : Nat) (old w : List UInt8)
    (files : Files Disk) : Prop where
  opened : Opened path (v.Frame i d) (fun d => v.data d i) fd false files ⟨overlaid old w, w.length⟩
  plain : (files.fds fd).pipeAutoUnlink = false

theorem sysWrite_written (hs : Serves v o) (hi : v.node d (v.entry path) = .file i)
    (h : Written v d path i fd old w files) (m : Allocator) {data : List UInt8}
    (hshort : data.length ≤ 2 ^ 22) :
    ∃ a files', files.sysWrite o.toFileCalls m.kmalloc fd bufPtr data = some (a, files') ∧
      (a.eax < 0 ∧ Written v d path i fd old w files' ∨
        a.eax = data.length ∧ Written v d path i fd old (w ++ data) files') := by
  by_cases hdata : data = []
  · subst hdata
    obtain ⟨d₁, hroot, -⟩ := h.opened.disk
    refine ⟨⟨0, []⟩, files, ?_, Or.inr ⟨rfl, by rwa [List.append_nil]⟩⟩
    unfold Files.sysWrite
    rw [hroot]
    exact if_pos (Or.inr rfl)
  · obtain ⟨a, files', c', hwrite, hopen, hmoves, hcase⟩ :=
      sysWrite_stores hs hi h.opened m (by decide : bufPtr ≠ 0) hdata hshort
    have hplain := (hmoves.autoUnlink (k := fd)).trans h.plain
    refine ⟨a, files', hwrite, ?_⟩
    rcases hcase with ⟨hneg, rfl⟩ | ⟨hcount, rfl⟩
    · exact Or.inl ⟨hneg, hopen, hplain⟩
    · refine Or.inr ⟨hcount, ?_, hplain⟩
      rw [Cursor.write] at hopen
      dsimp only at hopen
      rwa [overwrite_overlaid, ← List.length_append] at hopen

omit [DecidableEq E] in
theorem sysClose_written (hi : v.node d (v.entry path) = .file i)
    (h : Written v d path i fd old w files) :
    ∃ d', (files.sysClose o fd).2.rootFs = some d' ∧ v.Holds d' (v.entry path) (overlaid old w) := by
  obtain ⟨d', hroot, hframe, hbytes⟩ := h.opened.disk
  exact ⟨d', by rw [sysClose_disk h.plain, hroot], i, by rw [hframe.node, hi], hbytes.symm⟩

omit [DecidableEq E] in
theorem opened_written (hlt : fd < fdMax) (hroot : files.rootFs = some d)
    (he : files.fds fd = pathFd path 1) (hpath : (pathFd path 1).path = path)
    (hold : v.data d i = old) : Written v d path i fd old [] files := by
  have hopen := opened_path (v := v) (i := i) hlt hroot he hpath
  rw [not_appends, hold] at hopen
  exact ⟨hopen, by rw [he]; rfl⟩

end Write

section Shell

variable {Disk E : Type} [DecidableEq E] {v : View Disk E} {o : TreeCalls Disk}
  {files : Files Disk} {d : Disk} {path : Path}

theorem sysAppend_spec (hs : Serves v o) {i fd : Nat} (hroot : files.rootFs = some d)
    (hi : v.node d (v.entry path) = .file i) (hlt : fd < fdMax)
    (he : files.fds fd = pathFd path 1) (hpath : (pathFd path 1).path = path)
    (text : List UInt8) :
    ∃ n files' d', files.sysAppend o fd bufPtr text = (n, files') ∧ files'.rootFs = some d' ∧
      v.node d' = v.node d ∧ (files'.fds fd).pipeAutoUnlink = false ∧
      (n < 0 ∨ v.data d' i = v.data d i ++ text) := by
  have hfd : files.fds.fdPath fd = some path := by
    rw [FdTable.fdPath, he, if_neg]
    · rw [hpath]
    · simp [pathFd, hlt]
  have hplain : (files.fds fd).pipeAutoUnlink = false := by
    rw [he]
    rfl
  unfold Files.sysAppend
  rw [hroot]
  dsimp only
  by_cases hnone : bufPtr = 0 ∨ text.length = 0
  · rw [if_pos hnone]
    have htext : text = [] := List.length_eq_zero_iff.mp (hnone.resolve_left (by decide))
    exact ⟨0, files, d, rfl, hroot, rfl, hplain, Or.inr (by rw [htext, List.append_nil])⟩
  rw [if_neg hnone, hfd]
  dsimp only
  rcases hs.append d path i text hi with ⟨hneg, hsame⟩ | ⟨hcount, hstores⟩
  · rw [if_pos hneg]
    exact ⟨_, _, _, rfl, rfl, hsame.node, hplain, Or.inl (by decide)⟩
  · have hnode : v.node (o.vfsAppend d path text).2 (v.entry path) = .file i := by
      rw [hstores.node, hi]
    have hdone : ¬ (o.vfsAppend d path text).1 < 0 := by omega
    rw [if_neg hdone, hs.info _ path i hnode]
    dsimp only
    by_cases hpos : 0 < (o.vfsAppend d path text).1
    · rw [if_pos hpos]
      refine ⟨_, _, _, rfl, rfl, hstores.node, ?_, Or.inr hstores.data⟩
      simp only [Files.setOffset, FdTable.set, if_pos]
      exact hplain
    · rw [if_neg hpos]
      exact ⟨_, _, _, rfl, rfl, hstores.node, hplain, Or.inr hstores.data⟩

theorem writeTextToFile_spec (hs : Serves v o) (hroot : files.rootFs = some d)
    (hslot : (∃ i, v.node d (v.entry path) = .file i) ∨ v.node d (v.entry path) = .absent)
    (m : Allocator) {text : List UInt8} (hshort : text.length ≤ 2 ^ 22) (appendMode : Bool) :
    ∃ r files' d', writeTextToFile o m files path text appendMode = some (r, files') ∧
      files'.rootFs = some d' ∧ (r = 0 → v.Holds d' (v.entry path)
        (if appendMode then v.old d (v.entry path) ++ text else overlaid (v.old d (v.entry path)) text)) := by
  obtain ⟨r₁, s₁, d₁, hopen, hroot₁, -, -, hcase⟩ :=
    sysOpen_spec hs hroot (hslot.imp_right fun h => ⟨h, (by decide : 1 &&& 1 ≠ 0)⟩)
  unfold writeTextToFile
  rw [hopen]
  dsimp only
  by_cases hneg : r₁ < 0
  · rw [if_pos hneg]
    exact ⟨-1, s₁, d₁, rfl, hroot₁, fun h => absurd h (by decide)⟩
  rw [if_neg hneg]
  obtain ⟨fd, rfl, hlt, -, hfds, hpath, -, i, hi, hold⟩ := hcase.resolve_left fun h => hneg h.1
  have he : s₁.fds fd = pathFd path 1 := by rw [hfds, FdTable.set, if_pos rfl]
  rw [Int.toNat_natCast]
  cases appendMode with
  | true =>
    obtain ⟨n, s₂, d₂, happend, hroot₂, hnode, hplain, hdone⟩ :=
      sysAppend_spec hs hroot₁ hi hlt he hpath text
    rw [if_pos rfl, happend]
    refine ⟨_, _, d₂, rfl, by rw [sysClose_disk hplain, hroot₂], fun hr => ?_⟩
    rcases hdone with hbad | hdata
    · rw [if_pos hbad] at hr
      exact absurd hr (by decide)
    · exact ⟨i, by rw [hnode, hi], by rw [hdata, hold]; rfl⟩
  | false =>
    obtain ⟨a, s₂, hwrite, hdone⟩ :=
      sysWrite_written hs hi (opened_written hlt hroot₁ he hpath hold) m hshort
    rw [if_neg Bool.false_ne_true, hwrite, Option.map_some]
    rcases hdone with ⟨hbad, hkept⟩ | ⟨-, hnew⟩
    · obtain ⟨d₂, hroot₂, -⟩ := sysClose_written (o := o) hi hkept
      refine ⟨_, _, d₂, rfl, hroot₂, fun hr => ?_⟩
      rw [if_pos hbad] at hr
      exact absurd hr (by decide)
    · obtain ⟨d₂, hroot₂, hholds⟩ := sysClose_written (o := o) hi hnew
      exact ⟨_, _, d₂, rfl, hroot₂, fun _ => hholds⟩

end Shell

section Streams

variable {Disk E : Type} [DecidableEq E] {v : View Disk E} {o : TreeCalls Disk}
  {s s' : Stdio Disk} {d : Disk} {path : Path} {i k : Nat} {old w : List UInt8}

-- a stream opened for writing, with `w` written to it so far
structure Streaming (v : View Disk E) (d : Disk) (path : Path) (i k : Nat) (old w : List UInt8)
    (s : Stdio Disk) : Prop where
  written : Written v d path i (s.pool k).fd old w s.files
  mode : (s.pool k).mode = fileModeWrite

def WriteOp.source : WriteOp → List UInt8
  | .fwrite ptr _ _ => ptr
  | op => op.bytes

theorem writeAll_written (hs : Serves v o) (hi : v.node d (v.entry path) = .file i) {fd : Nat}
    {files : Files Disk} (h : Written v d path i fd old w files) (mem : Nat → Allocator)
    {buf : List UInt8} (hshort : buf.length ≤ 2 ^ 22) :
    ∃ n files', Stdio.writeAll o mem files fd buf = some (n, files') ∧
      (n < 0 ∨ Written v d path i fd old (w ++ buf) files') := by
  unfold Stdio.writeAll
  cases hlen : buf.length with
  | zero =>
    rw [List.length_eq_zero_iff.mp hlen, List.append_nil]
    exact ⟨0, files, rfl, Or.inr h⟩
  | succ fuel =>
    have hne : buf ≠ [] := by
      rintro rfl
      cases hlen
    obtain ⟨a, files₁, hwrite, hcase⟩ := sysWrite_written hs hi h (mem fuel) hshort
    rw [Stdio.writeAllFrom, if_neg hne, hwrite, Option.bind_some]
    dsimp only
    rcases hcase with ⟨hneg, -⟩ | ⟨hcount, hdone⟩
    · rw [if_pos (by omega)]
      exact ⟨-1, files₁, rfl, Or.inl (by decide)⟩
    · rw [if_neg (by omega), hcount, Int.toNat_natCast, List.drop_length]
      refine ⟨0 + (buf.length : Int), files₁, ?_, Or.inr hdone⟩
      cases fuel <;> rfl

theorem putS_streaming (hs : Serves v o) (hi : v.node d (v.entry path) = .file i)
    (h : Streaming v d path i k old w s) (mem : Nat → Allocator) {text : List UInt8}
    (hshort : text.length ≤ 2 ^ 22) :
    ∃ n s', s.putS o mem k text = some (n, s') ∧
      (n < 0 ∨ Streaming v d path i k old (w ++ text) s') := by
  obtain ⟨n, files, hall, hcase⟩ := writeAll_written hs hi h.written mem hshort
  unfold Stdio.putS
  rw [hall, Option.map_some]
  exact ⟨n, _, rfl, hcase.imp_right fun hw => ⟨hw, h.mode⟩⟩

theorem fwrite_streaming (hs : Serves v o) (hi : v.node d (v.entry path) = .file i)
    (h : Streaming v d path i k old w s) (m : Allocator) {ptr : List UInt8}
    (hshort : ptr.length ≤ 2 ^ 22) (size nmemb : Nat) :
    ∃ n s', s.fwrite o m k ptr size nmemb = some (n, s') ∧
      (n = nmemb → Streaming v d path i k old (w ++ ptr.take (size * nmemb)) s') := by
  unfold Stdio.fwrite
  by_cases hnone : size = 0 ∨ nmemb = 0
  · rw [if_pos hnone]
    refine ⟨0, s, rfl, fun hn => ?_⟩
    rwa [← hn, Nat.mul_zero, List.take_zero, List.append_nil]
  obtain ⟨hsize, hnmemb⟩ := not_or.mp hnone
  rw [if_neg hnone, h.mode, if_neg (by decide), if_neg (by decide)]
  have hdata : (ptr.take (size * nmemb % 2 ^ 32)).length ≤ 2 ^ 22 :=
    (List.length_take_le' _ _).trans hshort
  obtain ⟨a, files, hwrite, hcase⟩ := sysWrite_written hs hi h.written m hdata
  rw [hwrite, Option.map_some]
  dsimp only
  by_cases hneg : a.eax ≤ 0
  · rw [if_pos hneg]
    exact ⟨0, _, rfl, fun hn => absurd hn.symm hnmemb⟩
  rw [if_neg hneg]
  obtain ⟨hcount, hdone⟩ := hcase.resolve_left fun hbad => hneg (by omega)
  refine ⟨_, _, rfl, fun hn => ?_⟩
  have hall : size * nmemb ≤ size * nmemb % 2 ^ 32 := by
    rw [hcount, Int.toNat_natCast, List.length_take] at hn
    have hle := (Nat.le_div_iff_mul_le (by omega)).mp (le_of_eq hn.symm)
    rw [Nat.mul_comm] at hle
    omega
  have hmod : size * nmemb % 2 ^ 32 = size * nmemb := le_antisymm (Nat.mod_le _ _) hall
  rw [hmod] at hdone
  exact ⟨hdone, h.mode⟩

theorem writeOp_streaming (hs : Serves v o) (hi : v.node d (v.entry path) = .file i)
    (h : Streaming v d path i k old w s) (mem : Nat → Allocator) (op : WriteOp)
    (hshort : op.source.length ≤ 2 ^ 22) :
    ∃ ok s', op.run o mem s k = some (ok, s') ∧
      (ok = true → Streaming v d path i k old (w ++ op.bytes) s') := by
  cases op with
  | fwrite ptr size nmemb =>
    have hptr : ptr.length ≤ 2 ^ 22 := hshort
    obtain ⟨n, s', hrun, hdone⟩ := fwrite_streaming hs hi h (mem 0) hptr size nmemb
    rw [WriteOp.run, hrun, Option.map_some]
    exact ⟨_, s', rfl, fun hok => hdone (of_decide_eq_true hok)⟩
  | fputc c =>
    have hone : [c].length ≤ 2 ^ 22 := hshort
    obtain ⟨n, s', hrun, hdone⟩ := fwrite_streaming hs hi h (mem 0) hone 1 1
    rw [WriteOp.run, Stdio.fputc, hrun, Option.map_some, Option.map_some]
    refine ⟨_, s', rfl, fun hok => hdone ?_⟩
    by_contra hn
    rw [if_pos hn] at hok
    exact absurd (of_decide_eq_true hok) (by decide)
  | fputs text =>
    have htext : text.length ≤ 2 ^ 22 := hshort
    obtain ⟨n, s', hrun, hdone⟩ := putS_streaming hs hi h mem htext
    rw [WriteOp.run, Stdio.fputs, hrun, Option.map_some, Option.map_some]
    refine ⟨_, s', rfl, fun hok => hdone.resolve_left fun hneg => ?_⟩
    rw [if_pos hneg] at hok
    exact absurd (of_decide_eq_true hok) (by decide)
  | putC c =>
    have hone : [c].length ≤ 2 ^ 22 := hshort
    obtain ⟨n, s', hrun, hdone⟩ := putS_streaming hs hi h mem hone
    rw [WriteOp.run, Stdio.putC, hrun, Option.map_some]
    refine ⟨_, s', rfl, fun hok => hdone.resolve_left fun hneg => ?_⟩
    exact absurd (of_decide_eq_true hok) (by omega)

theorem runWrites_streaming (hs : Serves v o) (hi : v.node d (v.entry path) = .file i) :
    ∀ (ops : List ((Nat → Allocator) × WriteOp)) {w : List UInt8} {s : Stdio Disk},
      Streaming v d path i k old w s → (∀ op ∈ ops, op.2.source.length ≤ 2 ^ 22) →
      ∃ ok s', runWrites o k ops s = some (ok, s') ∧
        (ok = true → Streaming v d path i k old (w ++ ops.flatMap fun op => op.2.bytes) s') := by
  intro ops
  induction ops with
  | nil =>
    intro w s h _
    exact ⟨true, s, rfl, fun _ => by rwa [List.flatMap_nil, List.append_nil]⟩
  | cons op ops ih =>
    obtain ⟨mem, op⟩ := op
    intro w s h hshort
    obtain ⟨ok, s₁, hrun, hdone⟩ := writeOp_streaming hs hi h mem op (hshort _ List.mem_cons_self)
    rw [runWrites, hrun, Option.bind_some]
    cases ok with
    | false => exact ⟨false, s₁, rfl, nofun⟩
    | true =>
      obtain ⟨ok, s₂, hrest, hmore⟩ := ih (hdone rfl) fun x hx => hshort x (List.mem_cons_of_mem _ hx)
      refine ⟨ok, s₂, hrest, fun hok => ?_⟩
      rw [List.flatMap_cons, ← List.append_assoc]
      exact hmore hok

theorem fopen_streaming (hs : Serves v o) (hroot : s.files.rootFs = some d)
    (hslot : (∃ i, v.node d (v.entry path) = .file i) ∨ v.node d (v.entry path) = .absent)
    {more : List UInt8} (hopen : s.fopen o path (119 :: more) = (some k, s')) :
    ∃ i d', v.node d' (v.entry path) = .file i ∧
      Streaming v d' path i k (v.old d (v.entry path)) [] s' := by
  obtain ⟨r₁, s₁, d₁, hsys, hroot₁, -, -, hcase⟩ :=
    sysOpen_spec hs hroot (hslot.imp_right fun h => ⟨h, (by decide : 1 &&& 1 ≠ 0)⟩)
  have hmode : modeOf (119 :: more) = some (1, fileModeWrite) := rfl
  unfold Stdio.fopen at hopen
  rw [hmode] at hopen
  dsimp only at hopen
  rw [hsys] at hopen
  dsimp only at hopen
  by_cases hneg : r₁ < 0
  · rw [if_pos hneg] at hopen
    cases hopen
  rw [if_neg hneg] at hopen
  obtain ⟨fd, rfl, hlt, -, hfds, hpath, -, i, hi, hold⟩ := hcase.resolve_left fun h => hneg h.1
  have he : s₁.fds fd = pathFd path 1 := by rw [hfds, FdTable.set, if_pos rfl]
  split at hopen
  · cases hopen
  · rename_i k' hk
    cases hopen
    have hstream : (s.setStream k ⟨fd, false, false, fileModeWrite⟩).pool k =
        ⟨fd, false, false, fileModeWrite⟩ := if_pos rfl
    refine ⟨i, d₁, hi, ?_, ?_⟩
    · dsimp only
      rw [Int.toNat_natCast, hstream]
      exact opened_written hlt hroot₁ he hpath hold
    · dsimp only
      rw [Int.toNat_natCast, hstream]

end Streams

section Writing

open HouseOS.Elf (userVaddrSize)

variable {Disk E : Type} [DecidableEq E] {v : View Disk E} {o : TreeCalls Disk} {s : Stdio Disk}
  {d : Disk} {path : Path}

inductive Writing where
  | replace (m : Allocator) (text : List UInt8)
  | append (m : Allocator) (text : List UInt8)
  | stream (more : List UInt8) (ops : List ((Nat → Allocator) × WriteOp))

def Writing.run (o : TreeCalls Disk) (s : Stdio Disk) (path : Path) :
    Writing → Option (Bool × Stdio Disk)
  | .replace m text => (writeTextToFile o m s.files path text false).map fun (r, files) =>
      (decide (r = 0), { s with files := files })
  | .append m text => (writeTextToFile o m s.files path text true).map fun (r, files) =>
      (decide (r = 0), { s with files := files })
  | .stream more ops =>
      match s.fopen o path (119 :: more) with
      | (none, s) => some (false, s)
      | (some k, s) => (runWrites o k ops s).map fun (ok, s) => (ok, (s.fclose o k).2)

def Writing.sources : Writing → List (List UInt8)
  | .replace _ text => [text]
  | .append _ text => [text]
  | .stream _ ops => ops.map fun op => op.2.source

def Writing.wanted (old : List UInt8) : Writing → List UInt8
  | .replace _ text => text
  | .append _ text => old ++ text
  | .stream _ ops => ops.flatMap fun op => op.2.bytes

-- the file is never cut off, so a new text has to reach the end of the old one
def Writing.Reaches (old : List UInt8) : Writing → Prop
  | .append _ _ => True
  | w => old.length ≤ (w.wanted old).length

def Writing.left (old : List UInt8) : Writing → List UInt8
  | .append _ text => old ++ text
  | w => overlaid old (w.wanted old)

theorem left_eq_wanted_iff (w : Writing) (old : List UInt8) :
    w.left old = w.wanted old ↔ w.Reaches old := by
  cases w with
  | append m text => exact ⟨fun _ => trivial, fun _ => rfl⟩
  | replace m text => exact overlaid_eq_iff old text
  | stream more ops => exact overlaid_eq_iff old _

theorem writing_leaves (hs : Serves v o) (hroot : s.files.rootFs = some d)
    (hslot : (∃ i, v.node d (v.entry path) = .file i) ∨ v.node d (v.entry path) = .absent)
    (w : Writing) (hshort : ∀ text ∈ w.sources, text.length ≤ 2 ^ 22) :
    ∃ ok s', w.run o s path = some (ok, s') ∧ (ok = true → ∃ d', s'.files.rootFs = some d' ∧
      v.Holds d' (v.entry path) (w.left (v.old d (v.entry path)))) := by
  cases w with
  | replace m text =>
    obtain ⟨r, files', d', hwrite, hroot', hdone⟩ :=
      writeTextToFile_spec hs hroot hslot m (hshort text List.mem_cons_self) false
    rw [Writing.run, hwrite, Option.map_some]
    exact ⟨_, _, rfl, fun hok => ⟨d', hroot', hdone (of_decide_eq_true hok)⟩⟩
  | append m text =>
    obtain ⟨r, files', d', hwrite, hroot', hdone⟩ :=
      writeTextToFile_spec hs hroot hslot m (hshort text List.mem_cons_self) true
    rw [Writing.run, hwrite, Option.map_some]
    exact ⟨_, _, rfl, fun hok => ⟨d', hroot', hdone (of_decide_eq_true hok)⟩⟩
  | stream more ops =>
    rw [Writing.run]
    obtain ⟨given, s₁, hopen⟩ : ∃ given s₁, s.fopen o path (119 :: more) = (given, s₁) :=
      ⟨_, _, rfl⟩
    rw [hopen]
    cases given with
    | none => exact ⟨false, s₁, rfl, nofun⟩
    | some k =>
      obtain ⟨i, d₁, hi, hstream⟩ := fopen_streaming hs hroot hslot hopen
      obtain ⟨ok, s₂, hrun, hdone⟩ := runWrites_streaming hs hi ops hstream fun op hop =>
        hshort _ (List.mem_map_of_mem hop)
      dsimp only
      rw [hrun, Option.map_some]
      refine ⟨ok, _, rfl, fun hok => ?_⟩
      rw [List.nil_append] at hdone
      exact sysClose_written hi (hdone hok).written

private theorem oldText_short : ([2, 3] : List UInt8).length < 2 ^ 31 := by decide

private def longFile : Flat where
  node p := if p = [47, 102] then .file 0 else .absent
  data _ := ⟨[2, 3], oldText_short⟩

private def oneStdio : Stdio Flat where
  files := ⟨some longFile, fun _ => closedFd⟩
  pool := fun _ => ⟨0, false, false, 0⟩
  used := fun _ => false

end Writing

end HouseOS.Output
