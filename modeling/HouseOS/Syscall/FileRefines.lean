import HouseOS.Library.Run
import HouseOS.Mm.Free
import HouseOS.Syscall.FileIo

namespace HouseOS.Syscall

open HouseOS.ByteCursor
open HouseOS.Mm (alignSize le_alignSize)
open HouseOS.Vfs (Path NodeType)
open HouseOS.Word

variable {Disk : Type}

section Contract

-- what the file calls below are relied on for, at one regular file
structure Faithful (o : FileCalls Disk) (path : Path) (regular : Disk → Prop)
    (content : Disk → List UInt8) : Prop where
  info : ∀ d, regular d → o.vfsGetInfo d path = some ⟨.file, (content d).length⟩
  size : ∀ d, regular d → (content d).length < 2 ^ 32
  read : ∀ d n, regular d → regular (o.vfsRead d path n).2.2 ∧
    content (o.vfsRead d path n).2.2 = content d ∧ (o.vfsRead d path n).2.1.length ≤ n ∧
    (0 ≤ (o.vfsRead d path n).1 → (o.vfsRead d path n).2.1 = (content d).take n ∧
      (o.vfsRead d path n).1 = ((content d).take n).length ∧ (o.vfsRead d path n).1 < 2 ^ 31)
  write : ∀ d bytes, regular d → bytes.length < 2 ^ 32 → regular (o.vfsWrite d path bytes).2 ∧
    ((o.vfsWrite d path bytes).1 < 0 ∧ content (o.vfsWrite d path bytes).2 = content d ∨
      (o.vfsWrite d path bytes).1 = bytes.length ∧ (o.vfsWrite d path bytes).1 < 2 ^ 31 ∧
        content (o.vfsWrite d path bytes).2 = bytes)

def appends (e : FdEntry) : Bool := decide (e.openFlags &&& oAppend ≠ 0)

def seekBase (c : Cursor UInt8) (whence : Int) : Option Int :=
  if whence = seekSet then some 0
  else if whence = seekCur then some c.pos
  else if whence = seekEnd then some c.bytes.length
  else none

def Failed (c : Cursor UInt8) (a : Answer) (c' : Cursor UInt8) : Prop :=
  a.eax < 0 ∧ a.out = [] ∧ c' = c

def MeetsSeek (c : Cursor UInt8) (off whence : Int) (a : Answer) (c' : Cursor UInt8) : Prop :=
  match seekBase c whence with
  | none => Failed c a c'
  | some base =>
      if 0 ≤ base + off ∧ base + off < 2 ^ 31 then
        a = ⟨base + off, []⟩ ∧ c' = { c with pos := (base + off).toNat }
      else Failed c a c'

-- an array of bytes with a cursor; a call with nothing to move answers 0
def Meets (append : Bool) (c : Cursor UInt8) (k : IoCall) (a : Answer) (c' : Cursor UInt8) : Prop :=
  match k with
  | .read ecx edx => Failed c a c' ∨
      a.out = (if ecx = 0 then [] else c.next edx) ∧ a.eax = a.out.length ∧
        c' = c.advance a.out.length
  | .write ecx data => Failed c a c' ∨
      if ecx = 0 ∨ data = [] then a = ⟨0, []⟩ ∧ c' = c
      else a = ⟨data.length, []⟩ ∧
        c' = c.write 0 (if append then c.bytes.length else c.pos) data
  | .lseek ecx edx => MeetsSeek c (toInt32 ecx) (toInt32 edx) a c'

def ReadFits (kmalloc : Nat → Option (List UInt8)) (off size : Nat) : Prop :=
  size ≤ off ∨ kmalloc size = none ∨ size ≤ 2 ^ 32 - 8

def WriteFits (kmalloc : Nat → Option (List UInt8)) (off n size : Nat) (unreadable : Prop) : Prop :=
  kmalloc (max 1 (max ((off + n) % 2 ^ 32) size)) = none ∨
    max ((off + n) % 2 ^ 32) size ≤ 2 ^ 32 - 8 ∧ (off + n < 2 ^ 32 ∨ 0 < size ∧ unreadable)

def Fits (o : FileCalls Disk) (content : Disk → List UInt8) (fd : Nat) (s : Files Disk)
    (e : IoStep) : Prop :=
  ∀ d, s.rootFs = some d →
    match e.call with
    | .read ecx edx =>
        ecx = 0 ∨ edx = 0 ∨ ReadFits e.alloc.kmalloc (s.fds fd).offset (content d).length
    | .write ecx data =>
        ecx = 0 ∨ data = [] ∨ WriteFits e.alloc.kmalloc
          (if appends (s.fds fd) then (content d).length else (s.fds fd).offset) data.length
          (content d).length ((o.vfsRead d (s.fds fd).path (content d).length).1 < 0)
    | .lseek ecx edx => toInt32 edx = seekEnd → (content d).length + toInt32 ecx < 2 ^ 32

structure Opened (path : Path) (regular : Disk → Prop) (content : Disk → List UInt8) (fd : Nat)
    (append : Bool) (s : Files Disk) (c : Cursor UInt8) : Prop where
  disk : ∃ d, s.rootFs = some d ∧ regular d ∧ c.bytes = content d
  path : s.fds.fdPath fd = some path
  pos : c.pos = (s.fds fd).offset
  append : appends (s.fds fd) = append
  low : (s.fds fd).offset < 2 ^ 31

end Contract

section Steps

variable {o : FileCalls Disk} {path : Path} {regular : Disk → Prop}
  {content : Disk → List UInt8} {fd : Nat} {append : Bool} {s : Files Disk} {c : Cursor UInt8}
  {d : Disk}

theorem fdPath_path (h : s.fds.fdPath fd = some path) : (s.fds fd).path = path := by
  rw [FdTable.fdPath] at h
  split at h
  · cases h
  · exact Option.some.inj h

theorem Opened.putDisk (h : Opened path regular content fd append s c) (hr : regular d)
    (hc : content d = c.bytes) : Opened path regular content fd append (s.putDisk d) c :=
  ⟨⟨d, rfl, hr, hc.symm⟩, h.path, h.pos, h.append, h.low⟩

theorem Opened.setOffset (h : Opened path regular content fd append s c) {off : Nat}
    (hoff : off < 2 ^ 31) :
    Opened path regular content fd append (s.setOffset fd off) { c with pos := off } := by
  have hentry : (s.setOffset fd off).fds fd = { s.fds fd with offset := off } := if_pos rfl
  refine ⟨h.disk, ?_, ?_, ?_, ?_⟩
  · rw [← h.path]
    simp only [FdTable.fdPath, hentry]
  · rw [hentry]
  · rw [hentry]
    exact h.append
  · rw [hentry]
    exact hoff

theorem readFile_meets (hf : Faithful o path regular content)
    (h : Opened path regular content fd append s c) (hr : regular d) (hc : c.bytes = content d)
    (m : Allocator) {ecx : Nat} (hecx : ecx ≠ 0) (edx : Nat)
    (hfit : ReadFits m.kmalloc (s.fds fd).offset (content d).length) :
    ∃ a s' c', s.readFile o m.kmalloc d fd path (content d).length edx = some (a, s') ∧
      Meets append c (.read ecx edx) a c' ∧ Opened path regular content fd append s' c' := by
  obtain ⟨hr', hcont, hlen, hok⟩ := hf.read d (content d).length hr
  unfold Files.readFile
  by_cases hoff : (content d).length ≤ (s.fds fd).offset
  · refine ⟨⟨0, []⟩, s, c, if_pos hoff, Or.inr ⟨?_, rfl, rfl⟩, h⟩
    rw [if_neg hecx, Cursor.next, List.drop_eq_nil_of_le (by rw [hc, h.pos]; exact hoff),
      List.take_nil]
  have hpos : (content d).length ≠ 0 := by omega
  rw [if_neg hoff, if_neg hpos]
  cases hm : m.kmalloc (content d).length with
  | none => exact ⟨_, s, c, rfl, Or.inl ⟨by decide, rfl, rfl⟩, h⟩
  | some tmp =>
    have hsize : (content d).length ≤ 2 ^ 32 - 8 := by
      rcases hfit with hfit | hfit | hfit
      · exact absurd hfit hoff
      · rw [hm] at hfit
        cases hfit
      · exact hfit
    have hroom := (le_alignSize hsize).trans (m.room _ _ hm)
    obtain ⟨filled, hput⟩ : ∃ filled,
        put tmp 0 (o.vfsRead d path (content d).length).2.1 = some filled := ⟨_, put_eq (by omega)⟩
    dsimp only
    rw [hput, Option.bind_some]
    by_cases hn : (o.vfsRead d path (content d).length).1 < 0
    · exact ⟨_, _, c, if_pos hn, Or.inl ⟨by decide, rfl, rfl⟩, h.putDisk hr' (hcont.trans hc.symm)⟩
    obtain ⟨hbytes, hcount, hsmall⟩ := hok (by omega)
    rw [List.take_length] at hbytes hcount
    rw [if_neg hn]
    rw [hbytes] at hput
    have hcopy : (if edx < (content d).length - (s.fds fd).offset then edx
        else (content d).length - (s.fds fd).offset) =
        min edx ((content d).length - (s.fds fd).offset) := by
      split <;> omega
    rw [hcopy, get_put hput (by omega), Option.map_some]
    have hnext : ((content d).drop (s.fds fd).offset).take
        (min edx ((content d).length - (s.fds fd).offset)) = c.next edx := by
      rw [Cursor.next, hc, h.pos, ← List.length_drop, ← List.take_eq_take_min]
    have hlength : (c.next edx).length = min edx ((content d).length - (s.fds fd).offset) := by
      rw [Cursor.next, hc, h.pos, List.length_take, List.length_drop]
    rw [hnext, ← hlength]
    refine ⟨_, _, c.advance (c.next edx).length, rfl, Or.inr ⟨(if_neg hecx).symm, rfl, rfl⟩, ?_⟩
    have hmoved := (h.putDisk hr' (hcont.trans hc.symm)).setOffset
      (show (s.fds fd).offset + (c.next edx).length < 2 ^ 31 by omega)
    rw [← h.pos] at hmoved ⊢
    exact hmoved

theorem loadOld_spec (hf : Faithful o path regular content) (hr : regular d) {buf : List UInt8}
    (hbuf : (content d).length ≤ buf.length) :
    ∃ n loaded d', Files.loadOld o d path (content d).length buf = some (n, loaded, d') ∧ regular d' ∧
      content d' = content d ∧ (0 ≤ n → put buf 0 (content d) = some loaded) ∧
      (0 < (content d).length ∧ (o.vfsRead d path (content d).length).1 < 0 → n < 0) := by
  unfold Files.loadOld
  by_cases hpos : 0 < (content d).length
  · obtain ⟨hr', hcont, hlen, hok⟩ := hf.read d (content d).length hr
    obtain ⟨loaded, hput⟩ : ∃ loaded,
        put buf 0 (o.vfsRead d path (content d).length).2.1 = some loaded := ⟨_, put_eq (by omega)⟩
    refine ⟨_, loaded, _, ?_, hr', hcont, ?_, fun h => h.2⟩
    · rw [if_pos hpos]
      dsimp only
      rw [hput, Option.map_some]
    · intro hn
      have hbytes := (hok hn).1
      rw [List.take_length] at hbytes
      rw [← hbytes]
      exact hput
  · have hnil : content d = [] := List.eq_nil_of_length_eq_zero (by omega)
    refine ⟨0, buf, d, if_neg hpos, hr, rfl, fun _ => ?_, fun h => absurd h.1 hpos⟩
    rw [hnil]
    exact put_nil buf

theorem writeFile_meets (hf : Faithful o path regular content)
    (h : Opened path regular content fd append s c) (hr : regular d) (hc : c.bytes = content d)
    (m : Allocator) {ecx : Nat} (hecx : ecx ≠ 0) {data : List UInt8} (hdata : data ≠ [])
    (hfit : WriteFits m.kmalloc
      (if appends (s.fds fd) then (content d).length else (s.fds fd).offset) data.length
      (content d).length ((o.vfsRead d path (content d).length).1 < 0)) :
    ∃ a s' c', s.writeFile o m.kmalloc d fd path (content d).length data = some (a, s') ∧
      Meets append c (.write ecx data) a c' ∧ Opened path regular content fd append s' c' := by
  have hoff : (if (s.fds fd).openFlags &&& oAppend ≠ 0 then (content d).length
      else (s.fds fd).offset) =
      if appends (s.fds fd) then (content d).length else (s.fds fd).offset := by
    simp only [appends, decide_eq_true_eq]
  unfold Files.writeFile
  rw [hoff]
  obtain ⟨off, hoffset⟩ : ∃ off, off =
    if appends (s.fds fd) then (content d).length else (s.fds fd).offset := ⟨_, rfl⟩
  obtain ⟨dst, hdst⟩ : ∃ dst, dst = max ((off + data.length) % 2 ^ 32) (content d).length := ⟨_, rfl⟩
  rw [← hoffset] at hfit ⊢
  have hsum : (if (content d).length < add32 off data.length then add32 off data.length
      else (content d).length) = dst := by
    rw [hdst, add32]
    split <;> omega
  have hask : (if dst = 0 then 1 else dst) = max 1 dst := by
    split <;> omega
  rw [WriteFits, ← hdst] at hfit
  dsimp only
  rw [hsum, hask]
  cases hm : m.kmalloc (max 1 dst) with
  | none => exact ⟨_, s, c, rfl, Or.inl ⟨by decide, rfl, rfl⟩, h⟩
  | some buf =>
    rw [hm] at hfit
    obtain ⟨hsmall, hwrap⟩ := hfit.resolve_left (by simp)
    have hroom := (le_alignSize (by omega)).trans (m.room _ _ hm)
    obtain ⟨filled, hfilled⟩ : ∃ filled, put buf 0 (List.replicate dst 0) = some filled :=
      ⟨_, put_eq (by rw [List.length_replicate]; omega)⟩
    have hlen := put_length hfilled
    obtain ⟨n, loaded, d', hload, hr', hcont, hloaded, hbad⟩ :=
      loadOld_spec hf hr (show (content d).length ≤ filled.length by omega)
    dsimp only
    rw [hfilled, Option.bind_some, hload, Option.bind_some]
    dsimp only
    by_cases hn : n < 0
    · exact ⟨_, _, c, if_pos hn, Or.inl ⟨by decide, rfl, rfl⟩, h.putDisk hr' (hcont.trans hc.symm)⟩
    rw [if_neg hn]
    have hlt : off + data.length < 2 ^ 32 := hwrap.resolve_right (fun hu => hn (hbad hu))
    have hmod : (off + data.length) % 2 ^ 32 = off + data.length := Nat.mod_eq_of_lt hlt
    have hlen' := put_length (hloaded (by omega))
    obtain ⟨stored, hstored⟩ : ∃ stored, put loaded off data = some stored :=
      ⟨_, put_eq (by omega)⟩
    have htext := overwrite_of_put 0 (content d) off data
      (hdst.trans (by rw [hmod, Nat.max_comm])) hfilled (hloaded (by omega)) hstored
    have hshort : (overwrite 0 (content d) off data).length < 2 ^ 32 := by
      have hsize := hf.size d hr
      rw [overwrite_length]
      omega
    obtain ⟨hr'', hcase⟩ := hf.write d' (overwrite 0 (content d) off data) hr' hshort
    rw [hstored, Option.bind_some, htext, Option.map_some]
    rcases hcase with ⟨hneg, hsame⟩ | ⟨hcount, hfits, hnew⟩
    · refine ⟨_, _, c, congrArg some (if_pos hneg), Or.inl ⟨by decide, rfl, rfl⟩, ?_⟩
      exact h.putDisk hr'' ((hsame.trans hcont).trans hc.symm)
    have hend : off + data.length < 2 ^ 31 := by
      rw [hcount, overwrite_length] at hfits
      omega
    have hdone : ¬ (o.vfsWrite d' path (overwrite 0 (content d) off data)).1 < 0 := by omega
    refine ⟨_, _, ⟨overwrite 0 (content d) off data, off + data.length⟩,
      congrArg some (if_neg hdone), Or.inr ?_, ?_⟩
    · rw [if_neg (by simp [hecx, hdata])]
      refine ⟨rfl, ?_⟩
      rw [Cursor.write, hoffset, hc, h.pos, h.append]
    · rw [add32, hmod]
      have hwritten : Opened path regular content fd append
          (s.putDisk (o.vfsWrite d' path (overwrite 0 (content d) off data)).2)
          { c with bytes := overwrite 0 (content d) off data } :=
        ⟨⟨_, rfl, hr'', hnew.symm⟩, h.path, h.pos, h.append, h.low⟩
      exact hwritten.setOffset hend

theorem sysRead_meets (hf : Faithful o path regular content)
    (h : Opened path regular content fd append s c) (m : Allocator) (ecx edx : Nat)
    (hfit : Fits o content fd s ⟨m, .read ecx edx⟩) :
    ∃ a s' c', s.sysRead o m.kmalloc fd ecx edx = some (a, s') ∧
      Meets append c (.read ecx edx) a c' ∧ Opened path regular content fd append s' c' := by
  obtain ⟨d, hd, hr, hc⟩ := h.disk
  simp only [Files.sysRead, hd]
  by_cases hnone : ecx = 0 ∨ edx = 0
  · refine ⟨⟨0, []⟩, s, c, if_pos hnone, Or.inr ⟨?_, rfl, rfl⟩, h⟩
    rcases hnone with hecx | hedx
    · rw [if_pos hecx]
    · rw [hedx, Cursor.next, List.take_zero, ite_self]
  rw [if_neg hnone]
  simp only [h.path, hf.info d hr]
  obtain ⟨hecx, hedx⟩ := not_or.mp hnone
  exact readFile_meets hf h hr hc m hecx edx (((hfit d hd).resolve_left hecx).resolve_left hedx)

theorem sysWrite_meets (hf : Faithful o path regular content)
    (h : Opened path regular content fd append s c) (m : Allocator) (ecx : Nat) (data : List UInt8)
    (hfit : Fits o content fd s ⟨m, .write ecx data⟩) :
    ∃ a s' c', s.sysWrite o m.kmalloc fd ecx data = some (a, s') ∧
      Meets append c (.write ecx data) a c' ∧ Opened path regular content fd append s' c' := by
  obtain ⟨d, hd, hr, hc⟩ := h.disk
  simp only [Files.sysWrite, hd, List.length_eq_zero_iff]
  by_cases hnone : ecx = 0 ∨ data = []
  · refine ⟨⟨0, []⟩, s, c, if_pos hnone, Or.inr ?_, h⟩
    rw [if_pos hnone]
    exact ⟨rfl, rfl⟩
  rw [if_neg hnone]
  simp only [h.path, hf.info d hr]
  obtain ⟨hecx, hdata⟩ := not_or.mp hnone
  have hroom := ((hfit d hd).resolve_left hecx).resolve_left hdata
  rw [fdPath_path h.path] at hroom
  exact writeFile_meets hf h hr hc m hecx hdata hroom

theorem seekTarget_spec (whence : Int) {off : Int} {size : Nat} (hoff : -2 ^ 31 ≤ off ∧ off < 2 ^ 31)
    (hc : c.bytes.length = size) (hsize : size < 2 ^ 32) (hlow : c.pos < 2 ^ 31)
    (hend : whence = seekEnd → size + off < 2 ^ 32) :
    (seekBase c whence = none → Files.seekTarget c.pos size off whence = none) ∧
      ∀ base, seekBase c whence = some base →
        ∃ np, Files.seekTarget c.pos size off whence = some np ∧
          (0 ≤ base + off ∧ base + off < 2 ^ 31 ∧ np = base + off ∨
            ¬ (0 ≤ base + off ∧ base + off < 2 ^ 31) ∧ np < 0) := by
  unfold seekBase Files.seekTarget
  by_cases hset : whence = seekSet
  · rw [if_pos hset, if_pos hset]
    refine ⟨nofun, ?_⟩
    rintro _ ⟨⟩
    exact ⟨off, rfl, by omega⟩
  by_cases hcur : whence = seekCur
  · rw [if_neg hset, if_neg hset, if_pos hcur, if_pos hcur]
    refine ⟨nofun, ?_⟩
    rintro _ ⟨⟩
    refine ⟨_, rfl, ?_⟩
    have hpos : toInt32 c.pos = c.pos := by
      rw [toInt32_eq]
      omega
    rw [hpos, toInt32_eq]
    omega
  by_cases hwhence : whence = seekEnd
  · rw [if_neg hset, if_neg hset, if_neg hcur, if_neg hcur, if_pos hwhence, if_pos hwhence, hc]
    refine ⟨nofun, ?_⟩
    rintro _ ⟨⟩
    refine ⟨_, rfl, ?_⟩
    have hsum := hend hwhence
    have hsigned : toInt32 size = size ∧ (size : Int) < 2 ^ 31 ∨
        toInt32 size = size - 2 ^ 32 ∧ 2 ^ 31 ≤ (size : Int) := by
      rw [toInt32_eq]
      omega
    rw [toInt32_eq]
    omega
  · rw [if_neg hset, if_neg hset, if_neg hcur, if_neg hcur, if_neg hwhence, if_neg hwhence]
    exact ⟨fun _ => rfl, nofun⟩

theorem seekTo_meets (h : Opened path regular content fd append s c) (hr : regular d)
    (hf : Faithful o path regular content) (hc : c.bytes = content d) {off whence : Int}
    (hoff : -2 ^ 31 ≤ off ∧ off < 2 ^ 31)
    (hend : whence = seekEnd → (content d).length + off < 2 ^ 32) :
    ∃ a s' c', s.seekTo fd (content d).length off whence = (a, s') ∧
      MeetsSeek c off whence a c' ∧ Opened path regular content fd append s' c' := by
  have htarget := seekTarget_spec whence hoff (congrArg List.length hc) (hf.size d hr)
    (h.pos ▸ h.low) hend
  rw [h.pos] at htarget
  unfold Files.seekTo MeetsSeek
  cases hbase : seekBase c whence with
  | none =>
    rw [htarget.1 hbase]
    exact ⟨_, s, c, rfl, ⟨by decide, rfl, rfl⟩, h⟩
  | some base =>
    obtain ⟨np, hnp, hcase⟩ := htarget.2 base hbase
    rw [hnp]
    dsimp only
    rcases hcase with ⟨hlo, hhi, rfl⟩ | ⟨hout, hneg⟩
    · have hnot : ¬ base + off < 0 := by omega
      rw [if_neg hnot]
      refine ⟨_, _, _, rfl, ?_, h.setOffset (by omega)⟩
      rw [if_pos ⟨hlo, hhi⟩]
      exact ⟨rfl, rfl⟩
    · rw [if_pos hneg]
      refine ⟨_, s, c, rfl, ?_, h⟩
      rw [if_neg hout]
      exact ⟨by decide, rfl, rfl⟩

theorem sysLseek_meets (hf : Faithful o path regular content)
    (h : Opened path regular content fd append s c) (m : Allocator) (ecx edx : Nat)
    (hfit : Fits o content fd s ⟨m, .lseek ecx edx⟩) :
    ∃ a s' c', some (s.sysLseek o fd ecx edx) = some (a, s') ∧
      Meets append c (.lseek ecx edx) a c' ∧ Opened path regular content fd append s' c' := by
  obtain ⟨d, hd, hr, hc⟩ := h.disk
  have hrange : -2 ^ 31 ≤ toInt32 ecx ∧ toInt32 ecx < 2 ^ 31 := by
    rw [toInt32_eq]
    omega
  obtain ⟨a, s', c', hseek, hmeets, hopen⟩ := seekTo_meets h hr hf hc hrange (hfit d hd)
  have hlseek : Meets append c (.lseek ecx edx) a c' := by
    unfold Meets
    dsimp only
    exact hmeets
  refine ⟨a, s', c', congrArg some ?_, hlseek, hopen⟩
  unfold Files.sysLseek
  rw [h.path]
  dsimp only
  rw [hd, Option.bind_some, hf.info d hr]
  exact (if_neg (not_not.mpr rfl)).trans hseek

theorem ioStep_meets (hf : Faithful o path regular content) (e : IoStep)
    (h : Opened path regular content fd append s c) (hfit : Fits o content fd s e) :
    ∃ a s' c', ioStep o fd s e = some (a, s') ∧ Meets append c e.call a c' ∧
      Opened path regular content fd append s' c' := by
  obtain ⟨m, call⟩ := e
  cases call with
  | read ecx edx => exact sysRead_meets hf h m ecx edx hfit
  | write ecx data => exact sysWrite_meets hf h m ecx data hfit
  | lseek ecx edx => exact sysLseek_meets hf h m ecx edx hfit

theorem opened_first {flags : Nat} (hfd : fd < fdMax) (hd : s.rootFs = some d) (hr : regular d)
    (he : s.fds fd = pathFd path flags) :
    Opened (pathFd path flags).path regular content fd (appends (pathFd path flags)) s
      ⟨content d, 0⟩ := by
  refine ⟨⟨d, hd, hr, rfl⟩, ?_, by rw [he]; rfl, by rw [he], ?_⟩
  · rw [FdTable.fdPath, he, if_neg]
    simp [pathFd, hfd]
  · rw [he]
    simp [pathFd]

theorem file_io_refines {flags : Nat} (hf : Faithful o (pathFd path flags).path regular content)
    (hfd : fd < fdMax) (hd : s.rootFs = some d) (hr : regular d)
    (he : s.fds fd = pathFd path flags) (es : List IoStep)
    (hfit : Run.Along (fun s e => (ioStep o fd s e).map Prod.snd) (Fits o content fd) s es) :
    ∃ rs s' c', Run.answers (ioStep o fd) s es = some (rs, s') ∧
      Run.Traces (fun c e => Meets (appends (pathFd path flags)) c e.call) ⟨content d, 0⟩ es rs c' ∧
      Opened (pathFd path flags).path regular content fd (appends (pathFd path flags)) s' c' :=
  Run.traces_of_step (fun _ _ e h hok => ioStep_meets hf e h hok) es s ⟨content d, 0⟩
    (opened_first hfd hd hr he) hfit

end Steps

section KernelHeap

open HouseOS.Mm

def giveBlock (h : Heap) (n : Nat) : Option (List UInt8) :=
  match h.kmalloc n with
  | none => none
  | some (p, h') =>
      if p = 0 then none
      else some ((List.range (h'.size (Heap.getBlockFromPayload p))).map (fun i => h'.mem (p + i)))

def heapAllocator {h : Heap} {bs : List Block} (R : Rep h bs) : Allocator where
  kmalloc := giveBlock h
  room := by
    intro n block hgive
    obtain ⟨p, h', hcall, hcase⟩ := kmalloc_spec R n
    simp only [giveBlock, hcall] at hgive
    split at hgive
    · cases hgive
    rename_i hp
    obtain ⟨bs', b, rfl, htakes, R', _⟩ := hcase.resolve_left (fun h0 => hp h0.1)
    have hb : b ∈ bs' :=
      (mem_allocated.mp (htakes.perm.mem_iff.mpr (List.mem_cons_self ..))).1
    obtain rfl := Option.some.inj hgive
    rw [List.length_map, List.length_range, getBlockFromPayload_eq R' hb, (R'.shape.header b hb).size]
    exact htakes.fits

end KernelHeap

section OneFile

private def oneFile : FileCalls (List UInt8) where
  vfsGetInfo d _ := some ⟨.file, d.length⟩
  vfsRead d _ n := ((d.take n).length, d.take n, d)
  vfsWrite d _ bytes := if bytes.length < 2 ^ 31 then ((bytes.length : Int), bytes) else (-1, d)

private theorem oneFile_faithful (path : Path) :
    Faithful oneFile path (fun d => d.length < 2 ^ 31) (fun d => d) where
  info _ _ := rfl
  size d hd := by omega
  read d n hd := by
    refine ⟨hd, rfl, ?_, fun _ => ⟨rfl, rfl, ?_⟩⟩
    · show (d.take n).length ≤ n
      rw [List.length_take]
      omega
    · show ((d.take n).length : Int) < 2 ^ 31
      rw [List.length_take]
      omega
  write d bytes hd _ := by
    by_cases hfits : bytes.length < 2 ^ 31
    · have hw : oneFile.vfsWrite d path bytes = ((bytes.length : Int), bytes) :=
        if_pos hfits
      rw [hw]
      exact ⟨hfits, Or.inr ⟨rfl, by dsimp only; omega, rfl⟩⟩
    · have hw : oneFile.vfsWrite d path bytes = (-1, d) := if_neg hfits
      rw [hw]
      exact ⟨hd, Or.inl ⟨Int.negSucc_lt_zero 0, rfl⟩⟩

private def smallHeap : Allocator where
  kmalloc n := if n ≤ 64 then some (List.replicate (alignSize n) 0xAA) else none
  room n block h := by
    split at h
    · obtain rfl := Option.some.inj h
      rw [List.length_replicate]
    · cases h

private def filePath : Path := [47, 102]

private def openFile (flags : Nat) : Files (List UInt8) :=
  { rootFs := some [7], fds := fun i => if i = 3 then pathFd filePath flags else closedFd }

private def sparseCalls : List IoStep :=
  [⟨smallHeap, .write 1 [1, 2]⟩, ⟨smallHeap, .lseek 4 0⟩, ⟨smallHeap, .write 1 [9]⟩]

attribute [local semireducible] toInt32

private theorem sparseCalls_fit :
    Run.Along (fun s e => (ioStep oneFile 3 s e).map Prod.snd) (Fits oneFile (fun d => d) 3)
      (openFile 0) sparseCalls := by
  refine ⟨?_, ?_⟩
  · rintro _ ⟨⟩
    exact Or.inr (Or.inr (Or.inr ⟨by decide, Or.inl (by decide)⟩))
  rintro _ ⟨⟩
  refine ⟨?_, ?_⟩
  · rintro _ ⟨⟩
    exact nofun
  rintro _ ⟨⟩
  refine ⟨?_, fun _ _ => trivial⟩
  rintro _ ⟨⟩
  exact Or.inr (Or.inr (Or.inr ⟨by decide, Or.inl (by decide)⟩))

theorem file_io_refines_sparse :
    ∃ rs s' c', Run.answers (ioStep oneFile 3) (openFile 0) sparseCalls = some (rs, s') ∧
      Run.Traces (fun c e => Meets (appends (pathFd filePath 0)) c e.call) ⟨[7], 0⟩ sparseCalls rs c' ∧
      Opened (pathFd filePath 0).path (fun d => d.length < 2 ^ 31) (fun d => d) 3
        (appends (pathFd filePath 0)) s' c' :=
  file_io_refines (oneFile_faithful _) (by decide) rfl (by decide) rfl sparseCalls sparseCalls_fit

-- 1 + 0xFFFFFFFF is 0 in 32 bits: the buffer is allocated for the one old byte
private theorem append_wraps {data : List UInt8} (hdata : data.length = 2 ^ 32 - 1) :
    ioStep oneFile 3 (openFile oAppend) ⟨smallHeap, .write 1 data⟩ = none := by
  have hsum : add32 1 data.length = 0 := by
    rw [hdata]
    rfl
  have hput : put [7, 0xAA, 0xAA, 0xAA, 0xAA, 0xAA, 0xAA, 0xAA] 1 data = none :=
    put_none (by rw [hdata]; decide)
  have hcall : ioStep oneFile 3 (openFile oAppend) ⟨smallHeap, .write 1 data⟩ =
      (openFile oAppend).writeFile oneFile smallHeap.kmalloc [7] 3 filePath 1 data := by
    have hlen : ¬ (1 = 0 ∨ data.length = 0) := by omega
    exact if_neg hlen
  have hoff : (openFile oAppend).writeFile oneFile smallHeap.kmalloc [7] 3 filePath 1 data =
      (put [7, 0xAA, 0xAA, 0xAA, 0xAA, 0xAA, 0xAA, 0xAA] 1 data).bind fun buf =>
        (get buf 0 1).map fun text =>
          let (r, d) := oneFile.vfsWrite [7] filePath text
          if r < 0 then (fail eio, (openFile oAppend).putDisk d)
          else (⟨data.length, []⟩, ((openFile oAppend).putDisk d).setOffset 3 0) := by
    have hend : (if ((openFile oAppend).fds 3).openFlags &&& oAppend ≠ 0 then 1
        else ((openFile oAppend).fds 3).offset) = 1 := rfl
    unfold Files.writeFile
    rw [hend]
    dsimp only
    rw [hsum]
    rfl
  rw [hcall, hoff, hput, Option.bind_none]

theorem append_overruns_buffer :
    (openFile oAppend).rootFs = some [7] ∧ (openFile oAppend).fds 3 = pathFd filePath oAppend ∧
    ¬ ∀ es, ∃ rs s' c', Run.answers (ioStep oneFile 3) (openFile oAppend) es = some (rs, s') ∧
      Run.Traces (fun c e => Meets (appends (pathFd filePath oAppend)) c e.call) ⟨[7], 0⟩ es rs c' ∧
      Opened (pathFd filePath oAppend).path (fun d => d.length < 2 ^ 31) (fun d => d) 3
        (appends (pathFd filePath oAppend)) s' c' := by
  refine ⟨rfl, rfl, fun hall => ?_⟩
  have hlen : (List.replicate (2 ^ 32 - 1) (0 : UInt8)).length = 2 ^ 32 - 1 := List.length_replicate
  obtain ⟨rs, s', c', hrun, _⟩ :=
    hall [⟨smallHeap, .write 1 (List.replicate (2 ^ 32 - 1) 0)⟩]
  rw [Run.answers, append_wraps hlen, Option.bind_none] at hrun
  cases hrun

end OneFile

end HouseOS.Syscall
