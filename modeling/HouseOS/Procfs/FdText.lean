import HouseOS.Kstring.Model
import HouseOS.Procfs.Paths
import HouseOS.Procfs.Sizes

namespace HouseOS.Procfs

open HouseOS.ByteMem
open HouseOS.Kstring (strlen strncpy strlen_eq strncpy_ne strncpy_cstring)
open HouseOS.Sched (maxTasks)
open HouseOS.Syscall (fdMax fdPathCap pathFd)
open HouseOS.Vfs (Path slash)

-- where `path[256]` of `proc_read_pid_fd` and the buffer of its caller stand
structure FdFrame where
  path : Nat
  buf : Nat
  size : Nat
  path_ne : path ≠ 0
  buf_ne : buf ≠ 0
  apart : buf + size ≤ path ∨ path + fdPathSize ≤ buf

namespace OnStack

variable (k : ProcState)

def syscallTaskFdPath (m : Mem) (pid fd out cap : Nat) : Option Mem :=
  if out = 0 ∨ cap < 2 then none
  else
    match k.taskFindByPid pid with
    | none => none
    | some slot =>
        if maxTasks ≤ slot then none
        else if fdMax ≤ fd then none
        else if k.taskFdInit slot = false ∨ (k.taskFds slot fd).used = false then none
        else
          match (k.taskFds slot fd).kind with
          | .vfs =>
              if (k.taskFds slot fd).path = [] then none
              else
                some (store8 (strncpy m out (k.taskFds slot fd).path (cap - 1)) (out + (cap - 1)) 0)
          | .udp => some (store8 (strncpy m out (byteText "udp:") (cap - 1)) (out + (cap - 1)) 0)

def procReadPidFd (m : Mem) (f : FdFrame) (pid fd : Nat) : Option (Int × Mem) :=
  if f.buf = 0 then some (-1, m)
  else
    match syscallTaskFdPath k m pid fd f.path fdPathSize with
    | none => some (-1, m)
    | some m =>
        (strlen m fdPathSize f.path).map fun len =>
          let (len, m) :=
            if len + 1 ≤ fdPathSize then
              (len + 1, store8 (store8 m (f.path + len) 10) (f.path + (len + 1)) 0)
            else (len, m)
          let len := if f.size < len then f.size else len
          (len, copy m f.buf f.path len)

end OnStack

namespace ProcState

variable (k : ProcState)

def storedPath (pid fd : Nat) : Option Path :=
  (k.taskFindByPid pid).bind fun slot =>
    if slot < maxTasks ∧ fd < fdMax ∧ k.taskFdInit slot = true ∧ (k.taskFds slot fd).used = true then
      match (k.taskFds slot fd).kind with
      | .vfs => if (k.taskFds slot fd).path = [] then none else some (k.taskFds slot fd).path
      | .udp => some (byteText "udp:")
    else none

def fdAnswer (pid fd size : Nat) : Int × List UInt8 :=
  match k.storedPath pid fd with
  | none => (-1, [])
  | some text => handOut (text ++ byteText "\n") size

def PathsStored : Prop :=
  ∀ slot < maxTasks, ∀ fd < fdMax,
    0 ∉ (k.taskFds slot fd).path ∧ (k.taskFds slot fd).path.length < fdPathCap

end ProcState

section

variable {k : ProcState} {m : Mem} {pid fd out cap : Nat}

theorem storedPath_map {β : Type} (f : Path → β) : (match k.taskFindByPid pid with
    | none => none
    | some slot =>
        if maxTasks ≤ slot then none
        else if fdMax ≤ fd then none
        else if k.taskFdInit slot = false ∨ (k.taskFds slot fd).used = false then none
        else
          match (k.taskFds slot fd).kind with
          | .vfs =>
              if (k.taskFds slot fd).path = [] then none else some (f (k.taskFds slot fd).path)
          | .udp => some (f (byteText "udp:"))) = (k.storedPath pid fd).map f := by
  rw [ProcState.storedPath]
  cases k.taskFindByPid pid with
  | none => rfl
  | some slot =>
    simp only [Option.bind_some]
    by_cases hopen : slot < maxTasks ∧ fd < fdMax ∧ k.taskFdInit slot = true ∧
        (k.taskFds slot fd).used = true
    · have hready : ¬(k.taskFdInit slot = false ∨ (k.taskFds slot fd).used = false) := by
        simp [hopen.2.2]
      rw [if_neg (Nat.not_le.mpr hopen.1), if_neg (Nat.not_le.mpr hopen.2.1), if_neg hready,
        if_pos hopen]
      cases (k.taskFds slot fd).kind with
      | vfs =>
        dsimp only
        split <;> rfl
      | udp => rfl
    · rw [if_neg hopen, Option.map_none]
      split
      · rfl
      · rename_i hslot
        split
        · rfl
        · rename_i hfd
          split
          · rfl
          · rename_i hready
            refine absurd ⟨Nat.not_le.mp hslot, Nat.not_le.mp hfd, ?_⟩ hopen
            simpa using hready

theorem taskFdPath_stored (h : 2 ≤ cap) :
    k.syscallTaskFdPath pid fd cap = (k.storedPath pid fd).map (·.take (cap - 1)) := by
  rw [ProcState.syscallTaskFdPath, if_neg (by omega)]
  exact storedPath_map _

theorem onStack_stored (hout : out ≠ 0) (h : 2 ≤ cap) :
    OnStack.syscallTaskFdPath k m pid fd out cap = (k.storedPath pid fd).map fun text =>
      store8 (strncpy m out text (cap - 1)) (out + (cap - 1)) 0 := by
  rw [OnStack.syscallTaskFdPath, if_neg (by omega)]
  exact storedPath_map fun text => store8 (strncpy m out text (cap - 1)) (out + (cap - 1)) 0

theorem storedPath_clean (hstored : k.PathsStored) {text : Path}
    (h : k.storedPath pid fd = some text) : 0 ∉ text := by
  rw [ProcState.storedPath, Option.bind_eq_some_iff] at h
  obtain ⟨slot, -, h⟩ := h
  split at h
  · rename_i hopen
    cases hkind : (k.taskFds slot fd).kind with
    | vfs =>
      simp only [hkind, Option.ite_none_left_eq_some, Option.some.injEq] at h
      exact h.2 ▸ (hstored slot hopen.1 fd hopen.2.1).1
    | udp =>
      simp only [hkind, Option.some.injEq] at h
      rw [← h]
      decide
  · cases h

end

section Frame

variable {k : ProcState} {m : Mem} {pid fd : Nat} {text : Path}

def FitsBuffer (k : ProcState) (pid fd : Nat) : Prop :=
  ∀ (m : Mem) (f : FdFrame), ∃ m',
    OnStack.procReadPidFd k m f pid fd = some ((k.fdAnswer pid fd f.size).1, m') ∧
      BytesAt m' f.buf (k.fdAnswer pid fd f.size).2 ∧
      ∀ x, x < f.path ∨ f.path + fdPathSize ≤ x →
        x < f.buf ∨ f.buf + (k.fdAnswer pid fd f.size).2.length ≤ x → m' x = m x

def fdLine (text : Path) : Path := text.take (fdPathSize - 1) ++ byteText "\n"

def withLineEnd (m : Mem) (path : Nat) (text : Path) : Mem :=
  let n := (text.take (fdPathSize - 1)).length
  store8 (store8 (store8 (strncpy m path text (fdPathSize - 1)) (path + (fdPathSize - 1)) 0)
    (path + n) 10) (path + (n + 1)) 0

theorem length_fdLine (text : Path) :
    (fdLine text).length = (text.take (fdPathSize - 1)).length + 1 := by
  rw [fdLine, List.length_append]
  rfl

theorem length_fdLine_le (text : Path) : (fdLine text).length ≤ fdPathSize := by
  rw [length_fdLine, List.length_take]
  have : fdPathSize = 256 := rfl
  omega

theorem stored_cstring (hclean : 0 ∉ text) (m : Mem) (path : Nat) :
    CString (store8 (strncpy m path text (fdPathSize - 1)) (path + (fdPathSize - 1)) 0) path
      (text.take (fdPathSize - 1)) :=
  strncpy_cstring hclean

theorem procReadPidFd_none (f : FdFrame) (h : k.storedPath pid fd = none) :
    OnStack.procReadPidFd k m f pid fd = some (-1, m) := by
  simp only [OnStack.procReadPidFd, if_neg f.buf_ne, onStack_stored f.path_ne (by decide : 2 ≤ fdPathSize),
    h, Option.map_none]

theorem procReadPidFd_some (hstored : k.PathsStored) (f : FdFrame)
    (h : k.storedPath pid fd = some text) : OnStack.procReadPidFd k m f pid fd =
      some ((handOut (fdLine text) f.size).1,
        copy (withLineEnd m f.path text) f.buf f.path (handOut (fdLine text) f.size).2.length) := by
  have hcstr := stored_cstring (storedPath_clean hstored h) m f.path
  have hlen := length_fdLine_le text
  rw [length_fdLine] at hlen
  simp only [OnStack.procReadPidFd, if_neg f.buf_ne,
    onStack_stored f.path_ne (by decide : 2 ≤ fdPathSize), h, Option.map_some,
    strlen_eq hcstr (Nat.lt_of_succ_le hlen), if_pos hlen, handOut_length]
  rw [handOut, length_fdLine]
  rfl

theorem bytesAt_withLineEnd (hclean : 0 ∉ text) (m : Mem) (path : Nat) :
    BytesAt (withLineEnd m path text) path (fdLine text) := by
  have hcstr := stored_cstring hclean m path
  rw [withLineEnd, fdLine]
  refine bytesAt_append.mpr ⟨?_, bytesAt_singleton.mpr ?_⟩
  · exact bytesAt_store8_apart (bytesAt_store8_apart hcstr.bytes (Or.inr (Nat.le_refl _)))
      (Or.inr (by omega))
  · rw [store8_ne _ (by omega)]
    exact if_pos rfl

theorem withLineEnd_outside (m : Mem) {path x : Nat} (hshort : text.length + 1 < fdPathSize)
    (hx : x < path ∨ path + fdPathSize ≤ x) : withLineEnd m path text x = m x := by
  have hsize : fdPathSize = 256 := rfl
  have hlen : (text.take (fdPathSize - 1)).length = text.length := by
    rw [List.length_take]
    omega
  simp only [withLineEnd, hlen]
  rw [store8_ne _ (by omega), store8_ne _ (by omega), store8_ne _ (by omega),
    strncpy_ne (by omega)]

-- with 255 bytes or more of path the NUL is the byte behind `path[256]`
theorem withLineEnd_behind (m : Mem) (path : Nat) (hlong : fdPathSize ≤ text.length + 1) :
    withLineEnd m path text (path + fdPathSize) = 0 := by
  have hsize : fdPathSize = 256 := rfl
  have hlen : (text.take (fdPathSize - 1)).length + 1 = fdPathSize := by
    rw [List.length_take]
    omega
  simp only [withLineEnd, hlen]
  exact if_pos rfl

theorem procReadPidFd_text (size : Nat) (h : k.storedPath pid fd = some text) :
    k.procReadPidFd pid fd size = handOut (fdLine text) size := by
  have hlen := length_fdLine_le text
  rw [length_fdLine] at hlen
  rw [ProcState.procReadPidFd, taskFdPath_stored (by decide), h]
  dsimp only [Option.map_some]
  rw [if_pos hlen]
  rfl

theorem onStack_reads (hstored : k.PathsStored) (pid fd : Nat) (m : Mem) (f : FdFrame) :
    ∃ m', OnStack.procReadPidFd k m f pid fd = some ((k.procReadPidFd pid fd f.size).1, m') ∧
      BytesAt m' f.buf (k.procReadPidFd pid fd f.size).2 ∧
      ∀ x, x < f.buf ∨ f.buf + (k.procReadPidFd pid fd f.size).2.length ≤ x →
        m' x = ((k.storedPath pid fd).map (withLineEnd m f.path)).getD m x := by
  cases h : k.storedPath pid fd with
  | none =>
    have htext : k.procReadPidFd pid fd f.size = (-1, []) := by
      rw [ProcState.procReadPidFd, taskFdPath_stored (by decide), h]
      rfl
    rw [htext]
    exact ⟨m, procReadPidFd_none f h, bytesAt_nil, fun _ _ => rfl⟩
  | some text =>
    have hsize := length_fdLine_le text
    have hapart := f.apart
    have hcut : (handOut (fdLine text) f.size).2 = (fdLine text).take f.size := rfl
    rw [procReadPidFd_text f.size h]
    refine ⟨_, procReadPidFd_some hstored f h, ?_, fun x hx => copy_outside hx⟩
    rw [hcut]
    refine bytesAt_copy ((bytesAt_withLineEnd (storedPath_clean hstored h) m f.path).take f.size) ?_
    rw [List.length_take]
    omega

theorem fdAnswer_of_short (size : Nat)
    (hshort : ∀ text, k.storedPath pid fd = some text → text.length + 1 < fdPathSize) :
    k.fdAnswer pid fd size = k.procReadPidFd pid fd size := by
  rw [ProcState.fdAnswer]
  cases h : k.storedPath pid fd with
  | none =>
    rw [ProcState.procReadPidFd, taskFdPath_stored (by decide), h]
    rfl
  | some text =>
    have hlen := hshort text h
    rw [procReadPidFd_text size h, fdLine, List.take_of_length_le (by omega)]

theorem fits_of_short (hstored : k.PathsStored)
    (hshort : ∀ text, k.storedPath pid fd = some text → text.length + 1 < fdPathSize) :
    FitsBuffer k pid fd := by
  intro m f
  obtain ⟨m', hread, hbytes, hsame⟩ := onStack_reads hstored pid fd m f
  rw [fdAnswer_of_short f.size hshort]
  refine ⟨m', hread, hbytes, fun x hx hx' => ?_⟩
  rw [hsame x hx']
  cases h : k.storedPath pid fd with
  | none => rfl
  | some text => exact withLineEnd_outside m (hshort text h) hx

theorem short_of_fits (hstored : k.PathsStored) (h : FitsBuffer k pid fd) :
    ∀ text, k.storedPath pid fd = some text → text.length + 1 < fdPathSize := by
  intro text htext
  by_contra hlong
  obtain ⟨m', hread, -, hsame⟩ := h (fun _ => 1) ⟨1, 512, 0, by decide, by decide, by decide⟩
  rw [procReadPidFd_some hstored _ htext, Option.some.injEq, Prod.mk.injEq] at hread
  have hbehind := hsame (1 + fdPathSize) (Or.inr (Nat.le_refl _)) (Or.inl (by decide))
  rw [← hread.2, copy_outside (Or.inl (by decide)),
    withLineEnd_behind _ _ (Nat.le_of_not_lt hlong)] at hbehind
  exact absurd hbehind (by decide)

def opened (path : Path) : ProcState :=
  { taskTwoRuns with taskFds := fun _ _ => pathFd path 0 }

theorem pathsStored_opened {path : Path} (hclean : 0 ∉ path) : (opened path).PathsStored := by
  refine fun _ _ _ _ => ⟨fun hz => hclean (List.mem_of_mem_take hz), ?_⟩
  exact Nat.lt_of_le_of_lt (List.length_take_le _ _) (by decide)

theorem storedPath_opened {path : Path} (hne : path ≠ []) (hlen : path.length < fdPathCap) :
    (opened path).storedPath 2 3 = some path := by
  have hread : (opened path).storedPath 2 3 =
      if path.take (fdPathCap - 1) = [] then none else some (path.take (fdPathCap - 1)) := rfl
  rw [hread, List.take_of_length_le (Nat.le_sub_one_of_lt hlen), if_neg hne]

def longPath : Path := slash :: List.replicate 254 97

theorem length_longPath : longPath.length = 255 := by
  rw [longPath, List.length_cons, List.length_replicate]

theorem zero_not_mem_longPath : 0 ∉ longPath := by
  rw [longPath, List.mem_cons, List.mem_replicate]
  decide

theorem fd_text_overflows :
    ¬∀ (k : ProcState) (pid fd : Nat), k.PathsStored → FitsBuffer k pid fd := by
  intro h
  have hstored := pathsStored_opened zero_not_mem_longPath
  have hpath : (opened longPath).storedPath 2 3 = some longPath := by
    refine storedPath_opened (List.cons_ne_nil _ _) ?_
    rw [length_longPath]
    decide
  have hshort := short_of_fits hstored (h (opened longPath) 2 3 hstored) longPath hpath
  rw [length_longPath] at hshort
  exact absurd hshort (by decide)

theorem fd_text_fits_iff (k : ProcState) (hstored : k.PathsStored) (pid fd : Nat) :
    FitsBuffer k pid fd ↔
      ∀ text, k.storedPath pid fd = some text → text.length + 1 < fdPathSize :=
  ⟨short_of_fits hstored, fits_of_short hstored⟩

theorem fd_text_fits_iff_tty : FitsBuffer (opened (byteText "/dev/tty/3")) 2 3 := by
  have hpath : (opened (byteText "/dev/tty/3")).storedPath 2 3 = some (byteText "/dev/tty/3") :=
    storedPath_opened (by decide) (by decide)
  refine (fd_text_fits_iff (opened (byteText "/dev/tty/3")) (pathsStored_opened (by decide))
    2 3).mpr fun text htext => ?_
  obtain rfl : byteText "/dev/tty/3" = text := Option.some.inj (hpath.symm.trans htext)
  decide

end Frame

end HouseOS.Procfs
