import HouseOS.Args.Interp
import HouseOS.Args.Stack
import HouseOS.Elf.Image
import HouseOS.Exec.Model

namespace HouseOS.Exec

open HouseOS.Args (Text splitLoop_grows pushStrings_strings stringsSize stringsSize_le userStackTop)
open HouseOS.ByteMem
open HouseOS.Elf
open HouseOS.Vfs

section Arguments

-- an argument vector that splits off the command line always finds room on the stack
theorem buildUserStack_failed {args : Bool} {cmdline : Text} {user user' : Mem}
    (h : buildUserStackFromCmdline args cmdline user = (none, user')) : user' = user := by
  rw [buildUserStackFromCmdline] at h
  split at h
  next => exact ((Prod.mk.injEq ..).mp h).2.symm
  next =>
    split at h
    next => exact ((Prod.mk.injEq ..).mp h).2.symm
    next argv hsplit =>
      obtain ⟨⟨hcount, hlen⟩, -⟩ := splitLoop_grows _ hsplit ⟨Nat.zero_le _, fun _ ha => by cases ha⟩
      have hsize : stringsSize argv ≤ 128 * argv.length :=
        stringsSize_le fun a ha => Nat.succ_le_succ (hlen a ha)
      obtain ⟨m, ptrs, hpush, -⟩ :=
        pushStrings_strings argv user (userStackTop - userStackTop % 4) (by
          have htop : userStackTop - userStackTop % 4 = 8388592 := by decide
          have hbase : Args.userVaddrBase = 4194304 := by decide
          omega)
      rw [pushArgs_some.mpr hpush] at h
      cases (Prod.mk.injEq ..).mp h |>.1

end Arguments

section Loading

variable {fs : Path → ElfFile} {path : Path} {orig : Option Text} {cap : Nat} {user user' : Mem}

def execInterp (f : ElfFile) : Text := (interpOf f 256).takeWhile (fun c => c ≠ 0)

def ProgramLoads (f : ElfFile) : Prop := ∃ info, f.info = some info ∧ LoadsWhole f info true 256

open Classical in
noncomputable def interpByte (fs : Path → ElfFile) (path : Path) (x : Nat) : Option UInt8 :=
  if ProgramLoads (fs path) ∧ execInterp (fs path) ≠ [] then
    imageByte (fs (execInterp (fs path))) (loadedHeaders (fs (execInterp (fs path))) false 0) x
  else none

-- the interpreter is loaded over the program that names it
noncomputable def loadedByte (fs : Path → ElfFile) (path : Path) (x : Nat) : Option UInt8 :=
  interpByte fs path x <|> imageByte (fs path) (loadedHeaders (fs path) true 256) x

theorem elfLoad_ok_program {f : ElfFile} {entry : Nat}
    (h : (elfLoadFromVfsEx f true 256 user).1 = .ok entry) :
    ProgramLoads f ∧ interpPath (elfLoadFromVfsEx f true 256 user).2 = execInterp f := by
  cases hinfo : f.info with
  | none =>
    rw [elfLoadFromVfsEx, hinfo] at h
    cases h
  | some info =>
    have hload := (elfLoad_ok_iff hinfo).mp ⟨entry, h⟩
    exact ⟨⟨info, hinfo, hload⟩, by rw [interpPath, elfLoad_interp hinfo hload, execInterp]⟩

theorem elfLoad_error_program {f : ElfFile} {e : Nat}
    (h : (elfLoadFromVfsEx f true 256 user).1 = .error e) : ¬ ProgramLoads f := by
  rintro ⟨info, hinfo, hload⟩
  have hok : ∃ entry, (elfLoadFromVfsEx f true 256 user).1 = .ok entry :=
    (elfLoad_ok_iff hinfo).mpr hload
  rw [h] at hok
  obtain ⟨entry, hok⟩ := hok
  cases hok

theorem resolve_user (fs : Path → ElfFile) (path : Path) (orig : Option Text) (cap : Nat)
    (user : Mem) (x : Nat) :
    (resolveExecEntry fs path orig cap user).2 x = (loadedByte fs path x).getD (user x) := by
  have hmain := elfLoad_user (fs path) true 256 user x
  rw [resolveExecEntry, loadedByte, interpByte]
  rcases hload : elfLoadFromVfsEx (fs path) true 256 user with ⟨e | entry, s⟩
  · have hfail : ¬ ProgramLoads (fs path) := elfLoad_error_program (by rw [hload])
    rw [hload] at hmain
    rw [if_neg (fun h => hfail h.1)]
    exact hmain
  · have hprog := elfLoad_ok_program (show (elfLoadFromVfsEx (fs path) true 256 user).1 = .ok entry by
      rw [hload])
    rw [hload] at hmain hprog
    obtain ⟨hwhole, hinterp⟩ := hprog
    dsimp only at hmain hinterp ⊢
    rw [hinterp]
    by_cases hne : execInterp (fs path) = []
    · rw [if_neg (not_not.mpr hne), if_neg (fun h => h.2 hne)]
      exact hmain
    · rw [if_pos hne, if_pos ⟨hwhole, hne⟩]
      have hover := elfLoad_user (fs (execInterp (fs path))) false 0 s.user x
      rw [elfLoadFromVfs]
      rcases hload' : elfLoadFromVfsEx (fs (execInterp (fs path))) false 0 s.user with ⟨e | entry', s'⟩
      all_goals
        rw [hload'] at hover
        dsimp only at hover ⊢
        rw [hover, hmain]
        cases imageByte (fs (execInterp (fs path)))
          (loadedHeaders (fs (execInterp (fs path))) false 0) x <;> rfl

end Loading

section Failure

variable {Fds : Type}

-- where the first failing check is met no byte of the new image has changed the memory
def Untouched (fs : Path → ElfFile) (path : Path) (user : Mem) : Prop :=
  ∀ x b, loadedByte fs path x = some b → user x = b

def execTarget (a : Answers) (user : Mem) (ebx : Nat) : Option Path :=
  if a.root = true ∧ a.space = true then copyUserPath user ebx 256 else none

def execvTarget (a : Answers) (user : Mem) (ebx ecx : Nat) : Option Path :=
  if (copyUserString user ecx 512).isSome then execTarget a user ebx else none

theorem untouched_iff (fs : Path → ElfFile) (path : Path) (orig : Option Text) (cap : Nat)
    (user : Mem) :
    (resolveExecEntry fs path orig cap user).2 = user ↔ Untouched fs path user := by
  constructor
  · intro h x b hb
    have hx := resolve_user fs path orig cap user x
    rw [h, hb] at hx
    exact hx
  · intro h
    funext x
    rw [resolve_user]
    cases hb : loadedByte fs path x with
    | none => rfl
    | some b => exact (h x b hb).symm

theorem caller_eq_iff {t : Caller Fds} {user : Mem} :
    { t with user := user } = t ↔ user = t.user := by
  constructor
  · intro h
    exact congrArg Caller.user h
  · rintro rfl
    rfl

theorem runExec_failed {fs : Path → ElfFile} {close : Fds → Fds} {a : Answers} {path : Path}
    {orig : Option Text} {cmdline : Text → Text} {t t' : Caller Fds} {e : Nat}
    (h : runExec fs close a path orig cmdline t = (.error e, t')) :
    t' = t ↔ (a.space = true → Untouched fs path t.user) := by
  rw [runExec] at h
  cases hspace : a.space with
  | false =>
    rw [if_pos hspace] at h
    have ht : t' = t := ((Prod.mk.injEq ..).mp h).2.symm
    simp [ht]
  | true =>
    rw [if_neg (by simp [hspace])] at h
    have huntouched := untouched_iff fs path orig 512 t.user
    rcases hres : resolveExecEntry fs path orig 512 t.user with ⟨_ | ⟨entry, stack⟩, user⟩
    · rw [hres] at h huntouched
      obtain ⟨-, rfl⟩ := (Prod.mk.injEq ..).mp h
      rw [caller_eq_iff, huntouched]
      exact ⟨fun hu _ => hu, fun hu => hu rfl⟩
    · rw [hres] at h huntouched
      dsimp only at h huntouched
      rcases hbuild : buildUserStackFromCmdline a.args stack user with ⟨_ | esp, user'⟩
      · rw [hbuild] at h
        obtain ⟨-, rfl⟩ := (Prod.mk.injEq ..).mp h
        rw [caller_eq_iff, buildUserStack_failed hbuild, huntouched]
        exact ⟨fun hu _ => hu, fun hu => hu rfl⟩
      · rw [hbuild] at h
        cases (Prod.mk.injEq ..).mp h |>.1

theorem failing_exec_keeps_caller (fs : Path → ElfFile) (closeCloexecFds : Fds → Fds) (a : Answers)
    (ebx ecx e : Nat) (t t' : Caller Fds) :
    (sysExec fs closeCloexecFds a ebx t = (.error e, t') →
      (t' = t ↔ ∀ path, execTarget a t.user ebx = some path → Untouched fs path t.user)) ∧
    (sysExecv fs closeCloexecFds a ebx ecx t = (.error e, t') →
      (t' = t ↔ ∀ path, execvTarget a t.user ebx ecx = some path → Untouched fs path t.user)) := by
  have hkept : ∀ {e' : Nat} {s : Caller Fds},
      ((.error e', t) : Except Nat (Nat × Nat) × Caller Fds) = (.error e, s) → s = t := by
    intro e' s h
    exact ((Prod.mk.injEq ..).mp h).2.symm
  constructor
  · intro h
    rw [sysExec] at h
    cases hroot : a.root with
    | false =>
      rw [if_pos hroot] at h
      simp [hkept h, execTarget, hroot]
    | true =>
      rw [if_neg (by simp [hroot])] at h
      cases hpath : copyUserPath t.user ebx 256 with
      | none =>
        rw [hpath] at h
        simp [hkept h, execTarget, hpath]
      | some path =>
        rw [hpath] at h
        rw [runExec_failed h]
        simp [execTarget, hroot, hpath]
  · intro h
    rw [sysExecv] at h
    cases hroot : a.root with
    | false =>
      rw [if_pos hroot] at h
      simp [hkept h, execvTarget, execTarget, hroot]
    | true =>
      rw [if_neg (by simp [hroot])] at h
      cases hpath : copyUserPath t.user ebx 256 with
      | none =>
        rw [hpath] at h
        simp [hkept h, execvTarget, execTarget, hpath]
      | some path =>
        rw [hpath] at h
        dsimp only at h
        cases hcmd : copyUserString t.user ecx 512 with
        | none =>
          rw [hcmd] at h
          simp [hkept h, execvTarget, hcmd]
        | some cmdline =>
          rw [hcmd] at h
          rw [runExec_failed h]
          simp [execvTarget, execTarget, hroot, hpath, hcmd]

-- one loadable segment at 0x400000, but an entry point at 0
def badEntry : ElfFile :=
  elfOf (elfHeader (0, 0, 0, 0) (52, 0, 0, 0) (1, 0, 0, 0) ++ oneSegment) (by decide)

def shellCaller : Caller Unit :=
  { user := fun x => if x = 0x500000 then slash else 0
    progPath := []
    cmdline := []
    fds := () }

def missingFile : ElfFile := { badEntry with info := none }

theorem failing_exec_keeps_caller_missing_file :
    (sysExec (fun _ => missingFile) id ⟨true, true, true⟩ 0x500000 shellCaller).2 = shellCaller := by
  refine ((failing_exec_keeps_caller (fun _ => missingFile) id ⟨true, true, true⟩ 0x500000 0 kEnoent
    shellCaller _).1 rfl).mpr ?_
  intro path _ x b hb
  have hnone : ∀ out cap, loadedHeaders missingFile out cap = [] := fun _ _ => rfl
  rw [loadedByte, interpByte] at hb
  simp [imageByte, hnone] at hb

theorem failed_exec_overwrites_caller :
    let fs : Path → ElfFile := fun _ => badEntry
    (∃ t', sysExec fs id ⟨true, true, true⟩ 0x500000 shellCaller = (.error kEnoent, t')) ∧
      (sysExec fs id ⟨true, true, true⟩ 0x500000 shellCaller).2.user 0x400000 = 0x90 ∧
      shellCaller.user 0x400000 = 0 := by
  refine ⟨⟨_, rfl⟩, ?_, ?_⟩
  · decide
  · decide

end Failure

end HouseOS.Exec
