import HouseOS.Args.Model
import HouseOS.Elf.Model

namespace HouseOS.Exec

open HouseOS.Args (Text buildInterpCmdline pushFrame pushStrings splitCmdline userStackTop
  userVaddrBase)
open HouseOS.ByteMem
open HouseOS.Elf hiding userVaddrBase
open HouseOS.Vfs

def kEnoent : Nat := 2

def kEnomem : Nat := 12

def kEnodev : Nat := 19

def kEinval : Nat := 22

def copyBytes (m : Mem) : Nat → Nat → Option Text
  | 0, _ => none
  | n + 1, ptr =>
      if m ptr = 0 then some [] else (copyBytes m n ((ptr + 1) % 2 ^ 32)).map (m ptr :: ·)

def copyUserString (m : Mem) (user cap : Nat) : Option Text :=
  if user = 0 ∨ cap < 2 then none else copyBytes m cap user

def copyUserPath (m : Mem) (user cap : Nat) : Option Path :=
  match copyUserString m user cap with
  | none => none
  | some path => if path.head? = some slash then some path else none

-- `strncpy` into a buffer of `cap` bytes that is then terminated
def strncpy (src : Text) (cap : Nat) : Text := src.take (cap - 1)

def interpPath (s : Load) : Text := s.interp.takeWhile (fun c => c ≠ 0)

def resolveExecEntry (fs : Path → ElfFile) (progPath : Path) (origCmdline : Option Text)
    (cap : Nat) (user : Mem) : Option (Nat × Text) × Mem :=
  match elfLoadFromVfsEx (fs progPath) true 256 user with
  | (.error _, s) => (none, s.user)
  | (.ok entry, s) =>
      if interpPath s ≠ [] then
        match elfLoadFromVfs (fs (interpPath s)) s.user with
        | (.error _, s) => (none, s.user)
        | (.ok interpEntry, s') =>
            ((buildInterpCmdline cap (interpPath s) progPath (origCmdline.getD [])).map
              (fun cmdline => (interpEntry, cmdline)), s'.user)
      else (some (entry, strncpy (origCmdline.getD []) cap), s.user)

-- `pushStrings` with the memory that a push without room for the next string leaves
def pushArgs : List Text → Mem → Nat → Option (Nat × List Nat) × Mem
  | [], m, sp => (some (sp, []), m)
  | arg :: args, m, sp =>
      match pushArgs args m sp with
      | (none, m) => (none, m)
      | (some (sp, ptrs), m) =>
          let len := arg.length + 1
          if sp < userVaddrBase + len + 256 then (none, m)
          else (some (sp - len, (sp - len) :: ptrs), storeBytes m (sp - len) (arg ++ [0]))

def buildUserStackFromCmdline (args : Bool) (cmdline : Text) (user : Mem) : Option Nat × Mem :=
  if args = false then (none, user)
  else
    match splitCmdline cmdline with
    | none => (none, user)
    | some argv =>
        match pushArgs argv user (userStackTop - userStackTop % 4) with
        | (none, m) => (none, m)
        | (some (sp, ptrs), m) =>
            let s := pushFrame m sp argv.length ptrs
            (some s.2, s.1)

theorem pushArgs_some {args : List Text} {m m' : Mem} {sp sp' : Nat} {ptrs : List Nat} :
    pushArgs args m sp = (some (sp', ptrs), m') ↔
      pushStrings m sp args = some (m', sp', ptrs) := by
  induction args generalizing m' sp' ptrs with
  | nil => simp only [pushArgs, pushStrings, Prod.mk.injEq, Option.some.injEq, and_comm, and_assoc]
  | cons arg args ih =>
    rw [pushArgs, pushStrings]
    rcases hpush : pushArgs args m sp with ⟨_ | ⟨sp₁, ptrs₁⟩, m₁⟩
    · cases hstr : pushStrings m sp args with
      | none => simp
      | some r =>
        have h := ih.mpr hstr
        rw [hpush] at h
        cases h
    · rw [ih.mp hpush, Option.bind_some]
      dsimp only
      split
      · simp only [Prod.mk.injEq, reduceCtorEq, false_and]
      · simp only [Prod.mk.injEq, Option.some.injEq, and_comm, and_assoc]

-- the stack that the process finds is the one of the argument model
theorem buildUserStack_some {args : Bool} {cmdline : Text} {user m : Mem} {sp : Nat} :
    buildUserStackFromCmdline args cmdline user = (some sp, m) ↔
      Args.buildUserStackFromCmdline args user cmdline = some (m, sp) := by
  rw [buildUserStackFromCmdline, Args.buildUserStackFromCmdline]
  cases args with
  | false => simp only [if_true, Bool.not_false, Prod.mk.injEq, reduceCtorEq, false_and]
  | true =>
    rw [if_neg (by decide), if_neg (by decide)]
    cases splitCmdline cmdline with
    | none => simp only [Option.bind_none, Prod.mk.injEq, reduceCtorEq, false_and]
    | some argv =>
      rw [Option.bind_some]
      dsimp only
      rcases hpush : pushArgs argv user (userStackTop - userStackTop % 4) with ⟨_ | ⟨sp₁, ptrs⟩, m₁⟩
      · cases hstr : pushStrings user (userStackTop - userStackTop % 4) argv with
        | none => simp only [Option.map_none, Prod.mk.injEq, reduceCtorEq, false_and]
        | some r =>
          rw [pushArgs_some.mpr hstr] at hpush
          cases hpush
      · rw [pushArgs_some.mp hpush, Option.map_some]
        simp only [Prod.mk.injEq, Option.some.injEq]
        exact and_comm.trans (Prod.ext_iff (y := (m, sp))).symm

structure Caller (Fds : Type) where
  user : Mem
  progPath : Text
  cmdline : Text
  fds : Fds

-- what the kernel answers around the call: a mounted root, the user space kept by
-- `ensure_current_task_user_space`, the argument buffer of `kmalloc`
structure Answers where
  root : Bool
  space : Bool
  args : Bool

section Exec

variable {Fds : Type} (fs : Path → ElfFile) (closeCloexecFds : Fds → Fds) (a : Answers)

def runExec (path : Path) (origCmdline : Option Text) (cmdline : Text → Text) (t : Caller Fds) :
    Except Nat (Nat × Nat) × Caller Fds :=
  if a.space = false then (.error kEnomem, t)
  else
    match resolveExecEntry fs path origCmdline 512 t.user with
    | (none, user) => (.error kEnoent, { t with user := user })
    | (some (entry, stackCmdline), user) =>
        match buildUserStackFromCmdline a.args stackCmdline user with
        | (none, user) => (.error kEinval, { t with user := user })
        | (some userEsp, user) =>
            (.ok (entry, userEsp),
              { user := user, progPath := strncpy path 256, cmdline := cmdline stackCmdline,
                fds := closeCloexecFds t.fds })

def sysExec (ebx : Nat) (t : Caller Fds) : Except Nat (Nat × Nat) × Caller Fds :=
  if a.root = false then (.error kEnodev, t)
  else
    match copyUserPath t.user ebx 256 with
    | none => (.error kEinval, t)
    | some path => runExec fs closeCloexecFds a path none (fun _ => []) t

def sysExecv (ebx ecx : Nat) (t : Caller Fds) : Except Nat (Nat × Nat) × Caller Fds :=
  if a.root = false then (.error kEnodev, t)
  else
    match copyUserPath t.user ebx 256 with
    | none => (.error kEinval, t)
    | some path =>
        match copyUserString t.user ecx 512 with
        | none => (.error kEinval, t)
        | some cmdline =>
            runExec fs closeCloexecFds a path (some cmdline) (fun stack => strncpy stack 512) t

end Exec

end HouseOS.Exec
