import HouseOS.Syscall.FileIo

namespace HouseOS.Syscall

open HouseOS.Vfs (Path NodeType)

structure Flags where
  pollin : Bool
  pollout : Bool
  pollerr : Bool
  pollhup : Bool
  pollnval : Bool
  deriving DecidableEq, Repr

def noFlags : Flags := ⟨false, false, false, false, false⟩

structure PollState where
  fds : FdTable
  qLen : Nat → Nat
  vfsGetInfo : Path → Option Info

def fdPollRevents (w : PollState) (fd : Nat) (events : Flags) : Flags :=
  if fdMax ≤ fd then { noFlags with pollnval := true }
  else
    match w.fds.fdPath fd with
    | none =>
        match w.fds.fdUdpSid fd with
        | none => { noFlags with pollnval := true }
        | some sid =>
            { noFlags with
              pollin := events.pollin && decide (0 < w.qLen sid), pollout := events.pollout }
    | some path =>
        match w.vfsGetInfo path with
        | none => { noFlags with pollnval := true }
        | some info =>
            { noFlags with
              pollout := events.pollout
              pollin := events.pollin &&
                (if info.type = .fifo ∨ info.type = .socket then decide (0 < info.size) else true) }

-- the user's words behind the three pointers, none for NULL
structure Masks where
  readfds : Option Nat
  writefds : Option Nat
  exceptfds : Option Nat
  deriving DecidableEq, Repr

structure SelectReq where
  nfds : Int
  masks : Masks
  timeoutMs : Int

structure Pass where
  rmask : Nat
  wmask : Nat
  emask : Nat
  ready : Nat
  deriving DecidableEq, Repr

def wants (word : Option Nat) (fd : Nat) : Bool := word.any (·.testBit fd)

def addBit (mask fd : Nat) : Nat := mask ||| 1 <<< fd

def scanFd (w : PollState) (m : Masks) (p : Pass) (fd : Nat) : Pass :=
  let events : Flags :=
    { noFlags with
      pollin := wants m.readfds fd, pollout := wants m.writefds fd, pollerr := wants m.exceptfds fd }
  if events = noFlags then p
  else
    let rev := fdPollRevents w fd events
    let r := rev.pollin && m.readfds.isSome
    let wr := rev.pollout && m.writefds.isSome
    let e := (rev.pollerr || rev.pollhup || rev.pollnval) && m.exceptfds.isSome
    { rmask := if r then addBit p.rmask fd else p.rmask
      wmask := if wr then addBit p.wmask fd else p.wmask
      emask := if e then addBit p.emask fd else p.emask
      ready := if r || wr || e then p.ready + 1 else p.ready }

def selectPass (w : PollState) (m : Masks) (nfds : Nat) : Pass :=
  (List.range nfds).foldl (scanFd w m) ⟨0, 0, 0, 0⟩

def Masks.store (m : Masks) (p : Pass) : Masks where
  readfds := m.readfds.map fun _ => p.rmask
  writefds := m.writefds.map fun _ => p.wmask
  exceptfds := m.exceptfds.map fun _ => p.emask

-- `polls n` is what the n-th round of the loop sees
def selectLoop (polls : Nat → PollState) (nfds : Nat) (timeoutMs : Int) :
    Nat → Nat → Nat → Masks → Option (Int × Masks)
  | 0, _, _, _ => none
  | fuel + 1, n, waited, m =>
      let p := selectPass (polls n) m nfds
      let m := m.store p
      if 0 < p.ready then some (p.ready, m)
      else if timeoutMs = 0 then some (0, m)
      else if 0 < timeoutMs ∧ timeoutMs ≤ toInt32 waited then some (0, m)
      else selectLoop polls nfds timeoutMs fuel (n + 1) ((waited + 10) % 2 ^ 32) m

def sysSelect (polls : Nat → PollState) (req : Option SelectReq) (fuel : Nat) :
    Option (Int × Masks) :=
  match req with
  | none => some (-einval, ⟨none, none, none⟩)
  | some req =>
      if req.nfds < 0 ∨ (fdMax : Int) < req.nfds then some (-einval, req.masks)
      else selectLoop polls req.nfds.toNat req.timeoutMs fuel 0 0 req.masks

section Law

def readReady (w : PollState) (m : Masks) (fd : Nat) : Bool :=
  wants m.readfds fd && (fdPollRevents w fd { noFlags with pollin := true }).pollin

def writeReady (w : PollState) (m : Masks) (fd : Nat) : Bool :=
  wants m.writefds fd && (fdPollRevents w fd { noFlags with pollout := true }).pollout

def invalid (w : PollState) (fd : Nat) : Bool := (fdPollRevents w fd noFlags).pollnval

def exceptReady (w : PollState) (m : Masks) (fd : Nat) : Bool :=
  wants m.exceptfds fd && invalid w fd

def isReady (w : PollState) (m : Masks) (fd : Nat) : Bool :=
  readReady w m fd || writeReady w m fd || exceptReady w m fd

def maskOf (f : Nat → Bool) (nfds : Nat) : Nat :=
  (List.range nfds).foldl (fun mask fd => if f fd then addBit mask fd else mask) 0

def readyAnswer (w : PollState) (m : Masks) (nfds : Nat) : Int × Masks :=
  ((List.range nfds).countP (isReady w m),
    { readfds := m.readfds.map fun _ => maskOf (readReady w m) nfds
      writefds := m.writefds.map fun _ => maskOf (writeReady w m) nfds
      exceptfds := m.exceptfds.map fun _ => maskOf (exceptReady w m) nfds })

def emptied (m : Masks) : Masks where
  readfds := m.readfds.map fun _ => 0
  writefds := m.writefds.map fun _ => 0
  exceptfds := m.exceptfds.map fun _ => 0

def SomeReady (w : PollState) (req : SelectReq) : Prop :=
  ∃ fd < req.nfds.toNat, isReady w req.masks fd = true

def InTime (req : SelectReq) (n : Nat) : Prop :=
  n = 0 ∨ req.timeoutMs < 0 ∨ 10 * ((n : Int) - 1) < req.timeoutMs

inductive Reports (polls : Nat → PollState) (req : SelectReq) : Int × Masks → Prop
  | ready (n : Nat) (hin : InTime req n) (hnow : SomeReady (polls n) req)
      (hfirst : ∀ j < n, ¬SomeReady (polls j) req) :
      Reports polls req (readyAnswer (polls n) req.masks req.nfds.toNat)
  | timeout (hend : 0 ≤ req.timeoutMs) (hnone : ∀ n, InTime req n → ¬SomeReady (polls n) req) :
      Reports polls req (0, emptied req.masks)

def Returns (polls : Nat → PollState) (req : SelectReq) (a : Int × Masks) : Prop :=
  ∃ fuel, sysSelect polls (some req) fuel = some a

def SelectLaw (polls : Nat → PollState) (req : SelectReq) : Prop :=
  ∀ a, Returns polls req a ↔ Reports polls req a

-- an invalid descriptor asked about for reading or writing only is put in the third mask
def Spurious (w : PollState) (req : SelectReq) : Prop :=
  req.masks.exceptfds.isSome ∧ ∃ fd < req.nfds.toNat, invalid w fd = true ∧
    (wants req.masks.readfds fd || wants req.masks.writefds fd) = true ∧
    wants req.masks.exceptfds fd = false

end Law

section Bits

theorem testBit_addBit (mask fd i : Nat) :
    (addBit mask fd).testBit i = (mask.testBit i || decide (fd = i)) := by
  rw [addBit, Nat.testBit_or, Nat.one_shiftLeft, Nat.testBit_two_pow]

theorem maskOf_succ (f : Nat → Bool) (nfds : Nat) :
    maskOf f (nfds + 1) = if f nfds then addBit (maskOf f nfds) nfds else maskOf f nfds := by
  simp only [maskOf, List.range_succ, List.foldl_append, List.foldl_cons, List.foldl_nil]

theorem testBit_maskOf (f : Nat → Bool) (nfds i : Nat) :
    (maskOf f nfds).testBit i = (decide (i < nfds) && f i) := by
  induction nfds with
  | zero => simp [maskOf]
  | succ nfds ih =>
    rw [maskOf_succ]
    by_cases hf : f nfds = true
    · rw [if_pos hf, testBit_addBit, ih]
      by_cases hi : nfds = i
      · subst hi
        simp [hf]
      · have hlt : i < nfds + 1 ↔ i < nfds := by omega
        simp [hi, hlt]
    · rw [if_neg hf, ih]
      by_cases hi : nfds = i
      · subst hi
        simp [hf]
      · have hlt : i < nfds + 1 ↔ i < nfds := by omega
        simp [hlt]

theorem maskOf_congr {f g : Nat → Bool} {nfds : Nat} (h : ∀ i < nfds, f i = g i) :
    maskOf f nfds = maskOf g nfds := by
  refine Nat.eq_of_testBit_eq fun i => ?_
  rw [testBit_maskOf, testBit_maskOf]
  by_cases hi : i < nfds
  · rw [h i hi]
  · simp [hi]

theorem maskOf_none (nfds : Nat) : maskOf (fun _ => false) nfds = 0 := by
  refine Nat.eq_of_testBit_eq fun i => ?_
  rw [testBit_maskOf, Bool.and_false, Nat.zero_testBit]

end Bits

section Round

variable {w : PollState} {m : Masks} {fd nfds : Nat}

def readable (w : PollState) (fd : Nat) : Bool :=
  (fdPollRevents w fd { noFlags with pollin := true }).pollin

def writable (w : PollState) (fd : Nat) : Bool :=
  (fdPollRevents w fd { noFlags with pollout := true }).pollout

theorem fdPollRevents_eq (w : PollState) (fd : Nat) (events : Flags) :
    fdPollRevents w fd events =
      { noFlags with
        pollin := events.pollin && readable w fd, pollout := events.pollout && writable w fd,
        pollnval := invalid w fd } := by
  unfold readable writable invalid fdPollRevents
  split
  next => simp [noFlags]
  next =>
    cases w.fds.fdPath fd with
    | none =>
      cases w.fds.fdUdpSid fd with
      | none => simp [noFlags]
      | some sid => simp [noFlags]
    | some path =>
      dsimp only
      cases w.vfsGetInfo path with
      | none => simp [noFlags]
      | some info => simp [noFlags]

def asked (m : Masks) (fd : Nat) : Bool :=
  wants m.readfds fd || wants m.writefds fd || wants m.exceptfds fd

def flagged (w : PollState) (m : Masks) (fd : Nat) : Bool :=
  asked m fd && invalid w fd && m.exceptfds.isSome

def counted (w : PollState) (m : Masks) (fd : Nat) : Bool :=
  readReady w m fd || writeReady w m fd || flagged w m fd

theorem isSome_of_wants {word : Option Nat} (h : wants word fd = true) : word.isSome = true := by
  cases word with
  | none => cases h
  | some v => rfl

theorem scanFd_eq (w : PollState) (m : Masks) (p : Pass) (fd : Nat) :
    scanFd w m p fd =
      { rmask := if readReady w m fd then addBit p.rmask fd else p.rmask
        wmask := if writeReady w m fd then addBit p.wmask fd else p.wmask
        emask := if flagged w m fd then addBit p.emask fd else p.emask
        ready := if counted w m fd then p.ready + 1 else p.ready } := by
  have hr : (wants m.readfds fd && readable w fd && m.readfds.isSome) = readReady w m fd := by
    show _ = (wants m.readfds fd && readable w fd)
    cases h : wants m.readfds fd with
    | false => rfl
    | true => rw [isSome_of_wants h, Bool.and_true]
  have hw : (wants m.writefds fd && writable w fd && m.writefds.isSome) = writeReady w m fd := by
    show _ = (wants m.writefds fd && writable w fd)
    cases h : wants m.writefds fd with
    | false => rfl
    | true => rw [isSome_of_wants h, Bool.and_true]
  simp only [scanFd, fdPollRevents_eq, hr, hw]
  by_cases hask : asked m fd = true
  · have hev : ({ noFlags with
        pollin := wants m.readfds fd, pollout := wants m.writefds fd,
        pollerr := wants m.exceptfds fd } : Flags) ≠ noFlags := by
      intro heq
      simp only [noFlags, Flags.mk.injEq] at heq
      simp [asked, heq] at hask
    have he : (invalid w fd && m.exceptfds.isSome) = flagged w m fd := by
      rw [flagged, hask, Bool.true_and]
    rw [if_neg hev]
    simp only [noFlags, Bool.false_or, he, counted]
    rfl
  · have hnone : wants m.readfds fd = false ∧ wants m.writefds fd = false ∧
        wants m.exceptfds fd = false := by
      simpa [asked, and_assoc] using hask
    obtain ⟨hr0, hw0, he0⟩ := hnone
    simp [hr0, hw0, he0, noFlags, readReady, writeReady, flagged, counted, asked]

theorem selectPass_eq (w : PollState) (m : Masks) (nfds : Nat) :
    selectPass w m nfds =
      ⟨maskOf (readReady w m) nfds, maskOf (writeReady w m) nfds, maskOf (flagged w m) nfds,
        (List.range nfds).countP (counted w m)⟩ := by
  induction nfds with
  | zero => rfl
  | succ nfds ih =>
    have hstep : selectPass w m (nfds + 1) = scanFd w m (selectPass w m nfds) nfds := by
      simp only [selectPass, List.range_succ, List.foldl_append, List.foldl_cons, List.foldl_nil]
    rw [hstep, scanFd_eq, ih, maskOf_succ, maskOf_succ, maskOf_succ, List.range_succ,
      List.countP_append, List.countP_singleton]
    congr 1
    split <;> rfl

theorem ready_zero_iff : (selectPass w m nfds).ready = 0 ↔ ∀ fd < nfds, counted w m fd = false := by
  rw [selectPass_eq]
  simp [List.countP_eq_zero]

theorem store_of_idle (h : (selectPass w m nfds).ready = 0) :
    m.store (selectPass w m nfds) = emptied m := by
  have hidle := ready_zero_iff.mp h
  have hzero (f : Nat → Bool) (hf : ∀ fd, f fd = true → counted w m fd = true) :
      maskOf f nfds = 0 := by
    rw [← maskOf_none nfds]
    refine maskOf_congr fun fd hfd => ?_
    by_contra hne
    have := hf fd (by simpa using hne)
    rw [hidle fd hfd] at this
    cases this
  rw [selectPass_eq, hzero (readReady w m) fun fd h => by simp [counted, h],
    hzero (writeReady w m) fun fd h => by simp [counted, h],
    hzero (flagged w m) fun fd h => by simp [counted, h]]
  rfl

theorem wants_zero (word : Option Nat) (fd : Nat) : wants (word.map fun _ => 0) fd = false := by
  cases word <;> simp [wants]

theorem pass_emptied : (selectPass w (emptied m) nfds).ready = 0 := by
  rw [ready_zero_iff]
  intro fd _
  simp [counted, readReady, writeReady, flagged, asked, emptied, wants_zero]

theorem emptied_emptied : emptied (emptied m) = emptied m := by
  simp [emptied, Function.comp_def]

def Expired (timeoutMs : Int) (waited : Nat) : Prop :=
  timeoutMs = 0 ∨ 0 < timeoutMs ∧ timeoutMs ≤ toInt32 waited

theorem expired_add_mod (timeoutMs : Int) (waited c : Nat) :
    Expired timeoutMs (waited % 2 ^ 32 + c) ↔ Expired timeoutMs (waited + c) := by
  have hsame : toInt32 ((waited % 2 ^ 32 + c : Nat) : Int) = toInt32 ((waited + c : Nat) : Int) := by
    rw [toInt32_eq, toInt32_eq]
    have hmod : ((waited % 2 ^ 32 + c : Nat) : Int) % 2 ^ 32 = ((waited + c : Nat) : Int) % 2 ^ 32 := by
      omega
    rw [hmod]
  rw [Expired, Expired, hsame]

theorem selectLoop_emptied (polls : Nat → PollState) (timeoutMs : Int) (fuel n waited : Nat) :
    selectLoop polls nfds timeoutMs (fuel + 1) n waited (emptied m) =
      if timeoutMs = 0 then some (0, emptied m)
      else if 0 < timeoutMs ∧ timeoutMs ≤ toInt32 waited then some (0, emptied m)
      else selectLoop polls nfds timeoutMs fuel (n + 1) ((waited + 10) % 2 ^ 32) (emptied m) := by
  simp only [selectLoop, store_of_idle pass_emptied, emptied_emptied, pass_emptied, Nat.lt_irrefl,
    if_false]

-- once the masks are empty only the timeout ends the loop
theorem loop_emptied {polls : Nat → PollState} {timeoutMs : Int} {a : Int × Masks} :
    ∀ (fuel n waited : Nat), selectLoop polls nfds timeoutMs fuel n waited (emptied m) = some a →
      a = (0, emptied m) ∧ ∃ k, Expired timeoutMs (waited + 10 * k) := by
  intro fuel
  induction fuel with
  | zero =>
    intro n waited h
    cases h
  | succ fuel ih =>
    intro n waited h
    rw [selectLoop_emptied] at h
    split at h
    next h0 =>
      cases h
      exact ⟨rfl, 0, Or.inl h0⟩
    next =>
      split at h
      next hexp =>
        cases h
        exact ⟨rfl, 0, Or.inr (by simpa using hexp)⟩
      next =>
        obtain ⟨ha, k, hk⟩ := ih _ _ h
        rw [expired_add_mod] at hk
        exact ⟨ha, k + 1, by rwa [show waited + 10 * (k + 1) = waited + 10 + 10 * k by omega]⟩

theorem loop_expires (polls : Nat → PollState) (timeoutMs : Int) :
    ∀ (k n waited : Nat), Expired timeoutMs (waited + 10 * k) →
      ∃ fuel, selectLoop polls nfds timeoutMs fuel n waited (emptied m) = some (0, emptied m) := by
  intro k
  induction k with
  | zero =>
    intro n waited h
    refine ⟨1, ?_⟩
    rw [selectLoop_emptied]
    rcases h with h | h
    · rw [if_pos h]
    · split
      next => rfl
      next => rw [if_pos (by simpa using h)]
  | succ k ih =>
    intro n waited h
    rw [show waited + 10 * (k + 1) = waited + 10 + 10 * k by omega, ← expired_add_mod] at h
    obtain ⟨fuel, hfuel⟩ := ih (n + 1) _ h
    by_cases hexp : Expired timeoutMs waited
    · refine ⟨1, ?_⟩
      rw [selectLoop_emptied]
      rcases hexp with h | h
      · rw [if_pos h]
      · split
        next => rfl
        next => rfl
    · refine ⟨fuel + 1, ?_⟩
      rw [selectLoop_emptied, if_neg fun h0 => hexp (Or.inl h0), if_neg fun h0 => hexp (Or.inr h0)]
      exact hfuel

-- the last even number of 31 bits is the largest waiting time the signed comparison ever sees
theorem expires_iff {timeoutMs : Int} (hmin : -2 ^ 31 ≤ timeoutMs) (hmax : timeoutMs < 2 ^ 31) :
    (∃ k, Expired timeoutMs (10 * k)) ↔ 0 ≤ timeoutMs ∧ timeoutMs ≠ 2 ^ 31 - 1 := by
  constructor
  · rintro ⟨k, h0 | ⟨hpos, hle⟩⟩
    · omega
    · rw [toInt32_eq] at hle
      omega
  · rintro ⟨hpos, hne⟩
    refine ⟨(2 ^ 30 - 1) * 1288490189 % 2 ^ 31, ?_⟩
    by_cases h0 : timeoutMs = 0
    · exact Or.inl h0
    · right
      refine ⟨by omega, ?_⟩
      have hlast : toInt32 ((10 * ((2 ^ 30 - 1) * 1288490189 % 2 ^ 31) : Nat) : Int) = 2 ^ 31 - 2 := by
        rw [toInt32_eq]
        rfl
      rw [hlast]
      omega

end Round

section Main

variable {polls : Nat → PollState} {req : SelectReq} {a : Int × Masks}

theorem sysSelect_eq (hn : 0 ≤ req.nfds) (hmax : req.nfds ≤ fdMax) (fuel : Nat) :
    sysSelect polls (some req) fuel =
      selectLoop polls req.nfds.toNat req.timeoutMs fuel 0 0 req.masks :=
  if_neg (by omega)

theorem returns_at_once (hn : 0 ≤ req.nfds) (hmax : req.nfds ≤ fdMax)
    (hready : 0 < (selectPass (polls 0) req.masks req.nfds.toNat).ready) :
    Returns polls req a ↔ a = (((selectPass (polls 0) req.masks req.nfds.toNat).ready : Int),
      req.masks.store (selectPass (polls 0) req.masks req.nfds.toNat)) := by
  constructor
  · rintro ⟨fuel, h⟩
    rw [sysSelect_eq hn hmax] at h
    cases fuel with
    | zero => cases h
    | succ fuel =>
      simp only [selectLoop, if_pos hready] at h
      cases h
      rfl
  · rintro rfl
    refine ⟨1, ?_⟩
    rw [sysSelect_eq hn hmax]
    simp only [selectLoop, if_pos hready]

theorem returns_late (hn : 0 ≤ req.nfds) (hmax : req.nfds ≤ fdMax)
    (hidle : (selectPass (polls 0) req.masks req.nfds.toNat).ready = 0) :
    Returns polls req a ↔
      a = (0, emptied req.masks) ∧ ∃ k, Expired req.timeoutMs (10 * k) := by
  have hloop (fuel : Nat) : sysSelect polls (some req) fuel =
      selectLoop polls req.nfds.toNat req.timeoutMs fuel 0 0 (emptied req.masks) := by
    rw [sysSelect_eq hn hmax]
    cases fuel with
    | zero => rfl
    | succ fuel =>
      rw [selectLoop_emptied]
      simp only [selectLoop, store_of_idle hidle, hidle, Nat.lt_irrefl, if_false]
  constructor
  · rintro ⟨fuel, h⟩
    rw [hloop] at h
    obtain ⟨ha, k, hk⟩ := loop_emptied fuel 0 0 h
    exact ⟨ha, k, by simpa using hk⟩
  · rintro ⟨rfl, k, hk⟩
    obtain ⟨fuel, h⟩ := loop_expires polls req.timeoutMs k 0 0 (by simpa using hk)
    exact ⟨fuel, by rw [hloop]; exact h⟩

theorem flagged_of_not_spurious {w : PollState} (h : ¬Spurious w req) {fd : Nat}
    (hfd : fd < req.nfds.toNat) : flagged w req.masks fd = exceptReady w req.masks fd := by
  rw [flagged, exceptReady, asked]
  cases hwant : wants req.masks.exceptfds fd with
  | true => rw [isSome_of_wants hwant, Bool.or_true, Bool.and_true]
  | false =>
    rw [Bool.or_false, Bool.false_and]
    by_contra hne
    have hall := eq_true_of_ne_false hne
    rw [Bool.and_eq_true, Bool.and_eq_true] at hall
    exact h ⟨hall.2, fd, hfd, hall.1.2, hall.1.1, hwant⟩

theorem counted_of_not_spurious {w : PollState} (h : ¬Spurious w req) {fd : Nat}
    (hfd : fd < req.nfds.toNat) : counted w req.masks fd = isReady w req.masks fd := by
  rw [counted, isReady, flagged_of_not_spurious h hfd]

theorem pass_readyAnswer {w : PollState} (h : ¬Spurious w req) :
    (((selectPass w req.masks req.nfds.toNat).ready : Int),
      req.masks.store (selectPass w req.masks req.nfds.toNat)) =
      readyAnswer w req.masks req.nfds.toNat := by
  have hflag : maskOf (flagged w req.masks) req.nfds.toNat =
      maskOf (exceptReady w req.masks) req.nfds.toNat :=
    maskOf_congr fun fd hfd => flagged_of_not_spurious h hfd
  have hcount : (List.range req.nfds.toNat).countP (counted w req.masks) =
      (List.range req.nfds.toNat).countP (isReady w req.masks) :=
    List.countP_congr fun fd hfd => by
      rw [counted_of_not_spurious h (List.mem_range.mp hfd)]
  rw [selectPass_eq, readyAnswer, hcount, Masks.store, hflag]

theorem someReady_iff {w : PollState} (h : ¬Spurious w req) :
    SomeReady w req ↔ 0 < (selectPass w req.masks req.nfds.toNat).ready := by
  rw [Nat.pos_iff_ne_zero, Ne, ready_zero_iff]
  constructor
  · rintro ⟨fd, hfd, hr⟩ hidle
    have := hidle fd hfd
    rw [counted_of_not_spurious h hfd, hr] at this
    cases this
  · intro hidle
    by_contra hnone
    refine hidle fun fd hfd => ?_
    rw [counted_of_not_spurious h hfd]
    by_contra hr
    exact hnone ⟨fd, hfd, by simpa using hr⟩

theorem InTime.mono {n j : Nat} (h : InTime req n) (hj : j ≤ n) : InTime req j := by
  rcases h with rfl | h | h
  · exact Or.inl (Nat.le_zero.mp hj)
  · exact Or.inr (Or.inl h)
  · exact Or.inr (Or.inr (by omega))

theorem readyAnswer_pos {w : PollState} (h : SomeReady w req) :
    0 < (readyAnswer w req.masks req.nfds.toNat).1 := by
  obtain ⟨fd, hfd, hr⟩ := h
  have hpos := List.countP_pos_iff.mpr ⟨fd, List.mem_range.mpr hfd, hr⟩
  exact Int.natCast_pos.mpr hpos

theorem Reports.wanted (h : Reports polls req a) {fd word : Nat}
    (hword : a.2.exceptfds = some word) (hbit : word.testBit fd = true) :
    wants req.masks.exceptfds fd = true := by
  cases h with
  | ready n hin hnow hfirst =>
    obtain ⟨v, -, rfl⟩ := Option.map_eq_some_iff.mp hword
    rw [testBit_maskOf, Bool.and_eq_true, exceptReady, Bool.and_eq_true] at hbit
    exact hbit.2.1
  | timeout hend hnone =>
    obtain ⟨v, -, rfl⟩ := Option.map_eq_some_iff.mp hword
    rw [Nat.zero_testBit] at hbit
    cases hbit

theorem not_spurious (hn : 0 ≤ req.nfds) (hmax : req.nfds ≤ fdMax) (h : SelectLaw polls req) :
    ¬Spurious (polls 0) req := by
  rintro ⟨hsome, fd, hfd, hinv, hask, hwant⟩
  obtain ⟨word, hword⟩ := Option.isSome_iff_exists.mp hsome
  have hflag : flagged (polls 0) req.masks fd = true := by
    rw [flagged, asked, hask, hinv, hsome]
    rfl
  have hready : 0 < (selectPass (polls 0) req.masks req.nfds.toNat).ready := by
    rw [Nat.pos_iff_ne_zero, Ne, ready_zero_iff]
    intro hidle
    have := hidle fd hfd
    rw [counted, hflag, Bool.or_true] at this
    cases this
  have hreports := (h _).mp ((returns_at_once hn hmax hready).mpr rfl)
  have hbit : (maskOf (flagged (polls 0) req.masks) req.nfds.toNat).testBit fd = true := by
    rw [testBit_maskOf, hflag, Bool.and_true]
    exact decide_eq_true hfd
  have hstored : (req.masks.store (selectPass (polls 0) req.masks req.nfds.toNat)).exceptfds =
      some (maskOf (flagged (polls 0) req.masks) req.nfds.toNat) := by
    simp [Masks.store, selectPass_eq, hword]
  have hset := hreports.wanted hstored hbit
  rw [hwant] at hset
  cases hset

theorem select_law_iff (polls : Nat → PollState) (req : SelectReq) (hn : 0 ≤ req.nfds)
    (hmax : req.nfds ≤ fdMax) (hmin : -2 ^ 31 ≤ req.timeoutMs) (hlim : req.timeoutMs < 2 ^ 31) :
    SelectLaw polls req ↔ ¬Spurious (polls 0) req ∧
      (SomeReady (polls 0) req ∨
        (∀ n, InTime req n → ¬SomeReady (polls n) req) ∧ req.timeoutMs ≠ 2 ^ 31 - 1) := by
  constructor
  · intro hlaw
    have hplain := not_spurious hn hmax hlaw
    refine ⟨hplain, ?_⟩
    by_cases hnow : SomeReady (polls 0) req
    · exact Or.inl hnow
    · right
      have hidle : (selectPass (polls 0) req.masks req.nfds.toNat).ready = 0 := by
        have := (someReady_iff hplain).not.mp hnow
        omega
      have hnone (n : Nat) (hin : InTime req n) : ¬SomeReady (polls n) req := by
        classical
        intro hlate
        have hex : ∃ n, SomeReady (polls n) req := ⟨n, hlate⟩
        have hrep : Reports polls req (readyAnswer (polls (Nat.find hex)) req.masks req.nfds.toNat) :=
          .ready (Nat.find hex) (hin.mono (Nat.find_min' hex hlate)) (Nat.find_spec hex) fun j hj => Nat.find_min hex hj
        have hret := (returns_late hn hmax hidle).mp ((hlaw _).mpr hrep)
        have hpos := readyAnswer_pos (Nat.find_spec hex)
        rw [hret.1] at hpos
        exact absurd hpos (Int.lt_irrefl 0)
      refine ⟨hnone, fun hforever => ?_⟩
      have hrep : Reports polls req (0, emptied req.masks) := .timeout (by omega) hnone
      have hret := (returns_late hn hmax hidle).mp ((hlaw _).mpr hrep)
      exact ((expires_iff hmin hlim).mp hret.2).2 hforever
  · rintro ⟨hplain, hnow | ⟨hnone, hfinite⟩⟩ a
    · have hready := (someReady_iff hplain).mp hnow
      rw [returns_at_once hn hmax hready, pass_readyAnswer hplain]
      constructor
      · rintro rfl
        exact .ready 0 (Or.inl rfl) hnow fun j hj => absurd hj (Nat.not_lt_zero j)
      · intro hrep
        cases hrep with
        | ready n hin hn' hfirst =>
          cases n with
          | zero => rfl
          | succ n => exact absurd hnow (hfirst 0 (Nat.succ_pos n))
        | timeout hend hnone => exact absurd hnow (hnone 0 (Or.inl rfl))
    · have hidle : (selectPass (polls 0) req.masks req.nfds.toNat).ready = 0 := by
        have := (someReady_iff hplain).not.mp (hnone 0 (Or.inl rfl))
        omega
      rw [returns_late hn hmax hidle, expires_iff hmin hlim]
      constructor
      · rintro ⟨rfl, hend, -⟩
        exact .timeout hend hnone
      · intro hrep
        cases hrep with
        | ready n hin hn' hfirst => exact absurd hn' (hnone n hin)
        | timeout hend _ => exact ⟨rfl, hend, hfinite⟩

def fillingFifo (n : Nat) : PollState where
  fds := fun _ => pathFd [47, 102] 0
  qLen := fun _ => 0
  vfsGetInfo := fun _ => some ⟨.fifo, n⟩

def askedForReading (timeoutMs : Int) : SelectReq := ⟨1, ⟨some 1, none, none⟩, timeoutMs⟩

theorem select_law_full_fifo :
    SelectLaw (fun n => fillingFifo (n + 1)) (askedForReading 20) := by
  refine (select_law_iff _ (askedForReading 20) (by decide) (by decide) (by decide) (by decide)).mpr
    ⟨?_, Or.inl ⟨0, by decide, by decide⟩⟩
  rintro ⟨hsome, -⟩
  exact absurd hsome (by decide)

-- the fifo gets its first byte before the second round: the empty first round hides it
theorem select_misses_the_first_byte : ¬SelectLaw fillingFifo (askedForReading 20) := by
  intro hlaw
  have hidle : (selectPass (fillingFifo 0) (askedForReading 20).masks 1).ready = 0 := by decide
  have hrep : Reports fillingFifo (askedForReading 20)
      (readyAnswer (fillingFifo 1) (askedForReading 20).masks (askedForReading 20).nfds.toNat) := by
    refine .ready 1 (Or.inr (Or.inr (by decide))) ⟨0, by decide, by decide⟩ fun j hj => ?_
    obtain rfl : j = 0 := by omega
    rintro ⟨fd, hfd, hready⟩
    obtain rfl : fd = 0 := by
      have hone : (askedForReading 20).nfds.toNat = 1 := rfl
      omega
    exact absurd hready (by decide)
  have hret := (returns_late (by decide) (by decide) hidle).mp ((hlaw _).mpr hrep)
  exact absurd (congrArg Prod.fst hret.1) (by decide)

end Main

end HouseOS.Syscall
