import HouseOS.Syscall.Stdio
import HouseOS.Udp.Fifo

namespace HouseOS.Syscall

open HouseOS.Ownership
open HouseOS.Sched (Kernel newSlot Sound created_of_taskCreate)
open HouseOS.Udp (Sockets outside udpMaxSockets zeroed recvfrom_used sameQueues_bindSocket
  sameQueues_setsockopt sendto_sends setSocket_ne setSocket_self)
open HouseOS.Vfs (Path)

def sockOf (e : FdEntry) : Option Int := if e.used = true ∧ e.kind = .udp then some e.sockId else none

def udpAt (t : FdTable) (fd : Nat) : Option Int := if fd < fdMax then sockOf (t fd) else none

def InUse (u : Sockets) (sid : Int) : Prop :=
  0 ≤ sid ∧ sid < udpMaxSockets ∧ (u.sockets sid.toNat).used = true

section Tables

variable {t : FdTable} {e : FdEntry} {fd lo i : Nat} {path : Path} {flags : Nat}

theorem sockOf_unused (h : e.used = false) : sockOf e = none := by simp [sockOf, h]

theorem sockOf_vfs (h : e.kind = .vfs) : sockOf e = none := by simp [sockOf, h]

theorem sockOf_some {x : Int} (h : sockOf e = some x) :
    e.used = true ∧ e.kind = .udp ∧ e.sockId = x := by
  rw [sockOf] at h
  split at h
  · rename_i hudp
    exact ⟨hudp.1, hudp.2, Option.some.inj h⟩
  · cases h

theorem udpAt_set (h : fd < fdMax → sockOf e = sockOf (t fd)) (i : Nat) :
    udpAt (t.set fd e) i = udpAt t i := by
  rw [udpAt, udpAt]
  split
  · rename_i hi
    by_cases heq : i = fd
    · rw [FdTable.set, if_pos heq, h (heq ▸ hi), heq]
    · rw [FdTable.set, if_neg heq]
  · rfl

theorem udpAt_autoUnlink (t : FdTable) (fd i : Nat) :
    udpAt (t.set fd { t fd with pipeAutoUnlink := true }) i = udpAt t i :=
  udpAt_set (e := { t fd with pipeAutoUnlink := true }) (fun _ => rfl) i

theorem firstUnused_some (h : t.firstUnused lo = some i) :
    lo ≤ i ∧ i < fdMax ∧ (t i).used = false := by
  have hi := List.find?_some h
  obtain ⟨hlo, hhi⟩ := List.mem_range'_1.mp (List.mem_of_find?_eq_some h)
  exact ⟨hlo, by omega, by simpa using hi⟩

theorem fdAlloc_some {fd : Nat} {t' : FdTable} (h : t.fdAlloc path flags = some (fd, t')) :
    t' = t.set fd (pathFd path flags) ∧ (t fd).used = false := by
  obtain ⟨i, hi, heq⟩ := Option.map_eq_some_iff.mp h
  cases heq
  exact ⟨rfl, (firstUnused_some hi).2.2⟩

theorem udpAt_fdAlloc {fd : Nat} {t' : FdTable} (h : t.fdAlloc path flags = some (fd, t')) (i : Nat) :
    udpAt t' i = udpAt t i := by
  obtain ⟨rfl, hfree⟩ := fdAlloc_some h
  exact udpAt_set (fun _ => (sockOf_vfs rfl).trans (sockOf_unused hfree).symm) i

theorem udpAt_fdTableInit {done : Bool} (h : done = false → ∀ i, udpAt t i = none) (i : Nat) :
    udpAt (fdTableInit t done path) i = udpAt t i := by
  cases done with
  | true => rfl
  | false =>
    rw [h rfl, udpAt]
    split
    · show sockOf (if i < 3 then pathFd path 0 else zeroFd) = none
      split
      · rfl
      · rfl
    · rfl

theorem udpAt_bindStdio (h : ∀ i < 3, udpAt t i = none) (i : Nat) :
    udpAt (t.bindStdio path) i = udpAt t i := by
  by_cases hi : i < 3
  · rw [h i hi, udpAt, FdTable.bindStdio, if_pos hi]
    split
    · rfl
    · rfl
  · rw [udpAt, udpAt, FdTable.bindStdio, if_neg hi]

end Tables

namespace System

variable {Disk : Type} {o : FifoCalls Disk} {s s' t : System Disk}

def sockOwner (s : System Disk) : Nat × Nat → Option Int
  | (j, fd) => udpAt (s.taskFds j) fd

-- each open socket has one descriptor, which a task that runs user code holds
structure SocketsHold (s : System Disk) : Prop where
  sound : Sound s.kernel
  owned : Owned s.sockOwner (InUse s.udp)
  tight : Tight s.sockOwner (InUse s.udp)
  holder : ∀ j fd x, s.sockOwner (j, fd) = some x → 3 ≤ fd ∧ j < s.kernel.taskCount ∧
    (s.task j).state ≠ .terminated ∧ s.stage j = .user ∧ s.taskFdInit j = true

theorem SocketsHold.live (h : s.SocketsHold) : (s.task s.slot).state ≠ .terminated := by
  have hrun : (s.task s.slot).state = .running := h.sound.running
  rw [hrun]
  decide

theorem SocketsHold.none_of {j : Nat} (h : s.SocketsHold)
    (hj : s.stage j ≠ .user ∨ (s.task j).state = .terminated ∨ s.kernel.taskCount ≤ j ∨
      s.taskFdInit j = false) (fd : Nat) : s.sockOwner (j, fd) = none := by
  by_contra hne
  obtain ⟨x, hx⟩ := Option.ne_none_iff_exists'.mp hne
  obtain ⟨-, hlt, hlive, huser, hinit⟩ := h.holder j fd x hx
  rcases hj with hj | hj | hj | hj
  · exact hj huser
  · exact hlive hj
  · omega
  · rw [hinit] at hj
    cases hj

section Frame

theorem SocketsHold.congr (h : s.SocketsHold) (hsound : Sound s'.kernel)
    (howner : ∀ a, s'.sockOwner a = s.sockOwner a)
    (hudp : ∀ j, (s'.udp.sockets j).used = (s.udp.sockets j).used)
    (hholder : ∀ j, j < s.kernel.taskCount → (s.task j).state ≠ .terminated → s.stage j = .user →
      s.taskFdInit j = true → (∃ fd x, s.sockOwner (j, fd) = some x) →
        j < s'.kernel.taskCount ∧ (s'.task j).state ≠ .terminated ∧ s'.stage j = .user ∧
          s'.taskFdInit j = true) : s'.SocketsHold where
  sound := hsound
  owned := h.owned.congr howner fun x => by rw [InUse, InUse, hudp]
  tight := h.tight.congr howner fun x => by rw [InUse, InUse, hudp]
  holder j fd x hx := by
    rw [howner] at hx
    obtain ⟨h3, hlt, hlive, huser, hinit⟩ := h.holder j fd x hx
    exact ⟨h3, hholder j hlt hlive huser hinit ⟨fd, x, hx⟩⟩

theorem SocketsHold.same (h : s.SocketsHold) (hsound : Sound s'.kernel)
    (hcount : s'.kernel.taskCount = s.kernel.taskCount)
    (hstate : ∀ j, (s'.task j).state = .terminated ↔ (s.task j).state = .terminated)
    (hfds : s'.taskFds = s.taskFds) (hinit : s'.taskFdInit = s.taskFdInit) (hudp : s'.udp = s.udp)
    (hstage : ∀ j, s.stage j = .user → s'.stage j = .user) : s'.SocketsHold := by
  refine h.congr hsound (fun a => by rw [sockOwner, sockOwner, hfds]) (fun j => by rw [hudp]) ?_
  intro j hlt hlive huser hi _
  exact ⟨hcount ▸ hlt, fun hd => hlive ((hstate j).mp hd), hstage j huser, hinit ▸ hi⟩

theorem SocketsHold.io (h : s.SocketsHold) (hio : IoOnly s s')
    (hfds : ∀ fd, udpAt s'.fds fd = udpAt s.fds fd)
    (hudp : ∀ j, (s'.udp.sockets j).used = (s.udp.sockets j).used) : s'.SocketsHold := by
  have howner : ∀ a, s'.sockOwner a = s.sockOwner a := by
    rintro ⟨j, fd⟩
    by_cases hj : j = s.slot
    · rw [hj]
      have hslot := hfds fd
      rwa [System.fds, hio.slot] at hslot
    · rw [sockOwner, sockOwner, hio.fds j hj]
  refine h.congr (hio.kernel ▸ h.sound) howner hudp fun j hlt hlive huser hinit _ => ?_
  refine ⟨hio.kernel ▸ hlt, ?_, ?_, ?_⟩
  · show (s'.kernel.tasks j).state ≠ _
    rw [hio.kernel]
    exact hlive
  · rw [hio.stage, huser]
  · by_cases hj : j = s.slot
    · rw [hj] at hinit ⊢
      exact hio.inited hinit
    · rw [hio.init j hj, hinit]

theorem fds_setFds (s : System Disk) (t : FdTable) : (s.setFds t).fds = t := Function.update_self ..

theorem SocketsHold.setFds {t : FdTable} (h : s.SocketsHold)
    (ht : ∀ fd, udpAt t fd = udpAt s.fds fd) : (s.setFds t).SocketsHold :=
  h.io (ioOnly_setFds s t) (fun fd => by rw [fds_setFds, ht]) fun _ => rfl

theorem SocketsHold.setFd {fd : Nat} {e : FdEntry} (h : s.SocketsHold)
    (he : fd < fdMax → sockOf e = sockOf (s.fds fd)) : (s.setFd fd e).SocketsHold :=
  h.setFds (udpAt_set he)

theorem SocketsHold.ghosts (h : s.SocketsHold) (seq : Nat) (d : Disk) (m : Nat → Nat → Nat)
    (n : Nat) (ps : List Path) :
    SocketsHold { s with pipeSeq := seq, disk := d, stamp := m, socketCalls := n, pipes := ps } :=
  ⟨h.sound, h.owned, h.tight, h.holder⟩

end Frame

section Calls

theorem socketFree_used {u : Sockets} {sid : Int} (h : InUse u sid) (x : Int) :
    InUse (u.socketFree sid) x ↔ InUse u x ∧ x ≠ sid := by
  obtain ⟨h0, hmax, -⟩ := h
  have hin : ¬outside sid := by
    unfold outside
    omega
  have hfree : u.socketFree sid = u.setSocket sid.toNat zeroed := if_neg hin
  rw [hfree]
  by_cases hx : x = sid
  · subst hx
    refine iff_of_false ?_ fun hx => hx.2 rfl
    rintro ⟨-, -, hused⟩
    rw [setSocket_self] at hused
    cases hused
  · rw [and_iff_left hx, InUse, InUse]
    refine and_congr_right fun hx0 => and_congr_right fun _ => ?_
    rw [setSocket_ne (by omega)]

theorem SocketsHold.release {fd : Nat} (h : s.SocketsHold) (hfd : fd < fdMax)
    (hused : (s.fds fd).used = true) : ((s.freeUdp (s.fds fd)).setFd fd closedFd).SocketsHold := by
  have howner : s.sockOwner (s.slot, fd) = sockOf (s.fds fd) := if_pos hfd
  by_cases hkind : (s.fds fd).kind = .udp
  · have hsock : sockOf (s.fds fd) = some (s.fds fd).sockId := if_pos ⟨hused, hkind⟩
    have hin : InUse s.udp (s.fds fd).sockId :=
      h.owned.covered (s.slot, fd) _ (howner.trans hsock)
    have hfree : s.freeUdp (s.fds fd) = { s with udp := s.udp.socketFree (s.fds fd).sockId } :=
      if_pos ⟨hkind, hin.1⟩
    rw [hfree]
    generalize hs' : System.setFd { s with udp := s.udp.socketFree (s.fds fd).sockId } fd closedFd =
      s'
    have hslot : s'.sockOwner (s.slot, fd) = none := by
      subst hs'
      show udpAt (Function.update s.taskFds s.slot _ s.slot) fd = none
      rw [Function.update_self, udpAt, if_pos hfd, FdTable.set, if_pos rfl]
      rfl
    have hothers : ∀ a, a ≠ (s.slot, fd) → s'.sockOwner a = s.sockOwner a := by
      subst hs'
      rintro ⟨j, i⟩ ha
      show udpAt (Function.update s.taskFds s.slot (s.fds.set fd closedFd) j) i =
        udpAt (s.taskFds j) i
      by_cases hj : j = s.slot
      · subst hj
        have hi : i ≠ fd := fun hi => ha (by rw [hi])
        rw [Function.update_self, udpAt, udpAt, FdTable.set, if_neg hi]
        rfl
      · rw [Function.update_of_ne hj]
    have hless : ∀ x, InUse s'.udp x ↔ InUse s.udp x ∧ x ≠ (s.fds fd).sockId := by
      subst hs'
      exact socketFree_used hin
    have hmine : s.sockOwner (s.slot, fd) = some (s.fds fd).sockId := howner.trans hsock
    refine ⟨?_, ?_, ?_, ?_⟩
    · subst hs'
      exact h.sound
    · refine h.owned.release hslot hothers fun x hx hne => (hless x).mpr ⟨hx, fun heq => hne ?_⟩
      rw [hmine, heq]
    · refine h.tight.release hothers fun x hx => ⟨((hless x).mp hx).1, fun heq => ?_⟩
      rw [hmine] at heq
      exact ((hless x).mp hx).2 (Option.some.inj heq).symm
    · intro j i x hx
      have hne : (j, i) ≠ (s.slot, fd) := by
        intro heq
        rw [heq, hslot] at hx
        cases hx
      rw [hothers _ hne] at hx
      subst hs'
      exact h.holder j i x hx
  · have hfree : s.freeUdp (s.fds fd) = s := if_neg fun hudp => hkind hudp.1
    rw [hfree]
    refine h.setFd fun _ => ?_
    rw [sockOf_unused rfl, sockOf, if_neg fun hudp => hkind hudp.2]

theorem unlinkLast_disk (s : System Disk) (fd : Nat) :
    ∃ d, s.unlinkLast o fd = { s with disk := d } := by
  unfold unlinkLast
  dsimp only
  split
  · exact ⟨_, rfl⟩
  · exact ⟨s.disk, rfl⟩

theorem SocketsHold.dropFd {fd : Nat} (h : s.SocketsHold) (hfd : fd < fdMax)
    (hused : (s.fds fd).used = true) : (s.dropFd o fd).SocketsHold := by
  obtain ⟨d, hd⟩ := unlinkLast_disk (o := o) (s.freeUdp (s.fds fd)) fd
  rw [System.dropFd, hd]
  exact (h.release hfd hused).ghosts _ d _ _ _

theorem SocketsHold.sysClose {fd : Nat} (h : s.SocketsHold) : (s.sysClose o fd).2.SocketsHold := by
  unfold System.sysClose
  split
  · exact h
  · rename_i hopen
    rw [not_or, Bool.not_eq_false] at hopen
    exact h.dropFd (by omega) hopen.2

theorem SocketsHold.closeCloexecFds (h : s.SocketsHold) : (s.closeCloexecFds o).SocketsHold := by
  unfold System.closeCloexecFds
  have hin : ∀ fd ∈ List.range' 3 (fdMax - 3), fd < fdMax := by decide
  generalize List.range' 3 (fdMax - 3) = fds at hin
  induction fds generalizing s with
  | nil => exact h
  | cons fd fds ih =>
    rw [List.foldl_cons]
    refine ih ?_ fun i hi => hin i (List.mem_cons_of_mem fd hi)
    unfold dropCloexec
    split
    · rename_i hclo
      rw [isCloexec, Bool.and_eq_true] at hclo
      exact h.dropFd (hin fd List.mem_cons_self) hclo.1
    · exact h

theorem SocketsHold.overwriteFd {dst : Nat} (h : s.SocketsHold) (hdst : dst < fdMax) :
    (s.overwriteFd dst).SocketsHold ∧ ((s.overwriteFd dst).fds dst).used = false ∧
      ∀ i, i ≠ dst → (s.overwriteFd dst).fds i = s.fds i := by
  unfold System.overwriteFd
  split
  · rename_i hused
    have hslot : (s.freeUdp (s.fds dst)).fds = s.fds := by
      unfold freeUdp
      split
      · rfl
      · rfl
    refine ⟨h.release hdst hused, ?_, fun i hi => ?_⟩
    · rw [System.setFd, fds_setFds, FdTable.set, if_pos rfl]
      rfl
    · rw [System.setFd, fds_setFds, FdTable.set, if_neg hi, hslot]
  · rename_i hused
    exact ⟨h, by simpa using hused, fun _ _ => rfl⟩

theorem SocketsHold.fdDupFromTo {oldfd newfd : Nat} {fixed : Bool} (h : s.SocketsHold) :
    (s.fdDupFromTo oldfd newfd fixed).2.SocketsHold := by
  have hdup : ∀ {e : FdEntry}, e.kind ≠ .udp → sockOf (dupEntry e) = none := by
    intro e he
    refine sockOf_vfs ?_
    cases hk : e.kind with
    | vfs => exact hk
    | udp => exact absurd hk he
  unfold System.fdDupFromTo
  split
  · exact h
  split
  · exact h
  rename_i hkind
  split
  · split
    · exact h
    · rename_i dst hdst
      refine h.setFd fun _ => ?_
      rw [hdup hkind, sockOf_unused (firstUnused_some hdst).2.2]
  split
  · exact h
  rename_i hnew
  split
  · exact h
  rename_i hne
  obtain ⟨hover, hfree, hsame⟩ := h.overwriteFd (show newfd < fdMax by omega)
  refine hover.setFd fun _ => ?_
  rw [hsame oldfd (fun heq => hne heq.symm), hdup hkind, sockOf_unused hfree]

theorem SocketsHold.sysFcntl {fd : Nat} {cmd : Int} {arg : Nat} (h : s.SocketsHold) :
    (s.sysFcntl fd cmd arg).2.SocketsHold := by
  unfold System.sysFcntl
  dsimp only
  split
  · exact h
  split
  · exact h
  split
  · exact h.setFd fun _ => rfl
  split
  · exact h
  split
  · exact h.setFd fun _ => rfl
  split
  · split
    · exact h
    · exact h.fdDupFromTo
  · exact h

theorem SocketsHold.openPath {path : Path} {flags : Nat} (h : s.SocketsHold) :
    (s.openPath o path flags).2.SocketsHold := by
  unfold System.openPath
  dsimp only
  split
  · exact h.ghosts _ _ _ _ _
  split
  · split
    · exact h.ghosts _ _ _ _ _
    · exact h.ghosts _ _ _ _ _
  · exact h.ghosts _ _ _ _ _

theorem SocketsHold.sysOpen {path : Path} {flags : Nat} (h : s.SocketsHold) :
    (s.sysOpen o path flags).2.SocketsHold := by
  unfold System.sysOpen
  split
  · exact h
  have hopen : (s.openPath o path flags).2.SocketsHold := h.openPath
  dsimp only
  split
  · exact hopen
  split
  · exact hopen
  · rename_i fd t hfd
    exact hopen.setFds (udpAt_fdAlloc hfd)

theorem SocketsHold.pipeFds {path : Path} (h : s.SocketsHold) :
    (s.pipeFds o path).2.SocketsHold := by
  unfold System.pipeFds
  split
  · exact h.ghosts _ _ _ _ _
  rename_i fdr t hr
  have ht := udpAt_fdAlloc hr
  obtain ⟨rfl, hfree⟩ := fdAlloc_some hr
  split
  · refine SocketsHold.ghosts (s := s.setFds _) (h.setFds fun fd => ?_) _ _ _ _ _
    rw [udpAt_set (fun _ => ?_), ht]
    rw [FdTable.set, if_pos rfl]
    rfl
  · rename_i fdw t' hw
    refine SocketsHold.ghosts (s := s.setFds _) (h.setFds fun fd => ?_) _ _ _ _ _
    refine (udpAt_autoUnlink _ fdw fd).trans ((udpAt_autoUnlink t' fdr fd).trans ?_)
    rw [udpAt_fdAlloc hw, ht]

theorem SocketsHold.sysPipe {fdsOut : Nat} (h : s.SocketsHold) :
    (s.sysPipe o fdsOut).2.SocketsHold := by
  unfold System.sysPipe
  split
  · exact h
  generalize 32 = tries
  induction tries generalizing s with
  | zero => exact h
  | succ tries ih =>
    have htry : (s.pipeTry o).2.SocketsHold := h.ghosts _ _ _ _ _
    unfold pipeLoop
    split
    · rename_i s' heq
      rw [heq] at htry
      exact htry.pipeFds
    · rename_i s' heq
      rw [heq] at htry
      exact ih htry

theorem socketAlloc_some {u u' : Sockets} {sid : Int} (h : u.socketAlloc = (sid, u'))
    (hsid : ¬sid < 0) :
    ¬InUse u sid ∧ InUse u' sid ∧ (∀ x, InUse u' x ↔ InUse u x ∨ x = sid) ∧
      ∀ j, ((u'.socketFree sid).sockets j).used = (u.sockets j).used := by
  unfold Sockets.socketAlloc at h
  split at h
  · cases h
    exact absurd (by decide) hsid
  rename_i i hi
  cases h
  have hlt := List.mem_range.mp (List.mem_of_find?_eq_some hi)
  have hfree : (u.sockets i).used = false := by simpa using List.find?_some hi
  have hnot : ¬InUse u i := by
    rintro ⟨-, -, hused⟩
    rw [Int.toNat_natCast, hfree] at hused
    cases hused
  have hnew : InUse (u.setSocket i { zeroed with used := true }) i := by
    refine ⟨Int.natCast_nonneg i, by exact_mod_cast hlt, ?_⟩
    rw [Int.toNat_natCast, setSocket_self]
  refine ⟨hnot, hnew, fun x => ?_, fun j => ?_⟩
  · by_cases hx : x = i
    · subst hx
      exact iff_of_true hnew (Or.inr rfl)
    · rw [or_iff_left hx, InUse, InUse]
      refine and_congr_right fun hx0 => and_congr_right fun _ => ?_
      rw [setSocket_ne (by omega)]
  · have hin : ¬outside (i : Int) := by
      unfold outside
      omega
    rw [Sockets.socketFree, if_neg hin, Int.toNat_natCast]
    by_cases hj : j = i
    · rw [hj, setSocket_self, hfree]
      rfl
    · rw [setSocket_ne hj, setSocket_ne hj]

theorem SocketsHold.acquire {u : Sockets} {sid : Int} {fd n : Nat} {m : Nat → Nat → Nat}
    {t : FdTable} (h : s.SocketsHold) (huser : s.stage s.slot = .user)
    (hinit : s.taskFdInit s.slot = true) (halloc : s.udp.socketAlloc = (sid, u)) (hsid : ¬sid < 0)
    (hfd : s.fds.fdAllocUdp sid = some (fd, t)) :
    SocketsHold { s.setFds t with udp := u, socketCalls := n, stamp := m } := by
  obtain ⟨i, hi, heq⟩ := Option.map_eq_some_iff.mp hfd
  cases heq
  obtain ⟨h3, hlt, hunused⟩ := firstUnused_some hi
  obtain ⟨hnot, hnew, hmore, -⟩ := socketAlloc_some halloc hsid
  generalize hs' : ({ s.setFds (s.fds.set fd (udpFd sid)) with
    udp := u, socketCalls := n, stamp := m } : System Disk) = s'
  have hmine : s'.sockOwner (s.slot, fd) = some sid := by
    subst hs'
    show udpAt (Function.update s.taskFds s.slot _ s.slot) fd = _
    rw [Function.update_self, udpAt, if_pos hlt, FdTable.set, if_pos rfl]
    rfl
  have hnone : s.sockOwner (s.slot, fd) = none := by
    show udpAt s.fds fd = none
    rw [udpAt, if_pos hlt, sockOf_unused hunused]
  have hothers : ∀ a, a ≠ (s.slot, fd) → s'.sockOwner a = s.sockOwner a := by
    subst hs'
    rintro ⟨j, i⟩ ha
    show udpAt (Function.update s.taskFds s.slot (s.fds.set fd (udpFd sid)) j) i =
      udpAt (s.taskFds j) i
    by_cases hj : j = s.slot
    · subst hj
      have hi : i ≠ fd := fun hi => ha (by rw [hi])
      rw [Function.update_self, udpAt, udpAt, FdTable.set, if_neg hi]
      rfl
    · rw [Function.update_of_ne hj]
  have hudp : s'.udp = u := by rw [← hs']
  refine ⟨?_, ?_, ?_, ?_⟩
  · subst hs'
    exact h.sound
  · rw [hudp]
    exact h.owned.acquire hnot hmine hothers (fun x hx => (hmore x).mpr (Or.inl hx)) hnew
  · rw [hudp]
    exact h.tight.acquire hnone hmine hothers fun x hx => (hmore x).mp hx
  · intro j i x hx
    by_cases ha : (j, i) = (s.slot, fd)
    · cases ha
      subst hs'
      exact ⟨h3, h.sound.cur, h.live, huser, hinit⟩
    · rw [hothers _ ha] at hx
      subst hs'
      exact h.holder j i x hx

theorem SocketsHold.udpUsed {u : Sockets} (h : s.SocketsHold)
    (hu : ∀ j, (u.sockets j).used = (s.udp.sockets j).used) : SocketsHold { s with udp := u } :=
  h.io (ioOnly_udp s u) (fun _ => rfl) hu

theorem SocketsHold.sysSocket {domain type protocol : Nat} (h : s.SocketsHold)
    (huser : s.stage s.slot = .user) (hinit : s.taskFdInit s.slot = true) :
    (s.sysSocket domain type protocol).2.SocketsHold := by
  unfold System.sysSocket
  split
  · exact h
  rcases halloc : s.udp.socketAlloc with ⟨sid, u⟩
  dsimp only
  split
  · exact h
  rename_i hsid
  split
  · exact h.udpUsed (socketAlloc_some halloc hsid).2.2.2
  · rename_i fd t hfd
    exact h.acquire huser hinit halloc hsid hfd

theorem SocketsHold.schedStep {e : Sched.Event} (h : s.SocketsHold)
    (hne : ∀ stack, e ≠ .create stack)
    (hspare : ∀ j, Sched.diesBy s.kernel e = some j → ∀ fd, s.sockOwner (j, fd) = none)
    (hs : s.schedStep e = some s') : s'.SocketsHold := by
  obtain ⟨k, hk, rfl⟩ := Option.map_eq_some_iff.mp hs
  have hsound := Sched.sound_step h.sound (Sched.sparesZombies_of_ne hne) hk
  refine h.congr hsound (fun _ => rfl) (fun _ => rfl) ?_
  rintro j hlt hlive huser hinit ⟨fd, x, hx⟩
  rcases Sched.held_step h.sound hne hk with ⟨-, hheld⟩ | ⟨i, -, hi, hdead, rfl⟩
  · refine ⟨hheld.count ▸ hlt, fun hd => ?_, huser, hinit⟩
    rcases (hheld.dead j).mp hd with hd | hd
    · exact hlive hd
    · rw [hspare j hd fd] at hx
      cases hx
  · have hji : j ≠ i := by
      rintro rfl
      exact hlive hdead
    refine ⟨?_, fun hd => hlive (((Sched.cleared_reap s.kernel i).dead j hji).mp hd), huser, hinit⟩
    exact (Sched.reapTask_renewed s.kernel i).2.1 ▸ hlt

theorem SocketsHold.fdCurrent (h : s.SocketsHold) : s.fdCurrent.SocketsHold := by
  refine h.io (ioOnly_fdCurrent s) (fun fd => ?_) fun _ => rfl
  show udpAt (Function.update s.taskFds s.slot _ s.slot) fd = _
  rw [Function.update_self]
  exact udpAt_fdTableInit (fun hinit => h.none_of (Or.inr (Or.inr (Or.inr hinit)))) fd

theorem SocketsHold.fdCall {call : FdCall} (h : s.SocketsHold) (huser : s.stage s.slot = .user)
    (hinit : s.taskFdInit s.slot = true) (hs : s.fdCall o call = some s') : s'.SocketsHold := by
  cases call with
  | openFile path flags =>
    cases hs
    exact h.sysOpen
  | close fd =>
    cases hs
    exact h.sysClose
  | dup fd =>
    cases hs
    exact h.fdDupFromTo
  | dup2 oldfd newfd =>
    cases hs
    exact h.fdDupFromTo
  | fcntl fd cmd arg =>
    cases hs
    exact h.sysFcntl
  | pipe fdsOut =>
    cases hs
    exact h.sysPipe
  | socket domain type protocol =>
    cases hs
    exact h.sysSocket huser hinit
  | bind fd addr addrlen =>
    cases hs
    unfold sysBind
    split
    · exact h
    · exact h.udpUsed fun j => (sameQueues_bindSocket _ _ _ _ j).used
  | sendto fd req =>
    cases hs
    unfold sysSendto
    split
    · exact h
    · exact h
    · exact h.udpUsed (sendto_sends _ _ _).used
  | recvfrom fd req waited =>
    unfold System.fdCall at hs
    dsimp only at hs
    split at hs
    · rename_i heq
      cases hs
      unfold sysRecvfrom at heq
      split at heq
      · cases heq
        exact h
      · cases heq
        exact h
      · obtain ⟨⟨a, u⟩, hrecv, heq⟩ := Option.map_eq_some_iff.mp heq
        cases heq
        exact h.udpUsed (recvfrom_used hrecv)
    · refine h.schedStep (e := .sleep 10) (fun _ => nofun) ?_ hs
      rintro j ⟨⟩
  | setsockopt fd req =>
    cases hs
    unfold sysSetsockopt
    split
    · exact h
    · exact h
    · exact h.udpUsed fun j => (sameQueues_setsockopt _ _ _ j).used

end Calls

def HoldsUdp (s : System Disk) (j : Nat) : Prop :=
  ∃ fd < fdMax, (s.taskFds j fd).used = true ∧ (s.taskFds j fd).kind = .udp

def SocketsSpared (s : System Disk) : Event → Prop
  | .spawn _ _ _ _ => s.kernel.nextPid < 2 ^ 31
  | .fork _ _ _ => s.kernel.nextPid < 2 ^ 31 ∧ ¬s.HoldsUdp s.slot
  | .taskKill pid sig => sig = 0 ∨ sig = 2 ∨ sig = 9 ∨ sig = 15 →
      ∀ j, Sched.diesBy s.kernel (.kill pid 0 0) = some j → ¬s.HoldsUdp j
  | .sched e => ∀ j, Sched.diesBy s.kernel e = some j → ¬s.HoldsUdp j
  | _ => True

theorem sockOwner_none {j : Nat} (h : ¬s.HoldsUdp j) (fd : Nat) : s.sockOwner (j, fd) = none := by
  by_contra hne
  obtain ⟨x, hx⟩ := Option.ne_none_iff_exists'.mp hne
  rw [sockOwner, udpAt] at hx
  split at hx
  · rename_i hfd
    obtain ⟨hused, hkind, -⟩ := sockOf_some hx
    exact h ⟨fd, hfd, hused, hkind⟩
  · cases hx

section Tasks

theorem SocketsHold.setStage {j : Nat} {g : Stage} (h : s.SocketsHold) (hj : s.stage j ≠ .user) :
    (s.setStage j g).SocketsHold := by
  refine h.same h.sound rfl (fun _ => Iff.rfl) rfl rfl rfl fun i hi => ?_
  have hij : i ≠ j := by
    rintro rfl
    exact hj hi
  exact (Function.update_of_ne hij _ _).trans hi

theorem SocketsHold.setTask {i : Nat} {t : Sched.Task} (h : s.SocketsHold)
    (hlive : (s.task i).state ≠ .terminated) (hpid : t.pid = (s.task i).pid)
    (hppid : t.ppid = (s.task i).ppid) (hnext : t.next = (s.task i).next)
    (hstate : t.state = (s.task i).state) : (s.setTask i t).SocketsHold := by
  refine h.same (h.sound.setTask hlive hpid hppid hnext hstate) rfl (fun j => ?_) rfl rfl rfl
    fun _ hi => hi
  show ((s.kernel.setTask i t).tasks j).state = _ ↔ (s.kernel.tasks j).state = _
  by_cases hj : j = i
  · rw [hj, Kernel.setTask_tasks_same, hstate]
    exact Iff.rfl
  · rw [Kernel.setTask_tasks_ne s.kernel t hj]

theorem SocketsHold.recordUser {i idx pd : Nat} (h : s.SocketsHold)
    (hlive : (s.task i).state ≠ .terminated) : (s.recordUser i idx pd).SocketsHold :=
  h.setTask hlive rfl rfl rfl rfl

theorem recordUser_state (s : System Disk) (i idx pd : Nat) :
    ((s.recordUser i idx pd).task i).state = (s.task i).state := by
  show ((s.kernel.setTask i _).tasks i).state = _
  rw [Kernel.setTask_tasks_same]

theorem SocketsHold.nameChild {i : Nat} (h : s.SocketsHold)
    (hlive : (s.task i).state ≠ .terminated) : (s.nameChild i).SocketsHold :=
  h.setTask hlive rfl rfl rfl rfl

theorem SocketsHold.takeSlot {idx : Nat} (h : s.SocketsHold) : (s.takeSlot idx).SocketsHold :=
  h.same (h.sound.setUsed _) rfl (fun _ => Iff.rfl) rfl rfl rfl fun _ hi => hi

theorem SocketsHold.freeSlot {idx : Nat} (h : s.SocketsHold) : (s.freeSlot idx).SocketsHold := by
  unfold System.freeSlot Kernel.userSlotFree
  split
  · exact h
  · exact h.same (h.sound.setUsed _) rfl (fun _ => Iff.rfl) rfl rfl rfl fun _ hi => hi

theorem SocketsHold.pages (h : s.SocketsHold) (pages : List Nat) :
    SocketsHold { s with pageDirs := pages } := ⟨h.sound, h.owned, h.tight, h.holder⟩

theorem SocketsHold.create {stack pid : Option Nat} {g : Stage} (h : s.SocketsHold)
    (hpid : s.kernel.nextPid < 2 ^ 31) (hc : s.taskCreate stack g = (pid, s')) :
    s'.SocketsHold := by
  have hsound := sound_taskCreate h.sound hpid stack
  cases pid with
  | none =>
    obtain ⟨k, hk, rfl⟩ := taskCreate_fails hc
    have hheld := Sched.taskCreate_none hk
    rw [hk] at hsound
    refine h.same hsound hheld.count (fun j => ?_) rfl rfl rfl fun _ hi => hi
    exact (hheld.dead j).trans (or_iff_left nofun)
  | some pid =>
    obtain ⟨k, hk, rfl⟩ := taskCreate_some hc
    obtain ⟨-, hcr⟩ := created_of_taskCreate hk
    rw [hk] at hsound
    refine h.congr hsound (fun _ => rfl) (fun _ => rfl) fun j hlt hlive huser hinit _ => ?_
    have hj : j ≠ newSlot s.kernel := by
      rintro rfl
      rcases Sched.newSlot_cases s.kernel with ⟨-, hdead⟩ | heq
      · exact hlive hdead
      · omega
    refine ⟨?_, fun hd => hlive ((hcr.cleared.dead j hj).mp hd), ?_, hinit⟩
    · show j < k.taskCount
      rw [hcr.count]
      omega
    · exact (Function.update_of_ne hj _ _).trans huser

theorem SocketsHold.sysSpawn {req freed : SpawnReq} {mem : Bool} {stack : Option Nat} (h : s.SocketsHold)
    (hpid : s.kernel.nextPid < 2 ^ 31) : (s.sysSpawn req freed mem stack).2.SocketsHold := by
  unfold System.sysSpawn
  rw [if_neg (Nat.not_le_of_lt hpid)]
  split
  · exact h
  split
  · exact h
  split
  · rename_i t hc
    exact h.create hpid hc
  · rename_i pid t hc
    exact h.create hpid hc

theorem SocketsHold.copyFds {j : Nat} (h : s.SocketsHold) (hj : s.stage j ≠ .user)
    (hinit : s.taskFdInit s.slot = true) (hnone : ∀ fd, s.sockOwner (s.slot, fd) = none) :
    (s.copyFds j).SocketsHold := by
  unfold System.copyFds
  rw [if_pos hinit]
  have howner : ∀ a : Nat × Nat,
      udpAt (Function.update s.taskFds j s.fds a.1) a.2 = s.sockOwner a := by
    rintro ⟨i, fd⟩
    by_cases hi : i = j
    · subst hi
      rw [Function.update_self, h.none_of (Or.inl hj)]
      exact hnone fd
    · rw [Function.update_of_ne hi]
      rfl
  refine h.congr h.sound howner (fun _ => rfl) fun i hlt hlive huser hi _ => ?_
  refine ⟨hlt, hlive, huser, ?_⟩
  have hij : i ≠ j := by
    rintro rfl
    exact hj huser
  exact (Function.update_of_ne hij _ _).trans hi

theorem SocketsHold.forkUndo {idx pd : Nat} (h : s.SocketsHold) :
    (s.forkUndo idx pd).SocketsHold := by
  unfold System.forkUndo mmUserCr3Destroy
  split
  · exact h.freeSlot
  · exact (h.pages _).freeSlot

theorem SocketsHold.forkTask {idx pd : Nat} {stack : Option Nat} (h : s.SocketsHold)
    (hpid : s.kernel.nextPid < 2 ^ 31) (hinit : s.taskFdInit s.slot = true)
    (hnone : ∀ fd, s.sockOwner (s.slot, fd) = none) :
    (s.forkTask idx pd stack).2.SocketsHold := by
  unfold System.forkTask
  split
  · rename_i t hc
    exact (h.create hpid hc).forkUndo
  · rename_i pid t hc
    have ht := h.create hpid hc
    obtain ⟨k, hk, rfl⟩ := taskCreate_some hc
    obtain ⟨hpidEq, hcr⟩ := created_of_taskCreate hk
    have hlt : newSlot s.kernel < k.taskCount := by
      rw [hcr.count]
      omega
    have hpos : s.kernel.nextPid ≠ 0 := by
      have := h.sound.pidBelow _ h.sound.cur
      omega
    have hfind : k.taskFindByPid pid = some (newSlot s.kernel) := by
      rw [hpidEq]
      exact Sched.taskFindByPid_of_unique ht.sound hlt hcr.pid hpos
    unfold forkChild
    rw [if_neg (by omega)]
    dsimp only
    rw [hfind]
    have hready : (k.tasks (newSlot s.kernel)).state ≠ .terminated := by
      rw [hcr.ready]
      decide
    have hrec : SocketsHold (System.recordUser _ (newSlot s.kernel) idx pd) :=
      ht.recordUser hready
    have hname := hrec.nameChild (show (System.task _ (newSlot s.kernel)).state ≠ _ by
      rwa [recordUser_state])
    refine hname.copyFds ?_ ?_ ?_
    · show Function.update s.stage (newSlot s.kernel) (.forked _) (newSlot s.kernel) ≠ .user
      rw [Function.update_self]
      exact nofun
    · show s.taskFdInit k.currentTask = true
      rw [hcr.current]
      exact hinit
    · show ∀ fd, udpAt (s.taskFds k.currentTask) fd = none
      rw [hcr.current]
      exact hnone

theorem SocketsHold.sysFork {pd stack : Option Nat} {ctx : Bool} (h : s.SocketsHold)
    (hpid : s.kernel.nextPid < 2 ^ 31) (hinit : s.taskFdInit s.slot = true)
    (hnone : ∀ fd, s.sockOwner (s.slot, fd) = none) :
    (s.sysFork pd ctx stack).2.SocketsHold := by
  unfold System.sysFork
  split
  · exact h
  cases halloc : s.mmUserSlotAlloc with
  | none => exact h
  | some p =>
    obtain ⟨idx, t⟩ := p
    obtain ⟨-, -, rfl⟩ := mmUserSlotAlloc_some halloc
    dsimp only
    have htaken : (s.takeSlot idx).SocketsHold := h.takeSlot
    unfold forkSpace
    split
    · exact htaken.freeSlot
    · rename_i dir t hcreate
      obtain ⟨rfl, rfl⟩ := mmUserCr3Create_some hcreate
      have hpages := htaken.pages (dir :: (s.takeSlot idx).pageDirs)
      split
      · exact hpages.forkUndo
      · exact hpages.forkTask hpid hinit hnone

theorem SocketsHold.ensure {pd : Option Nat} (h : s.SocketsHold) :
    (s.ensureCurrentTaskUserSpace pd).2.SocketsHold := by
  unfold ensureCurrentTaskUserSpace
  split
  · exact h
  cases halloc : s.mmUserSlotAlloc with
  | none => exact h
  | some p =>
    obtain ⟨idx, t⟩ := p
    obtain ⟨-, -, rfl⟩ := mmUserSlotAlloc_some halloc
    have htaken : (s.takeSlot idx).SocketsHold := h.takeSlot
    dsimp only
    cases hcreate : (s.takeSlot idx).mmUserCr3Create (userPhys idx) pd with
    | none => exact htaken.freeSlot
    | some p =>
      obtain ⟨dir, t⟩ := p
      obtain ⟨-, rfl⟩ := mmUserCr3Create_some hcreate
      exact (htaken.pages (dir :: (s.takeSlot idx).pageDirs)).recordUser h.live

theorem SocketsHold.sysExec {pd : Option Nat} {loads : Bool} (h : s.SocketsHold) :
    (s.sysExec o pd loads).2.SocketsHold := by
  have hens : (s.ensureCurrentTaskUserSpace pd).2.SocketsHold := h.ensure
  unfold System.sysExec
  split
  · rename_i t heq
    rw [heq] at hens
    exact hens
  · rename_i t heq
    rw [heq] at hens
    have hclose := SocketsHold.closeCloexecFds (o := o) hens
    generalize t.closeCloexecFds o = u at hclose
    split
    · exact hclose
    · exact hens

theorem SocketsHold.bindRequest {req : SpawnReq} (h : s.SocketsHold)
    (hst : s.stage s.slot = .spawned req) : (s.bindRequest req).SocketsHold := by
  have hio := ioOnly_bindStdio s req.tty
  have hbound : (s.bindStdio req.tty).SocketsHold := by
    unfold System.bindStdio
    split
    · exact h
    · refine h.fdCurrent.setFds (udpAt_bindStdio fun i hi => ?_)
      by_contra hne
      obtain ⟨x, hx⟩ := Option.ne_none_iff_exists'.mp hne
      have h3 := (h.fdCurrent.holder s.slot i x hx).1
      omega
  have hstage : (s.bindStdio req.tty).stage (s.bindStdio req.tty).slot = .spawned req := by
    rw [hio.stage, hio.slot, hst]
  unfold System.bindRequest
  generalize s.bindStdio req.tty = t at hbound hstage
  refine SocketsHold.setStage (hbound.setTask hbound.live rfl rfl rfl rfl) ?_
  show t.stage t.slot ≠ .user
  rw [hstage]
  exact nofun

theorem SocketsHold.taskExit (h : s.SocketsHold) (hst : s.stage s.slot ≠ .user)
    (hs : s.taskExit = some s') : s'.SocketsHold := by
  refine h.schedStep (e := .fault) (fun _ => nofun) ?_ hs
  rintro j ⟨⟩
  exact h.none_of (Or.inl hst)

theorem SocketsHold.probe {req : SpawnReq} {idx : Nat} (h : s.SocketsHold)
    (hst : s.stage s.slot ≠ .user) (hs : s.probe req idx = some s') : s'.SocketsHold := by
  unfold System.probe at hs
  split at hs
  · exact h.taskExit hst hs
  split at hs
  · cases hs
    exact h.setStage hst
  · cases hs
    exact h.setStage hst

theorem SocketsHold.mapUser {req : SpawnReq} {idx : Nat} {pd : Option Nat} (h : s.SocketsHold)
    (hst : s.stage s.slot ≠ .user) (hs : s.mapUser req idx pd = some s') : s'.SocketsHold := by
  unfold System.mapUser at hs
  split at hs
  · refine (h.freeSlot.setStage hst).taskExit ?_ hs
    show Function.update s.stage s.slot (.loading req) (s.freeSlot idx).slot ≠ .user
    rw [freeSlot_slot, Function.update_self]
    exact nofun
  · rename_i dir t hcreate
    obtain ⟨-, rfl⟩ := mmUserCr3Create_some hcreate
    cases hs
    have hrec : SocketsHold (System.recordUser _ s.slot idx dir) :=
      (h.pages (dir :: s.pageDirs)).recordUser h.live
    exact hrec.setStage hst

theorem SocketsHold.enter {loads : Bool} (h : s.SocketsHold) (hst : s.stage s.slot ≠ .user)
    (hs : s.enter loads = some s') : s'.SocketsHold := by
  unfold System.enter at hs
  split at hs
  · cases hs
    exact h.setStage hst
  · exact h.taskExit hst hs

theorem SocketsHold.sysTaskKill {pid sig : Nat} (h : s.SocketsHold)
    (hspare : sig = 0 ∨ sig = 2 ∨ sig = 9 ∨ sig = 15 →
      ∀ j, Sched.diesBy s.kernel (.kill pid 0 0) = some j → ∀ fd, s.sockOwner (j, fd) = none)
    (hs : s.sysTaskKill pid sig = some s') : s'.SocketsHold := by
  unfold System.sysTaskKill at hs
  obtain ⟨n, hn⟩ : ∃ n, n = if sig = 0 then 15 else sig := ⟨_, rfl⟩
  rw [← hn] at hs
  dsimp only at hs
  split at hs
  · cases hs
    exact h
  · rename_i hkills
    refine h.schedStep (e := .kill pid _ n) (fun _ => nofun) (hspare ?_) hs
    split at hn
    · exact Or.inl ‹_›
    · omega

end Tasks

theorem fdCurrent_slot_init (s : System Disk) : s.fdCurrent.taskFdInit s.fdCurrent.slot = true :=
  Function.update_self ..

theorem sockOwner_fdCurrent (h : s.SocketsHold) (a : Nat × Nat) :
    s.fdCurrent.sockOwner a = s.sockOwner a := by
  obtain ⟨j, fd⟩ := a
  show udpAt (Function.update s.taskFds s.slot _ j) fd = udpAt (s.taskFds j) fd
  by_cases hj : j = s.slot
  · rw [hj, Function.update_self]
    exact udpAt_fdTableInit (fun hinit => h.none_of (Or.inr (Or.inr (Or.inr hinit)))) fd
  · rw [Function.update_of_ne hj]

theorem sockets_step {e : Event} (h : s.SocketsHold) (hok : s.SocketsSpared e)
    (hs : s.step o e = some s') : s'.SocketsHold := by
  have hcur := h.fdCurrent
  have hinit := fdCurrent_slot_init s
  unfold step at hs
  split at hs
  · rename_i call hst
    exact hcur.fdCall hst hinit hs
  · cases hs
    exact hcur.sysSpawn hok
  · cases hs
    refine hcur.sysFork hok.1 hinit fun fd => ?_
    rw [sockOwner_fdCurrent h]
    exact sockOwner_none hok.2 fd
  · cases hs
    exact hcur.sysExec
  · rename_i req hst
    cases hs
    exact h.bindRequest hst
  · rename_i hst
    exact h.probe (by rw [hst]; exact nofun) hs
  · rename_i hst
    cases hs
    exact h.takeSlot.setStage (by
      show s.stage s.slot ≠ .user
      rw [hst]
      exact nofun)
  · rename_i hst
    exact h.mapUser (by rw [hst]; exact nofun) hs
  · rename_i hst
    exact h.enter (by rw [hst]; exact nofun) hs
  · rename_i ctx hst
    cases hs
    have hnamed := h.setTask (i := s.slot) (t := { s.task s.slot with
      cr3 := ctx.userCr3, userSlot := ctx.userSlot, userPhysBase := ctx.userPhys
      ttyPath := ctx.ttyPath, progPath := ctx.progPath, cmdline := ctx.cmdline })
      h.live rfl rfl rfl rfl
    refine hnamed.setStage ?_
    show s.stage s.slot ≠ .user
    rw [hst]
    exact nofun
  · rename_i hst
    refine hcur.sysTaskKill (fun hsig j hj fd => ?_) hs
    rw [sockOwner_fdCurrent h]
    exact sockOwner_none (hok hsig j hj) fd
  · cases hs
  · exact h.schedStep (e := .tick) (fun _ => nofun) (fun j hj => sockOwner_none (hok j hj)) hs
  · exact h.schedStep (e := .fault) (fun _ => nofun) (fun j hj => sockOwner_none (hok j hj)) hs
  · refine h.schedStep ?_ (fun j hj => sockOwner_none (hok j hj)) hs
    exact fun _ => nofun
  · rename_i e hcreate _ _ _ hst
    refine hcur.schedStep hcreate (fun j hj fd => ?_) hs
    rw [sockOwner_fdCurrent h]
    exact sockOwner_none (hok j hj) fd
  · exact h.schedStep (e := .yield) (fun _ => nofun) (fun j hj => sockOwner_none (hok j hj)) hs
  · cases hs

theorem sockets_boot (kernelCr3 idleStack : Nat) (stack : Option Nat) (d : Disk) :
    (boot kernelCr3 idleStack stack d).SocketsHold := by
  unfold boot
  generalize hc : taskCreate _ stack (.spawned bootRequest) = r
  obtain ⟨pid, t⟩ := r
  refine SocketsHold.create ?_ (show 3 < 2 ^ 31 by decide) hc
  have hnone : ∀ fd, udpAt (fun _ => zeroFd) fd = none := by
    intro fd
    rw [udpAt]
    split
    · rfl
    · rfl
  refine ⟨Sched.sound_taskInit kernelCr3 idleStack, ⟨?_, ?_⟩, ?_, ?_⟩
  · rintro ⟨j, fd⟩ b x hx
    cases (hnone fd).symm.trans hx
  · rintro ⟨j, fd⟩ x hx
    cases (hnone fd).symm.trans hx
  · rintro x ⟨-, -, hused⟩
    cases hused
  · intro j fd x hx
    cases (hnone fd).symm.trans hx

def IsUdp (s : System Disk) (j fd : Nat) : Prop :=
  j < s.kernel.taskCount ∧ (s.task j).state ≠ .terminated ∧ fd < fdMax ∧
    (s.taskFds j fd).used = true ∧ (s.taskFds j fd).kind = .udp

structure SocketsOwned (s : System Disk) : Prop where
  refers : ∀ j fd, s.IsUdp j fd → InUse s.udp (s.taskFds j fd).sockId
  referred : ∀ sid, InUse s.udp sid → ∃ j fd, s.IsUdp j fd ∧ (s.taskFds j fd).sockId = sid
  apart : ∀ j fd j' fd', s.IsUdp j fd → s.IsUdp j' fd' →
    (s.taskFds j fd).sockId = (s.taskFds j' fd').sockId → j = j' ∧ fd = fd'

theorem sockOwner_isUdp {j fd : Nat} (h : s.IsUdp j fd) :
    s.sockOwner (j, fd) = some (s.taskFds j fd).sockId := by
  obtain ⟨-, -, hfd, hudp⟩ := h
  exact (if_pos hfd).trans (if_pos hudp)

theorem SocketsHold.socketsOwned (h : s.SocketsHold) : s.SocketsOwned where
  refers j fd hudp := h.owned.covered (j, fd) _ (sockOwner_isUdp hudp)
  referred sid hin := by
    obtain ⟨⟨j, fd⟩, howner⟩ := h.tight sid hin
    obtain ⟨-, hlt, hlive, -, -⟩ := h.holder j fd sid howner
    have hsock := howner
    rw [sockOwner, udpAt] at hsock
    split at hsock
    · rename_i hfd
      obtain ⟨hused, hkind, hsid⟩ := sockOf_some hsock
      exact ⟨j, fd, ⟨hlt, hlive, hfd, hused, hkind⟩, hsid⟩
    · cases hsock
  apart j fd j' fd' hudp hudp' heq := by
    have hsame := h.owned.apart (j, fd) (j', fd') _ (sockOwner_isUdp hudp)
      (by rw [sockOwner_isUdp hudp', heq])
    exact Prod.mk.inj hsame

theorem udp_sockets_owned {kernelCr3 idleStack : Nat} {stack : Option Nat} {d : Disk}
    (es : List Event)
    (hok : Run.Along (step o) SocketsSpared (boot kernelCr3 idleStack stack d) es)
    (hrun : Run.run (step o) (boot kernelCr3 idleStack stack d) es = some s) : s.SocketsOwned :=
  (Run.run_invariant (fun _ _ _ => sockets_step) es _ _
    (sockets_boot kernelCr3 idleStack stack d) hok hrun).socketsOwned

private def opensSocket : List Event :=
  [.sched .fault, .bindStdio, .probe, .take, .mapUser (some 20480), .enter true,
    .fd (.socket 2 2 0)]

private theorem spared_opensSocket :
    Run.Along (step noFifos) SocketsSpared (boot 4096 8192 (some 16384) ()) opensSocket := by
  refine ⟨?_, ?_⟩
  · rintro _ ⟨⟩ ⟨fd, -, hused, -⟩
    cases hused
  rintro _ ⟨⟩
  refine ⟨trivial, ?_⟩
  rintro _ ⟨⟩
  refine ⟨trivial, ?_⟩
  rintro _ ⟨⟩
  refine ⟨trivial, ?_⟩
  rintro _ ⟨⟩
  refine ⟨trivial, ?_⟩
  rintro _ ⟨⟩
  refine ⟨trivial, ?_⟩
  rintro _ ⟨⟩
  exact ⟨trivial, fun _ _ => trivial⟩

theorem udp_sockets_owned_socket :
    ∃ s, Run.run (step noFifos) (boot 4096 8192 (some 16384) ()) opensSocket = some s ∧
      s.IsUdp 2 3 ∧ s.SocketsOwned :=
  ⟨_, rfl, ⟨by decide, by decide, by decide, rfl, rfl⟩,
    udp_sockets_owned opensSocket spared_opensSocket rfl⟩

end System

end HouseOS.Syscall
