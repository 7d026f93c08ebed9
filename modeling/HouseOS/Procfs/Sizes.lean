import HouseOS.Procfs.Model

namespace HouseOS.Procfs

open HouseOS.Builder
open HouseOS.ByteCursor
open HouseOS.Sched (Task noSlot)
open HouseOS.Syscall (Answer FdTable FileCalls Files Info)
open HouseOS.Vfs (Path VfsT Resolved vfsResolve)

section Appenders

variable {cap : Nat}

theorem appendText_within (text : List UInt8) : Within cap (procAppendText cap text) := by
  intro out hout
  rw [procAppendText]
  split
  · exact hout
  · rw [List.length_append]
    omega

theorem appendChar_within (c : UInt8) : Within cap (procAppendChar cap c) := by
  intro out hout
  rw [procAppendChar]
  split
  · exact hout
  · rw [List.length_append, List.length_singleton]
    omega

theorem appendChars_within (cs : List UInt8) : Within cap (appendChars cap cs) := by
  induction cs with
  | nil => exact fun out hout => hout
  | cons c cs ih =>
    intro out hout
    rw [appendChars]
    split
    · exact ih _ (appendChar_within c out hout)
    · exact appendChar_within c out hout

theorem appendU32_within (v : Nat) : Within cap (procAppendU32 cap v) := by
  rw [procAppendU32]
  split
  · exact appendChar_within 48
  · exact appendChars_within _

theorem appendI32_within (v : Int) : Within cap (procAppendI32 cap v) := by
  intro out hout
  rw [procAppendI32]
  split
  · split
    · exact appendU32_within _ _ (appendChar_within 45 out hout)
    · exact appendChar_within 45 out hout
  · exact appendU32_within _ out hout

theorem appendText_room (text : List UInt8) : Room cap text.length (procAppendText cap text) := by
  intro out hout
  rw [procAppendText, if_neg (by omega)]
  exact ⟨rfl, by rw [List.length_append]⟩

theorem appendChar_room (c : UInt8) : Room cap 1 (procAppendChar cap c) := by
  intro out hout
  rw [procAppendChar, if_neg (by omega)]
  exact ⟨rfl, by rw [List.length_append, List.length_singleton]⟩

theorem appendChars_room (cs : List UInt8) : Room cap cs.length (appendChars cap cs) := by
  induction cs with
  | nil => exact fun out _ => ⟨rfl, le_refl _⟩
  | cons c cs ih =>
    intro out hout
    rw [List.length_cons] at hout
    have hroom : out.length + 1 < cap := by omega
    obtain ⟨hok, hlen⟩ := appendChar_room c out hroom
    obtain ⟨hok', hlen'⟩ := ih (procAppendChar cap c out).2 (by omega)
    rw [appendChars, if_pos hok, List.length_cons]
    exact ⟨hok', by omega⟩

theorem u32Digits_length (n v : Nat) : (u32Digits n v).length ≤ n := by
  induction n generalizing v with
  | zero => exact Nat.le_refl 0
  | succ n ih =>
    rw [u32Digits]
    split
    · exact Nat.zero_le _
    · rw [List.length_cons]
      have := ih (v / 10)
      omega

theorem appendU32_room (v : Nat) : Room cap 16 (procAppendU32 cap v) := by
  intro out hout
  rw [procAppendU32]
  split
  · have hroom : out.length + 1 < cap := by omega
    obtain ⟨hok, hlen⟩ := appendChar_room 48 out hroom
    exact ⟨hok, by omega⟩
  · have hdigits := u32Digits_length 16 v
    have hrev : (u32Digits 16 v).reverse.length ≤ 16 := by rwa [List.length_reverse]
    have hroom : out.length + (u32Digits 16 v).reverse.length < cap := by omega
    obtain ⟨hok, hlen⟩ := appendChars_room (u32Digits 16 v).reverse out hroom
    exact ⟨hok, by omega⟩

end Appenders

theorem pidText_within (task : Task) (id : PidFile) :
    ∀ f ∈ pidText task id, Within procPidTextCap f := by
  cases id <;> simp only [pidText]
  case cmdline =>
    split
    · simp [appendText_within]
    · split <;> simp [appendText_within]
  all_goals try split
  all_goals simp [appendText_within, appendU32_within, appendI32_within]

theorem pidText_length (task : Task) (id : PidFile) :
    (lax (pidText task id) []).length < procPidTextCap :=
  lax_within (pidText_within task id) (by decide)

theorem handOut_fst {text : List UInt8} {size : Nat} (h : text.length ≤ size) :
    (handOut text size).1 = text.length := by
  rw [handOut, if_neg (by omega)]

theorem handOut_length (text : List UInt8) (size : Nat) :
    (handOut text size).2.length = (handOut text size).1.toNat := by
  rw [handOut, List.length_take, Int.toNat_natCast]
  split <;> omega

section

variable (k : ProcState)

theorem systemText_strict (id : SysFile) :
    ∃ text, strict (k.systemText id) [] = some text ∧ text.length < procSysTextCap := by
  have hwithin : ∀ f ∈ k.systemText id, Within procSysTextCap f := by
    cases id <;> simp [ProcState.systemText, appendText_within, appendU32_within]
  obtain ⟨ns, hns, hsum⟩ : ∃ ns, List.Forall₂ (Room procSysTextCap) ns (k.systemText id) ∧
      ns.sum < procSysTextCap := by
    cases id with
    | uptime => exact ⟨_, .cons (appendU32_room _) (.cons (appendText_room _) .nil), by decide⟩
    | meminfo =>
      refine ⟨_, .cons (appendText_room _) (.cons (appendU32_room _) (.cons (appendText_room _)
        (.cons (appendU32_room _) (.cons (appendText_room _) (.cons (appendU32_room _)
        (.cons (appendText_room _) .nil)))))), ?_⟩
      decide
    | stat =>
      refine ⟨_, .cons (appendText_room _) (.cons (appendU32_room _) (.cons (appendText_room _)
        (.cons (appendU32_room _) (.cons (appendText_room _) (.cons (appendU32_room _)
        (.cons (appendText_room _) (.cons (appendU32_room _) (.cons (appendText_room _)
        (.cons (appendU32_room _) (.cons (appendText_room _) .nil)))))))))), ?_⟩
      decide
    | version => exact ⟨_, .cons (appendText_room _) .nil, by decide⟩
  obtain ⟨text, htext⟩ : ∃ text, strict _ [] = some text := strict_some hns (by simpa using hsum)
  exact ⟨text, htext, strict_within hwithin (by decide) htext⟩

theorem readSystemFile_fst (id : SysFile) {size : Nat}
    (h : (k.procReadSystemFile id infoTmpSize).1.toNat ≤ size) :
    (k.procReadSystemFile id size).1 = (k.procReadSystemFile id infoTmpSize).1.toNat := by
  obtain ⟨text, htext, hlen⟩ := systemText_strict k id
  have htmp : text.length ≤ infoTmpSize := Nat.le_of_lt (Nat.lt_trans hlen (by decide))
  simp only [ProcState.procReadSystemFile, htext] at h ⊢
  rw [handOut_fst htmp, Int.toNat_natCast] at h
  rw [handOut_fst htmp, handOut_fst h, Int.toNat_natCast]

theorem readPidText_fst (task : Task) {id : PidFile} (hid : id ≠ .mem) {size : Nat}
    (h : (procReadPidText task id infoTmpSize).1.toNat ≤ size) :
    (procReadPidText task id size).1 = (procReadPidText task id infoTmpSize).1.toNat := by
  have htmp : (lax (pidText task id) []).length ≤ infoTmpSize :=
    Nat.le_of_lt (Nat.lt_trans (pidText_length task id) (by decide))
  simp only [procReadPidText, if_neg hid] at h ⊢
  rw [handOut_fst htmp, Int.toNat_natCast] at h
  rw [handOut_fst htmp, handOut_fst h, Int.toNat_natCast]

theorem taskFdPath_some {pid fd cap : Nat} {path : List UInt8}
    (h : k.syscallTaskFdPath pid fd cap = some path) :
    2 ≤ cap ∧ (∃ i, k.taskFindByPid pid = some i) ∧
      ∃ text : List UInt8, path = text.take (cap - 1) := by
  rw [ProcState.syscallTaskFdPath] at h
  split at h
  · cases h
  · rename_i hcap
    split at h
    · cases h
    · rename_i slot hfind
      refine ⟨by omega, ⟨slot, hfind⟩, ?_⟩
      cases hkind : (k.taskFds slot fd).kind <;> simp only [hkind] at h <;> split_ifs at h
      all_goals exact ⟨_, (Option.some.inj h).symm⟩

theorem taskFdPath_length {pid fd cap : Nat} {path : List UInt8}
    (h : k.syscallTaskFdPath pid fd cap = some path) : path.length < cap := by
  obtain ⟨hcap, -, text, rfl⟩ := taskFdPath_some k h
  rw [List.length_take]
  omega

theorem readPidFd_fst {pid fd size : Nat} (hn : 0 ≤ (k.procReadPidFd pid fd infoTmpSize).1)
    (h : (k.procReadPidFd pid fd infoTmpSize).1.toNat ≤ size) :
    (k.procReadPidFd pid fd size).1 = (k.procReadPidFd pid fd infoTmpSize).1.toNat := by
  simp only [ProcState.procReadPidFd] at hn h ⊢
  cases hpath : k.syscallTaskFdPath pid fd fdPathSize with
  | none =>
    rw [hpath] at hn
    exact absurd hn (by decide)
  | some path =>
    rw [hpath] at h
    have hlen := taskFdPath_length k hpath
    simp only at h ⊢
    generalize htext : (if path.length + 1 ≤ fdPathSize then path ++ byteText "\n" else path) = text
      at h ⊢
    have htmp : text.length ≤ infoTmpSize := by
      have hone : (byteText "\n").length = 1 := by decide
      have hsize : fdPathSize = 256 ∧ infoTmpSize = 2048 := ⟨rfl, rfl⟩
      subst htext
      split
      · rw [List.length_append]
        omega
      · omega
    rw [handOut_fst htmp, Int.toNat_natCast] at h
    rw [handOut_fst htmp, handOut_fst h, Int.toNat_natCast]

theorem readPidFd_nonneg {pid fd : Nat} :
    0 ≤ (k.procReadPidFd pid fd infoTmpSize).1 ↔
      (k.syscallTaskFdPath pid fd fdPathSize).isSome = true := by
  rw [ProcState.procReadPidFd]
  split
  · rename_i hpath
    simp [hpath]
  · rename_i path hpath
    simp only [hpath, handOut, Option.isSome_some, iff_true]
    exact Int.natCast_nonneg _

theorem read_length (path : Path) (size : Nat) :
    (k.procReadOp path size).2.length = (k.procReadOp path size).1.toNat := by
  rw [ProcState.procReadOp]
  split
  · rfl
  · rw [ProcState.procReadSystemFile]
    split
    · rfl
    · exact handOut_length _ _
  · split
    · rfl
    · split
      · rfl
      · split
        · rw [ProcState.procReadPidMem]
          split
          · rfl
          · rw [List.length_map, List.length_range, Int.toNat_natCast]
        · rw [procReadPidText]
          split
          · rfl
          · exact handOut_length _ _
        · rw [ProcState.procReadPidFd]
          split
          · rfl
          · exact handOut_length _ _
        · rfl

def SizesMatch (path : Path) : Prop :=
  ∀ s, k.procGetInfoOp path = some ⟨.file, s⟩ →
    ∀ size, s ≤ size → (k.procReadOp path size).1 = s

-- what the reads check and `proc_get_info_op` does not
def Backed (path : Path) : Prop :=
  match k.procParsePath path with
  | some (.pidFile pid id) => ∀ i, k.taskFindByPid pid = some i →
      pid ≠ 0 ∧ (id = .mem → (k.tasks i).userSlot ≠ noSlot ∧ (k.tasks i).userPhysBase ≠ 0)
  | some (.pidFdFile pid fd) => (k.syscallTaskFdPath pid fd fdPathSize).isSome = true → pid ≠ 0
  | _ => True

theorem sizes_of_backed {path : Path} (h : Backed k path) : SizesMatch k path := by
  intro s hinfo size hs
  rw [ProcState.procGetInfoOp] at hinfo
  rw [Backed] at h
  rw [ProcState.procReadOp]
  cases hnode : k.procParsePath path with
  | none => simp [hnode] at hinfo
  | some node =>
    rw [hnode] at h hinfo
    cases node with
    | rootDir => simp at hinfo
    | pidDir pid => simp at hinfo
    | pidFdDir pid => simp at hinfo
    | sysFile id =>
      obtain rfl : _ = s := by simpa using hinfo
      exact readSystemFile_fst k id hs
    | pidFile pid id =>
      simp only at h hinfo ⊢
      cases hfind : k.taskFindByPid pid with
      | none => simp [hfind] at hinfo
      | some i =>
        obtain ⟨hpid, hmem⟩ := h i hfind
        simp only [ProcPath.pid, if_neg hpid, hfind] at hinfo ⊢
        by_cases hid : id = .mem
        · subst hid
          obtain rfl : userSlotSizePhys = s := by simpa using hinfo
          obtain ⟨hslot, hbase⟩ := hmem rfl
          simp only [ProcState.procReadPidMem, hslot, hbase, or_self, if_false,
            if_neg (Nat.not_lt.mpr hs)]
        · have hs' : (procReadPidText (k.tasks i) id infoTmpSize).1.toNat = s := by
            cases id <;> simp_all
          subst hs'
          have := readPidText_fst (k.tasks i) hid hs
          cases id <;> simp_all
    | pidFdFile pid fd =>
      simp only at h hinfo ⊢
      cases hfind : k.taskFindByPid pid with
      | none => simp [hfind] at hinfo
      | some i =>
        simp only [hfind] at hinfo
        split at hinfo
        · cases hinfo
        · rename_i hneg
          have hpos : 0 ≤ (k.procReadPidFd pid fd infoTmpSize).1 := by omega
          obtain rfl : (k.procReadPidFd pid fd infoTmpSize).1.toNat = s := by simpa using hinfo
          have hpid := h ((readPidFd_nonneg k).mp hpos)
          simp only [ProcPath.pid, if_neg hpid, hfind]
          exact readPidFd_fst k hpos hs

theorem backed_of_sizes {path : Path} (h : SizesMatch k path) : Backed k path := by
  have hzero (node : ProcPath) (hnode : k.procParsePath path = some node) (hpid : node.pid = 0)
      (hsys : ∀ id, node ≠ .sysFile id) (s : Nat)
      (hinfo : k.procGetInfoOp path = some ⟨.file, s⟩) : False := by
    have hread : (k.procReadOp path s).1 = -1 := by
      rw [ProcState.procReadOp, hnode]
      cases node with
      | sysFile id => exact absurd rfl (hsys id)
      | _ => simp only [hpid, if_true]
    have := h s hinfo s (Nat.le_refl s)
    omega
  rw [Backed]
  cases hnode : k.procParsePath path with
  | none => trivial
  | some node =>
    cases node with
    | pidFile pid id =>
      intro i hfind
      have hpid : pid ≠ 0 := by
        rintro rfl
        have hinfo : ∃ s, k.procGetInfoOp path = some ⟨.file, s⟩ := by
          rw [ProcState.procGetInfoOp, hnode]
          simp only [hfind]
          cases id <;> exact ⟨_, rfl⟩
        obtain ⟨s, hs⟩ := hinfo
        exact hzero _ hnode rfl (fun _ => ProcPath.noConfusion) s hs
      refine ⟨hpid, ?_⟩
      rintro rfl
      have hinfo : k.procGetInfoOp path = some ⟨.file, userSlotSizePhys⟩ := by
        rw [ProcState.procGetInfoOp, hnode]
        simp only [hfind]
      have hread := h _ hinfo _ (Nat.le_refl _)
      rw [ProcState.procReadOp, hnode] at hread
      simp only [ProcPath.pid, if_neg hpid, hfind, ProcState.procReadPidMem] at hread
      split at hread
      · exact absurd hread (by decide)
      · rename_i hslot
        exact not_or.mp hslot
    | pidFdFile pid fd =>
      intro hsome
      rintro rfl
      have hpos := (readPidFd_nonneg k).mpr hsome
      obtain ⟨text, htext⟩ := Option.isSome_iff_exists.mp hsome
      obtain ⟨-, ⟨i, hfind⟩, -⟩ := taskFdPath_some k htext
      have hinfo : k.procGetInfoOp path =
          some ⟨.file, (k.procReadPidFd 0 fd infoTmpSize).1.toNat⟩ := by
        rw [ProcState.procGetInfoOp, hnode]
        simp only [hfind]
        rw [if_neg (by omega)]
      exact hzero _ hnode rfl (fun _ => ProcPath.noConfusion) _ hinfo
    | _ => trivial

end

end HouseOS.Procfs
