import HouseOS.Procfs.Model

namespace HouseOS.Procfs

open HouseOS.Sched (Task)
open HouseOS.Vfs (Path slash)

def sysFileName : SysFile → Path
  | .uptime => byteText "/uptime"
  | .meminfo => byteText "/meminfo"
  | .stat => byteText "/stat"
  | .version => byteText "/version"

def pidFileName : PidFile → Path
  | .cmdline => byteText "cmdline"
  | .status => byteText "status"
  | .stat => byteText "stat"
  | .mem => byteText "mem"
  | .tty => byteText "tty"
  | .exe => byteText "exe"

def decimal (text : Path) : Nat := text.foldl (fun v c => v * 10 + (c.toNat - 48)) 0

section Grammar

-- `read` is what is made of a number that is written in digits
variable (read : Nat → Nat)

structure Number (text : Path) (n : Nat) : Prop where
  written : text ≠ []
  digits : ∀ c ∈ text, isDigit c = true
  value : n = read (decimal text)

inductive Who (k : ProcState) : Path → Nat → Prop where
  | self {i : Nat} (h : k.currentTask = some i) : Who k (byteText "self") (k.tasks i).pid
  | number {text : Path} {pid : Nat} (h : Number read text pid) : Who k text pid

inductive Tail (pid : Nat) : Path → ProcPath → Prop where
  | done : Tail pid [] (.pidDir pid)
  | dir : Tail pid [slash] (.pidDir pid)
  | file (id : PidFile) : Tail pid (slash :: pidFileName id) (.pidFile pid id)
  | fdDir : Tail pid (byteText "/fd") (.pidFdDir pid)
  | fdDirSlash : Tail pid (byteText "/fd/") (.pidFdDir pid)
  | fd {text : Path} {fd : Nat} (h : Number read text fd) :
      Tail pid (byteText "/fd/" ++ text) (.pidFdFile pid fd)

inductive Denotes (k : ProcState) : Path → ProcPath → Prop where
  | root : Denotes k [slash] .rootDir
  | sysFile (id : SysFile) : Denotes k (sysFileName id) (.sysFile id)
  | task {who tail : Path} {pid : Nat} {node : ProcPath} (hwho : Who read k who pid)
      (htail : Tail read pid tail node) : Denotes k (slash :: (who ++ tail)) node

end Grammar

def word (n : Nat) : Nat := n % 2 ^ 32

section Numbers

variable {text rest : Path} {n v : Nat}

theorem u32Token_digits (hdigits : ∀ c ∈ text, isDigit c = true)
    (hrest : ∀ c, rest.head? = some c → isDigit c = false) (v : Nat) :
    u32Token (text ++ rest) v =
      ((if text = [] then v else text.foldl (fun v c => v * 10 + (c.toNat - 48)) v % 2 ^ 32), rest) := by
  induction text generalizing v with
  | nil =>
    cases rest with
    | nil => rfl
    | cons c cs =>
      have hc := hrest c rfl
      simp only [List.nil_append, u32Token, hc, Bool.false_eq_true, if_false, if_true]
  | cons c cs ih =>
    have hc := hdigits c List.mem_cons_self
    have hcs := ih (fun d hd => hdigits d (List.mem_cons_of_mem c hd))
    rw [List.cons_append, u32Token, if_pos hc, hcs, if_neg (List.cons_ne_nil c cs), List.foldl_cons]
    refine Prod.ext ?_ rfl
    dsimp only
    have hmod (l : Path) : ∀ a b : Nat, a % 2 ^ 32 = b % 2 ^ 32 →
        l.foldl (fun v c => v * 10 + (c.toNat - 48)) a % 2 ^ 32 =
          l.foldl (fun v c => v * 10 + (c.toNat - 48)) b % 2 ^ 32 := by
      induction l with
      | nil => exact fun a b h => h
      | cons d ds ihd =>
        intro a b h
        rw [List.foldl_cons, List.foldl_cons]
        exact ihd _ _ (by omega)
    split
    next hnil =>
      subst hnil
      rfl
    next => exact hmod cs _ _ (Nat.mod_mod _ _)

theorem u32Token_spec (p : Path) (v : Nat) : ∃ text, p = text ++ (u32Token p v).2 ∧
    (∀ c ∈ text, isDigit c = true) ∧
      ∀ c, (u32Token p v).2.head? = some c → isDigit c = false := by
  induction p generalizing v with
  | nil => exact ⟨[], rfl, fun c hc => absurd hc List.not_mem_nil, fun c hc => nomatch hc⟩
  | cons c cs ih =>
    rw [u32Token]
    split
    next hc =>
      obtain ⟨text, heq, hdigits, hhead⟩ := ih ((v * 10 + (c.toNat - 48)) % 2 ^ 32)
      refine ⟨c :: text, congrArg (c :: ·) heq, fun d hd => ?_, hhead⟩
      rcases List.mem_cons.mp hd with rfl | hd
      · exact hc
      · exact hdigits d hd
    next hc =>
      refine ⟨[], rfl, fun d hd => absurd hd List.not_mem_nil, fun d hd => ?_⟩
      obtain rfl : c = d := Option.some.inj hd
      exact Bool.eq_false_iff.mpr hc

theorem parseU32Token_iff {p : Path} : procParseU32Token p = some (n, rest) ↔
    ∃ text, p = text ++ rest ∧ Number word text n ∧
      ∀ c, rest.head? = some c → isDigit c = false := by
  constructor
  · intro h
    cases p with
    | nil => exact nomatch h
    | cons c cs =>
      rw [procParseU32Token, Option.ite_none_right_eq_some, Option.some.injEq] at h
      obtain ⟨hc, h⟩ := h
      obtain ⟨text, heq, hdigits, hhead⟩ := u32Token_spec (c :: cs) 0
      have hvalue := u32Token_digits hdigits hhead 0
      rw [← heq] at hvalue
      rw [h] at heq hhead hvalue
      have hne : text ≠ [] := by
        rintro rfl
        rw [List.nil_append] at heq
        rw [hhead c (by rw [← heq]; rfl)] at hc
        exact Bool.false_ne_true hc
      rw [if_neg hne] at hvalue
      exact ⟨text, heq, ⟨hne, hdigits, (Prod.mk.inj hvalue).1⟩, hhead⟩
  · rintro ⟨text, rfl, ⟨hne, hdigits, rfl⟩, hrest⟩
    obtain ⟨c, cs, rfl⟩ := List.exists_cons_of_ne_nil hne
    have hc := hdigits c List.mem_cons_self
    have hvalue := u32Token_digits hdigits hrest 0
    rw [if_neg hne] at hvalue
    rw [List.cons_append] at hvalue ⊢
    rw [procParseU32Token, if_pos hc, hvalue]
    rfl

end Numbers

section Recogniser

variable {k : ProcState} {p path tail : Path} {pid : Nat} {node : ProcPath}

theorem sysFileNamed_iff {id : SysFile} : sysFileNamed p = some id ↔ p = sysFileName id := by
  constructor
  · intro h
    simp only [sysFileNamed] at h
    split_ifs at h with h1 h2 h3 h4 <;> cases h
    · exact h1
    · exact h2
    · exact h3
    · exact h4
  · rintro rfl
    cases id <;> decide

theorem pidFileNamed_iff {id : PidFile} : pidFileNamed p = some id ↔ p = pidFileName id := by
  constructor
  · intro h
    simp only [pidFileNamed] at h
    split_ifs at h with h1 h2 h3 h4 h5 h6 <;> cases h
    · exact h1
    · exact h2
    · exact h3
    · exact h4
    · exact h5
    · exact h6
  · rintro rfl
    cases id <;> decide

theorem pidNode_iff : procParsePidNode pid tail = some node ↔ Tail word pid tail node := by
  constructor
  · intro h
    cases tail with
    | nil =>
      obtain rfl := Option.some.inj h
      exact .done
    | cons c p =>
      simp only [procParsePidNode, Option.ite_none_left_eq_some, not_not] at h
      obtain ⟨rfl, h⟩ := h
      split_ifs at h with hnil hfd hprefix
      · obtain rfl := Option.some.inj h
        rw [hnil]
        exact .dir
      · obtain rfl := Option.some.inj h
        rcases hfd with rfl | rfl
        · exact .fdDir
        · exact .fdDirSlash
      · obtain ⟨q, rfl⟩ := hprefix
        rw [show (byteText "fd/" ++ q).drop 3 = q from rfl] at h
        split at h
        next fd hparse =>
          obtain rfl := Option.some.inj h
          obtain ⟨text, heq, hnumber, -⟩ := parseU32Token_iff.mp hparse
          rw [List.append_nil] at heq
          rw [heq]
          exact .fd hnumber
        next => exact nomatch h
      · obtain ⟨id, hid, rfl⟩ := Option.map_eq_some_iff.mp h
        rw [pidFileNamed_iff.mp hid]
        exact .file id
  · intro h
    cases h with
    | done => rfl
    | dir => rfl
    | file id => cases id <;> rfl
    | fdDir => rfl
    | fdDirSlash => rfl
    | @fd text fd hnumber =>
      obtain ⟨c, cs, rfl⟩ := List.exists_cons_of_ne_nil hnumber.written
      have hparse := parseU32Token_iff.mpr ⟨c :: cs, (List.append_nil _).symm, hnumber, fun _ h => nomatch h⟩
      have hlong : ∀ q : Path, byteText "fd/" ++ c :: cs = q → q.length ≤ 3 → False := by
        rintro q rfl hlen
        have hthree : (byteText "fd/").length = 3 := rfl
        rw [List.length_append, List.length_cons] at hlen
        omega
      rw [show byteText "/fd/" ++ c :: cs = slash :: (byteText "fd/" ++ c :: cs) from rfl,
        procParsePidNode, if_neg (by simp), if_neg (fun h => hlong _ h (by decide)),
        if_neg (by rintro (h | h); exacts [hlong _ h (by decide), hlong _ h (by decide)]),
        if_pos (List.prefix_append _ _), show (byteText "fd/" ++ c :: cs).drop 3 = c :: cs from rfl,
        hparse]

theorem tail_head {read : Nat → Nat} (h : Tail read pid tail node) :
    tail = [] ∨ tail.head? = some slash := by
  cases h <;> simp [byteText, Words.byteText, slash]

theorem digit_head {read : Nat → Nat} {text : Path} {n : Nat} (h : Number read text n) :
    ∃ c cs, text = c :: cs ∧ isDigit c = true := by
  obtain ⟨c, cs, rfl⟩ := List.exists_cons_of_ne_nil h.written
  exact ⟨c, cs, rfl, h.digits c List.mem_cons_self⟩

theorem head_not_digit (h : tail = [] ∨ tail.head? = some slash) :
    ∀ c, tail.head? = some c → isDigit c = false := by
  intro c hc
  rcases h with rfl | hslash
  · exact nomatch hc
  · obtain rfl := Option.some.inj (hslash.symm.trans hc)
    decide

theorem parsePid_iff (htail : tail = [] ∨ tail.head? = some slash) :
    k.procParsePid p = some (pid, tail) ↔ ∃ who, p = who ++ tail ∧ Who word k who pid := by
  rw [ProcState.procParsePid]
  constructor
  · intro h
    split_ifs at h with hself
    · obtain ⟨i, hi, heq⟩ := Option.map_eq_some_iff.mp h
      obtain ⟨⟨q, rfl⟩, -⟩ := hself
      obtain ⟨rfl, rfl⟩ := Prod.mk.inj heq
      exact ⟨byteText "self", rfl, .self hi⟩
    · obtain ⟨text, rfl, hnumber, -⟩ := parseU32Token_iff.mp h
      exact ⟨text, rfl, .number hnumber⟩
  · rintro ⟨who, rfl, hwho⟩
    cases hwho with
    | @self i hi =>
      have hfour : (byteText "self" ++ tail)[4]? = tail.head? := by
        rw [List.head?_eq_getElem?]
        exact List.getElem?_append_right (by decide)
      have hend : (byteText "self" ++ tail)[4]? = none ∨ (byteText "self" ++ tail)[4]? = some slash := by
        rw [hfour]
        rcases htail with rfl | hslash
        · exact Or.inl rfl
        · exact Or.inr hslash
      rw [if_pos ⟨List.prefix_append _ _, hend⟩, hi]
      rfl
    | number hnumber =>
      rw [if_neg ?_]
      · exact parseU32Token_iff.mpr ⟨who, rfl, hnumber, head_not_digit htail⟩
      · rintro ⟨⟨q, hq⟩, -⟩
        obtain ⟨c, cs, rfl, hc⟩ := digit_head hnumber
        obtain rfl : (115 : UInt8) = c := (List.cons.inj hq).1
        exact absurd hc (by decide)

theorem not_sysFile {who : Path} (hwho : Who word k who pid) (tail : Path) (id : SysFile) :
    slash :: (who ++ tail) ≠ sysFileName id := by
  intro h
  cases hwho with
  | self hi => cases id <;> simp [sysFileName, byteText, Words.byteText] at h
  | number hnumber =>
    obtain ⟨c, cs, rfl, hc⟩ := digit_head hnumber
    rw [List.cons_append] at h
    have hsecond : (sysFileName id)[1]? = some c := by rw [← h]; rfl
    cases id <;> obtain rfl := Option.some.inj hsecond <;> exact absurd hc (by decide)

theorem parsePath_iff : k.procParsePath path = some node ↔ Denotes word k path node := by
  rw [ProcState.procParsePath]
  constructor
  · intro h
    rw [Option.ite_none_left_eq_some] at h
    obtain ⟨hslash, h⟩ := h
    split_ifs at h with hroot
    · obtain rfl := Option.some.inj h
      rw [hroot]
      exact .root
    · split at h
      next id hid =>
        obtain rfl := Option.some.inj h
        rw [sysFileNamed_iff.mp hid]
        exact .sysFile id
      next =>
        obtain ⟨⟨pid, rest⟩, hpid, hnode⟩ := Option.bind_eq_some_iff.mp h
        have htail := pidNode_iff.mp hnode
        obtain ⟨who, hsplit, hwho⟩ := (parsePid_iff (tail_head htail)).mp hpid
        obtain ⟨q, hq⟩ : ∃ q, path = slash :: q := List.head?_eq_some_iff.mp (not_not.mp hslash)
        rw [hq, List.tail_cons] at hsplit
        rw [hq, hsplit]
        exact .task hwho htail
  · intro h
    cases h with
    | root => rfl
    | sysFile id => cases id <;> rfl
    | @task who tail pid node hwho htail =>
      have hne : who ≠ [] := by
        cases hwho with
        | self hi => exact List.cons_ne_nil _ _
        | number hnumber => exact hnumber.written
      have hnone : sysFileNamed (slash :: (who ++ tail)) = none := by
        rw [Option.eq_none_iff_forall_ne_some]
        exact fun id hid => not_sysFile hwho tail id (sysFileNamed_iff.mp hid)
      have hroot : ¬slash :: (who ++ tail) = [slash] := by
        intro hroot
        have hnil := (List.cons.inj hroot).2
        exact hne (List.append_eq_nil_iff.mp hnil).1
      rw [if_neg (show ¬(slash :: (who ++ tail)).head? ≠ some slash from not_not_intro rfl),
        if_neg hroot, hnone]
      dsimp only
      rw [List.tail_cons, (parsePid_iff (tail_head htail)).mpr ⟨who, rfl, hwho⟩, Option.bind_some]
      exact pidNode_iff.mpr htail

end Recogniser

section Exact

variable {k : ProcState} {path : Path} {node : ProcPath}

def InGrammar (path : Path) : Prop := ∃ k node, Denotes id k path node

def ParsesExactly (k : ProcState) (path : Path) : Prop :=
  (∀ node, k.procParsePath path = some node ↔ Denotes id k path node) ∧
    (InGrammar path → ∃ node, k.procParsePath path = some node)

def NamesSelf (path : Path) : Prop :=
  ∃ pid tail node, Tail id pid tail node ∧ path = slash :: (byteText "self" ++ tail)

def ProcPath.fd : ProcPath → Nat
  | .pidFdFile _ fd => fd
  | _ => 0

def NumbersFit (k : ProcState) (path : Path) : Prop :=
  ∀ node, Denotes id k path node → node.pid < 2 ^ 32 ∧ node.fd < 2 ^ 32

theorem number_word {text : Path} {n : Nat} (h : Number id text n) (hn : n < 2 ^ 32) :
    Number word text n :=
  ⟨h.written, h.digits, h.value.trans (Nat.mod_eq_of_lt (h.value ▸ hn)).symm⟩

theorem Tail.pid {read : Nat → Nat} {pid : Nat} {tail : Path} (h : Tail read pid tail node) :
    node.pid = pid := by
  cases h <;> rfl

theorem Denotes.words (h : Denotes id k path node) (hpid : node.pid < 2 ^ 32)
    (hfd : node.fd < 2 ^ 32) : Denotes word k path node := by
  cases h with
  | root => exact .root
  | sysFile id => exact .sysFile id
  | @task who tail pid node hwho htail =>
    rw [htail.pid] at hpid
    have hwho' : Who word k who pid := by
      cases hwho with
      | self hi => exact .self hi
      | number hnumber => exact .number (number_word hnumber hpid)
    refine .task hwho' ?_
    cases htail with
    | done => exact .done
    | dir => exact .dir
    | file id => exact .file id
    | fdDir => exact .fdDir
    | fdDirSlash => exact .fdDirSlash
    | fd hnumber => exact .fd (number_word hnumber hfd)

theorem Tail.at_pid {read : Nat → Nat} {pid : Nat} {tail : Path} (h : Tail read pid tail node)
    (pid' : Nat) : ∃ node', Tail read pid' tail node' := by
  cases h with
  | done => exact ⟨_, .done⟩
  | dir => exact ⟨_, .dir⟩
  | file id => exact ⟨_, .file id⟩
  | fdDir => exact ⟨_, .fdDir⟩
  | fdDirSlash => exact ⟨_, .fdDirSlash⟩
  | fd hnumber => exact ⟨_, .fd hnumber⟩

theorem Denotes.in_grammar (h : Denotes word k path node) : ∃ node', Denotes id k path node' := by
  cases h with
  | root => exact ⟨_, .root⟩
  | sysFile id => exact ⟨_, .sysFile id⟩
  | @task who tail pid node hwho htail =>
    obtain ⟨pid', hwho'⟩ : ∃ pid', Who id k who pid' := by
      cases hwho with
      | self hi => exact ⟨_, .self hi⟩
      | number hnumber => exact ⟨_, .number ⟨hnumber.written, hnumber.digits, rfl⟩⟩
    obtain ⟨node', htail'⟩ : ∃ node', Tail id pid' tail node' := by
      cases htail with
      | done => exact ⟨_, .done⟩
      | dir => exact ⟨_, .dir⟩
      | file id => exact ⟨_, .file id⟩
      | fdDir => exact ⟨_, .fdDir⟩
      | fdDirSlash => exact ⟨_, .fdDirSlash⟩
      | fd hnumber => exact ⟨_, .fd ⟨hnumber.written, hnumber.digits, rfl⟩⟩
    exact ⟨node', .task hwho' htail'⟩

theorem Denotes.numbers (hpids : ∀ i, (k.tasks i).pid < 2 ^ 32) (h : Denotes word k path node) :
    node.pid < 2 ^ 32 ∧ node.fd < 2 ^ 32 := by
  have hword (n : Nat) : word n < 2 ^ 32 := Nat.mod_lt _ (by decide)
  cases h with
  | root => exact ⟨by decide, by decide⟩
  | sysFile id => exact ⟨by simp [ProcPath.pid], by simp [ProcPath.fd]⟩
  | @task who tail pid node hwho htail =>
    refine ⟨?_, ?_⟩
    · rw [htail.pid]
      cases hwho with
      | self hi => exact hpids _
      | number hnumber =>
        rw [hnumber.value]
        exact hword _
    · cases htail with
      | fd hnumber =>
        rw [ProcPath.fd, hnumber.value]
        exact hword _
      | _ => exact Nat.two_pow_pos 32

theorem denotes_exactly_iff (hpids : ∀ i, (k.tasks i).pid < 2 ^ 32) :
    (∀ node, k.procParsePath path = some node ↔ Denotes id k path node) ↔ NumbersFit k path := by
  constructor
  · intro hexact node hnode
    exact (parsePath_iff.mp ((hexact node).mpr hnode)).numbers hpids
  · intro hfit node
    rw [parsePath_iff]
    constructor
    · intro hnode
      obtain ⟨node', hnode'⟩ := hnode.in_grammar
      obtain ⟨hpid, hfd⟩ := hfit node' hnode'
      have hsame := (parsePath_iff.mpr hnode).symm.trans
        (parsePath_iff.mpr (hnode'.words hpid hfd))
      rw [Option.some.inj hsame]
      exact hnode'
    · intro hnode
      obtain ⟨hpid, hfd⟩ := hfit node hnode
      exact hnode.words hpid hfd

theorem current_of_self (hself : NamesSelf path) (h : Denotes word k path node) :
    k.currentTask ≠ none := by
  obtain ⟨pid, rest, node', htail, rfl⟩ := hself
  generalize hpath : slash :: (byteText "self" ++ rest) = p at h
  cases h with
  | root =>
    have hnil := (List.cons.inj hpath).2
    exact absurd (List.append_eq_nil_iff.mp hnil).1 (by decide)
  | sysFile id => cases id <;> simp [sysFileName, byteText, Words.byteText] at hpath
  | task hwho _ =>
    cases hwho with
    | self hcurrent => exact hcurrent ▸ Option.some_ne_none _
    | number hnumber =>
      obtain ⟨c, cs, rfl, hc⟩ := digit_head hnumber
      obtain rfl : (115 : UInt8) = c := (List.cons.inj (List.cons.inj hpath).2).1
      exact absurd hc (by decide)

theorem InGrammar.meant (h : InGrammar path) (hself : NamesSelf path → k.currentTask ≠ none) :
    ∃ node, Denotes id k path node := by
  obtain ⟨k', node, h⟩ := h
  cases h with
  | root => exact ⟨_, .root⟩
  | sysFile id => exact ⟨_, .sysFile id⟩
  | @task who tail pid node hwho htail =>
    cases hwho with
    | self _ =>
      obtain ⟨i, hi⟩ := Option.ne_none_iff_exists'.mp (hself ⟨_, tail, node, htail, rfl⟩)
      obtain ⟨node', htail'⟩ := htail.at_pid (k.tasks i).pid
      exact ⟨node', .task (.self hi) htail'⟩
    | number hnumber => exact ⟨node, .task (.number hnumber) htail⟩

def taskTwo : Task :=
  { pid := 2, ppid := 1, cr3 := 0, userSlot := 0, userPhysBase := 0, state := .running,
    stack := none, next := 0, wakeTick := 0, exitStatus := 0, termSignal := 0, ttyPath := [],
    progPath := [], cmdline := [] }

def taskTwoRuns : ProcState :=
  { tasks := fun _ => taskTwo, taskCount := 1, currentTask := some 0, timerTicks := 0,
    totalHeap := 0, usedHeap := 0, freeHeap := 0, taskFds := fun _ _ => HouseOS.Syscall.closedFd,
    taskFdInit := fun _ => true, mem := fun _ => 0 }

theorem NamesSelf.in_grammar (h : NamesSelf path) : InGrammar path := by
  obtain ⟨pid, tail, node, htail, rfl⟩ := h
  obtain ⟨node', htail'⟩ := htail.at_pid taskTwo.pid
  exact ⟨taskTwoRuns, node', .task (.self rfl) htail'⟩

theorem parses_exactly_iff (k : ProcState) (path : Path) (hpids : ∀ i, (k.tasks i).pid < 2 ^ 32) :
    ParsesExactly k path ↔ NumbersFit k path ∧ (NamesSelf path → k.currentTask ≠ none) := by
  rw [ParsesExactly, denotes_exactly_iff hpids]
  refine and_congr_right fun hfit => ⟨fun htaken hself => ?_, fun hcurrent hgrammar => ?_⟩
  · obtain ⟨node, hnode⟩ := htaken hself.in_grammar
    exact current_of_self hself (parsePath_iff.mp hnode)
  · obtain ⟨node, hnode⟩ := hgrammar.meant hcurrent
    exact ⟨node, ((denotes_exactly_iff hpids).mpr hfit node).mpr hnode⟩

theorem self_status_parsed : ParsesExactly taskTwoRuns (byteText "/self/status") := by
  refine (parses_exactly_iff taskTwoRuns (byteText "/self/status") (fun _ => by
    show taskTwo.pid < 2 ^ 32; decide)).mpr ⟨fun node hnode => ?_, fun _ => Option.some_ne_none _⟩
  generalize hpath : byteText "/self/status" = p at hnode
  cases hnode with
  | root => exact absurd hpath (by decide)
  | sysFile id => cases id <;> exact absurd hpath (by decide)
  | @task who tail pid node hwho htail =>
    cases hwho with
    | self _ =>
      have hrest : byteText "self" ++ byteText "/status" = byteText "self" ++ tail :=
        (List.cons.inj hpath).2
      have htail_eq := List.append_cancel_left hrest
      refine ⟨htail.pid.symm ▸ (by decide : taskTwo.pid < 2 ^ 32), ?_⟩
      cases htail with
      | fd _ => exact absurd (congrArg (·[1]?) htail_eq) (by simp [byteText, Words.byteText])
      | _ => exact Nat.two_pow_pos 32
    | number hnumber =>
      obtain ⟨c, cs, rfl, hc⟩ := digit_head hnumber
      obtain rfl : (115 : UInt8) = c := (List.cons.inj (List.cons.inj hpath).2).1
      exact absurd hc (by decide)

-- 4294967298 is 2^32 + 2
theorem long_pid_is_task_two : ¬ParsesExactly taskTwoRuns (byteText "/4294967298/status") := by
  rintro ⟨hexact, -⟩
  have htwo : taskTwoRuns.procParsePath (byteText "/4294967298/status") =
      some (.pidFile 2 .status) := by decide
  have hdigits : (byteText "4294967298").all isDigit = true := by decide
  have hfar : Denotes id taskTwoRuns (byteText "/4294967298/status")
      (.pidFile 4294967298 .status) :=
    .task (.number ⟨by decide, List.all_eq_true.mp hdigits, by decide⟩) (.file .status)
  have hsame := htwo.symm.trans ((hexact _).mpr hfar)
  exact absurd hsame (by decide)

end Exact

end HouseOS.Procfs
