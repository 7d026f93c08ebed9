import HouseOS.Args.RoundTrip
import Mathlib.Data.List.Forall2

namespace HouseOS.Args

open HouseOS.ByteMem

def userVaddrEnd : Nat := userVaddrBase + userVaddrSize

def StringAt (m : Mem) (lo hi p : Nat) (arg : Text) : Prop :=
  lo ≤ p ∧ p + arg.length + 1 ≤ hi ∧ BytesAt m p (arg ++ [0])

structure HoldsArgv (m : Mem) (sp : Nat) (argv : List Text) : Prop where
  argc : load32 m sp = argv.length
  strings : ∀ (i : Nat) (arg : Text), argv[i]? = some arg →
    StringAt m userVaddrBase userVaddrEnd (load32 m (sp + 4 + 4 * i)) arg
  last : load32 m (sp + 4 + 4 * argv.length) = 0
  above : userVaddrBase ≤ sp
  below : sp + 8 + 4 * argv.length ≤ userVaddrEnd

section Strings

variable {m m' : Mem} {lo lo' hi sp : Nat} {ptrs : List Nat} {args : List Text}

def stringsSize (args : List Text) : Nat := (args.map fun arg => arg.length + 1).sum

theorem stringsSize_cons (arg : Text) (args : List Text) :
    stringsSize (arg :: args) = arg.length + 1 + stringsSize args := by
  simp [stringsSize]

theorem stringsSize_le {n : Nat} : ∀ {args : List Text}, (∀ a ∈ args, a.length + 1 ≤ n) →
    stringsSize args ≤ n * args.length := by
  intro args
  induction args with
  | nil => exact fun _ => Nat.zero_le _
  | cons arg args ih =>
    intro hlen
    have harg := hlen arg List.mem_cons_self
    have hrest := ih fun a ha => hlen a (List.mem_cons_of_mem arg ha)
    rw [stringsSize_cons, List.length_cons, Nat.mul_succ]
    omega

def Strings (m : Mem) (lo hi : Nat) : List Nat → List Text → Prop :=
  List.Forall₂ (StringAt m lo hi)

theorem StringAt.congr {p : Nat} {arg : Text} (h : StringAt m lo hi p arg) (hlo : lo' ≤ lo)
    (hsame : ∀ x, lo ≤ x → x < hi → m' x = m x) : StringAt m' lo' hi p arg := by
  obtain ⟨habove, hbelow, hbytes⟩ := h
  refine ⟨by omega, hbelow, hbytes.congr fun x hx hlt => hsame x (by omega) ?_⟩
  rw [List.length_append, List.length_singleton] at hlt
  omega

theorem Strings.congr (h : Strings m lo hi ptrs args) (hlo : lo' ≤ lo)
    (hsame : ∀ x, lo ≤ x → x < hi → m' x = m x) : Strings m' lo' hi ptrs args :=
  h.imp fun _ _ hp => hp.congr hlo hsame

theorem pushStrings_strings : ∀ (args : List Text) (m : Mem) (sp : Nat),
    userVaddrBase + 256 + stringsSize args ≤ sp → ∃ m' ptrs,
      pushStrings m sp args = some (m', sp - stringsSize args, ptrs) ∧
        Strings m' (sp - stringsSize args) sp ptrs args := by
  intro args
  induction args with
  | nil => exact fun m sp _ => ⟨m, [], rfl, List.Forall₂.nil⟩
  | cons arg args ih =>
    intro m sp hsp
    rw [stringsSize_cons] at hsp ⊢
    obtain ⟨m₁, ptrs, hpush, hstr⟩ := ih m sp (by omega)
    have hroom : ¬ sp - stringsSize args < userVaddrBase + (arg.length + 1) + 256 := by omega
    have hsub : sp - stringsSize args - (arg.length + 1) = sp - (arg.length + 1 + stringsSize args) := by
      omega
    refine ⟨storeBytes m₁ (sp - (arg.length + 1 + stringsSize args)) (arg ++ [0]),
      (sp - (arg.length + 1 + stringsSize args)) :: ptrs, ?_, List.Forall₂.cons ?_ ?_⟩
    · rw [pushStrings, hpush]
      dsimp only [Option.bind_some]
      rw [if_neg hroom, hsub]
    · exact ⟨le_refl _, by omega, bytesAt_storeBytes _ _ _⟩
    · refine hstr.congr (by omega) fun x hx _ => storeBytes_ne _ (Or.inr ?_)
      rw [List.length_append, List.length_singleton]
      omega

theorem pushPtrs_words : ∀ (ptrs : List Nat) (m : Mem) (sp : Nat), 4 * ptrs.length ≤ sp →
    ∃ m', pushPtrs m sp ptrs = (m', sp - 4 * ptrs.length) ∧
      (∀ i p, ptrs[i]? = some p → load32 m' (sp - 4 * ptrs.length + 4 * i) = p % 2 ^ 32) ∧
      ∀ x, x < sp - 4 * ptrs.length ∨ sp ≤ x → m' x = m x := by
  intro ptrs
  induction ptrs with
  | nil => exact fun m sp _ => ⟨m, rfl, fun i p hp => by simp at hp, fun _ _ => rfl⟩
  | cons q ptrs ih =>
    intro m sp hsp
    rw [List.length_cons] at hsp ⊢
    obtain ⟨m₁, hpush, hwords, hsame⟩ := ih m sp (by omega)
    have hsub : sp - 4 * ptrs.length - 4 = sp - 4 * (ptrs.length + 1) := by omega
    refine ⟨store32 m₁ (sp - 4 * (ptrs.length + 1)) q, ?_, ?_, ?_⟩
    · rw [pushPtrs, hpush]
      dsimp only
      rw [hsub]
    · intro i p hp
      cases i with
      | zero =>
        obtain rfl : q = p := by simpa using hp
        exact load32_store32_same _ _ _
      | succ i =>
        have hi := hwords i p (by simpa using hp)
        have hlen : i < ptrs.length := (List.getElem?_eq_some_iff.mp (by simpa using hp)).1
        rw [load32_store32_ne _ (by omega), ← hi]
        congr 1
        omega
    · intro x hx
      rw [store32_ne q (by omega)]
      exact hsame x (by omega)

end Strings

section Frame

variable {m : Mem} {sp : Nat} {ptrs : List Nat} {args : List Text}

theorem pushFrame_holds (hstr : Strings m sp userVaddrEnd ptrs args)
    (hlow : userVaddrBase + 16 + 4 * args.length ≤ sp) (htop : sp < userVaddrEnd) :
    ∃ m' sp', pushFrame m sp args.length ptrs = (m', sp') ∧ HoldsArgv m' sp' args := by
  have hcount : ptrs.length = args.length := hstr.length_eq
  have hend : userVaddrEnd < 2 ^ 32 := by decide
  obtain ⟨base, hbase⟩ : ∃ base, base = sp - sp % 4 - 4 := ⟨_, rfl⟩
  obtain ⟨m₁, hpush, hwords, hsame⟩ :=
    pushPtrs_words ptrs (store32 m base 0) base (by omega)
  rw [hcount] at hpush hwords hsame
  refine ⟨store32 m₁ (base - 4 * args.length - 4) args.length, base - 4 * args.length - 4, ?_, ?_⟩
  · rw [pushFrame, ← hbase]
    dsimp only
    rw [hpush]
  have hframe : base - 4 * args.length - 4 + 4 = base - 4 * args.length := by omega
  have habove : ∀ x, sp ≤ x →
      store32 m₁ (base - 4 * args.length - 4) args.length x = m x := by
    intro x hx
    rw [store32_ne _ (by omega), hsame x (by omega), store32_ne _ (by omega)]
  refine ⟨?_, fun i arg harg => ?_, ?_, by omega, by omega⟩
  · rw [load32_store32_same, Nat.mod_eq_of_lt (by omega)]
  · have hi : i < ptrs.length := hcount ▸ (List.getElem?_eq_some_iff.mp harg).1
    obtain ⟨hlt, hat⟩ := List.getElem?_eq_some_iff.mp harg
    have hp : StringAt m sp userVaddrEnd ptrs[i] arg := by
      have h := (List.forall₂_iff_get.mp hstr).2 i hi hlt
      rwa [List.get_eq_getElem, List.get_eq_getElem, hat] at h
    have hword := hwords i ptrs[i] (List.getElem?_eq_getElem hi)
    rw [Nat.mod_eq_of_lt (by have := hp.2.1; omega)] at hword
    rw [hframe, load32_store32_ne _ (by omega), hword]
    exact hp.congr (by omega) fun x hx _ => habove x hx
  · have hzero : load32 m₁ base = 0 := by
      rw [load32_congr fun x hx _ => hsame x (Or.inr hx), load32_store32_same, Nat.zero_mod]
    rw [hframe, Nat.sub_add_cancel (by omega), load32_store32_ne _ (by omega), hzero]

end Frame

section Decode

variable {e : Encoder} {argv : List Text} {cmd : Text} {m : Mem}

theorem buildUserStack_holds (hsplit : splitCmdline cmd = some argv) (hcount : argv.length ≤ 32)
    (hlen : ∀ a ∈ argv, a.length ≤ 127) :
    ∃ m' sp, buildUserStackFromCmdline true m cmd = some (m', sp) ∧ HoldsArgv m' sp argv := by
  have hsize : stringsSize argv ≤ 128 * argv.length :=
    stringsSize_le fun a ha => by have := hlen a ha; omega
  have htop : userStackTop - userStackTop % 4 = 8388592 := by decide
  have hbase : userVaddrBase = 4194304 := by decide
  have hend : userVaddrEnd = 8388608 := by decide
  obtain ⟨m₁, ptrs, hpush, hstr⟩ :=
    pushStrings_strings argv m (userStackTop - userStackTop % 4) (by omega)
  have hwide : Strings m₁ (userStackTop - userStackTop % 4 - stringsSize argv) userVaddrEnd ptrs argv :=
    hstr.imp fun _ _ hp => ⟨hp.1, by have := hp.2.1; omega, hp.2.2⟩
  obtain ⟨m', sp, hframe, hholds⟩ := pushFrame_holds hwide (by omega) (by omega)
  refine ⟨m', sp, ?_, hholds⟩
  rw [buildUserStackFromCmdline, if_neg (by simp), hsplit, Option.bind_some, hpush, Option.map_some]
  exact congrArg some hframe

theorem decode_encode (hcount : argv.length ≤ 32) (hlen : ∀ a ∈ argv, a.length ≤ 127)
    (hencode : e.encode argv = some cmd) :
    ∃ m' sp, buildUserStackFromCmdline true m cmd = some (m', sp) ∧
      HoldsArgv m' sp (argv.filter e.keeps) := by
  have hkept := List.length_filter_le e.keeps argv
  rw [encode_some hencode]
  exact buildUserStack_holds (splitCmdline_joined hlen (by omega)) (by omega)
    fun a ha => hlen a (List.mem_of_mem_filter ha)

theorem filter_keeps_eq : argv.filter e.keeps = argv ↔ e = .execve ∨ ∀ a ∈ argv, a ≠ [] := by
  rw [List.filter_eq_self]
  cases e with
  | execve => simp [Encoder.keeps]
  | shell => simp [Encoder.keeps]

def argvSurvives (room : Bool) (m : Mem) (cmd : Text) (argv : List Text) : Prop :=
  ∃ m' sp, buildUserStackFromCmdline room m cmd = some (m', sp) ∧ HoldsArgv m' sp argv

theorem argv_survives_of_stack {kept : List Text}
    (h : ∃ m' sp, buildUserStackFromCmdline true m cmd = some (m', sp) ∧ HoldsArgv m' sp kept)
    (hargv : argvSurvives true m cmd argv) : kept.length = argv.length := by
  obtain ⟨m₁, sp₁, hbuild, hheld⟩ := h
  obtain ⟨m₂, sp₂, hbuild', hheld'⟩ := hargv
  rw [hbuild] at hbuild'
  cases hbuild'
  rw [← hheld.argc, ← hheld'.argc]

theorem argv_survives_iff (room : Bool) (m : Mem) (e : Encoder) {argv : List Text} {cmd : Text}
    (_hmany : 1 ≤ argv.length) (hcount : argv.length ≤ 32) (hlen : ∀ a ∈ argv, a.length ≤ 127)
    (hencode : e.encode argv = some cmd) :
    argvSurvives room m cmd argv ↔ room = true ∧ (e = .execve ∨ ∀ a ∈ argv, a ≠ []) := by
  have hdecode := decode_encode (m := m) hcount hlen hencode
  rw [← filter_keeps_eq]
  constructor
  · intro h
    cases room with
    | false =>
      obtain ⟨m', sp, hbuild, _⟩ := h
      cases hbuild
    | true =>
      have hsame := argv_survives_of_stack hdecode h
      exact ⟨rfl, List.filter_eq_self.mpr (List.length_filter_eq_length_iff.mp hsame)⟩
  · rintro ⟨rfl, hall⟩
    rwa [hall] at hdecode

theorem argv_survives_iff_quoted :
    argvSurvives true (fun _ => 0) [34, 97, 32, 98, 34, 32, 34, 34] [[97, 32, 98], []] :=
  (argv_survives_iff true (fun _ => 0) .execve (by decide) (by decide) (by decide) (by decide)).mpr
    ⟨rfl, Or.inl rfl⟩

theorem empty_argument_lost :
    ∃ (argv : List Text) (cmd : Text), argv.length = 2 ∧ (∀ a ∈ argv, a.length ≤ 127 ∧ (0 : UInt8) ∉ a) ∧
      buildCmdlineFromArgv argv = some cmd ∧ ∀ m, ¬ argvSurvives true m cmd argv := by
  refine ⟨[[97], []], [97, 32], rfl, by decide, by decide, fun m h => ?_⟩
  have hdecode : ∃ m' sp, buildUserStackFromCmdline true m [97, 32] = some (m', sp) ∧
      HoldsArgv m' sp [[97]] := buildUserStack_holds (by decide) (by decide) (by decide)
  exact absurd (argv_survives_of_stack hdecode h) (by decide)

end Decode

end HouseOS.Args
