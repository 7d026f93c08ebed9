import HouseOS.Args.Interp
import HouseOS.Args.Stack

namespace HouseOS.Args

open HouseOS.ByteMem

def loaderMaxArgs : Nat := 64

def strlen (m : Mem) : Nat → Nat → Option Nat
  | 0, _ => none
  | n + 1, p => if m p = 0 then some 0 else (strlen m n (p + 1)).map (· + 1)

-- the last argument is copied first, from where it stands
def copyArgs (m : Mem) (sp : Nat) : List Nat → Option (Mem × Nat × List Nat)
  | [] => some (m, sp, [])
  | p :: ps =>
      (copyArgs m sp ps).bind fun (m, sp, ptrs) =>
        if p = 0 then none
        else
          (strlen m (2 ^ 32 - p) p).bind fun n =>
            let len := n + 1
            if sp < userVaddrBase + len + 256 then none
            else some (copy m (sp - len) p len, sp - len, (sp - len) :: ptrs)

def buildStackFromArgv (m : Mem) (argv : List Nat) : Option (Mem × Nat) :=
  if loaderMaxArgs < argv.length then none
  else
    (copyArgs m (userStackTop - userStackTop % 4) argv).map fun (m, sp, ptrs) =>
      pushFrame m sp argv.length ptrs

def forwardArgv (m : Mem) (argc argv : Nat) : Option (Mem × Nat) :=
  if loaderMaxArgs < argc - 1 then none
  else buildStackFromArgv m ((List.range' 1 (argc - 1)).map fun i => load32 m (argv + 4 * i))

section Layout

variable {m m' : Mem} {top sp : Nat} {args : List Text} {ptrs : List Nat}

def places (top : Nat) : List Text → List Nat
  | [] => []
  | arg :: args => (top - stringsSize (arg :: args)) :: places top args

def Stands (m : Mem) (top : Nat) : List Text → Prop
  | [] => True
  | arg :: args => BytesAt m (top - stringsSize (arg :: args)) (arg ++ [0]) ∧ Stands m top args

theorem length_places (top : Nat) (args : List Text) : (places top args).length = args.length := by
  induction args with
  | nil => rfl
  | cons arg args ih => rw [places, List.length_cons, List.length_cons, ih]

theorem places_le (htop : stringsSize args ≤ top) : ∀ p ∈ places top args,
    top - stringsSize args ≤ p ∧ p < top := by
  induction args with
  | nil => exact fun p hp => (List.not_mem_nil hp).elim
  | cons arg args ih =>
    intro p hp
    rw [stringsSize_cons] at htop ⊢
    rcases List.mem_cons.mp hp with rfl | hp
    · rw [stringsSize_cons]
      omega
    · have hrest := ih (by omega) p hp
      omega

theorem Stands.congr (h : Stands m top args) (htop : stringsSize args ≤ top)
    (hsame : ∀ x, top - stringsSize args ≤ x → x < top → m' x = m x) : Stands m' top args := by
  induction args with
  | nil => trivial
  | cons arg args ih =>
    rw [stringsSize_cons] at htop hsame
    obtain ⟨hbytes, hrest⟩ := h
    refine ⟨hbytes.congr fun x hx hlt => hsame x ?_ ?_, ih hrest (by omega) fun x hx hlt => ?_⟩
    · rwa [stringsSize_cons] at hx
    · rw [stringsSize_cons, List.length_append, List.length_singleton] at hlt
      omega
    · exact hsame x (by omega) hlt

theorem Stands.strings (h : Stands m top args) (htop : stringsSize args ≤ top) :
    Strings m (top - stringsSize args) top (places top args) args := by
  induction args with
  | nil => exact List.Forall₂.nil
  | cons arg args ih =>
    obtain ⟨hbytes, hrest⟩ := h
    rw [stringsSize_cons] at htop hbytes ⊢
    rw [places, stringsSize_cons]
    refine List.Forall₂.cons ⟨Nat.le_refl _, by omega, hbytes⟩ ?_
    exact (ih hrest (by omega)).congr (by omega) fun _ _ _ => rfl

theorem pushStrings_places (h : pushStrings m top args = some (m', sp, ptrs)) :
    sp = top - stringsSize args ∧ ptrs = places top args ∧ Stands m' top args ∧
      (args ≠ [] → userVaddrBase + 256 + stringsSize args ≤ top) ∧
        ∀ x, x < sp ∨ top ≤ x → m' x = m x := by
  induction args generalizing m' sp ptrs with
  | nil =>
    cases h
    exact ⟨rfl, rfl, trivial, fun h => absurd rfl h, fun _ _ => rfl⟩
  | cons arg args ih =>
    obtain ⟨⟨m₁, sp₁, ptrs₁⟩, hpush, h⟩ := Option.bind_eq_some_iff.mp h
    obtain ⟨hsp₁, hptrs₁, hstands, -, hsame⟩ := ih hpush
    dsimp only at h
    split at h
    · cases h
    · rename_i hroom
      cases h
      have hsp : sp₁ - (arg.length + 1) = top - stringsSize (arg :: args) := by
        rw [hsp₁, stringsSize_cons]
        omega
      have hlen : (arg ++ [0]).length = arg.length + 1 := by
        rw [List.length_append, List.length_singleton]
      refine ⟨hsp, by rw [hsp, hptrs₁, places], ⟨?_, ?_⟩, fun _ => ?_, fun x hx => ?_⟩
      · rw [hsp]
        exact bytesAt_storeBytes _ _ _
      · refine hstands.congr (by omega) fun x hx _ => storeBytes_ne _ (Or.inr ?_)
        rw [hlen]
        omega
      · rw [stringsSize_cons]
        omega
      · rw [storeBytes_ne _ (by rw [hlen]; omega), hsame x (by omega)]

theorem strlen_at {text : Text} {p n : Nat} (h : BytesAt m p (text ++ [0])) (hzero : 0 ∉ text)
    (hn : text.length < n) : strlen m n p = some text.length := by
  induction n generalizing text p with
  | zero => exact absurd hn (Nat.not_lt_zero _)
  | succ n ih =>
    cases text with
    | nil =>
      rw [strlen, if_pos]
      · rfl
      · exact h 0 0 rfl
    | cons c text =>
      have hc : m p = c := h 0 c rfl
      have hne : c ≠ 0 := fun h0 => hzero (h0 ▸ List.mem_cons_self)
      have hrest : BytesAt m (p + 1) (text ++ [0]) := by
        intro k b hb
        have hk := h (k + 1) b hb
        rwa [Nat.add_comm k, ← Nat.add_assoc] at hk
      have hlen : text.length < n := Nat.lt_of_succ_lt_succ hn
      rw [strlen, if_neg (hc ▸ hne), ih hrest (fun h0 => hzero (List.mem_cons_of_mem c h0)) hlen]
      rfl

-- copied again from the same end, every string comes to stand where it stood
theorem copyArgs_same (h : Stands m top args) (hzero : ∀ arg ∈ args, 0 ∉ arg)
    (hroom : args ≠ [] → userVaddrBase + 256 + stringsSize args ≤ top) (htop : top < 2 ^ 32) :
    copyArgs m top (places top args) = some (m, top - stringsSize args, places top args) := by
  induction args with
  | nil => rfl
  | cons arg args ih =>
    have hbase : 0 < userVaddrBase := by decide
    have hfits := hroom (List.cons_ne_nil arg args)
    have hplace : top - stringsSize args - (arg.length + 1) = top - stringsSize (arg :: args) := by
      rw [stringsSize_cons]
      omega
    rw [stringsSize_cons] at hfits
    obtain ⟨hbytes, hrest⟩ := h
    have hlast := ih hrest (fun a ha => hzero a (List.mem_cons_of_mem arg ha)) fun _ => by omega
    have hp : top - stringsSize (arg :: args) ≠ 0 := by
      rw [← hplace]
      omega
    have hlen : strlen m (2 ^ 32 - (top - stringsSize (arg :: args)))
        (top - stringsSize (arg :: args)) = some arg.length := by
      refine strlen_at hbytes (hzero arg List.mem_cons_self) ?_
      rw [← hplace]
      omega
    rw [places, copyArgs, hlast, Option.bind_some]
    dsimp only
    rw [if_neg hp, hlen, Option.bind_some, if_neg (by omega), hplace, copy_self]

end Layout

section Frame

theorem pushFrame_spec (m : Mem) (sp n : Nat) (ptrs : List Nat) (hsp : 4 * ptrs.length + 12 ≤ sp) (hn : n < 2 ^ 32) :
    ∃ m', pushFrame m sp n ptrs = (m', sp - sp % 4 - 8 - 4 * ptrs.length) ∧
      load32 m' (sp - sp % 4 - 8 - 4 * ptrs.length) = n ∧
      (∀ i p, ptrs[i]? = some p →
        load32 m' (sp - sp % 4 - 8 - 4 * ptrs.length + 4 + 4 * i) = p % 2 ^ 32) ∧
      ∀ x, x < sp - sp % 4 - 8 - 4 * ptrs.length ∨ sp ≤ x → m' x = m x := by
  obtain ⟨m₁, hpush, hwords, hsame⟩ := pushPtrs_words ptrs (store32 m (sp - sp % 4 - 4) 0)
    (sp - sp % 4 - 4) (by omega)
  have hlast : sp - sp % 4 - 4 - 4 * ptrs.length - 4 = sp - sp % 4 - 8 - 4 * ptrs.length := by omega
  refine ⟨store32 m₁ (sp - sp % 4 - 8 - 4 * ptrs.length) n, ?_, ?_, fun i p hp => ?_, fun x hx => ?_⟩
  · rw [pushFrame]
    dsimp only
    rw [hpush]
    dsimp only
    rw [hlast]
  · rw [load32_store32_same, Nat.mod_eq_of_lt hn]
  · rw [load32_store32_ne _ (by omega), ← hwords i p hp]
    congr 1
    omega
  · rw [store32_ne _ (by omega), hsame x (by omega), store32_ne _ (by omega)]

end Frame

section Texts

theorem readToken_mem {text tok : Text} {sq dq : Bool} {t : Token}
    (h : readToken text sq dq tok = some t) :
    (∀ c ∈ t.text, c ∈ tok ∨ c ∈ text) ∧ ∀ c ∈ t.rest, c ∈ text := by
  have hput {c : UInt8} {rest tok : Text} (hmem : (∀ x ∈ t.text, x ∈ tok ++ [c] ∨ x ∈ rest) ∧
      ∀ x ∈ t.rest, x ∈ rest) {before : Text} (hc : c ∈ before) (hrest : ∀ x ∈ rest, x ∈ before) :
      (∀ x ∈ t.text, x ∈ tok ∨ x ∈ before) ∧ ∀ x ∈ t.rest, x ∈ before := by
    refine ⟨fun x hx => ?_, fun x hx => hrest x (hmem.2 x hx)⟩
    rcases hmem.1 x hx with hx | hx
    · rcases List.mem_append.mp hx with hx | hx
      · exact .inl hx
      · exact .inr (List.mem_singleton.mp hx ▸ hc)
    · exact .inr (hrest x hx)
  have hdrop {c : UInt8} {rest tok : Text} (hmem : (∀ x ∈ t.text, x ∈ tok ∨ x ∈ rest) ∧
      ∀ x ∈ t.rest, x ∈ rest) :
      (∀ x ∈ t.text, x ∈ tok ∨ x ∈ c :: rest) ∧ ∀ x ∈ t.rest, x ∈ c :: rest :=
    ⟨fun x hx => (hmem.1 x hx).imp_right (List.mem_cons_of_mem c),
      fun x hx => List.mem_cons_of_mem c (hmem.2 x hx)⟩
  fun_induction readToken text sq dq tok with
  | case1 | case3 | case4 =>
    cases h
    exact ⟨fun _ hx => .inl hx, fun _ hx => (List.not_mem_nil hx).elim⟩
  | case2 | case7 =>
    cases h
    exact ⟨fun _ hx => .inl hx, fun _ hx => hx⟩
  | case5 | case8 | case12 => cases h
  | case6 c sq dq tok _ _ _ hroom =>
    cases h
    refine ⟨fun x hx => ?_, fun _ hx => (List.not_mem_nil hx).elim⟩
    exact List.mem_append.mp hx
  | case9 c c' rest sq dq tok _ _ hroom ih =>
    refine hput (ih h) (List.mem_cons_of_mem c List.mem_cons_self) fun x hx => ?_
    exact List.mem_cons_of_mem c (List.mem_cons_of_mem c' hx)
  | case10 c c' rest sq dq tok _ _ _ ih => exact hdrop (ih h)
  | case11 c c' rest sq dq tok _ _ _ _ ih => exact hdrop (ih h)
  | case13 c c' rest sq dq tok _ _ _ _ hroom ih =>
    exact hput (ih h) List.mem_cons_self fun x hx => List.mem_cons_of_mem c hx

theorem splitLoop_mem : ∀ (fuel : Nat) {text : Text} {acc r : List Text} {z : UInt8},
    splitLoop fuel text acc = some r → z ∉ text → (∀ a ∈ acc, z ∉ a) → ∀ a ∈ r, z ∉ a := by
  intro fuel
  induction fuel with
  | zero =>
    intro text acc r z h _ hacc
    cases h
    exact hacc
  | succ fuel ih =>
    intro text acc r z h htext hacc
    rw [splitLoop] at h
    have hskip : z ∉ skipSpaces text := fun hz => htext ((List.dropWhile_sublist _).subset hz)
    split at h
    · cases h
      exact hacc
    · rename_i c rest htail
      rw [htail] at hskip
      split at h
      · cases h
      · obtain ⟨t, hread, h⟩ := Option.bind_eq_some_iff.mp h
        obtain ⟨hchars, hrest⟩ := readToken_mem hread
        split at h
        · cases h
        · refine ih h (fun hz => hskip (hrest z hz)) fun a ha => ?_
          rcases List.mem_append.mp ha with ha | ha
          · exact hacc a ha
          · rw [List.mem_singleton.mp ha]
            exact fun hz => hskip ((hchars z hz).resolve_left List.not_mem_nil)

end Texts

section Forward

variable {room : Bool} {m m₁ m₂ : Mem} {cmd : Text} {argv : List Text} {sp : Nat}

-- what the kernel leaves on the stack of the program it starts
structure Built (m₁ : Mem) (sp : Nat) (argv : List Text) : Prop where
  strings : Stands m₁ userStackTop argv
  room : argv ≠ [] → userVaddrBase + 256 + stringsSize argv ≤ userStackTop
  bottom : sp = userStackTop - stringsSize argv - (userStackTop - stringsSize argv) % 4 - 8 -
    4 * argv.length
  argc : load32 m₁ sp = argv.length
  words : ∀ i p, (places userStackTop argv)[i]? = some p → load32 m₁ (sp + 4 + 4 * i) = p

theorem built_of_build (hsplit : splitCmdline cmd = some argv) (hmany : argv ≠ [])
    (hbuild : buildUserStackFromCmdline room m cmd = some (m₁, sp)) : Built m₁ sp argv := by
  have htop : userStackTop - userStackTop % 4 = userStackTop := by decide
  have hvalue : userStackTop = 8388592 := by decide
  have hbase : userVaddrBase = 4194304 := by decide
  have hlimits : withinLimits argv := (splitLoop_grows _ hsplit ⟨Nat.zero_le _, nofun⟩).1
  rw [buildUserStackFromCmdline] at hbuild
  split at hbuild
  · cases hbuild
  rw [hsplit, Option.bind_some, htop] at hbuild
  obtain ⟨⟨m₀, s₀, ptrs⟩, hpush, hframe⟩ := Option.map_eq_some_iff.mp hbuild
  obtain ⟨hs₀, hptrs, hstands, hroom, -⟩ := pushStrings_places hpush
  have hfits := hroom hmany
  have hlen : ptrs.length = argv.length := by rw [hptrs, length_places]
  have hcount := hlimits.1
  obtain ⟨m', hm', hargc, hwords, hsame⟩ :=
    pushFrame_spec m₀ s₀ argv.length ptrs (by omega) (by omega)
  dsimp only at hframe
  rw [hm'] at hframe
  cases hframe
  rw [hlen, hs₀] at hargc hwords hsame
  rw [hlen, hs₀]
  refine ⟨hstands.congr (by omega) fun x hx _ => hsame x (Or.inr hx), hroom, rfl, hargc,
    fun i p hp => ?_⟩
  rw [hwords i p (hptrs ▸ hp), Nat.mod_eq_of_lt]
  have hle := places_le (by omega) p (List.mem_of_getElem? hp)
  omega

theorem Built.kept (h : Built m₁ sp argv) (hmany : argv ≠ []) (hcount : argv.length ≤ 32)
    (hkept : ∀ x, sp ≤ x → m₂ x = m₁ x) : Built m₂ sp argv := by
  have hfits := h.room hmany
  have hsp := h.bottom
  refine ⟨h.strings.congr (by omega) fun x hx _ => hkept x (by omega), h.room, hsp, ?_,
    fun i p hp => ?_⟩
  · rw [load32_congr fun x hx _ => hkept x hx]
    exact h.argc
  · rw [load32_congr fun x hx _ => hkept x (by omega)]
    exact h.words i p hp

theorem Built.tail {arg : Text} {args : List Text} (h : Built m₁ sp (arg :: args)) :
    (List.range' 1 args.length).map (fun i => load32 m₁ (sp + 4 + 4 * i)) =
      places userStackTop args := by
  refine List.ext_getElem (by rw [List.length_map, List.length_range', length_places])
    fun i hi hi' => ?_
  have hplace : (places userStackTop (arg :: args))[i + 1]? =
      some ((places userStackTop args)[i]) := by
    rw [places, List.getElem?_cons_succ, List.getElem?_eq_getElem hi']
  rw [List.getElem_map, List.getElem_range', Nat.one_mul, Nat.add_comm 1 i]
  exact h.words (i + 1) _ hplace

theorem argv_forwarded (room : Bool) (m m₁ m₂ : Mem) {cmd : Text} {argv : List Text} {sp : Nat}
    (hcmd : 0 ∉ cmd) (hsplit : splitCmdline cmd = some argv) (hmany : 2 ≤ argv.length)
    (hbuild : buildUserStackFromCmdline room m cmd = some (m₁, sp))
    (hkept : ∀ x, sp ≤ x → m₂ x = m₁ x) :
    ∃ m' sp', forwardArgv m₂ (load32 m₂ sp) (sp + 4) = some (m', sp') ∧ HoldsArgv m' sp' argv.tail ∧
      ∀ x, x < sp → m' x = m₂ x := by
  have htop : userStackTop - userStackTop % 4 = userStackTop := by decide
  have hvalue : userStackTop = 8388592 := by decide
  have hbase : userVaddrBase = 4194304 := by decide
  have hend : userVaddrEnd = 8388608 := by decide
  have hne : argv ≠ [] := List.ne_nil_of_length_pos (by omega)
  have hlimits : withinLimits argv := (splitLoop_grows _ hsplit ⟨Nat.zero_le _, nofun⟩).1
  have hcount := hlimits.1
  have hbuilt := (built_of_build hsplit hne hbuild).kept hne hcount hkept
  have htexts : ∀ a ∈ argv, 0 ∉ a := splitLoop_mem _ hsplit hcmd nofun
  obtain ⟨arg, args, rfl⟩ := List.exists_cons_of_ne_nil hne
  have hfits := hbuilt.room hne
  have hbottom := hbuilt.bottom
  rw [stringsSize_cons] at hfits hbottom
  rw [List.length_cons] at hcount hbottom
  have hcopy : copyArgs m₂ userStackTop (places userStackTop args) =
      some (m₂, userStackTop - stringsSize args, places userStackTop args) :=
    copyArgs_same hbuilt.strings.2 (fun a ha => htexts a (List.mem_cons_of_mem arg ha))
      (fun _ => by omega) (by omega)
  have hstrings : Strings m₂ (userStackTop - stringsSize args) userVaddrEnd
      (places userStackTop args) args :=
    (hbuilt.strings.2.strings (by omega)).imp fun _ _ hp =>
      ⟨hp.1, Nat.le_trans hp.2.1 (by omega), hp.2.2⟩
  obtain ⟨m', sp', hframe, hholds⟩ := pushFrame_holds hstrings (by omega) (by omega)
  obtain ⟨m'', hspec, -, -, hsame⟩ := pushFrame_spec m₂
    (userStackTop - stringsSize args) args.length (places userStackTop args)
    (by rw [length_places]; omega) (by omega)
  rw [hframe] at hspec
  cases hspec
  refine ⟨m', _, ?_, hholds, fun x hx => hsame x (Or.inl ?_)⟩
  · rw [hbuilt.argc, forwardArgv, List.length_cons, Nat.add_sub_cancel, if_neg, hbuilt.tail,
      buildStackFromArgv, length_places, if_neg, htop, hcopy, Option.map_some]
    · rw [length_places] at hframe
      exact congrArg some hframe
    · simp only [loaderMaxArgs]
      omega
    · simp only [loaderMaxArgs]
      omega
  · rw [length_places]
    omega

theorem argv_forwarded_pair : ∃ m₁ sp m' sp',
    buildUserStackFromCmdline true (fun _ => 0) [112, 32, 120] = some (m₁, sp) ∧
      forwardArgv m₁ (load32 m₁ sp) (sp + 4) = some (m', sp') ∧ HoldsArgv m' sp' [[120]] ∧
      ∀ x, x < sp → m' x = m₁ x := by
  have hsplit : splitCmdline [112, 32, 120] = some [[112], [120]] := by decide
  obtain ⟨m₁, sp, hbuild, -⟩ :=
    @buildUserStack_holds _ _ (fun _ => 0) hsplit (by decide) (by decide)
  obtain ⟨m', sp', hforward⟩ := argv_forwarded true (fun _ => 0) m₁ m₁ (by decide) hsplit
    (by decide) hbuild fun _ _ => rfl
  exact ⟨m₁, sp, m', sp', hbuild, hforward⟩

end Forward

end HouseOS.Args
