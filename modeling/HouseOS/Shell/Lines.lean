import HouseOS.Args.Model
import HouseOS.Cmd.Normalize
import HouseOS.Shell.Vars

namespace HouseOS.Shell

open HouseOS.Args (buildCmdlineFromArgv)
open HouseOS.Cmd (shellNormalizePath)
open HouseOS.Words (byteText cut?)

def maxLine : Nat := 1024

def pathCap : Nat := 160

def isDelim (c : UInt8) : Bool := decide (c = 59 ∨ c = 10 ∨ c = 13)

def trimWs (s : Text) : Text := ((s.dropWhile isSpace).reverse.dropWhile isSpace).reverse

-- what a string function sees of a buffer
def upToNul (t : Text) : Text := t.takeWhile (· ≠ 0)

section Scanners

def cutLine : Text → Bool → Bool → Text → List Text × Bool
  | [], sq, dq, seg => ([seg], sq || dq)
  | [c], sq, dq, seg =>
      let sq' := if c = 39 ∧ dq = false then !sq else sq
      let dq' := if c = 34 ∧ sq = false then !dq else dq
      if isDelim c ∧ sq' = false ∧ dq' = false then ([seg, []], false)
      else ([seg ++ [c]], sq' || dq')
  | c :: c' :: cs, sq, dq, seg =>
      if c = 92 then cutLine cs sq dq (seg ++ [c, c'])
      else
        let sq' := if c = 39 ∧ dq = false then !sq else sq
        let dq' := if c = 34 ∧ sq = false then !dq else dq
        if isDelim c ∧ sq' = false ∧ dq' = false then
          (seg :: (cutLine (c' :: cs) false false []).1, (cutLine (c' :: cs) false false []).2)
        else cutLine (c' :: cs) sq' dq' (seg ++ [c])

def splitOutsideQuotes (delim : UInt8) : Text → Bool → Bool → Nat → Option Nat
  | [], _, _, _ => none
  | [c], sq, dq, i =>
      if c = 39 ∧ dq = false then none
      else if c = 34 ∧ sq = false then none
      else if c = delim ∧ sq = false ∧ dq = false then some i
      else none
  | c :: c' :: cs, sq, dq, i =>
      if c = 92 then splitOutsideQuotes delim cs sq dq (i + 2)
      else if c = 39 ∧ dq = false then splitOutsideQuotes delim (c' :: cs) (!sq) dq (i + 1)
      else if c = 34 ∧ sq = false then splitOutsideQuotes delim (c' :: cs) sq (!dq) (i + 1)
      else if c = delim ∧ sq = false ∧ dq = false then some i
      else splitOutsideQuotes delim (c' :: cs) sq dq (i + 1)

end Scanners

section Redirections

inductive RedirKind where
  | input
  | output (append : Bool)
  | error
  deriving DecidableEq, Repr

structure RedirSpec where
  cmd : Text
  inPath : Text
  outPath : Text
  errPath : Text
  outAppend : Bool
  deriving DecidableEq, Repr

def RedirSpec.init : RedirSpec := ⟨[], [], [], [], false⟩

def RedirSpec.put (r : RedirSpec) (text : Text) : Option RedirSpec :=
  if maxLine ≤ r.cmd.length + 1 then none else some { r with cmd := r.cmd ++ text }

def RedirSpec.redirect (r : RedirSpec) (abs : Text) : RedirKind → RedirSpec
  | .input => { r with inPath := abs }
  | .output append => { r with outPath := abs, outAppend := append }
  | .error => { r with errPath := abs }

def redirOperator : Text → Option (RedirKind × Text)
  | 62 :: 62 :: cs => some (.output true, cs)
  | 62 :: cs => some (.output false, cs)
  | 60 :: cs => some (.input, cs)
  | 50 :: 62 :: cs => some (.error, cs)
  | 38 :: 50 :: 62 :: cs => some (.error, cs)
  | _ => none

def endsPath (c : UInt8) : Bool := isSpace c || decide (c = 62 ∨ c = 60 ∨ c = 124)

def shortPath (raw rest : Text) : Option (Text × Text) :=
  if pathCap ≤ raw.length then none else some (raw, rest)

-- no backslash counts inside the quotes of a path
def redirPath (cs : Text) : Option (Text × Text) :=
  match cs.dropWhile isSpace with
  | [] => none
  | q :: cs =>
      if q = 34 ∨ q = 39 then
        match cs.dropWhile (· ≠ q) with
        | [] => none
        | _ :: rest => shortPath (cs.takeWhile (· ≠ q)) rest
      else shortPath ((q :: cs).takeWhile fun c => !endsPath c) ((q :: cs).dropWhile fun c => !endsPath c)

variable (pwd : Text)

-- the fuel is the length of the line: every round takes a character
def redirLoop : Nat → Text → Bool → Bool → RedirSpec → Option RedirSpec
  | 0, _, _, _, r => some r
  | _ + 1, [], _, _, r => some r
  | n + 1, c :: cs, sq, dq, r =>
      if c = 92 ∧ cs ≠ [] then
        (r.put (c :: cs.take 1)).bind (redirLoop n (cs.drop 1) sq dq)
      else if c = 39 ∧ dq = false then (r.put [c]).bind (redirLoop n cs (!sq) dq)
      else if c = 34 ∧ sq = false then (r.put [c]).bind (redirLoop n cs sq (!dq))
      else if sq = false ∧ dq = false then
        match redirOperator (c :: cs) with
        | none => (r.put [c]).bind (redirLoop n cs sq dq)
        | some (kind, cs) =>
            (redirPath cs).bind fun (raw, rest) =>
              (shellNormalizePath pwd raw pathCap).bind fun abs =>
                redirLoop n rest sq dq (r.redirect abs kind)
      else (r.put [c]).bind (redirLoop n cs sq dq)

def parseRedirections (src : Text) : Option RedirSpec :=
  redirLoop pwd src.length src false false RedirSpec.init

end Redirections

inductive TtyKind where
  | vesa
  | serial
  deriving DecidableEq, Repr

-- what the shell asks of the kernel and of stdio; `waitEnd` is the loop over task_state
structure ShellCalls (K : Type) where
  openFile : K → Text → Nat → Int × K
  read : K → Int → Nat → Option Text × K
  write : K → Int → Text → Int × K
  append : K → Int → Text → Int × K
  close : K → Int → K
  list : K → Text → Nat → Option Text × K
  ttyInfo : K → Option (TtyKind × Nat)
  spawnv : K → Text → Text → Text → Int × K
  setFgPid : K → Int → Int → K
  waitEnd : K → Int → K
  print : K → Nat → Text → K

structure Session (K : Type) where
  env : Env
  kernel : K
  exited : Option Int

section Files

variable {K : Type} (o : ShellCalls K) (k : K)

namespace ShellCalls

def readStart (path : Text) (count : Nat) : Option Text × K :=
  let (fd, k) := o.openFile k path 0
  if fd < 0 then (none, k)
  else
    let (bytes, k) := o.read k fd count
    (bytes, o.close k fd)

def readFileInto (path : Text) (cap : Nat) : Option Text × K :=
  let (bytes, k) := o.readStart k path (cap - 1)
  (bytes.map upToNul, k)

def writeTextToFile (path text : Text) (appendMode : Bool) : Bool × K :=
  let (fd, k) := o.openFile k path 1
  if fd < 0 then (false, k)
  else
    let (n, k) := if appendMode then o.append k fd text else o.write k fd text
    (decide (0 ≤ n), o.close k fd)

def isElfFile (path : Text) : Bool × K :=
  let (hdr, k) := o.readStart k path 4
  (decide (hdr = some [127, 69, 76, 70]), k)

def digit (n : Nat) : UInt8 := UInt8.ofNat (48 + n)

def ttyDigits (idx : Nat) : Text := if 10 ≤ idx then [digit (idx / 10), digit (idx % 10)] else [digit idx]

def currentTtyPath : Option Text :=
  (o.ttyInfo k).map fun (kind, idx) =>
    byteText (if kind = .vesa then "/dev/tty/" else "/dev/tty/S") ++ ttyDigits idx

def spawnAndWait (path cmdline : Text) : Bool × K :=
  if path.head? ≠ some 47 then (false, k)
  else
    let tty := (o.currentTtyPath k).getD (byteText "/dev/tty/1")
    let (pid, k) := o.spawnv k path tty cmdline
    if pid < 0 then (false, k)
    else
      let (fd, k) := o.openFile k tty 0
      if fd < 0 then (true, o.waitEnd k pid)
      else (true, o.close (o.setFgPid (o.waitEnd (o.setFgPid k fd pid) pid) fd (-1)) fd)

def startElf (path cmdline : Text) : Bool × K :=
  let (elf, k) := o.isElfFile k path
  if elf then o.spawnAndWait k path cmdline else (false, k)

end ShellCalls

end Files

section Commands

variable {K : Type} (o : ShellCalls K) (s : Session K)

namespace Session

def printf (fd : Nat) (text : Text) : Session K := { s with kernel := o.print s.kernel fd text }

def complain (text : String) : Session K := s.printf o 2 (byteText text)

def assign (word : Text) (failed noEquals : String) : Session K :=
  match cut? 61 word with
  | none => s.complain o noEquals
  | some (name, value) =>
      if (s.env.setVar name value).1 then { s with env := (s.env.setVar name value).2 }
      else s.complain o failed

def varLine (name value : Text) : Text := name ++ 61 :: value ++ [10]

def varLines : Text :=
  varLine (byteText "PATH") s.env.path ++ varLine (byteText "PWD") s.env.pwd ++
    varLine (byteText "TTY") s.env.ttyName ++
    (List.range s.env.varCount).flatMap fun i => varLine (s.env.varName i) (s.env.varVal i)

def listDir (target : Text) (cap : Nat) : Option (Text × Text) × Session K :=
  match shellNormalizePath s.env.pwd target pathCap with
  | none => (none, s)
  | some abs =>
      let (text, k) := o.list s.kernel abs cap
      (text.map fun text => (abs, text), { s with kernel := k })

def tryExecFromPath (name cmdline : Text) : Bool × Session K :=
  if 47 ∈ name then
    match shellNormalizePath s.env.pwd name pathCap with
    | none => (false, s)
    | some abs => ((o.startElf s.kernel abs cmdline).1,
        { s with kernel := (o.startElf s.kernel abs cmdline).2 })
  else if 192 ≤ name.length + 6 then (false, s)
  else
    let (ok, k) := o.startElf s.kernel (byteText "/bin/" ++ name) cmdline
    (ok, { s with kernel := k })

def execExternal (argv : List Text) (name : Text) : Session K :=
  let (ok, s) := match buildCmdlineFromArgv argv with
    | none => (false, s)
    | some cmdline => s.tryExecFromPath o name cmdline
  if ok then s else s.printf o 2 (byteText "command not found: " ++ name ++ [10])

end Session

def parseDigits : Text → Int → Option Int
  | [], val => some val
  | c :: cs, val =>
      if c < 48 ∨ 57 < c then none else parseDigits cs ((val * 10 + (c.toNat - 48)).bmod (2 ^ 32))

def parseI32 (s : Text) : Option Int :=
  match s with
  | [] => none
  | [c] => if c = 45 ∨ c = 43 then none else parseDigits [c] 0
  | 45 :: cs => (parseDigits cs 0).map fun val => (-val).bmod (2 ^ 32)
  | 43 :: cs => parseDigits cs 0
  | cs => parseDigits cs 0

namespace Session

def execArgv : List Text → Session K
  | [] => s
  | name :: args =>
      if args = [] ∧ 61 ∈ name then s.assign o name "set failed\n" "set failed\n"
      else if name = byteText "export" then
        match args with
        | [] => s.complain o "usage: export NAME=VALUE\n"
        | arg :: _ => s.assign o arg "export failed\n" "usage: export NAME=VALUE\n"
      else if name = byteText "set" then
        match args with
        | [] => s.printf o 1 s.varLines
        | [arg] => s.assign o arg "set failed\n" "usage: set [NAME=VALUE]\n"
        | _ => s.complain o "usage: set [NAME=VALUE]\n"
      else if name = byteText "unset" then
        match args with
        | [] => s.complain o "unset failed\n"
        | arg :: _ =>
            if (s.env.unsetVar arg).1 then { s with env := (s.env.unsetVar arg).2 }
            else s.complain o "unset failed\n"
      else if name = byteText "cd" then
        match s.listDir o (args.head?.getD (byteText "/")) 512 with
        | (none, s) => s.complain o "cd failed\n"
        | (some (abs, _), s) => { s with env := { s.env with pwd := abs.take (pathSize - 1) } }
      else if name = byteText "exit" then
        match args with
        | [] => { s with exited := some 0 }
        | arg :: _ =>
            match parseI32 arg with
            | none => s.complain o "usage: exit [code]\n"
            | some code => { s with exited := some code }
      else if name = byteText "ls" then
        match s.listDir o (args.head?.getD s.env.pwd) 512 with
        | (none, s) => s.complain o "ls failed\n"
        | (some (_, text), s) => s.printf o 1 (text ++ [10])
      else s.execExternal o (name :: args) name

def execSingle (cmd : Text) : Session K :=
  match s.env.parseArgv cmd with
  | none => s.complain o "parse error\n"
  | some argv => s.execArgv o argv

end Session

end Commands

section Capture

variable {K : Type} (o : ShellCalls K)

def outCap : Nat := 2048

structure Captured where
  ok : Bool
  out : Text
  err : Text
  deriving DecidableEq, Repr

def appendAll (cap : Nat) : Text → List Text → Bool × Text
  | out, [] => (true, out)
  | out, text :: texts =>
      if out.length + text.length < cap then appendAll cap (out ++ text) texts
      else (false, out ++ text.take (cap - 1 - out.length))

def captured (texts : List Text) : Captured :=
  ⟨(appendAll outCap [] texts).1, (appendAll outCap [] texts).2, []⟩

def capturedError (text : String) : Captured := ⟨false, [], byteText text⟩

def echoTexts : List Text → List Text
  | [] => [[10]]
  | arg :: args => arg :: args.flatMap (fun arg => [[32], arg]) ++ [[10]]

namespace Session

variable (s : Session K)

def captureCat (args : List Text) (inData : Text) : Captured × Session K :=
  match args with
  | [] => (captured [inData], s)
  | arg :: _ =>
      match shellNormalizePath s.env.pwd arg pathCap with
      | none => (capturedError "cat open failed\n", s)
      | some abs =>
          let (text, k) := o.readStart s.kernel abs 256
          (match text with
            | none => capturedError "cat open failed\n"
            | some text => captured [text], { s with kernel := k })

def captureTee (args : List Text) (inData : Text) : Captured × Session K :=
  match args with
  | [] => (capturedError "usage: tee <path>\n", s)
  | arg :: _ =>
      match shellNormalizePath s.env.pwd arg pathCap with
      | none => (capturedError "tee open failed\n", s)
      | some abs =>
          let (fd, k) := o.openFile s.kernel abs 1
          if fd < 0 then (capturedError "tee open failed\n", { s with kernel := k })
          else
            let (n, k) := if inData = [] then (0, k) else o.append k fd inData
            (if n < 0 then capturedError "tee write failed\n" else captured [inData],
              { s with kernel := o.close k fd })

def captureArgv (argv : List Text) (inData : Text) : Captured × Session K :=
  match argv with
  | [] => (⟨false, [], []⟩, s)
  | name :: args =>
      if name = byteText "echo" then (captured (echoTexts args), s)
      else if name = byteText "pwd" then (captured [s.env.pwd, [10]], s)
      else if name = byteText "ls" then
        match s.listDir o (args.head?.getD s.env.pwd) 256 with
        | (none, s) => (capturedError "ls failed\n", s)
        | (some (_, text), s) => (captured [text, [10]], s)
      else if name = byteText "cat" then s.captureCat o args inData
      else if name = byteText "tee" then s.captureTee o args inData
      else (capturedError "unknown command\n", s)

def captureSimpleIo (cmd inData : Text) : Captured × Session K :=
  match s.env.parseArgv cmd with
  | none => (⟨false, [], []⟩, s)
  | some argv => s.captureArgv o argv inData

end Session

end Capture

section Run

variable {K : Type} (o : ShellCalls K)

namespace Session

variable (s : Session K)

def readInput (path : Text) : Option Text × Session K :=
  if path = [] then (some [], s)
  else
    let (text, k) := o.readFileInto s.kernel path outCap
    (text, { s with kernel := k })

def putFile (path text : Text) (append : Bool) : Bool × Session K :=
  let (ok, k) := o.writeTextToFile s.kernel path text append
  (ok, { s with kernel := k })

def putErr (errPath err : Text) : Session K :=
  if errPath ≠ [] then (s.putFile o errPath err false).2
  else if err ≠ [] then s.printf o 2 err
  else s

-- the right side of a pipe goes on when its output cannot be written, a single command does not
def putOut (outPath out : Text) (append stops : Bool) : Bool × Session K :=
  if outPath ≠ [] then
    let (ok, s) := s.putFile o outPath out append
    if ok then (true, s) else (!stops, s.complain o "redirect failed\n")
  else (true, s.printf o 1 out)

def execRedirected (capture : Text → Session K → Captured × Session K) (r : RedirSpec) :
    Session K :=
  match s.readInput o r.inPath with
  | (none, s) => s.complain o "redirect failed\n"
  | (some inData, s) =>
      let (c, s) := capture inData s
      let (goes, s) := s.putOut o r.outPath (upToNul c.out) r.outAppend true
      if goes then s.putErr o r.errPath c.err else s

def execPipe (left right : Text → Session K → Captured × Session K) (l r : RedirSpec) :
    Session K :=
  match s.readInput o l.inPath with
  | (none, s) => s.complain o "redirect failed\n"
  | (some inData, s) =>
      let (c, s) := left inData s
      let s := s.putErr o l.errPath c.err
      if c.ok = false then s
      else
        match (if r.inPath = [] then (some (upToNul c.out), s) else s.readInput o r.inPath) with
        | (none, s) => s.complain o "redirect failed\n"
        | (some inData, s) =>
            let (c, s) := right inData s
            let (_, s) := s.putOut o r.outPath (upToNul c.out) r.outAppend false
            s.putErr o r.errPath c.err

def execWithRedirOrPipe (seg : Text) : Session K :=
  match splitOutsideQuotes 124 seg false false 0 with
  | some pos =>
      if maxLine ≤ pos then s
      else
        match parseRedirections s.env.pwd (trimWs (seg.take pos)),
          parseRedirections s.env.pwd (trimWs ((seg.drop (pos + 1)).take (maxLine - 1))) with
        | some l, some r =>
            s.execPipe o (fun inData s => s.captureSimpleIo o (trimWs l.cmd) inData)
              (fun inData s => s.captureSimpleIo o (trimWs r.cmd) inData) l r
        | _, _ => s.complain o "parse error\n"
  | none =>
      if 62 ∈ seg ∨ 60 ∈ seg then
        match parseRedirections s.env.pwd (trimWs seg) with
        | some r =>
            s.execRedirected o (fun inData s => s.captureSimpleIo o (trimWs r.cmd) inData) r
        | none => s.complain o "parse error\n"
      else s.execSingle o seg

def execSegments (segs : List Text) : Session K :=
  segs.foldl (fun s seg =>
    if s.exited.isSome ∨ trimWs seg = [] then s else s.execWithRedirOrPipe o (trimWs seg)) s

def execLine (line : Text) : Int × Session K :=
  let (segs, isOpen) := cutLine line false false []
  let s := s.execSegments o segs
  if s.exited.isNone ∧ isOpen then (-1, s.complain o "parse error\n") else (0, s)

end Session

end Run

end HouseOS.Shell
