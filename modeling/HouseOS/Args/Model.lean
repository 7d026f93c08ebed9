import HouseOS.Library.ByteMem
import Mathlib.Data.List.Basic

namespace HouseOS.Args

open HouseOS.ByteMem

abbrev Text := List UInt8

def blank : UInt8 := 32

def dquote : UInt8 := 34

def squote : UInt8 := 39

def slash : UInt8 := 47

def backslash : UInt8 := 92

def isSpace (c : UInt8) : Bool := c == 32 || c == 9 || c == 10 || c == 13

def cmdlineCap : Nat := 512

section Shell

def appendChar (cap : Nat) (out : Text) (c : UInt8) : Option Text :=
  if cap ≤ out.length + 1 then none else some (out ++ [c])

def appendChars (cap : Nat) : Text → Text → Option Text
  | out, [] => some out
  | out, c :: cs => (appendChar cap out c).bind fun out => appendChars cap out cs

def needQuote (arg : Text) : Bool :=
  arg.any fun c => isSpace c || c == dquote || c == squote || c == backslash

def escapes (c : UInt8) : Bool := c == dquote || c == backslash

def appendEscaped (cap : Nat) : Text → Text → Option Text
  | out, [] => some out
  | out, c :: cs =>
      (if escapes c then appendChar cap out backslash else some out).bind fun out =>
        (appendChar cap out c).bind fun out => appendEscaped cap out cs

def appendQuotedArg (cap : Nat) (out arg : Text) : Option Text :=
  if !needQuote arg then appendChars cap out arg
  else
    (appendChar cap out dquote).bind fun out =>
      (appendEscaped cap out arg).bind fun out => appendChar cap out dquote

def buildLoop (cap : Nat) : Text → Nat → List Text → Option Text
  | out, _, [] => some out
  | out, i, arg :: args =>
      (if 0 < i then appendChar cap out blank else some out).bind fun out =>
        (appendQuotedArg cap out arg).bind fun out => buildLoop cap out (i + 1) args

def buildCmdlineFromArgv (argv : List Text) : Option Text := buildLoop cmdlineCap [] 0 argv

end Shell

section Libc

def appendText (cap : Nat) (dst src : Text) : Option Text :=
  if cap < dst.length + src.length + 1 then none else some (dst ++ src)

def appendQuotedChars (cap : Nat) : Text → Text → Option Text
  | dst, [] => some dst
  | dst, c :: cs =>
      (if escapes c then appendText cap dst [backslash] else some dst).bind fun dst =>
        (appendText cap dst [c]).bind fun dst => appendQuotedChars cap dst cs

def appendQuoted (cap : Nat) (dst arg : Text) : Option Text :=
  (appendText cap dst [dquote]).bind fun dst =>
    (appendQuotedChars cap dst arg).bind fun dst => appendText cap dst [dquote]

def execveLoop (cap : Nat) : Text → Nat → List Text → Option Text
  | dst, _, [] => some dst
  | dst, i, arg :: args =>
      (if 0 < i then appendText cap dst [blank] else some dst).bind fun dst =>
        (appendQuoted cap dst arg).bind fun dst => execveLoop cap dst (i + 1) args

def execveCmdline (argv : List Text) : Option Text := execveLoop cmdlineCap [] 0 argv

end Libc

inductive Encoder where
  | shell
  | execve
  deriving DecidableEq, Repr

def Encoder.encode : Encoder → List Text → Option Text
  | .shell => buildCmdlineFromArgv
  | .execve => execveCmdline

section Kernel

def userArgMax : Nat := 32

def userArgToken : Nat := 128

def userVaddrBase : Nat := 0x00400000

def userVaddrSize : Nat := 0x00400000

def userStackTop : Nat := userVaddrBase + userVaddrSize - 16

structure Token where
  text : Text
  inSq : Bool
  inDq : Bool
  rest : Text
  deriving DecidableEq, Repr

-- a backslash before the end of the line stands for itself
def readToken : Text → Bool → Bool → Text → Option Token
  | [], sq, dq, tok => some ⟨tok, sq, dq, []⟩
  | [c], sq, dq, tok =>
      if !sq && !dq && isSpace c then some ⟨tok, sq, dq, [c]⟩
      else if c == squote && !dq then some ⟨tok, !sq, dq, []⟩
      else if c == dquote && !sq then some ⟨tok, sq, !dq, []⟩
      else if userArgToken ≤ tok.length + 1 then none
      else some ⟨tok ++ [c], sq, dq, []⟩
  | c :: c' :: rest, sq, dq, tok =>
      if !sq && !dq && isSpace c then some ⟨tok, sq, dq, c :: c' :: rest⟩
      else if c == backslash then
        if userArgToken ≤ tok.length + 1 then none else readToken rest sq dq (tok ++ [c'])
      else if c == squote && !dq then readToken (c' :: rest) (!sq) dq tok
      else if c == dquote && !sq then readToken (c' :: rest) sq (!dq) tok
      else if userArgToken ≤ tok.length + 1 then none
      else readToken (c' :: rest) sq dq (tok ++ [c])

def skipSpaces (text : Text) : Text := text.dropWhile isSpace

-- the fuel is the length of the line: every round takes a character
def splitLoop : Nat → Text → List Text → Option (List Text)
  | 0, _, args => some args
  | fuel + 1, text, args =>
      match skipSpaces text with
      | [] => some args
      | c :: rest =>
          if userArgMax ≤ args.length then none
          else
            (readToken (c :: rest) false false []).bind fun t =>
              if t.inSq || t.inDq then none else splitLoop fuel t.rest (args ++ [t.text])

def splitCmdline (cmdline : Text) : Option (List Text) := splitLoop cmdline.length cmdline []

-- the last argument is copied first
def pushStrings (m : Mem) (sp : Nat) : List Text → Option (Mem × Nat × List Nat)
  | [] => some (m, sp, [])
  | arg :: args =>
      (pushStrings m sp args).bind fun (m, sp, ptrs) =>
        let len := arg.length + 1
        if sp < userVaddrBase + len + 256 then none
        else some (storeBytes m (sp - len) (arg ++ [0]), sp - len, (sp - len) :: ptrs)

def pushPtrs (m : Mem) (sp : Nat) : List Nat → Mem × Nat
  | [] => (m, sp)
  | p :: ps =>
      let (m, sp) := pushPtrs m sp ps
      (store32 m (sp - 4) p, sp - 4)

def pushFrame (m : Mem) (sp argc : Nat) (ptrs : List Nat) : Mem × Nat :=
  let sp := sp - sp % 4 - 4
  let m := store32 m sp 0
  let (m, sp) := pushPtrs m sp ptrs
  (store32 m (sp - 4) argc, sp - 4)

-- `room` is whether kmalloc gives the token table
def buildUserStackFromCmdline (room : Bool) (m : Mem) (cmdline : Text) : Option (Mem × Nat) :=
  if !room then none
  else
    (splitCmdline cmdline).bind fun args =>
      (pushStrings m (userStackTop - userStackTop % 4) args).map fun (m, sp, ptrs) =>
        pushFrame m sp args.length ptrs

def pathBasenameFrom : Text → Text → Text
  | last, [] => last
  | last, c :: cs => if c == slash then pathBasenameFrom cs cs else pathBasenameFrom last cs

def pathBasename (path : Text) : Text := pathBasenameFrom path path

def skipFirstToken (s : Text) : Text :=
  skipSpaces ((skipSpaces s).dropWhile fun c => !isSpace c)

def startsWithName (name tail : Text) : Bool :=
  name.isPrefixOf tail &&
    match tail.drop name.length with
    | [] => true
    | c :: _ => isSpace c

def interpTail (targetPath origCmdline : Text) : Text :=
  let tail := skipSpaces origCmdline
  if startsWithName targetPath tail then skipFirstToken tail
  else if pathBasename targetPath ≠ [] ∧ startsWithName (pathBasename targetPath) tail = true then
    skipFirstToken tail
  else tail

def buildInterpCmdline (cap : Nat) (interpPath targetPath origCmdline : Text) : Option Text :=
  if cap < 4 then none
  else
    (appendChars cap [] interpPath).bind fun out =>
      (appendChar cap out blank).bind fun out =>
        (appendChars cap out targetPath).bind fun out =>
          match interpTail targetPath origCmdline with
          | [] => some out
          | c :: tail => (appendChar cap out blank).bind fun out => appendChars cap out (c :: tail)

end Kernel

end HouseOS.Args
