import Mathlib.Data.List.Basic
import Mathlib.Data.List.TakeWhile
import Mathlib.Logic.Function.Basic
import HouseOS.Library.Run
import HouseOS.Library.Words

namespace HouseOS.Shell

open HouseOS.Run (Along)
open HouseOS.Words (byteText)

abbrev Text : Type := List UInt8

def maxVars : Nat := 16

def maxVarName : Nat := 24

def maxVarValue : Nat := 160

def pathSize : Nat := 128

def maxArgs : Nat := 32

def maxToken : Nat := 160

def isSpace (c : UInt8) : Bool := decide (c = 32 ∨ c = 9 ∨ c = 10 ∨ c = 13)

def isNameStart (c : UInt8) : Bool :=
  decide (c = 95 ∨ (97 ≤ c ∧ c ≤ 122) ∨ (65 ≤ c ∧ c ≤ 90))

def isNameChar (c : UInt8) : Bool := isNameStart c || decide (48 ≤ c ∧ c ≤ 57)

def accepted : Text → Bool
  | [] => false
  | c :: cs => isNameStart c && cs.all isNameChar

-- the table of variables is two arrays with one count
structure Env where
  path : Text
  pwd : Text
  ttyName : Text
  varName : Nat → Text
  varVal : Nat → Text
  varCount : Nat

def boot (ttyName : Text) : Env :=
  ⟨byteText "/bin", byteText "/", ttyName, fun _ => [], fun _ => [], 0⟩

-- `a[j - 1] = a[j]` for the `n` places behind `i`
def shiftDown (a : Nat → Text) (i n : Nat) : Nat → Text :=
  (List.range' (i + 1) n).foldl (fun a j => Function.update a (j - 1) (a j)) a

namespace Env

variable (s : Env)

def findVar (name : Text) : Option Nat :=
  (List.range s.varCount).find? fun i => decide (s.varName i = name)

def getVar (name : Text) : Option Text :=
  if name = byteText "PATH" then some s.path
  else if name = byteText "PWD" then some s.pwd
  else if name = byteText "TTY" then some s.ttyName
  else (s.findVar name).map s.varVal

def setVar (name value : Text) : Bool × Env :=
  if accepted name = false then (false, s)
  else if name = byteText "PATH" then (true, { s with path := value.take (pathSize - 1) })
  else if name = byteText "PWD" then (true, { s with pwd := value.take (pathSize - 1) })
  else
    match s.findVar name with
    | some i =>
        (true, { s with varVal := Function.update s.varVal i (value.take (maxVarValue - 1)) })
    | none =>
        if maxVars ≤ s.varCount then (false, s)
        else
          (true,
            { s with
              varName := Function.update s.varName s.varCount (name.take (maxVarName - 1))
              varVal := Function.update s.varVal s.varCount (value.take (maxVarValue - 1))
              varCount := s.varCount + 1 })

def unsetVar (name : Text) : Bool × Env :=
  if name = byteText "PATH" ∨ name = byteText "PWD" ∨ name = byteText "TTY" then (false, s)
  else
    match s.findVar name with
    | some i =>
        (true,
          { s with
            varName := shiftDown s.varName i (s.varCount - (i + 1))
            varVal := shiftDown s.varVal i (s.varCount - (i + 1))
            varCount := s.varCount - 1 })
    | none => (false, s)

end Env

section Commands

-- the name behind a `$`, as far as its buffer goes
def readName : Nat → Text → Text × Text
  | 0, cmd => ([], cmd)
  | _ + 1, [] => ([], [])
  | n + 1, c :: cs =>
      if isNameChar c then (c :: (readName n cs).1, (readName n cs).2) else ([], c :: cs)

def Env.expand (s : Env) (cmd : Text) : Text × Text :=
  if (cmd.head?.map isNameStart).getD false then
    ((s.getVar (readName (maxVarName - 1) cmd).1).getD [], (readName (maxVarName - 1) cmd).2)
  else ([36], cmd)

def appendText (tok text : Text) : Option Text :=
  if tok.length + text.length < maxToken then some (tok ++ text) else none

variable (expand : Text → Text × Text)

def parseToken : Nat → Text → Bool → Bool → Text → Option (Text × Text)
  | 0, _, _, _, _ => none
  | _ + 1, [], sq, dq, tok => if sq || dq then none else some (tok, [])
  | n + 1, c :: cs, sq, dq, tok =>
      if sq = false ∧ dq = false ∧ isSpace c then some (tok, c :: cs)
      else if dq = false ∧ c = 39 then parseToken n cs (!sq) dq tok
      else if sq = false ∧ c = 34 then parseToken n cs sq (!dq) tok
      else if sq = false ∧ c = 92 ∧ cs ≠ [] then
        (appendText tok (cs.take 1)).bind (parseToken n (cs.drop 1) sq dq)
      else if sq = false ∧ c = 36 then
        (appendText tok (expand cs).1).bind (parseToken n (expand cs).2 sq dq)
      else (appendText tok [c]).bind (parseToken n cs sq dq)

def parseArgs : Nat → Text → List Text → Option (List Text)
  | 0, _, _ => none
  | n + 1, cmd, argv =>
      match cmd.dropWhile isSpace with
      | [] => some argv
      | c :: cs =>
          if c = 35 then some argv
          else if maxArgs ≤ argv.length then none
          else
            (parseToken expand (cs.length + 2) (c :: cs) false false []).bind fun (tok, rest) =>
              parseArgs n rest (argv ++ [tok])

def Env.parseArgv (s : Env) (cmd : Text) : Option (List Text) :=
  parseArgs s.expand (cmd.length + 1) cmd []

end Commands

end HouseOS.Shell
