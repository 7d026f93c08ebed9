import HouseOS.Composd.Model

namespace HouseOS.Netd

open HouseOS.Words
open HouseOS.Composd (Text)

structure NetdState where
  ip : Nat
  mask : Nat
  gw : Nat
  dns1 : Nat
  dns2 : Nat
  leaseSeconds : Nat
  viaDhcp : Int
  deriving DecidableEq, Repr

def parseU32 (s : Text) : Option Nat := Composd.parseU32 s

def isDigit (c : UInt8) : Bool := 48 ≤ c && c ≤ 57

def octetFrom : Nat → Nat → Text → Option (Nat × Nat × Text)
  | v, digs, [] => some (v, digs, [])
  | v, digs, c :: s =>
      if isDigit c then
        let v := v * 10 + (c.toNat - 48)
        if 255 < v then none else octetFrom v (digs + 1) s
      else some (v, digs, c :: s)

-- the loop over the parts, `left` of them after this one
def octetsFrom : Nat → List Nat → Text → Option (List Nat)
  | left, parts, s =>
      match octetFrom 0 0 s with
      | none => none
      | some (v, digs, s) =>
          if digs = 0 then none
          else
            let parts := parts ++ [v]
            match left with
            | 0 => if s = [] then some parts else none
            | left + 1 =>
                match s with
                | [] => none
                | c :: s => if c = 46 then octetsFrom left parts s else none

def parseIpv4 (s : Text) : Option Nat :=
  match octetsFrom 3 [] s with
  | some [a, b, c, d] => some (a <<< 24 ||| b <<< 16 ||| c <<< 8 ||| d)
  | _ => none

def ipKey : Text := [105, 112]

def maskKey : Text := [109, 97, 115, 107]

def gwKey : Text := [103, 119]

def dns1Key : Text := [100, 110, 115, 49]

def dns2Key : Text := [100, 110, 115, 50]

def leaseKey : Text := [108, 101, 97, 115, 101]

-- a value that cannot be read leaves its field alone
def putField (st : NetdState) (key val : Text) : NetdState :=
  if key = ipKey then { st with ip := (parseIpv4 val).getD st.ip }
  else if key = maskKey then { st with mask := (parseIpv4 val).getD st.mask }
  else if key = gwKey then { st with gw := (parseIpv4 val).getD st.gw }
  else if key = dns1Key then { st with dns1 := (parseIpv4 val).getD st.dns1 }
  else if key = dns2Key then { st with dns2 := (parseIpv4 val).getD st.dns2 }
  else if key = leaseKey then { st with leaseSeconds := (parseU32 val).getD st.leaseSeconds }
  else st

def strchr (buf : Text) (p : Nat) (c : UInt8) : Option Nat :=
  let s := cstr 0 buf p
  if c ∈ s then some (p + (s.takeWhile (· ≠ c)).length) else none

def skipWord (buf : Text) (p : Nat) : Nat := p + ((cstr 0 buf p).takeWhile (· ≠ 32)).length

def skipSpaces (buf : Text) (p : Nat) : Nat := p + ((cstr 0 buf p).takeWhile (· = 32)).length

def endToken (buf : Text) (p : Nat) : Text × Nat :=
  let stop := skipWord buf p
  if (cstr 0 buf stop).head? = some 32 then
    let buf := buf.set stop 0
    (buf, skipSpaces buf (stop + 1))
  else (buf, stop)

def parseTokens : Nat → Text → Nat → NetdState → NetdState
  | 0, _, _, st => st
  | fuel + 1, buf, tok, st =>
      if cstr 0 buf tok = [] then st
      else
        -- the search does not stop at the token's end
        let eq := strchr buf tok 61
        let (buf, p) := endToken buf tok
        match eq with
        | none => parseTokens fuel buf p st
        | some eq =>
            let buf := buf.set eq 0
            parseTokens fuel buf p (putField st (cstr 0 buf tok) (cstr 0 buf (eq + 1)))

def tmpCap : Nat := 256

def copyMsg (msg : Text) : Text :=
  let text := msg.take (tmpCap - 1)
  text ++ List.replicate (tmpCap - text.length) 0

def offerName : Text := [79, 70, 70, 69, 82, 32]

def ackName : Text := [65, 67, 75, 32]

def isOffer (buf : Text) : Bool :=
  buf.take offerName.length = offerName || buf.take ackName.length = ackName

def parseOffer (msg : Text) (st : NetdState) : NetdState × Int :=
  let tmp := copyMsg msg
  if !isOffer tmp then (st, -1)
  else
    let st := parseTokens tmpCap tmp (skipSpaces tmp (skipWord tmp 0)) st
    (st, if st.ip ≠ 0 then 0 else -1)

end HouseOS.Netd
