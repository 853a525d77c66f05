import ScriptMachine.Json.Basic

/-!
# Numbers of JSON

An integer that fits 64 bits keeps its value. Every other number becomes a
binary64 value in one scaling step: digits are gathered while they fit 64 bits
and the rest are dropped.
-/

set_option autoImplicit false

namespace ScriptMachine.Json

inductive Number where
  | natural (n : Nat)
  | negative (n : Nat)
  | float (x : Float)

def maxWord : Nat := Nat.pow 2 64 - 1

def digitValue (c : Char) : Nat := c.toNat - '0'.toNat

/-- Takes digits while the value fits a word; the result is the value, how many
were taken, and the rest. -/
def gather (acc taken : Nat) : List Char → Nat × Nat × List Char
  | [] => (acc, taken, [])
  | c :: rest =>
    if c.isDigit && acc * 10 + digitValue c ≤ maxWord then
      gather (acc * 10 + digitValue c) (taken + 1) rest
    else (acc, taken, c :: rest)

/-- `significand * 10^exponent` by one multiplication or division with an exact
power of ten, in steps of `10^308` below that; overflow is no number. -/
def scale : Nat → Float → Int → Option Float
  | 0, x, _ => some x
  | fuel + 1, x, e =>
    if e.natAbs ≤ 308 then
      let p := Float.ofScientific 1 false e.natAbs
      if e ≥ 0 then
        let y := x * p
        if y.isInf then none else some y
      else some (x / p)
    else if x == 0.0 then some x
    else if e ≥ 0 then none
    else scale fuel (x / Float.ofScientific 1 false 308) (e + 308)

def signed (negative : Bool) (x : Float) : Float := if negative then -x else x

/-- Reads the exponent, if any, and scales. An exponent of 2^31 or more is an
overflow for a nonzero significand and zero for a negative one. -/
def withExponent (negative : Bool) (significand : Nat) (e : Int) (cs : List Char) : Option Number :=
  let finish (e : Int) : Option Number :=
    (scale 8 (UInt64.ofNat significand).toFloat e).map fun (x : Float) => .float (signed negative x)
  match cs with
  | [] => finish e
  | _ :: rest =>
    let (down, ds) := match rest with
      | '-' :: more => (true, more)
      | '+' :: more => (false, more)
      | more => (false, more)
    let n := ds.foldl (fun (acc : Nat) (c : Char) => acc * 10 + digitValue c) 0
    if n ≥ Nat.pow 2 31 then
      if significand != 0 && !down then none else some (.float (signed negative 0.0))
    else finish (if down then e - n else e + n)

/-- Reads a fraction: digits that no longer fit are passed over. -/
def withFraction (negative : Bool) (significand : Nat) (e : Int) : List Char → Option Number
  | '.' :: cs =>
    let (s, taken, rest) := gather significand 0 cs
    withExponent negative s (e - taken) (rest.dropWhile Char.isDigit)
  | cs => withExponent negative significand e cs

/-- The meaning of a spelling that the reader has accepted. -/
def Number.ofLexeme? (lexeme : String) : Option Number :=
  let (minus, cs) := match lexeme.toList with
    | '-' :: rest => (true, rest)
    | cs => (false, cs)
  let (s, _, rest) := gather 0 0 cs
  match rest with
  | [] =>
    if !minus then some (Number.natural s)
    else if s = 0 ∨ Nat.pow 2 63 < s then some (.float (-(UInt64.ofNat s).toFloat))
    else some (.negative s)
  | _ =>
    let extra := (rest.takeWhile Char.isDigit).length
    withFraction minus s extra (rest.dropWhile Char.isDigit)

end ScriptMachine.Json
