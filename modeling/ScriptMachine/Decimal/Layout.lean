import ScriptMachine.Decimal.Shortest

/-!
# Layout of numbers

Three texts of a binary64 value occur in output: the plain text of displayed
values, the detailed text of diagnostics, and the text of stored functions.
They share the digits of `Decimal.shortest` and differ in a record of
decisions.
-/

set_option autoImplicit false

namespace ScriptMachine.Decimal
open ScriptMachine.Binary

/-- Where positional notation ends and how the other notation looks. -/
structure Layout where
  /-- Exponents of the leading digit from here on are positional. -/
  plainFrom : Option Int
  /-- Exponents of the leading digit below this one are positional. -/
  plainBelow : Option Int
  /-- An integral value keeps `.0`. -/
  pointZero : Bool
  /-- A positive exponent is written with its sign. -/
  exponentPlus : Bool
  tie : Tie

/-- Displayed values are always positional, and integral ones have no point. -/
def plain : Layout := ⟨none, none, false, false, .up⟩

/-- Diagnostics are positional from `0.0001` to below `10^16`. -/
def detailed : Layout := ⟨some (-4), some 16, true, false, .up⟩

/-- Stored functions are positional from `0.00001` to below `10^16`. -/
def stored : Layout := ⟨some (-5), some 16, true, true, .toEven⟩

def digitText (n : Nat) : String := String.ofList (Nat.toDigits 10 n)

def zeros (n : Nat) : String := String.ofList (List.replicate n '0')

/-- The point after, inside or before the digits. -/
def positional (pointZero : Bool) (ds : List Char) (exponent : Int) : String :=
  let point : Int := ds.length + exponent
  if 0 ≤ exponent then
    String.ofList ds ++ zeros exponent.toNat ++ (if pointZero then ".0" else "")
  else if 0 < point then
    String.ofList (ds.take point.toNat) ++ "." ++ String.ofList (ds.drop point.toNat)
  else "0." ++ zeros (-point).toNat ++ String.ofList ds

def scientific (l : Layout) (ds : List Char) (leading : Int) : String :=
  let mantissa := match ds with
    | [] => "0"
    | [d] => String.ofList [d]
    | d :: rest => String.ofList [d] ++ "." ++ String.ofList rest
  let sign := if leading < 0 then "-" else if l.exponentPlus then "+" else ""
  mantissa ++ "e" ++ sign ++ digitText leading.natAbs

/-- The magnitude of a finite value. -/
def Layout.magnitude (l : Layout) (x : Magnitude) : String :=
  if x.m == 0 then (if l.pointZero then "0.0" else "0")
  else
    let d := shortest l.tie x
    let ds := Nat.toDigits 10 d.digits
    let leading : Int := d.exponent + ds.length - 1
    let fromOk := match l.plainFrom with | none => true | some e => decide (e ≤ leading)
    let belowOk := match l.plainBelow with | none => true | some e => decide (leading < e)
    if fromOk && belowOk then positional l.pointZero ds d.exponent else scientific l ds leading

def Layout.render (l : Layout) (x : Float) : String :=
  if x.isNaN then "NaN"
  else
    (if signBit x then "-" else "") ++
      (if x.isInf then "inf" else l.magnitude (Magnitude.ofFloat x))

/-- As `render`, with a sign in front of positive values also. -/
def Layout.renderSigned (l : Layout) (x : Float) : String :=
  if x.isNaN || signBit x then l.render x else "+" ++ l.render x

def isFinite (x : Float) : Bool := !(x.isNaN || x.isInf)

/-- A finite value without fractional part. -/
def isIntegral (x : Float) : Bool := isFinite x && x.floor == x

/-- The text of a value in output: integral values in full with one decimal
place, all others plainly. -/
def display (x : Float) : String :=
  if isIntegral x then
    let d := Magnitude.ofFloat x
    let n := if d.q ≥ 0 then d.m * Nat.pow 2 d.q.toNat else d.m / Nat.pow 2 (-d.q).toNat
    (if signBit x then "-" else "") ++ digitText n ++ ".0"
  else plain.render x

/-- The text of an integer. -/
def integer (n : Int64) : String :=
  let v := n.toInt
  (if v < 0 then "-" else "") ++ digitText v.natAbs

end ScriptMachine.Decimal
