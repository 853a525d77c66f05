/-!
# Magnitudes of binary64 values

A finite value is a sign and `m * 2^q` with natural `m`. Operations that the
hardware does not offer directly are computed here without rounding and then
rounded once.
-/

set_option autoImplicit false

namespace ScriptMachine.Binary

/-- The magnitude of a finite binary64 value, `m * 2^q`. -/
structure Magnitude where
  m : Nat
  q : Int
  /-- The gap to the value below is half the gap to the value above. -/
  narrowBelow : Bool
  deriving Repr, DecidableEq

def exponentField (bits : UInt64) : Nat := ((bits >>> 52) &&& 0x7FF).toNat

def fractionField (bits : UInt64) : Nat := (bits &&& 0xFFFFFFFFFFFFF).toNat

def signBit (x : Float) : Bool := x.toBits >>> 63 == 1

/-- The bits of a finite value; infinities and NaN have none and must be
tested for first. -/
def Magnitude.ofBits (bits : UInt64) : Magnitude :=
  let e := exponentField bits
  let f := fractionField bits
  if e == 0 then ⟨f, -1074, false⟩ else ⟨Nat.pow 2 52 + f, (e : Int) - 1075, f == 0 && e > 1⟩

def Magnitude.ofFloat (x : Float) : Magnitude := Magnitude.ofBits x.toBits

/-- `num / den` rounded to the nearest natural, a tie to the even neighbour. -/
def roundQuotient (num den : Nat) : Nat :=
  let q := num / den
  match compare (2 * (num % den)) den with
  | .lt => q
  | .gt => q + 1
  | .eq => if q % 2 == 0 then q else q + 1

/-- The binary64 value nearest to `m * 2^q`; the last place of a subnormal
result is fixed at `2^-1074`, so there is one rounding only. -/
def nearest (m : Nat) (q : Int) : Float :=
  if m == 0 then 0.0
  else
    let width : Int := m.log2 + 1
    let unit : Int := max (q + width - 53) (-1074)
    if unit ≤ q then (Float.ofNat m).scaleB q
    else (Float.ofNat (roundQuotient m (Nat.pow 2 (unit - q).toNat))).scaleB unit

/-- The integer part of the square root, four units of the radicand at a time. -/
def natSqrt (n : Nat) : Nat :=
  if n = 0 then 0
  else
    let r := 2 * natSqrt (n / 4)
    if (r + 1) * (r + 1) ≤ n then r + 1 else r
termination_by n
decreasing_by omega

/-- The length of the vector `(x, y)`: the exact sum of squares, and one
rounding of its root. An infinite side wins over a NaN side. -/
def hypotenuse (x y : Float) : Float :=
  if x.isInf || y.isInf then 1.0 / 0.0
  else if x.isNaN || y.isNaN then 0.0 / 0.0
  else
    let a := Magnitude.ofFloat x
    let b := Magnitude.ofFloat y
    let q := min a.q b.q
    let p := a.m * Nat.pow 2 (a.q - q).toNat
    let r := b.m * Nat.pow 2 (b.q - q).toNat
    let s := (p * p + r * r) * Nat.pow 4 64
    let root := natSqrt s
    let inexact := if root * root = s then 0 else 1
    nearest (2 * root + inexact) (q - 65)

/-- The remainder of the division truncated toward zero; it has the sign of
the dividend and is always representable. -/
def remainder (x y : Float) : Float :=
  if x.isNaN || y.isNaN || x.isInf || y == 0.0 then 0.0 / 0.0
  else if y.isInf then x
  else
    let a := Magnitude.ofFloat x
    let b := Magnitude.ofFloat y
    let q := min a.q b.q
    let r := (a.m * Nat.pow 2 (a.q - q).toNat) % (b.m * Nat.pow 2 (b.q - q).toNat)
    let magnitude := nearest r q
    if signBit x then -magnitude else magnitude

end ScriptMachine.Binary
