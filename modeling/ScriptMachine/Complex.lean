import ScriptMachine.Decimal.Layout

/-!
# Complex numbers

Complex numbers with binary64 parts. Division and the power do not guard
against a zero divisor; the operators on values do.
-/

set_option autoImplicit false

namespace ScriptMachine

structure Complex where
  re : Float
  im : Float

namespace Complex

def zero : Complex := ⟨0.0, 0.0⟩

def one : Complex := ⟨1.0, 0.0⟩

def ofFloat (x : Float) : Complex := ⟨x, 0.0⟩

def ofInteger (n : Int64) : Complex := ⟨n.toFloat, 0.0⟩

def isZero (z : Complex) : Bool := z.re == 0.0 && z.im == 0.0

def isOne (z : Complex) : Bool := z.re == 1.0 && z.im == 0.0

def equal (z w : Complex) : Bool := z.re == w.re && z.im == w.im

def abs (z : Complex) : Float := Binary.hypotenuse z.re z.im

/-- The angle in radians. -/
def arg (z : Complex) : Float := Float.atan2 z.im z.re

def conj (z : Complex) : Complex := ⟨z.re, -z.im⟩

def neg (z : Complex) : Complex := ⟨-z.re, -z.im⟩

def add (z w : Complex) : Complex := ⟨z.re + w.re, z.im + w.im⟩

def sub (z w : Complex) : Complex := ⟨z.re - w.re, z.im - w.im⟩

def mul (z w : Complex) : Complex :=
  ⟨z.re * w.re - z.im * w.im, z.re * w.im + z.im * w.re⟩

def div (z w : Complex) : Complex :=
  let d := w.re * w.re + w.im * w.im
  ⟨(z.re * w.re + z.im * w.im) / d, (z.im * w.re - z.re * w.im) / d⟩

def exp (z : Complex) : Complex :=
  let r := z.re.exp
  ⟨r * z.im.cos, r * z.im.sin⟩

/-- The principal logarithm. -/
def log (z : Complex) : Complex := ⟨z.abs.log, z.arg⟩

/-- The principal power; zero has no logarithm, so its powers are set here. -/
def pow (z w : Complex) : Complex :=
  if z.isZero then (if w.isZero then one else zero)
  else (w.mul z.log).exp

def display (z : Complex) : String :=
  if Binary.signBit z.im && !z.im.isNaN then
    "(" ++ Decimal.plain.render z.re ++ "-" ++ Decimal.plain.render (-z.im) ++ "i)"
  else "(" ++ Decimal.plain.render z.re ++ "+" ++ Decimal.plain.render z.im ++ "i)"

/-- The text in diagnostics. -/
def detailed (z : Complex) : String :=
  "Complex \x7b re: " ++ Decimal.detailed.render z.re ++
    ", im: " ++ Decimal.detailed.render z.im ++ " \x7d"

end Complex

end ScriptMachine
