import ScriptMachine.Heap.Display

/-!
# Operators

The operators on built-in types. Numbers are promoted from integer to float to
complex; integers wrap at 64 bits.
-/

set_option autoImplicit false

namespace ScriptMachine

inductive ArithOp where
  | add
  | sub
  | mul
  | div
  | mod
  | exp
  deriving DecidableEq, Repr

namespace ArithOp

def ofOpcode? : Opcode → Option ArithOp
  | .add => some add
  | .sub => some sub
  | .mul => some mul
  | .div => some div
  | .mod => some mod
  | .exp => some exp
  | _ => none

def symbol : ArithOp → String
  | add => "+"
  | sub => "-"
  | mul => "*"
  | div => "/"
  | mod => "%"
  | exp => "**"

/-- The metamethod that overloads the operator. -/
def metaMethod : ArithOp → MetaMethod
  | add => .add
  | sub => .sub
  | mul => .mul
  | div => .div
  | mod => .mod
  | exp => .exp

end ArithOp

namespace Operator

def mismatch (op : String) (a b : Value) : ScriptError :=
  .typeError ("cannot apply '" ++ op ++ "' to '" ++ a.typeName ++ "' and '" ++ b.typeName ++ "'")

/-! ## Integers -/

/-- A product that fits 64 bits. -/
def checkedMul (a b : Int64) : Option Int64 :=
  let p := a.toInt * b.toInt
  if Int64.minValue.toInt ≤ p ∧ p ≤ Int64.maxValue.toInt then some (Int64.ofInt p) else none

/-- Squares the base until the exponent is odd. -/
def squareEven : Nat → Int64 → Nat → Option (Int64 × Nat)
  | 0, base, e => some (base, e)
  | fuel + 1, base, e =>
    if e % 2 = 0 then
      match checkedMul base base with
      | some b => squareEven fuel b (e / 2)
      | none => none
    else some (base, e)

/-- Multiplies the squares that the remaining bits of the exponent select. -/
def multiplySquares : Nat → Int64 → Int64 → Nat → Option Int64
  | 0, acc, _, _ => some acc
  | fuel + 1, acc, base, e =>
    if e ≤ 1 then some acc
    else
      match checkedMul base base with
      | none => none
      | some base =>
        if (e / 2) % 2 = 1 then
          match checkedMul acc base with
          | some acc => multiplySquares fuel acc base (e / 2)
          | none => none
        else multiplySquares fuel acc base (e / 2)

/-- The power by squaring, unless a product on the way does not fit. -/
def checkedPow (base : Int64) (e : Nat) : Option Int64 :=
  if e = 0 then some 1
  else
    match squareEven 64 base e with
    | none => none
    | some (base, e) => multiplySquares 64 base base e

def integer (op : ArithOp) (a b : Int64) : Except ScriptError Value :=
  match op with
  | .add => .ok (.integer (a + b))
  | .sub => .ok (.integer (a - b))
  | .mul => .ok (.integer (a * b))
  | .div =>
    if b = 0 then .error (.arithmetic "integer division by zero") else .ok (.integer (a / b))
  | .mod =>
    if b = 0 then .error (.arithmetic "integer division by zero") else .ok (.integer (a % b))
  | .exp =>
    match (if 0 ≤ b then checkedPow a b.toInt.toNat else none) with
    | some n => .ok (.integer n)
    | none => .ok (.float (Float.pow a.toFloat b.toFloat))

/-! ## Floats and complex numbers -/

def float (op : ArithOp) (a b : Float) : Float :=
  match op with
  | .add => a + b
  | .sub => a - b
  | .mul => a * b
  | .div => a / b
  | .mod => Binary.remainder a b
  | .exp => Float.pow a b

def complex (op : ArithOp) (a b : Complex) : Except ScriptError Value :=
  match op with
  | .add => .ok (.complex (a.add b))
  | .sub => .ok (.complex (a.sub b))
  | .mul => .ok (.complex (a.mul b))
  | .div =>
    if b.isZero then .error (.arithmetic "complex division by zero") else .ok (.complex (a.div b))
  | .mod => .error (.typeError "cannot apply '%' to complex numbers")
  | .exp => .ok (.complex (a.pow b))

/-- The operators on numbers; the least type that holds both sides decides. -/
def numeric (op : ArithOp) (a b : Value) : Except ScriptError Value :=
  match a, b with
  | .integer m, .integer n => integer op m n
  | a, b =>
    match a.asFloat?, b.asFloat? with
    | some x, some y => .ok (.float (float op x y))
    | _, _ =>
      match a.asComplex?, b.asComplex? with
      | some z, some w => complex op z w
      | _, _ => .error (mismatch op.symbol a b)

/-! ## Integers only -/

def bitwise (op : BitwiseOp) (a b : Value) : Except ScriptError Value :=
  match a, b with
  | .integer m, .integer n =>
    .ok (.integer (match op with
      | .and => m &&& n
      | .or => m ||| n
      | .xor => m ^^^ n
      | .shiftLeft => m <<< (n &&& 63)
      | .shiftRight => m >>> (n &&& 63)))
  | a, b => .error (mismatch "bitwise" a b)

def bitNot : Value → Except ScriptError Value
  | .integer n => .ok (.integer (~~~n))
  | v => .error (.typeError ("cannot apply '~' to '" ++ v.typeName ++ "'"))

def negate : Value → Except ScriptError Value
  | .integer n => .ok (.integer (-n))
  | .float x => .ok (.float (-x))
  | .complex z => .ok (.complex z.neg)
  | v => .error (.typeError ("cannot negate '" ++ v.typeName ++ "'"))

/-! ## Order -/

def compareIntegers (a b : Int64) : Ordering :=
  if a < b then .lt else if a = b then .eq else .gt

def compareFloats (a b : Float) : Except ScriptError Ordering :=
  if a < b then .ok .lt
  else if a > b then .ok .gt
  else if a == b then .ok .eq
  else .error (.arithmetic "comparison with NaN")

/-- Numbers after promotion and strings by code points have an order. -/
def compare (a b : Value) : Except ScriptError Ordering :=
  match a, b with
  | .integer m, .integer n => .ok (compareIntegers m n)
  | .string s, .string t =>
    .ok (if s.chars < t.chars then .lt else if s.chars = t.chars then .eq else .gt)
  | a, b =>
    match a.asFloat?, b.asFloat? with
    | some x, some y => compareFloats x y
    | _, _ => .error (mismatch "comparison" a b)

end Operator

/-- Arithmetic on built-in types. Addition joins texts when a side is a string,
and joins two arrays into a new one. The caller gets a reference of its own. -/
def Heap.arith (h : Heap) (op : ArithOp) (a b : Value) : Except ScriptError Value × Heap :=
  match op, a, b with
  | .add, .string _, _ | .add, _, .string _ =>
    let (v, h) := h.newString (h.display a ++ h.display b)
    (.ok v, h)
  | .add, .array x, .array y =>
    let items := h.items x ++ h.items y
    let (v, h) := (h.retainAll items.toList).newArray items
    (.ok v, h)
  | op, a, b => (Operator.numeric op a b, h)

end ScriptMachine
