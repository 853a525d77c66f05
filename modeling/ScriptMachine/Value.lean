import ScriptMachine.Bytecode.Prototype
import ScriptMachine.TypeTag

/-!
# Values

Numbers, bools and null are held in place. Every other value names an object by
its identity; strings, spaces and functions never change, so their content
travels with the name.
-/

set_option autoImplicit false

namespace ScriptMachine

/-- The identity of an object. Identities are never used twice. -/
structure Ref where
  id : Nat
  deriving DecidableEq, Repr, Hashable

/-- A string object: its identity and its characters. -/
structure Text where
  ref : Ref
  chars : String
  deriving DecidableEq, Repr

inductive Value where
  | null
  | integer (n : Int64)
  | float (x : Float)
  | complex (z : Complex)
  | bool (b : Bool)
  | string (t : Text)
  | array (r : Ref)
  | dict (r : Ref)
  | closure (r : Ref)
  | native (r : Ref)
  | classObject (r : Ref)
  | instanceObject (r : Ref)
  | weak (r : Ref)
  | space (r : Ref) (s : Space)
  | outer (r : Ref)
  | prototype (r : Ref) (p : Prototype)

instance : Inhabited Value := ⟨.null⟩

namespace Value

def tag : Value → TypeTag
  | null => .null
  | integer _ => .integer
  | float _ => .float
  | complex _ => .complex
  | bool _ => .bool
  | string _ => .string
  | array _ => .array
  | dict _ => .dict
  | closure _ => .closure
  | native _ => .native
  | classObject _ => .classObject
  | instanceObject _ => .instanceObject
  | weak _ => .weakRef
  | space _ _ => .space
  | outer _ => .outer
  | prototype _ _ => .prototype

def typeName (v : Value) : String := v.tag.name

/-- The object that the value names. -/
def ref? : Value → Option Ref
  | null | integer _ | float _ | complex _ | bool _ => none
  | string t => some t.ref
  | array r | dict r | closure r | native r | classObject r | instanceObject r
  | weak r | space r _ | outer r | prototype r _ => some r

def isNull : Value → Bool
  | null => true
  | _ => false

/-- Null, false and the zeros. -/
def isFalsy : Value → Bool
  | null => true
  | bool b => !b
  | integer n => n == 0
  | float x => x == 0.0
  | complex z => z.isZero
  | _ => false

def isTruthy (v : Value) : Bool := !v.isFalsy

def asInteger? : Value → Option Int64
  | integer n => some n
  | _ => none

def asFloat? : Value → Option Float
  | integer n => some n.toFloat
  | float x => some x
  | _ => none

def asComplex? : Value → Option Complex
  | integer n => some (Complex.ofInteger n)
  | float x => some (Complex.ofFloat x)
  | complex z => some z
  | _ => none

def asString? : Value → Option String
  | string t => some t.chars
  | _ => none

/-- Scripts and hosts can call it as a member of a class. -/
def isFunction : Value → Bool
  | closure _ | native _ => true
  | _ => false

def sameObject (a b : Value) : Bool :=
  match a.ref?, b.ref? with
  | some r, some s => r == s
  | _, _ => false

/-- Equality of scripts: numbers after promotion, strings and spaces by content,
all other objects by identity. -/
def checkEqual : Value → Value → Bool
  | null, null => true
  | bool a, bool b => a == b
  | integer a, integer b => a == b
  | string a, string b => a.chars == b.chars
  | space _ a, space _ b => a == b
  | complex z, w | w, complex z =>
    match w.asComplex? with
    | some w => z.equal w
    | none => false
  | a, b =>
    match a.asFloat?, b.asFloat? with
    | some x, some y => x == y
    | _, _ => a.tag == b.tag && a.sameObject b

end Value

end ScriptMachine
