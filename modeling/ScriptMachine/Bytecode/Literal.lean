import ScriptMachine.Complex
import ScriptMachine.Quoting.Quoted

/-!
# Literals

The constants of a function. Two literals share an entry of the literal table
when they have the same key: floats are kept apart by their bits.
-/

set_option autoImplicit false

namespace ScriptMachine

/-- A domain such as `R^3` or `Z+^1`, possibly mapped into another. -/
inductive Space where
  | simple (domain : String) (dimension : Int64) (sign : Char)
  | into (domain : String) (dimension : Int64) (sign : Char) (codomain : Space)
  deriving DecidableEq, Repr

namespace Space

def domain : Space → String
  | simple d _ _ | into d _ _ _ => d

def dimension : Space → Int64
  | simple _ n _ | into _ n _ _ => n

def sign : Space → Char
  | simple _ _ c | into _ _ c _ => c

def child? : Space → Option Space
  | simple _ _ _ => none
  | into _ _ _ s => some s

def ofParts (domain : String) (dimension : Int64) (sign : Char) : Option Space → Space
  | none => simple domain dimension sign
  | some s => into domain dimension sign s

/-- A backslash stands for no sign restriction. -/
def head (d : String) (n : Int64) (c : Char) : String :=
  d ++ (if c = '\\' then "" else c.toString) ++ "^" ++ Decimal.integer n

def display : Space → String
  | simple d n c => head d n c
  | into d n c s => head d n c ++ "->" ++ s.display

end Space

inductive Literal where
  | null
  | integer (n : Int64)
  | float (x : Float)
  | complex (re im : Float)
  | bool (b : Bool)
  | string (s : String)
  | space (s : Space)

/-- What tells two literals of a table apart. -/
inductive LiteralKey where
  | null
  | integer (n : Int64)
  | float (bits : UInt64)
  | complex (re im : UInt64)
  | bool (b : Bool)
  | string (s : String)
  | space (s : Space)
  deriving DecidableEq, Repr

namespace Literal

def key : Literal → LiteralKey
  | null => .null
  | integer n => .integer n
  | float x => .float x.toBits
  | complex re im => .complex re.toBits im.toBits
  | bool b => .bool b
  | string s => .string s
  | space s => .space s

def asString? : Literal → Option String
  | string s => some s
  | _ => none

/-- Equality of constants; a NaN differs from itself. -/
def equal : Literal → Literal → Bool
  | null, null => true
  | integer a, integer b => a == b
  | float a, float b => a == b
  | complex a b, complex c d => a == c && b == d
  | bool a, bool b => a == b
  | string a, string b => a == b
  | space a, space b => a == b
  | _, _ => false

/-- The text in a listing. -/
def display : Literal → String
  | null => "null"
  | integer n => Decimal.integer n
  | float x => Decimal.detailed.render x
  | complex re im => Decimal.plain.render re ++ Decimal.plain.renderSigned im ++ "i"
  | bool b => if b then "true" else "false"
  | string s => Quoting.detailed s
  | space s => "@" ++ s.domain ++ s.sign.toString ++ Decimal.integer s.dimension

end Literal

end ScriptMachine
