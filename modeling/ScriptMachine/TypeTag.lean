import ScriptMachine.Quoting.Quoted

/-!
# Type tags

Every value has one of sixteen types. A type is one bit of a mask, and four
flags are fixed per type.
-/

set_option autoImplicit false

namespace ScriptMachine

inductive TypeTag where
  | null
  | integer
  | float
  | complex
  | bool
  | string
  | array
  | dict
  | closure
  | native
  | classObject
  | instanceObject
  | weakRef
  | space
  | outer
  | prototype
  deriving DecidableEq, Repr

namespace TypeTag

/-- All tags in the order of their bits. -/
def all : List TypeTag :=
  [null, integer, float, complex, bool, string, array, dict, closure, native,
   classObject, instanceObject, weakRef, space, outer, prototype]

/-- The name that `typeof` reports. -/
def name : TypeTag → String
  | null => "null"
  | integer => "integer"
  | float => "float"
  | complex => "complex"
  | bool => "bool"
  | string => "string"
  | array => "array"
  | dict => "dict"
  | closure => "closure"
  | native => "native_closure"
  | classObject => "class"
  | instanceObject => "instance"
  | weakRef => "weakref"
  | space => "space"
  | outer => "outer"
  | prototype => "prototype"

/-- The position of the tag's bit. -/
def index : TypeTag → Nat
  | null => 0
  | integer => 1
  | float => 2
  | complex => 3
  | bool => 4
  | string => 5
  | array => 6
  | dict => 7
  | closure => 8
  | native => 9
  | classObject => 10
  | instanceObject => 11
  | weakRef => 12
  | space => 13
  | outer => 14
  | prototype => 15

/-- The tag's bit in a type mask. -/
def base (t : TypeTag) : Nat := Nat.pow 2 t.index

def isNumeric : TypeTag → Bool
  | integer | float | complex => true
  | _ => false

def canBeFalsy : TypeTag → Bool
  | null | integer | float | complex | bool => true
  | _ => false

def hasDelegates : TypeTag → Bool
  | null | bool | space | outer | prototype => false
  | _ => true

def countsReferences : TypeTag → Bool
  | array | dict | closure | native | classObject | instanceObject
  | weakRef | space | outer | prototype => true
  | _ => false

/-- The bit of the type together with its flags. -/
def bits (t : TypeTag) : Nat :=
  t.base
    + (if t.canBeFalsy then 0x01000000 else 0)
    + (if t.isNumeric then 0x02000000 else 0)
    + (if t.hasDelegates then 0x04000000 else 0)
    + (if t.countsReferences then 0x08000000 else 0)

def detailed (t : TypeTag) : String :=
  "TypeTag(" ++ t.name ++ ", 0x" ++ Quoting.hexPadded 8 t.bits ++ ")"

def ofName? (s : String) : Option TypeTag := all.find? (·.name == s)

end TypeTag

end ScriptMachine
