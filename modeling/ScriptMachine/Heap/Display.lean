import ScriptMachine.Heap.Class
import ScriptMachine.Heap.Native

/-!
# Texts of values

The text that scripts and hosts see, and the text in diagnostics. Objects
without content of their own show their identity as an address.
-/

set_option autoImplicit false

namespace ScriptMachine

/-- An address tells objects apart and means nothing else. -/
def Ref.address (r : Ref) : String :=
  "0x" ++ Quoting.hexText (0x550000000000 + 16 * r.id)

def boolText (b : Bool) : String := if b then "true" else "false"

namespace Heap

def closureName (h : Heap) (r : Ref) : String :=
  match h.closure? r with
  | some c => c.prototype.name
  | none => ""

def nativeName (h : Heap) (r : Ref) : String :=
  match h.native? r with
  | some n => n.name.chars
  | none => ""

def display (h : Heap) : Value → String
  | .null => "null"
  | .integer n => Decimal.integer n
  | .float x => Decimal.display x
  | .complex z => z.display
  | .bool b => boolText b
  | .string t => t.chars
  | .space _ s => s.display
  | .closure r => "(closure : " ++ h.closureName r ++ ")"
  | .native r => "(native_closure : " ++ h.nativeName r ++ ")"
  | v =>
    "(" ++ v.typeName ++ " : " ++
      (match v.ref? with
       | some r => r.address
       | none => "0x0") ++ ")"

/-- A weak reference whose referent still lives. -/
def isTargetAlive (h : Heap) (w : Ref) : Bool := !(h.target w).isNull

def detailed (h : Heap) : Value → String
  | .null => "Null"
  | .integer n => "Integer(" ++ Decimal.integer n ++ ")"
  | .float x => "Float(" ++ Decimal.detailed.render x ++ ")"
  | .complex z => "Complex(" ++ z.detailed ++ ")"
  | .bool b => "Bool(" ++ boolText b ++ ")"
  | .string t => "String(" ++ Quoting.detailed t.chars ++ ")"
  | .array r => "Array(len=" ++ Decimal.digitText (h.items r).size ++ ")"
  | .dict r => "Dict(len=" ++ Decimal.digitText (h.entries r).size ++ ")"
  | .closure r => "Closure(" ++ h.closureName r ++ ")"
  | .native r => "NativeClosure(" ++ h.nativeName r ++ ")"
  | .classObject r => "Class(" ++ r.address ++ ")"
  | .instanceObject r => "Instance(" ++ r.address ++ ")"
  | .weak r => "WeakRef(alive=" ++ boolText (h.isTargetAlive r) ++ ")"
  | .space _ s => "Space(" ++ s.display ++ ")"
  | .outer _ => "Outer"
  | .prototype _ p => "Prototype(" ++ p.name ++ ")"

end Heap

end ScriptMachine
