import ScriptMachine.Heap.Display

/-!
# Values as trees

What can be seen of a value, as a finite tree. An object that lies on the way
from the root already is shown by the number of objects to go up to it.
-/

set_option autoImplicit false

namespace ScriptMachine

inductive View where
  | null
  | bool (b : Bool)
  | integer (n : Int64)
  | float (x : Float)
  | complex (z : Complex)
  | string (s : String)
  /-- The object so many levels up; the enclosing one is the first. -/
  | up (levels : Nat)
  | array (items : List View)
  | dict (entries : List (String × View))
  | closure (name : String) (outers defaults : List View) (owned : Bool)
  | native (name : String)
  | classObject (members : List String) (locked : Bool)
  /-- A field that the class got after the instance was made has no value. -/
  | instanceObject (fields : List (String × Option View))
  /-- The type of the referent, while it lives. -/
  | weak (typeName : Option String)
  | space (s : Space)
  | opened (index : Nat)
  | closed (v : View)
  | prototype (name : String)

namespace Heap

/-- The names of the fields of an instance with their values. -/
def instanceFields (h : Heap) (r : Ref) : List (String × Option Value) :=
  match h.instance? r with
  | none => []
  | some (cls, values) =>
    match h.class? cls with
    | none => []
    | some c => c.fields.mapIdx fun (i : Nat) (f : ClassMember) => (f.key.chars, values[i]?)

/-- The tree below an object; what is below it is seen with the longer path. -/
def viewObject (h : Heap) (see : Value → View) (v : Value) : View :=
  match v with
  | .array r => .array ((h.items r).toList.map see)
  | .dict r => .dict ((h.entries r).list.map fun (e : Entry) => (e.1.chars, see e.2))
  | .instanceObject r =>
    .instanceObject ((h.instanceFields r).map fun (f : String × Option Value) => (f.1, f.2.map see))
  | .closure r =>
    match h.closure? r with
    | none => .null
    | some c =>
      .closure c.prototype.name (c.outers.map fun (o : Ref) => see (.outer o)) (c.defaults.map see)
        c.owner.isSome
  | .outer r =>
    match h.outerState? r with
    | none => .null
    | some (.opened i) => .opened i
    | some (.closed w) => .closed (see w)
  | .null => .null
  | .bool b => .bool b
  | .integer n => .integer n
  | .float x => .float x
  | .complex z => .complex z
  | .string t => .string t.chars
  | .native r => .native (h.nativeName r)
  | .classObject r =>
    match h.class? r with
    | none => .null
    | some c => .classObject c.memberNames c.locked
  | .weak r => .weak (if h.isTargetAlive r then some (h.target r).typeName else none)
  | .space _ s => .space s
  | .prototype _ p => .prototype p.name

/-- Objects that hold values show where the way comes back to them. -/
def opensLevel : Value → Option Ref
  | .array r | .dict r | .instanceObject r | .closure r | .outer r => some r
  | _ => none

def viewWithin (h : Heap) : Nat → List Ref → Value → View
  | 0, _, _ => .null
  | fuel + 1, path, v =>
    match opensLevel v with
    | none => h.viewObject (viewWithin h fuel path) v
    | some r =>
      match path.findIdx? (· == r) with
      | some i => .up (i + 1)
      | none => h.viewObject (viewWithin h fuel (r :: path)) v

/-- No object is entered twice on one way, so the number of objects bounds the
depth. -/
def view (h : Heap) (v : Value) : View := h.viewWithin (h.cells.size + 2) [] v

end Heap

end ScriptMachine
