import ScriptMachine.Error
import ScriptMachine.Heap.Entries
import ScriptMachine.Value

/-!
# Objects

What an object holds. Every object lists the objects it keeps alive, split into
those that the collector may take from it and those it keeps to its end.
-/

set_option autoImplicit false

namespace ScriptMachine

/-! ## Metamethods -/

/-- The operations that a class may define for its instances or itself. -/
inductive MetaMethod where
  | add
  | sub
  | mul
  | div
  | mod
  | exp
  | neg
  | get
  | assign
  | typeOf
  | next
  | compare
  | call
  | newSlot
  | removeSlot
  | newMember
  | inherit
  | string
  deriving DecidableEq, Repr

namespace MetaMethod

def all : List MetaMethod :=
  [add, sub, mul, div, mod, exp, neg, get, assign, typeOf, next, compare, call, newSlot,
   removeSlot, newMember, inherit, string]

/-- The member name that defines the metamethod. -/
def name : MetaMethod → String
  | add => "_add"
  | sub => "_sub"
  | mul => "_mul"
  | div => "_div"
  | mod => "_mod"
  | exp => "_exp"
  | neg => "_neg"
  | get => "_get"
  | assign => "_set"
  | typeOf => "_typeof"
  | next => "_next"
  | compare => "_cmp"
  | call => "_call"
  | newSlot => "_newslot"
  | removeSlot => "_delslot"
  | newMember => "_newmember"
  | inherit => "_inherit"
  | string => "_string"

def ofName? (s : String) : Option MetaMethod := all.find? (·.name == s)

/-- The position in a class's table. -/
def index (m : MetaMethod) : Nat := all.findIdx (· == m)

def count : Nat := 18

end MetaMethod

/-! ## Natives -/

/-- What a native tells about itself. -/
inductive NativeAttribute where
  | name
  | docs
  | paramCount
  | minArgs
  | defaultCount
  | typeMask
  deriving DecidableEq, Repr

def NativeAttribute.ofName? : String → Option NativeAttribute
  | "name" => some name
  | "docs" => some docs
  | "n_params" => some paramCount
  | "n_minargs" => some minArgs
  | "n_defparams" => some defaultCount
  | "typemask" => some typeMask
  | _ => none

/-- What a native may ask of the machine that runs it. -/
inductive Request where
  /-- Call a value; the only request that can fail. -/
  | call (callee : Value) (args : List Value)
  | newArray (items : List Value)
  | newString (chars : String)
  /-- Append to an array. -/
  | push (array : Ref) (v : Value)
  | weaken (v : Value)
  /-- The referent of a weak reference, or null once it is gone. -/
  | target (weak : Ref)
  /-- The number of items or entries. -/
  | length (r : Ref)
  | attribute (native : Ref) (a : NativeAttribute)
  /-- The text of a value, as a string. -/
  | display (v : Value)
  | deepEqual (a b : Value)
  | root
  | live
  | collect
  | interrupt
  /-- Add a line to the output. -/
  | emit (line : String)

/-- The behaviour of a native on given arguments: it ends, or asks for something
and goes on with the answer. -/
inductive Routine where
  | finish (v : Value)
  | fail (e : ScriptError)
  | ask (r : Request) (next : Except ScriptError Value → Routine)

namespace Routine

/-- Asks for something and goes on with the value; an error ends it. -/
def asking (r : Request) (next : Value → Routine) : Routine :=
  ask r fun
    | .ok v => next v
    | .error e => fail e

/-- Ends with what it asks for. -/
def giving (r : Request) : Routine := asking r finish

end Routine

structure NativeObject where
  name : Text
  docs : Text
  behaviour : List Value → Routine
  /-- Exactly so many arguments, at least so many when negative, any when zero. -/
  params : Int64
  mask : List Nat
  /-- Default values by position, in ascending order. -/
  defaults : List (Nat × Value)

/-! ## Classes -/

structure ClassMember where
  key : Text
  value : Value
  attributes : Value

/-- Where a name of a class is found. -/
inductive Member where
  | field (index : Nat)
  | method (index : Nat)
  deriving DecidableEq, Repr

structure ClassObject where
  base : Option Ref
  constructorName : String
  /-- Every name with its place in one of the two tables. -/
  members : List (Text × Member)
  methods : List ClassMember
  /-- The fields with their default values. -/
  fields : List ClassMember
  /-- One value for each metamethod, null where there is none. -/
  metas : List Value
  attributes : Value
  /-- No fields may be added any more. -/
  locked : Bool
  constructorIndex : Option Nat

/-! ## Closures -/

/-- A captured variable: still a slot of the stack, or a cell of its own. -/
inductive OuterState where
  | opened (index : Nat)
  | closed (v : Value)

structure ClosureObject where
  prototype : Prototype
  outers : List Ref
  defaults : List Value
  /-- The class whose method it is. -/
  owner : Option Ref

/-! ## All objects -/

inductive Body where
  /-- A string, space or function; its content is in the values that name it. -/
  | content
  /-- The referent is not kept alive. -/
  | weak (target : Value)
  | array (items : Array Value)
  | dict (entries : Entries)
  | closure (c : ClosureObject)
  | native (n : NativeObject)
  | classObject (c : ClassObject)
  | instanceObject (cls : Ref) (values : List Value)
  | outer (s : OuterState)

namespace ClassMember

def refs (m : ClassMember) : List Ref :=
  m.key.ref :: (m.value.ref?.toList ++ m.attributes.ref?.toList)

end ClassMember

namespace Body

def valueRefs (vs : List Value) : List Ref := vs.filterMap Value.ref?

/-- The objects it keeps alive to its end. -/
def fixedRefs : Body → List Ref
  | native n => [n.name.ref, n.docs.ref]
  | classObject c => c.base.toList
  | instanceObject cls _ => [cls]
  | _ => []

/-- The objects it keeps alive until the collector takes them, in the order in
which they are let go. -/
def looseRefs : Body → List Ref
  | array items => valueRefs items.toList
  | dict es => es.list.flatMap fun (e : Entry) => e.1.ref :: e.2.ref?.toList
  | closure c => c.outers ++ valueRefs c.defaults ++ c.owner.toList
  | native n => valueRefs (n.defaults.map (·.2))
  | classObject c =>
    c.members.map (·.1.ref) ++ c.methods.flatMap ClassMember.refs ++
      c.fields.flatMap ClassMember.refs ++ valueRefs c.metas ++ c.attributes.ref?.toList
  | instanceObject _ values => valueRefs values
  | outer (.closed v) => v.ref?.toList
  | outer (.opened _) | content | weak _ => []

def refs (b : Body) : List Ref := b.fixedRefs ++ b.looseRefs

/-- What is left once the collector has taken the loose references. -/
def cleared : Body → Body
  | array _ => array #[]
  | dict _ => dict .empty
  | closure c => closure { c with outers := [], defaults := [], owner := none }
  | native n => native { n with defaults := [] }
  | classObject c =>
    classObject { c with
      members := []
      methods := []
      fields := []
      metas := List.replicate MetaMethod.count .null
      attributes := .null
      constructorIndex := none }
  | instanceObject cls _ => instanceObject cls []
  | outer _ => outer (.closed .null)
  | content => content
  | weak t => weak t

/-- The name of the kind in counts of the living. -/
def kindName : Body → String
  | content => "content"
  | weak _ => "weakref"
  | array _ => "array"
  | dict _ => "dict"
  | closure _ => "closure"
  | native _ => "native_closure"
  | classObject _ => "class"
  | instanceObject _ _ => "instance"
  | outer _ => "outer"

end Body

/-- How an object stands to the chain: not yet in it, in a node, or taken out
for good. -/
inductive Link where
  | fresh
  | linked (node : Nat)
  | detached
  deriving DecidableEq, Repr

structure Cell where
  /-- The number of references that keep the object alive. -/
  strong : Nat
  link : Link
  /-- The weak reference made for it, if any. -/
  handle : Option Ref
  body : Body

/-- The objects it keeps alive, in the order in which they are let go. -/
def Cell.refs (c : Cell) : List Ref := c.handle.toList ++ c.body.refs

end ScriptMachine
