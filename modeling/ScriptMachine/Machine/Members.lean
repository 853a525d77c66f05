import ScriptMachine.Heap.Members
import ScriptMachine.Machine.Registers

/-!
# Members and operators of instances

Reads look at the own members first, then ask the `_get` metamethod of an
instance, then the methods of the type. Writes go to what is there or to a
metamethod, never to the methods of the type. A class may also define the
operators for its instances; the left side decides.

Each action takes the way to call a function as its first argument. Values that
a call gets, and values that are stored, are taken over; all else is lent.
-/

set_option autoImplicit false

namespace ScriptMachine.Exec

/-- Calls a metamethod with arguments that are lent, followed by some that are
taken over. -/
def callMeta (call : Caller) (m : Value) (lent owned : List Value) : Exec Value :=
  holding [m] do
    retainAll lent
    call m (lent ++ owned)

/-- A value of its own for the caller. -/
def sharing (v : Value) : Exec Value := do
  retain v
  return v

/-! ## Reading -/

def missingIndex (h : Heap) (key : Value) : ScriptError :=
  .member ("the index '" ++ h.display key ++ "' does not exist")

/-- The method that all values of a type have under a name. -/
def delegate? (tag : TypeTag) (name : String) : Exec (Option Value) := do
  let m ← get
  return (m.delegates[tag.index]?).bind fun (d : Ref) => m.heap.dictGet? d name

def keyDelegate? (tag : TypeTag) (key : Value) : Exec (Option Value) :=
  match key with
  | .string k => delegate? tag k.chars
  | _ => pure none

def getMember (call : Caller) (obj key : Value) : Exec Value := do
  match ← readHeap fun (h : Heap) => h.member? obj key with
  | .error e => fail e.toScriptError
  | .ok (some v) => sharing v
  | .ok none =>
    match ← readHeap fun (h : Heap) => h.metaOf? obj .get with
    | some m => callMeta call m [obj, key] []
    | none =>
      match ← keyDelegate? obj.tag key with
      | some v => sharing v
      | none => fail (← readHeap fun (h : Heap) => missingIndex h key)

def hasMember (obj key : Value) : Exec Bool := readHeap fun (h : Heap) => h.hasMember obj key

/-! ## Writing -/

/-- The text of a key; what was to be stored is let go when it is none. -/
def storingKey (key : Value) (stored : List Value) : Exec Text :=
  match key.keyText with
  | .ok t => pure t
  | .error e => do
    releaseAll stored
    fail e.toScriptError

/-- Fails when nothing was there to be overwritten. -/
def requireFound (name : String) (found : Bool) : Exec Unit :=
  if found then pure () else fail (SlotError.missing name).toScriptError

/-- Stores through the `_assign` metamethod; the reference is taken over, or let go
when there is none. -/
def assignThrough (call : Caller) (obj key v : Value) : Exec Unit := do
  match ← readHeap fun (h : Heap) => h.metaOf? obj .assign with
  | some m => release (← callMeta call m [obj, key] [v])
  | none =>
    release v
    fail (← readHeap fun (h : Heap) => missingIndex h key)

/-- Overwrites a member that exists; the reference is taken over, or let go. -/
def setMember (call : Caller) (obj key v : Value) : Exec Unit := do
  match obj with
  | .dict r =>
    let k ← storingKey key [v]
    requireFound k.chars (← heap fun (h : Heap) => h.dictSet r k.chars v)
  | .classObject r =>
    let k ← storingKey key [v]
    requireFound k.chars (← heap fun (h : Heap) => h.classSet r k.chars v)
  | .array r =>
    match key with
    | .integer i => slotHeap fun (h : Heap) => h.setItem r i v
    | key =>
      release v
      fail (SlotError.invalidKey key.typeName).toScriptError
  | .instanceObject r =>
    retain v
    let stored ← match key with
      | .string k => heap fun (h : Heap) => h.instanceSet r k.chars v
      | _ => do
        release v
        pure false
    if stored then release v else assignThrough call obj key v
  | other =>
    release v
    fail (.typeError ("cannot set a member of '" ++ other.typeName ++ "'"))

/-- Adds a member to a class, through its `_newmember` metamethod when there is
one. The references to value and attributes are taken over. -/
def newClassMember (call : Caller) (cls : Ref) (key v attributes : Value) (isStatic : Bool) :
    Exec Unit := do
  match ← readHeap fun (h : Heap) => h.classMeta? cls .newMember with
  | some m => release (← callMeta call m [.classObject cls, key] [v, attributes, .bool isStatic])
  | none =>
    let k ← storingKey key [v, attributes]
    handing attributes do
      retain key
      slotHeap fun (h : Heap) => h.classNewSlot cls k v isStatic
    if attributes.isNull then pure ()
    else slotHeap fun (h : Heap) => h.setMemberAttributes cls k.chars attributes

/-- Creates or overwrites a member; the reference is taken over, or let go. -/
def newSlot (call : Caller) (obj key v : Value) : Exec Unit := do
  match obj with
  | .dict r =>
    let k ← storingKey key [v]
    retain key
    updateHeap fun (h : Heap) => h.dictInsert r k v
  | .classObject r => newClassMember call r key v .null false
  | .instanceObject _ =>
    match ← readHeap fun (h : Heap) => h.metaOf? obj .newSlot with
    | some m => release (← callMeta call m [obj, key] [v])
    | none =>
      release v
      fail (.typeError "instances cannot create new slots")
  | other =>
    release v
    fail (.typeError ("cannot create a slot in '" ++ other.typeName ++ "'"))

/-- Takes a member out. -/
def deleteSlot (call : Caller) (obj key : Value) : Exec Value := do
  match obj with
  | .dict r =>
    let k ← ofSlot key.keyText
    match ← heap fun (h : Heap) => h.dictRemove r k.chars with
    | some v => return v
    | none => fail (SlotError.missing k.chars).toScriptError
  | .array r =>
    match key with
    | .integer i => slotHeap fun (h : Heap) => h.removeItem r i
    | key => fail (SlotError.invalidKey key.typeName).toScriptError
  | .instanceObject _ =>
    match ← readHeap fun (h : Heap) => h.metaOf? obj .removeSlot with
    | some m => callMeta call m [obj, key] []
    | none => fail (.typeError "cannot delete a slot of an instance")
  | other => fail (.typeError ("cannot delete a slot of '" ++ other.typeName ++ "'"))

/-! ## Operators -/

/-- The text of a value; an instance may define it. -/
def displayText (call : Caller) (v : Value) : Exec String := do
  match ← readHeap fun (h : Heap) => h.metaOf? v .string with
  | none => readHeap fun (h : Heap) => h.display v
  | some m =>
    let result ← callMeta call m [v] []
    owning [result] (readHeap fun (h : Heap) => h.display result)

def newString (chars : String) : Exec Value := heap fun (h : Heap) => h.newString chars

/-- Arithmetic. An instance without the metamethod can still be joined to a
string. -/
def arithOp (call : Caller) (op : ArithOp) (a b : Value) : Exec Value := do
  match ← readHeap fun (h : Heap) => h.metaOf? a op.metaMethod with
  | some m => callMeta call m [a, b] []
  | none =>
    match op, a, b with
    | .add, .string s, .instanceObject _ => newString (s.chars ++ (← displayText call b))
    | .add, .instanceObject _, .string s => newString ((← displayText call a) ++ s.chars)
    | op, a, b => ofExcept (← heap fun (h : Heap) => h.arith op a b)

def negateOp (call : Caller) (v : Value) : Exec Value := do
  match ← readHeap fun (h : Heap) => h.metaOf? v .neg with
  | some m => callMeta call m [v] []
  | none => ofExcept (Operator.negate v)

/-- The order that a `_cmp` metamethod states by the sign of an integer. -/
def statedOrder : Value → Except ScriptError Ordering
  | .integer n => .ok (Operator.compareIntegers n 0)
  | v => .error (.typeError ("'_cmp' must return an integer, not '" ++ v.typeName ++ "'"))

def compareOp (call : Caller) (a b : Value) : Exec Ordering := do
  match ← readHeap fun (h : Heap) => h.metaOf? a .compare with
  | some m =>
    let result ← callMeta call m [a, b] []
    owning [result] (ofExcept (statedOrder result))
  | none => ofExcept (Operator.compare a b)

/-- The name of the type, as a string. -/
def typeOf (call : Caller) (v : Value) : Exec Value := do
  match ← readHeap fun (h : Heap) => h.metaOf? v .typeOf with
  | some m => callMeta call m [v] []
  | none => newString v.typeName

def instanceOf (cls obj : Value) : Exec Bool := do
  match cls with
  | .classObject c =>
    match obj with
    | .instanceObject r => readHeap fun (h : Heap) => h.isInstanceOf r c
    | _ => return false
  | other => fail (.typeError ("instanceof expects a class, got '" ++ other.typeName ++ "'"))

end ScriptMachine.Exec
