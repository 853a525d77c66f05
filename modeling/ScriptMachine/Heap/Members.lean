import ScriptMachine.Heap.Class

/-!
# Own members

What a value has under a key by itself, before metamethods and the methods of
its type come in. Strings are indexed by byte; a negative index counts from the
end.
-/

set_option autoImplicit false

namespace ScriptMachine

/-- The key of a dict, a class or an instance. -/
def Value.keyText : Value → Except SlotError Text
  | .string t => .ok t
  | .null => .error .nullKey
  | v => .error (.invalidKey v.typeName)

namespace Heap

def byteAt? (s : String) (i : Int64) : Option Value :=
  (position? i s.utf8ByteSize).bind fun (i : Nat) =>
    (s.toUTF8[i]?).map fun (b : UInt8) => .integer (Int64.ofNat b.toNat)

def byteAt (s : String) (index : Int64) : Except SlotError Value :=
  let i := if index < 0 then index + Int64.ofNat s.utf8ByteSize else index
  match byteAt? s i with
  | some v => .ok v
  | none => .error (.outOfRange index s.utf8ByteSize)

/-- The own member under a key, lent. An index outside an array or a string is an
error. -/
def member? (h : Heap) (obj key : Value) : Except SlotError (Option Value) :=
  match obj, key with
  | .dict r, .string k => .ok (h.dictGet? r k.chars)
  | .array r, .integer i => (h.itemAt r i).map some
  | .string s, .integer i => (byteAt s.chars i).map some
  | .instanceObject r, .string k => .ok (h.instanceGet? r k.chars)
  | .classObject r, .string k =>
    .ok ((h.class? r).bind fun (c : ClassObject) => c.get? k.chars)
  | _, _ => .ok none

/-- The test for an own member. A negative index of a string is none. -/
def hasMember (h : Heap) (obj key : Value) : Bool :=
  match obj, key with
  | .dict r, .string k => (h.dictGet? r k.chars).isSome
  | .array r, .integer i => (position? i (h.items r).size).isSome
  | .string s, .integer i => (position? i s.chars.utf8ByteSize).isSome
  | .instanceObject r, .string k => (h.instanceGet? r k.chars).isSome
  | .classObject r, .string k =>
    ((h.class? r).bind fun (c : ClassObject) => c.get? k.chars).isSome
  | _, _ => false

/-- The metamethod that the class of an instance defines; other values have none. -/
def metaOf? (h : Heap) (v : Value) (m : MetaMethod) : Option Value :=
  match v with
  | .instanceObject r => h.instanceMeta? r m
  | _ => none

/-- A metamethod that a class defines for itself and its instances. -/
def classMeta? (h : Heap) (r : Ref) (m : MetaMethod) : Option Value :=
  (h.class? r).bind fun (c : ClassObject) => c.meta? m

end Heap

end ScriptMachine
