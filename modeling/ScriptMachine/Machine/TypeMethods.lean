import ScriptMachine.Heap.Native

/-!
# Methods of the built-in types

The natives that values of a type have without being told. The receiver is the
first argument.
-/

set_option autoImplicit false

namespace ScriptMachine.TypeMethod

def receiver (args : List Value) : Value := args.headD .null

def argument (args : List Value) (i : Nat) : Value := (args[i]?).getD .null

/-- The size of a string in bytes, of an array or a dict in items. -/
def len : NativeFunction where
  name := "len"
  docs := "number of characters, items or entries"
  params := 1
  behaviour := fun (args : List Value) =>
    match receiver args with
    | .string t => .finish (.integer (Int64.ofNat t.chars.utf8ByteSize))
    | .array r | .dict r => .giving (.length r)
    | v => .fail (.typeError ("'" ++ v.typeName ++ "' has no length"))

def append : NativeFunction where
  name := "append"
  docs := "push a value and return the array"
  params := 2
  behaviour := fun (args : List Value) =>
    match receiver args with
    | .array r => .asking (.push r (argument args 1)) fun _ => .finish (.array r)
    | v => .fail (.typeError ("cannot append to '" ++ v.typeName ++ "'"))

def weakref : NativeFunction where
  name := "weakref"
  docs := "weak reference to the receiver"
  params := 1
  behaviour := fun (args : List Value) => .giving (.weaken (receiver args))

def ref : NativeFunction where
  name := "ref"
  docs := "referenced value, or null once it is gone"
  params := 1
  behaviour := fun (args : List Value) =>
    match receiver args with
    | .weak w => .giving (.target w)
    | v => .finish v

def readAttribute : NativeFunction where
  name := "attribute"
  docs := "read a native function attribute by name"
  params := 2
  behaviour := fun (args : List Value) =>
    match receiver args with
    | .native r =>
      let name := ((argument args 1).asString?).getD ""
      match NativeAttribute.ofName? name with
      | some a => .giving (.attribute r a)
      | none => .fail (.argument ("unknown attribute '" ++ name ++ "'"))
    | _ => .fail (.typeError "attributes exist only on native closures")

/-- Every method with the types that have it, in the order of installation. -/
def all : List (NativeFunction × List TypeTag) :=
  [(len, [.string, .array, .dict]),
   (append, [.array]),
   (weakref, TypeTag.all.filter TypeTag.hasDelegates),
   (ref, [.weakRef]),
   (readAttribute, [.native])]

end ScriptMachine.TypeMethod
