import ScriptMachine.Heap.Store

/-!
# Natives

A native is described by its name, how many arguments it takes, which types it
accepts, and default values for what is missing.
-/

set_option autoImplicit false

namespace ScriptMachine

/-! ## Type masks -/

namespace TypeMask

/-- The mask that accepts every type. -/
def any : Nat := 0x00FFFFFF

/-- The types that a letter of a mask stands for. -/
def bits? : Char → Option Nat
  | '.' => some any
  | 'e' => some TypeTag.null.base
  | 'i' => some TypeTag.integer.base
  | 'f' => some TypeTag.float.base
  | 'C' => some TypeTag.complex.base
  | 'b' => some TypeTag.bool.base
  | 'n' => some (TypeTag.integer.base ||| TypeTag.float.base ||| TypeTag.complex.base)
  | 's' => some TypeTag.string.base
  | 'd' => some TypeTag.dict.base
  | 'a' => some TypeTag.array.base
  | 'c' => some (TypeTag.closure.base ||| TypeTag.native.base)
  | 'x' => some TypeTag.instanceObject.base
  | 'y' => some TypeTag.classObject.base
  | 'w' => some TypeTag.weakRef.base
  | _ => none

/-- Adds a letter's types to the last position or starts a new one. -/
def addBits (slots : List Nat) (join : Bool) (bits : Nat) : List Nat :=
  match slots with
  | last :: rest => if join then (last ||| bits) :: rest else bits :: slots
  | [] => [bits]

/-- Reads letters into positions, the last first; `join` is set after a bar. The
error is the letter that does not fit. -/
def scan (slots : List Nat) (join : Bool) : List Char → Except Char (List Nat)
  | [] => if join then .error '|' else .ok slots.reverse
  | c :: rest =>
    if c = '|' then
      if join || slots.isEmpty then .error c else scan slots true rest
    else
      match bits? c with
      | none => .error c
      | some bits => scan (addBits slots join bits) false rest

/-- A mask has one or more letters for each position, with bars between the
letters of one position. -/
def parse (mask : String) : Except BuildError (List Nat) :=
  match scan [] false mask.toList with
  | .ok slots => .ok slots
  | .error found => .error (.invalidTypeMask mask found)

/-- The names of the accepted types. -/
def names (mask : Nat) : String :=
  if mask = any then "any"
  else
    String.intercalate "|"
      ((TypeTag.all.filter fun (t : TypeTag) => mask &&& t.base != 0).map TypeTag.name)

end TypeMask

/-! ## Descriptions -/

/-- A native before it is an object of a heap. -/
structure NativeFunction where
  name : String
  behaviour : List Value → Routine
  params : Int64 := 0
  mask : List Nat := []
  /-- Default values by position, in ascending order. -/
  defaults : List (Nat × Value) := []
  docs : String := ""

/-- Enters a default value at its position, over one that is there. -/
def insertDefault (position : Nat) (v : Value) : List (Nat × Value) → List (Nat × Value)
  | [] => [(position, v)]
  | (p, w) :: rest =>
    if position = p then (p, v) :: rest
    else if position < p then (position, v) :: (p, w) :: rest
    else (p, w) :: insertDefault position v rest

namespace NativeObject

/-- The number of declared parameters, the receiver included. -/
def declared (n : NativeObject) : Nat := n.params.toInt.natAbs

/-- The declared parameters less the run of defaults at their end. -/
def minArgs (n : NativeObject) : Nat :=
  go n.declared
where
  go : Nat → Nat
    | 0 => 0
    | k + 1 => if (n.defaults.lookup k).isSome then go k else k + 1

/-- Defaults for missing parameters, up to the first without one. -/
def fill (n : NativeObject) : Nat → List Value → List Value
  | 0, args => args
  | missing + 1, args =>
    match n.defaults.lookup args.length with
    | some v => fill n missing (args ++ [v])
    | none => args

def filled (n : NativeObject) (args : List Value) : List Value :=
  if n.params = 0 then args else n.fill (n.declared - args.length) args

def countAccepted (n : NativeObject) (count : Nat) : Bool :=
  if n.params = 0 then true
  else if 0 < n.params then count == n.declared
  else decide (n.declared ≤ count)

def countError (n : NativeObject) (count : Nat) : ScriptError :=
  .argument ("'" ++ n.name.chars ++ "' expects " ++ (if n.params < 0 then "at least " else "") ++
    Decimal.digitText (n.declared - 1) ++ " arguments, got " ++ Decimal.digitText (count - 1))

def maskError (n : NativeObject) (position : Nat) (mask : Nat) (v : Value) : ScriptError :=
  .argument ("parameter " ++ Decimal.digitText position ++ " of '" ++ n.name.chars ++
    "' has invalid type '" ++ v.typeName ++ "'; expected '" ++ TypeMask.names mask ++ "'")

/-- Checks arguments against the mask, position by position. -/
def checkMask (n : NativeObject) : Nat → List Nat → List Value → Except ScriptError Unit
  | position, mask :: masks, v :: vs =>
    if mask &&& v.tag.base = 0 then .error (n.maskError position mask v)
    else checkMask n (position + 1) masks vs
  | _, _, _ => .ok ()

/-- The arguments that the native gets, defaults filled in, or why they do not
fit. -/
def prepare (n : NativeObject) (args : List Value) : Except ScriptError (List Value) :=
  let args := n.filled args
  if n.countAccepted args.length then
    match n.checkMask 0 n.mask args with
    | .ok () => .ok args
    | .error e => .error e
  else .error (n.countError args.length)

end NativeObject

namespace Heap

def native? (h : Heap) (r : Ref) : Option NativeObject :=
  match h.body? r with
  | some (.native n) => some n
  | _ => none

/-- A native as an object; the default values are shared with the description. -/
def newNative (h : Heap) (f : NativeFunction) : Ref × Heap :=
  let (name, h) := h.allocateText f.name
  let (docs, h) := h.allocateText f.docs
  let h := h.retainAll (f.defaults.map (·.2))
  h.allocateLinked (.native
    { name, docs, behaviour := f.behaviour, params := f.params, mask := f.mask,
      defaults := f.defaults })

/-- An attribute of a native. The caller gets a reference of its own. -/
def nativeAttribute (h : Heap) (n : NativeObject) : NativeAttribute → Value × Heap
  | .name => (.string n.name, h.retainRef n.name.ref)
  | .docs => (.string n.docs, h.retainRef n.docs.ref)
  | .paramCount => (.integer n.params, h)
  | .minArgs => (.integer (Int64.ofNat n.minArgs), h)
  | .defaultCount => (.integer (Int64.ofNat n.defaults.length), h)
  | .typeMask => h.newString (String.intercalate ", " (n.mask.map TypeMask.names))

end Heap

end ScriptMachine
