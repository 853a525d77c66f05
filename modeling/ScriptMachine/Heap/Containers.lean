import ScriptMachine.Heap.Store

/-!
# Arrays, dicts and cells

Operations on the plain containers. An index outside an array is an error that
names the index and the length.
-/

set_option autoImplicit false

namespace ScriptMachine.Heap

/-! ## Arrays -/

def newArray (h : Heap) (items : Array Value) : Value × Heap :=
  let (r, h) := h.allocateLinked (.array items)
  (.array r, h)

def items (h : Heap) (r : Ref) : Array Value :=
  match h.body? r with
  | some (.array xs) => xs
  | _ => #[]

/-- A position in an array of the given length. -/
def position? (index : Int64) (length : Nat) : Option Nat :=
  if 0 ≤ index ∧ index.toInt.toNat < length then some index.toInt.toNat else none

def itemAt (h : Heap) (r : Ref) (index : Int64) : Except SlotError Value :=
  let xs := h.items r
  match (position? index xs.size).bind fun (i : Nat) => xs[i]? with
  | some v => .ok v
  | none => .error (.outOfRange index xs.size)

def modifyItems (h : Heap) (r : Ref) (f : Array Value → Array Value) : Heap :=
  h.modifyBody r fun (b : Body) =>
    match b with
    | .array xs => .array (f xs)
    | b => b

/-- Overwrites an item; the reference is taken over, or let go. -/
def setItem (h : Heap) (r : Ref) (index : Int64) (v : Value) : Except SlotError Unit × Heap :=
  match h.itemAt r index with
  | .ok old =>
    (.ok (), (h.modifyItems r fun (xs : Array Value) =>
      xs.setIfInBounds index.toInt.toNat v).release old)
  | .error e => (.error e, h.release v)

def pushItem (h : Heap) (r : Ref) (v : Value) : Heap :=
  h.modifyItems r fun (xs : Array Value) => xs.push v

/-- Takes the last item with its reference. -/
def popItem (h : Heap) (r : Ref) : Option Value × Heap :=
  ((h.items r).back?, h.modifyItems r Array.pop)

/-- Takes an item with its reference; later items move down. -/
def removeItem (h : Heap) (r : Ref) (index : Int64) : Except SlotError Value × Heap :=
  match h.itemAt r index with
  | .ok v =>
    (.ok v, h.modifyItems r fun (xs : Array Value) => xs.eraseIdxIfInBounds index.toInt.toNat)
  | .error e => (.error e, h)

/-- Lets go of all items. -/
def clearItems (h : Heap) (r : Ref) : Heap :=
  (h.setBody r (.array #[])).releaseAll (h.items r).toList

/-! ## Dicts -/

def newDict (h : Heap) : Ref × Heap := h.allocateLinked (.dict .empty)

def entries (h : Heap) (r : Ref) : Entries :=
  match h.body? r with
  | some (.dict es) => es
  | _ => .empty

def dictGet? (h : Heap) (r : Ref) (key : String) : Option Value := (h.entries r).find? key

/-- Overwrites the value of a key that is there. The reference is taken over, or
let go when the key is missing. -/
def dictSet (h : Heap) (r : Ref) (key : String) (v : Value) : Bool × Heap :=
  let es := h.entries r
  match es.find? key, es.key? key with
  | some old, some k => (true, (h.setBody r (.dict (es.insert k v))).release old)
  | _, _ => (false, h.release v)

/-- Enters a key or overwrites its value; both references are taken over. A key
object that is there already stays. -/
def dictInsert (h : Heap) (r : Ref) (key : Text) (v : Value) : Heap :=
  let es := h.entries r
  let h := h.setBody r (.dict (es.insert key v))
  match es.find? key.chars with
  | some old => (h.releaseRef key.ref).release old
  | none => h

/-- Takes a value with its reference. -/
def dictRemove (h : Heap) (r : Ref) (key : String) : Option Value × Heap :=
  let es := h.entries r
  match es.find? key, es.key? key with
  | some v, some k => (some v, (h.setBody r (.dict (es.erase key))).releaseRef k.ref)
  | _, _ => (none, h)

/-- Enters a value under a key that is given by its characters. -/
def dictInsertChars (h : Heap) (r : Ref) (key : String) (v : Value) : Heap :=
  let (t, h) := h.allocateText key
  h.dictInsert r t v

/-! ## Cells of captured variables -/

def newOuter (h : Heap) (s : OuterState) : Ref × Heap := h.allocateLinked (.outer s)

def outerState? (h : Heap) (r : Ref) : Option OuterState :=
  match h.body? r with
  | some (.outer s) => some s
  | _ => none

/-- The slot of a captured variable that is still on the stack. -/
def stackIndex? (h : Heap) (r : Ref) : Option Nat :=
  match h.outerState? r with
  | some (.opened i) => some i
  | _ => none

/-- Gives a cell a value of its own; the reference is taken over. -/
def closeOuter (h : Heap) (r : Ref) (v : Value) : Heap :=
  let old := match h.outerState? r with
    | some (.closed w) => w
    | _ => .null
  (h.setBody r (.outer (.closed v))).release old

/-- Overwrites the value of a closed cell; an open one refuses, and the reference
is let go. -/
def setClosed (h : Heap) (r : Ref) (v : Value) : Bool × Heap :=
  match h.outerState? r with
  | some (.closed _) => (true, h.closeOuter r v)
  | _ => (false, h.release v)

end ScriptMachine.Heap
