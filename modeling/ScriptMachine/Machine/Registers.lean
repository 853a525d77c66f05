import ScriptMachine.Machine.OpenOuters
import ScriptMachine.Machine.State

/-!
# The stack and the registers

Reading a register lends its value; writing takes over a reference and lets go
of the old value.
-/

set_option autoImplicit false

namespace ScriptMachine.Exec

/-! ## Stack slots -/

/-- Runs an operation of the stack, which leaves the machine meanwhile so that it
is changed in place. -/
@[inline] def stack {α : Type} (f : Array Value → α × Array Value) : Exec α :=
  modifyGet fun (m : Machine) =>
    let s := m.stack
    let m := { m with stack := #[] }
    let (a, s) := f s
    (a, { m with stack := s })

def stackSize : Exec Nat := return (← get).stack.size

def slot? (i : Nat) : Exec (Option Value) := return (← get).stack[i]?

/-- Overwrites a slot; the answer is false, and nothing is taken over, when there
is no such slot. -/
def writeSlot (i : Nat) (v : Value) : Exec Bool := do
  match ← slot? i with
  | none => return false
  | some old =>
    stack fun (s : Array Value) => ((), s.setIfInBounds i v)
    release old
    return true

/-- Takes the value of a slot and leaves null. -/
def takeSlot (i : Nat) : Exec (Option Value) := do
  match ← slot? i with
  | none => return none
  | some v =>
    stack fun (s : Array Value) => ((), s.setIfInBounds i .null)
    return some v

/-- Cuts the stack; the values that go are let go from the lowest up. -/
def truncate (n : Nat) : Exec Unit := do
  let gone ← stack fun (s : Array Value) =>
    if n < s.size then ((s.extract n s.size).toList, s.shrink n) else ([], s)
  releaseAll gone

def pushNulls (s : Array Value) : Nat → Array Value
  | 0 => s
  | n + 1 => pushNulls (s.push .null) n

/-- Grows the stack with nulls up to a height. -/
def growTo (top : Nat) : Exec Unit :=
  stack fun (s : Array Value) => ((), pushNulls s (top - s.size))

def pushValues (vs : List Value) : Exec Unit :=
  stack fun (s : Array Value) => ((), vs.foldl Array.push s)

/-- Overwrites `count` slots with null, from the lowest up. -/
def nullSlots (start : Nat) : Nat → Exec Unit
  | 0 => pure ()
  | count + 1 => do
    let _ ← writeSlot start .null
    nullSlots (start + 1) count

/-! ## Registers -/

/-- A position that an argument names. -/
def indexArg (arg : Int64) (what : String) : Exec Nat :=
  if arg < 0 then malformed ("invalid " ++ what ++ " " ++ Decimal.integer arg)
  else pure arg.toInt.toNat

def registerSlot (base : Nat) (register : Int64) : Exec Nat :=
  if register < 0 then malformed ("invalid register " ++ Decimal.integer register)
  else pure (base + register.toInt.toNat)

def registerError {α : Type} (register : Int64) : Exec α :=
  malformed ("register " ++ Decimal.integer register ++ " out of range")

/-- The value of a register, lent. -/
def register (base : Nat) (r : Int64) : Exec Value := do
  match ← slot? (← registerSlot base r) with
  | some v => return v
  | none => registerError r

/-- Runs an action that gives a value; when it fails, what was to be handed over
is let go. -/
@[inline] def handing {α : Type} (v : Value) (act : Exec α) : Exec α := fun m =>
  match act m with
  | .ok a m => .ok a m
  | .error e m =>
    match release v m with
    | .ok _ m => .error e m
    | .error e m => .error e m

/-- Writes a register; the reference is taken over, or let go on failure. -/
def setRegister (base : Nat) (r : Int64) (v : Value) : Exec Unit :=
  handing v do
    if ← writeSlot (← registerSlot base r) v then pure () else registerError r

/-- Writes a register unless it is absent; the reference is taken over. -/
def setOptional (base : Nat) (r : Int64) (v : Value) : Exec Unit :=
  if isPresent r then setRegister base r v else release v

/-! ## The current frame -/

def currentFrame : Exec Frame := do
  match (← get).frames with
  | f :: _ => return f
  | [] => malformed "no active call frame"

def setIp (ip : Nat) : Exec Unit :=
  modify fun (m : Machine) =>
    match m.frames with
    | f :: rest => { m with frames := { f with ip } :: rest }
    | [] => m

/-- Moves on by an offset from the next instruction. -/
def jump (offset : Int64) : Exec Unit := do
  let target := Int64.ofNat (← currentFrame).ip + offset
  if target < 0 then malformed "jump before function start" else setIp target.toInt.toNat

/-- The value of a literal; a new object for a string or a space. -/
def ofLiteral : Literal → Exec Value
  | .null => pure .null
  | .integer n => pure (.integer n)
  | .float x => pure (.float x)
  | .complex re im => pure (.complex ⟨re, im⟩)
  | .bool b => pure (.bool b)
  | .string s => heap fun (h : Heap) => h.newString s
  | .space s => heap fun (h : Heap) =>
    let (r, h) := h.allocate .content
    (.space r s, h)

/-- The literal at an index of the current function. -/
def literal (index : Int64) : Exec Value := do
  let f ← currentFrame
  match (if index < 0 then none else f.prototype.literals[index.toInt.toNat]?) with
  | some l => ofLiteral l
  | none => malformed ("literal " ++ Decimal.integer index ++ " out of range")

/-- Closes the captured slots from a height on. -/
def closeOuters (slot : Nat) : Exec Unit :=
  modify fun (m : Machine) =>
    if m.openOuters.isEmpty then m
    else
      let h := m.heap
      let cells := m.openOuters
      let m := { m with heap := {}, openOuters := #[] }
      let (_, cells, h) := OpenOuters.closeFrom h cells slot m.stack
      { m with heap := h, openOuters := cells }

/-- The cell of a slot; the caller gets a reference of its own. -/
def capture (slot : Nat) : Exec Ref :=
  modifyGet fun (m : Machine) =>
    let h := m.heap
    let cells := m.openOuters
    let m := { m with heap := {}, openOuters := #[] }
    let (c, cells, h) := OpenOuters.capture h cells slot
    (c, { m with heap := h, openOuters := cells })

def readOuter (cell : Ref) : Exec Value := do
  let m ← get
  return OpenOuters.read m.heap cell m.stack

/-- Writes a captured variable; the reference is taken over. -/
def writeOuter (cell : Ref) (v : Value) : Exec Unit :=
  modify fun (m : Machine) =>
    let h := m.heap
    let s := m.stack
    let m := { m with heap := {}, stack := #[] }
    let (s, h) := OpenOuters.write h cell s v
    { m with heap := h, stack := s }

end ScriptMachine.Exec
