import ScriptMachine.Machine.Registers

/-!
# Frames

Entering a script function binds its arguments in place; leaving it closes what
it captured and cuts the stack back.
-/

set_option autoImplicit false

namespace ScriptMachine

/-- How the machine goes on after an instruction. -/
inductive Flow where
  | next
  /-- The frame entered from outside has returned. -/
  | finished (v : Value)

namespace Exec

def depthError (limit : Nat) : ScriptError :=
  ⟨.stackOverflow, "call depth exceeded " ++ Decimal.digitText limit, []⟩

/-- Activations of scripts and natives count alike. -/
def checkDepth : Exec Unit := do
  let m ← get
  if m.config.maxCallDepth ≤ m.frames.length + m.nativeDepth then
    fail (depthError m.config.maxCallDepth)

/-- Collects when it is due. -/
def maybeCollect : Exec Unit := updateHeap Heap.maybeCollect

/-! ## Entering -/

def wrongArgumentCount (p : Prototype) (count : Nat) : ScriptError :=
  let expected := p.parameters.length - (if p.varargs then 2 else 1)
  .argument ("wrong number of parameters: '" ++ p.name ++ "' expects " ++
    (if p.varargs then "at least " else "") ++ Decimal.digitText expected ++ " and got " ++
    Decimal.digitText (count - 1))

/-- Takes the values of `count` slots, from the lowest up. -/
def takeSlots (start : Nat) : Nat → Exec (List Value)
  | 0 => pure []
  | count + 1 => do
    match ← takeSlot start with
    | none => throw .outsideStack
    | some v => return v :: (← takeSlots (start + 1) count)

/-- Packs the arguments from the last parameter on into an array. -/
def packArguments (p : Prototype) (base count : Nat) : Exec Nat := do
  let fixed := p.parameters.length - 1
  if count < fixed then fail (wrongArgumentCount p count)
  else
    let rest ← takeSlots (base + fixed) (count - fixed)
    let packed ← heap fun (h : Heap) => h.newArray rest.toArray
    if ← writeSlot (base + fixed) packed then return p.parameters.length else throw .outsideStack

/-- Writes shared values into the slots from one on. -/
def fillSlots (start : Nat) : List Value → Exec Unit
  | [] => pure ()
  | v :: rest => do
    retain v
    if ← writeSlot start v then fillSlots (start + 1) rest else throw .outsideStack

/-- Supplies missing arguments from the default values, which belong to the last
parameters. -/
def fillDefaults (p : Prototype) (defaults : List Value) (base count : Nat) : Exec Nat := do
  let wanted := p.parameters.length
  let missing := wanted - count
  if wanted < count ∨ defaults.length < missing then fail (wrongArgumentCount p count)
  else
    fillSlots (base + count) (defaults.drop (defaults.length - missing))
    return wanted

/-- The number of registers that hold arguments once they are bound. -/
def bindArguments (p : Prototype) (defaults : List Value) (base count : Nat) : Exec Nat :=
  if p.varargs then packArguments p base count
  else if count ≠ p.parameters.length then fillDefaults p defaults base count
  else pure count

/-- The height of the stack that a frame needs. -/
def frameTop (p : Prototype) (base count : Nat) : Nat :=
  base + max (max p.stackSize p.parameters.length) count

/-- The height to go back to when a frame is left. -/
def heightBelow (base : Nat) (root : Bool) : Exec Nat := if root then pure base else stackSize

/-- Enters a closure whose arguments lie on the stack from the base on. The
reference to the closure is taken over, or let go on failure. -/
def pushFrame (closure : Ref) (base count : Nat) (target : Option Nat) (root : Bool) :
    Exec Unit :=
  handing (.closure closure) do
    checkDepth
    maybeCollect
    match ← readHeap fun (h : Heap) => h.closure? closure with
    | none => malformed "no closure"
    | some c =>
      let p := c.prototype
      let prevTop ← heightBelow base root
      let top := frameTop p base count
      growTo top
      let bound ← bindArguments p c.defaults base count
      nullSlots (base + bound) (top - (base + bound))
      modify fun (m : Machine) =>
        { m with frames :=
            { closure, prototype := p, base, prevTop, target, root } :: m.frames }

/-! ## Leaving -/

/-- Takes a frame off: its captures are closed and the stack is cut back. The
reference to its closure is left to the caller. -/
def leaveFrame (f : Frame) (rest : List Frame) : Exec Unit := do
  modify fun (m : Machine) => { m with frames := rest }
  closeOuters f.base
  truncate f.prevTop

/-- Leaves frames up to the nearest one entered from outside and notes each. -/
def unwindFrames : List Frame → ScriptError → Exec ScriptError
  | [], e => pure e
  | f :: rest, e => do
    leaveFrame f rest
    release (.closure f.closure)
    let e := e.leave f.traceEntry
    if f.root then pure e else unwindFrames rest e

def unwind (e : ScriptError) : Exec ScriptError := do unwindFrames (← get).frames e

/-- Leaves the current frame with a value, whose reference is taken over. -/
def returnFromFrame (v : Value) : Exec Flow := do
  match (← get).frames with
  | [] =>
    release v
    malformed "return without a call frame"
  | f :: rest =>
    leaveFrame f rest
    if f.root then
      release (.closure f.closure)
      return .finished v
    else
      match f.target with
      | none =>
        release (.closure f.closure)
        release v
        return .next
      | some t =>
        if ← writeSlot t v then
          release (.closure f.closure)
          return .next
        else
          release (.closure f.closure)
          release v
          malformed "return target out of range"

end Exec

end ScriptMachine
