import ScriptMachine.Heap.Collector
import ScriptMachine.Operators

/-!
# The state of the machine

A stack of values that all activations share, the frames of the active script
functions, the cells of captured slots, and the heap. A frame sees the stack
from its base on; what lies below belongs to its callers.
-/

set_option autoImplicit false

namespace ScriptMachine

structure MachineConfig where
  maxCallDepth : Nat := 1024
  /-- Room reserved for the stack; it grows on demand. -/
  initialStack : Nat := 1024
  constructorName : String := "init"
  collect : CollectConfig := {}

/-- The text in diagnostics. -/
def MachineConfig.detailed (c : MachineConfig) : String :=
  "VmConfig \x7b max_call_depth: " ++ Decimal.digitText c.maxCallDepth ++
    ", initial_stack: " ++ Decimal.digitText c.initialStack ++
    ", constructor_name: " ++ Quoting.detailed c.constructorName ++
    ", gc: " ++ c.collect.detailed ++ " \x7d"

/-- An active script function. -/
structure Frame where
  closure : Ref
  prototype : Prototype
  /-- The instruction to execute next. -/
  ip : Nat := 0
  /-- The stack slot of register 0. -/
  base : Nat
  /-- The height of the stack to go back to. -/
  prevTop : Nat
  /-- The stack slot that receives the returned value. -/
  target : Option Nat
  /-- The frame was entered from outside the instruction loop. -/
  root : Bool

namespace Frame

/-- The instruction that was fetched last. -/
def currentInstruction (f : Frame) : Nat := f.ip - 1

def traceEntry (f : Frame) : TraceEntry where
  function := f.prototype.name
  source := f.prototype.source
  line := f.prototype.lineFor f.currentInstruction
  instruction := f.currentInstruction

end Frame

structure Machine where
  config : MachineConfig := {}
  heap : Heap := {}
  stack : Array Value := #[]
  /-- The active frames, the innermost first. -/
  frames : List Frame := []
  /-- The cells of captured slots, by ascending slot. -/
  openOuters : Array Ref := #[]
  /-- The dict of global names. -/
  root : Ref := ⟨0⟩
  /-- A dict of native methods for each type, in the order of the tags. -/
  delegates : List Ref := []
  lastError : Option ScriptError := none
  interrupted : Bool := false
  /-- How many natives are running. -/
  nativeDepth : Nat := 0
  /-- Lines that natives have put out, the latest last. -/
  output : Array String := #[]

/-- Why an execution ends without a value: an error of the script, an access
outside the stack that nothing has checked, or the end of the step budget. -/
inductive Fault where
  | script (e : ScriptError)
  | outsideStack
  | outOfSteps

/-- An action of the machine; its effects stay when it fails. -/
abbrev Exec (α : Type) : Type := EStateM Fault Machine α

/-- How an action calls back into the machine. -/
abbrev Caller : Type := Value → List Value → Exec Value

namespace Exec

def fail {α : Type} (e : ScriptError) : Exec α := throw (.script e)

/-- An instruction that no compiler would produce. -/
def malformed {α : Type} (message : String) : Exec α := fail ⟨.compile, message, []⟩

def ofExcept {α : Type} : Except ScriptError α → Exec α
  | .ok a => pure a
  | .error e => fail e

def ofSlot {α : Type} : Except SlotError α → Exec α
  | .ok a => pure a
  | .error e => fail e.toScriptError

/-- Runs an operation of the heap, which leaves the machine meanwhile so that it is
changed in place. -/
@[inline] def heap {α : Type} (f : Heap → α × Heap) : Exec α :=
  modifyGet fun (m : Machine) =>
    let h := m.heap
    let m := { m with heap := {} }
    let (a, h) := f h
    (a, { m with heap := h })

@[inline] def updateHeap (f : Heap → Heap) : Exec Unit :=
  heap fun (h : Heap) => ((), f h)

@[inline] def readHeap {α : Type} (f : Heap → α) : Exec α := return f (← get).heap

/-- Runs an operation of the heap that refuses with a slot error. -/
def slotHeap {α : Type} (f : Heap → Except SlotError α × Heap) : Exec α := do
  ofSlot (← heap f)

def retain (v : Value) : Exec Unit :=
  match v.ref? with
  | none => pure ()
  | some r => updateHeap fun (h : Heap) => h.retainRef r

def release (v : Value) : Exec Unit :=
  match v.ref? with
  | none => pure ()
  | some r => updateHeap fun (h : Heap) => h.releaseRef r

def retainAll : List Value → Exec Unit
  | [] => pure ()
  | v :: rest => do
    retain v
    retainAll rest

def releaseAll : List Value → Exec Unit
  | [] => pure ()
  | v :: rest => do
    release v
    releaseAll rest

/-- Runs an action that owns values and lets them go when it ends, the last one
first, also when it fails. -/
@[inline] def owning {α : Type} (vs : List Value) (act : Exec α) : Exec α := fun m =>
  match act m with
  | .ok a m =>
    match releaseAll vs.reverse m with
    | .ok _ m => .ok a m
    | .error e m => .error e m
  | .error e m =>
    match releaseAll vs.reverse m with
    | .ok _ m => .error e m
    | .error e m => .error e m

/-- Runs an action that shares in values for its duration. -/
@[inline] def holding {α : Type} (vs : List Value) (act : Exec α) : Exec α := do
  retainAll vs
  owning vs act

end Exec

end ScriptMachine
