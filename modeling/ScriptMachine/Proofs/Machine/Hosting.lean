import ScriptMachine.Proofs.Heap.Editing
import ScriptMachine.Proofs.Machine.Concert
import ScriptMachine.Proofs.Machine.Reachable
import ScriptMachine.Proofs.Machine.Traces

/-!
# What a host does to a machine

A host makes objects, calls values, reads and writes members, applies operators,
registers natives, changes objects directly and lets go of what it got, in any order. It
names values by when it got them. What it sees is the answer to each call, all that can be
reached from what it holds and from the globals, and what natives put out. Cells are
opened by the machine only.
-/

set_option autoImplicit false

namespace ScriptMachine

/-- A value as a host names it. -/
inductive Operand where
  /-- A value that needs no object. -/
  | plain (v : Value) (h : v.ref? = none)
  /-- What the host got as the first, the second and so on. -/
  | held (position : Nat)

def Operand.value (held : List Value) : Operand → Value
  | .plain v _ => v
  | .held i => (held[i]?).getD .null

/-- A way from an object to a value that it holds. -/
structure Way where
  find : Body → Option Value
  holds : ∀ b v, find b = some v → v ∈ b.values

/-- What a host may ask of a machine, apart from what concerns lifetimes. The operands are
given separately; where one is missing, null is meant. -/
inductive HostOp where
  | run (p : Prototype)
  | closureOf (p : Prototype)
  /-- The first operand is called with the others. -/
  | call
  | get
  | set
  | newSlot
  | newMember (isStatic : Bool)
  | delete
  | has
  | arith (op : ArithOp)
  | negate
  | compare
  | typeOf
  | instanceOf
  /-- Whether the first operand is the second, or a class derived from it. -/
  | subclass
  | text
  | deepEqual
  /-- What there is to tell of the object that the first operand names. -/
  | inspect (look : Body → String)
  | root
  | global (name : String)
  | setGlobal (name : String)
  | delegate (tag : TypeTag) (name : String)
  /-- Registers a native, as a method of a type or as a global. The operands are its default
  values, at the given positions. -/
  | register (tag : Option TypeTag) (f : NativeFunction) (frank : Frank f.behaviour)
    (positions : List Nat)
  | native (f : NativeFunction) (frank : Frank f.behaviour) (positions : List Nat)
  | string (chars : String)
  /-- A new array of the operands. -/
  | array
  | dict
  /-- A new class with the first operand as its base, if that is one. -/
  | classObject (constructor : String)
  | instanceObject
  /-- A closed cell with the first operand in it. -/
  | cell
  /-- A closure over the cells among the first operands, with the others as default values. -/
  | closure (p : Prototype) (cells : Nat)
  | copy
  | lock
  /-- Stores the second operand in the first. -/
  | store (place : Place)
  | takeOut (portion : Portion)
  /-- A value that the first operand holds. -/
  | follow (way : Way)
  | interrupt

/-- What a host is told. -/
inductive Answer where
  | done
  | value (v : Value)
  | absent
  | truth (b : Bool)
  | order (o : Ordering)
  | text (s : String)
  | refused (e : BuildError)
  | rejected (e : SlotError)

namespace Answer

/-- The value that an answer hands over. -/
def gives : Answer → List Value
  | .value v => [v]
  | _ => []

/-- Whether a value could be stored. -/
def stored : Except SlotError Bool → Answer
  | .ok found => .truth found
  | .error e => .rejected e

/-- Whether a native could be registered. -/
def registered : Except BuildError Unit → Answer
  | .ok _ => .done
  | .error e => .refused e

/-- What was taken out. -/
def taken : Except SlotError (Option Value) → Answer
  | .ok (some v) => .value v
  | .ok none => .absent
  | .error e => .rejected e

end Answer

namespace Exec

/-- Shares in a value that may be there. -/
def offering : Option Value → Exec Answer
  | none => return .absent
  | some v => do return .value (← sharing v)

end Exec

namespace HostOp

open Exec

/-- The operand at a position. -/
def operand (vs : List Value) (i : Nat) : Value := (vs[i]?).getD .null

/-- The native with default values. -/
def withDefaults (f : NativeFunction) (positions : List Nat) (vs : List Value) : NativeFunction :=
  { f with defaults := positions.zip vs }

/-- The cell that a value is. -/
def cell? : Value → Option Ref
  | .outer r => some r
  | _ => none

/-- The class that a value is. -/
def class? : Value → Option Ref
  | .classObject r => some r
  | _ => none

/-- How the machine answers, given how it calls. Operands are lent. -/
def act (call : Caller) (vs : List Value) : HostOp → Exec Answer
  | .run p => do return .value (← runWith p call)
  | .closureOf p => do return .value (← Exec.closureOf p)
  | .call => do return .value (← callNoting call (operand vs 0) (vs.drop 1))
  | .get => do return .value (← getMember call (operand vs 0) (operand vs 1))
  | .set => do
    retain (operand vs 2)
    setMember call (operand vs 0) (operand vs 1) (operand vs 2)
    return .done
  | .newSlot => do
    retain (operand vs 2)
    Exec.newSlot call (operand vs 0) (operand vs 1) (operand vs 2)
    return .done
  | .newMember isStatic => do
    match class? (operand vs 0) with
    | none => return .absent
    | some cls =>
      retainAll [operand vs 2, operand vs 3]
      newClassMember call cls (operand vs 1) (operand vs 2) (operand vs 3) isStatic
      return .done
  | .delete => do return .value (← deleteSlot call (operand vs 0) (operand vs 1))
  | .has => do return .truth (← hasMember (operand vs 0) (operand vs 1))
  | .arith op => do return .value (← arithOp call op (operand vs 0) (operand vs 1))
  | .negate => do return .value (← negateOp call (operand vs 0))
  | .compare => do return .order (← compareOp call (operand vs 0) (operand vs 1))
  | .typeOf => do return .value (← Exec.typeOf call (operand vs 0))
  | .instanceOf => do return .truth (← Exec.instanceOf (operand vs 0) (operand vs 1))
  | .subclass => do
    match class? (operand vs 0), class? (operand vs 1) with
    | some cls, some other =>
      return .truth (← readHeap fun (h : Heap) => h.isSubclass cls other)
    | _, _ => return .absent
  | .text => do return .text (← displayText call (operand vs 0))
  | .deepEqual => do
    return .truth (← readHeap fun (h : Heap) => h.deepEqual (operand vs 0) (operand vs 1))
  | .inspect look => do
    let body ← readHeap fun (h : Heap) => (operand vs 0).ref?.bind h.body?
    return body.elim .absent (.text <| look ·)
  | .root => do return .value (← sharing (.dict (← MonadState.get).root))
  | .global name => do offering (← global? name)
  | .setGlobal name => do
    retain (operand vs 0)
    Exec.setGlobal name (operand vs 0)
    return .done
  | .delegate tag name => do offering (← delegate? tag name)
  | .register tag f _ positions => do
    let f := withDefaults f positions vs
    return .registered (← tag.elim (registerGlobal f) (registerMethod · f))
  | .native f _ positions => do
    return .value (.native (← heap fun (h : Heap) => h.newNative (withDefaults f positions vs)))
  | .string chars => do return .value (← newString chars)
  | .array => do
    retainAll vs
    return .value (← heap fun (h : Heap) => h.newArray vs.toArray)
  | .dict => do return .value (.dict (← heap Heap.newDict))
  | .classObject constructor => do
    return .value (.classObject
      (← heap fun (h : Heap) => h.newClass (class? (operand vs 0)) constructor))
  | .instanceObject => do
    match class? (operand vs 0) with
    | none => return .absent
    | some cls => return .value (.instanceObject (← heap fun (h : Heap) => h.newInstance cls))
  | .cell => do
    retain (operand vs 0)
    return .value (.outer (← heap fun (h : Heap) => h.newOuter (.closed (operand vs 0))))
  | .closure p cells => do
    let outers := (vs.take cells).filterMap cell?
    let defaults := vs.drop cells
    retainAll (outers.map .outer ++ defaults)
    return .value (.closure (← heap fun (h : Heap) => h.newClosure p outers defaults))
  | .copy => do return .value (← heap fun (h : Heap) => h.deepCopy (operand vs 0))
  | .lock => do
    match class? (operand vs 0) with
    | none => return .absent
    | some cls =>
      updateHeap fun (h : Heap) => h.lock cls
      return .done
  | .store place => do
    retain (operand vs 1)
    return .stored (← heap fun (h : Heap) => h.store (operand vs 0) (operand vs 1) place)
  | .takeOut portion => do
    return .taken (← heap fun (h : Heap) => h.takeOut (operand vs 0) portion)
  | .follow way => do
    offering (← readHeap fun (h : Heap) =>
      ((operand vs 0).ref?.bind h.body?).bind way.find)
  | .interrupt => do
    modify fun (m : Machine) => { m with interrupted := true }
    return .done

end HostOp

/-! ## Sequences of calls -/

/-- A host call: an operation, or the end of the host's interest in a value. -/
inductive HostCall where
  | op (op : HostOp) (operands : List Operand)
  | drop (position : Nat)

/-- A machine with what its host got from it, in order; null stands for what was dropped. -/
structure Hosting where
  machine : Machine
  held : List Value := []

/-- What a host can see of a machine. -/
structure Outlook where
  globals : View
  held : List View
  output : Array String
  lastError : Option ScriptError
  /-- The numbers of active frames and of slots. -/
  depth : Nat × Nat

/-- What a host sees of a call. -/
inductive Sight where
  | answered (a : Answer) (outlook : Outlook)
  | failed (e : ScriptError) (outlook : Outlook)
  /-- The machine has stopped for a reason that no script can see. -/
  | stopped (f : Fault)

namespace Hosting

def start (config : MachineConfig) : Hosting := { machine := .create config }

def outlook (s : Hosting) : Outlook where
  globals := s.machine.heap.view (.dict s.machine.root)
  held := s.held.map s.machine.heap.view
  output := s.machine.output
  lastError := s.machine.lastError
  depth := (s.machine.frames.length, s.machine.stack.size)

def act (call : Caller) (s : Hosting) : HostCall → EStateM.Result Fault Machine Answer
  | .op op operands => op.act call (operands.map (·.value s.held)) s.machine
  | .drop i => (do
      Exec.release ((Operand.held i).value s.held)
      return .done : Exec Answer) s.machine

/-- The host has got an answer. -/
def answered (s : Hosting) (q : HostCall) (a : Answer) (m : Machine) : Hosting where
  machine := m
  held := match q with
    | .op _ _ => s.held ++ a.gives
    | .drop i => s.held.set i .null

/-- What the host sees of one call after the other, up to one that stops the machine. -/
def sights (s : Hosting) : List HostCall → List Sight
  | [] => []
  | q :: rest =>
    match s.act Exec.hostCaller q with
    | .ok a m => .answered a (s.answered q a m).outlook :: (s.answered q a m).sights rest
    | .error (.script e) m =>
      .failed e { s with machine := m }.outlook :: { s with machine := m }.sights rest
    | .error f _ => [.stopped f]

/-- No native asks for anything that concerns lifetimes: in none of the calls does an alarm
that such a request sets off make a difference. -/
def Timeless (s : Hosting) : List HostCall → Prop
  | [] => True
  | q :: rest =>
    (∀ alarm : Exec Value,
      s.act (Exec.callAlarmed alarm Exec.stepLimit) q = s.act Exec.hostCaller q) ∧
    match s.act Exec.hostCaller q with
    | .ok a m => (s.answered q a m).Timeless rest
    | .error (.script _) m => { s with machine := m }.Timeless rest
    | .error _ _ => True

end Hosting

end ScriptMachine
