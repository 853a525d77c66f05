import ScriptMachine.Machine.Natives
import ScriptMachine.Machine.Step

/-!
# Running functions

Calls and the instruction loop call each other, down to a budget of steps. A
value that can be called is a closure, a native, a class, which makes an
instance, or an instance whose class defines `_call`.
-/

set_option autoImplicit false

namespace ScriptMachine.Exec

/-- Puts a receiver, which is lent, in place of the one that was passed. -/
def withReceiver (this : Value) (args : List Value) : Exec (List Value) := do
  retain this
  match args with
  | [] => return [this]
  | old :: rest =>
    release old
    return this :: rest

/-- Makes an instance and runs the constructor on it, when there is one. -/
def construct (call : Caller) (cls : Ref) (args : List Value) : Exec Value := do
  let r ← heap fun (h : Heap) => h.newInstance cls
  let this := Value.instanceObject r
  match ← readHeap fun (h : Heap) => (h.class? cls).bind ClassObject.constructor? with
  | none =>
    releaseAll args
    return this
  | some f =>
    handing this do
      holding [f] do
        release (← call f (← withReceiver this args))
    return this

def callInstance (call : Caller) (this : Value) (args : List Value) : Exec Value := do
  match ← readHeap fun (h : Heap) => h.metaOf? this .call with
  | none =>
    releaseAll args
    fail (.call "instance has no '_call' metamethod")
  | some m => holding [m] do call m (← withReceiver this args)

/-- Runs an action and cuts the stack back to a height when it fails. -/
def cuttingBack {α : Type} (height : Nat) (act : Exec α) : Exec α := fun m =>
  match act m with
  | .ok a m => .ok a m
  | .error f m =>
    match truncate height m with
    | .ok _ m => .error f m
    | .error f m => .error f m

/-- Enters a closure from outside the instruction loop. -/
def enter (c : Ref) (args : List Value) : Exec Unit := do
  let base ← stackSize
  pushValues args
  retain (.closure c)
  cuttingBack base (pushFrame c base args.length none true)

/-- Leaves the frames that an error ends. -/
def unwinding {α : Type} : Fault → Exec α
  | .script e => do fail (← unwind e)
  | f => throw f

/-- Calls a value with arguments that are taken over, given how to go on with a
function that was entered, how to run the routine of a native and how to call. -/
@[inline] def callWith (execute : Exec Value) (run : Routine → Exec Value) (call : Caller)
    (callee : Value) (args : List Value) : Exec Value :=
  match callee with
  | .closure c => do
    enter c args
    execute
  | .native n => callNative run n args
  | .classObject c => construct call c args
  | .instanceObject r => callInstance call (.instanceObject r) args
  | other => do
    releaseAll args
    fail (.call ("attempt to call '" ++ other.typeName ++ "'"))

/-- One instruction and what comes after it. -/
@[inline] def executeWith (call : Caller) (again : Exec Value) : Exec Value := fun m =>
  match step call m with
  | .ok .next m => again m
  | .ok (.finished v) m => .ok v m
  | .error f m => unwinding f m

mutual

/-- Calls a value with arguments that are taken over. -/
def callValue : Nat → Value → List Value → Exec Value
  | 0, _, _ => throw .outOfSteps
  | steps + 1, callee, args =>
    callWith (execute steps) (perform (callValue steps) []) (callValue steps) callee args

/-- Runs instructions until the frame entered from outside returns. -/
def execute : Nat → Exec Value
  | 0 => throw .outOfSteps
  | steps + 1 => executeWith (callValue steps) (execute steps)

end

/-! ## From the host -/

/-- More steps than any run can take. -/
def stepLimit : Nat := 1000000000000000000

def hostCaller : Caller := callValue stepLimit

/-- Calls a value; the arguments are lent. A failure is kept as the last error. -/
def call (callee : Value) (args : List Value) : Exec Value := callNoting hostCaller callee args

/-- A closure of a function that captures nothing. -/
def closureOf (p : Prototype) : Exec Value :=
  match p.outers with
  | [] => heap fun (h : Heap) =>
    let (c, h) := h.newClosure p [] []
    (.closure c, h)
  | c :: _ =>
    malformed ("top-level function '" ++ p.name ++ "' cannot capture '" ++ c.name ++ "'")

/-- Runs a function with the dict of globals as the receiver. -/
def run (p : Prototype) : Exec Value := do
  let f ← noting (closureOf p)
  owning [f] do
    holding [.dict (← get).root] do call f [.dict (← get).root]

end ScriptMachine.Exec
