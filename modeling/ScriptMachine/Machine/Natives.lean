import ScriptMachine.Machine.Frames
import ScriptMachine.Machine.Members

/-!
# Calling natives

A native runs as a routine whose requests the machine answers. What the answers
name is kept alive until the routine ends.
-/

set_option autoImplicit false

namespace ScriptMachine.Exec

/-! ## Errors on the way -/

/-- Runs an action and gives its error as a value. -/
def attempt {α : Type} (act : Exec α) : Exec (Except ScriptError α) := fun m =>
  match act m with
  | .ok a m => .ok (.ok a) m
  | .error (.script e) m => .ok (.error e) m
  | .error f m => .error f m

/-- Notes an activation in an error that leaves it. -/
def tracing {α : Type} (entry : TraceEntry) (act : Exec α) : Exec α := fun m =>
  match act m with
  | .ok a m => .ok a m
  | .error (.script e) m => .error (.script (e.leave entry)) m
  | .error f m => .error f m

/-- Keeps an error as the last one. -/
def noting {α : Type} (act : Exec α) : Exec α := fun m =>
  match act m with
  | .ok a m => .ok a m
  | .error (.script e) m => .error (.script e) { m with lastError := some e }
  | .error f m => .error f m

/-- A call from outside the instruction loop, with arguments that are lent. No
arguments stand for a null receiver. -/
def callNoting (call : Caller) (callee : Value) (args : List Value) : Exec Value := do
  let args := if args.isEmpty then [.null] else args
  retainAll args
  noting (call callee args)

/-! ## Answering requests -/

def lengthOf (h : Heap) (r : Ref) : Nat :=
  match h.body? r with
  | some (.array xs) => xs.size
  | some (.dict es) => es.size
  | _ => 0

/-- The answer to a request; the routine gets a reference of its own. -/
def answer (call : Caller) : Request → Exec Value
  | .call f args => callNoting call f args
  | .newArray items => do
    retainAll items
    heap fun (h : Heap) => h.newArray items.toArray
  | .newString s => newString s
  | .push r v => do
    retain v
    updateHeap fun (h : Heap) => h.pushItem r v
    return .null
  | .weaken v => heap fun (h : Heap) => h.weaken v
  | .target w => do sharing (← readHeap fun (h : Heap) => h.target w)
  | .length r => return .integer (Int64.ofNat (← readHeap fun (h : Heap) => lengthOf h r))
  | .attribute r a => heap fun (h : Heap) =>
    match h.native? r with
    | some n => h.nativeAttribute n a
    | none => (.null, h)
  | .display v => do newString (← readHeap fun (h : Heap) => h.display v)
  | .deepEqual a b => return .bool (← readHeap fun (h : Heap) => h.deepEqual a b)
  | .root => do sharing (.dict (← get).root)
  | .live => return .integer (Int64.ofNat (← readHeap fun (h : Heap) => h.chain.stats.live))
  | .collect => return .integer (Int64.ofNat (← heap Heap.collect))
  | .interrupt => do
    modify fun (m : Machine) => { m with interrupted := true }
    return .null
  | .emit line => do
    modify fun (m : Machine) => { m with output := m.output.push line }
    return .null

/-- Runs a routine; the answers it got are let go at its end, the latest first. -/
def perform (call : Caller) (answers : List Value) : Routine → Exec Value
  | .finish v => do
    retain v
    releaseAll answers
    return v
  | .fail e => do
    releaseAll answers
    fail e
  | .ask r next => do
    match ← attempt (answer call r) with
    | .ok v => perform call (v :: answers) (next (.ok v))
    | .error e => perform call answers (next (.error e))

/-! ## The call -/

/-- Counts an activation of a native while an action runs. -/
def inNative {α : Type} (act : Exec α) : Exec α := fun m =>
  match act { m with nativeDepth := m.nativeDepth + 1 } with
  | .ok a m => .ok a { m with nativeDepth := m.nativeDepth - 1 }
  | .error f m => .error f { m with nativeDepth := m.nativeDepth - 1 }

def nativeEntry (n : NativeObject) : TraceEntry := ⟨n.name.chars, "native", 0, 0⟩

/-- Calls a native with arguments that are taken over, given how to run its routine.
Arguments that do not fit are its own failure; a call that is too deep never
reaches it. -/
def callNative (run : Routine → Exec Value) (r : Ref) (args : List Value) : Exec Value := do
  match ← readHeap fun (h : Heap) => h.native? r with
  | none =>
    releaseAll args
    malformed "no native"
  | some n =>
    let filled := n.filled args
    retainAll (filled.drop args.length)
    owning filled.reverse do
      checkDepth
      tracing (nativeEntry n) do
        let accepted ← ofExcept (n.prepare args)
        inNative (run (n.behaviour accepted))

end ScriptMachine.Exec
