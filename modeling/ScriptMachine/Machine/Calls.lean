import ScriptMachine.Machine.Members
import ScriptMachine.Machine.Frames

/-!
# Call instructions

The arguments of a call lie side by side on the stack, the receiver first. A
closure runs in a frame over them; any other value is called with copies.
-/

set_option autoImplicit false

namespace ScriptMachine.Exec

def windowError {α : Type} : Exec α := malformed "call arguments out of range"

/-- The values of `count` slots, lent. -/
def window (start count : Nat) : Exec (List Value) := do
  let s := (← get).stack
  if start + count ≤ s.size then return (s.extract start (start + count)).toList
  else windowError

/-- The slot that receives a result, unless it is not wanted. -/
def resultSlot (base : Nat) (r : Int64) : Exec (Option Nat) := do
  if isPresent r then
    let slot ← registerSlot base r
    if slot < (← stackSize) then return some slot else registerError r
  else return none

/-- Calls a value that is no script function, with copies of the arguments. -/
def callForeign (call : Caller) (base : Nat) (i : Instruction) (callee : Value)
    (start count : Nat) (target : Option Nat) : Exec Unit :=
  holding [callee] do
    let args ← window start count
    retainAll args
    let result ← call callee args
    match target with
    | some _ => setRegister base i.arg0 result
    | none => release result

def callInstruction (call : Caller) (base : Nat) (i : Instruction) : Exec Unit := do
  let callee ← register base i.arg1
  let start ← registerSlot base i.arg2
  let count ← indexArg i.arg3 "argument count"
  let target ← resultSlot base i.arg0
  match callee with
  | .closure c =>
    if start + count ≤ (← stackSize) then
      retain callee
      pushFrame c start count target false
    else windowError
  | other => callForeign call base i other start count target

/-- Writes values into the slots from one on; the references are taken over. -/
def placeSlots (start : Nat) : List Value → Exec Unit
  | [] => pure ()
  | v :: rest => do
    if ← writeSlot start v then placeSlots (start + 1) rest else throw .outsideStack

/-- Makes up for a failure of an action. -/
def restoring {α : Type} (act : Exec α) (undo : Machine → Machine) : Exec α := fun m =>
  match act m with
  | .ok a m => .ok a m
  | .error f m => .error f (undo m)

def pushBack (f : Frame) (m : Machine) : Machine := { m with frames := f :: m.frames }

/-- The current frame goes back to another height. -/
def setPrevTop (prevTop : Nat) : Exec Unit :=
  modify fun (m : Machine) =>
    match m.frames with
    | f :: rest => { m with frames := { f with prevTop } :: rest }
    | [] => m

/-- Takes the current frame off and puts a callee's arguments at its base. The
callee and the arguments are lent. -/
def vacate (old : Frame) (base : Nat) (c : Ref) (args : List Value) : Exec Unit := do
  retainAll (.closure c :: args)
  closeOuters base
  modify fun (m : Machine) => { m with frames := m.frames.tail }
  placeSlots base args
  truncate (max old.prevTop (base + args.length))

/-- Calls a closure in place of the current frame, which is back when the call
fails. Any other value is called as usual. -/
def tailCallInstruction (call : Caller) (base : Nat) (i : Instruction) : Exec Unit := do
  match ← register base i.arg1 with
  | .closure c =>
    let start ← registerSlot base i.arg2
    let count ← indexArg i.arg3 "argument count"
    let args ← window start count
    let old ← currentFrame
    vacate old base c args
    restoring (pushFrame c base count old.target old.root) (pushBack old)
    setPrevTop old.prevTop
    release (.closure old.closure)
  | _ => callInstruction call base i

end ScriptMachine.Exec
