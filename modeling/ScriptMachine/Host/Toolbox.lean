import ScriptMachine.Host.Session
import ScriptMachine.Quoting.Addresses

/-!
# Natives for scripts

Natives that a host may offer to scripts: to call and to catch errors, to raise
them, to stop, and to look at the heap. None checks its arguments; the receiver
is the first of them.
-/

set_option autoImplicit false

namespace ScriptMachine

namespace ErrorKind

def all : List ErrorKind :=
  [type, argument, member, arithmetic, locked, call, stackOverflow, interrupted, compile]

/-- The name by which scripts refer to the kind. -/
def label : ErrorKind → String
  | type => "Type"
  | argument => "Argument"
  | member => "Member"
  | arithmetic => "Arithmetic"
  | locked => "Locked"
  | call => "Call"
  | stackOverflow => "StackOverflow"
  | interrupted => "Interrupted"
  | compile => "Compile"

def ofLabel? (s : String) : Option ErrorKind := all.find? (·.label == s)

end ErrorKind

namespace Toolbox

open TypeMethod (argument)

/-- The call of the first argument on the others, with a null receiver. -/
def callOfRest (args : List Value) : Request := .call (argument args 1) (.null :: args.drop 2)

/-- What a caught error comes to: false, its text and the number of activations
it left. -/
def caught (e : ScriptError) : Routine :=
  .asking (.newString (Quoting.hideAddresses e.display)) fun (text : Value) =>
    .giving (.newArray [.bool false, text, .integer (Int64.ofNat e.trace.length)])

def protectedCall (args : List Value) : Routine :=
  .ask (callOfRest args) fun
    | .ok v => .giving (.newArray [.bool true, v])
    | .error e => caught e

def log (args : List Value) : Routine :=
  .displayAll (args.drop 1) [] fun (texts : List String) =>
    .asking (.emit (String.intercalate " " texts)) fun _ => .finish (argument args 1)

/-- Raises an error of a kind that is given by its label, or a call error. -/
def raise (args : List Value) : Routine :=
  let kind := ((argument args 1).asString?.bind ErrorKind.ofLabel?).getD .call
  .asking (.display (argument args 2)) fun (text : Value) =>
    .fail ⟨kind, text.asString?.getD "", []⟩

def behaviours : List (String × (List Value → Routine)) :=
  [("nop", fun _ => .finish .null),
   ("args", fun (args : List Value) => .giving (.newArray args)),
   ("log", log),
   ("apply", fun (args : List Value) => .giving (callOfRest args)),
   ("pcall", protectedCall),
   ("fail", raise),
   ("interrupt", fun _ => .giving .interrupt),
   ("collect", fun _ => .giving .collect),
   ("live", fun _ => .giving .live),
   ("root", fun _ => .giving .root),
   ("deep_equal", fun (args : List Value) =>
     .giving (.deepEqual (argument args 1) (argument args 2)))]

def functions : List NativeFunction :=
  behaviours.map fun (e : String × (List Value → Routine)) => { name := e.1, behaviour := e.2 }

def registerAll : List NativeFunction → Exec Unit
  | [] => pure ()
  | f :: rest => do
    let _ ← Exec.registerGlobal f
    registerAll rest

/-- A machine whose scripts can use all of them as globals. -/
def equip (m : Machine) : Machine := m.after (registerAll functions)

end Toolbox

end ScriptMachine
