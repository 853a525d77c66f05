import ScriptMachine.Bytecode.Listing
import ScriptMachine.Bytecode.Stored
import ScriptMachine.Machine.Globals

/-!
# Host sessions

A session keeps one machine, so the globals of one script stay for the next.
Scripts have `print`, which puts out a line.
-/

set_option autoImplicit false

namespace ScriptMachine

inductive HostError where
  /-- A file that cannot be read, with the reason. -/
  | unreadable (path reason : String)
  | prototype (e : BuildError)
  | script (e : ScriptError)
  /-- The machine stopped for a reason that no script can see. -/
  | stopped
  deriving DecidableEq, Repr

def HostError.message : HostError → String
  | unreadable path reason => "cannot read '" ++ path ++ "': " ++ reason
  | prototype e => "invalid prototype: " ++ e.message
  | script e => e.report
  | stopped => "execution stopped"

/-- Asks for the texts of values one after the other and goes on with them. -/
def Routine.displayAll (vs : List Value) (texts : List String) (next : List String → Routine) :
    Routine :=
  match vs with
  | [] => next texts.reverse
  | v :: rest => .asking (.display v) fun (t : Value) =>
    displayAll rest ((t.asString?.getD "") :: texts) next

/-- Puts out the texts of the arguments with blanks between. -/
def printFunction : NativeFunction where
  name := "print"
  docs := "Write the arguments to stdout"
  params := -1
  behaviour := fun (args : List Value) =>
    .displayAll (args.drop 1) [] fun (texts : List String) =>
      .asking (.emit (String.intercalate " " texts)) fun _ => .finish .null

structure Session where
  machine : Machine
  /-- Put out the listing of a function before it runs. -/
  listing : Bool := false

namespace Session

def start (config : MachineConfig) (listing : Bool) : Session where
  machine := (Machine.create config).after do
    let _ ← Exec.registerGlobal printFunction
  listing := listing

/-- The lines put out so far, which the session forgets. -/
def takeOutput (s : Session) : String × Session :=
  (String.join (s.machine.output.toList.map (· ++ "\n")),
    { s with machine := { s.machine with output := #[] } })

/-- Runs a function. The output comes with its value or error; the value is the
caller's. -/
def execute (s : Session) (p : Prototype) : Except HostError Value × String × Session :=
  let (result, m) := match Exec.run p s.machine with
    | .ok v m => (Except.ok v, m)
    | .error (.script e) m => (Except.error (.script e), m)
    | .error _ m => (Except.error .stopped, m)
  let (lines, s) := takeOutput { s with machine := m }
  (result, (if s.listing then p.listing else "") ++ lines, s)

/-- A stored function. -/
def load (text : String) : Except HostError Prototype :=
  match Prototype.read? text with
  | some p => .ok p
  | none => .error (.prototype .malformed)

/-- Runs a stored function. -/
def executeStored (s : Session) (text : String) : Except HostError Value × String × Session :=
  match load text with
  | .ok p => s.execute p
  | .error e => (.error e, "", s)

/-- The listing of a stored function. -/
def listStored (text : String) : Except HostError String := (load text).map Prototype.listing

end Session

end ScriptMachine
