import ScriptMachine.Machine.Run
import ScriptMachine.Machine.TypeMethods

/-!
# Globals and registration

A new machine has a dict of globals and, for each type, a dict of methods that
the built-in natives fill. A native is registered under a name once.
-/

set_option autoImplicit false

namespace ScriptMachine

namespace Exec

/-- Makes a native of a description and enters it under its name. -/
def install (table : Ref) (f : NativeFunction) : Exec Unit :=
  updateHeap fun (h : Heap) =>
    let (n, h) := h.newNative f
    h.dictInsertChars table f.name (.native n)

/-- Registers a native in a table; the name of the refusal may differ from that
of the native. -/
def registerIn (table : Ref) (refusal : String) (f : NativeFunction) :
    Exec (Except BuildError Unit) := do
  if ← readHeap fun (h : Heap) => (h.dictGet? table f.name).isSome then
    return .error (.duplicateRegistration refusal)
  else
    install table f
    return .ok ()

def registerGlobal (f : NativeFunction) : Exec (Except BuildError Unit) := do
  registerIn (← get).root f.name f

def methodTable (tag : TypeTag) : Exec Ref := return ((← get).delegates[tag.index]?).getD ⟨0⟩

/-- Registers a method of all values of a type. -/
def registerMethod (tag : TypeTag) (f : NativeFunction) : Exec (Except BuildError Unit) := do
  registerIn (← methodTable tag) (tag.name ++ "." ++ f.name) f

/-- The value of a global, lent. -/
def global? (name : String) : Exec (Option Value) := do
  let m ← get
  return m.heap.dictGet? m.root name

/-- Creates or overwrites a global; the reference is taken over. -/
def setGlobal (name : String) (v : Value) : Exec Unit := do
  let root := (← get).root
  updateHeap fun (h : Heap) => h.dictInsertChars root name v

def installOn (f : NativeFunction) : List TypeTag → Exec Unit
  | [] => pure ()
  | t :: rest => do
    install (← methodTable t) f
    installOn f rest

def installAll : List (NativeFunction × List TypeTag) → Exec Unit
  | [] => pure ()
  | (f, tags) :: rest => do
    installOn f tags
    installAll rest

end Exec

namespace Heap

def newDicts (h : Heap) : Nat → List Ref × Heap
  | 0 => ([], h)
  | n + 1 =>
    let (d, h) := h.newDict
    let (ds, h) := newDicts h n
    (d :: ds, h)

/-- A heap with nothing in it. -/
def empty (config : CollectConfig) : Heap := { chain := { config } }

end Heap

namespace Machine

/-- Runs an action for its effects. -/
def after (m : Machine) (act : Exec Unit) : Machine :=
  match act m with
  | .ok _ m => m
  | .error _ m => m

/-- A machine with no globals and an empty table of methods for each type. -/
def bare (config : MachineConfig) : Machine :=
  let (root, h) := (Heap.empty config.collect).newDict
  let (delegates, h) := h.newDicts TypeTag.all.length
  { config, heap := h, root, delegates }

/-- A machine with no globals and the methods of the built-in types. -/
def create (config : MachineConfig) : Machine :=
  (bare config).after (Exec.installAll TypeMethod.all)

end Machine

end ScriptMachine
