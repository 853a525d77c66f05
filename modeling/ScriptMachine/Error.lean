import ScriptMachine.Decimal.Layout

/-!
# Errors

Three kinds of failure: building a function, a container that refuses a key or
value, and a script that stops. The last carries the activations it left, the
innermost first.
-/

set_option autoImplicit false

namespace ScriptMachine

inductive BuildError where
  | tooManyLocals
  | tooManyLiterals
  | invalidTypeMask (mask : String) (found : Char)
  | duplicateRegistration (name : String)
  | unbalancedTargets
  | notInLoop (what : String)
  | noParent
  | malformed
  deriving DecidableEq, Repr

def BuildError.message : BuildError → String
  | tooManyLocals => "too many locals (limit 255)"
  | tooManyLiterals => "too many literals (limit 65535)"
  | invalidTypeMask mask found =>
    "invalid type mask '" ++ mask ++ "': unexpected '" ++ found.toString ++ "'"
  | duplicateRegistration name => "'" ++ name ++ "' is already registered"
  | unbalancedTargets => "unbalanced target stack"
  | notInLoop what => "'" ++ what ++ "' has to be in a loop block"
  | noParent => "function state has no parent"
  | malformed => "serialization failed"

inductive ErrorKind where
  | type
  | argument
  | member
  | arithmetic
  | locked
  | call
  | stackOverflow
  | interrupted
  | compile
  deriving DecidableEq, Repr

def ErrorKind.name : ErrorKind → String
  | type => "type error"
  | argument => "argument error"
  | member => "member error"
  | arithmetic => "arithmetic error"
  | locked => "locked class"
  | call => "call error"
  | stackOverflow => "stack overflow"
  | interrupted => "interrupted"
  | compile => "compile error"

/-- One activation that an error left. -/
structure TraceEntry where
  function : String
  source : String
  line : Nat
  instruction : Nat
  deriving DecidableEq, Repr

def TraceEntry.display (e : TraceEntry) : String :=
  "at " ++ e.function ++ " (" ++ e.source ++ ":" ++ Decimal.digitText e.line ++ ") [" ++
    Decimal.digitText e.instruction ++ "]"

structure ScriptError where
  kind : ErrorKind
  message : String
  /-- The activations left so far, the innermost first. -/
  trace : List TraceEntry := []
  deriving DecidableEq, Repr

namespace ScriptError

def typeError (message : String) : ScriptError := ⟨.type, message, []⟩

def argument (message : String) : ScriptError := ⟨.argument, message, []⟩

def member (message : String) : ScriptError := ⟨.member, message, []⟩

def arithmetic (message : String) : ScriptError := ⟨.arithmetic, message, []⟩

def call (message : String) : ScriptError := ⟨.call, message, []⟩

def leave (e : ScriptError) (entry : TraceEntry) : ScriptError :=
  { e with trace := e.trace ++ [entry] }

def display (e : ScriptError) : String := e.kind.name ++ ": " ++ e.message

/-- The message and one line for each activation. -/
def report (e : ScriptError) : String :=
  e.display ++ String.join (e.trace.map fun (t : TraceEntry) => "\n    " ++ t.display)

def ofBuildError (e : BuildError) : ScriptError := ⟨.compile, e.message, []⟩

end ScriptError

/-- Why a container refuses a key or a value. -/
inductive SlotError where
  | nullKey
  | invalidKey (typeName : String)
  | locked (name : String)
  | tooManyMembers
  | missing (name : String)
  | outOfRange (index : Int64) (length : Nat)
  deriving DecidableEq, Repr

namespace SlotError

def message : SlotError → String
  | nullKey => "null is not a valid key"
  | invalidKey t => "invalid key type '" ++ t ++ "'"
  | locked name => "class is locked, cannot add field '" ++ name ++ "'"
  | tooManyMembers => "too many class members"
  | missing name => "member '" ++ name ++ "' does not exist"
  | outOfRange index length =>
    "index " ++ Decimal.integer index ++ " out of range for length " ++ Decimal.digitText length

def kind : SlotError → ErrorKind
  | locked _ => .locked
  | nullKey | invalidKey _ => .type
  | tooManyMembers | missing _ | outOfRange _ _ => .member

def toScriptError (e : SlotError) : ScriptError := ⟨e.kind, e.message, []⟩

end SlotError

end ScriptMachine
