import ScriptMachine.Bytecode.Opcode
import ScriptMachine.Decimal.Layout

/-!
# Instructions

An opcode with four integer arguments. The least integer marks an absent
argument.
-/

set_option autoImplicit false

namespace ScriptMachine

structure Instruction where
  opcode : Opcode
  arg0 : Int64 := 0
  arg1 : Int64 := 0
  arg2 : Int64 := 0
  arg3 : Int64 := 0
  deriving DecidableEq, Repr

/-- The absent argument. -/
def absent : Int64 := Int64.minValue

def isPresent (arg : Int64) : Bool := arg != absent

namespace Instruction

def arg? (i : Instruction) : Nat → Option Int64
  | 0 => some i.arg0
  | 1 => some i.arg1
  | 2 => some i.arg2
  | 3 => some i.arg3
  | _ => none

/-- Positions beyond the fourth argument are ignored. -/
def setArg (i : Instruction) (pos : Nat) (v : Int64) : Instruction :=
  match pos with
  | 0 => { i with arg0 := v }
  | 1 => { i with arg1 := v }
  | 2 => { i with arg2 := v }
  | 3 => { i with arg3 := v }
  | _ => i

def argText (arg : Int64) : String :=
  if isPresent arg then Decimal.integer arg else "_"

def padRight (width : Nat) (s : String) : String :=
  s ++ String.ofList (List.replicate (width - s.length) ' ')

def padLeft (width : Nat) (s : String) : String :=
  String.ofList (List.replicate (width - s.length) ' ') ++ s

/-- The line of a listing without its position. -/
def display (i : Instruction) : String :=
  padRight 14 i.opcode.mnemonic ++
    String.join ([i.arg0, i.arg1, i.arg2, i.arg3].map fun (a : Int64) => " " ++ argText a)

end Instruction

end ScriptMachine
