import ScriptMachine.Bytecode.Instruction
import ScriptMachine.Bytecode.Literal
import ScriptMachine.Search

/-!
# Prototypes

The immutable description of one function: its code, its constants and nested
functions, what it captures, and the tables for diagnostics.
-/

set_option autoImplicit false

namespace ScriptMachine

/-- Where a captured variable is found when the closure is made. -/
inductive CaptureKind where
  /-- A register of the enclosing function. -/
  | register
  /-- A captured variable of the enclosing function. -/
  | outer
  deriving DecidableEq, Repr

structure Capture where
  name : String
  kind : CaptureKind
  index : Nat
  deriving DecidableEq, Repr

/-- A named register over an inclusive range of instructions. -/
structure LocalInfo where
  name : String
  pos : Nat
  startOp : Nat
  endOp : Nat
  deriving DecidableEq, Repr

structure LineInfo where
  line : Nat
  op : Nat
  deriving DecidableEq, Repr

structure Prototype where
  name : String
  source : String := ""
  code : Array Instruction := #[]
  literals : Array Literal := #[]
  /-- The first parameter is the receiver. -/
  parameters : List String := ["this"]
  functions : List Prototype := []
  outers : List Capture := []
  /-- The registers that give the default values when the closure is made. -/
  defaults : List Int64 := []
  locals : List LocalInfo := []
  lines : Array LineInfo := #[]
  stackSize : Nat := 1
  varargs : Bool := false

namespace Prototype

/-- The entry lies behind the instruction. -/
def lineAbove (lines : Array LineInfo) (ip i : Nat) : Bool :=
  match lines[i]? with
  | some li => decide (ip < li.op)
  | none => false

/-- The source line of an instruction: that of the last entry at or before it,
of the first entry when there is none, and 0 for an empty table. -/
def lineFor (p : Prototype) (ip : Nat) : Nat :=
  match p.lines[Search.lastNotAbove (lineAbove p.lines ip) p.lines.size]? with
  | some li => li.line
  | none => 0

/-- The first entry for the register that covers the instruction. -/
def localName? (p : Prototype) (pos ip : Nat) : Option String :=
  (p.locals.find? fun (l : LocalInfo) => l.pos == pos && l.startOp ≤ ip && ip ≤ l.endOp).map (·.name)

/-! ## Equality -/

mutual

/-- Equality of all parts; float literals compare as numbers. -/
def equal : Prototype → Prototype → Bool
  | ⟨n, s, c, l, p, f, o, d, lo, li, k, v⟩, ⟨n', s', c', l', p', f', o', d', lo', li', k', v'⟩ =>
    n == n' && s == s' && c == c' && l.size == l'.size &&
      (l.toList.zip l'.toList).all (fun (x : Literal × Literal) => x.1.equal x.2) &&
      p == p' && equalAll f f' && o == o' && d == d' && lo == lo' && li == li' && k == k' && v == v'

def equalAll : List Prototype → List Prototype → Bool
  | [], [] => true
  | p :: ps, q :: qs => equal p q && equalAll ps qs
  | _, _ => false

end

end Prototype

end ScriptMachine
