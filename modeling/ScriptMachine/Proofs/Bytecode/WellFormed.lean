import ScriptMachine.Bytecode.Prototype

/-!
# Well-formed functions

What a compiler promises of the code it makes: every operand names something
that is there, for the function and for all functions nested in it.
-/

set_option autoImplicit false

namespace ScriptMachine

namespace Prototype

/-- The argument is a register of the frame. -/
def HasRegister (p : Prototype) (r : Int64) : Prop := 0 ≤ r ∧ r.toInt.toNat < p.stackSize

/-- The argument is absent or a register. -/
def HasOptional (p : Prototype) (r : Int64) : Prop := isPresent r = true → p.HasRegister r

def HasLiteral (p : Prototype) (i : Int64) : Prop := 0 ≤ i ∧ i.toInt.toNat < p.literals.size

def HasFunction (p : Prototype) (i : Int64) : Prop := 0 ≤ i ∧ i.toInt.toNat < p.functions.length

def HasOuter (p : Prototype) (i : Int64) : Prop := 0 ≤ i ∧ i.toInt.toNat < p.outers.length

/-- The registers that a call takes its arguments from. -/
def HasWindow (p : Prototype) (start count : Int64) : Prop :=
  0 ≤ start ∧ 0 ≤ count ∧ start.toInt.toNat + count.toInt.toNat ≤ p.stackSize

end Prototype

namespace Instruction

/-- A jump at a place of the code does not lead before its start. -/
def JumpsFrom (i : Instruction) (place : Nat) : Prop := 0 ≤ Int64.ofNat (place + 1) + i.arg1

/-- The operands of an instruction at a place of a function. -/
def WellFormed (p : Prototype) (place : Nat) (i : Instruction) : Prop :=
  match i.opcode with
  | .load => p.HasRegister i.arg0 ∧ p.HasLiteral i.arg1
  | .loadInteger | .loadFloat | .loadBool | .loadRoot | .base => p.HasRegister i.arg0
  | .doubleLoad =>
    p.HasRegister i.arg0 ∧ p.HasLiteral i.arg1 ∧ p.HasRegister i.arg2 ∧ p.HasLiteral i.arg3
  | .loadNulls => 0 ≤ i.arg0 ∧ 0 ≤ i.arg1
  | .move | .neg | .not | .bitNot | .typeOf | .deepCopy =>
    p.HasRegister i.arg0 ∧ p.HasRegister i.arg1
  | .doubleMove =>
    p.HasRegister i.arg0 ∧ p.HasRegister i.arg1 ∧ p.HasRegister i.arg2 ∧ p.HasRegister i.arg3
  | .getOuter => p.HasRegister i.arg0 ∧ p.HasOuter i.arg1
  | .setOuter => p.HasOptional i.arg0 ∧ p.HasOuter i.arg1 ∧ p.HasRegister i.arg2
  | .get | .add | .sub | .mul | .div | .mod | .exp | .eq | .neq | .instanceOf | .has =>
    p.HasRegister i.arg0 ∧ p.HasRegister i.arg1 ∧ p.HasRegister i.arg2
  | .getLiteral | .eqLiteral | .neqLiteral =>
    p.HasRegister i.arg0 ∧ p.HasLiteral i.arg1 ∧ p.HasRegister i.arg2
  | .assign | .newSlot =>
    p.HasOptional i.arg0 ∧ p.HasRegister i.arg1 ∧ p.HasRegister i.arg2 ∧ p.HasRegister i.arg3
  | .newMember =>
    p.HasRegister i.arg1 ∧ p.HasRegister i.arg2 ∧ p.HasRegister i.arg3 ∧
      (i.arg0 &&& 2 ≠ 0 → p.HasRegister (i.arg2 - 1))
  | .remove => p.HasOptional i.arg0 ∧ p.HasRegister i.arg1 ∧ p.HasRegister i.arg2
  | .bitwise =>
    p.HasRegister i.arg0 ∧ p.HasRegister i.arg1 ∧ p.HasRegister i.arg2 ∧
      (BitwiseOp.ofCode? i.arg3).isSome
  | .compare =>
    p.HasRegister i.arg0 ∧ p.HasRegister i.arg1 ∧ p.HasRegister i.arg2 ∧
      (CompareOp.ofCode? i.arg3).isSome
  | .jumpUnless =>
    (CompareOp.ofCode? i.arg0).isSome ∧ i.JumpsFrom place ∧ p.HasRegister i.arg2 ∧
      p.HasRegister i.arg3
  | .jump => i.JumpsFrom place
  | .jumpIfFalsy => p.HasRegister i.arg0 ∧ i.JumpsFrom place
  | .shortAnd | .shortOr => p.HasRegister i.arg0 ∧ i.JumpsFrom place ∧ p.HasRegister i.arg2
  | .prepareCall =>
    p.HasRegister i.arg0 ∧ p.HasRegister i.arg1 ∧ p.HasRegister i.arg2 ∧ p.HasRegister i.arg3
  | .prepareCallLiteral =>
    p.HasRegister i.arg0 ∧ p.HasLiteral i.arg1 ∧ p.HasRegister i.arg2 ∧ p.HasRegister i.arg3
  | .call | .tailCall =>
    p.HasOptional i.arg0 ∧ p.HasRegister i.arg1 ∧ p.HasWindow i.arg2 i.arg3
  | .ret => p.HasOptional i.arg0
  | .close => 0 ≤ i.arg1
  | .closure => p.HasRegister i.arg0 ∧ p.HasFunction i.arg1
  | .newObject =>
    p.HasRegister i.arg0 ∧ (ObjectKind.ofCode? i.arg3).isSome ∧
      (ObjectKind.ofCode? i.arg3 = some .classObject → p.HasOptional i.arg1 ∧ p.HasOptional i.arg2)
  | .append =>
    p.HasRegister i.arg0 ∧ (AppendSource.ofCode? i.arg2).isSome ∧
      (AppendSource.ofCode? i.arg2 = some .register → p.HasRegister i.arg1) ∧
      (AppendSource.ofCode? i.arg2 = some .literal → p.HasLiteral i.arg1)
  | .foreach =>
    p.HasRegister i.arg0 ∧ i.JumpsFrom place ∧ p.HasRegister i.arg2 ∧
      p.HasRegister (i.arg2 + 1) ∧ p.HasRegister (i.arg2 + 2)

end Instruction

namespace Prototype

/-- A captured variable is a register of the enclosing function or one that it
has captured itself. -/
def HasCapture (p : Prototype) (c : Capture) : Prop :=
  match c.kind with
  | .register => c.index < p.stackSize
  | .outer => c.index < p.outers.length

/-- What a nested function takes from the enclosing one when it becomes a closure. -/
def Encloses (p f : Prototype) : Prop :=
  (∀ c ∈ f.outers, p.HasCapture c) ∧ ∀ r ∈ f.defaults, p.HasRegister r

/-- A function whose operands all name something that is there, with all that is
nested in it. -/
inductive WellFormed : Prototype → Prop
  | intro (p : Prototype) :
    p.parameters ≠ [] →
    (∀ (place : Nat) (i : Instruction), p.code[place]? = some i → Instruction.WellFormed p place i) →
    (∀ f ∈ p.functions, p.Encloses f) →
    (∀ f ∈ p.functions, WellFormed f) → WellFormed p

namespace WellFormed

variable {p : Prototype}

theorem parameters (h : p.WellFormed) : p.parameters ≠ [] := by
  cases h with
  | intro _ h _ _ _ => exact h

theorem instruction (h : p.WellFormed) {place : Nat} {i : Instruction}
    (hi : p.code[place]? = some i) : i.WellFormed p place := by
  cases h with
  | intro _ _ h _ _ => exact h place i hi

theorem encloses (h : p.WellFormed) {f : Prototype} (hf : f ∈ p.functions) : p.Encloses f := by
  cases h with
  | intro _ _ _ h _ => exact h f hf

theorem nested (h : p.WellFormed) {f : Prototype} (hf : f ∈ p.functions) : f.WellFormed := by
  cases h with
  | intro _ _ _ _ h => exact h f hf

end WellFormed

end Prototype

end ScriptMachine
