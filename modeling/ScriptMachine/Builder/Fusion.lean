import ScriptMachine.Bytecode.Instruction

/-!
# Fusing neighbouring instructions

The instruction about to be appended may combine with the one before it. The
decision is a pure function of the two, of whether fusion is allowed here, and
of a few facts about the function.
-/

set_option autoImplicit false

namespace ScriptMachine

/-- Whether the next instruction may combine with the previous one. It may not
when a move has redirected the previous one, or when a jump leads between them. -/
inductive EmitterState where
  | armed
  | suppressed
  deriving DecidableEq, Repr

structure FusionContext where
  /-- The function is nested in another. -/
  nested : Bool
  /-- The first instruction of the returned expression being built. -/
  returnExpression : Option Nat
  previousIndex : Nat
  /-- The register holds a named local, whose writes must stay. -/
  isLocal : Int64 → Bool

inductive Fusion where
  | append (next : Instruction)
  /-- The previous instruction changes and the new one is dropped. -/
  | replace (previous : Instruction) (state : EmitterState)
  /-- The previous instruction changes and the new one is appended. -/
  | adjust (previous next : Instruction)
  deriving DecidableEq, Repr

namespace Fusion

/-- A load whose register is only read by the next instruction. -/
def feeds (ctx : FusionContext) (previous : Instruction) (source : Int64) : Bool :=
  previous.opcode == .load && previous.arg0 == source && !ctx.isLocal previous.arg0

/-- A call in a returned expression of a nested function becomes a tail call;
closing cells before returning is left to the return. -/
def ofReturn (ctx : FusionContext) (previous next : Instruction) : Fusion :=
  let returned := match ctx.returnExpression with
    | some start => decide (start < ctx.previousIndex)
    | none => false
  if ctx.nested && isPresent next.arg0 && previous.opcode == .call && returned then
    adjust { previous with opcode := .tailCall } next
  else if previous.opcode == .close then replace next .armed
  else append next

def ofAppend (ctx : FusionContext) (previous next : Instruction) : Fusion :=
  match AppendSource.ofLoad? previous.opcode with
  | some source =>
    if next.arg2 == AppendSource.register.code && previous.arg0 == next.arg1
        && !ctx.isLocal previous.arg0 then
      replace ⟨.append, next.arg0, previous.arg1, source.code, 0⟩ .armed
    else append next
  | none => append next

/-- A move out of a temporary redirects the instruction that filled it; two
moves become one. -/
def ofMove (ctx : FusionContext) (previous next : Instruction) : Fusion :=
  if previous.opcode.isRetargetable && previous.arg0 == next.arg1
      && !ctx.isLocal previous.arg0 then
    replace { previous with arg0 := next.arg0 } .suppressed
  else if previous.opcode == .move then
    replace ⟨.doubleMove, previous.arg0, previous.arg1, next.arg0, next.arg1⟩ .armed
  else append next

/-- The rule of each opcode, given a previous instruction to combine with. -/
def ofPair (ctx : FusionContext) (previous next : Instruction) : Fusion :=
  match next.opcode with
  | .jumpIfFalsy =>
    if previous.opcode == .compare && previous.arg0 == next.arg0 then
      replace ⟨.jumpUnless, previous.arg3, next.arg1, previous.arg1, previous.arg2⟩ .armed
    else append next
  | .assign | .newSlot =>
    append (if next.arg0 == next.arg3 then { next with arg0 := absent } else next)
  | .setOuter =>
    append (if next.arg0 == next.arg2 then { next with arg0 := absent } else next)
  | .ret => ofReturn ctx previous next
  | .get =>
    if feeds ctx previous next.arg1 then
      replace ⟨.getLiteral, next.arg0, previous.arg1, next.arg2, 0⟩ .armed
    else append next
  | .prepareCall =>
    if feeds ctx previous next.arg1 then
      replace ⟨.prepareCallLiteral, next.arg0, previous.arg1, next.arg2, next.arg3⟩ .armed
    else append next
  | .eq =>
    if feeds ctx previous next.arg1 then
      replace ⟨.eqLiteral, next.arg0, previous.arg1, next.arg2, 0⟩ .armed
    else append next
  | .neq =>
    if feeds ctx previous next.arg1 then
      replace ⟨.neqLiteral, next.arg0, previous.arg1, next.arg2, 0⟩ .armed
    else append next
  | .append => ofAppend ctx previous next
  | .move => ofMove ctx previous next
  | .load =>
    if previous.opcode == .load && isPresent next.arg1 && 0 ≤ next.arg1 then
      replace ⟨.doubleLoad, previous.arg0, previous.arg1, next.arg0, next.arg1⟩ .armed
    else append next
  | .loadNulls =>
    if previous.opcode == .loadNulls && previous.arg0 + previous.arg1 == next.arg0 then
      replace ⟨.loadNulls, previous.arg0, previous.arg1 + next.arg1, 0, 0⟩ .armed
    else append next
  | _ => append next

end Fusion

/-- Without a previous instruction, or where fusion is suppressed, the new one is
taken as it is. -/
def fuse (previous : Option Instruction) (next : Instruction) (state : EmitterState)
    (ctx : FusionContext) : Fusion :=
  match previous, state with
  | some p, .armed => Fusion.ofPair ctx p next
  | _, _ => .append next

end ScriptMachine
