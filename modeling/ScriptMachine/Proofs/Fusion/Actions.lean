import ScriptMachine.Machine.Step

/-!
# What instructions are made of

The effect of an instruction, for any kind of action: which registers it reads
and writes, which operations it asks for, and in which order. With the actions of
the machine it is the effect that the machine carries out.
-/

set_option autoImplicit false

namespace ScriptMachine

structure Actions (M : Type → Type) where
  -- Registers and captured variables
  register : Int64 → M Value
  setRegister : Int64 → Value → M Unit
  /-- Nulls in a run of registers, given by its start and length. -/
  clear : Int64 → Int64 → M Unit
  outerCell : Int64 → M Ref
  readOuter : Ref → M Value
  writeOuter : Ref → Value → M Unit
  /-- Closes the captured registers from one on. -/
  close : Int64 → M Unit
  literal : Int64 → M Value
  root : M Ref
  jump : Int64 → M Unit
  fail : ScriptError → M Unit
  ofExcept : Except ScriptError Value → M Value
  -- Shares in objects
  retain : Value → M Unit
  retainAll : List Value → M Unit
  release : Value → M Unit
  holding : List Value → M Unit → M Unit
  owning : List Value → M Unit → M Unit
  handing : Value → M Unit → M Unit
  -- Operations on objects
  getMember : Value → Value → M Value
  setMember : Value → Value → Value → M Unit
  newSlot : Value → Value → Value → M Unit
  newMember : Ref → Value → Value → Value → Bool → M Unit
  deleteSlot : Value → Value → M Value
  hasMember : Value → Value → M Bool
  arith : ArithOp → Value → Value → M Value
  negate : Value → M Value
  compare : Value → Value → M Ordering
  typeOf : Value → M Value
  instanceOf : Value → Value → M Bool
  ownerBase : M Value
  copy : Value → M Value
  pushItem : Ref → Value → M Unit
  visit : Value → Value → M (Option Exec.Visit)
  -- Instructions that do more than one such operation
  newObject : Instruction → M Unit
  closure : Instruction → M Unit
  call : Instruction → M Unit
  tailCall : Instruction → M Unit

namespace Actions

variable {M : Type → Type} [Monad M] (a : Actions M)

def malformed (message : String) : M Unit := a.fail ⟨.compile, message, []⟩

def sharing (v : Value) : M Value := do
  a.retain v
  return v

def setOptional (r : Int64) (v : Value) : M Unit :=
  if isPresent r then a.setRegister r v else a.release v

def move (target source : Int64) : M Unit := do
  a.setRegister target (← a.sharing (← a.register source))

def load (target index : Int64) : M Unit := do
  a.setRegister target (← a.literal index)

def setOuter (i : Instruction) : M Unit := do
  let cell ← a.outerCell i.arg1
  let v ← a.register i.arg2
  a.retainAll [v, v]
  a.writeOuter cell v
  a.setOptional i.arg0 v

/-- Stores a value in a slot and keeps it as the result. -/
def store (put : Value → Value → Value → M Unit) (i : Instruction) : M Unit := do
  let obj ← a.register i.arg1
  let key ← a.register i.arg2
  let v ← a.register i.arg3
  a.holding [obj, key] do
    a.retain v
    a.handing v do
      a.retain v
      put obj key v
    a.setOptional i.arg0 v

def addMember (i : Instruction) : M Unit := do
  match ← a.register i.arg1 with
  | .classObject c =>
    let key ← a.register i.arg2
    let v ← a.register i.arg3
    let attributes ← if i.arg0 &&& 2 != 0 then a.register (i.arg2 - 1) else pure .null
    a.holding [.classObject c, key] do
      a.retainAll [v, attributes]
      a.newMember c key v attributes (i.arg0 &&& 1 != 0)
  | _ => a.fail (.typeError "class members need a class")

def arithmetic (op : ArithOp) (i : Instruction) : M Unit := do
  let x ← a.register i.arg1
  let y ← a.register i.arg2
  a.holding [x, y] do
    a.setRegister i.arg0 (← a.arith op x y)

def bitwise (i : Instruction) : M Unit := do
  match BitwiseOp.ofCode? i.arg3 with
  | none => a.malformed ("invalid bitwise op " ++ Decimal.integer i.arg3)
  | some op =>
    let x ← a.register i.arg1
    let y ← a.register i.arg2
    a.setRegister i.arg0 (← a.ofExcept (Operator.bitwise op x y))

def equality (target : Int64) (x y : Value) (wanted : Bool) : M Unit :=
  a.setRegister target (.bool (x.checkEqual y == wanted))

def literalEquality (i : Instruction) (wanted : Bool) : M Unit := do
  let x ← a.literal i.arg1
  a.owning [x] do
    a.equality i.arg0 x (← a.register i.arg2) wanted

def comparing (code x y : Int64) (use : Value → M Unit) : M Unit := do
  match CompareOp.ofCode? code with
  | none => a.malformed ("invalid comparison " ++ Decimal.integer code)
  | some op =>
    let x ← a.register x
    let y ← a.register y
    a.holding [x, y] do
      use (Exec.comparisonResult op (← a.compare x y))

def shortCircuit (i : Instruction) (onFalsy : Bool) : M Unit := do
  let v ← a.register i.arg2
  if v.isFalsy == onFalsy then
    a.retain v
    a.setRegister i.arg0 v
    a.jump i.arg1

def prepareCall (i : Instruction) (key obj : Value) : M Unit := do
  let m ← a.getMember obj key
  a.handing m do
    a.retain obj
    a.setRegister i.arg3 obj
  a.setRegister i.arg0 m

def appended (i : Instruction) : AppendSource → M Value
  | .register => do a.sharing (← a.register i.arg1)
  | .literal => a.literal i.arg1
  | .integer => pure (.integer i.arg1)
  | .float => pure (.float (Float.ofBits i.arg1.toUInt64))
  | .bool => pure (.bool (i.arg1 != 0))

def append (i : Instruction) : M Unit := do
  match ← a.register i.arg0 with
  | .array r =>
    match AppendSource.ofCode? i.arg2 with
    | none => a.malformed ("invalid append kind " ++ Decimal.integer i.arg2)
    | some source =>
      let v ← a.appended i source
      a.pushItem r v
  | _ => a.fail (.typeError "append target is not an array")

def defaultCopy (r : Int64) : M Value := do
  let v ← a.register r
  a.copy v

def foreach (i : Instruction) : M Unit := do
  let container ← a.register i.arg0
  let state ← a.register (i.arg2 + 2)
  a.holding [container] do
    match ← a.visit container state with
    | none => a.jump i.arg1
    | some s =>
      a.handing s.state do
        a.handing s.value do
          a.setRegister i.arg2 s.key
        a.setRegister (i.arg2 + 1) s.value
      a.setRegister (i.arg2 + 2) s.state

def effect (i : Instruction) : M Unit := do
  match i.opcode with
  | .load => a.load i.arg0 i.arg1
  | .loadInteger => a.setRegister i.arg0 (.integer i.arg1)
  | .loadFloat => a.setRegister i.arg0 (.float (Float.ofBits i.arg1.toUInt64))
  | .loadBool => a.setRegister i.arg0 (.bool (i.arg1 != 0))
  | .doubleLoad =>
    a.load i.arg0 i.arg1
    a.load i.arg2 i.arg3
  | .loadNulls => a.clear i.arg0 i.arg1
  | .loadRoot => a.setRegister i.arg0 (← a.sharing (.dict (← a.root)))
  | .move => a.move i.arg0 i.arg1
  | .doubleMove =>
    a.move i.arg0 i.arg1
    a.move i.arg2 i.arg3
  | .getOuter => a.setRegister i.arg0 (← a.sharing (← a.readOuter (← a.outerCell i.arg1)))
  | .setOuter => a.setOuter i
  | .get =>
    let key ← a.register i.arg1
    let obj ← a.register i.arg2
    a.holding [key, obj] do a.setRegister i.arg0 (← a.getMember obj key)
  | .getLiteral =>
    let key ← a.literal i.arg1
    a.owning [key] do
      let obj ← a.register i.arg2
      a.holding [obj] do a.setRegister i.arg0 (← a.getMember obj key)
  | .assign => a.store a.setMember i
  | .newSlot => a.store a.newSlot i
  | .newMember => a.addMember i
  | .remove =>
    let obj ← a.register i.arg1
    let key ← a.register i.arg2
    a.holding [obj, key] do a.setOptional i.arg0 (← a.deleteSlot obj key)
  | .add => a.arithmetic .add i
  | .sub => a.arithmetic .sub i
  | .mul => a.arithmetic .mul i
  | .div => a.arithmetic .div i
  | .mod => a.arithmetic .mod i
  | .exp => a.arithmetic .exp i
  | .bitwise => a.bitwise i
  | .neg =>
    let v ← a.register i.arg1
    a.holding [v] do a.setRegister i.arg0 (← a.negate v)
  | .not => a.setRegister i.arg0 (.bool (← a.register i.arg1).isFalsy)
  | .bitNot => a.setRegister i.arg0 (← a.ofExcept (Operator.bitNot (← a.register i.arg1)))
  | .eq => a.equality i.arg0 (← a.register i.arg1) (← a.register i.arg2) true
  | .neq => a.equality i.arg0 (← a.register i.arg1) (← a.register i.arg2) false
  | .eqLiteral => a.literalEquality i true
  | .neqLiteral => a.literalEquality i false
  | .compare => a.comparing i.arg3 i.arg1 i.arg2 (a.setRegister i.arg0)
  | .jumpUnless =>
    a.comparing i.arg0 i.arg2 i.arg3 fun (v : Value) =>
      if v.isFalsy then a.jump i.arg1 else pure ()
  | .jump => a.jump i.arg1
  | .jumpIfFalsy => if (← a.register i.arg0).isFalsy then a.jump i.arg1
  | .shortAnd => a.shortCircuit i true
  | .shortOr => a.shortCircuit i false
  | .prepareCall =>
    let key ← a.register i.arg1
    let obj ← a.register i.arg2
    a.holding [key, obj] (a.prepareCall i key obj)
  | .prepareCallLiteral =>
    let key ← a.literal i.arg1
    a.owning [key] do
      let obj ← a.register i.arg2
      a.holding [obj] (a.prepareCall i key obj)
  | .call => a.call i
  | .tailCall => a.tailCall i
  | .ret => pure ()
  | .close => a.close i.arg1
  | .closure => a.closure i
  | .newObject => a.newObject i
  | .append => a.append i
  | .typeOf =>
    let v ← a.register i.arg1
    a.holding [v] do a.setRegister i.arg0 (← a.typeOf v)
  | .instanceOf =>
    let cls ← a.register i.arg1
    let obj ← a.register i.arg2
    a.setRegister i.arg0 (.bool (← a.instanceOf cls obj))
  | .has =>
    let obj ← a.register i.arg1
    let key ← a.register i.arg2
    a.setRegister i.arg0 (.bool (← a.hasMember obj key))
  | .base => a.setRegister i.arg0 (← a.ownerBase)
  | .deepCopy => a.setRegister i.arg0 (← a.defaultCopy i.arg1)
  | .foreach => a.foreach i

end Actions

namespace Exec

/-- The actions of the machine, in a frame whose registers begin at `base`. -/
def actions (call : Caller) (base : Nat) : Actions Exec where
  register := register base
  setRegister := setRegister base
  clear start count := loadNullsInstruction base ⟨.loadNulls, start, count, 0, 0⟩
  outerCell := outerCell
  readOuter := readOuter
  writeOuter := writeOuter
  close r := do closeOuters (← registerSlot base r)
  literal := literal
  root := return (← get).root
  jump := jump
  fail := fail
  ofExcept := ofExcept
  retain := retain
  retainAll := retainAll
  release := release
  holding vs act := holding vs act
  owning vs act := owning vs act
  handing v act := handing v act
  getMember := getMember call
  setMember := setMember call
  newSlot := newSlot call
  newMember := newClassMember call
  deleteSlot := deleteSlot call
  hasMember := hasMember
  arith := arithOp call
  negate := negateOp call
  compare := compareOp call
  typeOf := typeOf call
  instanceOf := instanceOf
  ownerBase := ownerBase
  copy v := heap fun (h : Heap) => h.deepCopy v
  pushItem r v := updateHeap fun (h : Heap) => h.pushItem r v
  visit := nextVisit call
  newObject := newObjectInstruction call base
  closure := closureInstruction base
  call := callInstruction call base
  tailCall := tailCallInstruction call base

/-- The machine carries out instructions with its own actions. -/
theorem effect_eq (call : Caller) (base : Nat) (i : Instruction) :
    effect call base i = (actions call base).effect i := by
  obtain ⟨op, a0, a1, a2, a3⟩ := i
  cases op <;> rfl

end Exec

end ScriptMachine
