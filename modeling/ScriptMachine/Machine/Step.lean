import ScriptMachine.Machine.Calls
import ScriptMachine.Machine.Construction
import ScriptMachine.Machine.Iteration

/-!
# One instruction

What an instruction reads from registers is held until its effect is complete,
so that writing the result cannot free it. An interrupt is noticed before an
instruction is fetched, and a function that runs off its end returns null.
-/

set_option autoImplicit false

namespace ScriptMachine.Exec

/-! ## Captured variables of the current closure -/

def outerCell (index : Int64) : Exec Ref := do
  let i ← indexArg index "outer"
  match (← currentOuters)[i]? with
  | some c => return c
  | none => malformed ("outer " ++ Decimal.digitText i ++ " out of range")

/-- The base of the class whose method is running, or null. -/
def ownerBase : Exec Value := do
  let f ← currentFrame
  let base ← readHeap fun (h : Heap) =>
    ((h.closure? f.closure).bind (·.owner)).bind fun (c : Ref) => (h.class? c).bind (·.base)
  match base with
  | some b => sharing (.classObject b)
  | none => return .null

/-! ## Results of comparisons -/

def comparisonResult : CompareOp → Ordering → Value
  | .greater, o => .bool (o == .gt)
  | .greaterEqual, o => .bool (o != .lt)
  | .less, o => .bool (o == .lt)
  | .lessEqual, o => .bool (o != .gt)
  | .threeWay, .lt => .integer (-1)
  | .threeWay, .eq => .integer 0
  | .threeWay, .gt => .integer 1

/-- Compares two registers and goes on with the result. -/
def comparing (call : Caller) (code : Int64) (base : Nat) (a b : Int64)
    (use : Value → Exec Unit) : Exec Unit := do
  match CompareOp.ofCode? code with
  | none => malformed ("invalid comparison " ++ Decimal.integer code)
  | some op =>
    let x ← register base a
    let y ← register base b
    holding [x, y] do
      use (comparisonResult op (← compareOp call x y))

/-! ## Effects -/

def loadNullsInstruction (base : Nat) (i : Instruction) : Exec Unit := do
  let start ← registerSlot base i.arg0
  let count ← indexArg i.arg1 "count"
  nullSlots start (min (start + count) (← stackSize) - start)

def moveRegister (base : Nat) (target source : Int64) : Exec Unit := do
  setRegister base target (← sharing (← register base source))

def loadLiteral (base : Nat) (target index : Int64) : Exec Unit := do
  setRegister base target (← literal index)

def setOuterInstruction (base : Nat) (i : Instruction) : Exec Unit := do
  let cell ← outerCell i.arg1
  let v ← register base i.arg2
  retainAll [v, v]
  writeOuter cell v
  setOptional base i.arg0 v

/-- Looks a method up and puts the receiver where the call expects it. -/
def prepareCall (call : Caller) (base : Nat) (i : Instruction) (key obj : Value) : Exec Unit := do
  let m ← getMember call obj key
  handing m do
    retain obj
    setRegister base i.arg3 obj
  setRegister base i.arg0 m

def arithInstruction (call : Caller) (op : ArithOp) (base : Nat) (i : Instruction) :
    Exec Unit := do
  let a ← register base i.arg1
  let b ← register base i.arg2
  holding [a, b] do
    setRegister base i.arg0 (← arithOp call op a b)

def bitwiseInstruction (base : Nat) (i : Instruction) : Exec Unit := do
  match BitwiseOp.ofCode? i.arg3 with
  | none => malformed ("invalid bitwise op " ++ Decimal.integer i.arg3)
  | some op =>
    let a ← register base i.arg1
    let b ← register base i.arg2
    setRegister base i.arg0 (← ofExcept (Operator.bitwise op a b))

/-- Writes whether two values are equal, or whether they differ. -/
def equalityInstruction (base : Nat) (target : Int64) (a b : Value) (wanted : Bool) : Exec Unit :=
  setRegister base target (.bool (a.checkEqual b == wanted))

def literalEquality (base : Nat) (i : Instruction) (wanted : Bool) : Exec Unit := do
  let a ← literal i.arg1
  owning [a] do
    equalityInstruction base i.arg0 a (← register base i.arg2) wanted

/-- Keeps a value and jumps when the value decides the result. -/
def shortCircuit (base : Nat) (i : Instruction) (onFalsy : Bool) : Exec Unit := do
  let v ← register base i.arg2
  if v.isFalsy == onFalsy then
    retain v
    setRegister base i.arg0 v
    jump i.arg1

/-- The effect of an instruction within its frame; leaving the frame is not part
of it. -/
def effect (call : Caller) (base : Nat) (i : Instruction) : Exec Unit := do
  match i.opcode with
  | .load => loadLiteral base i.arg0 i.arg1
  | .loadInteger => setRegister base i.arg0 (.integer i.arg1)
  | .loadFloat => setRegister base i.arg0 (.float (Float.ofBits i.arg1.toUInt64))
  | .loadBool => setRegister base i.arg0 (.bool (i.arg1 != 0))
  | .doubleLoad =>
    loadLiteral base i.arg0 i.arg1
    loadLiteral base i.arg2 i.arg3
  | .loadNulls => loadNullsInstruction base i
  | .loadRoot => setRegister base i.arg0 (← sharing (.dict (← get).root))
  | .move => moveRegister base i.arg0 i.arg1
  | .doubleMove =>
    moveRegister base i.arg0 i.arg1
    moveRegister base i.arg2 i.arg3
  | .getOuter => setRegister base i.arg0 (← sharing (← readOuter (← outerCell i.arg1)))
  | .setOuter => setOuterInstruction base i
  | .get =>
    let key ← register base i.arg1
    let obj ← register base i.arg2
    holding [key, obj] do setRegister base i.arg0 (← getMember call obj key)
  | .getLiteral =>
    let key ← literal i.arg1
    owning [key] do
      let obj ← register base i.arg2
      holding [obj] do setRegister base i.arg0 (← getMember call obj key)
  | .assign =>
    let obj ← register base i.arg1
    let key ← register base i.arg2
    let v ← register base i.arg3
    holding [obj, key] do
      retain v
      handing v do
        retain v
        setMember call obj key v
      setOptional base i.arg0 v
  | .newSlot =>
    let obj ← register base i.arg1
    let key ← register base i.arg2
    let v ← register base i.arg3
    holding [obj, key] do
      retain v
      handing v do
        retain v
        newSlot call obj key v
      setOptional base i.arg0 v
  | .newMember => newMemberInstruction call base i
  | .remove =>
    let obj ← register base i.arg1
    let key ← register base i.arg2
    holding [obj, key] do setOptional base i.arg0 (← deleteSlot call obj key)
  | .add => arithInstruction call .add base i
  | .sub => arithInstruction call .sub base i
  | .mul => arithInstruction call .mul base i
  | .div => arithInstruction call .div base i
  | .mod => arithInstruction call .mod base i
  | .exp => arithInstruction call .exp base i
  | .bitwise => bitwiseInstruction base i
  | .neg =>
    let v ← register base i.arg1
    holding [v] do setRegister base i.arg0 (← negateOp call v)
  | .not => setRegister base i.arg0 (.bool (← register base i.arg1).isFalsy)
  | .bitNot =>
    setRegister base i.arg0 (← ofExcept (Operator.bitNot (← register base i.arg1)))
  | .eq =>
    equalityInstruction base i.arg0 (← register base i.arg1) (← register base i.arg2) true
  | .neq =>
    equalityInstruction base i.arg0 (← register base i.arg1) (← register base i.arg2) false
  | .eqLiteral => literalEquality base i true
  | .neqLiteral => literalEquality base i false
  | .compare => comparing call i.arg3 base i.arg1 i.arg2 (setRegister base i.arg0)
  | .jumpUnless =>
    comparing call i.arg0 base i.arg2 i.arg3 fun (v : Value) =>
      if v.isFalsy then jump i.arg1 else pure ()
  | .jump => jump i.arg1
  | .jumpIfFalsy => if (← register base i.arg0).isFalsy then jump i.arg1
  | .shortAnd => shortCircuit base i true
  | .shortOr => shortCircuit base i false
  | .prepareCall =>
    let key ← register base i.arg1
    let obj ← register base i.arg2
    holding [key, obj] (prepareCall call base i key obj)
  | .prepareCallLiteral =>
    let key ← literal i.arg1
    owning [key] do
      let obj ← register base i.arg2
      holding [obj] (prepareCall call base i key obj)
  | .call => callInstruction call base i
  | .tailCall => tailCallInstruction call base i
  | .ret => pure ()
  | .close => closeOuters (← registerSlot base i.arg1)
  | .closure => closureInstruction base i
  | .newObject => newObjectInstruction call base i
  | .append => appendInstruction base i
  | .typeOf =>
    let v ← register base i.arg1
    holding [v] do setRegister base i.arg0 (← typeOf call v)
  | .instanceOf =>
    let cls ← register base i.arg1
    let obj ← register base i.arg2
    setRegister base i.arg0 (.bool (← instanceOf cls obj))
  | .has =>
    let obj ← register base i.arg1
    let key ← register base i.arg2
    setRegister base i.arg0 (.bool (← hasMember obj key))
  | .base => setRegister base i.arg0 (← ownerBase)
  | .deepCopy => setRegister base i.arg0 (← defaultCopy base i.arg1)
  | .foreach => foreachInstruction call base i

/-! ## The step -/

/-- A pending interrupt is an error once. -/
def checkInterrupt : Exec Unit := do
  if (← get).interrupted then
    modify fun (m : Machine) => { m with interrupted := false }
    fail ⟨.interrupted, "execution interrupted", []⟩

/-- The value that a return instruction hands back, as a reference of its own. -/
def returnedValue (base : Nat) (r : Int64) : Exec Value := do
  if isPresent r then sharing (← register base r) else return .null

def step (call : Caller) : Exec Flow := do
  checkInterrupt
  let f ← currentFrame
  match f.prototype.code[f.ip]? with
  | none => returnFromFrame .null
  | some i =>
    setIp (f.ip + 1)
    if i.opcode = .ret then returnFromFrame (← returnedValue f.base i.arg0)
    else
      effect call f.base i
      return .next

end ScriptMachine.Exec
