import ScriptMachine.Machine.Members

/-!
# Making closures, objects and members

Default values are copied when a closure is made, so each closure has its own.
-/

set_option autoImplicit false

namespace ScriptMachine.Exec

/-! ## Closures -/

/-- Runs an action that is to take over values; when it fails, they are let go. -/
@[inline] def handingAll {α : Type} (vs : List Value) (act : Exec α) : Exec α := fun m =>
  match act m with
  | .ok a m => .ok a m
  | .error e m =>
    match releaseAll vs m with
    | .ok _ m => .error e m
    | .error e m => .error e m

/-- Makes a value from each item; when one fails, those made before are let go. -/
def gather {α : Type} (make : α → Exec Value) (made : List Value) : List α → Exec (List Value)
  | [] => pure made
  | a :: rest => do
    let v ← handingAll made (make a)
    gather make (made ++ [v]) rest

/-- The captured variables of the running closure. -/
def currentOuters : Exec (List Ref) := do
  let f ← currentFrame
  match ← readHeap fun (h : Heap) => h.closure? f.closure with
  | some c => return c.outers
  | none => return []

/-- The cell that a closure captures. -/
def captureCell (base : Nat) (outers : List Ref) (c : Capture) : Exec Value :=
  match c.kind with
  | .register => do return .outer (← capture (base + c.index))
  | .outer =>
    match outers[c.index]? with
    | some cell => sharing (.outer cell)
    | none => malformed ("outer '" ++ c.name ++ "' missing in enclosing function")

/-- A copy of a register's value. -/
def defaultCopy (base : Nat) (r : Int64) : Exec Value := do
  let v ← register base r
  heap fun (h : Heap) => h.deepCopy v

/-- A closure of a nested function. -/
def closureInstruction (base : Nat) (i : Instruction) : Exec Unit := do
  let index ← indexArg i.arg1 "function"
  match (← currentFrame).prototype.functions[index]? with
  | none => malformed ("function " ++ Decimal.digitText index ++ " out of range")
  | some p =>
    let cells ← gather (captureCell base (← currentOuters)) [] p.outers
    let defaults ← handingAll cells (gather (defaultCopy base) [] p.defaults)
    let c ← heap fun (h : Heap) => h.newClosure p (cells.filterMap Value.ref?) defaults
    setRegister base i.arg0 (.closure c)

/-! ## Objects -/

/-- The base of a new class, which an absent register leaves out. -/
def baseClass (base : Nat) (r : Int64) : Exec (Option Ref) := do
  if isPresent r then
    match ← register base r with
    | .classObject c => return some c
    | v => fail (.typeError ("cannot inherit from '" ++ v.typeName ++ "'"))
  else return none

def optionalRegister (base : Nat) (r : Int64) : Exec Value :=
  if isPresent r then register base r else pure .null

/-- Tells the base of a new class, when it has the `_inherit` metamethod. -/
def announce (call : Caller) (parent : Option Ref) (cls : Ref) (attributes : Value) :
    Exec Unit := do
  match parent with
  | none => pure ()
  | some p =>
    match ← readHeap fun (h : Heap) => h.classMeta? p .inherit with
    | none => pure ()
    | some m => release (← callMeta call m [.classObject p, .classObject cls, attributes] [])

def newClassValue (call : Caller) (base : Nat) (i : Instruction) : Exec Value := do
  let parent ← baseClass base i.arg1
  let attributes ← optionalRegister base i.arg2
  let name := (← get).config.constructorName
  let cls ← heap fun (h : Heap) => h.newClass parent name
  retain attributes
  updateHeap fun (h : Heap) => h.setClassAttributes cls attributes
  handing (.classObject cls) (announce call parent cls attributes)
  return .classObject cls

def newObjectInstruction (call : Caller) (base : Nat) (i : Instruction) : Exec Unit := do
  match ObjectKind.ofCode? i.arg3 with
  | none => malformed ("invalid object kind " ++ Decimal.integer i.arg3)
  | some .dict => setRegister base i.arg0 (.dict (← heap Heap.newDict))
  | some .array => setRegister base i.arg0 (← heap fun (h : Heap) => h.newArray #[])
  | some .classObject => setRegister base i.arg0 (← newClassValue call base i)

/-! ## Members and items -/

/-- Adds a class member. Bit 0 of the flags makes it static; bit 1 takes
attributes from the register before that of the key. -/
def newMemberInstruction (call : Caller) (base : Nat) (i : Instruction) : Exec Unit := do
  match ← register base i.arg1 with
  | .classObject c =>
    let key ← register base i.arg2
    let v ← register base i.arg3
    let attributes ← if i.arg0 &&& 2 != 0 then register base (i.arg2 - 1) else pure .null
    holding [.classObject c, key] do
      retainAll [v, attributes]
      newClassMember call c key v attributes (i.arg0 &&& 1 != 0)
  | _ => fail (.typeError "class members need a class")

def appendedValue (base : Nat) (i : Instruction) : AppendSource → Exec Value
  | .register => do sharing (← register base i.arg1)
  | .literal => literal i.arg1
  | .integer => pure (.integer i.arg1)
  | .float => pure (.float (Float.ofBits i.arg1.toUInt64))
  | .bool => pure (.bool (i.arg1 != 0))

def appendInstruction (base : Nat) (i : Instruction) : Exec Unit := do
  match ← register base i.arg0 with
  | .array r =>
    match AppendSource.ofCode? i.arg2 with
    | none => malformed ("invalid append kind " ++ Decimal.integer i.arg2)
    | some source =>
      let v ← appendedValue base i source
      updateHeap fun (h : Heap) => h.pushItem r v
  | _ => fail (.typeError "append target is not an array")

end ScriptMachine.Exec
