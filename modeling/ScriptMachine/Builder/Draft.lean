import ScriptMachine.Builder.Fusion
import ScriptMachine.Bytecode.Prototype
import ScriptMachine.Error
import Std.Data.HashMap

/-!
# Drafts of functions

A draft is one function while it is being built: its instructions so far, the
table of literals, the stack of registers in use, and the open loops. An
operation that can fail returns its answer together with the draft after it.
-/

set_option autoImplicit false

namespace ScriptMachine

deriving instance Hashable for Space
deriving instance Hashable for LiteralKey

/-- A register in use: a named local or, without a name, a temporary. -/
structure Slot where
  name : Option String
  pos : Nat
  startOp : Nat
  /-- A nested function captures the register. -/
  escaped : Bool := false
  deriving DecidableEq, Repr

/-- The jumps of a loop that wait for their targets. -/
structure LoopTargets where
  breaks : List Nat := []
  continues : List Nat := []
  deriving DecidableEq, Repr

structure Draft where
  name : String
  source : String := ""
  code : Array Instruction := #[]
  literals : Array Literal := #[]
  literalIndex : Std.HashMap LiteralKey Nat := {}
  parameters : List String := ["this"]
  functions : Array Prototype := #[]
  outers : Array Capture := #[]
  escapedCount : Nat := 0
  slots : Array Slot := #[{ name := some "this", pos := 0, startOp := 0 }]
  retired : Array LocalInfo := #[]
  lines : Array LineInfo := #[]
  lastLine : Option Nat := none
  defaults : Array Int64 := #[]
  /-- The registers that expressions being built will fill, the innermost first. -/
  targets : List Nat := []
  stackSize : Nat := 1
  returnExpression : Option Nat := none
  state : EmitterState := .armed
  optimize : Bool := true
  varargs : Bool := false
  /-- The open loops, the innermost first. -/
  loops : List LoopTargets := []

/-- An answer or an error, and the draft after it. -/
abbrev Drafting (α : Type) : Type := Draft → Except BuildError α × Draft

namespace Draft

def maxStackSize : Nat := 255

def maxLiterals : Nat := 65535

def lastPos (d : Draft) : Option Nat :=
  if d.code.size = 0 then none else some (d.code.size - 1)

/-! ## Emission -/

def isLocal (d : Draft) (pos : Nat) : Bool :=
  match d.slots[pos]? with
  | some s => s.name.isSome
  | none => false

def isLocalRegister (d : Draft) (register : Int64) : Bool :=
  decide (0 ≤ register) && d.isLocal register.toInt.toNat

def fusionContext (d : Draft) (nested : Bool) : FusionContext :=
  { nested, returnExpression := d.returnExpression, previousIndex := d.code.size - 1,
    isLocal := d.isLocalRegister }

/-- Carries out a fusion decided for the last instruction. -/
def applyFusion (d : Draft) : Fusion → Draft
  | .append next => { d with code := d.code.push next, state := .armed }
  | .replace previous state =>
    { d with code := d.code.setIfInBounds (d.code.size - 1) previous, state }
  | .adjust previous next =>
    { d with code := (d.code.setIfInBounds (d.code.size - 1) previous).push next, state := .armed }

/-- Appends an instruction as it is. -/
def emitPlain (d : Draft) (i : Instruction) : Draft := { d with code := d.code.push i }

/-- Appends an instruction, combining it with the last one where that is allowed. -/
def emitFused (d : Draft) (nested : Bool) (i : Instruction) : Draft :=
  d.applyFusion (fuse d.code.back? i d.state (d.fusionContext nested))

def emit (d : Draft) (nested : Bool) (i : Instruction) : Draft :=
  if d.optimize then d.emitFused nested i else d.emitPlain i

def modifyInstruction (d : Draft) (pos : Nat) (f : Instruction → Instruction) : Draft :=
  { d with code := d.code.modify pos f }

def setArgs (d : Draft) (pos : Nat) (a b c e : Int64) : Draft :=
  d.modifyInstruction pos fun (i : Instruction) => { i with arg0 := a, arg1 := b, arg2 := c, arg3 := e }

def setArg (d : Draft) (pos arg : Nat) (v : Int64) : Draft :=
  d.modifyInstruction pos fun (i : Instruction) => i.setArg arg v

/-- Keeps the next instruction apart from the last one. -/
def suppress (d : Draft) : Draft := { d with state := .suppressed }

/-- The offset of a jump counts from the instruction after it. -/
def jumpOffset (pos target : Nat) : Int64 := Int64.ofNat target - (Int64.ofNat pos + 1)

/-- Directs a jump to its target; a target at the end of the stream is a label
there. -/
def patchJump (d : Draft) (pos target : Nat) : Draft :=
  let d := d.setArg pos 1 (jumpOffset pos target)
  if target = d.code.size then d.suppress else d

def beginReturnExpression (d : Draft) : Draft := { d with returnExpression := some d.code.size }

def endReturnExpression (d : Draft) : Draft := { d with returnExpression := none }

def addLine (d : Draft) (line : Nat) (force : Bool) : Draft :=
  if d.lastLine ≠ some line ∨ force = true then
    { d with lines := d.lines.push ⟨line, d.code.size⟩, lastLine := some line }
  else d

/-! ## Literals -/

/-- The index of a literal, entered into the table when it is new. -/
def literal (l : Literal) : Drafting Nat := fun d =>
  match d.literalIndex[l.key]? with
  | some i => (.ok i, d)
  | none =>
    if maxLiterals ≤ d.literals.size then (.error .tooManyLiterals, d)
    else
      let i := d.literals.size
      (.ok i, { d with literals := d.literals.push l, literalIndex := d.literalIndex.insert l.key i })

/-! ## Registers -/

/-- Takes the next register, within the limit of the frame. -/
def pushSlot (name : Option String) : Drafting Nat := fun d =>
  let pos := d.slots.size
  if d.stackSize < pos + 1 ∧ maxStackSize < pos + 1 then (.error .tooManyLocals, d)
  else
    (.ok pos,
      { d with
        slots := d.slots.push { name, pos, startOp := d.code.size }
        stackSize := max d.stackSize (pos + 1) })

def allocate : Drafting Nat := pushSlot none

def pushLocal (name : String) : Drafting Nat := pushSlot (some name)

/-- Ends the topmost slot; a named local is recorded with its range. -/
def retireTop (d : Draft) : Draft :=
  match d.slots.back? with
  | none => d
  | some s =>
    let d := { d with slots := d.slots.pop }
    match s.name with
    | none => d
    | some name =>
      { d with
        escapedCount := if s.escaped then d.escapedCount - 1 else d.escapedCount
        retired := d.retired.push ⟨name, s.pos, s.startOp, d.lastPos.getD 0⟩ }

def retireMany : Nat → Draft → Draft
  | 0, d => d
  | n + 1, d => retireMany n d.retireTop

/-- Ends all slots from a height on. -/
def setStackSize (d : Draft) (n : Nat) : Draft := retireMany (d.slots.size - n) d

def pushTarget (target : Option Nat) : Drafting Nat := fun d =>
  match target with
  | some pos => (.ok pos, { d with targets := pos :: d.targets })
  | none =>
    match allocate d with
    | (.ok pos, d) => (.ok pos, { d with targets := pos :: d.targets })
    | (.error e, d) => (.error e, d)

/-- Releases the innermost target; a temporary must be the topmost register. The
target is gone even when that fails. -/
def popTarget : Drafting Nat := fun d =>
  match d.targets with
  | [] => (.error .unbalancedTargets, d)
  | pos :: rest =>
    let d := { d with targets := rest }
    match d.slots[pos]? with
    | none => (.error .unbalancedTargets, d)
    | some s =>
      if s.name.isSome then (.ok pos, d)
      else if pos + 1 = d.slots.size then (.ok pos, { d with slots := d.slots.pop })
      else (.error .unbalancedTargets, d)

def topTarget (d : Draft) : Except BuildError Nat :=
  match d.targets with
  | [] => .error .unbalancedTargets
  | pos :: _ => .ok pos

/-- The target `n` levels out. -/
def outerTarget (d : Draft) (n : Nat) : Except BuildError Nat :=
  match d.targets[n]? with
  | none => .error .unbalancedTargets
  | some pos => .ok pos

/-- The captured slots from a height on. -/
def countEscaped (d : Draft) (n : Nat) : Nat := (d.slots.toList.drop n).countP (·.escaped)

/-- The innermost local of a name. -/
def localPos? (d : Draft) (name : String) : Option Nat :=
  (d.slots.toList.reverse.find? fun (s : Slot) => s.name == some name).map (·.pos)

def markEscaped (d : Draft) (pos : Nat) : Draft :=
  match d.slots[pos]? with
  | none => d
  | some s =>
    if s.escaped then d
    else
      { d with
        slots := d.slots.setIfInBounds pos { s with escaped := true }
        escapedCount := d.escapedCount + 1 }

def captureIndex? (d : Draft) (name : String) : Option Nat :=
  d.outers.toList.findIdx? fun (c : Capture) => c.name == name

def addParameter (name : String) : Drafting Nat := fun d =>
  match pushLocal name d with
  | (.ok pos, d) => (.ok pos, { d with parameters := d.parameters ++ [name] })
  | (.error e, d) => (.error e, d)

def addDefault (d : Draft) (register : Nat) : Draft :=
  { d with defaults := d.defaults.push (Int64.ofNat register) }

/-! ## Loops -/

def beginLoop (d : Draft) : Draft := { d with loops := {} :: d.loops }.suppress

/-- Appends a jump that waits for its target. -/
def pendingJump (d : Draft) : Draft :=
  { d with code := d.code.push { opcode := .jump }, state := .armed }

def addBreak : Drafting Unit := fun d =>
  match d.loops with
  | [] => (.error (.notInLoop "break"), d)
  | l :: rest =>
    (.ok (), { d with loops := { l with breaks := l.breaks ++ [d.code.size] } :: rest }.pendingJump)

def addContinue : Drafting Unit := fun d =>
  match d.loops with
  | [] => (.error (.notInLoop "continue"), d)
  | l :: rest =>
    (.ok (),
      { d with loops := { l with continues := l.continues ++ [d.code.size] } :: rest }.pendingJump)

/-- Directs the waiting jumps: breaks to the end of the stream, continues to the
given place. -/
def endLoop (continueTo : Nat) : Drafting Unit := fun d =>
  match d.loops with
  | [] => (.error (.notInLoop "loop end"), d)
  | l :: rest =>
    let finish := d.code.size
    let d := { d with loops := rest }
    let d := l.breaks.foldl (fun (d : Draft) (pos : Nat) => d.patchJump pos finish) d
    (.ok (), l.continues.foldl (fun (d : Draft) (pos : Nat) => d.patchJump pos continueTo) d)

/-! ## The finished function -/

/-- The range of a local that is still in use ends with the stream. -/
def openLocal? (d : Draft) (s : Slot) : Option LocalInfo :=
  s.name.map fun (name : String) => ⟨name, s.pos, s.startOp, d.lastPos.getD 0⟩

def build (d : Draft) : Prototype where
  name := d.name
  source := d.source
  code := d.code
  literals := d.literals
  parameters := d.parameters
  functions := d.functions.toList
  outers := d.outers.toList
  defaults := d.defaults.toList
  locals := d.retired.toList ++ d.slots.toList.filterMap d.openLocal?
  lines := d.lines
  stackSize := d.stackSize
  varargs := d.varargs

end Draft

end ScriptMachine
