import ScriptMachine.Builder.Nesting

/-!
# Sequences of operations on a draft

What can happen to one function while it is being built, as data, and what the
requests for registers can do to it. Few of the operations concern the instruction
stream; the others leave it alone.
-/

set_option autoImplicit false

namespace ScriptMachine.Draft

/-- An operation on the function being built. An answer or a refusal is left out:
what counts is the draft afterwards. -/
inductive Op where
  | emit (i : Instruction)
  | optimization (on : Bool)
  | suppress
  | setArgs (pos : Nat) (a b c e : Int64)
  | setArg (pos arg : Nat) (v : Int64)
  | patchJump (pos target : Nat)
  | beginLoop
  | addBreak
  | addContinue
  | endLoop (continueTo : Nat)
  | beginReturnExpression
  | endReturnExpression
  | addLine (line : Nat) (force : Bool)
  | literal (l : Literal)
  | allocate
  | pushLocal (name : String)
  | addParameter (name : String)
  | addDefault (register : Nat)
  | pushTarget (target : Option Nat)
  | popTarget
  | setStackSize (n : Nat)
  /-- A nested function captures a register. -/
  | markEscaped (pos : Nat)
  | capture (c : Capture)
  /-- A nested function is finished. -/
  | addFunction (p : Prototype)
  | setVarargs (on : Bool)
  | setSource (source : String)

/-- The draft after an operation. -/
def step (nested : Bool) (d : Draft) : Op → Draft
  | .emit i => d.emit nested i
  | .optimization on => { d with optimize := on }
  | .suppress => d.suppress
  | .setArgs pos a b c e => d.setArgs pos a b c e
  | .setArg pos arg v => d.setArg pos arg v
  | .patchJump pos target => d.patchJump pos target
  | .beginLoop => d.beginLoop
  | .addBreak => (d.addBreak).2
  | .addContinue => (d.addContinue).2
  | .endLoop continueTo => (d.endLoop continueTo).2
  | .beginReturnExpression => d.beginReturnExpression
  | .endReturnExpression => d.endReturnExpression
  | .addLine line force => d.addLine line force
  | .literal l => (d.literal l).2
  | .allocate => (d.allocate).2
  | .pushLocal name => (d.pushLocal name).2
  | .addParameter name => (d.addParameter name).2
  | .addDefault register => d.addDefault register
  | .pushTarget target => (d.pushTarget target).2
  | .popTarget => (d.popTarget).2
  | .setStackSize n => d.setStackSize n
  | .markEscaped pos => d.markEscaped pos
  | .capture c => (Builder.addCapture d c).2
  | .addFunction p => { d with functions := d.functions.push p }
  | .setVarargs on => { d with varargs := on }
  | .setSource source => { d with source }

def run (nested : Bool) (d : Draft) (ops : List Op) : Draft := ops.foldl (step nested) d

section

variable {nested : Bool} {d : Draft} {ops later : List Op} {o : Op}

@[simp] theorem run_nil : d.run nested [] = d := rfl

@[simp] theorem run_cons : d.run nested (o :: ops) = (d.step nested o).run nested ops := rfl

@[simp] theorem run_append :
    d.run nested (ops ++ later) = (d.run nested ops).run nested later := List.foldl_append

end

/-! ## Registers -/

section

variable {d : Draft} {s : Slot}

/-- A request takes the next register, or is refused. -/
theorem pushSlot_cases (name : Option String) (d : Draft) : (d.pushSlot name).2 = d ∨
    (d.pushSlot name).2 = { d with
      slots := d.slots.push { name, pos := d.slots.size, startOp := d.code.size }
      stackSize := max d.stackSize (d.slots.size + 1) } := by
  unfold pushSlot
  dsimp only
  split
  · exact .inl rfl
  · exact .inr rfl

/-- A parameter takes a register as a local does. -/
theorem addParameter_eq (name : String) (d : Draft) : ∃ parameters,
    (d.addParameter name).2 = { (d.pushSlot (some name)).2 with parameters } := by
  unfold addParameter pushLocal
  generalize d.pushSlot (some name) = r
  obtain ⟨r | r, d'⟩ := r <;> exact ⟨_, rfl⟩

/-- A target that is no local takes a register as a temporary does. -/
theorem pushTarget_eq (d : Draft) : ∃ targets,
    (d.pushTarget none).2 = { (d.pushSlot none).2 with targets } := by
  unfold pushTarget allocate
  generalize d.pushSlot none = r
  obtain ⟨r | r, d'⟩ := r <;> exact ⟨_, rfl⟩

/-- Of the registers, only a temporary at the top can go with a target. -/
theorem popTarget_cases (d : Draft) : ∃ targets, d.popTarget.2 = { d with targets } ∨
    ∃ s, d.slots.back? = some s ∧ s.name = none ∧
      d.popTarget.2 = { d with targets, slots := d.slots.pop } := by
  unfold popTarget
  split
  · exact ⟨d.targets, .inl rfl⟩
  · rename_i pos rest _
    refine ⟨rest, ?_⟩
    dsimp only
    cases hs : d.slots[pos]? with
    | none => exact .inl rfl
    | some s =>
      dsimp only
      split
      · exact .inl rfl
      · rename_i hname
        split
        · rename_i htop
          refine .inr ⟨s, ?_, Option.not_isSome_iff_eq_none.1 hname, rfl⟩
          rw [Array.back?_eq_getElem?, ← htop]
          exact hs
        · exact .inl rfl

theorem retireTop_temporary (hback : d.slots.back? = some s) (hname : s.name = none) :
    d.retireTop = { d with slots := d.slots.pop } := by
  simp only [retireTop, hback, hname]

theorem retireTop_named {name : String} (hback : d.slots.back? = some s) (hname : s.name = some name) :
    d.retireTop = { d with
      slots := d.slots.pop
      escapedCount := if s.escaped then d.escapedCount - 1 else d.escapedCount
      retired := d.retired.push ⟨name, s.pos, s.startOp, d.lastPos.getD 0⟩ } := by
  simp only [retireTop, hback, hname]
  rfl

theorem markEscaped_cases (d : Draft) (pos : Nat) : d.markEscaped pos = d ∨
    ∃ s, d.slots[pos]? = some s ∧ s.escaped = false ∧ d.markEscaped pos =
      { d with
        slots := d.slots.setIfInBounds pos { s with escaped := true }
        escapedCount := d.escapedCount + 1 } := by
  unfold markEscaped
  cases hs : d.slots[pos]? with
  | none => exact .inl rfl
  | some s =>
    dsimp only
    split
    · exact .inl rfl
    · rename_i hnot
      exact .inr ⟨s, rfl, Bool.not_eq_true _ ▸ hnot, rfl⟩

end

/-! ## The stream -/

/-- The instruction stream, the state of the emitter and the open loops are the
same. -/
structure SameStream (d d' : Draft) : Prop where
  code : d'.code = d.code
  state : d'.state = d.state
  loops : d'.loops = d.loops

/-- The operation neither appends an instruction nor begins or ends a loop. -/
def Op.Aside : Op → Prop
  | .emit _ | .addBreak | .addContinue | .beginLoop | .endLoop _ => False
  | _ => True

/-- The operation leaves the loop at hand by a jump that waits. -/
def Op.Exits : Op → Prop
  | .addBreak | .addContinue => True
  | _ => False

/-- The operations by what they do to the stream and the loops. -/
@[elab_as_elim]
theorem Op.stream_cases {motive : Op → Prop} (emit : ∀ i, motive (.emit i))
    (exit : ∀ o : Op, o.Exits → motive o)
    (beginLoop : motive .beginLoop) (endLoop : ∀ continueTo, motive (.endLoop continueTo))
    (aside : ∀ o : Op, o.Aside → motive o) (o : Op) : motive o := by
  cases o with
  | emit i => exact emit i
  | addBreak => exact exit _ trivial
  | addContinue => exact exit _ trivial
  | beginLoop => exact beginLoop
  | endLoop continueTo => exact endLoop continueTo
  | _ => exact aside _ trivial

end ScriptMachine.Draft

/-! ## Nested functions -/

namespace ScriptMachine.Builder

/-- An operation on the innermost of nested functions, or one that begins it, finishes it
or takes a name for it from outside. -/
inductive Op where
  | within (o : Draft.Op)
  | pushChild (name : String)
  | popChild
  | outerVariable (name : String)

/-- The functions after an operation. One that is not nested stays, as there is none to
hand it to. -/
def step (b : Builder) : Op → Builder
  | .within o => b.update (·.step b.nested o)
  | .pushChild name => b.pushChild name
  | .popChild =>
    match b.popChild with
    | .ok (_, b') => b'
    | .error _ => b
  | .outerVariable name => (b.outerVariable name).2

def run (b : Builder) (ops : List Op) : Builder := ops.foldl step b

end ScriptMachine.Builder
