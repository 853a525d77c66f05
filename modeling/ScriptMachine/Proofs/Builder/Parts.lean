import ScriptMachine.Proofs.Builder.Operations

/-!
# Parts of a draft

Each operation on a draft concerns one part of it: the stream, the registers, the table
of literals, the table of lines, or what ties the function to the functions around it.
All other parts stay as they are.
-/

set_option autoImplicit false

namespace ScriptMachine.Draft

inductive Part where
  /-- The instructions, and what decides how the next one is appended. -/
  | stream
  /-- The registers in use and those that were left, with the targets among them. -/
  | registers
  | literals
  | lines
  /-- What the function has from others and gives to them. -/
  | ties
  deriving DecidableEq

/-- A draft with one part taken from another. -/
def Part.graft (d d' : Draft) : Part → Draft
  | .stream => { d with
      code := d'.code
      state := d'.state
      optimize := d'.optimize
      returnExpression := d'.returnExpression
      loops := d'.loops }
  | .registers => { d with
      slots := d'.slots
      stackSize := d'.stackSize
      retired := d'.retired
      escapedCount := d'.escapedCount
      targets := d'.targets
      parameters := d'.parameters }
  | .literals => { d with literals := d'.literals, literalIndex := d'.literalIndex }
  | .lines => { d with lines := d'.lines, lastLine := d'.lastLine }
  | .ties => { d with
      functions := d'.functions
      outers := d'.outers
      defaults := d'.defaults
      varargs := d'.varargs
      source := d'.source }

/-- The part that an operation concerns. -/
def Op.part : Op → Part
  | .emit _ | .optimization _ | .suppress | .setArgs .. | .setArg .. | .patchJump .. | .beginLoop
  | .addBreak | .addContinue | .endLoop _ | .beginReturnExpression | .endReturnExpression => .stream
  | .allocate | .pushLocal _ | .addParameter _ | .pushTarget _ | .popTarget | .setStackSize _
  | .markEscaped _ => .registers
  | .literal _ => .literals
  | .addLine _ _ => .lines
  | .addDefault _ | .capture _ | .addFunction _ | .setVarargs _ | .setSource _ => .ties

/-- No other part has changed. -/
def Confined (p : Part) (d d' : Draft) : Prop := d' = p.graft d d'

namespace Confined

variable {p : Part} {d d' d'' : Draft}

theorem refl (p : Part) (d : Draft) : Confined p d d := by
  cases p <;> rfl

theorem trans (h : Confined p d d') (h' : Confined p d' d'') : Confined p d d'' := by
  unfold Confined at *
  rw [h] at h'
  cases p <;> exact h'

theorem lines (h : Confined p d d') (hp : p ≠ .lines) :
    d'.lines = d.lines ∧ d'.lastLine = d.lastLine := by
  rw [h]
  cases p <;> first | exact ⟨rfl, rfl⟩ | exact absurd rfl hp

theorem registers (h : Confined p d d') (hp : p ≠ .registers) :
    d'.slots = d.slots ∧ d'.retired = d.retired ∧ d'.escapedCount = d.escapedCount := by
  rw [h]
  cases p <;> first | exact ⟨rfl, rfl, rfl⟩ | exact absurd rfl hp

theorem frame (h : Confined p d d') (hp : p ≠ .registers) :
    d'.stackSize = d.stackSize ∧ d'.targets = d.targets := by
  rw [h]
  cases p <;> first | exact ⟨rfl, rfl⟩ | exact absurd rfl hp

theorem literals (h : Confined p d d') (hp : p ≠ .literals) :
    d'.literals = d.literals ∧ d'.literalIndex = d.literalIndex := by
  rw [h]
  cases p <;> first | exact ⟨rfl, rfl⟩ | exact absurd rfl hp

theorem stream (h : Confined p d d') (hp : p ≠ .stream) : SameStream d d' := by
  rw [h]
  cases p <;> first | exact ⟨rfl, rfl, rfl⟩ | exact absurd rfl hp

/-! ## Operations on the stream -/

theorem emit (nested : Bool) (d : Draft) (i : Instruction) :
    Confined .stream d (d.emit nested i) := by
  unfold Draft.emit
  split
  · unfold emitFused
    cases fuse d.code.back? i d.state (d.fusionContext nested) <;> rfl
  · rfl

theorem patchJump (d : Draft) (pos target : Nat) : Confined .stream d (d.patchJump pos target) := by
  unfold Draft.patchJump
  dsimp only
  split <;> rfl

theorem patchJumps (d : Draft) (ps : List Nat) (target : Nat) :
    Confined .stream d (ps.foldl (fun (d : Draft) (pos : Nat) => d.patchJump pos target) d) := by
  induction ps generalizing d with
  | nil => exact refl _ d
  | cons p ps ih => exact (patchJump d p target).trans (ih _)

theorem addBreak (d : Draft) : Confined .stream d d.addBreak.2 := by
  unfold Draft.addBreak
  split <;> rfl

theorem addContinue (d : Draft) : Confined .stream d d.addContinue.2 := by
  unfold Draft.addContinue
  split <;> rfl

theorem endLoop (d : Draft) (continueTo : Nat) : Confined .stream d (d.endLoop continueTo).2 := by
  unfold Draft.endLoop
  split
  · rfl
  · rename_i l rest _
    have hpop : Confined .stream d { d with loops := rest } := rfl
    exact hpop.trans ((patchJumps _ _ _).trans (patchJumps _ _ _))

/-! ## Operations on the registers -/

theorem pushSlot (name : Option String) (d : Draft) : Confined .registers d (d.pushSlot name).2 := by
  rcases pushSlot_cases name d with heq | heq <;> rw [heq]
  · exact refl _ d
  · rfl

theorem addParameter (name : String) (d : Draft) :
    Confined .registers d (d.addParameter name).2 := by
  obtain ⟨parameters, heq⟩ := addParameter_eq name d
  rw [heq]
  exact (pushSlot (some name) d).trans rfl

theorem pushTarget (target : Option Nat) (d : Draft) :
    Confined .registers d (d.pushTarget target).2 := by
  cases target with
  | some pos => rfl
  | none =>
    obtain ⟨targets, heq⟩ := pushTarget_eq d
    rw [heq]
    exact (pushSlot none d).trans rfl

theorem popTarget (d : Draft) : Confined .registers d d.popTarget.2 := by
  obtain ⟨targets, heq | ⟨s, -, -, heq⟩⟩ := popTarget_cases d <;> rw [heq] <;> rfl

theorem retireTop (d : Draft) : Confined .registers d d.retireTop := by
  unfold Draft.retireTop
  split
  · rfl
  · dsimp only
    split <;> rfl

theorem retireMany (n : Nat) (d : Draft) : Confined .registers d (d.retireMany n) := by
  induction n generalizing d with
  | zero => exact refl _ d
  | succ n ih => exact (retireTop d).trans (ih d.retireTop)

theorem markEscaped (pos : Nat) (d : Draft) : Confined .registers d (d.markEscaped pos) := by
  rcases markEscaped_cases d pos with heq | ⟨s, -, -, heq⟩ <;> rw [heq]
  · exact refl _ d
  · rfl

/-! ## Tables -/

theorem literal (l : Literal) (d : Draft) : Confined .literals d (d.literal l).2 := by
  unfold Draft.literal
  split
  · rfl
  · split <;> rfl

theorem addLine (line : Nat) (force : Bool) (d : Draft) :
    Confined .lines d (d.addLine line force) := by
  unfold Draft.addLine
  split <;> rfl

end Confined

/-- An operation changes the part that it concerns and no other. -/
theorem confined_step (nested : Bool) (d : Draft) (o : Op) :
    Confined o.part d (d.step nested o) := by
  cases o with
  | emit i => exact .emit nested d i
  | patchJump pos target => exact .patchJump d pos target
  | addBreak => exact .addBreak d
  | addContinue => exact .addContinue d
  | endLoop continueTo => exact .endLoop d continueTo
  | allocate => exact .pushSlot none d
  | pushLocal name => exact .pushSlot (some name) d
  | addParameter name => exact .addParameter name d
  | pushTarget target => exact .pushTarget target d
  | popTarget => exact .popTarget d
  | setStackSize n => exact .retireMany _ d
  | markEscaped pos => exact .markEscaped pos d
  | literal l => exact .literal l d
  | addLine line force => exact .addLine line force d
  | optimization | suppress | setArgs | setArg | beginLoop | beginReturnExpression
  | endReturnExpression | addDefault | capture | addFunction | setVarargs | setSource => rfl

end ScriptMachine.Draft
