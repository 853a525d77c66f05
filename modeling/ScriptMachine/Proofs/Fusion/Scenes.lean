import Mathlib.Logic.Function.Basic
import ScriptMachine.Proofs.Fusion.Actions

/-!
# Straight-line code

A scene is what the instructions of one frame work on: their registers, and the
world of objects and captured variables outside. What the operations do to that
world is left open; they see their operands and the world, and of the frame only
what it has captured. A literal is the same value each time it is loaded, and how
long an object lives is no part of a scene.
-/

set_option autoImplicit false

namespace ScriptMachine

/-- The objects, in whatever form, and the captured variables. -/
structure World (H : Type) where
  objects : H
  cells : Ref → Value
  nextCell : Nat

/-- An operation on the world, which it may leave changed when it fails. -/
abbrev Deed (H α : Type) : Type := EStateM ScriptError (World H) α

/-- What the running function refers to, and how the operations behave. -/
structure Operations (H : Type) where
  literal : Int64 → Value
  nested : Int64 → Prototype
  outer : Nat → Ref
  root : Ref
  ownerBase : Deed H Value
  getMember : Value → Value → Deed H Value
  setMember : Value → Value → Value → Deed H Unit
  newSlot : Value → Value → Value → Deed H Unit
  newMember : Ref → Value → Value → Value → Bool → Deed H Unit
  deleteSlot : Value → Value → Deed H Value
  hasMember : Value → Value → Deed H Bool
  arith : ArithOp → Value → Value → Deed H Value
  negate : Value → Deed H Value
  compare : Value → Value → Deed H Ordering
  typeOf : Value → Deed H Value
  instanceOf : Value → Value → Deed H Bool
  copy : Value → Deed H Value
  pushItem : Ref → Value → Deed H Unit
  visit : Value → Value → Deed H (Option Exec.Visit)
  /-- A new object of a kind, with a base and attributes. -/
  newObject : Int64 → Value → Value → Deed H Value
  /-- A closure with its captured variables and default values. -/
  closure : Prototype → List Ref → List Value → Deed H Value
  call : Value → List Value → Deed H Value

/-- How straight-line code ends before its end. -/
inductive Exit where
  | jumped (offset : Int64)
  | returned (v : Value)

structure Scene (H : Type) where
  world : World H
  registers : Int64 → Value
  /-- The variables that captured registers are kept in. -/
  cellOf : Int64 → Option Ref
  exit : Option Exit := none

/-- An action of straight-line code; its effects stay when it fails. -/
abbrev Play (H α : Type) : Type := EStateM ScriptError (Scene H) α

/-- The registers of a run. -/
def registerRun (start count : Int64) : List Int64 :=
  (List.range count.toInt.toNat).map fun (k : Nat) => start + Int64.ofNat k

namespace Scene

variable {H : Type}

def writeCell (σ : Scene H) (c : Ref) (v : Value) : Scene H :=
  { σ with world := { σ.world with cells := Function.update σ.world.cells c v } }

def read (σ : Scene H) (r : Int64) : Value :=
  match σ.cellOf r with
  | some c => σ.world.cells c
  | none => σ.registers r

def write (σ : Scene H) (r : Int64) (v : Value) : Scene H :=
  match σ.cellOf r with
  | some c => σ.writeCell c v
  | none => { σ with registers := Function.update σ.registers r v }

def clear (σ : Scene H) (rs : List Int64) : Scene H :=
  rs.foldl (fun (σ : Scene H) (r : Int64) => σ.write r .null) σ

/-- The variable of a register, made when it has none. -/
def capture (σ : Scene H) (r : Int64) : Ref × Scene H :=
  match σ.cellOf r with
  | some c => (c, σ)
  | none =>
    let c : Ref := ⟨σ.world.nextCell⟩
    (c, { σ with
      world := { σ.world with
        cells := Function.update σ.world.cells c (σ.registers r)
        nextCell := σ.world.nextCell + 1 }
      cellOf := Function.update σ.cellOf r (some c) })

/-- From a register on, the frame has its values for itself again. -/
def close (σ : Scene H) (start : Int64) : Scene H :=
  { σ with
    registers := fun (r : Int64) => if start ≤ r then σ.read r else σ.registers r
    cellOf := fun (r : Int64) => if start ≤ r then none else σ.cellOf r }

@[simp] theorem exit_write (σ : Scene H) (r : Int64) (v : Value) : (σ.write r v).exit = σ.exit := by
  unfold write
  split <;> rfl

@[simp] theorem cellOf_write (σ : Scene H) (r : Int64) (v : Value) :
    (σ.write r v).cellOf = σ.cellOf := by
  unfold write
  split <;> rfl

@[simp] theorem read_write (σ : Scene H) (r : Int64) (v : Value) : (σ.write r v).read r = v := by
  unfold write
  cases hc : σ.cellOf r with
  | some c => simp [read, writeCell, hc]
  | none => simp [read, hc]

/-- Writing a register back changes nothing. -/
@[simp] theorem write_read (σ : Scene H) (r : Int64) : σ.write r (σ.read r) = σ := by
  unfold write read
  cases hc : σ.cellOf r with
  | some c => simp [writeCell]
  | none => simp

theorem read_writeCell (σ : Scene H) (c : Ref) (r : Int64) :
    (σ.writeCell c (σ.read r)).read r = σ.read r := by
  unfold writeCell read
  cases hr : σ.cellOf r with
  | none => rfl
  | some d =>
    by_cases hd : d = c
    · subst hd
      simp
    · simp [Function.update_of_ne hd]

@[simp] theorem exit_clear (σ : Scene H) (rs : List Int64) : (σ.clear rs).exit = σ.exit := by
  induction rs generalizing σ with
  | nil => rfl
  | cons r rs ih => exact (ih _).trans (σ.exit_write r .null)

theorem clear_append (σ : Scene H) (rs ss : List Int64) :
    σ.clear (rs ++ ss) = (σ.clear rs).clear ss := List.foldl_append

theorem read_close (σ : Scene H) (start r : Int64) : (σ.close start).read r = σ.read r := by
  by_cases h : start ≤ r
  · simp [close, read, h]
  · simp [close, read, h]

/-- Nothing is left of the registers. -/
def leave (σ : Scene H) (v : Value) : Scene H :=
  { σ with registers := fun _ => .null, cellOf := fun _ => none, exit := some (.returned v) }

end Scene

namespace Play

variable {H : Type}

/-- An operation leaves the frame alone. -/
def onWorld {α : Type} (act : Deed H α) : Play H α := fun σ =>
  match act σ.world with
  | .ok a w => .ok a { σ with world := w }
  | .error e w => .error e { σ with world := w }

theorem onWorld_ok {α : Type} {act : Deed H α} {σ : Scene H} {a : α} {w : World H}
    (h : act σ.world = .ok a w) : onWorld act σ = .ok a { σ with world := w } := by
  simp only [onWorld, h]

theorem onWorld_error {α : Type} {act : Deed H α} {σ : Scene H} {e : ScriptError} {w : World H}
    (h : act σ.world = .error e w) : onWorld act σ = .error e { σ with world := w } := by
  simp only [onWorld, h]

def register (r : Int64) : Play H Value := return (← get).read r

def setRegister (r : Int64) (v : Value) : Play H Unit := modify (·.write r v)

def optionalRegister (r : Int64) : Play H Value := if isPresent r then register r else pure .null

def setOptional (r : Int64) (v : Value) : Play H Unit :=
  if isPresent r then setRegister r v else pure ()

def readAll : List Int64 → Play H (List Value)
  | [] => pure []
  | r :: rest => return (← register r) :: (← readAll rest)

def jump (offset : Int64) : Play H Unit :=
  modify fun (σ : Scene H) => { σ with exit := some (.jumped offset) }

def leave (v : Value) : Play H Unit := modify (·.leave v)

theorem bind_ok {α β : Type} {x : Play H α} {σ τ : Scene H} {a : α} (hx : x σ = .ok a τ)
    (f : α → Play H β) : (x >>= f) σ = f a τ := by
  show EStateM.bind x f σ = _
  simp only [EStateM.bind, hx]

theorem bind_error {α β : Type} {x : Play H α} {σ τ : Scene H} {e : ScriptError}
    (hx : x σ = .error e τ) (f : α → Play H β) : (x >>= f) σ = .error e τ := by
  show EStateM.bind x f σ = _
  simp only [EStateM.bind, hx]

/-- Goes on unless the code has jumped or returned. -/
def andThen (x y : Play H Unit) : Play H Unit := do
  x
  if (← get).exit.isSome then pure () else y

theorem andThen_ok {x : Play H Unit} {σ τ : Scene H} (hx : x σ = .ok () τ) (hτ : τ.exit = none)
    (y : Play H Unit) : x.andThen y σ = y τ := by
  refine (bind_ok hx _).trans ?_
  show (if τ.exit.isSome then pure () else y) τ = _
  simp [hτ]

theorem andThen_exit {x : Play H Unit} {σ τ : Scene H} (hx : x σ = .ok () τ)
    (hτ : τ.exit.isSome = true) (y : Play H Unit) : x.andThen y σ = .ok () τ := by
  refine (bind_ok hx _).trans ?_
  show (if τ.exit.isSome then pure () else y) τ = _
  simp only [hτ, if_true]
  rfl

theorem andThen_error {x : Play H Unit} {σ τ : Scene H} {e : ScriptError} (hx : x σ = .error e τ)
    (y : Play H Unit) : x.andThen y σ = .error e τ := bind_error hx _

theorem andThen_pure (x : Play H Unit) : x.andThen (pure ()) = x := by
  funext σ
  cases hx : x σ with
  | ok a τ =>
    cases hτ : τ.exit with
    | none => exact andThen_ok hx hτ _
    | some _ => exact andThen_exit hx (by simp [hτ]) _
  | error e τ => exact andThen_error hx _

theorem andThen_assoc (x y z : Play H Unit) : (x.andThen y).andThen z = x.andThen (y.andThen z) := by
  funext σ
  cases hx : x σ with
  | ok a τ =>
    cases hτ : τ.exit with
    | none =>
      rw [andThen_ok hx hτ]
      have hxy : x.andThen y σ = y τ := andThen_ok hx hτ y
      cases hy : y τ with
      | ok b υ =>
        cases hυ : υ.exit with
        | none => rw [andThen_ok (hxy.trans hy) hυ, andThen_ok hy hυ]
        | some _ =>
          rw [andThen_exit (hxy.trans hy) (by simp [hυ]), andThen_exit hy (by simp [hυ])]
      | error e υ => rw [andThen_error (hxy.trans hy), andThen_error hy]
    | some _ =>
      have hexit : τ.exit.isSome = true := by simp [hτ]
      rw [andThen_exit hx hexit, andThen_exit (andThen_exit hx hexit y) hexit]
  | error e τ => rw [andThen_error hx, andThen_error (andThen_error hx y)]

end Play

namespace Operations

variable {H : Type} (o : Operations H)

open Play

def makeObject (i : Instruction) : Play H Unit := do
  let parent ← if ObjectKind.ofCode? i.arg3 = some .classObject then optionalRegister i.arg1
    else pure .null
  let attributes ← if ObjectKind.ofCode? i.arg3 = some .classObject then optionalRegister i.arg2
    else pure .null
  setRegister i.arg0 (← onWorld (o.newObject i.arg3 parent attributes))

def capture (c : Capture) : Play H Ref :=
  match c.kind with
  | .register => modifyGet fun (σ : Scene H) => σ.capture (Int64.ofNat c.index)
  | .outer => pure (o.outer c.index)

def captureAll : List Capture → Play H (List Ref)
  | [] => pure []
  | c :: rest => return (← o.capture c) :: (← captureAll rest)

def makeClosure (i : Instruction) : Play H Unit := do
  let p := o.nested i.arg1
  let cells ← o.captureAll p.outers
  let defaults ← readAll p.defaults
  setRegister i.arg0 (← onWorld (o.closure p cells defaults))

def callResult (i : Instruction) (callee : Value) : Play H Value := do
  let args ← readAll (registerRun i.arg2 i.arg3)
  onWorld (o.call callee args)

def callNow (i : Instruction) : Play H Unit := do
  setOptional i.arg0 (← o.callResult i (← register i.arg1))

/-- The result of a script function is the result of the caller. -/
def callLast (i : Instruction) : Play H Unit := do
  match ← register i.arg1 with
  | .closure c => leave (← o.callResult i (.closure c))
  | callee => setOptional i.arg0 (← o.callResult i callee)

def actions : Actions (Play H) where
  register := register
  setRegister := setRegister
  clear start count := modify (·.clear (registerRun start count))
  outerCell index := pure (o.outer index.toInt.toNat)
  readOuter c := return (← get).world.cells c
  writeOuter c v := modify (·.writeCell c v)
  close start := modify (·.close start)
  literal index := pure (o.literal index)
  root := pure o.root
  jump := jump
  fail := throw
  ofExcept x := match x with
    | .ok v => pure v
    | .error e => throw e
  retain _ := pure ()
  retainAll _ := pure ()
  release _ := pure ()
  holding _ act := act
  owning _ act := act
  handing _ act := act
  getMember obj key := onWorld (o.getMember obj key)
  setMember obj key v := onWorld (o.setMember obj key v)
  newSlot obj key v := onWorld (o.newSlot obj key v)
  newMember c key v attributes isStatic := onWorld (o.newMember c key v attributes isStatic)
  deleteSlot obj key := onWorld (o.deleteSlot obj key)
  hasMember obj key := onWorld (o.hasMember obj key)
  arith op x y := onWorld (o.arith op x y)
  negate v := onWorld (o.negate v)
  compare x y := onWorld (o.compare x y)
  typeOf v := onWorld (o.typeOf v)
  instanceOf cls obj := onWorld (o.instanceOf cls obj)
  ownerBase := onWorld o.ownerBase
  copy v := onWorld (o.copy v)
  pushItem r v := onWorld (o.pushItem r v)
  visit container state := onWorld (o.visit container state)
  newObject := o.makeObject
  closure := o.makeClosure
  call := o.callNow
  tailCall := o.callLast

/-- One instruction; a return leaves the frame with its value. -/
def play (i : Instruction) : Play H Unit :=
  if i.opcode = .ret then do leave (← optionalRegister i.arg0) else o.actions.effect i

/-- Instructions in order, up to the first jump or return. -/
def playAll : List Instruction → Play H Unit
  | [] => pure ()
  | i :: rest => (o.play i).andThen (playAll rest)

theorem playAll_singleton (i : Instruction) : o.playAll [i] = o.play i := andThen_pure _

theorem playAll_append {σ : Scene H} (hσ : σ.exit = none) (is js : List Instruction) :
    o.playAll (is ++ js) σ = (o.playAll is).andThen (o.playAll js) σ := by
  induction is generalizing σ with
  | nil => exact (andThen_ok rfl hσ _).symm
  | cons i is ih =>
    simp only [List.cons_append, playAll]
    rw [andThen_assoc]
    cases hi : o.play i σ with
    | ok a τ =>
      cases hτ : τ.exit with
      | none => rw [andThen_ok hi hτ, andThen_ok hi hτ, ih hτ]
      | some _ => rw [andThen_exit hi (by simp [hτ]), andThen_exit hi (by simp [hτ])]
    | error e τ => rw [andThen_error hi, andThen_error hi]

end Operations

end ScriptMachine
