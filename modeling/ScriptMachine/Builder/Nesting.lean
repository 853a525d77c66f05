import ScriptMachine.Builder.Draft

/-!
# Nested drafts

A builder holds the draft being worked on and the drafts around it. A name that
is not local may be captured from the nearest enclosing function that has it,
through every function in between.
-/

set_option autoImplicit false

namespace ScriptMachine

structure Builder where
  current : Draft
  /-- The enclosing drafts, the nearest first. -/
  enclosing : List Draft := []

namespace Builder

def ofName (name : String) : Builder := { current := { name } }

def nested (b : Builder) : Bool := !b.enclosing.isEmpty

def emit (b : Builder) (i : Instruction) : Builder :=
  { b with current := b.current.emit b.nested i }

def update (b : Builder) (f : Draft → Draft) : Builder := { b with current := f b.current }

/-- Runs an operation of the current draft. -/
def drafting {α : Type} (b : Builder) (f : Drafting α) : Except BuildError α × Builder :=
  let (r, d) := f b.current
  (r, { b with current := d })

/-- Starts a function inside the current one, in the same source. -/
def pushChild (b : Builder) (name : String) : Builder :=
  { current := { name, source := b.current.source }, enclosing := b.current :: b.enclosing }

/-- Finishes the current function and hands it to the enclosing one. -/
def popChild (b : Builder) : Except BuildError (Nat × Builder) :=
  match b.enclosing with
  | [] => .error .noParent
  | parent :: rest =>
    .ok (parent.functions.size,
      { current := { parent with functions := parent.functions.push b.current.build }
        enclosing := rest })

def addCapture (d : Draft) (c : Capture) : Nat × Draft :=
  (d.outers.size, { d with outers := d.outers.push c })

/-- Finds a name for a function among the functions around it, the nearest
first, and records the way to it; nothing changes when no one has it. -/
def resolve (name : String) : Draft → List Draft → Option (Nat × Draft × List Draft)
  | d, enclosing =>
    match d.captureIndex? name with
    | some i => some (i, d, enclosing)
    | none =>
      match enclosing with
      | [] => none
      | parent :: rest =>
        match parent.localPos? name with
        | some pos =>
          let (i, d) := addCapture d ⟨name, .register, pos⟩
          some (i, d, parent.markEscaped pos :: rest)
        | none =>
          match resolve name parent rest with
          | none => none
          | some (index, parent, rest) =>
            let (i, d) := addCapture d ⟨name, .outer, index⟩
            some (i, d, parent :: rest)

def outerVariable (b : Builder) (name : String) : Option Nat × Builder :=
  match resolve name b.current b.enclosing with
  | none => (none, b)
  | some (i, d, enclosing) => (some i, ⟨d, enclosing⟩)

end Builder

end ScriptMachine
