import ScriptMachine.Machine.Members

/-!
# Iteration

One step of a walk over a container. Three registers hold the key, the value and
where the walk stands: the next index of an array or a string, the last key of a
dict, what `_next` returned last for an instance.
-/

set_option autoImplicit false

namespace ScriptMachine.Exec

/-- What a step delivers. -/
structure Visit where
  key : Value
  value : Value
  state : Value

/-- A step by index; the items are lent. -/
def indexedVisit (item? : Int64 → Option Value) (state : Value) : Option Visit :=
  let index := state.asInteger?.getD 0
  (item? index).map fun (v : Value) => ⟨.integer index, v, .integer (index + 1)⟩

/-- A step of an instance; the references are the caller's. -/
def instanceVisit (call : Caller) (container state : Value) : Exec (Option Visit) := do
  match ← readHeap fun (h : Heap) => h.metaOf? container .next with
  | none => fail (.typeError "instance has no '_next' metamethod")
  | some m =>
    holding [m] do
      retainAll [container, state]
      let key ← call m [container, state]
      if key.isNull then return none
      else
        let v ← handing key (getMember call container key)
        retain key
        return some ⟨key, v, key⟩

/-- Takes a share in what a step delivers. -/
def sharingVisit (visit : Option Visit) : Exec (Option Visit) := do
  match visit with
  | none => return none
  | some s =>
    retainAll [s.key, s.value, s.state]
    return visit

/-- The next step, or none at the end. -/
def nextVisit (call : Caller) (container state : Value) : Exec (Option Visit) := do
  match container with
  | .array r =>
    let items ← readHeap fun (h : Heap) => h.items r
    sharingVisit (indexedVisit
      (fun (i : Int64) => (Heap.position? i items.size).bind fun (i : Nat) => items[i]?) state)
  | .string s => sharingVisit (indexedVisit (Heap.byteAt? s.chars) state)
  | .dict r =>
    let entries ← readHeap fun (h : Heap) => h.entries r
    sharingVisit ((entries.next? state.asString?).map fun (e : Entry) =>
      ⟨.string e.1, e.2, .string e.1⟩)
  | .instanceObject _ => instanceVisit call container state
  | other => fail (.typeError ("cannot iterate '" ++ other.typeName ++ "'"))

/-- Moves on to the next item, or jumps at the end. -/
def foreachInstruction (call : Caller) (base : Nat) (i : Instruction) : Exec Unit := do
  let container ← register base i.arg0
  let state ← register base (i.arg2 + 2)
  holding [container] do
    match ← nextVisit call container state with
    | none => jump i.arg1
    | some s =>
      handing s.state do
        handing s.value do
          setRegister base i.arg2 s.key
        setRegister base (i.arg2 + 1) s.value
      setRegister base (i.arg2 + 2) s.state

end ScriptMachine.Exec
