import ScriptMachine.Heap.Containers

/-!
# Structure of arrays and dicts

Equality and copying that go into arrays and dicts, cyclic ones included.
-/

set_option autoImplicit false

namespace ScriptMachine.Heap

/-! ## Equality -/

/-- Equality by structure. A pair that is already being compared counts as
equal; the pairs in comparison differ, which bounds the depth. -/
def deepEqualWithin (h : Heap) : Nat → List (Ref × Ref) → Value → Value → Bool
  | 0, _, _, _ => true
  | fuel + 1, visiting, .array x, .array y =>
    if x = y ∨ (x, y) ∈ visiting then true
    else
      let xs := h.items x
      let ys := h.items y
      xs.size == ys.size &&
        (xs.toList.zip ys.toList).all fun (p : Value × Value) =>
          deepEqualWithin h fuel ((x, y) :: visiting) p.1 p.2
  | fuel + 1, visiting, .dict x, .dict y =>
    if x = y ∨ (x, y) ∈ visiting then true
    else
      let xs := (h.entries x).list
      let ys := (h.entries y).list
      xs.length == ys.length &&
        (xs.zip ys).all fun (p : Entry × Entry) =>
          p.1.1.chars == p.2.1.chars && deepEqualWithin h fuel ((x, y) :: visiting) p.1.2 p.2.2
  | _, _, a, b => a.checkEqual b

def deepEqual (h : Heap) (a b : Value) : Bool :=
  h.deepEqualWithin (h.cells.size * h.cells.size + 1) [] a b

/-! ## Copying -/

/-- The copies made so far, by the object copied. -/
abbrev Copies : Type := List (Ref × Ref)

/-- How one value is copied: the copy, the copies made by then, and the heap. -/
abbrev Copier : Type := Value → Copies → Heap → Value × Copies × Heap

def copyItems (copy : Copier) (into : Ref) : List Value → Copies → Heap → Copies × Heap
  | [], copies, h => (copies, h)
  | v :: rest, copies, h =>
    let (w, copies, h) := copy v copies h
    copyItems copy into rest copies (h.pushItem into w)

def copyEntries (copy : Copier) (into : Ref) : List Entry → Copies → Heap → Copies × Heap
  | [], copies, h => (copies, h)
  | (k, v) :: rest, copies, h =>
    let (w, copies, h) := copy v copies h
    copyEntries copy into rest copies ((h.retainRef k.ref).dictInsert into k w)

/-- A copy that shares no array and no dict with what is copied; every
other value stands for itself. The caller gets a reference of its own. A copy is
known before its items are, so cycles close. -/
def copyWithin : Nat → Copier
  | fuel + 1, .array r, copies, h =>
    match copies.lookup r with
    | some c => (.array c, copies, h.retainRef c)
    | none =>
      let (c, h') := h.allocateLinked (.array #[])
      let (copies, h') := copyItems (copyWithin fuel) c (h.items r).toList ((r, c) :: copies) h'
      (.array c, copies, h')
  | fuel + 1, .dict r, copies, h =>
    match copies.lookup r with
    | some c => (.dict c, copies, h.retainRef c)
    | none =>
      let (c, h') := h.allocateLinked (.dict .empty)
      let (copies, h') := copyEntries (copyWithin fuel) c (h.entries r).list ((r, c) :: copies) h'
      (.dict c, copies, h')
  | _, v, copies, h => (v, copies, h.retain v)

/-- Each object is entered once, so the number of objects bounds the depth. -/
def deepCopy (h : Heap) (v : Value) : Value × Heap :=
  let (w, _, h) := copyWithin (h.cells.size + 1) v [] h
  (w, h)

def deepCopyAll (h : Heap) : List Value → List Value × Heap
  | [] => ([], h)
  | v :: rest =>
    let (w, h) := h.deepCopy v
    let (ws, h) := deepCopyAll h rest
    (w :: ws, h)

end ScriptMachine.Heap
