import ScriptMachine.Heap.Chain
import ScriptMachine.Heap.Object

/-!
# The store of objects

Objects live as long as something refers to them. `retain` and `release` move
the count of one object; the release of the last reference frees it and lets go
of all that it kept alive, depth first. An operation that stores a value takes
over the reference of its caller; one that reads a value lends it.
-/

set_option autoImplicit false

namespace ScriptMachine

structure Heap where
  /-- The objects by identity; a freed one leaves a gap. -/
  cells : Array (Option Cell) := #[]
  chain : Chain := {}

namespace Heap

def cell? (h : Heap) (r : Ref) : Option Cell := (h.cells[r.id]?).join

def body? (h : Heap) (r : Ref) : Option Body := (h.cell? r).map (·.body)

def isAlive (h : Heap) (r : Ref) : Bool := (h.cell? r).isSome

def modifyCell (h : Heap) (r : Ref) (f : Cell → Cell) : Heap :=
  { h with cells := h.cells.modify r.id fun (c : Option Cell) => c.map f }

def setBody (h : Heap) (r : Ref) (b : Body) : Heap :=
  h.modifyCell r fun (c : Cell) => { c with body := b }

def modifyBody (h : Heap) (r : Ref) (f : Body → Body) : Heap :=
  h.modifyCell r fun (c : Cell) => { c with body := f c.body }

/-! ## Counting -/

def retainRef (h : Heap) (r : Ref) : Heap :=
  h.modifyCell r fun (c : Cell) => { c with strong := c.strong + 1 }

def retain (h : Heap) (v : Value) : Heap :=
  match v.ref? with
  | some r => h.retainRef r
  | none => h

def retainRefs (h : Heap) (rs : List Ref) : Heap := rs.foldl retainRef h

def retainAll (h : Heap) (vs : List Value) : Heap := vs.foldl retain h

/-- The number of references that the living hold. -/
def weight (cells : List (Option Cell)) : Nat :=
  match cells with
  | [] => 0
  | none :: rest => weight rest
  | some c :: rest => c.refs.length + weight rest

theorem weight_set (cells : List (Option Cell)) (i : Nat) (x : Option Cell) (c : Cell)
    (h : cells[i]? = some (some c)) :
    weight (cells.set i x) + c.refs.length = weight cells + weight [x] := by
  induction cells generalizing i with
  | nil => simp at h
  | cons a rest ih =>
    cases i with
    | zero =>
      simp at h
      subst h
      cases x <;> simp [weight] <;> omega
    | succ i =>
      have := ih i (by simpa using h)
      cases a <;> simp [weight] at this ⊢ <;> omega

/-- Takes an object out of the store and the chain. -/
def remove (h : Heap) (r : Ref) (c : Cell) : Heap :=
  { cells := h.cells.setIfInBounds r.id none
    chain := match c.link with
      | .linked i => h.chain.release i
      | _ => h.chain }

def setCell (h : Heap) (r : Ref) (c : Cell) : Heap :=
  { h with cells := h.cells.setIfInBounds r.id (some c) }

theorem cells_of_cell? {h : Heap} {r : Ref} {c : Cell} (hc : h.cell? r = some c) :
    h.cells.toList[r.id]? = some (some c) := by
  unfold cell? at hc
  cases hx : h.cells[r.id]? with
  | none => simp [hx] at hc
  | some o =>
    simp [hx] at hc
    simp [hx, hc]

/-- Lets go of references one after the other. The count of an object drops;
with the last reference the object goes, and what it held comes next. -/
def releaseRefs (h : Heap) (work : List Ref) : Heap :=
  match work with
  | [] => h
  | r :: rest =>
    match _hc : h.cell? r with
    | none => releaseRefs h rest
    | some c =>
      if c.strong ≤ 1 then releaseRefs (h.remove r c) (c.refs ++ rest)
      else releaseRefs (h.setCell r { c with strong := c.strong - 1 }) rest
termination_by weight h.cells.toList + work.length
decreasing_by
  · simp
  · have := weight_set _ _ none c (cells_of_cell? _hc)
    simp [remove, weight] at this ⊢
    omega
  · have := weight_set _ _ (some { c with strong := c.strong - 1 }) c (cells_of_cell? _hc)
    simp [setCell, weight, Cell.refs] at this ⊢
    omega

def releaseRef (h : Heap) (r : Ref) : Heap := h.releaseRefs [r]

def release (h : Heap) (v : Value) : Heap :=
  match v.ref? with
  | some r => h.releaseRef r
  | none => h

def releaseAll (h : Heap) (vs : List Value) : Heap := vs.foldl release h

/-- The references to an object, for a value that names one. -/
def refCount? (h : Heap) (v : Value) : Option Nat :=
  match v.ref? with
  | some r => (h.cell? r).map (·.strong)
  | none => none

/-! ## Making objects -/

/-- A new object with one reference, which the caller has. -/
def allocate (h : Heap) (b : Body) : Ref × Heap :=
  let r : Ref := ⟨h.cells.size⟩
  (r, { h with cells := h.cells.push (some { strong := 1, link := .fresh, handle := none, body := b }) })

def allocateText (h : Heap) (chars : String) : Text × Heap :=
  let (r, h) := h.allocate .content
  (⟨r, chars⟩, h)

def newString (h : Heap) (chars : String) : Value × Heap :=
  let (t, h) := h.allocateText chars
  (.string t, h)

/-- Enters an object into the chain. An object that was taken out before is not
entered again: its node goes back at once. -/
def register (h : Heap) (r : Ref) : Bool × Heap :=
  match h.cell? r with
  | none => (false, h)
  | some c =>
    match c.link with
    | .linked _ => (false, h)
    | .fresh =>
      let (i, chain) := h.chain.insert r
      (true, { h with chain }.modifyCell r fun (c : Cell) => { c with link := .linked i })
    | .detached =>
      let (i, chain) := h.chain.insert r
      let chain := (chain.unlink i).getD chain
      let stats := { chain.stats with
        live := chain.stats.live - 1
        allocated := chain.stats.allocated - 1 }
      (false, { h with chain := { chain with stats } })

/-- A new object of the chain. -/
def allocateLinked (h : Heap) (b : Body) : Ref × Heap :=
  let (r, h) := h.allocate b
  (r, (h.register r).2)

/-- Takes an object out of the chain while it lives on. -/
def unregister (h : Heap) (r : Ref) : Bool × Heap :=
  match h.cell? r with
  | none => (false, h)
  | some c =>
    match c.link with
    | .linked i =>
      match h.chain.unlink i with
      | none => (false, h)
      | some chain =>
        let stats := { chain.stats with live := chain.stats.live - 1 }
        (true, { h with chain := { chain with stats } }.modifyCell r
          fun (c : Cell) => { c with link := .detached })
    | _ => (false, h)

/-- The object is in the chain of this heap. -/
def contains (h : Heap) (r : Ref) : Bool :=
  match h.cell? r with
  | none => false
  | some c =>
    match c.link with
    | .linked i => ((h.chain.nodes[i]?).bind (·.object)) == some r
    | _ => false

/-! ## Weak references -/

/-- Objects of these kinds remember the weak reference made for them. -/
def hasHandle : Value → Bool
  | .array _ | .dict _ | .closure _ | .native _ | .classObject _ | .instanceObject _
  | .outer _ | .space _ _ => true
  | _ => false

/-- A weak reference to an object, always the same one while the object lives;
any other value stands for itself. The caller gets a reference of its own. -/
def weaken (h : Heap) (v : Value) : Value × Heap :=
  match v.ref? with
  | none => (v, h)
  | some r =>
    if hasHandle v then
      match h.cell? r with
      | none => (.null, h)
      | some c =>
        match c.handle with
        | some w => (.weak w, h.retainRef w)
        | none =>
          let (w, h) := h.allocate (.weak v)
          (.weak w, (h.modifyCell r fun (c : Cell) => { c with handle := some w }).retainRef w)
    else (v, h.retainRef r)

/-- The referent of a weak reference, lent, or null once it is gone. -/
def target (h : Heap) (w : Ref) : Value :=
  match h.body? w with
  | some (.weak v) =>
    match v.ref? with
    | some r => if h.isAlive r then v else .null
    | none => .null
  | _ => .null

end Heap

end ScriptMachine
