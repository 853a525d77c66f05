import ScriptMachine.Heap.Containers
import ScriptMachine.Search

/-!
# Captured slots

A captured variable stays in its stack slot while its scope lasts, and all who
capture the slot share one cell. When the scope ends, the cell takes over the
value of the slot. The open cells are kept by ascending slot.
-/

set_option autoImplicit false

namespace ScriptMachine.OpenOuters

/-- How the slot of a cell compares with a sought slot; a cell closed behind the
list's back lies above every slot. -/
def slotOrder (h : Heap) (cell : Ref) (slot : Nat) : Ordering :=
  match h.stackIndex? cell with
  | some i => compare i slot
  | none => .gt

def isAbove (h : Heap) (cells : Array Ref) (slot i : Nat) : Bool :=
  match cells[i]? with
  | some c => slotOrder h c slot == .gt
  | none => false

/-- The open cell of a slot, or the place where one belongs. -/
def find (h : Heap) (cells : Array Ref) (slot : Nat) : Except Nat Ref :=
  let i := Search.lastNotAbove (isAbove h cells slot) cells.size
  match cells[i]? with
  | none => .error 0
  | some c =>
    match slotOrder h c slot with
    | .eq => .ok c
    | .lt => .error (i + 1)
    | .gt => .error i

/-- The cell of a slot, made when there is none. The caller gets a reference of
its own. -/
def capture (h : Heap) (cells : Array Ref) (slot : Nat) : Ref × Array Ref × Heap :=
  match find h cells slot with
  | .ok c => (c, cells, h.retainRef c)
  | .error i =>
    let (c, h) := h.newOuter (.opened slot)
    (c, cells.insertIdxIfInBounds i c, h.retainRef c)

/-- Closes cells from the end of the list down to a slot; cells that are closed
already only leave the list. The count is of those closed here. -/
def closeWithin (slot : Nat) (stack : Array Value) :
    Nat → Heap → Array Ref → Nat → Nat × Array Ref × Heap
  | 0, h, cells, closed => (closed, cells, h)
  | fuel + 1, h, cells, closed =>
    match cells.back? with
    | none => (closed, cells, h)
    | some c =>
      match h.stackIndex? c with
      | none => closeWithin slot stack fuel (h.releaseRef c) cells.pop closed
      | some i =>
        if i < slot then (closed, cells, h)
        else
          let v := (stack[i]?).getD .null
          let h := (h.retain v).closeOuter c v
          closeWithin slot stack fuel (h.releaseRef c) cells.pop (closed + 1)

def closeFrom (h : Heap) (cells : Array Ref) (slot : Nat) (stack : Array Value) :
    Nat × Array Ref × Heap :=
  closeWithin slot stack cells.size h cells 0

/-- The value of a captured variable, lent. -/
def read (h : Heap) (cell : Ref) (stack : Array Value) : Value :=
  match h.outerState? cell with
  | some (.opened i) => (stack[i]?).getD .null
  | some (.closed v) => v
  | none => .null

/-- Writes a captured variable; the reference is taken over. -/
def write (h : Heap) (cell : Ref) (stack : Array Value) (v : Value) : Array Value × Heap :=
  match h.stackIndex? cell with
  | some i =>
    match stack[i]? with
    | some old => (stack.setIfInBounds i v, h.release old)
    | none => (stack, h.release v)
  | none => (stack, (h.setClosed cell v).2)

end ScriptMachine.OpenOuters
