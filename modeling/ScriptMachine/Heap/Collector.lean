import ScriptMachine.Heap.Store

/-!
# The cycle collector

Counting frees everything but cycles. A collection takes the count of every
object in the chain, subtracts the references that objects of the chain hold,
and keeps what can be reached from those with references left over. The rest is
cleared, which breaks the cycles, and let go.
-/

set_option autoImplicit false

namespace ScriptMachine

/-- The chain at the start of a collection, by node. -/
structure Snapshot where
  /-- Nodes and objects in list order. -/
  members : List (Nat × Ref)
  /-- The count of the object of each node. -/
  strong : Array Nat
  /-- The nodes that the object of each node refers to. -/
  edges : Array (List Nat)

namespace Heap

/-- The node of an object in the chain. -/
def node? (h : Heap) (r : Ref) : Option Nat :=
  match h.cell? r with
  | some { link := .linked i, .. } => some i
  | _ => none

/-- The nodes that an object refers to, one for each reference. -/
def edgeNodes (h : Heap) (r : Ref) : List Nat :=
  match h.body? r with
  | some b => b.refs.filterMap h.node?
  | none => []

def strongOf (h : Heap) (r : Ref) : Nat :=
  match h.cell? r with
  | some c => c.strong
  | none => 0

def snapshotOf (h : Heap) (members : List (Nat × Ref)) : Snapshot :=
  let n := h.chain.nodes.size
  { members
    strong := members.foldl
      (fun (a : Array Nat) (e : Nat × Ref) => a.setIfInBounds e.1 (h.strongOf e.2))
      (Array.replicate n 0)
    edges := members.foldl
      (fun (a : Array (List Nat)) (e : Nat × Ref) => a.setIfInBounds e.1 (h.edgeNodes e.2))
      (Array.replicate n []) }

end Heap

namespace Snapshot

def edgesOf (s : Snapshot) (i : Nat) : List Nat := (s.edges[i]?).getD []

def nodes (s : Snapshot) : List Nat := s.members.map (·.1)

/-- The counts less the references from within the chain. -/
def external (s : Snapshot) : Array Nat :=
  s.nodes.foldl
    (fun (a : Array Nat) (i : Nat) =>
      (s.edgesOf i).foldl (fun (a : Array Nat) (j : Nat) => a.modify j (· - 1)) a)
    s.strong

def roots (s : Snapshot) : List Nat :=
  let external := s.external
  s.nodes.filter fun (i : Nat) => decide (0 < (external[i]?).getD 0)

/-- Follows references from the work list; a node is expanded once. -/
def mark (s : Snapshot) : Nat → List Nat → Array Bool → Array Bool
  | 0, _, marked | _, [], marked => marked
  | fuel + 1, i :: work, marked =>
    if (marked[i]?).getD true then mark s fuel work marked
    else mark s fuel (s.edgesOf i ++ work) (marked.setIfInBounds i true)

/-- Enough steps for every node and every reference. -/
def markSteps (s : Snapshot) : Nat :=
  s.members.length + s.nodes.foldl (fun (n i : Nat) => n + (s.edgesOf i).length) 0

def reachable (s : Snapshot) : Array Bool :=
  s.mark s.markSteps s.roots (Array.replicate s.edges.size false)

/-- The objects that nothing outside can reach, in list order. -/
def garbage (s : Snapshot) : List Ref :=
  let reached := s.reachable
  (s.members.filter fun (e : Nat × Ref) => !(reached[e.1]?).getD false).map (·.2)

end Snapshot

namespace Heap

/-- Takes the loose references of an object and lets them go. -/
def clear (h : Heap) (r : Ref) : Heap :=
  match h.body? r with
  | none => h
  | some b => (h.setBody r b.cleared).releaseRefs b.looseRefs

/-- Objects to be freed are held until all are cleared, and let go in order. -/
def freeAll (h : Heap) (rs : List Ref) : Heap :=
  (rs.foldl clear (h.retainRefs rs)).releaseRefs rs

/-- Frees what only cycles keep alive; the answer is how many objects went. -/
def collect (h : Heap) : Nat × Heap :=
  let (members, chain) := h.chain.snapshot h.isAlive
  let h := { h with chain }
  let garbage := (h.snapshotOf members).garbage
  let h := h.freeAll garbage
  (garbage.length, { h with chain := h.chain.recordCollection garbage.length })

/-- A collection when one is due. -/
def maybeCollect (h : Heap) : Heap := if h.chain.isDue then h.collect.2 else h

/-- The living of the chain by kind. -/
def kinds (h : Heap) : List String :=
  (h.chain.snapshot h.isAlive).1.filterMap fun (e : Nat × Ref) => (h.body? e.2).map Body.kindName

end Heap

end ScriptMachine
