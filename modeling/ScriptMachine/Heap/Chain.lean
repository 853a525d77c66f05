import ScriptMachine.Value

/-!
# The chain of collectable objects

Objects that can take part in cycles are threaded into a doubly linked list of
nodes. A node that is taken out is reused by a later insertion.
-/

set_option autoImplicit false

namespace ScriptMachine

structure CollectConfig where
  auto : Bool := true
  threshold : Nat := 10000
  deriving DecidableEq, Repr

/-- The text in diagnostics. -/
def CollectConfig.detailed (c : CollectConfig) : String :=
  "GcConfig \x7b auto_collect: " ++ (if c.auto then "true" else "false") ++
    ", allocation_threshold: " ++ Decimal.digitText c.threshold ++ " \x7d"

structure CollectStats where
  live : Nat := 0
  allocated : Nat := 0
  freed : Nat := 0
  collections : Nat := 0
  /-- How many objects the last collection freed. -/
  last : Nat := 0
  deriving DecidableEq, Repr

structure ChainNode where
  prev : Option Nat := none
  next : Option Nat := none
  /-- A filled node carries an object; an empty one waits for reuse. -/
  object : Option Ref := none
  deriving DecidableEq, Repr

structure Chain where
  nodes : Array ChainNode := #[]
  head : Option Nat := none
  free : List Nat := []
  stats : CollectStats := {}
  config : CollectConfig := {}
  /-- Insertions since the last collection. -/
  since : Nat := 0
  deriving DecidableEq, Repr

namespace Chain

def setPrev (nodes : Array ChainNode) (i : Nat) (prev : Option Nat) : Array ChainNode :=
  nodes.modify i fun (n : ChainNode) => { n with prev }

def setNext (nodes : Array ChainNode) (i : Nat) (next : Option Nat) : Array ChainNode :=
  nodes.modify i fun (n : ChainNode) => { n with next }

/-- Puts a node in front of the old head. -/
def linkFront (c : Chain) (i : Nat) : Chain :=
  { c with
    nodes := match c.head with
      | some h => setPrev c.nodes h (some i)
      | none => c.nodes
    head := some i
    stats := { c.stats with live := c.stats.live + 1, allocated := c.stats.allocated + 1 }
    since := c.since + 1 }

/-- Inserts an object at the front, in the node freed last or in a new one. -/
def insert (c : Chain) (r : Ref) : Nat × Chain :=
  let node : ChainNode := { next := c.head, object := some r }
  match c.free with
  | i :: rest => (i, { c with nodes := c.nodes.setIfInBounds i node, free := rest }.linkFront i)
  | [] => (c.nodes.size, { c with nodes := c.nodes.push node }.linkFront c.nodes.size)

/-- Takes a filled node out of the list and leaves it for reuse. -/
def unlink (c : Chain) (i : Nat) : Option Chain :=
  match c.nodes[i]? with
  | none => none
  | some node =>
    match node.object with
    | none => none
    | some _ =>
      let nodes := c.nodes.setIfInBounds i {}
      let nodes := match node.prev with
        | some p => setNext nodes p node.next
        | none => nodes
      let nodes := match node.next with
        | some n => setPrev nodes n node.prev
        | none => nodes
      some { c with
        nodes
        head := match node.prev with
          | some _ => c.head
          | none => node.next
        free := i :: c.free }

/-- Takes out the node of an object that is no more. -/
def release (c : Chain) (i : Nat) : Chain :=
  match c.unlink i with
  | none => c
  | some c =>
    { c with stats := { c.stats with live := c.stats.live - 1, freed := c.stats.freed + 1 } }

/-- The filled nodes from a place on, in list order. -/
def walk (nodes : Array ChainNode) : Nat → Option Nat → List (Nat × Ref)
  | 0, _ | _, none => []
  | fuel + 1, some i =>
    match nodes[i]? with
    | none => []
    | some node =>
      match node.object with
      | some r => (i, r) :: walk nodes fuel node.next
      | none => walk nodes fuel node.next

/-- The nodes in list order, the newest first. -/
def toList (c : Chain) : List (Nat × Ref) := walk c.nodes c.nodes.size c.head

/-- The nodes of the living, after those of the dead are taken out. -/
def snapshot (c : Chain) (alive : Ref → Bool) : List (Nat × Ref) × Chain :=
  let all := c.toList
  (all.filter fun (e : Nat × Ref) => alive e.2,
    (all.filter fun (e : Nat × Ref) => !alive e.2).foldl
      (fun (c : Chain) (e : Nat × Ref) => c.release e.1) c)

def recordCollection (c : Chain) (freed : Nat) : Chain :=
  { c with
    stats := { c.stats with collections := c.stats.collections + 1, last := freed }
    since := 0 }

/-- Enough has been inserted since the last collection. -/
def isDue (c : Chain) : Bool := c.config.auto && decide (c.config.threshold ≤ c.since)

end Chain

end ScriptMachine
