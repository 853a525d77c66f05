import ScriptMachine.Machine.Run
import ScriptMachine.Proofs.Bytecode.WellFormed
import ScriptMachine.Proofs.Machine.Captures

/-!
# A machine in order

The heap backs what the machine refers to: the stack, the functions that run,
the open cells, the globals and the methods of the types. Whoever runs an action
may own values besides, and so may the host.
-/

set_option autoImplicit false

namespace ScriptMachine

/-! ## Natives -/

/-- The values that a request hands on or stores. -/
def Request.names : Request → List Value
  | .call callee args => callee :: args
  | .newArray items => items
  | .push r v => [.array r, v]
  | .weaken v => [v]
  | .newString _ | .target _ | .length _ | .attribute _ _ | .display _ | .deepEqual _ _ | .root
  | .live | .collect | .interrupt | .emit _ => []

/-- The routine names no objects but those it knows and those it gets as answers. -/
def Routine.Honest : Routine → (Value → Prop) → Prop
  | .finish v, known => known v
  | .fail _, _ => True
  | .ask r next, known =>
    (∀ v ∈ r.names, known v) ∧
      (∀ v : Value, (next (.ok v)).Honest fun (u : Value) => known u ∨ u = v) ∧
      ∀ e : ScriptError, (next (.error e)).Honest known

/-- A native names what it is called with and what the host keeps for it. -/
def Honest (host : List Value) (behaviour : List Value → Routine) : Prop :=
  ∀ args, (behaviour args).Honest fun (v : Value) => v.ref? = none ∨ v ∈ args ∨ v ∈ host

/-! ## Terms -/

/-- What is assumed of a machine. -/
structure Terms where
  /-- All functions are well-formed. -/
  strict : Prop
  /-- The values that the host owns. -/
  host : List Value
  /-- The values that may be stored in a slot through its cell. -/
  stores : Nat → Value → Prop

def Terms.law (t : Terms) : Law where
  closure p captured := t.strict → p.WellFormed ∧ captured = p.outers.length
  native n := Honest t.host n.behaviour

namespace Machine

/-- What the machine refers to, apart from the stack. -/
def anchors (m : Machine) : Multiset Value :=
  (m.frames.map fun (f : Frame) => Value.closure f.closure : List Value) +
    (OpenOuters.values m.openOuters : Multiset Value) +
    (.dict m.root :: m.delegates.map Value.dict : List Value)

/-- What the machine refers to. -/
def roots (m : Machine) : Multiset Value := (m.stack.toList : Multiset Value) + m.anchors

section

variable {m : Machine}

theorem slot_mem_roots {i : Nat} {v : Value} (hv : m.stack[i]? = some v) : v ∈ m.roots := by
  have hmem : v ∈ m.stack.toList := Array.mem_def.1 (Array.mem_of_getElem? hv)
  exact Multiset.mem_add.2 (.inl hmem)

theorem running_mem_roots {f : Frame} (hf : f ∈ m.frames) : .closure f.closure ∈ m.roots := by
  have hmem : Value.closure f.closure ∈ m.frames.map fun (f : Frame) => Value.closure f.closure :=
    List.mem_map_of_mem hf
  exact Multiset.mem_add.2 (.inr (Multiset.mem_add.2 (.inl (Multiset.mem_add.2 (.inl hmem)))))

theorem cell_mem_roots {c : Ref} (hc : c ∈ m.openOuters.toList) : .outer c ∈ m.roots := by
  have hmem : Value.outer c ∈ OpenOuters.values m.openOuters := List.mem_map_of_mem hc
  exact Multiset.mem_add.2 (.inr (Multiset.mem_add.2 (.inl (Multiset.mem_add.2 (.inr hmem)))))

theorem globals_mem_roots : .dict m.root ∈ m.roots :=
  Multiset.mem_add.2 (.inr (Multiset.mem_add.2 (.inr (List.mem_cons_self))))

theorem table_mem_roots {d : Ref} (hd : d ∈ m.delegates) : .dict d ∈ m.roots :=
  Multiset.mem_add.2 (.inr (Multiset.mem_add.2
    (.inr (List.mem_cons_of_mem _ (List.mem_map_of_mem hd)))))

end

def withHeap (m : Machine) (h : Heap) : Machine := { m with heap := h }

section

variable (m : Machine) (h : Heap)

@[simp] theorem withHeap_heap : (m.withHeap h).heap = h := rfl

@[simp] theorem withHeap_stack : (m.withHeap h).stack = m.stack := rfl

@[simp] theorem withHeap_frames : (m.withHeap h).frames = m.frames := rfl

@[simp] theorem withHeap_openOuters : (m.withHeap h).openOuters = m.openOuters := rfl

@[simp] theorem withHeap_root : (m.withHeap h).root = m.root := rfl

@[simp] theorem withHeap_roots : (m.withHeap h).roots = m.roots := rfl

@[simp] theorem withHeap_self : m.withHeap m.heap = m := rfl

@[simp] theorem withHeap_withHeap (h' : Heap) : (m.withHeap h).withHeap h' = m.withHeap h' := rfl

end

/-- The machine is in order while someone owns values. -/
structure Tidy (t : Terms) (own : List Value) (m : Machine) : Prop where
  backs : m.heap.Backs t.law ((own : Multiset Value) + ((t.host : Multiset Value) + m.roots))
  cells : m.heap.OpensIn m.openOuters.toList
  running : ∀ f ∈ m.frames, ∃ c, m.heap.closure? f.closure = some c ∧ c.prototype = f.prototype
  depth : m.frames.length + m.nativeDepth ≤ m.config.maxCallDepth

variable {t : Terms} {own own' : List Value} {m m' m'' : Machine}

namespace Tidy

theorem has (hm : m.Tidy t own) {v : Value} (hv : v ∈ own) : m.heap.Has v :=
  hm.backs.has (Multiset.mem_add.2 (.inl hv))

theorem has_host (hm : m.Tidy t own) {v : Value} (hv : v ∈ t.host) : m.heap.Has v :=
  hm.backs.has (Multiset.mem_add.2 (.inr (Multiset.mem_add.2 (.inl hv))))

theorem has_root (hm : m.Tidy t own) {v : Value} (hv : v ∈ m.roots) : m.heap.Has v :=
  hm.backs.has (Multiset.mem_add.2 (.inr (Multiset.mem_add.2 (.inr hv))))

theorem has_slot (hm : m.Tidy t own) {i : Nat} {v : Value} (hv : m.stack[i]? = some v) :
    m.heap.Has v := hm.has_root (slot_mem_roots hv)

theorem has_running (hm : m.Tidy t own) {f : Frame} (hf : f ∈ m.frames) :
    m.heap.Has (.closure f.closure) := hm.has_root (running_mem_roots hf)

theorem has_cell (hm : m.Tidy t own) {c : Ref} (hc : c ∈ m.openOuters.toList) :
    m.heap.Has (.outer c) := hm.has_root (cell_mem_roots hc)

theorem has_body (hm : m.Tidy t own) {r : Ref} {b : Body} (hr : m.heap.body? r = some b) {v : Value}
    (hv : v ∈ b.values) : m.heap.Has v := hm.backs.has_of_body hr hv

theorem mono (hm : m.Tidy t own) (hle : (own' : Multiset Value) ≤ own) : m.Tidy t own' :=
  ⟨hm.backs.mono (add_le_add hle le_rfl), hm.cells, hm.running, hm.depth⟩

theorem perm (hm : m.Tidy t own) (hp : own'.Perm own) : m.Tidy t own' :=
  hm.mono (le_of_eq (Multiset.coe_eq_coe.2 hp))

theorem backs_cons {v : Value} (hm : m.Tidy t (v :: own)) : m.heap.Backs t.law
    (v ::ₘ ((own : Multiset Value) + ((t.host : Multiset Value) + m.roots))) := by
  have := hm.backs
  rwa [coe_cons_add] at this

theorem backs_append {vs : List Value} (hm : m.Tidy t (vs ++ own)) : m.heap.Backs t.law
    ((vs : Multiset Value) + ((own : Multiset Value) + ((t.host : Multiset Value) + m.roots))) := by
  have := hm.backs
  rwa [← Multiset.coe_add, add_assoc] at this

/-- The heap moves on, and the rest of the machine stays. -/
theorem heap (hm : m.Tidy t own) {h : Heap} (hh : Heap.Moves t.law
    ((own' : Multiset Value) + ((t.host : Multiset Value) + m.roots)) m.heap h) :
    (m.withHeap h).Tidy t own' := by
  have hroot : ∀ {v : Value}, v ∈ m.roots → h.Has v := fun hv =>
    hh.backs.has (Multiset.mem_add.2 (.inr (Multiset.mem_add.2 (.inr hv))))
  refine ⟨hh.backs, ?_, ?_, hm.depth⟩
  · exact hm.cells.evolve hh.evolves fun c hc => hroot (cell_mem_roots hc)
  · intro f hf
    obtain ⟨c, hc, hp⟩ := hm.running f hf
    exact ⟨c, hh.evolves.drifts.keeps_closure hc (hroot (running_mem_roots hf)), hp⟩

/-- Values change places between the stack and their owner. -/
theorem restack (hm : m.Tidy t own) {stack : Array Value}
    (hle : (own' : Multiset Value) + stack.toList ≤ own + m.stack.toList) :
    { m with stack }.Tidy t own' := by
  refine ⟨hm.backs.mono ?_, hm.cells, hm.running, hm.depth⟩
  show (own' : Multiset Value) + ((t.host : Multiset Value) + (stack.toList + m.anchors)) ≤
    (own : Multiset Value) + ((t.host : Multiset Value) + (m.stack.toList + m.anchors))
  have := add_le_add_left hle ((t.host : Multiset Value) + m.anchors)
  calc (own' : Multiset Value) + ((t.host : Multiset Value) + (stack.toList + m.anchors))
      = ((own' : Multiset Value) + stack.toList) + ((t.host : Multiset Value) + m.anchors) := by
        ac_rfl
    _ ≤ ((own : Multiset Value) + m.stack.toList) + ((t.host : Multiset Value) + m.anchors) := this
    _ = (own : Multiset Value) + ((t.host : Multiset Value) + (m.stack.toList + m.anchors)) := by
        ac_rfl

end Tidy

end Machine

/-! ## What an action leaves alone -/

/-- The same activations; the current one may be at another instruction. -/
def SameFrames (jumps : Prop) (fs fs' : List Frame) : Prop :=
  fs' = fs ∨ jumps ∧ ∃ f rest ip, fs = f :: rest ∧ fs' = { f with ip } :: rest

/-- The part of the stack that an action may change. -/
structure Reach where
  /-- Slots that may be written. -/
  writes : Nat → Prop
  /-- Slots for which a cell may be opened. -/
  opens : Nat → Prop

namespace Reach

def nothing : Reach := ⟨fun _ => False, fun _ => False⟩

def upFrom (low : Nat) : Reach := ⟨(low ≤ ·), (low ≤ ·)⟩

end Reach

/-- Where an action started, and what it may change. -/
structure Scope where
  start : Machine
  reach : Reach
  /-- The current function may go on elsewhere. -/
  jumps : Prop

def Scope.quiet (s : Scope) : Scope := { s with jumps := False }

/-- The frames stay as they are. -/
def Scope.still (start : Machine) (reach : Reach) : Scope := ⟨start, reach, False⟩

namespace Machine

/-- The second machine follows from the first. Outside the reach, values change by
stores through cells, and cells are closed but not opened. -/
structure Follows (t : Terms) (reach : Reach) (m m' : Machine) : Prop where
  config : m'.config = m.config
  root : m'.root = m.root
  delegates : m'.delegates = m.delegates
  nativeDepth : m'.nativeDepth = m.nativeDepth
  drifts : m.heap.Drifts m'.heap
  slots : ∀ i v, m'.stack[i]? = some v → m.stack[i]? = some v ∨ reach.writes i ∨ t.stores i v
  opened : ∀ r i, m'.heap.outerState? r = some (.opened i) →
    m.heap.outerState? r = some (.opened i) ∨ reach.opens i

/-- The machine is in order, and outside the scope it is as at the start. -/
structure Within (t : Terms) (s : Scope) (own : List Value) (m : Machine) : Prop
    extends Tidy t own m, Follows t s.reach s.start m where
  frames : SameFrames s.jumps s.start.frames m.frames
  size : m.stack.size = s.start.stack.size

variable {t : Terms} {s : Scope} {reach : Reach} {own own' : List Value} {m m' m'' : Machine}

namespace Follows

theorem refl (m : Machine) : Follows t reach m m :=
  ⟨rfl, rfl, rfl, rfl, .refl _, fun _ _ hv => .inl hv, fun _ _ hr => .inl hr⟩

theorem trans (h1 : Follows t reach m m') (h2 : Follows t reach m' m'') :
    Follows t reach m m'' where
  config := h2.config.trans h1.config
  root := h2.root.trans h1.root
  delegates := h2.delegates.trans h1.delegates
  nativeDepth := h2.nativeDepth.trans h1.nativeDepth
  drifts := h1.drifts.trans h2.drifts
  slots := by
    intro i v hv
    rcases h2.slots i v hv with hv | hv
    · exact h1.slots i v hv
    · exact .inr hv
  opened := by
    intro r i hr
    rcases h2.opened r i hr with hr | hr
    · exact h1.opened r i hr
    · exact .inr hr

/-- Only what the second machine still has counts for the reach. -/
theorem narrow {low : Reach} (h : Follows t reach m m')
    (hw : ∀ i, reach.writes i → i < m'.stack.size → low.writes i)
    (ho : ∀ r i, reach.opens i → m'.heap.outerState? r = some (.opened i) → low.opens i) :
    Follows t low m m' := by
  refine ⟨h.config, h.root, h.delegates, h.nativeDepth, h.drifts, ?_, ?_⟩
  · intro i v hv
    exact (h.slots i v hv).imp_right
      (Or.imp_left fun hi => hw i hi (Array.getElem?_eq_some_iff.1 hv).1)
  · exact fun r i hr => (h.opened r i hr).imp_right fun hi => ho r i hi hr

theorem of_nothing (h : Follows t .nothing m m') : Follows t reach m m' :=
  h.narrow (fun _ hi => hi.elim) fun _ _ hi => hi.elim

theorem heap {h : Heap} (he : m.heap.Evolves h) : Follows t reach m (m.withHeap h) :=
  ⟨rfl, rfl, rfl, rfl, he.drifts, fun _ _ hv => .inl hv, fun _ _ hr => .inl (he.opened hr)⟩

end Follows

namespace Within

theorem of_start {jumps : Prop} (hm : m.Tidy t own) : m.Within t ⟨m, reach, jumps⟩ own :=
  ⟨hm, .refl m, .inl rfl, rfl⟩

theorem frames_still (hm : m'.Within t (.still m reach) own) : m'.frames = m.frames :=
  hm.frames.elim id fun h => h.1.elim

/-- Nothing that the scope protects has changed since. -/
theorem of_still {s : Scope} (hm : m.Within t s own) (h : m'.Within t (.still m .nothing) own') :
    m'.Within t s own' := by
  refine ⟨h.toTidy, hm.toFollows.trans h.toFollows.of_nothing, ?_, h.size.trans hm.size⟩
  rw [h.frames_still]
  exact hm.frames

theorem of_quiet (hm : m.Within t s.quiet own) : m.Within t s own :=
  ⟨hm.toTidy, hm.toFollows, hm.frames.imp_right fun h => h.1.elim, hm.size⟩

/-- The heap moves on, and the rest of the machine stays. -/
theorem heap (hm : m.Within t s own) {h : Heap} (hh : Heap.Moves t.law
    ((own' : Multiset Value) + ((t.host : Multiset Value) + m.roots)) m.heap h) :
    (m.withHeap h).Within t s own' :=
  ⟨hm.toTidy.heap hh, hm.toFollows.trans (.heap hh.evolves), hm.frames, hm.size⟩

theorem heap_cons {v : Value} (hm : m.Within t s own) {h : Heap} (hh : Heap.Moves t.law
    (v ::ₘ ((own' : Multiset Value) + ((t.host : Multiset Value) + m.roots))) m.heap h) :
    (m.withHeap h).Within t s (v :: own') := by
  refine hm.heap ?_
  rwa [coe_cons_add]

theorem heap_append {vs : List Value} (hm : m.Within t s own) {h : Heap} (hh : Heap.Moves t.law
    ((vs : Multiset Value) + ((own' : Multiset Value) + ((t.host : Multiset Value) + m.roots)))
    m.heap h) : (m.withHeap h).Within t s (vs ++ own') := by
  refine hm.heap ?_
  rwa [← Multiset.coe_add, add_assoc]

theorem mono (hm : m.Within t s own) (hle : (own' : Multiset Value) ≤ own) :
    m.Within t s own' :=
  ⟨hm.toTidy.mono hle, hm.toFollows, hm.frames, hm.size⟩

theorem drop (vs : List Value) (hm : m.Within t s (vs ++ own)) : m.Within t s own :=
  hm.mono (by rw [← Multiset.coe_add]; exact Multiset.le_add_left _ _)

theorem perm (hm : m.Within t s own) (hp : own'.Perm own) : m.Within t s own' :=
  hm.mono (le_of_eq (Multiset.coe_eq_coe.2 hp))

theorem own_plain {v : Value} (hm : m.Within t s own) (hv : v.ref? = none) :
    m.Within t s (v :: own) :=
  hm.heap_cons (hm.backs.own_plain hv).stay

theorem retain {v : Value} (hm : m.Within t s own) (hv : m.heap.Has v) :
    (m.withHeap (m.heap.retain v)).Within t s (v :: own) :=
  hm.heap_cons (hm.backs.retain hv)

theorem release {v : Value} (hm : m.Within t s (v :: own)) :
    (m.withHeap (m.heap.release v)).Within t s own :=
  hm.heap hm.backs_cons.release

theorem retainAll {vs : List Value} (hm : m.Within t s own) (hv : ∀ v ∈ vs, m.heap.Has v) :
    (m.withHeap (m.heap.retainAll vs)).Within t s (vs ++ own) :=
  hm.heap_append (hm.backs.retainAll hv)

theorem releaseAll {vs : List Value} (hm : m.Within t s (vs ++ own)) :
    (m.withHeap (m.heap.releaseAll vs)).Within t s own :=
  hm.heap hm.backs_append.releaseAll

end Within

end Machine

end ScriptMachine
