import ScriptMachine.Machine.Step
import ScriptMachine.Proofs.Machine.Slots

/-!
# Captured variables of a machine in order

Capturing a slot gives a share in its cell; closing moves the values of slots
into their cells. A store through an open cell reaches the stack.
-/

set_option autoImplicit false

namespace ScriptMachine

namespace Machine

variable {t : Terms} {s : Scope} {own : List Value} {m : Machine} {reach : Reach}

/-- Other cells are open in another heap. -/
def withCells (m : Machine) (cells : Array Ref) (h : Heap) : Machine :=
  { m with heap := h, openOuters := cells }

/-- What is owned apart from the open cells. -/
def besideCells (t : Terms) (own : List Value) (m : Machine) : Multiset Value :=
  (own : Multiset Value) + ((t.host : Multiset Value) + ((m.stack.toList : Multiset Value) +
    ((m.frames.map fun (f : Frame) => Value.closure f.closure : List Value) +
      (.dict m.root :: m.delegates.map Value.dict : List Value))))

theorem withCells_backing (cells : Array Ref) (h : Heap) :
    (own : Multiset Value) + ((t.host : Multiset Value) + (m.withCells cells h).roots) =
      (OpenOuters.values cells : Multiset Value) + besideCells t own m := by
  simp only [roots, anchors, withCells, besideCells]
  ac_rfl

theorem besideCells_cons (v : Value) : besideCells t (v :: own) m = v ::ₘ besideCells t own m := by
  simp only [besideCells, coe_cons_add]

theorem slot_mem_beside {v : Value} (hv : v ∈ m.stack.toList) : v ∈ besideCells t own m := by
  have : v ∈ (m.stack.toList : Multiset Value) := hv
  simp only [besideCells, Multiset.mem_add]
  exact .inr (.inr (.inl this))

theorem Tidy.beside (hm : m.Tidy t own) : m.heap.Backs t.law
    ((OpenOuters.values m.openOuters : Multiset Value) + besideCells t own m) := by
  have := hm.backs
  rwa [show m.roots = (m.withCells m.openOuters m.heap).roots from rfl, withCells_backing] at this

/-- The list of open cells changes along with the heap. -/
theorem Tidy.withCells (hm : m.Tidy t own) {own' : List Value} {cells : Array Ref} {h : Heap}
    (hb : h.Backs t.law ((OpenOuters.values cells : Multiset Value) + besideCells t own' m))
    (ho : h.OpensIn cells.toList) (hd : m.heap.Drifts h) : (m.withCells cells h).Tidy t own' := by
  have hback : (m.withCells cells h).heap.Backs t.law ((own' : Multiset Value) +
      ((t.host : Multiset Value) + (m.withCells cells h).roots)) := by
    rwa [withCells_backing]
  refine ⟨hback, ho, fun f hf => ?_, hm.depth⟩
  obtain ⟨c, hc, hp⟩ := hm.running f hf
  refine ⟨c, hd.keeps_closure hc (hback.has ?_), hp⟩
  exact Multiset.mem_add.2 (.inr (Multiset.mem_add.2
    (.inr (running_mem_roots (m := m.withCells cells h) hf))))

theorem Follows.withCells {cells : Array Ref} {h : Heap} (hd : m.heap.Drifts h)
    (ho : ∀ r i, h.outerState? r = some (.opened i) →
      m.heap.outerState? r = some (.opened i) ∨ reach.opens i) :
    Follows t reach m (m.withCells cells h) :=
  ⟨rfl, rfl, rfl, rfl, hd, fun _ _ hv => .inl hv, ho⟩

/-! ## Closing -/

/-- The machine once the captured slots from a height on are closed. -/
def closed (m : Machine) (slot : Nat) : Machine :=
  m.withCells (OpenOuters.closeFrom m.heap m.openOuters slot m.stack).2.1
    (OpenOuters.closeFrom m.heap m.openOuters slot m.stack).2.2

theorem closeFrom_spec (hm : m.Tidy t own) (slot : Nat) :
    (OpenOuters.closeFrom m.heap m.openOuters slot m.stack).2.2.Backs t.law
        ((OpenOuters.values (OpenOuters.closeFrom m.heap m.openOuters slot m.stack).2.1 :
          Multiset Value) + besideCells t own m) ∧
      (OpenOuters.closeFrom m.heap m.openOuters slot m.stack).2.2.OpensIn
        (OpenOuters.closeFrom m.heap m.openOuters slot m.stack).2.1.toList ∧
      m.heap.Drifts (OpenOuters.closeFrom m.heap m.openOuters slot m.stack).2.2 ∧
      ∀ c i, (OpenOuters.closeFrom m.heap m.openOuters slot m.stack).2.2.outerState? c =
          some (.opened i) → m.heap.outerState? c = some (.opened i) ∧ i < slot :=
  OpenOuters.closeWithin_spec _ 0 (Nat.le_refl _) hm.cells hm.beside fun _ hv => slot_mem_beside hv

theorem Tidy.closed (hm : m.Tidy t own) (slot : Nat) : (m.closed slot).Tidy t own := by
  obtain ⟨hb, ho, hd, -⟩ := closeFrom_spec hm slot
  exact hm.withCells hb ho hd

theorem Tidy.opened_closed (hm : m.Tidy t own) {slot i : Nat} {c : Ref}
    (hc : (m.closed slot).heap.outerState? c = some (.opened i)) :
    m.heap.outerState? c = some (.opened i) ∧ i < slot :=
  (closeFrom_spec hm slot).2.2.2 c i hc

theorem Tidy.follows_closed (hm : m.Tidy t own) (slot : Nat) :
    Follows t reach m (m.closed slot) :=
  .withCells (closeFrom_spec hm slot).2.2.1 fun _ _ hr => .inl (hm.opened_closed hr).1

theorem Within.closed (hm : m.Within t s own) (slot : Nat) : (m.closed slot).Within t s own :=
  ⟨hm.toTidy.closed slot, hm.toFollows.trans (hm.toTidy.follows_closed slot), hm.frames, hm.size⟩

end Machine

namespace Exec

variable {β : Type} {t : Terms} {s : Scope} {own : List Value} {m : Machine}
variable {c : ClosureObject} {base : Nat} {gives : β → List Value}

theorem closeOuters_eq (slot : Nat) (m : Machine) : closeOuters slot m = .ok () (m.closed slot) := by
  by_cases h : m.openOuters.isEmpty = true
  · have hempty : m.openOuters = #[] := Array.isEmpty_iff.1 h
    have hclosed : m.closed slot = m := by
      simp only [Machine.closed, OpenOuters.closeFrom, hempty, Array.size_empty,
        OpenOuters.closeWithin]
      cases m
      cases hempty
      rfl
    rw [hclosed]
    show EStateM.Result.ok () _ = _
    simp only [h, if_true]
  · show EStateM.Result.ok () _ = _
    simp only [h]
    rfl

/-! ## Capturing -/

theorem Keeps.capture {slot : Nat} (hi : s.reach.opens slot) (hm : m.Within t s own) :
    Keeps t s own (capture slot) (capture slot) (fun c => [.outer c]) m := by
  obtain ⟨hb, ho, hd, hopen⟩ := OpenOuters.capture_spec slot hm.cells hm.beside
  refine Meets.of_ok (show Exec.capture slot m = .ok (OpenOuters.capture m.heap m.openOuters slot).1
    (m.withCells (OpenOuters.capture m.heap m.openOuters slot).2.1
      (OpenOuters.capture m.heap m.openOuters slot).2.2) from rfl) ?_
  refine ⟨hm.toTidy.withCells ?_ ho hd, hm.toFollows.trans (.withCells hd fun r i hr => ?_),
    hm.frames, hm.size⟩
  · refine hb.mono (le_of_eq ?_)
    show _ + Machine.besideCells t (.outer _ :: own) m = _
    rw [Machine.besideCells_cons, Multiset.add_cons]
  · rcases hopen r i hr with h | rfl
    · exact .inl h
    · exact .inr hi

/-! ## Reading and storing -/

theorem readOuter_reads {cell : Ref} (hm : m.Within t s own) :
    Reads t (readOuter cell) (fun v => m.heap.Has v) m := by
  refine .inl ⟨OpenOuters.read m.heap cell m.stack, rfl, ?_⟩
  unfold OpenOuters.read
  split
  · rename_i i _
    cases hv : m.stack[i]? with
    | none => exact Heap.has_of_none rfl
    | some v => exact hm.has_slot hv
  · rename_i v hr
    exact hm.has_body (Heap.outerState?_eq_some.1 hr) (by simp [Body.values])
  · exact Heap.has_of_none rfl

theorem writeOuter_eq (cell : Ref) (v : Value) (m : Machine) : writeOuter cell v m =
    .ok () { m with
      heap := (OpenOuters.write m.heap cell m.stack v).2
      stack := (OpenOuters.write m.heap cell m.stack v).1 } := rfl

/-- A captured variable takes a value over, on the stack or in its cell. -/
theorem Keeps.writeOuter {cell : Ref} {v : Value} {f f' : Unit → Exec β}
    {own' : List Value} (hm : m.Within t s (v :: own'))
    (hst : ∀ i, m.heap.stackIndex? cell = some i → t.stores i v)
    (hf : ∀ m', m'.Within t s own' → Keeps t s own (f ()) (f' ()) gives m') :
    Keeps t s own (writeOuter cell v >>= f) (writeOuter cell v >>= f') gives m := by
  refine .next (writeOuter_eq cell v m) (hf _ ?_)
  unfold OpenOuters.write
  cases hi : m.heap.stackIndex? cell with
  | none => exact hm.heap hm.backs_cons.setClosed
  | some i =>
    cases hold : m.stack[i]? with
    | none =>
      simp only [hold]
      exact hm.release
    | some old =>
      simp only [hold]
      exact (hm.exchange (.inr (hst i hi)) hold).release

end Exec

/-! ## The captured variables of the current function -/

namespace Machine

variable {t : Terms} {s : Scope} {own : List Value} {m : Machine}

theorem Tidy.law_closure (hm : m.Tidy t own) {r : Ref} {c : ClosureObject}
    (hc : m.heap.closure? r = some c) (ht : t.strict) :
    c.prototype.WellFormed ∧ c.outers.length = c.prototype.outers.length :=
  (hm.backs.bodies r _ (Heap.closure?_eq_some.1 hc)).2 ht

variable {c : ClosureObject} {base : Nat}

/-- The cells that the current function has captured live. -/
theorem Within.has_captured (hs : s.Runs c base) (hm : m.Within t s own) {cell : Ref}
    (hcell : cell ∈ c.outers) : m.heap.Has (.outer cell) := by
  obtain ⟨f, rest, -, -, hc⟩ := hm.current hs
  have hmem : Value.outer cell ∈ c.outers.map Value.outer := List.mem_map_of_mem hcell
  exact hm.has_body (Heap.closure?_eq_some.1 hc) (by simp [Body.values, hmem])

theorem Within.law (hs : s.Runs c base) (hm : m.Within t s own) (ht : t.strict) :
    c.prototype.WellFormed ∧ c.outers.length = c.prototype.outers.length := by
  obtain ⟨f, rest, -, -, hc⟩ := hm.current hs
  exact hm.law_closure hc ht

end Machine

namespace Exec

variable {t : Terms} {s : Scope} {own : List Value} {m : Machine}
variable {c : ClosureObject} {base : Nat}

theorem currentOuters_reads (hs : s.Runs c base) (hm : m.Within t s own) :
    Reads t currentOuters (fun outers => outers = c.outers) m := by
  unfold currentOuters
  refine .bind (currentFrame_reads hs hm) ?_
  rintro f ⟨-, hc, -⟩
  refine .bind (G := fun o => o = some c) (.inl ⟨_, rfl, hc⟩) ?_
  rintro o rfl
  exact .pure rfl

theorem outerCell_reads {index : Int64} (hs : s.Runs c base) (hm : m.Within t s own)
    (hr : t.strict → c.prototype.HasOuter index) : Reads t (outerCell index)
      (fun cell => 0 ≤ index ∧ c.outers[index.toInt.toNat]? = some cell) m := by
  unfold outerCell
  refine .bind (indexArg_reads fun ht => (hr ht).1) ?_
  rintro i ⟨hpos, rfl⟩
  refine .bind (currentOuters_reads hs hm) ?_
  rintro outers rfl
  split
  · rename_i cell hcell
    exact .pure ⟨hpos, hcell⟩
  · rename_i hnone
    refine .malformed fun ht => ?_
    have := List.getElem?_eq_none_iff.1 hnone
    have := (hr ht).2
    have := (hm.law hs ht).2
    omega

end Exec

end ScriptMachine
