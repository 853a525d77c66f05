import ScriptMachine.Proofs.Machine.Captures

/-!
# Captured variables

A variable lives in a slot until the scope of the slot ends. Whoever captures it
meanwhile gets the same cell, and a cell always has the value that was assigned
to its variable last, whether through the slot or through a cell, before or after
the end of the scope. What is stored in the slot later belongs to another
variable.
-/

set_option autoImplicit false

namespace ScriptMachine

/-! ## What may happen -/

inductive VariableOp where
  | capture (slot : Nat)
  /-- A value is written to a slot. -/
  | assign (slot : Nat) (v : Value)
  | push (v : Value)
  | truncate (height : Nat)
  /-- A value is written through the cell that a capture returned. -/
  | store (handle : Nat) (v : Value)
  /-- The cells of the slots from one on are closed. -/
  | close (slot : Nat)
  /-- The heap changes otherwise, and what is owned besides. -/
  | elsewhere (heap : Heap) (own : Multiset Value)

/-! ## Variables as such -/

/-- A slot, with the number of times that its scope has ended before. -/
abbrev Variable := Nat × Nat

/-- The variables, with no word of cells. -/
structure Variables where
  scope : Nat → Nat
  /-- What was assigned last. -/
  value : Variable → Value
  /-- The captured variables, in order of capture. -/
  captured : List Variable := []
  height : Nat

namespace Variables

def ofStack (stack : Array Value) : Variables where
  scope _ := 0
  value x := (stack[x.1]?).getD .null
  height := stack.size

/-- The variable that lives in a slot now. -/
def inSlot (a : Variables) (i : Nat) : Variable := (i, a.scope i)

def put (a : Variables) (x : Variable) (v : Value) : Variables :=
  { a with value := Function.update a.value x v }

/-- Ends the scope of the slots from one on: they start over with new variables,
which find there what was left. -/
def close (a : Variables) (j : Nat) : Variables :=
  { a with
    scope := fun i => if j ≤ i then a.scope i + 1 else a.scope i
    value := fun x => if j ≤ x.1 ∧ x.2 = a.scope x.1 + 1 then a.value (a.inSlot x.1) else a.value x }

def step (a : Variables) : VariableOp → Variables
  | .capture i => { a with captured := a.captured ++ [a.inSlot i] }
  | .assign i v => a.put (a.inSlot i) v
  | .push v => { a.put (a.inSlot a.height) v with height := a.height + 1 }
  | .truncate n => { a with height := min n a.height }
  | .store k v =>
    match a.captured[k]? with
    | some x => a.put x v
    | none => a
  | .close j => a.close j
  | .elsewhere _ _ => a

def run (a : Variables) (ops : List VariableOp) : Variables := ops.foldl step a

end Variables

/-! ## Variables in slots and cells -/

/-- A stack with its open cells, on a heap. -/
structure Captures where
  heap : Heap
  cells : Array Ref := #[]
  stack : Array Value
  /-- What is owned besides the stack and the list of cells. -/
  own : Multiset Value
  /-- The cells that captures have returned, in order. -/
  handles : List Ref := []

namespace Captures

def step (s : Captures) : VariableOp → Captures
  | .capture i =>
    let (c, cells, heap) := OpenOuters.capture s.heap s.cells i
    { s with heap, cells, own := .outer c ::ₘ s.own, handles := s.handles ++ [c] }
  | .assign i v =>
    match s.stack[i]? with
    | some old =>
      { s with heap := (s.heap.retain v).release old, stack := s.stack.setIfInBounds i v }
    | none => s
  | .push v => { s with heap := s.heap.retain v, stack := s.stack.push v }
  | .truncate n =>
    { s with
      heap := s.heap.releaseAll (s.stack.extract n s.stack.size).toList
      stack := s.stack.shrink n }
  | .store k v =>
    match s.handles[k]? with
    | some c =>
      let (stack, heap) := OpenOuters.write (s.heap.retain v) c s.stack v
      { s with heap, stack }
    | none => s
  | .close j =>
    let (_, cells, heap) := OpenOuters.closeFrom s.heap s.cells j s.stack
    { s with heap, cells }
  | .elsewhere heap own => { s with heap, own }

def run (s : Captures) (ops : List VariableOp) : Captures := ops.foldl step s

/-- All that is owned. -/
def owned (s : Captures) : Multiset Value :=
  (OpenOuters.values s.cells : Multiset Value) + (s.own + (s.stack.toList : Multiset Value))

/-- Slots that exist are captured and assigned, values that live are stored, a
slot goes only when no open cell is left for it, and other changes of the heap
keep the accounts and store into no cell. -/
def Allows (l : Law) (s : Captures) : VariableOp → Prop
  | .capture i => i < s.stack.size
  | .assign i v => i < s.stack.size ∧ s.heap.Has v
  | .push v => s.heap.Has v
  | .truncate n => ∀ c i, s.heap.stackIndex? c = some i → i < n
  | .store k v => s.heap.Has v ∧ ∃ c, s.handles[k]? = some c ∧ s.heap.Has (.outer c)
  | .close _ => True
  | .elsewhere h own =>
    Heap.Moves l ((OpenOuters.values s.cells : Multiset Value) +
      (own + (s.stack.toList : Multiset Value))) s.heap h ∧
    ∀ c st, c.id < s.heap.cells.size → h.outerState? c = some st → s.heap.outerState? c = some st

def AllowsAll (l : Law) (s : Captures) : List VariableOp → Prop
  | [] => True
  | op :: ops => s.Allows l op ∧ (s.step op).AllowsAll l ops

end Captures

/-! ## States of cells -/

namespace Heap

variable {l : Law} {own : Multiset Value} {h h' h'' : Heap}

/-- Cells of the first heap that live on in the second have kept their states. -/
def SameCells (h h' : Heap) : Prop :=
  ∀ c st, c.id < h.cells.size → h'.outerState? c = some st → h.outerState? c = some st

namespace SameCells

theorem trans (h1 : SameCells h h') (h2 : SameCells h' h'') (hsize : h.cells.size ≤ h'.cells.size) :
    SameCells h h'' := fun c st hc hst =>
  h1 c st hc (h2 c st (Nat.lt_of_lt_of_le hc hsize) hst)

theorem of_bodies (hb : ∀ r b, h'.body? r = some b → h.body? r = some b) : SameCells h h' :=
  fun _ _ _ hst => outerState?_eq_some.2 (hb _ _ (outerState?_eq_some.1 hst))

theorem of_trims (ht : Trims h h') : SameCells h h' := .of_bodies fun _ _ hb => ht.body? hb

theorem retain (h : Heap) (v : Value) : SameCells h (h.retain v) :=
  .of_bodies fun r b hb => by rwa [body?_retain] at hb

theorem release (h : Heap) (v : Value) : SameCells h (h.release v) := by
  unfold Heap.release
  split
  · exact .of_trims (trims_releaseRefs h _)
  · exact .of_trims (.refl h)

end SameCells

theorem size_retain (h : Heap) (v : Value) : (h.retain v).cells.size = h.cells.size := by
  unfold retain
  split
  · exact size_modifyCell ..
  · rfl

theorem size_release (h : Heap) (v : Value) : (h.release v).cells.size = h.cells.size := by
  unfold release
  split
  · exact (trims_releaseRefs h _).size
  · rfl

theorem SameCells.releaseAll (h : Heap) (vs : List Value) : SameCells h (h.releaseAll vs) := by
  induction vs generalizing h with
  | nil => exact .of_trims (.refl h)
  | cons v vs ih => exact (SameCells.release h v).trans (ih _) (Nat.le_of_eq (size_release h v).symm)

/-- A cell of the list is still open when the list lives on. -/
theorem OpensIn.stays_open {cells : List Ref} (ho : h.OpensIn cells) (he : Evolves h h')
    (hv : ∀ c ∈ cells, h'.Has (.outer c)) {c : Ref} {i : Nat} (hc : h.stackIndex? c = some i) :
    h'.stackIndex? c = some i := by
  obtain ⟨st, hst⟩ := (hv c (ho.listed c i hc)).outer
  exact stackIndex?_eq_some.2 (he.opened_of_alive (stackIndex?_eq_some.1 hc) hst)

/-- Storing into a closed cell touches no other cell. -/
theorem states_setClosed {c d : Ref} {v w : Value} {st : OuterState}
    (hc : h.outerState? c = some (.closed w)) (hd : (h.setClosed c v).2.outerState? d = some st) :
    (d = c ∧ st = .closed v) ∨ (d ≠ c ∧ h.outerState? d = some st) := by
  have hbody := outerState?_eq_some.1 hc
  have hset : (h.setClosed c v).2 = (h.setBody c (.outer (.closed v))).release w := by
    simp only [setClosed, closeOuter, hc]
  rw [hset] at hd
  have hlive := outerState?_eq_some.1 (SameCells.release _ w d st ?_ hd)
  · rw [body?_setBody hbody] at hlive
    by_cases hdc : d = c
    · rw [if_pos hdc, Option.some.injEq, Body.outer.injEq] at hlive
      exact .inl ⟨hdc, hlive.symm⟩
    · rw [if_neg hdc] at hlive
      exact .inr ⟨hdc, outerState?_eq_some.2 hlive⟩
  · rw [← size_release _ w]
    exact body?_lt (outerState?_eq_some.1 hd)

end Heap

namespace OpenOuters

variable {l : Law} {own : Multiset Value} {h : Heap} {cells : Array Ref} {slot : Nat}

/-- The state that closing leaves a cell in. -/
def settled (slot : Nat) (stack : Array Value) : OuterState → OuterState
  | .opened i => if i < slot then .opened i else .closed ((stack[i]?).getD .null)
  | .closed v => .closed v

/-- Closing one cell and letting go of it touches no other cell. -/
theorem states_closeLast {c d : Ref} {i : Nat} {v : Value} {st : OuterState}
    (hi : h.stackIndex? c = some i)
    (hd : (((h.retain v).closeOuter c v).releaseRef c).outerState? d = some st) :
    (d = c ∧ st = .closed v) ∨ (d ≠ c ∧ h.outerState? d = some st) := by
  have hbody : (h.retain v).body? c = some (.outer (.opened i)) := by
    rw [Heap.body?_retain]
    exact Heap.outerState?_eq_some.1 (Heap.stackIndex?_eq_some.1 hi)
  have hclose : (h.retain v).closeOuter c v = (h.retain v).setBody c (.outer (.closed v)) := by
    simp only [Heap.closeOuter, Heap.outerState?, hbody]
    rfl
  have hlive := (Heap.trims_releaseRefs _ [c]).body? (Heap.outerState?_eq_some.1 hd)
  rw [hclose, Heap.body?_setBody hbody] at hlive
  by_cases hdc : d = c
  · rw [if_pos hdc, Option.some.injEq, Body.outer.injEq] at hlive
    exact .inl ⟨hdc, hlive.symm⟩
  · rw [if_neg hdc, Heap.body?_retain] at hlive
    exact .inr ⟨hdc, Heap.outerState?_eq_some.2 hlive⟩

/-- Where closing stops, a cell that is not open at or above the slot is settled. -/
theorem settled_of_below {stack : Array Value} {c : Ref} {st : OuterState}
    (hbelow : ∀ i, h.stackIndex? c = some i → i < slot) (hc : h.outerState? c = some st) :
    settled slot stack st = st := by
  cases st with
  | opened i => exact if_pos (hbelow i (Heap.stackIndex?_eq_some.2 hc))
  | closed v => rfl

theorem closeWithin_states {stack : Array Value} (fuel closed : Nat) (hfuel : cells.size ≤ fuel)
    (ho : h.OpensIn cells.toList) (hb : h.Backs l ((values cells : Multiset Value) + own))
    (hs : ∀ v ∈ stack.toList, v ∈ own) {c : Ref} {st st' : OuterState}
    (hc : h.outerState? c = some st)
    (hc' : (closeWithin slot stack fuel h cells closed).2.2.outerState? c = some st') :
    st' = settled slot stack st := by
  induction fuel generalizing h cells closed st with
  | zero =>
    have hempty : cells = #[] := Array.size_eq_zero_iff.1 (by omega)
    subst hempty
    rw [settled_of_below (fun i hi => by cases ho.listed c i hi) hc]
    exact Option.some.inj (hc'.symm.trans hc)
  | succ fuel ih =>
    unfold closeWithin at hc'
    cases hback : cells.back? with
    | none =>
      rw [hback] at hc'
      have hempty : cells = #[] := Array.back?_eq_none_iff.1 hback
      subst hempty
      rw [settled_of_below (fun i hi => by cases ho.listed c i hi) hc]
      exact Option.some.inj (hc'.symm.trans hc)
    | some d =>
      rw [hback] at hc'
      obtain ⟨rest, rfl⟩ := Array.back?_eq_some_iff.1 hback
      obtain ⟨i, hi⟩ := ho.opened d (by simp)
      simp only [hi, Array.pop_push] at hc'
      split at hc'
      · rename_i hlt
        rw [settled_of_below (fun j hj => ?_) hc]
        · exact Option.some.inj (hc'.symm.trans hc)
        · have hlist : (rest.push d).toList = rest.toList ++ [d] := Array.toList_push
          rw [hlist] at ho
          rcases List.mem_append.1 (ho.listed c j hj) with hm | hm
          · have := (List.pairwise_append.1 ho.ascending).2.2 c hm d (by simp) j i hj hi
            omega
          · rw [List.mem_singleton.1 hm, hi, Option.some.injEq] at hj
            omega
      · rename_i hge
        obtain ⟨hb1, ho1, hd1, -⟩ := closeLast ho hb (has_slot hb hs i) hi
        have hfuel1 : rest.size ≤ fuel := by
          rw [Array.size_push] at hfuel
          omega
        have hd2 : Heap.Drifts _ (closeWithin slot stack fuel _ rest (closed + 1)).2.2 :=
          (closeWithin_spec fuel (closed + 1) hfuel1 ho1 hb1 hs).2.2.1
        -- a cell that lives in the end has lived through this step
        have hlt := Nat.lt_of_lt_of_le (Heap.body?_lt (Heap.outerState?_eq_some.1 hc)) hd1.size
        obtain ⟨st1, hst1⟩ := hd2.outerState? hlt hc'
        have hlast := ih (closed + 1) hfuel1 ho1 hb1 hst1 hc'
        rcases states_closeLast hi hst1 with ⟨rfl, rfl⟩ | ⟨-, hold⟩
        · have hopen := Heap.stackIndex?_eq_some.1 hi
          rw [hc, Option.some.injEq] at hopen
          rw [hlast, hopen]
          exact (if_neg hge).symm
        · rw [hc, Option.some.injEq] at hold
          rw [hlast, hold]

/-- Closing leaves the cells of lower slots in the list. -/
theorem closeWithin_keeps {stack : Array Value} (fuel closed : Nat)
    (ho : h.OpensIn cells.toList) (hb : h.Backs l ((values cells : Multiset Value) + own))
    (hs : ∀ v ∈ stack.toList, v ∈ own) {c : Ref} {i : Nat} (hc : c ∈ cells.toList)
    (hi : h.stackIndex? c = some i) (hlt : i < slot) :
    c ∈ (closeWithin slot stack fuel h cells closed).2.1.toList := by
  induction fuel generalizing h cells closed with
  | zero => exact hc
  | succ fuel ih =>
    unfold closeWithin
    cases hback : cells.back? with
    | none => exact hc
    | some d =>
      obtain ⟨rest, rfl⟩ := Array.back?_eq_some_iff.1 hback
      obtain ⟨j, hj⟩ := ho.opened d (by simp)
      simp only [hj, Array.pop_push]
      split
      · exact hc
      · rename_i hge
        have hrest : c ∈ rest.toList := by
          rw [Array.toList_push, List.mem_append, List.mem_singleton] at hc
          refine hc.resolve_right ?_
          rintro rfl
          rw [hi, Option.some.injEq] at hj
          omega
        obtain ⟨hb1, ho1, -, hback1⟩ := closeLast ho hb (has_slot hb hs j) hj
        obtain ⟨k, hk⟩ := ho1.opened c hrest
        have hsame := (hback1 c k (Heap.stackIndex?_eq_some.1 hk)).1
        rw [Heap.stackIndex?_eq_some.1 hi, Option.some.injEq, OuterState.opened.injEq] at hsame
        exact ih (closed + 1) ho1 hb1 hrest (hsame ▸ hk)

/-- Closing leaves the open cells of lower slots open. -/
theorem closeFrom_below {stack : Array Value} (ho : h.OpensIn cells.toList)
    (hb : h.Backs l ((values cells : Multiset Value) + own)) (hs : ∀ v ∈ stack.toList, v ∈ own)
    {c : Ref} {i : Nat} (hi : h.stackIndex? c = some i) (hlt : i < slot) :
    (closeFrom h cells slot stack).2.2.stackIndex? c = some i := by
  have hkept := closeWithin_keeps cells.size 0 ho hb hs (ho.listed c i hi) hi hlt
  obtain ⟨-, hopens, -, hback⟩ := closeWithin_spec cells.size 0 (Nat.le_refl _) ho hb hs
  obtain ⟨k, hk⟩ := hopens.opened c hkept
  have hsame := (hback c k (Heap.stackIndex?_eq_some.1 hk)).1
  rw [Heap.stackIndex?_eq_some.1 hi, Option.some.injEq, OuterState.opened.injEq] at hsame
  exact hsame ▸ hk

end OpenOuters

/-! ## Cells stand for variables -/

namespace Captures

variable {l : Law} {s : Captures} {a a' : Variables}

/-- A capture returned the cell, and captured the variable. -/
def Named (s : Captures) (a : Variables) (k : Nat) (c : Ref) (x : Variable) : Prop :=
  s.handles[k]? = some c ∧ a.captured[k]? = some x

/-- Slots and cells hold what was assigned to the variables: the slot while the
scope lasts, the cell for good. -/
structure Tracks (s : Captures) (a : Variables) : Prop where
  height : a.height = s.stack.size
  length : s.handles.length = a.captured.length
  known : ∀ (k : Nat) (c : Ref), s.handles[k]? = some c → c.id < s.heap.cells.size
  same : ∀ j k c d x y, Named s a j c x → Named s a k d y → (c = d ↔ x = y)
  begun : ∀ k c x, Named s a k c x → x.2 ≤ a.scope x.1
  current : ∀ k c x, Named s a k c x → x.2 = a.scope x.1 → s.heap.stackIndex? c = some x.1
  past : ∀ k c x st, Named s a k c x → x.2 < a.scope x.1 → s.heap.outerState? c = some st →
    st = .closed (a.value x)
  opened : ∀ c i, s.heap.stackIndex? c = some i → i < s.stack.size ∧ ∃ k, Named s a k c (a.inSlot i)
  slots : ∀ i v, s.stack[i]? = some v → a.value (a.inSlot i) = v

/-- Everything owned is backed, the list has just the open cells in order, and
the cells stand for the variables. -/
structure Agrees (l : Law) (s : Captures) (a : Variables) : Prop where
  backs : s.heap.Backs l s.owned
  opens : s.heap.OpensIn s.cells.toList
  tracks : Tracks s a

/-- A cell that someone has reads as the variable it stands for. -/
theorem Agrees.read_eq (hg : Agrees l s a) {k : Nat} {c : Ref} {x : Variable}
    (hn : Named s a k c x) (hc : s.heap.Has (.outer c)) :
    OpenOuters.read s.heap c s.stack = a.value x := by
  obtain ⟨st, hst⟩ := hc.outer
  have hstate := Heap.outerState?_eq_some.2 hst
  rcases Nat.lt_or_eq_of_le (hg.tracks.begun k c x hn) with hlt | heq
  · rw [hg.tracks.past k c x st hn hlt hstate] at hstate
    simp [OpenOuters.read, hstate]
  · have hopen := hg.tracks.current k c x hn heq
    obtain ⟨hi, -⟩ := hg.tracks.opened c x.1 hopen
    have hslot := hg.tracks.slots x.1 _ (Array.getElem?_eq_getElem hi)
    have hx : a.inSlot x.1 = x := Prod.ext rfl heq.symm
    rw [hx] at hslot
    simp [OpenOuters.read, Heap.stackIndex?_eq_some.1 hopen, Array.getElem?_eq_getElem hi, hslot]

/-! ### What leaves the scopes alone -/

/-- The heap moves on and the stack changes, while the list of cells and the
scopes stay. -/
theorem Agrees.change (hg : Agrees l s a) {h : Heap} {stack : Array Value} {own : Multiset Value}
    (hm : Heap.Moves l ((OpenOuters.values s.cells : Multiset Value) +
      (own + (stack.toList : Multiset Value))) s.heap h)
    (hscope : a'.scope = a.scope) (hcaptured : a'.captured = a.captured)
    (hheight : a'.height = stack.size)
    (hopen : ∀ c i, s.heap.stackIndex? c = some i → i < stack.size)
    (hpast : ∀ k c x st, Named s a k c x → x.2 < a.scope x.1 → h.outerState? c = some st →
      st = .closed (a'.value x))
    (hslots : ∀ i v, stack[i]? = some v → a'.value (a.inSlot i) = v) :
    Agrees l { s with heap := h, stack, own } a' := by
  have hnamed : ∀ k c x, Named { s with heap := h, stack, own } a' k c x ↔ Named s a k c x :=
    fun k c x => by simp [Named, hcaptured]
  have hlive : ∀ c ∈ s.cells.toList, h.Has (.outer c) := fun c hc =>
    hm.backs.has (OpenOuters.mem_values hc)
  have hinSlot : ∀ i, a'.inSlot i = a.inSlot i := fun i => by simp [Variables.inSlot, hscope]
  refine ⟨hm.backs, hg.opens.evolve hm.evolves hlive, ⟨hheight, ?_, fun k c hc => ?_,
    fun j k c d x y hj hk => ?_, fun k c x hk => ?_, fun k c x hk hx => ?_, fun k c x st hk hx => ?_,
    fun c i hc => ?_, fun i v hv => ?_⟩⟩
  · rw [hcaptured]
    exact hg.tracks.length
  · exact Nat.lt_of_lt_of_le (hg.tracks.known k c hc) hm.evolves.size
  · exact hg.tracks.same j k c d x y ((hnamed ..).1 hj) ((hnamed ..).1 hk)
  · rw [hscope]
    exact hg.tracks.begun k c x ((hnamed ..).1 hk)
  · rw [hscope] at hx
    exact hg.opens.stays_open hm.evolves hlive (hg.tracks.current k c x ((hnamed ..).1 hk) hx)
  · rw [hscope] at hx
    exact hpast k c x st ((hnamed ..).1 hk) hx
  · have hold := Heap.stackIndex?_eq_some.2 (hm.evolves.opened (Heap.stackIndex?_eq_some.1 hc))
    obtain ⟨-, k, hk⟩ := hg.tracks.opened c i hold
    exact ⟨hopen c i hold, k, (hnamed ..).2 (by rwa [hinSlot])⟩
  · rw [hinSlot]
    exact hslots i v hv

/-- Cells of past variables keep their values when no cell is stored into. -/
theorem Agrees.past_of_same (hg : Agrees l s a) {h : Heap} (hsame : s.heap.SameCells h) {k : Nat}
    {c : Ref} {x : Variable} {st : OuterState} (hn : Named s a k c x) (hx : x.2 < a.scope x.1)
    (hst : h.outerState? c = some st) : st = .closed (a.value x) :=
  hg.tracks.past k c x st hn hx (hsame c st (hg.tracks.known k c hn.1) hst)

theorem put_ne {x y : Variable} {v : Value} (hxy : x ≠ y) : (a.put y v).value x = a.value x := by
  simp [Variables.put, hxy]

theorem put_self (x : Variable) (v : Value) : (a.put x v).value x = v := by
  simp [Variables.put]

theorem inSlot_ne_past {x : Variable} {i : Nat} (hx : x.2 < a.scope x.1) : x ≠ a.inSlot i := by
  rintro rfl
  exact Nat.lt_irrefl _ hx

theorem owned_set {i : Nat} {v old : Value} {own : Multiset Value} {stack : Array Value}
    (hold : stack[i]? = some old) :
    (old ::ₘ (own + ((stack.setIfInBounds i v).toList : Multiset Value))) =
      v ::ₘ (own + (stack.toList : Multiset Value)) := by
  have hlist : stack.toList[i]? = some old := by rw [Array.getElem?_toList, hold]
  rw [Array.toList_setIfInBounds, ← Multiset.add_cons, coe_set hlist, Multiset.add_cons]

theorem Agrees.elsewhere (hg : Agrees l s a) {h : Heap} {own : Multiset Value}
    (hm : Heap.Moves l ((OpenOuters.values s.cells : Multiset Value) +
      (own + (s.stack.toList : Multiset Value))) s.heap h) (hsame : s.heap.SameCells h) :
    Agrees l { s with heap := h, own } a :=
  hg.change hm rfl rfl hg.tracks.height (fun c i hc => (hg.tracks.opened c i hc).1)
    (fun _ _ _ _ hk hx hst => hg.past_of_same hsame hk hx hst) hg.tracks.slots

/-- A value is shared and written over a slot, and what was there is let go. -/
theorem Agrees.overwrite (hg : Agrees l s a) {i : Nat} {v old : Value} (hv : s.heap.Has v)
    (hold : s.stack[i]? = some old) :
    Agrees l { s with heap := (s.heap.retain v).release old, stack := s.stack.setIfInBounds i v }
      (a.put (a.inSlot i) v) := by
  have h1 := hg.backs.retain hv
  have h2 := h1.backs.mono (le_of_eq (show old ::ₘ ((OpenOuters.values s.cells : Multiset Value) +
      (s.own + ((s.stack.setIfInBounds i v).toList : Multiset Value))) = _ by
    rw [← Multiset.add_cons, owned_set hold, Multiset.add_cons]
    rfl))
  have hsame := (Heap.SameCells.retain s.heap v).trans (Heap.SameCells.release _ old)
    (Nat.le_of_eq (Heap.size_retain s.heap v).symm)
  obtain ⟨hlt, -⟩ := Array.getElem?_eq_some_iff.1 hold
  refine hg.change (h1.trans h2.release) rfl rfl ?_ (fun c j hc => ?_)
    (fun k c x st hk hx hst => ?_) fun j w hw => ?_
  · rw [Array.size_setIfInBounds]
    exact hg.tracks.height
  · rw [Array.size_setIfInBounds]
    exact (hg.tracks.opened c j hc).1
  · rw [put_ne (inSlot_ne_past hx)]
    exact hg.past_of_same hsame hk hx hst
  · by_cases hij : i = j
    · subst hij
      rw [Array.getElem?_setIfInBounds_self_of_lt hlt, Option.some.injEq] at hw
      rw [put_self, hw]
    · rw [Array.getElem?_setIfInBounds_ne hij] at hw
      rw [put_ne fun heq => hij (congrArg Prod.fst heq).symm]
      exact hg.tracks.slots j w hw

theorem Agrees.push (hg : Agrees l s a) {v : Value} (hv : s.heap.Has v) :
    Agrees l (s.step (.push v)) (a.step (.push v)) := by
  have h1 := hg.backs.retain hv
  have h2 : Heap.Moves l ((OpenOuters.values s.cells : Multiset Value) +
      (s.own + ((s.stack.push v).toList : Multiset Value))) s.heap (s.heap.retain v) := by
    refine ⟨h1.backs.mono (le_of_eq ?_), h1.evolves⟩
    rw [Array.toList_push, ← Multiset.coe_add, Multiset.coe_singleton, ← Multiset.singleton_add]
    simp only [owned]
    ac_rfl
  refine hg.change h2 rfl rfl ?_ (fun c i hc => ?_) (fun k c x st hk hx hst => ?_) fun i w hw => ?_
  · simp [Variables.step, hg.tracks.height]
  · have := (hg.tracks.opened c i hc).1
    rw [Array.size_push]
    omega
  · show st = .closed ((a.put (a.inSlot a.height) v).value x)
    rw [put_ne (inSlot_ne_past hx)]
    exact hg.past_of_same (.retain s.heap v) hk hx hst
  · show (a.put (a.inSlot a.height) v).value (a.inSlot i) = w
    rw [hg.tracks.height]
    rw [Array.getElem?_push] at hw
    split at hw
    · rename_i heq
      rw [heq, put_self]
      exact Option.some.inj hw
    · rename_i hne
      rw [put_ne fun heq => hne (congrArg Prod.fst heq)]
      exact hg.tracks.slots i w hw

theorem Agrees.truncate (hg : Agrees l s a) {n : Nat}
    (hn : ∀ c i, s.heap.stackIndex? c = some i → i < n) :
    Agrees l (s.step (.truncate n)) (a.step (.truncate n)) := by
  have hsplit : s.owned = ((s.stack.extract n s.stack.size).toList : Multiset Value) +
      ((OpenOuters.values s.cells : Multiset Value) +
        (s.own + ((s.stack.shrink n).toList : Multiset Value))) := by
    have hstack : (s.stack.toList : Multiset Value) = ((s.stack.shrink n).toList : Multiset Value) +
        ((s.stack.extract n s.stack.size).toList : Multiset Value) := by
      have hgone : (s.stack.extract n s.stack.size).toList = s.stack.toList.drop n := by
        rw [Array.toList_extract, List.extract_eq_take_drop, List.take_of_length_le (by simp)]
      rw [hgone, Multiset.coe_add, Array.toList_shrink, List.take_append_drop]
    rw [owned, hstack]
    ac_rfl
  refine hg.change (hsplit ▸ hg.backs).releaseAll rfl rfl ?_ (fun c i hc => ?_)
    (fun k c x st hk hx hst => hg.past_of_same (.releaseAll s.heap _) hk hx hst) fun i v hv => ?_
  · simp [Variables.step, hg.tracks.height]
  · have hlt := (hg.tracks.opened c i hc).1
    have hbelow := hn c i hc
    simp only [Array.size_shrink]
    omega
  · refine hg.tracks.slots i v ?_
    obtain ⟨hlt, rfl⟩ := Array.getElem?_eq_some_iff.1 hv
    simp at hlt
    simp [hlt]

theorem Agrees.store (hg : Agrees l s a) {k : Nat} {c : Ref} {v : Value} (hv : s.heap.Has v)
    (hk : s.handles[k]? = some c) (hc : s.heap.Has (.outer c)) :
    Agrees l (s.step (.store k v)) (a.step (.store k v)) := by
  obtain ⟨x, hx⟩ : ∃ x, a.captured[k]? = some x := by
    refine ⟨_, List.getElem?_eq_getElem ?_⟩
    rw [← hg.tracks.length]
    exact (List.getElem?_eq_some_iff.1 hk).1
  have hn : Named s a k c x := ⟨hk, hx⟩
  simp only [Captures.step, Variables.step, hk, hx, OpenOuters.write]
  have hretain : (s.heap.retain v).outerState? c = s.heap.outerState? c := by
    simp only [Heap.outerState?, Heap.body?_retain]
  rcases Nat.lt_or_eq_of_le (hg.tracks.begun k c x hn) with hlt | heq
  · obtain ⟨st, hst⟩ := hc.outer
    have hstate := Heap.outerState?_eq_some.2 hst
    rw [hg.tracks.past k c x st hn hlt hstate] at hstate
    have hclosed : (s.heap.retain v).stackIndex? c = none := by
      simp [Heap.stackIndex?, hretain, hstate]
    rw [hclosed]
    have h1 := hg.backs.retain hv
    refine hg.change (h1.trans h1.backs.setClosed) rfl rfl hg.tracks.height
      (fun d i hd => (hg.tracks.opened d i hd).1) (fun j d y st' hj hy hst' => ?_) fun i w hw => ?_
    · rcases Heap.states_setClosed (hretain.trans hstate) hst' with ⟨rfl, rfl⟩ | ⟨hne, hold⟩
      · rw [(hg.tracks.same j k d d y x hj hn).1 rfl, put_self]
      · rw [put_ne fun hyx => hne ((hg.tracks.same j k d c y x hj hn).2 hyx)]
        refine hg.tracks.past j d y st' hj hy (Heap.SameCells.retain s.heap v d st' ?_ hold)
        exact hg.tracks.known j d hj.1
    · rw [put_ne (inSlot_ne_past hlt).symm]
      exact hg.tracks.slots i w hw
  · have hopen := hg.tracks.current k c x hn heq
    obtain ⟨hi, -⟩ := hg.tracks.opened c x.1 hopen
    have hopen1 : (s.heap.retain v).stackIndex? c = some x.1 :=
      Heap.stackIndex?_eq_some.2 (hretain.trans (Heap.stackIndex?_eq_some.1 hopen))
    have hold : s.stack[x.1]? = some s.stack[x.1] := Array.getElem?_eq_getElem hi
    have hxs : x = a.inSlot x.1 := Prod.ext rfl heq
    simp only [hopen1, hold]
    have hover := hg.overwrite hv hold
    rwa [← hxs] at hover

/-! ### Capturing -/

theorem named_snoc (hlen : s.handles.length = a.captured.length) {c d : Ref} {x y : Variable}
    {k : Nat} {heap : Heap} {cells : Array Ref} {own : Multiset Value} :
    Named { s with heap, cells, own, handles := s.handles ++ [c] }
        { a with captured := a.captured ++ [x] } k d y ↔
      Named s a k d y ∨ (k = s.handles.length ∧ d = c ∧ y = x) := by
  simp only [Named]
  rcases Nat.lt_trichotomy k s.handles.length with hlt | rfl | hgt
  · rw [List.getElem?_append_left hlt, List.getElem?_append_left (hlen ▸ hlt)]
    simp [Nat.ne_of_lt hlt]
  · have hnone : a.captured[s.handles.length]? = none := List.getElem?_eq_none (by omega)
    rw [List.getElem?_concat_length, hlen, List.getElem?_concat_length, ← hlen]
    simp [hnone, eq_comm]
  · have hafter : (s.handles ++ [c])[k]? = none :=
      List.getElem?_eq_none (by rw [List.length_append, List.length_singleton]; omega)
    have hbefore : s.handles[k]? = none := List.getElem?_eq_none (by omega)
    simp [hafter, hbefore, Nat.ne_of_gt hgt]

/-- An earlier capture has the cell of the slot just when it was of the same variable. -/
theorem Agrees.captured_iff (hg : Agrees l s a) {i k : Nat} {c d : Ref} {y : Variable}
    {cells : List Ref} {h : Heap} (ho : OpenOuters.Opens i c s.cells.toList cells s.heap h)
    (hk : Named s a k d y) : d = c ↔ y = a.inSlot i := by
  constructor
  · rintro rfl
    have hopen := ho.origin.resolve_right (Nat.not_le.2 (hg.tracks.known k d hk.1))
    obtain ⟨-, j, hj⟩ := hg.tracks.opened d i hopen
    exact (hg.tracks.same k j d d y _ hk hj).1 rfl
  · rintro rfl
    by_contra hne
    have hd : h.stackIndex? d = some i := by
      rw [ho.index, if_neg hne]
      exact hg.tracks.current k d _ hk rfl
    have hc : h.stackIndex? c = some i := by rw [ho.index, if_pos rfl]
    exact hne (ho.lists.unique hd hc)

theorem Agrees.capture (hg : Agrees l s a) {i : Nat} (hi : i < s.stack.size) :
    Agrees l (s.step (.capture i)) (a.step (.capture i)) := by
  obtain ⟨hback, hopens, hdrifts, -⟩ := OpenOuters.capture_spec i hg.opens hg.backs
  have ho := (OpenOuters.capture_inOrder i hg.opens.lists hg.opens.inOrder hg.backs).2
  have hsame : ∀ {k d y}, Named s a k d y → (d = _ ↔ y = a.inSlot i) := hg.captured_iff ho
  have hlen := hg.tracks.length
  simp only [Captures.step, Variables.step]
  refine ⟨hback.mono (le_of_eq ?_), hopens, ⟨hg.tracks.height, ?_, fun k d hk => ?_,
    fun j k c d x y hj hk => ?_, fun k c x hk => ?_, fun k c x hk hx => ?_,
    fun k c x st hk hx hst => ?_, fun c j hc => ?_, hg.tracks.slots⟩⟩
  · simp only [owned, Multiset.cons_add, Multiset.add_cons]
  · simp [hlen]
  · rcases List.mem_append.1 (List.mem_of_getElem? hk) with hd | hd
    · obtain ⟨j, hj⟩ := List.mem_iff_getElem?.1 hd
      exact Nat.lt_of_lt_of_le (hg.tracks.known j d hj) hdrifts.size
    · rw [List.mem_singleton.1 hd]
      exact ho.alive
  · rw [named_snoc hlen] at hj hk
    rcases hj with hj | ⟨-, rfl, rfl⟩ <;> rcases hk with hk | ⟨-, rfl, rfl⟩
    · exact hg.tracks.same j k c d x y hj hk
    · exact hsame hj
    · rw [eq_comm, hsame hk, eq_comm]
    · simp
  · rw [named_snoc hlen] at hk
    rcases hk with hk | ⟨-, rfl, rfl⟩
    · exact hg.tracks.begun k c x hk
    · exact Nat.le_refl _
  · rw [named_snoc hlen] at hk
    rw [ho.index]
    rcases hk with hk | ⟨-, rfl, rfl⟩
    · split
      · rename_i heq
        rw [(hsame hk).1 heq]
        rfl
      · exact hg.tracks.current k c x hk hx
    · exact if_pos rfl
  · rw [named_snoc hlen] at hk
    rcases hk with hk | ⟨-, rfl, rfl⟩
    · have hold := hst
      rw [Heap.outerState?, OpenOuters.body?_capture i (hg.tracks.known k c hk.1)] at hold
      exact hg.tracks.past k c x st hk hx hold
    · exact absurd hx (Nat.lt_irrefl _)
  · rw [ho.index] at hc
    split at hc
    · rename_i heq
      cases hc
      exact ⟨hi, s.handles.length, (named_snoc hlen).2 (.inr ⟨rfl, heq, rfl⟩)⟩
    · obtain ⟨hlt, k, hk⟩ := hg.tracks.opened c j hc
      exact ⟨hlt, k, (named_snoc hlen).2 (.inl hk)⟩

/-! ### The end of scopes -/

theorem scope_close (a : Variables) (j i : Nat) :
    (a.close j).scope i = if j ≤ i then a.scope i + 1 else a.scope i := rfl

theorem inSlot_close_of_lt {i j : Nat} (hi : i < j) : (a.close j).inSlot i = a.inSlot i := by
  simp [Variables.inSlot, Variables.close, Nat.not_le.2 hi]

theorem inSlot_close_of_le {i j : Nat} (hj : j ≤ i) :
    (a.close j).inSlot i = (i, a.scope i + 1) := by
  simp [Variables.inSlot, scope_close, hj]

/-- The variables that there have been keep their values. -/
theorem value_close (j : Nat) {x : Variable} (hx : x.2 ≤ a.scope x.1) :
    (a.close j).value x = a.value x :=
  if_neg fun h => by omega

/-- The cell of a variable whose scope has ended by now is closed over its value. -/
theorem Agrees.settled_eq (hg : Agrees l s a) {j k : Nat} {c : Ref} {x : Variable}
    {st : OuterState} (hk : Named s a k c x) (hx : x.2 < (a.close j).scope x.1)
    (hst : s.heap.outerState? c = some st) :
    OpenOuters.settled j s.stack st = .closed (a.value x) := by
  rcases Nat.lt_or_eq_of_le (hg.tracks.begun k c x hk) with hlt | heq
  · rw [hg.tracks.past k c x st hk hlt hst]
    rfl
  · have hopen := hg.tracks.current k c x hk heq
    obtain ⟨hlt, -⟩ := hg.tracks.opened c x.1 hopen
    have hslot := hg.tracks.slots x.1 _ (Array.getElem?_eq_getElem hlt)
    have hxs : a.inSlot x.1 = x := Prod.ext rfl heq.symm
    rw [hxs] at hslot
    rw [Heap.stackIndex?_eq_some, hst, Option.some.injEq] at hopen
    have hge : ¬ x.1 < j := by
      rw [scope_close] at hx
      split at hx <;> omega
    rw [hopen, hslot, OpenOuters.settled, if_neg hge, Array.getElem?_eq_getElem hlt]
    rfl

theorem Agrees.close (hg : Agrees l s a) (j : Nat) :
    Agrees l (s.step (.close j)) (a.step (.close j)) := by
  have hstack : ∀ v ∈ s.stack.toList, v ∈ s.own + (s.stack.toList : Multiset Value) :=
    fun v hv => Multiset.mem_add.2 (.inr hv)
  obtain ⟨hback, hopens, hdrifts, hback1⟩ : _ ∧ _ ∧ _ ∧ ∀ c i,
      (OpenOuters.closeFrom s.heap s.cells j s.stack).2.2.outerState? c = some (.opened i) →
        s.heap.outerState? c = some (.opened i) ∧ i < j :=
    OpenOuters.closeWithin_spec s.cells.size 0 (Nat.le_refl _) hg.opens hg.backs hstack
  refine ⟨hback, hopens, ⟨hg.tracks.height, hg.tracks.length, fun k c hc => ?_, hg.tracks.same,
    fun k c x hk => ?_, fun k c x hk hx => ?_, fun k c x st' hk hx hst' => ?_, fun c i hc => ?_,
    fun i v hv => ?_⟩⟩
  · exact Nat.lt_of_lt_of_le (hg.tracks.known k c hc) hdrifts.size
  · have hle := hg.tracks.begun k c x hk
    show x.2 ≤ (a.close j).scope x.1
    rw [scope_close]
    split <;> omega
  · have hle := hg.tracks.begun k c x hk
    replace hx : x.2 = (a.close j).scope x.1 := hx
    rw [scope_close] at hx
    split at hx
    · omega
    · exact OpenOuters.closeFrom_below hg.opens hg.backs hstack (hg.tracks.current k c x hk hx)
        (by omega)
  · -- the cell lived before, with a state that closing has settled
    obtain ⟨st, hst⟩ := hdrifts.outerState? (hg.tracks.known k c hk.1) hst'
    have hsettled : st' = OpenOuters.settled j s.stack st :=
      OpenOuters.closeWithin_states s.cells.size 0 (Nat.le_refl _) hg.opens hg.backs hstack hst hst'
    show st' = .closed ((a.close j).value x)
    rw [value_close j (hg.tracks.begun k c x hk), hsettled]
    exact hg.settled_eq hk hx hst
  · obtain ⟨hold, hlt⟩ := hback1 c i (Heap.stackIndex?_eq_some.1 hc)
    obtain ⟨hi, k, hk⟩ := hg.tracks.opened c i (Heap.stackIndex?_eq_some.2 hold)
    exact ⟨hi, k, hk.1, (inSlot_close_of_lt hlt).symm ▸ hk.2⟩
  · have hold := hg.tracks.slots i v hv
    show (a.close j).value ((a.close j).inSlot i) = v
    by_cases hj : j ≤ i
    · rw [inSlot_close_of_le hj]
      exact (if_pos ⟨hj, rfl⟩).trans hold
    · rw [inSlot_close_of_lt (by omega), value_close j (Nat.le_refl _)]
      exact hold

/-! ## Whole runs -/

theorem Agrees.step (hg : Agrees l s a) {op : VariableOp} (hop : s.Allows l op) :
    Agrees l (s.step op) (a.step op) := by
  cases op with
  | capture i => exact hg.capture hop
  | assign i v =>
    have hlt : i < s.stack.size := hop.1
    have hold : s.stack[i]? = some s.stack[i] := Array.getElem?_eq_getElem hlt
    simp only [Captures.step, Variables.step, hold]
    exact hg.overwrite hop.2 hold
  | push v => exact hg.push hop
  | truncate n => exact hg.truncate hop
  | store k v =>
    obtain ⟨hv, c, hk, hc⟩ := hop
    exact hg.store hv hk hc
  | close j => exact hg.close j
  | elsewhere h own => exact hg.elsewhere hop.1 hop.2

theorem Agrees.run (hg : Agrees l s a) {ops : List VariableOp} (hops : s.AllowsAll l ops) :
    Agrees l (s.run ops) (a.run ops) := by
  induction ops generalizing s a with
  | nil => exact hg
  | cons op ops ih => exact ih (hg.step hops.1) hops.2

/-- A stack on a heap where nothing is captured yet. -/
def start (heap : Heap) (stack : Array Value) (own : Multiset Value) : Captures :=
  { heap, stack, own }

theorem start_agrees {heap : Heap} {stack : Array Value} {own : Multiset Value}
    (hheap : heap.Backs l (own + (stack.toList : Multiset Value)))
    (hnone : ∀ c i, heap.stackIndex? c ≠ some i) :
    Agrees l (start heap stack own) (.ofStack stack) where
  backs := by simpa [owned, start, OpenOuters.values] using hheap
  opens := ⟨fun _ hc => by simp [start] at hc, List.Pairwise.nil, fun c i hc => absurd hc (hnone c i)⟩
  tracks :=
    { height := rfl
      length := rfl
      known := fun k c hk => by simp [start] at hk
      same := fun j k c d x y hj => by simp [Named, start] at hj
      begun := fun k c x hk => by simp [Named, start] at hk
      current := fun k c x hk => by simp [Named, start] at hk
      past := fun k c x st hk => by simp [Named, start] at hk
      opened := fun c i hc => absurd hc (hnone c i)
      slots := fun i v hv => by
        show (stack[i]?).getD .null = v
        rw [show stack[i]? = some v from hv]
        rfl }

/-! ### When captures give the same cell -/

theorem run_append (s : Captures) (ops ops' : List VariableOp) :
    s.run (ops ++ ops') = (s.run ops).run ops' := List.foldl_append ..

theorem allowsAll_append {ops ops' : List VariableOp} :
    s.AllowsAll l (ops ++ ops') ↔ s.AllowsAll l ops ∧ (s.run ops).AllowsAll l ops' := by
  induction ops generalizing s with
  | nil => simp [AllowsAll, run]
  | cons op ops ih => simp only [List.cons_append, AllowsAll, ih, and_assoc]; rfl

/-- Scopes only end, and that of a slot does so when the slot is closed. -/
theorem scope_run (a : Variables) (i : Nat) (ops : List VariableOp) :
    a.scope i ≤ (a.run ops).scope i ∧
      ((a.run ops).scope i = a.scope i ↔ ∀ j, .close j ∈ ops → i < j) := by
  induction ops generalizing a with
  | nil => simp [Variables.run]
  | cons op ops ih =>
    obtain ⟨hle, hiff⟩ := ih (a.step op)
    have hsame : ∀ {op : VariableOp}, (∀ j, op ≠ .close j) → (a.step op).scope i = a.scope i := by
      intro op hop
      cases op with
      | store k v =>
        simp only [Variables.step]
        split <;> rfl
      | close j => exact absurd rfl (hop j)
      | capture | assign | push | truncate | elsewhere => rfl
    show a.scope i ≤ ((a.step op).run ops).scope i ∧ (((a.step op).run ops).scope i = a.scope i ↔ _)
    by_cases hop : ∃ j, op = .close j
    · obtain ⟨j, rfl⟩ := hop
      have hscope : (a.step (.close j)).scope i = if j ≤ i then a.scope i + 1 else a.scope i := rfl
      rw [hscope] at hle hiff
      by_cases hj : j ≤ i
      · rw [if_pos hj] at hle
        refine ⟨by omega, fun heq => by omega, fun h => ?_⟩
        exact absurd (h j List.mem_cons_self) (by omega)
      · rw [if_neg hj] at hle hiff
        refine ⟨hle, hiff.trans ⟨fun h k hk => ?_, fun h k hk => h k (List.mem_cons_of_mem _ hk)⟩⟩
        rcases List.mem_cons.1 hk with heq | hk
        · cases heq
          omega
        · exact h k hk
    · have hne : ∀ j, op ≠ .close j := fun j h => hop ⟨j, h⟩
      rw [hsame hne] at hle hiff
      refine ⟨hle, hiff.trans ⟨fun h k hk => ?_, fun h k hk => h k (List.mem_cons_of_mem _ hk)⟩⟩
      rcases List.mem_cons.1 hk with heq | hk
      · exact absurd heq.symm (hne k)
      · exact h k hk

/-- Captures are only added. -/
theorem captured_run {k : Nat} {c : Ref} {x : Variable} (ops : List VariableOp)
    (hn : Named s a k c x) : Named (s.run ops) (a.run ops) k c x := by
  induction ops generalizing s a with
  | nil => exact hn
  | cons op ops ih =>
    refine ih ?_
    obtain ⟨hk, hx⟩ := hn
    have hlt := (List.getElem?_eq_some_iff.1 hk).1
    have hlt' := (List.getElem?_eq_some_iff.1 hx).1
    cases op with
    | capture i =>
      exact ⟨(List.getElem?_append_left hlt).trans hk, (List.getElem?_append_left hlt').trans hx⟩
    | assign i v =>
      simp only [Captures.step]
      split <;> exact ⟨hk, hx⟩
    | store j v =>
      simp only [Captures.step, Variables.step, Named]
      constructor
      · split <;> exact hk
      · split <;> exact hx
    | push | truncate | close | elsewhere => exact ⟨hk, hx⟩

theorem Agrees.named_capture (hg : Agrees l s a) (i : Nat) :
    ∃ c, Named (s.step (.capture i)) (a.step (.capture i)) s.handles.length c (a.inSlot i) := by
  refine ⟨(OpenOuters.capture s.heap s.cells i).1, ?_, ?_⟩
  · exact List.getElem?_concat_length
  · rw [hg.tracks.length]
    exact List.getElem?_concat_length

/-- Two captures of a slot return the same cell just when the slot was not closed
in between. -/
theorem Agrees.same_iff (hg : Agrees l s a) {i : Nat} {between : List VariableOp}
    (hops : s.AllowsAll l (.capture i :: (between ++ [.capture i]))) :
    ∃ c d, (s.run (.capture i :: (between ++ [.capture i]))).handles[s.handles.length]? = some c ∧
      (s.run (.capture i :: (between ++ [.capture i]))).handles.getLast? = some d ∧
      (c = d ↔ ∀ j, .close j ∈ between → i < j) := by
  obtain ⟨hfirst, hrest⟩ := hops
  obtain ⟨hbetween, hlast, -⟩ := allowsAll_append.1 hrest
  have hg1 := hg.step hfirst
  have hg2 := hg1.run hbetween
  obtain ⟨c, hc⟩ := hg.named_capture i
  obtain ⟨d, hd⟩ := hg2.named_capture i
  have hc' := captured_run [.capture i] (captured_run between hc)
  have hrun : s.run (.capture i :: (between ++ [.capture i])) =
      ((s.step (.capture i)).run between).step (.capture i) := by
    show (s.step (.capture i)).run (between ++ [.capture i]) = _
    rw [run_append]
    rfl
  refine ⟨c, d, by rw [hrun]; exact hc'.1, ?_, ?_⟩
  · rw [hrun]
    have hlast : (((s.step (.capture i)).run between).step (.capture i)).handles =
      ((s.step (.capture i)).run between).handles ++
        [(OpenOuters.capture ((s.step (.capture i)).run between).heap
          ((s.step (.capture i)).run between).cells i).1] := rfl
    have hdlast := hd.1
    rw [hlast, List.getElem?_concat_length] at hdlast
    rw [hlast, List.getLast?_concat, hdlast]
  · rw [(hg2.step hlast).tracks.same _ _ c d _ _ hc' hd]
    obtain ⟨-, hiff⟩ := scope_run (a.step (.capture i)) i between
    rw [← hiff]
    simp only [Variables.inSlot, Prod.mk.injEq, true_and]
    exact eq_comm

/-- Once its scope has ended, only a store through a cell of the variable changes it. -/
theorem value_step_past {x : Variable} (hx : x.2 < a.scope x.1) {op : VariableOp}
    (hop : ∀ k v, op = .store k v → a.captured[k]? ≠ some x) : (a.step op).value x = a.value x := by
  cases op with
  | assign i v => exact put_ne (inSlot_ne_past hx)
  | push v => exact put_ne (inSlot_ne_past hx)
  | store k v =>
    simp only [Variables.step]
    cases hk : a.captured[k]? with
    | none => rfl
    | some y =>
      refine put_ne ?_
      rintro rfl
      exact hop k v rfl hk
  | close j => exact if_neg fun h => Nat.not_succ_lt_self (h.2 ▸ hx)
  | capture | truncate | elsewhere => rfl

/-- Captured variables are shared. The list has just open cells, by ascending
slot; two captures of a slot return the same cell just when it was not closed in
between; and a living cell reads as what was assigned to its variable last, which
once the scope has ended nothing changes but a store through a cell of it. -/
theorem captured_variables_shared (l : Law) (heap : Heap) (stack : Array Value)
    (own : Multiset Value) (ops : List VariableOp)
    (hheap : heap.Backs l (own + (stack.toList : Multiset Value)))
    (hnone : ∀ c i, heap.stackIndex? c ≠ some i) (hops : (start heap stack own).AllowsAll l ops) :
    (((start heap stack own).run ops).cells.toList.Pairwise
        ((start heap stack own).run ops).heap.Below ∧
      ∀ c, c ∈ ((start heap stack own).run ops).cells.toList ↔
        ∃ i, ((start heap stack own).run ops).heap.stackIndex? c = some i) ∧
    (∀ before i between, ops = before ++ .capture i :: (between ++ [.capture i]) →
      ∃ c d, ((start heap stack own).run ops).handles[
          ((start heap stack own).run before).handles.length]? = some c ∧
        ((start heap stack own).run ops).handles.getLast? = some d ∧
        (c = d ↔ ∀ j, .close j ∈ between → i < j)) ∧
    ∀ (k : Nat) (c : Ref), ((start heap stack own).run ops).handles[k]? = some c →
      ((start heap stack own).run ops).heap.Has (.outer c) →
      ∃ x, ((Variables.ofStack stack).run ops).captured[k]? = some x ∧
        OpenOuters.read ((start heap stack own).run ops).heap c
          ((start heap stack own).run ops).stack = ((Variables.ofStack stack).run ops).value x ∧
        (x.2 < ((Variables.ofStack stack).run ops).scope x.1 → ∀ op,
          (∀ j v, op = .store j v → ((Variables.ofStack stack).run ops).captured[j]? ≠ some x) →
          (((Variables.ofStack stack).run ops).step op).value x =
            ((Variables.ofStack stack).run ops).value x) := by
  have hstart := start_agrees hheap hnone
  have hg := hstart.run hops
  refine ⟨⟨hg.opens.ascending, fun c => ⟨hg.opens.opened c, ?_⟩⟩, ?_, fun k c hk hc => ?_⟩
  · rintro ⟨i, hi⟩
    exact hg.opens.listed c i hi
  · rintro before i between rfl
    obtain ⟨hbefore, hafter⟩ := allowsAll_append.1 hops
    rw [run_append]
    exact (hstart.run hbefore).same_iff hafter
  · have hlt := (List.getElem?_eq_some_iff.1 hk).1
    rw [hg.tracks.length] at hlt
    have hn : Named _ _ k c _ := ⟨hk, List.getElem?_eq_getElem hlt⟩
    exact ⟨_, hn.2, hg.read_eq hn hc, fun hx op hop => value_step_past hx hop⟩

/-- What a capture returned stays owned while nothing else changes hands. -/
theorem handles_owned {ops : List VariableOp} (hown : ∀ c ∈ s.handles, Value.outer c ∈ s.own)
    (hops : ∀ h own, .elsewhere h own ∉ ops) :
    ∀ c ∈ (s.run ops).handles, Value.outer c ∈ (s.run ops).own := by
  induction ops generalizing s with
  | nil => exact hown
  | cons op ops ih =>
    refine ih ?_ fun h own hm => hops h own (List.mem_cons_of_mem _ hm)
    cases op with
    | capture i =>
      intro c hc
      rcases List.mem_append.1 hc with hc | hc
      · exact Multiset.mem_cons_of_mem (hown c hc)
      · rw [List.mem_singleton.1 hc]
        exact Multiset.mem_cons_self _ _
    | assign i v =>
      simp only [step]
      split <;> exact hown
    | store k v =>
      simp only [step]
      split <;> exact hown
    | push | truncate | close => exact hown
    | elsewhere h own => exact absurd List.mem_cons_self (hops h own)

/-- Two captures share a slot, which is closed and starts over with another
variable. -/
def reusedSlot : List VariableOp :=
  [.capture 0, .assign 0 (.integer 7), .capture 0, .close 0, .assign 0 (.integer 9)]

/-- Then the first variable is written through its cell, and the other captured. -/
def afterReuse : Captures :=
  (start {} #[.integer 1] 0).run (reusedSlot ++ [.store 1 (.integer 8), .capture 0])

theorem captured_variables_shared_reusedSlot :
    ∃ c d, afterReuse.handles[0]? = some c ∧ afterReuse.handles.getLast? = some d ∧ c ≠ d ∧
      OpenOuters.read afterReuse.heap c afterReuse.stack = .integer 8 ∧
      OpenOuters.read afterReuse.heap d afterReuse.stack = .integer 9 := by
  let l : Law := ⟨fun _ _ => True, fun _ => True⟩
  have hint : ∀ (h : Heap) (n : Int64), h.Has (.integer n) := fun _ _ => Heap.has_of_none rfl
  have hheap : ({} : Heap).Backs l (0 + ((#[.integer 1] : Array Value).toList : Multiset Value)) :=
    (Heap.Backs.empty l {}).own_plain rfl
  have hnone : ∀ c i, ({} : Heap).stackIndex? c ≠ some i := fun c i hc => by cases hc
  -- what captures have returned is owned, hence lives
  have hlive : ∀ ops, (∀ h own, VariableOp.elsewhere h own ∉ ops) →
      (start {} #[.integer 1] 0).AllowsAll l ops →
      ∀ c ∈ ((start {} #[.integer 1] 0).run ops).handles,
        ((start {} #[.integer 1] 0).run ops).heap.Has (.outer c) := by
    intro ops hne hops c hc
    refine ((start_agrees hheap hnone).run hops).backs.has ?_
    refine Multiset.mem_add.2 (.inr (Multiset.mem_add.2 (.inl ?_)))
    exact handles_owned (fun _ h => absurd h List.not_mem_nil) hne c hc
  have hfirst : (start {} #[.integer 1] 0).AllowsAll l reusedSlot := by
    simp [AllowsAll, Allows, step, start, reusedSlot, hint]
  have hlen : ((start {} #[.integer 1] 0).run reusedSlot).handles.length = 2 := by
    simp [run, reusedSlot, step, start]
  have hops : (start {} #[.integer 1] 0).AllowsAll l
      (reusedSlot ++ [.store 1 (.integer 8), .capture 0]) := by
    have hget := List.getElem?_eq_getElem (hlen ▸ Nat.one_lt_two)
    refine allowsAll_append.2 ⟨hfirst, ⟨hint _ _, _, hget, ?_⟩, ?_, trivial⟩
    · exact hlive _ (by simp [reusedSlot]) hfirst _ (List.mem_of_getElem? hget)
    · have hg := ((start_agrees hheap hnone).run hfirst).store (hint _ 8) hget
        (hlive _ (by simp [reusedSlot]) hfirst _ (List.mem_of_getElem? hget))
      show 0 < (((start {} #[.integer 1] 0).run reusedSlot).step (.store 1 (.integer 8))).stack.size
      rw [← hg.tracks.height]
      exact Nat.one_pos
  obtain ⟨-, hsame, hread⟩ := captured_variables_shared l {} #[.integer 1] 0 _ hheap hnone hops
  obtain ⟨c, d, hc, hd, hiff⟩ := hsame [] 0
    [.assign 0 (.integer 7), .capture 0, .close 0, .assign 0 (.integer 9), .store 1 (.integer 8)] rfl
  have hlast := hlive _ (by simp [reusedSlot]) hops
  obtain ⟨x, hx, hcx, -⟩ := hread 0 c hc (hlast c (List.mem_of_getElem? hc))
  have hd2 := hd
  rw [List.getLast?_eq_getElem?, ((start_agrees hheap hnone).run hops).tracks.length] at hd2
  obtain ⟨y, hy, hdy, -⟩ := hread 2 d hd2 (hlast d (List.mem_of_getLast? hd))
  refine ⟨c, d, hc, hd, fun h => ?_, hcx.trans ?_, hdy.trans ?_⟩
  · exact absurd (hiff.1 h 0 (by simp)) (Nat.lt_irrefl 0)
  · cases hx
    rfl
  · cases hy
    rfl

end Captures

end ScriptMachine
