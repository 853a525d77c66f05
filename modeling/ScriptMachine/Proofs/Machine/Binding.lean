import ScriptMachine.Proofs.Heap.Shedding
import ScriptMachine.Proofs.Machine.Entering

/-!
# What an entered function finds

The registers of a new frame hold the arguments, the default values and nulls, all
at once and whatever the stack held there before. A function that does not accept
its arguments is refused.
-/

set_option autoImplicit false

namespace ScriptMachine

/-! ## Laying values over a stack -/

/-- Values in the slots from one on, as far as there are slots. -/
def overlay (s : Array Value) (start : Nat) : List Value → Array Value
  | [] => s
  | v :: vs => overlay (s.setIfInBounds start v) (start + 1) vs

section

variable {s : Array Value} {start j : Nat} {vs ws : List Value}

@[simp] theorem size_overlay : (overlay s start vs).size = s.size := by
  induction vs generalizing s start with
  | nil => rfl
  | cons v vs ih => rw [overlay, ih, Array.size_setIfInBounds]

theorem overlay_outside (h : j < start ∨ start + vs.length ≤ j) :
    (overlay s start vs)[j]? = s[j]? := by
  induction vs generalizing s start with
  | nil => rfl
  | cons v vs ih =>
    rw [List.length_cons] at h
    rw [overlay, ih (by omega), Array.getElem?_setIfInBounds_ne (by omega)]

theorem overlay_inside (hs : start + vs.length ≤ s.size) {k : Nat} (hk : k < vs.length) :
    (overlay s start vs)[start + k]? = vs[k]? := by
  induction vs generalizing s start k with
  | nil => cases hk
  | cons v vs ih =>
    rw [List.length_cons] at hs hk
    cases k with
    | zero =>
      rw [overlay, overlay_outside (.inl (by omega)), Nat.add_zero,
        Array.getElem?_setIfInBounds_self_of_lt (by omega)]
      rfl
    | succ k =>
      rw [overlay, show start + (k + 1) = start + 1 + k by omega,
        ih (by rw [Array.size_setIfInBounds]; omega) (by omega), List.getElem?_cons_succ]

end

/-! ## Machines on another stack -/

/-- The machine has another stack, and has lost objects or gained new ones. -/
structure Machine.Turns (stack : Array Value) (m m' : Machine) : Prop where
  rest : m' = { m with stack, heap := m'.heap }
  sheds : m.heap.Sheds m'.heap

namespace Machine.Turns

variable {m m' m'' : Machine} {s s' : Array Value}

theorem of_heap {h : Heap} (hh : m.heap.Sheds h) : Turns m.stack m (m.withHeap h) := ⟨rfl, hh⟩

theorem trans (h1 : Turns s m m') (h2 : Turns s' m' m'') : Turns s' m m'' := by
  refine ⟨?_, h1.sheds.trans h2.sheds⟩
  have := h2.rest
  rw [h1.rest] at this
  exact this

theorem stack_eq (h : Turns s m m') : m'.stack = s := by rw [h.rest]

theorem frames_eq (h : Turns s m m') : m'.frames = m.frames := by rw [h.rest]

theorem openOuters_eq (h : Turns s m m') : m'.openOuters = m.openOuters := by rw [h.rest]

end Machine.Turns

namespace Exec

variable {m : Machine} {s : Array Value}

theorem writeSlot_turns {i : Nat} (v : Value) (hi : i < m.stack.size) :
    ∃ m', writeSlot i v m = .ok true m' ∧ Machine.Turns (m.stack.setIfInBounds i v) m m' :=
  ⟨_, writeSlot_found v (Array.getElem?_eq_getElem hi), rfl, .of_trims (Heap.trims_release _ _)⟩

theorem nullSlots_turns (start count : Nat) (hin : start + count ≤ m.stack.size) :
    ∃ m', nullSlots start count m = .ok () m' ∧
      Machine.Turns (overlay m.stack start (List.replicate count .null)) m m' := by
  induction count generalizing start m with
  | zero => exact ⟨m, rfl, rfl, .refl _⟩
  | succ count ih =>
    obtain ⟨m1, heq1, h1⟩ := writeSlot_turns (m := m) .null (show start < m.stack.size by omega)
    have hsize1 : m1.stack.size = m.stack.size := by rw [h1.stack_eq, Array.size_setIfInBounds]
    obtain ⟨m2, heq2, h2⟩ := ih (m := m1) (start + 1) (by omega)
    refine ⟨m2, ?_, ?_⟩
    · unfold nullSlots
      rw [bind_ok m heq1]
      exact heq2
    · rw [List.replicate_succ, overlay, ← h1.stack_eq]
      exact h1.trans h2

theorem placeSlots_turns (start : Nat) (vs : List Value) (hin : start + vs.length ≤ m.stack.size) :
    ∃ m', placeSlots start vs m = .ok () m' ∧ Machine.Turns (overlay m.stack start vs) m m' := by
  induction vs generalizing start m with
  | nil => exact ⟨m, rfl, rfl, .refl _⟩
  | cons v vs ih =>
    rw [List.length_cons] at hin
    obtain ⟨m1, heq1, h1⟩ := writeSlot_turns (m := m) v (show start < m.stack.size by omega)
    have hsize1 : m1.stack.size = m.stack.size := by rw [h1.stack_eq, Array.size_setIfInBounds]
    obtain ⟨m2, heq2, h2⟩ := ih (m := m1) (start + 1) (by omega)
    refine ⟨m2, ?_, ?_⟩
    · unfold placeSlots
      rw [bind_ok m heq1]
      exact heq2
    · rw [overlay, ← h1.stack_eq]
      exact h1.trans h2

theorem takeSlots_turns (start count : Nat) (hin : start + count ≤ m.stack.size) :
    takeSlots start count m = .ok (m.stack.extract start (start + count)).toList
      { m with stack := overlay m.stack start (List.replicate count .null) } := by
  induction count generalizing start m with
  | zero =>
    have hnone : (m.stack.extract start (start + 0)).toList = [] := by simp
    rw [hnone]
    rfl
  | succ count ih =>
    have hv : m.stack[start]? = some m.stack[start] := Array.getElem?_eq_getElem (by omega)
    have hrest : ((m.stack.setIfInBounds start .null).extract (start + 1) (start + 1 + count)).toList =
        (m.stack.extract (start + 1) (start + (count + 1))).toList := by
      refine List.ext_getElem? fun k => ?_
      simp only [Array.getElem?_toList, Array.getElem?_extract, Array.size_setIfInBounds]
      rw [show start + 1 + count = start + (count + 1) by omega]
      split
      · exact Array.getElem?_setIfInBounds_ne (by omega)
      · rfl
    have hfirst : (m.stack.extract start (start + (count + 1))).toList =
        m.stack[start] :: (m.stack.extract (start + 1) (start + (count + 1))).toList := by
      simp only [Array.toList_extract, List.extract_eq_take_drop]
      rw [List.drop_eq_getElem_cons (by simpa using (show start < m.stack.size by omega)),
        show start + (count + 1) - start = count + 1 by omega, List.take_succ_cons,
        show start + (count + 1) - (start + 1) = count by omega]
      rfl
    unfold takeSlots
    rw [bind_ok m (takeSlot_found hv)]
    simp only
    rw [bind_ok _ (ih (m := { m with stack := m.stack.setIfInBounds start .null }) (start + 1)
      (by simp only [Array.size_setIfInBounds]; omega)), hrest, hfirst]
    rfl

theorem fillSlots_turns (start : Nat) (vs : List Value) (hin : start + vs.length ≤ m.stack.size) :
    ∃ m', fillSlots start vs m = .ok () m' ∧ Machine.Turns (overlay m.stack start vs) m m' := by
  induction vs generalizing start m with
  | nil => exact ⟨m, rfl, rfl, .refl _⟩
  | cons v vs ih =>
    rw [List.length_cons] at hin
    have h0 : Machine.Turns m.stack m (m.withHeap (m.heap.retain v)) :=
      .of_heap (.of_trims (Heap.trims_retain m.heap v))
    obtain ⟨m1, heq1, h1⟩ := writeSlot_turns (m := m.withHeap (m.heap.retain v)) v
      (show start < m.stack.size by omega)
    have hsize1 : m1.stack.size = m.stack.size := by
      rw [h1.stack_eq, Array.size_setIfInBounds, Machine.withHeap_stack]
    obtain ⟨m2, heq2, h2⟩ := ih (m := m1) (start + 1) (by omega)
    refine ⟨m2, ?_, ?_⟩
    · unfold fillSlots
      rw [bind_ok m (retain_eq m v), bind_ok _ heq1]
      exact heq2
    · rw [overlay, ← Machine.withHeap_stack m (m.heap.retain v), ← h1.stack_eq]
      exact h0.trans (h1.trans h2)

end Exec

/-! ## Registers of a new frame -/

/-- Whether a function takes so many arguments, given its default values. -/
def Prototype.Accepts (p : Prototype) (defaults : List Value) (count : Nat) : Prop :=
  if p.varargs then p.parameters.length - 1 ≤ count
  else count ≤ p.parameters.length ∧ p.parameters.length - count ≤ defaults.length

namespace ClosureObject

/-- The arguments as the function has named them: those beyond the last but one
parameter packed, or the missing ones taken from the last default values. -/
def bound (c : ClosureObject) (args : List Value) (packed : Value) : List Value :=
  if c.prototype.varargs then
    (args.take (c.prototype.parameters.length - 1) ++ [packed]).take c.prototype.parameters.length
  else args ++ c.defaults.drop (c.defaults.length - (c.prototype.parameters.length - args.length))

/-- How many registers a frame has at least. -/
def width (c : ClosureObject) (count : Nat) : Nat :=
  max (max c.prototype.stackSize c.prototype.parameters.length) count

/-- The registers of a frame that is entered with arguments. -/
def registers (c : ClosureObject) (args : List Value) (packed : Value) : List Value :=
  c.bound args packed ++
    List.replicate (c.width args.length - c.prototype.parameters.length) .null

variable {c : ClosureObject} {args : List Value} {packed : Value}

theorem length_bound (h : c.prototype.Accepts c.defaults args.length) :
    (c.bound args packed).length = c.prototype.parameters.length := by
  unfold Prototype.Accepts at h
  unfold bound
  split at h
  · rename_i hvar
    rw [if_pos hvar, List.length_take, List.length_append, List.length_take, List.length_singleton]
    omega
  · rename_i hvar
    rw [if_neg hvar, List.length_append, List.length_drop]
    omega

theorem length_registers (h : c.prototype.Accepts c.defaults args.length) :
    (c.registers args packed).length = c.width args.length := by
  rw [registers, List.length_append, length_bound h, List.length_replicate, width]
  omega

end ClosureObject

namespace Exec

variable {m : Machine} {c : ClosureObject} {base count : Nat}

theorem bindArguments_refused (h : ¬ c.prototype.Accepts c.defaults count) :
    bindArguments c.prototype c.defaults base count m =
      .error (.script (wrongArgumentCount c.prototype count)) m := by
  unfold Prototype.Accepts at h
  unfold bindArguments
  split
  · rename_i hvar
    rw [if_pos hvar] at h
    unfold packArguments
    rw [if_pos (by omega)]
    rfl
  · rename_i hvar
    rw [if_neg hvar] at h
    rw [if_pos (by omega)]
    unfold fillDefaults
    rw [if_pos (by omega)]
    rfl

/-- The machine once the arguments of a call are bound. -/
structure Bound (c : ClosureObject) (base : Nat) (args : List Value) (m m' : Machine) : Prop where
  turns : Machine.Turns m'.stack m m'
  size : m'.stack.size = m.stack.size
  below : ∀ j < base, m'.stack[j]? = m.stack[j]?
  found : ∀ k < c.prototype.parameters.length,
    m'.stack[base + k]? = (c.bound args (.array ⟨m.heap.cells.size⟩))[k]?
  /-- What is packed has not been used before. -/
  packed : c.prototype.varargs = true → m.heap.cells.size < m'.heap.cells.size ∧
    ∀ b, m'.heap.body? ⟨m.heap.cells.size⟩ = some b →
      b = .array (args.drop (c.prototype.parameters.length - 1)).toArray

theorem getElem?_window {s : Array Value} {k : Nat} (hk : k < count) :
    (s.extract base (base + count)).toList[k]? = s[base + k]? := by
  rw [Array.getElem?_toList, Array.getElem?_extract]
  split
  · rfl
  · rw [Array.getElem?_eq_none (by omega)]

theorem length_window {s : Array Value} (hin : base + count ≤ s.size) :
    (s.extract base (base + count)).toList.length = count := by
  rw [Array.length_toList, Array.size_extract]
  omega

theorem drop_window (s : Array Value) {fixed : Nat} (h : fixed ≤ count) :
    (s.extract (base + fixed) (base + fixed + (count - fixed))).toList =
      (s.extract base (base + count)).toList.drop fixed := by
  simp only [Array.toList_extract, List.extract_eq_take_drop, List.drop_take, List.drop_drop]
  congr 1
  omega

theorem packArguments_bound (hvar : c.prototype.varargs = true)
    (h : c.prototype.parameters.length - 1 ≤ count) (hin : base + c.width count ≤ m.stack.size) :
    (∃ m', packArguments c.prototype base count m = .error .outsideStack m') ∨
      ∃ m', packArguments c.prototype base count m = .ok c.prototype.parameters.length m' ∧
        Bound c base (m.stack.extract base (base + count)).toList m m' := by
  unfold ClosureObject.width at hin
  have hcount : (m.stack.extract base (base + count)).toList.length = count :=
    length_window (by omega)
  have hget : ∀ k, k < count → (m.stack.extract base (base + count)).toList[k]? = m.stack[base + k]? :=
    fun k hk => getElem?_window hk
  unfold packArguments
  rw [if_neg (by omega)]
  generalize hfixed : c.prototype.parameters.length - 1 = fixed at h
  have htake := takeSlots_turns (m := m) (base + fixed) (count - fixed) (by omega)
  rw [drop_window m.stack h] at htake
  generalize hargs : (m.stack.extract base (base + count)).toList = args at hcount hget htake ⊢
  rw [bind_ok m htake]
  -- taking the arguments has left the heap alone, so the array is the next object
  let m1 : Machine := ({ m with
    stack := overlay m.stack (base + fixed) (List.replicate (count - fixed) .null) } : Machine).withHeap
      (m.heap.newArray (args.drop fixed).toArray).2
  have hnew : heap (fun (h : Heap) => h.newArray (args.drop fixed).toArray)
      { m with stack := overlay m.stack (base + fixed) (List.replicate (count - fixed) .null) } =
        .ok (.array ⟨m.heap.cells.size⟩) m1 := rfl
  rw [bind_ok _ hnew]
  by_cases hsize : base + fixed < m1.stack.size
  swap
  · left
    refine ⟨m1, ?_⟩
    rw [bind_ok m1 (writeSlot_missing _ (Array.getElem?_eq_none (Nat.not_lt.1 hsize)))]
    rfl
  right
  obtain ⟨m2, hwrite, h2⟩ := writeSlot_turns (m := m1) (.array ⟨m.heap.cells.size⟩) hsize
  have hsize1 : m1.stack.size = m.stack.size := size_overlay
  have hfresh : m.heap.cells.size < m1.heap.cells.size := by
    show _ < (m.heap.newArray _).2.cells.size
    rw [Heap.newArray, (Heap.grows_allocateLinked m.heap _).size]
    exact Nat.lt_succ_self _
  have hstack2 : m2.stack = (overlay m.stack (base + fixed)
      (List.replicate (count - fixed) .null)).setIfInBounds (base + fixed)
        (.array ⟨m.heap.cells.size⟩) := h2.stack_eq
  have hkept : ∀ j < base + fixed, m2.stack[j]? = m.stack[j]? := by
    intro j hj
    rw [hstack2, Array.getElem?_setIfInBounds_ne (by omega), overlay_outside (.inl hj)]
  refine ⟨m2, ?_, ?_⟩
  · rw [bind_ok m1 hwrite]
    rfl
  · refine ⟨⟨?_, (Heap.Sheds.newArray _ _).trans h2.sheds⟩, ?_, fun j hj => hkept j (by omega),
      fun k hk => ?_, fun _ => ⟨Nat.lt_of_lt_of_le hfresh h2.sheds.size, fun b hb => ?_⟩⟩
    · have := h2.rest
      rw [h2.stack_eq]
      exact this
    · rw [hstack2, Array.size_setIfInBounds, size_overlay]
    · unfold ClosureObject.bound
      rw [if_pos hvar, hfixed, List.getElem?_take_of_lt hk]
      by_cases hlast : k < fixed
      · rw [hkept _ (by omega), List.getElem?_append_left (by rw [List.length_take]; omega),
          List.getElem?_take_of_lt hlast]
        exact (hget k (by omega)).symm
      · obtain rfl : k = fixed := by omega
        have hlen : (args.take k).length = k := by
          rw [List.length_take]
          omega
        rw [hstack2, Array.getElem?_setIfInBounds_self_of_lt (by rw [size_overlay]; omega),
          List.getElem?_append_right (by omega), hlen, Nat.sub_self]
        rfl
    · have hold := h2.sheds.body ⟨m.heap.cells.size⟩ b hfresh hb
      rw [show m1.heap = (m.heap.newArray (args.drop fixed).toArray).2 from rfl,
        Heap.body?_newArray, Option.some.injEq] at hold
      rw [← hold, hfixed]

theorem fillDefaults_bound (hvar : ¬ c.prototype.varargs = true)
    (h : count ≤ c.prototype.parameters.length ∧
      c.prototype.parameters.length - count ≤ c.defaults.length)
    (hin : base + c.width count ≤ m.stack.size) :
    ∃ m', fillDefaults c.prototype c.defaults base count m =
        .ok c.prototype.parameters.length m' ∧
      Bound c base (m.stack.extract base (base + count)).toList m m' := by
  unfold ClosureObject.width at hin
  have hcount : (m.stack.extract base (base + count)).toList.length = count :=
    length_window (by omega)
  have hget : ∀ k, k < count → (m.stack.extract base (base + count)).toList[k]? = m.stack[base + k]? :=
    fun k hk => getElem?_window hk
  generalize (m.stack.extract base (base + count)).toList = args at hcount hget ⊢
  unfold fillDefaults
  rw [if_neg (by omega)]
  generalize hfill : c.defaults.drop (c.defaults.length - (c.prototype.parameters.length - count)) = filled
  have hlen : filled.length = c.prototype.parameters.length - count := by
    rw [← hfill, List.length_drop]
    omega
  obtain ⟨m1, heq, h1⟩ := fillSlots_turns (m := m) (base + count) filled (by omega)
  refine ⟨m1, ?_, ⟨?_, h1.sheds⟩, ?_, fun j hj => ?_, fun k hk => ?_, fun hv => absurd hv hvar⟩
  · rw [bind_ok m heq]
    rfl
  · have := h1.rest
    rw [h1.stack_eq]
    exact this
  · rw [h1.stack_eq, size_overlay]
  · rw [h1.stack_eq, overlay_outside (.inl (by omega))]
  · unfold ClosureObject.bound
    rw [if_neg hvar, hcount, hfill, h1.stack_eq]
    by_cases hk' : k < count
    · rw [overlay_outside (.inl (by omega)), List.getElem?_append_left (by omega)]
      exact (hget k hk').symm
    · rw [List.getElem?_append_right (by omega), hcount,
        show base + k = base + count + (k - count) by omega,
        overlay_inside (by omega) (by omega)]

theorem bindArguments_bound (base : Nat) (h : c.prototype.Accepts c.defaults count)
    (hin : base + c.width count ≤ m.stack.size) :
    (∃ m', bindArguments c.prototype c.defaults base count m = .error .outsideStack m') ∨
      ∃ m', bindArguments c.prototype c.defaults base count m =
          .ok c.prototype.parameters.length m' ∧
        Bound c base (m.stack.extract base (base + count)).toList m m' := by
  unfold Prototype.Accepts at h
  unfold bindArguments
  split
  · rename_i hvar
    rw [if_pos hvar] at h
    exact packArguments_bound hvar h hin
  · rename_i hvar
    rw [if_neg hvar] at h
    right
    split
    · exact fillDefaults_bound hvar h hin
    · rename_i hsame
      obtain rfl : count = c.prototype.parameters.length := by omega
      refine ⟨m, rfl, ⟨rfl, .refl _⟩, rfl, fun _ _ => rfl, fun k hk => ?_, fun hv => absurd hv hvar⟩
      unfold ClosureObject.width at hin
      have hcount : (m.stack.extract base (base + c.prototype.parameters.length)).toList.length =
          c.prototype.parameters.length := length_window (by omega)
      unfold ClosureObject.bound
      rw [if_neg hvar, List.getElem?_append_left (by omega), getElem?_window hk]

end Exec

/-! ## Entering -/

/-- Another activation fits below the limit. -/
def Machine.HasRoom (m : Machine) : Prop :=
  m.frames.length + m.nativeDepth < m.config.maxCallDepth

namespace Exec

variable {l : Law} {owned : Multiset Value} {m : Machine} {c : ClosureObject} {r : Ref}
variable {base count : Nat} {target : Option Nat} {outside : Bool}

theorem pushFrame_full (r : Ref) (base count : Nat) (target : Option Nat) (outside : Bool)
    (h : ¬ m.HasRoom) :
    ∃ m', pushFrame r base count target outside m =
        .error (.script (depthError m.config.maxCallDepth)) m' ∧ m'.frames = m.frames := by
  have hdepth : checkDepth m = .error (.script (depthError m.config.maxCallDepth)) m := by
    unfold checkDepth
    rw [bind_ok m (show (get : Exec Machine) m = .ok m m from rfl), if_pos (Nat.not_lt.1 h)]
    rfl
  refine ⟨m.withHeap (m.heap.release (.closure r)), ?_, rfl⟩
  unfold pushFrame handing
  rw [bind_error m hdepth]
  simp only [release_eq]

/-- A function is entered. -/
structure Activated (r : Ref) (c : ClosureObject) (base : Nat) (args : List Value)
    (target : Option Nat) (prevTop : Nat) (outside : Bool) (m m' : Machine) : Prop where
  frames : m'.frames = ⟨r, c.prototype, 0, base, prevTop, target, outside⟩ :: m.frames
  sheds : m.heap.Sheds m'.heap
  openOuters : m'.openOuters = m.openOuters
  size : m'.stack.size = max m.stack.size (base + c.width args.length)
  below : ∀ j < base, m'.stack[j]? = m.stack[j]?
  registers : (m'.stack.extract base (base + c.width args.length)).toList =
    c.registers args (.array ⟨m.heap.cells.size⟩)
  /-- What is packed has not been used before. -/
  packed : c.prototype.varargs = true → ∀ b, m'.heap.body? ⟨m.heap.cells.size⟩ = some b →
    b = .array (args.drop (c.prototype.parameters.length - 1)).toArray

theorem handing_congr {α : Type} {v : Value} {act act' : Exec α} {m' : Machine}
    (h : act m = act' m') : handing v act m = handing v act' m' := by
  unfold handing
  rw [h]

/-- The machine whose stack has grown to the height of a frame, after a collection
if one was due. -/
def grown (c : ClosureObject) (base count : Nat) (m : Machine) : Machine :=
  (m.withHeap m.heap.maybeCollect).pushed
    (List.replicate (frameTop c.prototype base count - m.stack.size) .null)

theorem pushFrame_grown (hb : m.heap.Backs l (.closure r ::ₘ owned)) (hc : m.heap.closure? r = some c)
    (hroom : m.HasRoom) :
    pushFrame r base count target outside m = handing (.closure r) (do
      let bound ← bindArguments c.prototype c.defaults base count
      nullSlots (base + bound) (frameTop c.prototype base count - (base + bound))
      modify fun (m' : Machine) => { m' with frames :=
        ⟨r, c.prototype, 0, base, if outside then base else m.stack.size, target, outside⟩ ::
          m'.frames }) (grown c base count m) := by
  have hdepth : checkDepth m = .ok () m := by
    unfold checkDepth
    rw [bind_ok m (show (get : Exec Machine) m = .ok m m from rfl), if_neg (Nat.not_le.2 hroom)]
    rfl
  have hlive : (m.heap.maybeCollect).closure? r = some c := by
    have hhas := (Heap.Backs.maybeCollect hb).backs.has (Multiset.mem_cons_self _ _)
    obtain ⟨c', hbody⟩ := hhas.closure
    have hc' := Heap.closure?_eq_some.2 (hb.trims_maybeCollect.body? hbody)
    rw [hc, Option.some.injEq] at hc'
    exact Heap.closure?_eq_some.2 (hc' ▸ hbody)
  have hread : readHeap (fun (h : Heap) => h.closure? r) (m.withHeap m.heap.maybeCollect) =
      .ok (some c) (m.withHeap m.heap.maybeCollect) := by
    rw [← hlive]
    rfl
  unfold pushFrame
  refine handing_congr ?_
  rw [bind_ok m hdepth, bind_ok m (show maybeCollect m = _ from updateHeap_eq m _), bind_ok _ hread]
  simp only
  rw [bind_ok _ (heightBelow_eq base outside _), bind_ok _ (growTo_eq _ _)]
  rfl

theorem turns_grown (c : ClosureObject) (base count : Nat) (hb : m.heap.Backs l owned) :
    Machine.Turns (grown c base count m).stack m (grown c base count m) :=
  ⟨rfl, .of_trims hb.trims_maybeCollect⟩

theorem size_heap_grown (hb : m.heap.Backs l owned) :
    (grown c base count m).heap.cells.size = m.heap.cells.size := hb.trims_maybeCollect.size

theorem size_grown (c : ClosureObject) (base count : Nat) (m : Machine) :
    (grown c base count m).stack.size = max m.stack.size (base + c.width count) := by
  unfold grown
  rw [Machine.size_pushed, List.length_replicate, Machine.withHeap_stack]
  show m.stack.size + (base + c.width count - m.stack.size) = _
  omega

theorem getElem?_grown {j : Nat} (hj : j < m.stack.size) :
    (grown c base count m).stack[j]? = m.stack[j]? :=
  Array.getElem?_append_left hj

theorem window_grown (hin : base + count ≤ m.stack.size) :
    ((grown c base count m).stack.extract base (base + count)).toList =
      (m.stack.extract base (base + count)).toList := by
  refine List.ext_getElem? fun k => ?_
  by_cases hk : k < count
  · rw [getElem?_window hk, getElem?_window hk, getElem?_grown (by omega)]
  · have hsize := size_grown c base count m
    rw [List.getElem?_eq_none (by rw [length_window (by omega)]; omega),
      List.getElem?_eq_none (by rw [length_window hin]; omega)]

theorem pushFrame_refused (base : Nat) (target : Option Nat) (outside : Bool)
    (hb : m.heap.Backs l (.closure r ::ₘ owned)) (hc : m.heap.closure? r = some c)
    (hroom : m.HasRoom) (h : ¬ c.prototype.Accepts c.defaults count) :
    ∃ m', pushFrame r base count target outside m =
        .error (.script (wrongArgumentCount c.prototype count)) m' ∧ m'.frames = m.frames := by
  refine ⟨(grown c base count m).withHeap ((grown c base count m).heap.release (.closure r)), ?_, rfl⟩
  rw [pushFrame_grown hb hc hroom]
  unfold handing
  rw [bind_error _ (bindArguments_refused h)]
  simp only [release_eq]

/-- The registers are the parameters as they are bound, and nulls behind them. -/
theorem window_registers {s : Array Value} {args : List Value} {packed : Value}
    (h : c.prototype.Accepts c.defaults args.length) (hin : base + c.width args.length ≤ s.size)
    (hfound : ∀ k < c.prototype.parameters.length, s[base + k]? = (c.bound args packed)[k]?) :
    ((overlay s (base + c.prototype.parameters.length) (List.replicate
      (base + c.width args.length - (base + c.prototype.parameters.length)) .null)).extract base
        (base + c.width args.length)).toList = c.registers args packed := by
  have hwidth : c.prototype.parameters.length ≤ c.width args.length := by
    unfold ClosureObject.width
    omega
  have hlen : (c.registers args packed).length = c.width args.length :=
    ClosureObject.length_registers h
  have hlenbound : (c.bound args packed).length = c.prototype.parameters.length :=
    ClosureObject.length_bound h
  refine List.ext_getElem? fun k => ?_
  by_cases hk : k < c.width args.length
  swap
  · rw [List.getElem?_eq_none (by rw [length_window (by rw [size_overlay]; exact hin)]; omega),
      List.getElem?_eq_none (by rw [hlen]; omega)]
  rw [getElem?_window hk, ClosureObject.registers]
  by_cases hparam : k < c.prototype.parameters.length
  · rw [overlay_outside (.inl (by omega)), hfound k hparam, List.getElem?_append_left (by omega)]
  · rw [List.getElem?_append_right (by omega), hlenbound,
      show base + k = base + c.prototype.parameters.length +
        (k - c.prototype.parameters.length) by omega,
      overlay_inside (by rw [List.length_replicate]; omega) (by rw [List.length_replicate]; omega),
      List.getElem?_replicate, List.getElem?_replicate, if_pos (by omega), if_pos (by omega)]

theorem pushFrame_activated (target : Option Nat) (outside : Bool)
    (hb : m.heap.Backs l (.closure r ::ₘ owned)) (hc : m.heap.closure? r = some c)
    (hin : base + count ≤ m.stack.size) (hroom : m.HasRoom)
    (h : c.prototype.Accepts c.defaults count) :
    (∃ m', pushFrame r base count target outside m = .error .outsideStack m') ∨
      ∃ m', pushFrame r base count target outside m = .ok () m' ∧
        Activated r c base (m.stack.extract base (base + count)).toList target
          (if outside then base else m.stack.size) outside m m' := by
  have hsize := size_grown c base count m
  have hargs := length_window hin
  have hwindow := window_grown (c := c) hin
  rw [pushFrame_grown hb hc hroom]
  rcases bindArguments_bound (m := grown c base count m) base h (by omega) with
    ⟨m1, hbind⟩ | ⟨m1, hbind, hbound⟩
  · left
    refine ⟨m1.withHeap (m1.heap.release (.closure r)), ?_⟩
    unfold handing
    rw [bind_error _ hbind]
    simp only [release_eq]
  right
  rw [hwindow] at hbound
  generalize (m.stack.extract base (base + count)).toList = args at hargs hbound ⊢
  subst hargs
  have hwidth : c.prototype.parameters.length ≤ c.width args.length := by
    unfold ClosureObject.width
    omega
  have htop : frameTop c.prototype base args.length = base + c.width args.length := rfl
  have hsize1 := hbound.size
  rw [htop]
  obtain ⟨m2, hnull, h2⟩ := nullSlots_turns (m := m1) (base + c.prototype.parameters.length)
    (base + c.width args.length - (base + c.prototype.parameters.length)) (by omega)
  have hstack2 := h2.stack_eq
  have hall := (turns_grown c base args.length hb).trans (hbound.turns.trans h2)
  refine ⟨{ m2 with frames := ⟨r, c.prototype, 0, base, if outside then base else m.stack.size,
    target, outside⟩ :: m2.frames }, ?_, ?_⟩
  · unfold handing
    rw [bind_ok _ hbind, bind_ok _ hnull]
    rfl
  · refine ⟨?_, hall.sheds, hall.openOuters_eq, ?_, fun j hj => ?_, ?_, fun hvar b hbody => ?_⟩
    · exact congrArg (List.cons _) hall.frames_eq
    · show m2.stack.size = _
      rw [hstack2, size_overlay]
      omega
    · show m2.stack[j]? = _
      rw [hstack2, overlay_outside (.inl (by omega)), hbound.below j hj, getElem?_grown (by omega)]
    · show (m2.stack.extract base (base + c.width args.length)).toList = _
      rw [hstack2]
      refine window_registers h (by omega) fun k hk => ?_
      rw [hbound.found k hk, size_heap_grown hb]
    · obtain ⟨hfresh, hpacked⟩ := hbound.packed hvar
      rw [size_heap_grown hb] at hfresh hpacked
      exact hpacked b (h2.sheds.body _ b hfresh hbody)

end Exec

/-- The registers of a function entered with arguments stand from a place on. -/
structure Machine.Holds (c : ClosureObject) (base : Nat) (args : List Value) (packed : Ref)
    (m : Machine) : Prop where
  registers : (m.stack.extract base (base + c.width args.length)).toList =
    c.registers args (.array packed)
  packs : c.prototype.varargs = true → c.prototype.parameters ≠ [] → m.heap.body? packed =
    some (.array (args.drop (c.prototype.parameters.length - 1)).toArray)

namespace Exec

variable {t : Terms} {own : List Value} {m m' : Machine} {c : ClosureObject} {r : Ref}
variable {base count : Nat} {target : Option Nat} {outside : Bool}

/-- The register of the last parameter holds what is packed. -/
theorem packed_mem_registers {args : List Value} (packed : Value)
    (h : c.prototype.Accepts c.defaults args.length) (hvar : c.prototype.varargs = true)
    (hne : c.prototype.parameters ≠ []) : packed ∈ c.registers args packed := by
  have hpos := List.length_pos_iff.2 hne
  unfold Prototype.Accepts at h
  rw [if_pos hvar] at h
  unfold ClosureObject.registers ClosureObject.bound
  rw [if_pos hvar, List.take_of_length_le
    (by rw [List.length_append, List.length_take, List.length_singleton]; omega)]
  simp

/-- The packed array is alive, as it lies in a register. -/
theorem holds_of_registers {args : List Value} {packed : Ref} (hm : m.Tidy t own)
    (h : c.prototype.Accepts c.defaults args.length)
    (hregisters : (m.stack.extract base (base + c.width args.length)).toList =
      c.registers args (.array packed))
    (hpacked : c.prototype.varargs = true → ∀ b, m.heap.body? packed = some b →
      b = .array (args.drop (c.prototype.parameters.length - 1)).toArray) :
    m.Holds c base args packed := by
  refine ⟨hregisters, fun hvar hne => ?_⟩
  have hmem := packed_mem_registers (.array packed) h hvar hne
  rw [← hregisters] at hmem
  obtain ⟨k, hk⟩ := List.mem_iff_getElem?.1 hmem
  rw [Array.getElem?_toList, Array.getElem?_extract] at hk
  split at hk
  · obtain ⟨b, hbody⟩ := (hm.has_slot hk).array
    exact hpacked hvar _ hbody ▸ hbody
  · cases hk

/-- Entering a function succeeds only below the limit and with arguments that it accepts,
and its registers are then as they should be. -/
theorem pushFrame_entered (hm : m.Tidy t (.closure r :: own)) (hc : m.heap.closure? r = some c)
    (hin : base + count ≤ m.stack.size)
    (hok : pushFrame r base count target outside m = .ok () m') :
    Entered t own r base target outside m m' ∧ c.prototype.Accepts c.defaults count ∧
      Activated r c base (m.stack.extract base (base + count)).toList target
        (if outside then base else m.stack.size) outside m m' := by
  by_cases hroom : m.HasRoom
  swap
  · obtain ⟨m1, heq, -⟩ := pushFrame_full r base count target outside hroom
    rw [hok] at heq
    cases heq
  by_cases hacc : c.prototype.Accepts c.defaults count
  swap
  · obtain ⟨m1, heq, -⟩ := pushFrame_refused base target outside hm.backs_cons hc hroom hacc
    rw [hok] at heq
    cases heq
  have hentered : Meets t (pushFrame r base count target outside)
      (pushFrame r base count target outside) (fun _ m' => Entered t own r base target outside m m')
      (Refused t own base m) m := pushFrame_meets hm (by omega)
  unfold Meets at hentered
  rw [hok] at hentered
  rcases pushFrame_activated target outside hm.backs_cons hc hin hroom hacc with ⟨m1, heq⟩ | ⟨m1, heq, hact⟩
  · rw [hok] at heq
    cases heq
  · rw [hok] at heq
    cases heq
    exact ⟨hentered.2, hacc, hact⟩

theorem Activated.holds {args : List Value} {prevTop : Nat} (hm : m'.Tidy t own)
    (h : c.prototype.Accepts c.defaults args.length)
    (hact : Activated r c base args target prevTop outside m m') :
    m'.Holds c base args ⟨m.heap.cells.size⟩ :=
  holds_of_registers hm h hact.registers hact.packed

end Exec

end ScriptMachine
