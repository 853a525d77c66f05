import ScriptMachine.Proofs.Machine.Binding
import ScriptMachine.Proofs.Machine.Overreach
import ScriptMachine.Proofs.Machine.Reachable

/-!
# Which register holds which argument

A function is entered just when it accepts the number of its arguments. Each
parameter then has a register: it holds the argument, or the default value that has
the same place when both lists are counted from their ends, or all arguments from
the last parameter on, in a new array. Whatever the stack held there before, the
other registers of the frame are null.
-/

set_option autoImplicit false

namespace ScriptMachine

/-! ## The registers one by one -/

namespace ClosureObject

variable {c : ClosureObject} {args : List Value} {packed : Value} {k : Nat}

theorem accepts_iff {count : Nat} : c.prototype.Accepts c.defaults count ↔
    c.prototype.varargs = true ∧ c.prototype.parameters.length - 1 ≤ count ∨
      c.prototype.varargs = false ∧ count ≤ c.prototype.parameters.length ∧
        c.prototype.parameters.length - count ≤ c.defaults.length := by
  unfold Prototype.Accepts
  cases c.prototype.varargs <;> simp

theorem registers_parameter (h : c.prototype.Accepts c.defaults args.length)
    (hk : k < c.prototype.parameters.length) :
    (c.registers args packed)[k]? = (c.bound args packed)[k]? :=
  List.getElem?_append_left (by rwa [length_bound h])

theorem registers_cleared (h : c.prototype.Accepts c.defaults args.length)
    (hk : c.prototype.parameters.length ≤ k) (hwidth : k < c.width args.length) :
    (c.registers args packed)[k]? = some .null := by
  rw [registers, List.getElem?_append_right (by rwa [length_bound h]), length_bound h,
    List.getElem?_replicate, if_pos (by omega)]

theorem bound_supplied (hk : k < args.length)
    (hlast : c.prototype.varargs = true → k + 1 < c.prototype.parameters.length) :
    (c.bound args packed)[k]? = args[k]? := by
  unfold bound
  split
  · rename_i hvar
    have hfixed := hlast hvar
    rw [List.getElem?_take_of_lt (by omega),
      List.getElem?_append_left (by rw [List.length_take]; omega),
      List.getElem?_take_of_lt (by omega)]
  · exact List.getElem?_append_left hk

theorem bound_packed (hvar : c.prototype.varargs = true) (hne : c.prototype.parameters ≠ [])
    (h : c.prototype.parameters.length - 1 ≤ args.length) :
    (c.bound args packed)[c.prototype.parameters.length - 1]? = some packed := by
  have hpos := List.length_pos_iff.2 hne
  have hlen : (args.take (c.prototype.parameters.length - 1)).length =
      c.prototype.parameters.length - 1 := by
    rw [List.length_take]
    omega
  rw [bound, if_pos hvar, List.getElem?_take_of_lt (by omega),
    List.getElem?_append_right (by omega), hlen, Nat.sub_self]
  rfl

/-- The last default value belongs to the last parameter. -/
theorem bound_defaulted (hvar : c.prototype.varargs = false)
    (h : c.prototype.Accepts c.defaults args.length) (hk : k < c.prototype.parameters.length)
    (hmissing : args.length ≤ k) :
    ∃ v, c.defaults.reverse[c.prototype.parameters.length - 1 - k]? = some v ∧
      (c.bound args packed)[k]? = some v := by
  unfold Prototype.Accepts at h
  rw [if_neg (by rw [hvar]; exact Bool.false_ne_true)] at h
  have hin : c.prototype.parameters.length - 1 - k < c.defaults.reverse.length := by
    rw [List.length_reverse]
    omega
  refine ⟨_, List.getElem?_eq_getElem hin, ?_⟩
  rw [bound, if_neg (by rw [hvar]; exact Bool.false_ne_true),
    List.getElem?_append_right hmissing, List.getElem?_drop, List.getElem_reverse,
    ← List.getElem?_eq_getElem]
  congr 1
  omega

end ClosureObject

/-! ## Entering -/

namespace Exec

open Regime

variable {t : Terms} {own : List Value} {m m' : Machine} {c : ClosureObject} {r : Ref}
variable {base count : Nat} {target : Option Nat} {outside : Bool}

/-- The machine after a function has been entered with arguments. -/
structure ArgumentsBound (r : Ref) (c : ClosureObject) (base : Nat) (args : List Value)
    (m m' : Machine) : Prop where
  frames : ∃ f : Frame, f.closure = r ∧ f.prototype = c.prototype ∧ f.base = base ∧
    m'.frames = f :: m.frames
  supplied : ∀ k < args.length, k < c.prototype.parameters.length →
    (c.prototype.varargs = true → k + 1 < c.prototype.parameters.length) →
      m'.stack[base + k]? = args[k]?
  defaulted : c.prototype.varargs = false → ∀ k < c.prototype.parameters.length,
    args.length ≤ k → ∃ v, c.defaults.reverse[c.prototype.parameters.length - 1 - k]? = some v ∧
      m'.stack[base + k]? = some v
  /-- The array is none that was there before. -/
  packed : c.prototype.varargs = true → ∃ a : Ref, m.heap.cells.size ≤ a.id ∧
    m'.stack[base + (c.prototype.parameters.length - 1)]? = some (.array a) ∧
      m'.heap.body? a = some (.array (args.drop (c.prototype.parameters.length - 1)).toArray)
  cleared : ∀ k, c.prototype.parameters.length ≤ k → k < c.width args.length →
    m'.stack[base + k]? = some .null

theorem Activated.argumentsBound {args : List Value} {prevTop : Nat} (hm : m'.Tidy t own)
    (hne : c.prototype.parameters ≠ []) (h : c.prototype.Accepts c.defaults args.length)
    (hact : Activated r c base args target prevTop outside m m') :
    ArgumentsBound r c base args m m' := by
  have hpos := List.length_pos_iff.2 hne
  have hwidth : c.prototype.parameters.length ≤ c.width args.length :=
    (Nat.le_max_right _ _).trans (Nat.le_max_left _ _)
  have hslot : ∀ k < c.width args.length,
      m'.stack[base + k]? = (c.registers args (.array ⟨m.heap.cells.size⟩))[k]? := by
    intro k hk
    rw [← hact.registers, getElem?_window hk]
  have hparameter : ∀ k < c.prototype.parameters.length,
      m'.stack[base + k]? = (c.bound args (.array ⟨m.heap.cells.size⟩))[k]? := by
    intro k hk
    rw [hslot k (by omega), ClosureObject.registers_parameter h hk]
  refine ⟨⟨_, rfl, rfl, rfl, hact.frames⟩, fun k hk hparam hlast => ?_, fun hvar k hk hmissing => ?_,
    fun hvar => ?_, fun k hk hin => ?_⟩
  · rw [hparameter k hparam, ClosureObject.bound_supplied hk hlast]
  · rw [hparameter k hk]
    exact ClosureObject.bound_defaulted hvar h hk hmissing
  · have hcount : c.prototype.parameters.length - 1 ≤ args.length := by
      rcases ClosureObject.accepts_iff.1 h with ⟨-, hcount⟩ | ⟨hfixed, -⟩
      · exact hcount
      · rw [hvar] at hfixed
        cases hfixed
    refine ⟨⟨m.heap.cells.size⟩, Nat.le_refl _, ?_, (hact.holds hm h).packs hvar hne⟩
    rw [hparameter _ (by omega)]
    exact ClosureObject.bound_packed hvar hne hcount
  · rw [hslot k hin]
    exact ClosureObject.registers_cleared h hk hin

/-- A function that has a parameter is entered when it accepts its arguments. -/
theorem pushFrame_accepted (target : Option Nat) (outside : Bool)
    (hm : m.Tidy t (.closure r :: own)) (hc : m.heap.closure? r = some c)
    (hne : c.prototype.parameters ≠ []) (hin : base + count ≤ m.stack.size) (hroom : m.HasRoom)
    (h : c.prototype.Accepts c.defaults count) :
    ∃ m', pushFrame r base count target outside m = .ok () m' := by
  rcases pushFrame_activated target outside hm.backs_cons hc hin hroom h with ⟨m1, heq⟩ | ⟨m1, heq, -⟩
  · have hinside : onStack.AllowsAt (pushFrame r base count target outside) m := by
      refine pushFrame_contained fun c' hc' hplace => ?_
      rw [hc, Option.some.injEq] at hc'
      exact hne (hc' ▸ hplace.1.2.1)
    exact absurd heq (onStack_iff.1 hinside m1)
  · exact ⟨m1, heq⟩

/-- Where another activation fits, a function that has a parameter is entered just
when it takes so many arguments, and its registers are bound then; otherwise that is
an argument error, and no frame is left. -/
theorem arguments_bound (hm : m.Tidy t (.closure r :: own)) (hc : m.heap.closure? r = some c)
    (hne : c.prototype.parameters ≠ []) (hin : base + count ≤ m.stack.size) (hroom : m.HasRoom) :
    ((∃ m', pushFrame r base count target outside m = .ok () m') ↔
      (c.prototype.varargs = true ∧ c.prototype.parameters.length - 1 ≤ count ∨
        c.prototype.varargs = false ∧ count ≤ c.prototype.parameters.length ∧
          c.prototype.parameters.length - count ≤ c.defaults.length)) ∧
    (∀ m', pushFrame r base count target outside m = .ok () m' →
      ArgumentsBound r c base (m.stack.extract base (base + count)).toList m m') ∧
    ((∀ m', pushFrame r base count target outside m ≠ .ok () m') →
      ∃ e m', pushFrame r base count target outside m = .error (.script e) m' ∧
        e.kind = .argument ∧ m'.frames = m.frames) := by
  have hlen := length_window hin
  rw [← ClosureObject.accepts_iff]
  refine ⟨⟨fun ⟨m', hok⟩ => ?_, fun h => ?_⟩, fun m' hok => ?_, fun hnot => ?_⟩
  · exact (pushFrame_entered hm hc hin hok).2.1
  · exact pushFrame_accepted target outside hm hc hne hin hroom h
  · obtain ⟨hentered, h, hact⟩ := pushFrame_entered hm hc hin hok
    exact hact.argumentsBound hentered.toTidy hne (by rwa [hlen])
  · have h : ¬ c.prototype.Accepts c.defaults count := fun h => by
      obtain ⟨m', hok⟩ := pushFrame_accepted target outside hm hc hne hin hroom h
      exact hnot m' hok
    obtain ⟨m', heq, hframes⟩ := pushFrame_refused base target outside hm.backs_cons hc hroom h
    exact ⟨_, m', heq, rfl, hframes⟩

/-! ### With more default values than are missing -/

/-- Two parameters after the receiver, and registers above them. -/
def twoParameters : Prototype where
  name := "f"
  parameters := ["this", "a", "b"]
  stackSize := 5

def twoDefaults : List Value := [.integer 5, .integer 6]

/-- A machine with a closure of the function, where a receiver, an argument and a
value of no concern lie on the stack. -/
def aboutToEnter (home : Machine) : Machine :=
  (home.withHeap (home.heap.newClosure twoParameters [] twoDefaults).2).pushed
    [.null, .integer 7, .integer 9]

def enteredClosure (home : Machine) : Ref := (home.heap.newClosure twoParameters [] twoDefaults).1

theorem aboutToEnter_tidy {home : Machine} (hm : home.Tidy (.open False []) []) :
    (aboutToEnter home).Tidy (.open False []) [.closure (enteredClosure home)] := by
  have hdefaults : home.Tidy (.open False []) twoDefaults :=
    hm.own_plain (v := .integer 6) rfl |>.own_plain (v := .integer 5) rfl
  have hclosed : (home.withHeap (home.heap.newClosure twoParameters [] twoDefaults).2).Tidy
      (.open False []) [.closure (enteredClosure home)] := by
    refine hdefaults.heap ?_
    rw [coe_cons_add]
    exact @Heap.Backs.newClosure _ _ _ twoParameters [] twoDefaults hdefaults.backs False.elim
  exact Machine.Tidy.pushed
    (hclosed.own_plain (v := .integer 9) rfl |>.own_plain (v := .integer 7) rfl
      |>.own_plain (v := .null) rfl)

theorem aboutToEnter_closure (home : Machine) :
    (aboutToEnter home).heap.closure? (enteredClosure home) =
      some ⟨twoParameters, [], twoDefaults, none⟩ := by
  rw [Heap.closure?_eq_some]
  exact (Heap.body?_allocateLinked _ _ _).trans (if_pos rfl)

theorem aboutToEnter_stack {home : Machine} (h : home.stack.size = 0) :
    (aboutToEnter home).stack = #[.null, .integer 7, .integer 9] := by
  show home.stack ++ _ = _
  rw [Array.size_eq_zero_iff.1 h]
  rfl

/-- The last parameter has the last default value, and what lay in its register and
above is gone. -/
theorem arguments_bound_twoDefaults :
    (aboutToEnter (.create {})).Tidy (.open False []) [.closure (enteredClosure (.create {}))] ∧
      (aboutToEnter (.create {})).HasRoom ∧
      ∃ m', pushFrame (enteredClosure (.create {})) 0 2 none true (aboutToEnter (.create {})) =
          .ok () m' ∧ m'.stack[1]? = some (.integer 7) ∧ m'.stack[2]? = some (.integer 6) ∧
        m'.stack[3]? = some .null ∧ m'.stack[4]? = some .null := by
  obtain ⟨h, heq, hhome⟩ := Machine.create_eq (t := .open False []) rfl {}
  have hempty : ((Machine.bare {}).withHeap h).stack.size = 0 := rfl
  have hroom : ((Machine.bare {}).withHeap h).HasRoom :=
    show 0 + 0 < 1024 by decide
  rw [heq]
  generalize (Machine.bare {}).withHeap h = home at hhome hempty hroom ⊢
  have hstack := aboutToEnter_stack hempty
  have hin : 0 + 2 ≤ (aboutToEnter home).stack.size := by
    rw [hstack]
    decide
  have hclosure := aboutToEnter_closure home
  obtain ⟨m', hok⟩ : ∃ m', pushFrame (enteredClosure home) 0 2 none true (aboutToEnter home) =
      .ok () m' :=
    (arguments_bound (aboutToEnter_tidy hhome) hclosure (List.cons_ne_nil _ _) hin hroom).1.2
      (.inr ⟨rfl, by decide, by decide⟩)
  have hb :=
    (arguments_bound (aboutToEnter_tidy hhome) hclosure (List.cons_ne_nil _ _) hin hroom).2.1 m' hok
  rw [hstack] at hb
  obtain ⟨v, hv, hslot⟩ := hb.defaulted rfl 2 (by decide) (by decide)
  cases hv
  refine ⟨aboutToEnter_tidy hhome, hroom, m', hok, ?_, hslot, ?_, ?_⟩
  · exact hb.supplied 1 (by decide) (by decide) fun h => by cases h
  · exact hb.cleared 3 (by decide) (by decide)
  · exact hb.cleared 4 (by decide) (by decide)

end Exec

end ScriptMachine
