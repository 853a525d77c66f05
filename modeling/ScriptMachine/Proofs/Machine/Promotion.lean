import ScriptMachine.Proofs.Fusion.Emission
import ScriptMachine.Proofs.Machine.Replacing

/-!
# Promoted calls

Fusion turns a call before a return into a call in place of the function, whatever
register is returned. When it is the register for the result, the function comes to
what its callee comes to, as with the call. When it is another, the callee's value is
returned instead of what that register holds.
-/

set_option autoImplicit false

namespace ScriptMachine

variable {m m' : Machine} {f : Frame} {rest : List Frame} {v w : Value}

/-- The instruction at hand in a frame leaves the function with a value. -/
def Machine.Leaves (m : Machine) (f : Frame) (v : Value) : Prop :=
  f.prototype.code[f.ip]? = none ∧ v = .null ∨
    ∃ i, f.prototype.code[f.ip]? = some i ∧ i.opcode = .ret ∧
      (isPresent i.arg0 = true ∧ 0 ≤ i.arg0 ∧ m.stack[f.base + i.arg0.toInt.toNat]? = some v ∨
        isPresent i.arg0 = false ∧ v = .null)

theorem Machine.Leaves.unique (h : m.Leaves f v) (h' : m.Leaves f w) : v = w := by
  rcases h with ⟨hnone, rfl⟩ | ⟨i, hi, -, h⟩ <;> rcases h' with ⟨hnone', rfl⟩ | ⟨i', hi', -, h'⟩
  · rfl
  · rw [hnone] at hi'
    cases hi'
  · rw [hnone'] at hi
    cases hi
  · rw [hi, Option.some.injEq] at hi'
    subst hi'
    rcases h with ⟨hp, -, h⟩ | ⟨hp, rfl⟩ <;> rcases h' with ⟨hp', -, h'⟩ | ⟨hp', rfl⟩
    · exact Option.some.inj (h.symm.trans h')
    · exact absurd (hp.symm.trans hp') (by decide)
    · exact absurd (hp.symm.trans hp') (by decide)
    · rfl

/-- An activation with these callers is at its end. -/
structure Machine.Ends (below : List Frame) (v : Value) (m : Machine) : Prop where
  running : m.interrupted = false
  leaves : ∃ f, m.frames = f :: below ∧ m.Leaves f v

theorem Machine.Ends.unique {below : List Frame} (h : m.Ends below v) (h' : m.Ends below w) :
    v = w := by
  obtain ⟨-, f, hf, hv⟩ := h
  obtain ⟨-, f', hf', hw⟩ := h'
  obtain ⟨rfl, -⟩ := List.cons_eq_cons.1 (hf.symm.trans hf')
  exact hv.unique hw

namespace Exec

open Regime

variable {call : Caller} {p q n n' : Instruction} {low : Nat}

/-- Where the callee of a call leads back to that the caller has just fetched. -/
def resumption (m : Machine) (f : Frame) (rest : List Frame) (p : Instruction) : Landing :=
  ⟨m.stack.size, slotOf f.base p.arg0, false, f :: rest⟩

section

variable {m0 : Machine}

end

/-! ## The two calls -/

variable {t : Terms} {own : List Value} {state : EmitterState} {ctx : FusionContext}

/-- An entered callee stands on top of its caller. -/
theorem Activated.kept {r : Ref} {c : ClosureObject} {args : List Value} {h : Heap}
    (hf : m.frames = f :: rest) (hin : low ≤ m.stack.size)
    (hact : Activated r c low args (slotOf f.base p.arg0) m.stack.size false (m.withHeap h) m') :
    Kept low (fun _ _ => True) (resumption m f rest p) m' := by
  have hsize := hact.size
  rw [Machine.withHeap_stack] at hsize
  refine ⟨?_, hin, ?_, fun _ _ _ _ => trivial⟩
  · rw [hact.frames, show (m.withHeap h).frames = f :: rest from hf]
    exact .entry (l := resumption m f rest p) (Nat.le_refl _) rfl rfl rfl
  · show m.stack.size ≤ m'.stack.size
    omega

end Exec

end ScriptMachine
