import ScriptMachine.Operators

/-!
# What operators give

The operators on built-in values give numbers and truth values, which name no
object, or fail as the script's own errors.
-/

set_option autoImplicit false

namespace ScriptMachine

namespace Operator

/-- The result names no object, and a failure is one of the script. -/
def Plain : Except ScriptError Value → Prop
  | .ok v => v.ref? = none
  | .error e => e.kind ≠ .compile

theorem mismatch_kind (op : String) (a b : Value) : (mismatch op a b).kind ≠ .compile := by
  simp [mismatch, ScriptError.typeError]

theorem integer_plain (op : ArithOp) (a b : Int64) : Plain (integer op a b) := by
  cases op <;> simp only [integer]
  all_goals (try split)
  all_goals first | rfl | exact ErrorKind.noConfusion

theorem complex_plain (op : ArithOp) (a b : Complex) : Plain (complex op a b) := by
  cases op <;> simp only [complex]
  all_goals (try split)
  all_goals first | rfl | exact ErrorKind.noConfusion

theorem numeric_plain (op : ArithOp) (a b : Value) : Plain (numeric op a b) := by
  unfold numeric
  split
  · exact integer_plain op _ _
  · split
    · rfl
    · split
      · exact complex_plain op _ _
      · exact mismatch_kind _ _ _

theorem bitwise_plain (op : BitwiseOp) (a b : Value) : Plain (bitwise op a b) := by
  unfold bitwise
  split
  · rfl
  · exact mismatch_kind _ _ _

theorem bitNot_plain (v : Value) : Plain (bitNot v) := by
  unfold bitNot
  split
  · rfl
  · exact ErrorKind.noConfusion

theorem negate_plain (v : Value) : Plain (negate v) := by
  unfold negate
  split
  · rfl
  · rfl
  · rfl
  · exact ErrorKind.noConfusion

theorem compareFloats_kind {a b : Float} {e : ScriptError} (h : compareFloats a b = .error e) :
    e.kind ≠ .compile := by
  unfold compareFloats at h
  split at h
  · cases h
  · split at h
    · cases h
    · split at h
      · cases h
      · cases h
        exact ErrorKind.noConfusion

theorem compare_kind {a b : Value} {e : ScriptError} (h : compare a b = .error e) :
    e.kind ≠ .compile := by
  unfold compare at h
  split at h
  · cases h
  · cases h
  · split at h
    · exact compareFloats_kind h
    · cases h
      exact mismatch_kind _ _ _

end Operator

theorem Heap.arith_kind {h : Heap} {op : ArithOp} {a b : Value} {e : ScriptError}
    (he : (h.arith op a b).1 = .error e) : e.kind ≠ .compile := by
  unfold Heap.arith at he
  split at he
  · cases he
  · cases he
  · cases he
  · have hplain := Operator.numeric_plain op a b
    rw [show Operator.numeric op a b = .error e from he] at hplain
    exact hplain

end ScriptMachine
