import ScriptMachine.Machine.Frames
import ScriptMachine.Proofs.Machine.Cells

/-!
# The height of the stack

The stack grows by values that are taken over, and what lies above a height is
let go when it is cut.
-/

set_option autoImplicit false

namespace ScriptMachine

namespace Machine

variable {t : Terms} {own : List Value} {m : Machine} {reach : Reach}

theorem Tidy.own_plain {v : Value} (hm : m.Tidy t own) (hv : v.ref? = none) :
    m.Tidy t (v :: own) :=
  hm.heap (by rw [coe_cons_add]; exact (hm.backs.own_plain hv).stay)

theorem Tidy.own_nulls (hm : m.Tidy t own) (n : Nat) :
    m.Tidy t (List.replicate n .null ++ own) := by
  induction n with
  | zero => exact hm
  | succ n ih => exact ih.own_plain rfl

theorem Tidy.retain {v : Value} (hm : m.Tidy t own) (hv : m.heap.Has v) :
    (m.withHeap (m.heap.retain v)).Tidy t (v :: own) :=
  hm.heap (by rw [coe_cons_add]; exact hm.backs.retain hv)

theorem Tidy.release {v : Value} (hm : m.Tidy t (v :: own)) :
    (m.withHeap (m.heap.release v)).Tidy t own :=
  hm.heap hm.backs_cons.release

theorem Tidy.follows_release {v : Value} (hm : m.Tidy t (v :: own)) :
    Follows t reach m (m.withHeap (m.heap.release v)) :=
  .heap hm.backs_cons.release.evolves

/-! ## Growing -/

/-- The machine with values on top of its stack. -/
def pushed (m : Machine) (vs : List Value) : Machine := { m with stack := m.stack ++ vs.toArray }

theorem size_pushed (m : Machine) (vs : List Value) :
    (m.pushed vs).stack.size = m.stack.size + vs.length := by
  simp [pushed]

theorem Tidy.pushed {vs : List Value} (hm : m.Tidy t (vs ++ own)) : (m.pushed vs).Tidy t own := by
  refine hm.restack (le_of_eq ?_)
  simp only [Array.toList_append, ← Multiset.coe_add]
  ac_rfl

theorem Follows.pushed {vs : List Value} (hw : ∀ i, m.stack.size ≤ i → reach.writes i) :
    Follows t reach m (m.pushed vs) := by
  refine ⟨rfl, rfl, rfl, rfl, .refl _, fun i v hv => ?_, fun _ _ hr => .inl hr⟩
  by_cases hi : i < m.stack.size
  · exact .inl (by rwa [Machine.pushed, Array.getElem?_append_left hi] at hv)
  · exact .inr (.inl (hw i (by omega)))

/-! ## Cutting -/

/-- The machine with its stack cut to a height. -/
def cut (m : Machine) (n : Nat) : Machine :=
  { m with stack := m.stack.shrink n }.withHeap
    (m.heap.releaseAll (m.stack.extract n m.stack.size).toList)

@[simp] theorem cut_frames (m : Machine) (n : Nat) : (m.cut n).frames = m.frames := rfl

@[simp] theorem size_cut (m : Machine) (n : Nat) :
    (m.cut n).stack.size = min n m.stack.size := by
  simp [cut]

theorem Tidy.lifted (hm : m.Tidy t own) (n : Nat) : { m with stack := m.stack.shrink n }.Tidy t
    ((m.stack.extract n m.stack.size).toList ++ own) := by
  refine hm.restack (le_of_eq ?_)
  have htail : (m.stack.extract n m.stack.size).toList = m.stack.toList.drop n := by
    rw [Array.toList_extract, List.extract_eq_take_drop]
    exact List.take_of_length_le (by simp)
  have hsplit : (m.stack.shrink n).toList ++ (m.stack.extract n m.stack.size).toList =
      m.stack.toList := by
    rw [Array.toList_shrink, htail, List.take_append_drop]
  rw [← hsplit]
  simp only [← Multiset.coe_add]
  ac_rfl

theorem Tidy.cut (hm : m.Tidy t own) (n : Nat) : (m.cut n).Tidy t own :=
  (hm.lifted n).heap (hm.lifted n).backs_append.releaseAll

theorem Tidy.follows_cut (hm : m.Tidy t own) (n : Nat) : Follows t reach m (m.cut n) := by
  have he := (hm.lifted n).backs_append.releaseAll.evolves
  refine ⟨rfl, rfl, rfl, rfl, he.drifts, fun i v hv => .inl ?_, fun r i hr => .inl (he.opened hr)⟩
  have hv' : (m.stack.shrink n)[i]? = some v := hv
  obtain ⟨hi, hget⟩ := Array.getElem?_eq_some_iff.1 hv'
  rw [Array.getElem_shrink] at hget
  exact Array.getElem?_eq_some_iff.2 ⟨_, hget⟩

theorem Tidy.opened_cut (hm : m.Tidy t own) {n i : Nat} {c : Ref}
    (hc : (m.cut n).heap.outerState? c = some (.opened i)) :
    m.heap.outerState? c = some (.opened i) :=
  (hm.lifted n).backs_append.releaseAll.evolves.opened hc

end Machine

namespace Exec

variable (m : Machine)

theorem pushNulls_eq (s : Array Value) (n : Nat) :
    pushNulls s n = s ++ (List.replicate n Value.null).toArray := by
  induction n generalizing s with
  | zero => simp [pushNulls]
  | succ n ih =>
    rw [pushNulls, ih]
    apply Array.ext'
    simp [List.replicate_succ]

theorem growTo_eq (top : Nat) :
    growTo top m = .ok () (m.pushed (List.replicate (top - m.stack.size) .null)) := by
  unfold growTo
  rw [stack_eq]
  simp only [pushNulls_eq]
  rfl

theorem pushValues_eq (vs : List Value) : pushValues vs m = .ok () (m.pushed vs) := by
  unfold pushValues
  rw [stack_eq]
  simp only [List.foldl_push_eq_append']
  rfl

theorem truncate_eq (n : Nat) : truncate n m = .ok () (m.cut n) := by
  unfold truncate
  rw [bind_ok m (stack_eq _ m)]
  by_cases h : n < m.stack.size
  · simp only [h, if_true]
    exact releaseAll_eq _ _
  · have hall : m.cut n = m := by
      have hs : m.stack.shrink n = m.stack := by
        apply Array.ext'
        simp [List.take_of_length_le (show m.stack.toList.length ≤ n by simpa using h)]
      have he : (m.stack.extract n m.stack.size).toList = [] := by
        simp [Array.toList_extract, List.extract_eq_take_drop]
        omega
      simp only [Machine.cut, hs, he]
      rfl
    rw [hall]
    simp only [h, if_false]
    rfl

end Exec

end ScriptMachine
