import ScriptMachine.Machine.Iteration
import ScriptMachine.Proofs.Machine.Members

/-!
# Iteration keeps the machine in order

What a step delivers is shared before a register takes it over.
-/

set_option autoImplicit false

namespace ScriptMachine.Exec

variable {t : Terms} {s : Scope} {own : List Value} {m : Machine}
variable {call call' : Caller} {c : ClosureObject} {base : Nat}

/-- The values of a step. -/
def Visit.values : Option Visit → List Value
  | none => []
  | some v => [v.key, v.value, v.state]

theorem sharingVisit_keeps {visit : Option Visit} (hm : m.Within t s own)
    (hv : ∀ v ∈ Visit.values visit, m.heap.Has v) :
    Keeps t s own (sharingVisit visit) (sharingVisit visit) Visit.values m := by
  unfold sharingVisit
  split
  · exact .pure hm
  · exact .retainAll hm hv fun m1 hm1 _ => .pure hm1

/-- An index is plain, so only the item matters. -/
theorem indexedVisit_lives {item? : Int64 → Option Value} {state : Value}
    (hitem : ∀ i v, item? i = some v → m.heap.Has v) :
    ∀ v ∈ Visit.values (indexedVisit item? state), m.heap.Has v := by
  intro v hv
  unfold indexedVisit at hv
  dsimp only at hv
  cases hi : item? (state.asInteger?.getD 0) with
  | none =>
    rw [hi] at hv
    cases hv
  | some w =>
    rw [hi] at hv
    simp only [Option.map_some, Visit.values, List.mem_cons, List.not_mem_nil, or_false] at hv
    rcases hv with rfl | rfl | rfl
    · exact Heap.has_of_none rfl
    · exact hitem _ _ hi
    · exact Heap.has_of_none rfl

theorem instanceVisit_keeps (hc : Faithful t call call') {container state : Value}
    (hm : m.Within t s own) (ho : container ∈ own) (hst : m.heap.Has state) :
    Keeps t s own (instanceVisit call container state) (instanceVisit call' container state)
      Visit.values m := by
  unfold instanceVisit
  refine .readHeap ?_
  split
  · exact .fail hm ErrorKind.noConfusion
  · rename_i f hf
    refine .holding hm (by simpa using hm.backs.has_metaOf hf) fun m1 hm1 hw1 => ?_
    refine .retainAll hm1 (by simp [hw1 _ hst, hw1 _ (hm.has ho)]) fun m2 hm2 hw2 => ?_
    refine .bind (hc s f [container, state] ([f] ++ own) m2 hm2 ?_) fun key m3 hm3 => ?_
    · exact hw2 f (hw1 f (hm.backs.has_metaOf hf))
    · split
      · exact .pure (hm3.drop [key])
      · have hkey : m3.heap.Has key := hm3.has (by simp)
        have hobj : m3.heap.Has container := hm3.has (by simp [ho])
        refine .bind (.handing (getMember_keeps hc hm3 hobj hkey)) fun v m4 hm4 => ?_
        refine .retain hm4 (hm4.has (by simp)) fun m5 hm5 _ => .pure hm5

theorem nextVisit_keeps (hc : Faithful t call call') {container state : Value}
    (hm : m.Within t s own) (ho : container ∈ own) (hst : m.heap.Has state) :
    Keeps t s own (nextVisit call container state) (nextVisit call' container state)
      Visit.values m := by
  unfold nextVisit
  split
  · rename_i r
    refine .readHeap (sharingVisit_keeps hm (indexedVisit_lives fun i v hv => ?_))
    obtain ⟨k, -, hk⟩ := Option.bind_eq_some_iff.1 hv
    exact hm.backs.has_items (Array.mem_def.1 (Array.mem_of_getElem? hk))
  · refine sharingVisit_keeps hm (indexedVisit_lives fun i v hv => ?_)
    exact Heap.has_of_none (Heap.Backs.plain_of_byteAt? hv)
  · rename_i r
    refine .readHeap (sharingVisit_keeps hm fun v hv => ?_)
    cases hnext : (m.heap.entries r).next? state.asString? with
    | none =>
      rw [hnext] at hv
      cases hv
    | some e =>
      rw [hnext] at hv
      have hmem := Entries.next?_mem hnext
      refine hm.backs.has_entry (r := r) (List.mem_flatMap.2 ⟨e, hmem, ?_⟩)
      simp only [Option.map_some, Visit.values, List.mem_cons, List.not_mem_nil, or_false] at hv
      rcases hv with rfl | rfl | rfl <;> simp
  · exact instanceVisit_keeps hc hm ho hst
  · exact .fail hm ErrorKind.noConfusion

theorem foreachInstruction_keeps (hc : Faithful t call call') (hs : s.Runs c base) (hj : s.jumps)
    {i : Instruction} (hm : m.Within t s.quiet own)
    (hi : t.strict → c.prototype.HasRegister i.arg0 ∧ c.prototype.HasRegister i.arg2 ∧
      c.prototype.HasRegister (i.arg2 + 1) ∧ c.prototype.HasRegister (i.arg2 + 2) ∧
      ∀ f rest, s.start.frames = f :: rest → 0 ≤ Int64.ofNat f.ip + i.arg1) :
    Keeps t s own (foreachInstruction call base i) (foreachInstruction call' base i) (fun _ => [])
      m := by
  unfold foreachInstruction
  refine .register hs hm.of_quiet (fun ht => (hi ht).1) fun container hcont => ?_
  refine .register hs hm.of_quiet (fun ht => (hi ht).2.2.2.1) fun state hst => ?_
  refine .holding hm (by simpa using hcont) fun m1 hm1 hw1 => ?_
  refine .bind_quiet (nextVisit_keeps hc hm1 (by simp) (hw1 _ hst)) fun visit m2 hm2 => ?_
  split
  · refine .jump hj hs hm2 fun ht f rest hf => (hi ht).2.2.2.2 f rest ?_
    rw [← hm2.frames_quiet, hf]
  · rename_i v
    have hm2' := hm2.of_quiet
    refine .handed (.handed ?_ fun m3 hm3 => ?_) fun m3 hm3 => ?_
    · exact .setRegister hs hm2' fun ht => (hi ht).2.1
    · exact .setRegister hs hm3 fun ht => (hi ht).2.2.1
    · exact .setRegister hs hm3 fun ht => (hi ht).2.2.2.1

end ScriptMachine.Exec
