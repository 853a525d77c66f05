import ScriptMachine.Machine.Step
import ScriptMachine.Proofs.Machine.Construction
import ScriptMachine.Proofs.Machine.Iteration

/-!
# The effects of instructions

An instruction that stays in its function writes registers of its own frame,
moves the current function at most by its jump, and changes slots below the frame
only through captured variables.
-/

set_option autoImplicit false

namespace ScriptMachine.Exec

variable {t : Terms} {s : Scope} {own : List Value} {m : Machine}
variable {call call' : Caller} {c : ClosureObject} {base : Nat} {i : Instruction}

/-! ## Loading and moving -/

theorem loadNulls_keeps (hs : s.Runs c base) (hm : m.Within t s own)
    (hi : t.strict → 0 ≤ i.arg0 ∧ 0 ≤ i.arg1) :
    Keeps t s own (loadNullsInstruction base i) (loadNullsInstruction base i) (fun _ => []) m := by
  unfold loadNullsInstruction
  refine .reading (registerSlot_reads fun ht => (hi ht).1) hm ?_
  rintro start ⟨-, rfl⟩
  refine .reading (indexArg_reads fun ht => (hi ht).2) hm fun count _ => ?_
  refine .next (show stackSize m = .ok m.stack.size m from rfl) ?_
  exact .nullSlots _ _ hm fun i hlt => hs.writes i (by omega)

theorem moveRegister_keeps (hs : s.Runs c base) (hm : m.Within t s own) {target source : Int64}
    (hi : t.strict → c.prototype.HasRegister target ∧ c.prototype.HasRegister source) :
    Keeps t s own (moveRegister base target source) (moveRegister base target source) (fun _ => [])
      m := by
  unfold moveRegister
  refine .register hs hm (fun ht => (hi ht).2) fun v hv => ?_
  exact .bind (sharing_keeps hm hv) fun w m1 hm1 => .setRegister hs hm1 fun ht => (hi ht).1

theorem loadLiteral_keeps (hs : s.Runs c base) (hm : m.Within t s own) {target index : Int64}
    (hi : t.strict → c.prototype.HasRegister target ∧ c.prototype.HasLiteral index) :
    Keeps t s own (loadLiteral base target index) (loadLiteral base target index) (fun _ => [])
      m := by
  unfold loadLiteral
  exact .bind (.literal hs hm fun ht => (hi ht).2) fun v m1 hm1 =>
    .setRegister hs hm1 fun ht => (hi ht).1

/-! ## Captured variables -/

/-- The instruction is about to store a value into a slot through the cell of the slot. -/
def StoresTo (i : Instruction) (c : ClosureObject) (base : Nat) (m : Machine) (slot : Nat)
    (v : Value) : Prop :=
  0 ≤ i.arg1 ∧ 0 ≤ i.arg2 ∧
    (∃ cell, c.outers[i.arg1.toInt.toNat]? = some cell ∧ m.heap.stackIndex? cell = some slot) ∧
    m.stack[base + i.arg2.toInt.toNat]? = some v

theorem setOuter_keeps (hs : s.Runs c base) (hm : m.Within t s own)
    (hi : t.strict → c.prototype.HasOptional i.arg0 ∧ c.prototype.HasOuter i.arg1 ∧
      c.prototype.HasRegister i.arg2)
    (hst : ∀ slot v, StoresTo i c base m slot v → t.stores slot v) :
    Keeps t s own (setOuterInstruction base i) (setOuterInstruction base i) (fun _ => []) m := by
  unfold setOuterInstruction
  refine .reading (outerCell_reads hs hm fun ht => (hi ht).2.1) hm fun cell ⟨hpos, hcell⟩ => ?_
  refine .reading (register_reads hs hm fun ht => (hi ht).2.2) hm fun v ⟨hpos2, hv⟩ => ?_
  have hlive := hm.has_slot hv
  refine .next (retainAll_eq m _) ?_
  have hm1 : (m.withHeap (m.heap.retainAll [v, v])).Within t s ([v, v] ++ own) :=
    hm.retainAll (by simp [hlive])
  refine .writeOuter (v := v) hm1 (fun slot hslot => hst slot v ⟨hpos, hpos2, ⟨cell, hcell, ?_⟩, hv⟩)
    fun m2 hm2 => .setOptional hs hm2 fun ht => (hi ht).1
  simp only [Machine.withHeap_heap, Heap.stackIndex?, Heap.outerState?, Heap.retainAll,
    List.foldl_cons, List.foldl_nil, Heap.body?_retain] at hslot ⊢
  exact hslot

theorem getOuter_keeps (hs : s.Runs c base) (hm : m.Within t s own)
    (hi : t.strict → c.prototype.HasRegister i.arg0 ∧ c.prototype.HasOuter i.arg1) :
    Keeps t s own (do setRegister base i.arg0 (← sharing (← readOuter (← outerCell i.arg1))))
      (do setRegister base i.arg0 (← sharing (← readOuter (← outerCell i.arg1)))) (fun _ => [])
      m := by
  refine .reading (outerCell_reads hs hm fun ht => (hi ht).2) hm fun cell _ => ?_
  refine .reading (readOuter_reads hm) hm fun v hv => ?_
  exact .bind (sharing_keeps hm hv) fun w m1 hm1 => .setRegister hs hm1 fun ht => (hi ht).1

theorem ownerBase_keeps (hs : s.Runs c base) (hm : m.Within t s own) :
    Keeps t s own ownerBase ownerBase (fun (v : Value) => [v]) m := by
  unfold ownerBase
  refine .reading (currentFrame_reads hs hm) hm fun f _ => .readHeap ?_
  split
  · rename_i b hb
    obtain ⟨o, -, hb⟩ := Option.bind_eq_some_iff.1 hb
    obtain ⟨cls, hcls, hb⟩ := Option.bind_eq_some_iff.1 hb
    exact sharing_keeps hm (hm.backs.has_base hcls hb)
  · exact .pure (hm.own_plain rfl)

/-! ## Members -/

theorem prepareCall_keeps (hc : Faithful t call call') (hs : s.Runs c base) {key obj : Value}
    (hm : m.Within t s own) (ho : obj ∈ own) (hk : m.heap.Has key)
    (hi : t.strict → c.prototype.HasRegister i.arg0 ∧ c.prototype.HasRegister i.arg3) :
    Keeps t s own (prepareCall call base i key obj) (prepareCall call' base i key obj) (fun _ => [])
      m := by
  unfold prepareCall
  refine .bind (getMember_keeps hc hm (hm.has ho) hk) fun f m1 hm1 => ?_
  have hobj : m1.heap.Has obj := hm1.has (List.mem_append_right _ ho)
  refine .handed (.retain hm1 hobj fun m2 hm2 _ => ?_) fun m2 hm2 => ?_
  · exact .setRegister hs hm2 fun ht => (hi ht).2
  · exact .setRegister hs hm2 fun ht => (hi ht).1

/-- Storing a register's value under a key, with the value as the result. -/
theorem storing_keeps {store store' : Exec Unit} (hs : s.Runs c base) {v : Value}
    (hm : m.Within t s own) (hv : m.heap.Has v)
    (hstore : ∀ m1, m1.Within t s (v :: v :: own) → Keeps t s (v :: own) store store' (fun _ => []) m1)
    (hi : t.strict → c.prototype.HasOptional i.arg0) :
    Keeps t s own
      (do
        retain v
        handing v do
          retain v
          store
        setOptional base i.arg0 v)
      (do
        retain v
        handing v do
          retain v
          store'
        setOptional base i.arg0 v) (fun _ => []) m := by
  refine .retain hm hv fun m1 hm1 hw1 => ?_
  refine .handed (.retain hm1 (hw1 v hv) fun m2 hm2 _ => hstore m2 hm2) fun m2 hm2 => ?_
  exact .setOptional hs hm2 hi

/-! ## Operators -/

theorem arith_keeps (hc : Faithful t call call') (hs : s.Runs c base) {op : ArithOp}
    (hm : m.Within t s own)
    (hi : t.strict → c.prototype.HasRegister i.arg0 ∧ c.prototype.HasRegister i.arg1 ∧
      c.prototype.HasRegister i.arg2) :
    Keeps t s own (arithInstruction call op base i) (arithInstruction call' op base i) (fun _ => [])
      m := by
  unfold arithInstruction
  refine .register hs hm (fun ht => (hi ht).2.1) fun a ha => ?_
  refine .register hs hm (fun ht => (hi ht).2.2) fun b hb => ?_
  refine .holding hm (by simp [ha, hb]) fun m1 hm1 hw1 => ?_
  refine .bind (arithOp_keeps hc hm1 (hw1 a ha) (hw1 b hb)) fun v m2 hm2 => ?_
  exact .setRegister hs hm2 fun ht => (hi ht).1

theorem bitwise_keeps (hs : s.Runs c base) (hm : m.Within t s own)
    (hi : t.strict → c.prototype.HasRegister i.arg0 ∧ c.prototype.HasRegister i.arg1 ∧
      c.prototype.HasRegister i.arg2 ∧ (BitwiseOp.ofCode? i.arg3).isSome) :
    Keeps t s own (bitwiseInstruction base i) (bitwiseInstruction base i) (fun _ => []) m := by
  unfold bitwiseInstruction
  split
  · rename_i hnone
    refine .malformed hm fun ht => ?_
    have := (hi ht).2.2.2
    rw [hnone] at this
    cases this
  · rename_i op _
    refine .register hs hm (fun ht => (hi ht).2.1) fun a _ => ?_
    refine .register hs hm (fun ht => (hi ht).2.2.1) fun b _ => ?_
    refine .bind (plain_keeps hm (Operator.bitwise_plain op a b)) fun v m1 hm1 => ?_
    exact .setRegister hs hm1 fun ht => (hi ht).1

theorem equality_keeps (hs : s.Runs c base) {target : Int64} {a b : Value} {wanted : Bool}
    (hm : m.Within t s own) (hi : t.strict → c.prototype.HasRegister target) :
    Keeps t s own (equalityInstruction base target a b wanted)
      (equalityInstruction base target a b wanted) (fun _ => []) m :=
  .setRegister hs (hm.own_plain rfl) hi

theorem literalEquality_keeps (hs : s.Runs c base) {wanted : Bool} (hm : m.Within t s own)
    (hi : t.strict → c.prototype.HasRegister i.arg0 ∧ c.prototype.HasLiteral i.arg1 ∧
      c.prototype.HasRegister i.arg2) :
    Keeps t s own (literalEquality base i wanted) (literalEquality base i wanted) (fun _ => [])
      m := by
  unfold literalEquality
  refine .bind (.literal hs hm fun ht => (hi ht).2.1) fun a m1 hm1 => .owning ?_
  refine .register hs hm1 (fun ht => (hi ht).2.2) fun b _ => ?_
  exact equality_keeps hs hm1 fun ht => (hi ht).1

theorem comparing_keeps (hc : Faithful t call call') (hs : s.Runs c base) {code : Int64} {a b : Int64}
    {use : Value → Exec Unit} (hm : m.Within t s.quiet own)
    (hi : t.strict → (CompareOp.ofCode? code).isSome ∧ c.prototype.HasRegister a ∧
      c.prototype.HasRegister b)
    (huse : ∀ v own m, v.ref? = none → m.Within t s.quiet own →
      Keeps t s own (use v) (use v) (fun _ => []) m) :
    Keeps t s own (comparing call code base a b use) (comparing call' code base a b use)
      (fun _ => []) m := by
  unfold comparing
  split
  · rename_i hnone
    refine .malformed hm.of_quiet fun ht => ?_
    have := (hi ht).1
    rw [hnone] at this
    cases this
  · rename_i op _
    refine .register hs hm.of_quiet (fun ht => (hi ht).2.1) fun x hx => ?_
    refine .register hs hm.of_quiet (fun ht => (hi ht).2.2) fun y hy => ?_
    refine .holding hm (by simp [hx, hy]) fun m1 hm1 hw1 => ?_
    refine .bind_quiet (compareOp_keeps hc hm1 (hw1 x hx) (hw1 y hy)) fun o m2 hm2 => ?_
    refine huse _ _ m2 ?_ hm2
    cases op <;> cases o <;> rfl

/-! ## Jumps -/

/-- A jump of a well-formed instruction stays in its function. -/
theorem jump_keeps (hs : s.Runs c base) (hj : s.jumps) (hm : m.Within t s.quiet own)
    (hi : t.strict → ∀ f rest, s.start.frames = f :: rest → 0 ≤ Int64.ofNat f.ip + i.arg1) :
    Keeps t s own (jump i.arg1) (jump i.arg1) (fun _ => []) m :=
  .jump hj hs hm fun ht f rest hf => hi ht f rest (hm.frames_quiet.symm.trans hf)

theorem shortCircuit_keeps (hs : s.Runs c base) (hj : s.jumps) {onFalsy : Bool}
    (hm : m.Within t s.quiet own)
    (hi : t.strict → c.prototype.HasRegister i.arg0 ∧ c.prototype.HasRegister i.arg2 ∧
      ∀ f rest, s.start.frames = f :: rest → 0 ≤ Int64.ofNat f.ip + i.arg1) :
    Keeps t s own (shortCircuit base i onFalsy) (shortCircuit base i onFalsy) (fun _ => []) m := by
  unfold shortCircuit
  refine .register hs hm.of_quiet (fun ht => (hi ht).2.1) fun v hv => ?_
  split
  · refine .retain hm hv fun m1 hm1 _ => ?_
    refine .bind_quiet (.setRegister hs.quiet hm1 fun ht => (hi ht).1) fun _ m2 hm2 => ?_
    exact jump_keeps hs hj hm2 fun ht => (hi ht).2.2
  · exact .pure hm.of_quiet

/-! ## All instructions that stay in their function -/

theorem effect_keeps (hc : Faithful t call call') (hs : s.Runs c base) (hj : s.jumps) {place : Nat}
    (hm : m.Within t s.quiet own) (hi : t.strict → i.WellFormed c.prototype place)
    (hplace : ∀ f rest, s.start.frames = f :: rest → f.ip = place + 1)
    (hst : i.opcode = .setOuter → ∀ slot v, StoresTo i c base m slot v → t.stores slot v)
    (hcall : i.opcode ≠ .call) (htail : i.opcode ≠ .tailCall) :
    Keeps t s own (effect call base i) (effect call' base i) (fun _ => []) m := by
  have hm' := hm.of_quiet
  have hjump : i.JumpsFrom place → ∀ f rest, s.start.frames = f :: rest →
      0 ≤ Int64.ofNat f.ip + i.arg1 := by
    intro h f rest hf
    rw [hplace f rest hf]
    exact h
  unfold effect
  unfold Instruction.WellFormed at hi
  generalize i.opcode = op at hi hst hcall htail
  cases op with
  | load => exact loadLiteral_keeps hs hm' hi
  | loadInteger | loadFloat | loadBool =>
    exact .setRegister hs (hm'.own_plain rfl) hi
  | doubleLoad =>
    refine .seq (loadLiteral_keeps hs hm' fun ht => ⟨(hi ht).1, (hi ht).2.1⟩) fun m1 hm1 => ?_
    exact loadLiteral_keeps hs hm1 fun ht => (hi ht).2.2
  | loadNulls => exact loadNulls_keeps hs hm' hi
  | loadRoot =>
    refine .get (.bind (sharing_keeps hm' (hm'.has_root Machine.globals_mem_roots)) ?_)
    exact fun v m1 hm1 => .setRegister hs hm1 hi
  | move => exact moveRegister_keeps hs hm' hi
  | doubleMove =>
    refine .seq (moveRegister_keeps hs hm' fun ht => ⟨(hi ht).1, (hi ht).2.1⟩) fun m1 hm1 => ?_
    exact moveRegister_keeps hs hm1 fun ht => (hi ht).2.2
  | getOuter => exact getOuter_keeps hs hm' hi
  | setOuter => exact setOuter_keeps hs hm' hi (hst rfl)
  | get =>
    refine .register hs hm' (fun ht => (hi ht).2.1) fun key hk => ?_
    refine .register hs hm' (fun ht => (hi ht).2.2) fun obj ho => ?_
    refine .holding hm' (by simp [hk, ho]) fun m1 hm1 hw1 => ?_
    refine .bind (getMember_keeps hc hm1 (hw1 obj ho) (hw1 key hk)) fun v m2 hm2 => ?_
    exact .setRegister hs hm2 fun ht => (hi ht).1
  | getLiteral =>
    refine .bind (.literal hs hm' fun ht => (hi ht).2.1) fun key m1 hm1 => .owning ?_
    refine .register hs hm1 (fun ht => (hi ht).2.2) fun obj ho => ?_
    refine .holding hm1 (by simpa using ho) fun m2 hm2 hw2 => ?_
    refine .bind (getMember_keeps hc hm2 (hw2 obj ho) (hm2.has (by simp))) fun v m3 hm3 => ?_
    exact .setRegister hs hm3 fun ht => (hi ht).1
  | assign =>
    refine .register hs hm' (fun ht => (hi ht).2.1) fun obj ho => ?_
    refine .register hs hm' (fun ht => (hi ht).2.2.1) fun key hk => ?_
    refine .register hs hm' (fun ht => (hi ht).2.2.2) fun v hv => ?_
    refine .holding hm' (by simp [ho, hk]) fun m1 hm1 hw1 => ?_
    refine storing_keeps hs hm1 (hw1 v hv) (fun m2 hm2 => ?_) fun ht => (hi ht).1
    exact setMember_keeps hc hm2 (by simp) (by simp)
  | newSlot =>
    refine .register hs hm' (fun ht => (hi ht).2.1) fun obj ho => ?_
    refine .register hs hm' (fun ht => (hi ht).2.2.1) fun key hk => ?_
    refine .register hs hm' (fun ht => (hi ht).2.2.2) fun v hv => ?_
    refine .holding hm' (by simp [ho, hk]) fun m1 hm1 hw1 => ?_
    refine storing_keeps hs hm1 (hw1 v hv) (fun m2 hm2 => ?_) fun ht => (hi ht).1
    exact newSlot_keeps hc hm2 (by simp) (by simp)
  | newMember => exact newMemberInstruction_keeps hc hs hm' hi
  | remove =>
    refine .register hs hm' (fun ht => (hi ht).2.1) fun obj ho => ?_
    refine .register hs hm' (fun ht => (hi ht).2.2) fun key hk => ?_
    refine .holding hm' (by simp [ho, hk]) fun m1 hm1 hw1 => ?_
    refine .bind (deleteSlot_keeps hc hm1 (hw1 obj ho) (hw1 key hk)) fun v m2 hm2 => ?_
    exact .setOptional hs hm2 fun ht => (hi ht).1
  | add | sub | mul | div | mod | exp => exact arith_keeps hc hs hm' hi
  | bitwise => exact bitwise_keeps hs hm' hi
  | neg =>
    refine .register hs hm' (fun ht => (hi ht).2) fun v hv => ?_
    refine .holding hm' (by simpa using hv) fun m1 hm1 hw1 => ?_
    refine .bind (negateOp_keeps hc hm1 (hw1 v hv)) fun w m2 hm2 => ?_
    exact .setRegister hs hm2 fun ht => (hi ht).1
  | not =>
    refine .register hs hm' (fun ht => (hi ht).2) fun v _ => ?_
    exact .setRegister hs (hm'.own_plain rfl) fun ht => (hi ht).1
  | bitNot =>
    refine .register hs hm' (fun ht => (hi ht).2) fun v _ => ?_
    refine .bind (plain_keeps hm' (Operator.bitNot_plain v)) fun w m1 hm1 => ?_
    exact .setRegister hs hm1 fun ht => (hi ht).1
  | eq | neq =>
    refine .register hs hm' (fun ht => (hi ht).2.1) fun a _ => ?_
    refine .register hs hm' (fun ht => (hi ht).2.2) fun b _ => ?_
    exact equality_keeps hs hm' fun ht => (hi ht).1
  | eqLiteral | neqLiteral => exact literalEquality_keeps hs hm' hi
  | compare =>
    refine comparing_keeps hc hs hm (fun ht => ⟨(hi ht).2.2.2, (hi ht).2.1, (hi ht).2.2.1⟩) ?_
    exact fun v own m hv hm => .setRegister hs (hm.of_quiet.own_plain hv) fun ht => (hi ht).1
  | jumpUnless =>
    refine comparing_keeps hc hs hm (fun ht => ⟨(hi ht).1, (hi ht).2.2⟩) fun v own m _ hm => ?_
    split
    · exact jump_keeps hs hj hm fun ht => hjump (hi ht).2.1
    · exact .pure hm.of_quiet
  | jump => exact jump_keeps hs hj hm fun ht => hjump (hi ht)
  | jumpIfFalsy =>
    refine .register hs hm' (fun ht => (hi ht).1) fun v _ => ?_
    split
    · exact jump_keeps hs hj hm fun ht => hjump (hi ht).2
    · exact .pure hm'
  | shortAnd | shortOr =>
    exact shortCircuit_keeps hs hj hm fun ht => ⟨(hi ht).1, (hi ht).2.2, hjump (hi ht).2.1⟩
  | prepareCall =>
    refine .register hs hm' (fun ht => (hi ht).2.1) fun key hk => ?_
    refine .register hs hm' (fun ht => (hi ht).2.2.1) fun obj ho => ?_
    refine .holding hm' (by simp [hk, ho]) fun m1 hm1 hw1 => ?_
    exact prepareCall_keeps hc hs hm1 (by simp) (hw1 key hk) fun ht => ⟨(hi ht).1, (hi ht).2.2.2⟩
  | prepareCallLiteral =>
    refine .bind (.literal hs hm' fun ht => (hi ht).2.1) fun key m1 hm1 => .owning ?_
    refine .register hs hm1 (fun ht => (hi ht).2.2.1) fun obj ho => ?_
    refine .holding hm1 (by simpa using ho) fun m2 hm2 hw2 => ?_
    exact prepareCall_keeps hc hs hm2 (by simp) (hm2.has (by simp))
      fun ht => ⟨(hi ht).1, (hi ht).2.2.2⟩
  | call => exact absurd rfl hcall
  | tailCall => exact absurd rfl htail
  | ret => exact .pure hm'
  | close =>
    refine .reading (registerSlot_reads hi) hm' ?_
    rintro slot ⟨-, rfl⟩
    exact Meets.of_ok (closeOuters_eq _ m) (hm'.closed _)
  | closure => exact closureInstruction_keeps hs hi hm'
  | newObject => exact newObjectInstruction_keeps hc hs hm' hi
  | append => exact appendInstruction_keeps hs hm' hi
  | typeOf =>
    refine .register hs hm' (fun ht => (hi ht).2) fun v hv => ?_
    refine .holding hm' (by simpa using hv) fun m1 hm1 hw1 => ?_
    refine .bind (typeOf_keeps hc hm1 (hw1 v hv)) fun w m2 hm2 => ?_
    exact .setRegister hs hm2 fun ht => (hi ht).1
  | instanceOf =>
    refine .register hs hm' (fun ht => (hi ht).2.1) fun cls _ => ?_
    refine .register hs hm' (fun ht => (hi ht).2.2) fun obj _ => ?_
    refine .reading (instanceOf_reads cls obj) hm' fun b _ => ?_
    exact .setRegister hs (hm'.own_plain rfl) fun ht => (hi ht).1
  | has =>
    refine .register hs hm' (fun ht => (hi ht).2.1) fun obj _ => ?_
    refine .register hs hm' (fun ht => (hi ht).2.2) fun key _ => .readHeap ?_
    exact .setRegister hs (hm'.own_plain rfl) fun ht => (hi ht).1
  | base =>
    exact .bind (ownerBase_keeps hs hm') fun v m1 hm1 => .setRegister hs hm1 hi
  | deepCopy =>
    refine .bind (defaultCopy_keeps hs (fun ht => (hi ht).2) hm') fun v m1 hm1 => ?_
    exact .setRegister hs hm1 fun ht => (hi ht).1
  | foreach =>
    refine foreachInstruction_keeps hc hs hj hm fun ht => ?_
    exact ⟨(hi ht).1, (hi ht).2.2.1, (hi ht).2.2.2.1, (hi ht).2.2.2.2, hjump (hi ht).2.1⟩

end ScriptMachine.Exec
