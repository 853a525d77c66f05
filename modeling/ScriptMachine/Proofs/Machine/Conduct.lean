import ScriptMachine.Proofs.Machine.Regimes

/-!
# Conduct

What the parts of an instruction do in any regime that lets them write their
registers. Entering and leaving functions is not among it, nor are stores through
cells.
-/

set_option autoImplicit false

namespace ScriptMachine

namespace Exec

open Regime

/-! ## Members and operators -/

section

variable {R : Regime} {call : Caller} (hc : R.AllowsCalls call)

include hc in
theorem callMeta_allowed (m : Value) (lent owned : List Value) :
    R.Allows (callMeta call m lent owned) :=
  .holding ((Allows.retainAll _).bind fun _ => hc _ _)

theorem keyDelegate?_allowed (tag : TypeTag) (key : Value) : R.Allows (keyDelegate? tag key) := by
  unfold keyDelegate?
  split
  · exact Allows.get.bind fun _ => .pure _
  · exact .pure none

include hc in
theorem getMember_allowed (obj key : Value) : R.Allows (getMember call obj key) := by
  refine (Allows.readHeap _).bind fun found => ?_
  split
  · exact .fail _
  · exact sharing_allowed _
  · refine (Allows.readHeap _).bind fun method => ?_
    split
    · exact callMeta_allowed hc _ _ _
    · refine (keyDelegate?_allowed _ _).bind fun found => ?_
      split
      · exact sharing_allowed _
      · exact (Allows.readHeap _).bind fun e => .fail e

theorem storingKey_allowed (key : Value) (stored : List Value) :
    R.Allows (storingKey key stored) := by
  unfold storingKey
  split
  · exact .pure _
  · exact (Allows.releaseAll _).bind fun _ => .fail _

theorem requireFound_allowed (name : String) (found : Bool) :
    R.Allows (requireFound name found) := by
  unfold requireFound
  split
  · exact .pure ()
  · exact .fail _

include hc in
theorem assignThrough_allowed (obj key v : Value) :
    R.Allows (assignThrough call obj key v) := by
  refine (Allows.readHeap _).bind fun method => ?_
  split
  · exact (callMeta_allowed hc _ _ _).bind Allows.release
  · exact (Allows.release v).bind fun _ => (Allows.readHeap _).bind fun e => .fail e

include hc in
theorem setMember_allowed (obj key v : Value) : R.Allows (setMember call obj key v) := by
  unfold setMember
  split
  · exact (storingKey_allowed _ _).bind fun k => (Allows.heap _).bind fun found =>
      requireFound_allowed _ _
  · exact (storingKey_allowed _ _).bind fun k => (Allows.heap _).bind fun found =>
      requireFound_allowed _ _
  · split
    · exact .slotHeap _
    · exact (Allows.release v).bind fun _ => .fail _
  · rename_i r
    have hend : ∀ stored : Bool, R.Allows
        (if stored then Exec.release v else assignThrough call (.instanceObject r) key v) := by
      intro stored
      cases stored with
      | true => exact .release v
      | false => exact assignThrough_allowed hc _ _ _
    refine (Allows.retain v).bind fun _ => ?_
    dsimp only
    split
    · exact (Allows.heap _).bind hend
    · exact (Allows.release v).bind fun _ => hend false
  · exact (Allows.release v).bind fun _ => .fail _

include hc in
theorem newClassMember_allowed (cls : Ref) (key v attributes : Value) (isStatic : Bool) :
    R.Allows (newClassMember call cls key v attributes isStatic) := by
  refine (Allows.readHeap _).bind fun method => ?_
  split
  · exact (callMeta_allowed hc _ _ _).bind Allows.release
  · refine (storingKey_allowed _ _).bind fun k => Allows.bind
      (.handing ((Allows.retain key).bind fun _ => .slotHeap _)) fun _ => ?_
    split
    · exact .pure ()
    · exact .slotHeap _

include hc in
theorem newSlot_allowed (obj key v : Value) : R.Allows (newSlot call obj key v) := by
  unfold newSlot
  split
  · exact (storingKey_allowed _ _).bind fun k => (Allows.retain key).bind fun _ => .updateHeap _
  · exact newClassMember_allowed hc _ _ _ _ _
  · refine (Allows.readHeap _).bind fun method => ?_
    split
    · exact (callMeta_allowed hc _ _ _).bind Allows.release
    · exact (Allows.release v).bind fun _ => .fail _
  · exact (Allows.release v).bind fun _ => .fail _

include hc in
theorem deleteSlot_allowed (obj key : Value) : R.Allows (deleteSlot call obj key) := by
  unfold deleteSlot
  split
  · refine (Allows.ofSlot _).bind fun k => (Allows.heap _).bind fun gone => ?_
    split
    · exact .pure _
    · exact .fail _
  · split
    · exact .slotHeap _
    · exact .fail _
  · refine (Allows.readHeap _).bind fun method => ?_
    split
    · exact callMeta_allowed hc _ _ _
    · exact .fail _
  · exact .fail _

include hc in
theorem displayText_allowed (v : Value) : R.Allows (displayText call v) := by
  refine (Allows.readHeap _).bind fun method => ?_
  split
  · exact .readHeap _
  · exact (callMeta_allowed hc _ _ _).bind fun _ => .owning (.readHeap _)

include hc in
theorem arithOp_allowed (op : ArithOp) (a b : Value) : R.Allows (arithOp call op a b) := by
  refine (Allows.readHeap _).bind fun method => ?_
  split
  · exact callMeta_allowed hc _ _ _
  · split
    · exact (displayText_allowed hc _).bind fun _ => .heap _
    · exact (displayText_allowed hc _).bind fun _ => .heap _
    · exact (Allows.heap _).bind fun r => .ofExcept r

include hc in
theorem negateOp_allowed (v : Value) : R.Allows (negateOp call v) := by
  refine (Allows.readHeap _).bind fun method => ?_
  split
  · exact callMeta_allowed hc _ _ _
  · exact .ofExcept _

include hc in
theorem compareOp_allowed (a b : Value) : R.Allows (compareOp call a b) := by
  refine (Allows.readHeap _).bind fun method => ?_
  split
  · exact (callMeta_allowed hc _ _ _).bind fun _ => .owning (.ofExcept _)
  · exact .ofExcept _

include hc in
theorem typeOf_allowed (v : Value) : R.Allows (typeOf call v) := by
  refine (Allows.readHeap _).bind fun method => ?_
  split
  · exact callMeta_allowed hc _ _ _
  · exact .heap _

theorem instanceOf_allowed (cls obj : Value) : R.Allows (instanceOf cls obj) := by
  unfold instanceOf
  split
  · split
    · exact .readHeap _
    · exact .pure false
  · exact .fail _

end

/-! ## New objects -/

section

variable {R : Regime} {call : Caller} (base : Nat) (i : Instruction)

theorem gather_allowed {α : Type} {make : α → Exec Value} (hmake : ∀ a, R.Allows (make a))
    (made : List Value) (as : List α) : R.Allows (gather make made as) := by
  induction as generalizing made with
  | nil => exact .pure made
  | cons a as ih => exact (Allows.handingAll (hmake a)).bind fun v => ih _

theorem currentOuters_allowed : R.Allows currentOuters := by
  refine currentFrame_allowed.bind fun f => (Allows.readHeap _).bind fun c => ?_
  split <;> exact .pure _

theorem captureCell_allowed (outers : List Ref) (c : Capture) :
    R.Allows (captureCell base outers c) := by
  unfold captureCell
  split
  · exact (Allows.modifyGet fun _ => ⟨rfl, rfl⟩).bind fun c => .pure _
  · split
    · exact sharing_allowed _
    · exact .malformed _

theorem defaultCopy_allowed (r : Int64) : R.Allows (defaultCopy base r) :=
  (register_allowed base r).bind fun _ => .heap _

theorem closureInstruction_allowed (hb : R.Owns base) : R.Allows (closureInstruction base i) := by
  refine (indexArg_allowed _ _).bind fun index => currentFrame_allowed.bind fun f => ?_
  split
  · exact .malformed _
  · exact currentOuters_allowed.bind fun outers =>
      (gather_allowed (captureCell_allowed base outers) _ _).bind fun cells =>
        Allows.bind (.handingAll (gather_allowed (defaultCopy_allowed base) _ _)) fun _ =>
          (Allows.heap _).bind fun c => setRegister_allowed _ _ _ hb

theorem baseClass_allowed (r : Int64) : R.Allows (baseClass base r) := by
  unfold baseClass
  split
  · refine (register_allowed base r).bind fun v => ?_
    split
    · exact .pure _
    · exact .fail _
  · exact .pure none

theorem optionalRegister_allowed (r : Int64) : R.Allows (optionalRegister base r) := by
  unfold optionalRegister
  split
  · exact register_allowed base r
  · exact .pure Value.null

variable (hc : R.AllowsCalls call) (hb : R.Owns base)

include hc in
theorem announce_allowed (parent : Option Ref) (cls : Ref) (attributes : Value) :
    R.Allows (announce call parent cls attributes) := by
  unfold announce
  split
  · exact .pure ()
  · refine (Allows.readHeap _).bind fun method => ?_
    split
    · exact .pure ()
    · exact (callMeta_allowed hc _ _ _).bind Allows.release

include hc in
theorem newClassValue_allowed : R.Allows (newClassValue call base i) :=
  (baseClass_allowed base _).bind fun _ => (optionalRegister_allowed base _).bind fun _ =>
    Allows.get.bind fun _ => (Allows.heap _).bind fun _ => (Allows.retain _).bind fun _ =>
      (Allows.updateHeap _).bind fun _ =>
        (Allows.handing (announce_allowed hc _ _ _)).bind fun _ => .pure _

include hc hb in
theorem newObjectInstruction_allowed : R.Allows (newObjectInstruction call base i) := by
  unfold newObjectInstruction
  split
  · exact .malformed _
  · exact (Allows.heap _).bind fun _ => setRegister_allowed _ _ _ hb
  · exact (Allows.heap _).bind fun _ => setRegister_allowed _ _ _ hb
  · exact (newClassValue_allowed base i hc).bind fun _ => setRegister_allowed _ _ _ hb

include hc in
theorem newMemberInstruction_allowed : R.Allows (newMemberInstruction call base i) := by
  refine (register_allowed base _).bind fun cls => ?_
  split
  · rename_i c
    refine (register_allowed base _).bind fun key => (register_allowed base _).bind fun v => ?_
    have hend : ∀ attributes : Value, R.Allows (holding [.classObject c, key] do
        retainAll [v, attributes]
        newClassMember call c key v attributes (i.arg0 &&& 1 != 0)) := fun _ =>
      .holding ((Allows.retainAll _).bind fun _ => newClassMember_allowed hc _ _ _ _ _)
    dsimp only
    split
    · exact (register_allowed base _).bind hend
    · exact hend .null
  · exact .fail _

theorem appendedValue_allowed : ∀ source, R.Allows (appendedValue base i source)
  | .register => (register_allowed base _).bind fun v => sharing_allowed v
  | .literal => literal_allowed _
  | .integer | .float | .bool => .pure _

theorem appendInstruction_allowed : R.Allows (appendInstruction base i) := by
  refine (register_allowed base _).bind fun target => ?_
  split
  · split
    · exact .malformed _
    · exact (appendedValue_allowed base i _).bind fun v => .updateHeap _
  · exact .fail _

/-! ## Iteration -/

theorem sharingVisit_allowed (visit : Option Visit) : R.Allows (sharingVisit visit) := by
  unfold sharingVisit
  split
  · exact .pure none
  · exact (Allows.retainAll _).bind fun _ => .pure _

include hc in
theorem instanceVisit_allowed (container state : Value) :
    R.Allows (instanceVisit call container state) := by
  refine (Allows.readHeap _).bind fun method => ?_
  split
  · exact .fail _
  · refine .holding ((Allows.retainAll _).bind fun _ => (hc _ _).bind fun key => ?_)
    split
    · exact .pure none
    · exact (Allows.handing (getMember_allowed hc _ _)).bind fun v =>
        (Allows.retain key).bind fun _ => .pure _

include hc in
theorem nextVisit_allowed (container state : Value) :
    R.Allows (nextVisit call container state) := by
  unfold nextVisit
  split
  · exact (Allows.readHeap _).bind fun _ => sharingVisit_allowed _
  · exact sharingVisit_allowed _
  · exact (Allows.readHeap _).bind fun _ => sharingVisit_allowed _
  · exact instanceVisit_allowed hc _ _
  · exact .fail _

include hc hb in
theorem foreachInstruction_allowed (hj : R.Jumps) : R.Allows (foreachInstruction call base i) := by
  refine (register_allowed base _).bind fun container => (register_allowed base _).bind
    fun state => .holding ((nextVisit_allowed hc _ _).bind fun visit => ?_)
  split
  · exact jump_allowed hj _
  · exact (Allows.handing ((Allows.handing (setRegister_allowed _ _ _ hb)).bind fun _ =>
      setRegister_allowed _ _ _ hb)).bind fun _ => setRegister_allowed _ _ _ hb

end


/-! ## Other instructions -/

section

variable {R : Regime} {call : Caller} {base : Nat} {i : Instruction}

theorem outerCell_allowed (index : Int64) : R.Allows (outerCell index) := by
  refine (indexArg_allowed index _).bind fun k => currentOuters_allowed.bind fun cells => ?_
  split
  · exact .pure _
  · exact .malformed _

theorem ownerBase_allowed : R.Allows ownerBase := by
  refine currentFrame_allowed.bind fun f => (Allows.readHeap _).bind fun parent => ?_
  split
  · exact sharing_allowed _
  · exact .pure Value.null

theorem comparing_allowed (hc : R.AllowsCalls call) (code a b : Int64)
    {use : Value → Exec Unit} (huse : ∀ v, R.Allows (use v)) :
    R.Allows (comparing call code base a b use) := by
  unfold comparing
  split
  · exact .malformed _
  · exact (register_allowed base a).bind fun x => (register_allowed base b).bind fun y =>
      .holding ((compareOp_allowed hc x y).bind fun o => huse _)

theorem moveRegister_allowed (hb : R.Owns base) (target source : Int64) :
    R.Allows (moveRegister base target source) :=
  (register_allowed base source).bind fun v => (sharing_allowed v).bind fun _ =>
    setRegister_allowed base target _ hb

theorem loadLiteral_allowed (hb : R.Owns base) (target index : Int64) :
    R.Allows (loadLiteral base target index) :=
  (literal_allowed index).bind fun v => setRegister_allowed base target v hb

theorem prepareCall_allowed (hc : R.AllowsCalls call) (hb : R.Owns base) (key obj : Value) :
    R.Allows (prepareCall call base i key obj) :=
  (getMember_allowed hc obj key).bind fun m => Allows.bind
    (.handing ((Allows.retain obj).bind fun _ => setRegister_allowed base i.arg3 obj hb))
    fun _ => setRegister_allowed base i.arg0 m hb

theorem arithInstruction_allowed (hc : R.AllowsCalls call) (hb : R.Owns base)
    (op : ArithOp) : R.Allows (arithInstruction call op base i) :=
  (register_allowed base i.arg1).bind fun a => (register_allowed base i.arg2).bind fun b =>
    .holding ((arithOp_allowed hc op a b).bind fun v => setRegister_allowed base i.arg0 v hb)

theorem bitwiseInstruction_allowed (hb : R.Owns base) : R.Allows (bitwiseInstruction base i) := by
  unfold bitwiseInstruction
  split
  · exact .malformed _
  · exact (register_allowed base i.arg1).bind fun _ => (register_allowed base i.arg2).bind
      fun _ => (Allows.ofExcept _).bind fun v => setRegister_allowed base i.arg0 v hb

theorem literalEquality_allowed (hb : R.Owns base) (wanted : Bool) :
    R.Allows (literalEquality base i wanted) :=
  (literal_allowed i.arg1).bind fun _ => .owning ((register_allowed base i.arg2).bind fun _ =>
    setRegister_allowed base i.arg0 _ hb)

theorem shortCircuit_allowed (hb : R.Owns base) (hj : R.Jumps) (onFalsy : Bool) :
    R.Allows (shortCircuit base i onFalsy) := by
  refine (register_allowed base i.arg2).bind fun v => ?_
  split
  · exact (Allows.retain v).bind fun _ => (setRegister_allowed base i.arg0 v hb).bind fun _ =>
      jump_allowed hj i.arg1
  · exact .pure ()

theorem window_allowed (start count : Nat) : R.Allows (window start count) := by
  refine Allows.get.bind fun m => ?_
  dsimp only
  split
  · exact .pure _
  · exact .malformed _

theorem window_found {m : Machine} (start count : Nat) : Reads anyTerms (window start count)
    (fun vs => start + count ≤ m.stack.size ∧ vs.length = count) m := by
  unfold window
  refine .bind (G := fun m1 => m1 = m) (.inl ⟨m, rfl, rfl⟩) ?_
  rintro _ rfl
  dsimp only
  split
  · rename_i hle
    refine .pure ⟨hle, ?_⟩
    rw [Array.length_toList, Array.size_extract]
    omega
  · exact .malformed id

theorem callForeign_allowed (hc : R.AllowsCalls call) (hb : R.Owns base) (callee : Value)
    (start count : Nat) (target : Option Nat) :
    R.Allows (callForeign call base i callee start count target) := by
  refine .holding ((window_allowed start count).bind fun args =>
    (Allows.retainAll args).bind fun _ => (hc callee args).bind fun result => ?_)
  cases target with
  | none => exact .release result
  | some _ => exact setRegister_allowed base i.arg0 result hb

theorem loadNullsInstruction_allowed (hb : R.Owns base) : R.Allows (loadNullsInstruction base i) := by
  intro m
  refine Leads.reading (t := anyTerms) (registerSlot_reads False.elim) ?_
  rintro start ⟨-, rfl⟩
  exact ((indexArg_allowed i.arg1 _).bind fun count => stackSize_allowed.bind fun n =>
    nullSlots_allowed _ _ fun j hj => hb j (by omega)) m

variable {m : Machine}

/-- An instruction stays within a regime if its stores through cells and the
functions that it enters do. -/
theorem effect_allowed (hc : R.AllowsCalls call) (hb : R.Owns base) (hj : R.Jumps)
    (hset : i.opcode = .setOuter → R.AllowsAt (setOuterInstruction base i) m)
    (hcall : i.opcode = .call → R.AllowsAt (callInstruction call base i) m)
    (htail : i.opcode = .tailCall → R.AllowsAt (tailCallInstruction call base i) m) :
    R.AllowsAt (effect call base i) m := by
  unfold effect
  have hput : ∀ v, R.Allows (setRegister base i.arg0 v) := fun v => setRegister_allowed _ _ v hb
  have hstore : ∀ (store : Caller → Value → Value → Value → Exec Unit),
      (∀ obj key v, R.Allows (store call obj key v)) → R.Allows (do
        let obj ← register base i.arg1
        let key ← register base i.arg2
        let v ← register base i.arg3
        holding [obj, key] do
          retain v
          handing v do
            retain v
            store call obj key v
          setOptional base i.arg0 v) := fun store hs =>
    (register_allowed base i.arg1).bind fun obj => (register_allowed base i.arg2).bind fun key =>
      (register_allowed base i.arg3).bind fun v => .holding ((Allows.retain v).bind fun _ =>
        Allows.bind (.handing ((Allows.retain v).bind fun _ => hs obj key v)) fun _ =>
          setOptional_allowed base i.arg0 v hb)
  cases hop : i.opcode with
  | load => exact loadLiteral_allowed hb _ _ m
  | loadInteger => exact hput _ m
  | loadFloat => exact hput _ m
  | loadBool => exact hput _ m
  | doubleLoad => exact (loadLiteral_allowed hb _ _).bind (fun _ => loadLiteral_allowed hb _ _) m
  | loadNulls => exact loadNullsInstruction_allowed hb m
  | loadRoot => exact Allows.get.bind (fun m => (sharing_allowed _).bind hput) m
  | move => exact moveRegister_allowed hb _ _ m
  | doubleMove => exact (moveRegister_allowed hb _ _).bind (fun _ => moveRegister_allowed hb _ _) m
  | getOuter =>
    exact (outerCell_allowed i.arg1).bind (fun c => Allows.bind
      (Allows.get.bind fun m => .pure _) fun v => (sharing_allowed v).bind hput) m
  | setOuter => exact hset hop
  | get =>
    exact (register_allowed base i.arg1).bind (fun key => (register_allowed base i.arg2).bind
      fun obj => .holding ((getMember_allowed hc obj key).bind hput)) m
  | getLiteral =>
    exact (literal_allowed i.arg1).bind (fun key => .owning ((register_allowed base i.arg2).bind
      fun obj => .holding ((getMember_allowed hc obj key).bind hput))) m
  | assign => exact hstore setMember (setMember_allowed hc) m
  | newSlot => exact hstore newSlot (newSlot_allowed hc) m
  | newMember => exact newMemberInstruction_allowed base i hc m
  | remove =>
    exact (register_allowed base i.arg1).bind (fun obj => (register_allowed base i.arg2).bind
      fun key => .holding ((deleteSlot_allowed hc obj key).bind fun v =>
        setOptional_allowed base i.arg0 v hb)) m
  | add => exact arithInstruction_allowed hc hb .add m
  | sub => exact arithInstruction_allowed hc hb .sub m
  | mul => exact arithInstruction_allowed hc hb .mul m
  | div => exact arithInstruction_allowed hc hb .div m
  | mod => exact arithInstruction_allowed hc hb .mod m
  | exp => exact arithInstruction_allowed hc hb .exp m
  | bitwise => exact bitwiseInstruction_allowed hb m
  | neg =>
    exact (register_allowed base i.arg1).bind (fun v => .holding
      ((negateOp_allowed hc v).bind hput)) m
  | not => exact (register_allowed base i.arg1).bind (fun v => hput _) m
  | bitNot =>
    exact (register_allowed base i.arg1).bind (fun v => (Allows.ofExcept _).bind hput) m
  | eq | neq =>
    exact (register_allowed base i.arg1).bind (fun _ => (register_allowed base i.arg2).bind
      fun _ => hput _) m
  | eqLiteral => exact literalEquality_allowed hb true m
  | neqLiteral => exact literalEquality_allowed hb false m
  | compare => exact comparing_allowed hc _ _ _ hput m
  | jumpUnless =>
    refine comparing_allowed hc _ _ _ (fun v => ?_) m
    split
    · exact jump_allowed hj i.arg1
    · exact .pure ()
  | jump => exact jump_allowed hj i.arg1 m
  | jumpIfFalsy =>
    refine (register_allowed base i.arg0).bind (fun v => ?_) m
    split
    · exact jump_allowed hj i.arg1
    · exact .pure ()
  | shortAnd => exact shortCircuit_allowed hb hj true m
  | shortOr => exact shortCircuit_allowed hb hj false m
  | prepareCall =>
    exact (register_allowed base i.arg1).bind (fun key => (register_allowed base i.arg2).bind
      fun obj => .holding (prepareCall_allowed hc hb key obj)) m
  | prepareCallLiteral =>
    exact (literal_allowed i.arg1).bind (fun key => .owning ((register_allowed base i.arg2).bind
      fun obj => .holding (prepareCall_allowed hc hb key obj))) m
  | call => exact hcall hop
  | tailCall => exact htail hop
  | ret => exact Allows.pure () m
  | close => exact (registerSlot_allowed base i.arg1).bind (fun slot => closeOuters_allowed slot) m
  | closure => exact closureInstruction_allowed base i hb m
  | newObject => exact newObjectInstruction_allowed base i hc hb m
  | append => exact appendInstruction_allowed base i m
  | typeOf =>
    exact (register_allowed base i.arg1).bind (fun v => .holding
      ((typeOf_allowed hc v).bind hput)) m
  | instanceOf =>
    exact (register_allowed base i.arg1).bind (fun cls => (register_allowed base i.arg2).bind
      fun obj => (instanceOf_allowed cls obj).bind fun b => hput _) m
  | has =>
    exact (register_allowed base i.arg1).bind (fun obj => (register_allowed base i.arg2).bind
      fun key => (Allows.readHeap _).bind fun b => hput _) m
  | base => exact ownerBase_allowed.bind hput m
  | deepCopy => exact (defaultCopy_allowed base i.arg1).bind hput m
  | foreach => exact foreachInstruction_allowed base i hc hb hj m

end

/-! ## Natives -/

section

variable {R : Regime} {call : Caller} (hc : R.AllowsCalls call) {m : Machine}

theorem checkDepth_allowed : R.Allows checkDepth := by
  refine Allows.get.bind fun m => ?_
  split
  · exact .fail _
  · exact .pure ()

include hc in
theorem answer_allowed (r : Request) : R.Allows (answer call r) := by
  unfold answer
  split
  · exact (Allows.retainAll _).bind fun _ => .noting (hc _ _)
  · exact (Allows.retainAll _).bind fun _ => .heap _
  · exact .heap _
  · exact (Allows.retain _).bind fun _ => (Allows.updateHeap _).bind fun _ => .pure Value.null
  · exact .heap _
  · exact (Allows.readHeap _).bind fun v => sharing_allowed v
  · exact (Allows.readHeap _).bind fun n => .pure _
  · exact .heap _
  · exact (Allows.readHeap _).bind fun s => .heap _
  · exact (Allows.readHeap _).bind fun b => .pure _
  · exact Allows.get.bind fun m => sharing_allowed _
  · exact (Allows.readHeap _).bind fun n => .pure _
  · exact (Allows.heap _).bind fun n => .pure _
  · exact (Allows.modifyGet fun _ => ⟨rfl, rfl⟩).bind fun _ => .pure Value.null
  · exact (Allows.modifyGet fun _ => ⟨rfl, rfl⟩).bind fun _ => .pure Value.null

include hc in
theorem perform_allowed (answers : List Value) (r : Routine) :
    R.Allows (perform call answers r) := by
  induction r generalizing answers with
  | finish v =>
    exact (Allows.retain v).bind fun _ => (Allows.releaseAll answers).bind fun _ => .pure v
  | fail e => exact (Allows.releaseAll answers).bind fun _ => .fail e
  | ask r next ih =>
    rw [perform]
    refine (Allows.attempt (answer_allowed hc r)).bind fun result => ?_
    cases result with
    | ok v => exact ih (.ok v) (v :: answers)
    | error e => exact ih (.error e) answers

theorem callNative_allowed {run : Routine → Exec Value} (hrun : ∀ r, R.Allows (run r)) (r : Ref)
    (args : List Value) : R.Allows (callNative run r args) := by
  refine (Allows.readHeap _).bind fun n => ?_
  cases n with
  | none => exact (Allows.releaseAll args).bind fun _ => .malformed _
  | some n =>
    exact (Allows.retainAll _).bind fun _ => .owning (checkDepth_allowed.bind fun _ => .tracing
      ((Allows.ofExcept _).bind fun accepted => .inNative (hrun _)))

/-! ## Calls of other values -/

theorem withReceiver_allowed (this : Value) (args : List Value) :
    R.Allows (withReceiver this args) := by
  refine (Allows.retain this).bind fun _ => ?_
  cases args with
  | nil => exact .pure _
  | cons old rest => exact (Allows.release old).bind fun _ => .pure _

include hc in
/-- Calls of all values but script functions. -/
theorem callWith_allowed {execute : Exec Value} {run : Routine → Exec Value}
    (hrun : ∀ r, R.Allows (run r)) {callee : Value} {args : List Value}
    (henter : ∀ c, callee = .closure c → R.AllowsAt (enter c args >>= fun _ => execute) m) :
    R.AllowsAt (callWith execute run call callee args) m := by
  unfold callWith
  cases callee with
  | closure c => exact henter c rfl
  | native n => exact callNative_allowed hrun n args m
  | classObject c =>
    refine (Allows.heap _).bind (fun r => (Allows.readHeap _).bind fun method => ?_) m
    cases method with
    | none => exact (Allows.releaseAll args).bind fun _ => .pure _
    | some f =>
      exact Allows.bind (.handing (.holding ((withReceiver_allowed _ args).bind fun args =>
        (hc f args).bind Allows.release))) fun _ => .pure _
  | instanceObject r =>
    refine (Allows.readHeap _).bind (fun method => ?_) m
    cases method with
    | none => exact (Allows.releaseAll args).bind fun _ => .fail _
    | some f => exact .holding ((withReceiver_allowed _ args).bind fun args => hc f args)
  | null | integer | float | complex | bool | string | space | weak | array | dict | outer
  | prototype => exact (Allows.releaseAll args).bind (fun _ => .fail _) m

end

end Exec

end ScriptMachine
