import Mathlib.Tactic.Tauto
import ScriptMachine.Proofs.Fusion.Agreement

/-!
# Instructions that read no stale register

Each part of an instruction takes scenes that agree to scenes that agree, as long as
what it reads is not stale.
-/

set_option autoImplicit false

namespace ScriptMachine

variable {H : Type} (o : Operations H) {shared : Int64 → Prop} {R D : List Int64}

namespace Takes

theorem setOptional (r : Int64) (v : Value) :
    Takes shared R D (Alike shared R (without D (Instruction.optional r)))
      (o.actions.setOptional r v) (o.actions.setOptional r v) := by
  unfold Actions.setOptional Instruction.optional
  split
  · exact setRegister r v
  · exact (pure ()).congr fun r => by simp

theorem move (target : Int64) {source : Int64} (hs : source ∉ D) :
    Takes shared R D (Alike shared R (without D [target]))
      (o.actions.move target source) (o.actions.move target source) :=
  bind (register hs) fun v => bind (bind (pure ()) fun _ => pure v) fun v => setRegister target v

theorem load (target index : Int64) :
    Takes shared R D (Alike shared R (without D [target]))
      (o.actions.load target index) (o.actions.load target index) :=
  bind (pure _) fun v => setRegister target v

theorem readOuter (c : Ref) :
    Takes shared R D (Alike shared R D) (o.actions.readOuter c) (o.actions.readOuter c) := by
  intro σ τ h
  show Outcome _ R (.ok (σ.world.cells c) σ) (.ok (τ.world.cells c) τ)
  rw [h.world]
  exact .ok h

theorem setOuter {i : Instruction} (h2 : i.arg2 ∉ D) :
    Takes shared R D (Alike shared R (without D (Instruction.optional i.arg0)))
      (o.actions.setOuter i) (o.actions.setOuter i) :=
  bind (pure _) fun c => bind (register h2) fun v => bind (pure ()) fun _ =>
    bind (fun _ _ h => .ok (h.writeCell c v)) fun _ => setOptional o i.arg0 v

theorem store {put : Value → Value → Value → Play H Unit} {i : Instruction}
    (hput : ∀ obj key v, Takes shared R D (Alike shared R D) (put obj key v) (put obj key v))
    (h1 : i.arg1 ∉ D) (h2 : i.arg2 ∉ D) (h3 : i.arg3 ∉ D) :
    Takes shared R D (Alike shared R (without D (Instruction.optional i.arg0)))
      (o.actions.store put i) (o.actions.store put i) :=
  bind (register h1) fun obj => bind (register h2) fun key => bind (register h3) fun v =>
    bind (pure ()) fun _ => bind (bind (pure ()) fun _ => hput obj key v) fun _ =>
      setOptional o i.arg0 v

theorem addMember {i : Instruction} (h1 : i.arg1 ∉ D) (h2 : i.arg2 ∉ D) (h3 : i.arg3 ∉ D)
    (ha : (i.arg0 &&& 2 != 0) = true → i.arg2 - 1 ∉ D) :
    Takes shared R D (Alike shared R D) (o.actions.addMember i) (o.actions.addMember i) := by
  refine bind (register h1) fun cls => ?_
  split
  · refine bind (register h2) fun key => bind (register h3) fun v => ?_
    dsimp only
    split
    · exact bind (register (ha (by assumption))) fun _ => bind (pure ()) fun _ => onWorld _
    · exact bind (pure _) fun _ => bind (pure ()) fun _ => onWorld _
  · exact throw _

theorem arithmetic (op : ArithOp) {i : Instruction} (h1 : i.arg1 ∉ D) (h2 : i.arg2 ∉ D) :
    Takes shared R D (Alike shared R (without D [i.arg0]))
      (o.actions.arithmetic op i) (o.actions.arithmetic op i) :=
  bind (register h1) fun _ => bind (register h2) fun _ =>
    bind (onWorld _) fun v => setRegister i.arg0 v

theorem ofExcept (x : Except ScriptError Value) :
    Takes shared R D (Alike shared R D) (o.actions.ofExcept x) (o.actions.ofExcept x) := by
  cases x with
  | ok v => exact pure v
  | error e => exact throw e

theorem bitwise {i : Instruction} (h1 : i.arg1 ∉ D) (h2 : i.arg2 ∉ D) :
    Takes shared R D (Alike shared R (without D [i.arg0]))
      (o.actions.bitwise i) (o.actions.bitwise i) := by
  unfold Actions.bitwise
  split
  · exact throw _
  · exact bind (register h1) fun _ => bind (register h2) fun _ =>
      bind (ofExcept o _) fun v => setRegister i.arg0 v

theorem literalEquality {i : Instruction} (h2 : i.arg2 ∉ D) (wanted : Bool) :
    Takes shared R D (Alike shared R (without D [i.arg0]))
      (o.actions.literalEquality i wanted) (o.actions.literalEquality i wanted) :=
  bind (pure _) fun _ => bind (register h2) fun _ => setRegister i.arg0 _

theorem comparing {P : Scene H → Scene H → Prop} (code : Int64) {x y : Int64} (hx : x ∉ D)
    (hy : y ∉ D) {use use' : Value → Play H Unit} (h : ∀ v, Takes shared R D P (use v) (use' v)) :
    Takes shared R D P (o.actions.comparing code x y use) (o.actions.comparing code x y use') := by
  unfold Actions.comparing
  split
  · exact throw _
  · exact bind (register hx) fun _ => bind (register hy) fun _ => bind (onWorld _) fun _ => h _

theorem jumpIf (b : Bool) (offset : Int64) :
    Takes shared R D (Goes shared R D) (if b then o.actions.jump offset else Pure.pure ())
      (if b then o.actions.jump offset else Pure.pure ()) := by
  split
  · exact jump offset
  · exact (pure ()).goes

theorem shortCircuit {i : Instruction} (h2 : i.arg2 ∉ D) (onFalsy : Bool) :
    Takes shared R D (Goes shared R D) (o.actions.shortCircuit i onFalsy)
      (o.actions.shortCircuit i onFalsy) := by
  refine bind (register h2) fun v => ?_
  split
  · exact bind (pure ()) fun _ => bind (setRegister i.arg0 v) fun _ => jump i.arg1
  · exact (pure ()).goes

theorem prepareCall {i : Instruction} (key obj : Value) :
    Takes shared R D (Alike shared R (without D [i.arg0, i.arg3]))
      (o.actions.prepareCall i key obj) (o.actions.prepareCall i key obj) := by
  refine bind (onWorld _) fun m => bind (bind (pure ()) fun _ => setRegister i.arg3 obj) fun _ =>
    (setRegister i.arg0 m).congr fun r => ?_
  simp only [mem_without_iff, List.mem_cons, List.not_mem_nil]
  tauto

theorem append {i : Instruction} (h0 : i.arg0 ∉ D)
    (h1 : AppendSource.ofCode? i.arg2 = some .register → i.arg1 ∉ D) :
    Takes shared R D (Alike shared R D) (o.actions.append i) (o.actions.append i) := by
  refine bind (register h0) fun array => ?_
  split
  · split
    · exact throw _
    · rename_i source hsource
      have happended : Takes shared R D (Alike shared R D) (o.actions.appended i source)
          (o.actions.appended i source) := by
        cases source with
        | register => exact bind (register (h1 hsource)) fun v => bind (pure ()) fun _ => pure v
        | literal | integer | float | bool => exact pure _
      exact bind happended fun v => onWorld _
  · exact throw _

theorem foreach {i : Instruction} (h0 : i.arg0 ∉ D) (h2 : i.arg2 + 2 ∉ D) :
    Takes shared R D (Goes shared R (without D [i.arg2, i.arg2 + 1, i.arg2 + 2]))
      (o.actions.foreach i) (o.actions.foreach i) := by
  refine bind (register h0) fun container => bind (register h2) fun state =>
    bind (onWorld _) fun visit => ?_
  split
  · exact jump i.arg1
  · rename_i s
    refine Takes.goes (bind (bind (setRegister i.arg2 s.key) fun _ =>
      setRegister (i.arg2 + 1) s.value) fun _ => (setRegister (i.arg2 + 2) s.state).congr fun r => ?_)
    simp only [mem_without_iff, List.mem_cons, List.not_mem_nil]
    tauto

theorem newObject {i : Instruction}
    (h : ObjectKind.ofCode? i.arg3 = some .classObject →
      ∀ r ∈ Instruction.optional i.arg1 ++ Instruction.optional i.arg2, r ∉ D) :
    Takes shared R D (Alike shared R (without D [i.arg0])) (o.makeObject i) (o.makeObject i) := by
  unfold Operations.makeObject
  by_cases hk : ObjectKind.ofCode? i.arg3 = some .classObject
  · simp only [hk, if_true]
    exact bind (optionalRegister fun r hr => h hk r (List.mem_append_left _ hr)) fun _ =>
      bind (optionalRegister fun r hr => h hk r (List.mem_append_right _ hr)) fun _ =>
        bind (onWorld _) fun v => setRegister i.arg0 v
  · simp only [hk, if_false]
    exact bind (pure _) fun _ => bind (pure _) fun _ => bind (onWorld _) fun v =>
      setRegister i.arg0 v

theorem capture {c : Capture} (h : c.kind = .register → shared (Int64.ofNat c.index)) :
    Takes shared R D (Alike shared R D) (o.capture c) (o.capture c) := by
  unfold Operations.capture
  cases hk : c.kind with
  | register =>
    intro σ τ hστ
    obtain ⟨hcell, hnext⟩ := hστ.capture (h hk)
    show Outcome _ R (.ok (σ.capture _).1 (σ.capture _).2) (.ok (τ.capture _).1 (τ.capture _).2)
    rw [hcell]
    exact .ok hnext
  | outer => exact pure _

theorem captureAll {cs : List Capture}
    (h : ∀ c ∈ cs, c.kind = .register → shared (Int64.ofNat c.index)) :
    Takes shared R D (Alike shared R D) (o.captureAll cs) (o.captureAll cs) := by
  induction cs with
  | nil => exact pure _
  | cons c cs ih =>
    exact bind (capture o (h c List.mem_cons_self)) fun _ =>
      bind (ih fun c' hc' => h c' (List.mem_cons_of_mem _ hc')) fun _ => pure _

theorem makeClosure {i : Instruction}
    (hc : ∀ r ∈ Instruction.capturedRegisters (o.nested i.arg1), shared r)
    (hd : ∀ r ∈ (o.nested i.arg1).defaults, r ∉ D) :
    Takes shared R D (Alike shared R (without D [i.arg0])) (o.makeClosure i) (o.makeClosure i) := by
  refine bind (captureAll o fun c hmem hk => hc _ ?_) fun _ => bind (readAll hd) fun _ =>
    bind (onWorld _) fun v => setRegister i.arg0 v
  exact List.mem_filterMap.2 ⟨c, hmem, by simp [hk]⟩

theorem callResult {i : Instruction} (h : ∀ r ∈ registerRun i.arg2 i.arg3, r ∉ D) (callee : Value) :
    Takes shared R D (Alike shared R D) (o.callResult i callee) (o.callResult i callee) :=
  bind (readAll h) fun _ => onWorld _

theorem callNow {i : Instruction} (h1 : i.arg1 ∉ D) (h : ∀ r ∈ registerRun i.arg2 i.arg3, r ∉ D) :
    Takes shared R D (Alike shared R (without D (Instruction.optional i.arg0)))
      (o.callNow i) (o.callNow i) :=
  bind (register h1) fun callee => bind (callResult o h callee) fun v => setOptional o i.arg0 v

theorem callLast {i : Instruction} (h1 : i.arg1 ∉ D) (h : ∀ r ∈ registerRun i.arg2 i.arg3, r ∉ D) :
    Takes shared R D (Goes shared R (without D (Instruction.optional i.arg0)))
      (o.callLast i) (o.callLast i) := by
  refine bind (register h1) fun callee => ?_
  split
  · exact bind (callResult o h _) fun v => leave v
  · exact (bind (callResult o h _) fun v => setOptional o i.arg0 v).goes

/-- An instruction that reads nothing stale and captures nothing but shared registers. -/
theorem play {i : Instruction} (hr : ∀ r ∈ i.reads o.nested, r ∉ D)
    (hc : ∀ r ∈ i.captures o.nested, shared r) :
    Takes shared R D (Goes shared R (without D i.writes)) (o.play i) (o.play i) := by
  obtain ⟨op, a0, a1, a2, a3⟩ := i
  cases op with
  | load => exact (load o a0 a1).goes
  | loadInteger | loadFloat | loadBool => exact (setRegister a0 _).goes
  | doubleLoad =>
    refine (bind (load o a0 a1) fun _ => (load o a2 a3).congr fun r => ?_).goes
    simp [Instruction.writes, and_assoc]
  | loadNulls => exact Takes.goes fun _ _ h => .ok (h.clear _)
  | loadRoot =>
    exact (bind (pure _) fun _ => bind (bind (pure ()) fun _ => pure _) fun v =>
      setRegister a0 v).goes
  | move => exact (move o a0 (hr a1 (by simp [Instruction.reads]))).goes
  | doubleMove =>
    refine (bind (move o a0 (hr a1 (by simp [Instruction.reads]))) fun _ =>
      (move o a2 fun hmem => ?_).congr fun r => ?_).goes
    · obtain ⟨h3, hne⟩ := mem_without_iff.1 hmem
      have h30 : a3 ≠ a0 := fun heq => hne (by simp [heq])
      exact hr a3 (by simp [Instruction.reads, h30]) h3
    · simp [Instruction.writes, and_assoc]
  | getOuter =>
    exact (bind (pure _) fun c => bind (readOuter o c) fun _ =>
      bind (bind (pure ()) fun _ => pure _) fun v => setRegister a0 v).goes
  | setOuter => exact (setOuter o (hr a2 (by simp [Instruction.reads]))).goes
  | get =>
    exact (bind (register (hr a1 (by simp [Instruction.reads]))) fun _ =>
      bind (register (hr a2 (by simp [Instruction.reads]))) fun _ =>
        bind (onWorld _) fun v => setRegister a0 v).goes
  | getLiteral =>
    exact (bind (pure _) fun _ => bind (register (hr a2 (by simp [Instruction.reads]))) fun _ =>
      bind (onWorld _) fun v => setRegister a0 v).goes
  | assign | newSlot =>
    exact (store o (fun obj key v => onWorld _) (hr a1 (by simp [Instruction.reads]))
      (hr a2 (by simp [Instruction.reads])) (hr a3 (by simp [Instruction.reads]))).goes
  | newMember =>
    refine ((addMember o (hr a1 (by simp [Instruction.reads])) (hr a2 (by simp [Instruction.reads]))
      (hr a3 (by simp [Instruction.reads])) fun hflag => hr (a2 - 1) ?_).congr fun r => ?_).goes
    · simp only [Instruction.reads, hflag, if_true]
      simp
    · simp [Instruction.writes]
  | remove =>
    exact (bind (register (hr a1 (by simp [Instruction.reads]))) fun _ =>
      bind (register (hr a2 (by simp [Instruction.reads]))) fun _ =>
        bind (onWorld _) fun v => setOptional o a0 v).goes
  | add | sub | mul | div | mod | exp =>
    exact (arithmetic o _ (hr a1 (by simp [Instruction.reads]))
      (hr a2 (by simp [Instruction.reads]))).goes
  | bitwise =>
    exact (bitwise o (hr a1 (by simp [Instruction.reads])) (hr a2 (by simp [Instruction.reads]))).goes
  | neg | typeOf =>
    exact (bind (register (hr a1 (by simp [Instruction.reads]))) fun _ =>
      bind (onWorld _) fun v => setRegister a0 v).goes
  | not =>
    exact (bind (register (hr a1 (by simp [Instruction.reads]))) fun _ => setRegister a0 _).goes
  | bitNot =>
    exact (bind (register (hr a1 (by simp [Instruction.reads]))) fun _ =>
      bind (ofExcept o _) fun v => setRegister a0 v).goes
  | deepCopy =>
    exact (bind (bind (register (hr a1 (by simp [Instruction.reads]))) fun _ => onWorld _) fun v =>
      setRegister a0 v).goes
  | eq | neq =>
    exact (bind (register (hr a1 (by simp [Instruction.reads]))) fun _ =>
      bind (register (hr a2 (by simp [Instruction.reads]))) fun _ => setRegister a0 _).goes
  | eqLiteral | neqLiteral =>
    exact (literalEquality o (hr a2 (by simp [Instruction.reads])) _).goes
  | compare =>
    exact (comparing o a3 (hr a1 (by simp [Instruction.reads])) (hr a2 (by simp [Instruction.reads]))
      fun v => setRegister a0 v).goes
  | jumpUnless =>
    refine comparing o a0 (hr a2 (by simp [Instruction.reads])) (hr a3 (by simp [Instruction.reads]))
      fun v => (jumpIf o _ a1).mono fun σ τ => Goes.congr fun r => ?_
    simp [Instruction.writes]
  | jump => exact jump a1
  | jumpIfFalsy =>
    refine bind (register (hr a0 (by simp [Instruction.reads]))) fun v =>
      (jumpIf o _ a1).mono fun σ τ => Goes.congr fun r => ?_
    simp [Instruction.writes]
  | shortAnd | shortOr =>
    refine (shortCircuit o (hr a2 (by simp [Instruction.reads])) _).mono fun σ τ =>
      Goes.congr fun r => ?_
    simp [Instruction.writes]
  | prepareCall =>
    exact (bind (register (hr a1 (by simp [Instruction.reads]))) fun key =>
      bind (register (hr a2 (by simp [Instruction.reads]))) fun obj => prepareCall o key obj).goes
  | prepareCallLiteral =>
    exact (bind (pure _) fun key =>
      bind (register (hr a2 (by simp [Instruction.reads]))) fun obj => prepareCall o key obj).goes
  | call =>
    exact (callNow o (hr a1 (by simp [Instruction.reads])) fun r hmem =>
      hr r (by simp [Instruction.reads, hmem])).goes
  | tailCall =>
    exact callLast o (hr a1 (by simp [Instruction.reads])) fun r hmem =>
      hr r (by simp [Instruction.reads, hmem])
  | ret => exact bind (optionalRegister hr) fun v => leave v
  | close =>
    refine Takes.goes fun σ τ h => .ok ((h.close a1).congr fun r => ?_)
    simp [Instruction.writes]
  | closure =>
    refine (makeClosure o (fun r hmem => hc r ?_) fun r hmem => hr r ?_).goes
    · simpa [Instruction.captures] using hmem
    · simp [Instruction.reads, hmem]
  | newObject =>
    refine (newObject o fun hk r hmem => hr r ?_).goes
    simpa [Instruction.reads, hk] using hmem
  | append =>
    refine ((append o (hr a0 (by simp [Instruction.reads])) fun hs => hr a1 ?_).congr fun r => ?_).goes
    · simp [Instruction.reads, hs]
    · simp [Instruction.writes]
  | instanceOf | has =>
    exact (bind (register (hr a1 (by simp [Instruction.reads]))) fun _ =>
      bind (register (hr a2 (by simp [Instruction.reads]))) fun _ =>
        bind (onWorld _) fun _ => setRegister a0 _).goes
  | base => exact (bind (onWorld _) fun v => setRegister a0 v).goes
  | foreach =>
    exact foreach o (hr a0 (by simp [Instruction.reads])) (hr (a2 + 2) (by simp [Instruction.reads]))

end Takes

end ScriptMachine
