import ScriptMachine.Machine.Run
import ScriptMachine.Proofs.Machine.Callees
import ScriptMachine.Proofs.Machine.Calls
import ScriptMachine.Proofs.Machine.Effects

/-!
# Steps

What one instruction does to a machine that runs above an entry: it goes on, or
the entered function has returned, or it fails and all frames of the entry are
left.
-/

set_option autoImplicit false

namespace ScriptMachine

/-- The instruction at hand stores a value into a slot through the open cell of
the slot. -/
def Machine.Stores (m : Machine) (slot : Nat) (v : Value) : Prop :=
  m.interrupted = false ∧ ∃ f rest c i, m.frames = f :: rest ∧ m.heap.closure? f.closure = some c ∧
    f.prototype.code[f.ip]? = some i ∧ i.opcode = .setOuter ∧ Exec.StoresTo i c f.base m slot v

namespace Exec

variable {t : Terms} {s : Scope} {own : List Value} {m0 m : Machine} {call call' : Caller}

theorem checkInterrupt_eq (m : Machine) : checkInterrupt m =
    if m.interrupted then
      .error (.script ⟨.interrupted, "execution interrupted", []⟩) { m with interrupted := false }
    else .ok () m := by
  unfold checkInterrupt
  rw [bind_ok m (show (get : Exec Machine) m = .ok m m from rfl)]
  split <;> rfl

theorem returnedValue_keeps {c : ClosureObject} {base : Nat} {r : Int64} (hs : s.Runs c base)
    (hm : m.Within t s own) (hr : t.strict → c.prototype.HasOptional r) :
    Keeps t s own (returnedValue base r) (returnedValue base r) (fun (v : Value) => [v]) m := by
  unfold returnedValue
  split
  · rename_i hp
    exact .register hs hm (fun ht => hr ht hp) fun v hv => sharing_keeps hm hv
  · exact .pure (hm.own_plain rfl)

/-- An instruction of the current function, which is at the next one already. -/
theorem instruction_meets (hc : Faithful t call call') {f : Frame} {rest : List Frame}
    {c : ClosureObject} {place : Nat} {i : Instruction} (hm : Machine.Above t m0 own m)
    (hr : m.Roomy) (hf : m.frames = f :: rest) (hcl : m.heap.closure? f.closure = some c)
    (hp : f.prototype = c.prototype) (hip : f.ip = place + 1)
    (hi : t.strict → i.WellFormed c.prototype place)
    (hst : i.opcode = .setOuter → ∀ slot v, StoresTo i c f.base m slot v → t.stores slot v) :
    Meets t
      (if i.opcode = .ret then do returnFromFrame (← returnedValue f.base i.arg0)
        else do
          effect call f.base i
          return .next)
      (if i.opcode = .ret then do returnFromFrame (← returnedValue f.base i.arg0)
        else do
          effect call' f.base i
          return .next) (Proceeds t m0 own) (Broken t m0 own) m := by
  have hw : m.Within t ⟨m, .upFrom f.base, False⟩ own := .of_start hm.toTidy
  have hbreak : ∀ e m1, Fails t ⟨m, .upFrom f.base, False⟩ own e m1 → Broken t m0 own e m1 :=
    fun e m1 he => ⟨hm.of_within hf he.1, he.2⟩
  split
  · rename_i hret
    refine Meets.bind (Meets.mono (returnedValue_keeps (Machine.Above.runs hr hf hcl hp) hw
      fun ht => ?_) (fun v m1 hm1 => ?_) hbreak)
    · have := hi ht
      rwa [Instruction.WellFormed, hret] at this
    · exact returnFromFrame_meets (hm.of_within hf hm1)
  · rename_i hret
    refine Meets.bind ?_
    by_cases hcall : i.opcode = .call
    · rw [effect, effect, hcall]
      refine Meets.mono (callInstruction_meets hc hm hr hf hcl hp fun ht => ?_)
        (fun _ m1 hm1 => Meets.of_ok rfl hm1) fun _ _ he => he
      have := hi ht
      rwa [Instruction.WellFormed, hcall] at this
    by_cases htail : i.opcode = .tailCall
    · rw [effect, effect, htail]
      refine Meets.mono (tailCallInstruction_meets hc hm hr hf hcl hp fun ht => ?_)
        (fun _ m1 hm1 => Meets.of_ok rfl hm1) fun _ _ he => he
      have := hi ht
      rwa [Instruction.WellFormed, htail] at this
    -- all others stay in the function
    have heffect : Keeps t ⟨m, .upFrom f.base, True⟩ own (effect call f.base i)
        (effect call' f.base i) (fun _ => []) m := by
      refine effect_keeps hc (Machine.Above.runs hr hf hcl hp) trivial hw hi (fun g rest' hg => ?_) hst hcall
        htail
      obtain ⟨rfl, -⟩ := List.cons_eq_cons.1 (hf.symm.trans hg)
      exact hip
    refine Meets.mono heffect (fun _ m1 hm1 => Meets.of_ok rfl ?_) fun e m1 he => ?_
    · exact ⟨hm.of_within hf hm1, Machine.Above.roomy_of_within hr hf hm1⟩
    · exact ⟨hm.of_within hf he.1, he.2⟩

theorem step_meets (hc : Faithful t call call') (hm : Machine.Above t m0 own m) (hr : m.Roomy)
    (hst : ∀ slot v, m.Stores slot v → t.stores slot v) :
    Meets t (step call) (step call') (Proceeds t m0 own) (Broken t m0 own) m := by
  obtain ⟨f, seg, c, hf, hseat, hcl, hp⟩ := hm.current
  have hw : m.Within t ⟨m, .upFrom f.base, True⟩ own := .of_start hm.toTidy
  unfold step
  cases hint : m.interrupted with
  | true =>
    refine Meets.bind (Meets.of_error (e := ⟨.interrupted, "execution interrupted", []⟩)
      ((checkInterrupt_eq m).trans (if_pos hint)) ?_)
    exact ⟨hm.of_within hf (hw.told false m.output),
      fun _ => ScriptError.not_raw_of_kind ErrorKind.noConfusion⟩
  | false =>
    refine Meets.next ((checkInterrupt_eq m).trans (if_neg (by simp [hint]))) ?_
    refine Meets.next (currentFrame_eq hf) ?_
    cases hcode : f.prototype.code[f.ip]? with
    | none =>
      exact returnFromFrame_meets (hm.of_within hf (hw.own_plain (v := .null) rfl))
    | some i =>
      have hw1 : (m.withFrames ({ f with ip := f.ip + 1 } :: (seg ++ m0.frames))).Within t
          ⟨m, .upFrom f.base, True⟩ own :=
        ⟨hm.toTidy.reframe hf rfl rfl, .withFrames _, .inr ⟨trivial, f, _, _, hf, rfl⟩, rfl⟩
      refine Meets.next (setIp_eq _ hf) (instruction_meets (f := { f with ip := f.ip + 1 }) (c := c)
        hc (hm.of_within hf hw1) (Machine.Above.roomy_of_within hr hf hw1) rfl hcl hp rfl
        (fun ht => ?_) fun hset slot v hv => hst slot v ⟨hint, f, _, c, i, hf, hcl, hcode, hset, hv⟩)
      rw [hp] at hcode
      exact (hm.law_closure hcl ht).1.instruction hcode

/-! ## The loop -/

/-- Both go on above an entry until it is left, with the same outcome. -/
def Carries (t : Terms) (act act' : Exec Value) : Prop :=
  ∀ (m0 : Machine) (own : List Value) (m : Machine), Machine.Above t m0 own m → m.Roomy →
    Meets t act act' (fun v m' => m'.Within t (.still m0 .nothing) (v :: own))
      (Fails t (.still m0 .nothing) own) m

theorem executeWith_meets (hc : Faithful t call call') {again again' : Exec Value}
    (ha : Carries t again again') (hm : Machine.Above t m0 own m) (hr : m.Roomy)
    (hst : ∀ slot v, m.Stores slot v → t.stores slot v) :
    Meets t (executeWith call again) (executeWith call' again')
      (fun v m' => m'.Within t (.still m0 .nothing) (v :: own))
      (Fails t (.still m0 .nothing) own) m := by
  obtain ⟨heq, h⟩ := step_meets hc hm hr hst
  unfold Meets executeWith
  rw [heq]
  cases hstep : step call m with
  | ok flow m1 =>
    rw [hstep] at h
    cases flow with
    | next => exact ha m0 own m1 h.1 h.2
    | finished v => exact ⟨rfl, h⟩
  | error e m1 =>
    rw [hstep] at h
    cases e with
    | script e => exact unwinding_meets h.toAbove
    | outsideStack => exact ⟨rfl, h⟩
    | outOfSteps => exact ⟨rfl, trivial⟩

/-- A call of any value within a scope. -/
theorem callWith_faithful (hc : Faithful t call call') {exec exec' : Exec Value}
    (he : Carries t exec exec') {run run' : Routine → Exec Value} (hrun : Performs t run run') :
    Faithful t (callWith exec run call) (callWith exec' run' call') := by
  intro s callee args own m hm hcallee
  unfold callWith
  cases callee with
  | closure r =>
    dsimp only
    refine Meets.bind (Meets.mono (enter_meets hm.toTidy hcallee) (fun _ m1 hm1 => ?_) fun e m1 h => ?_)
    · exact Meets.mono (he m own m1 hm1.1 hm1.2) (fun v m2 hm2 => hm.of_still hm2)
        fun e m2 h => ⟨hm.of_still h.1, h.2⟩
    · exact ⟨hm.of_still h.1, h.2⟩
  | native r => exact callNative_keeps hrun hm hcallee
  | classObject r => exact construct_keeps hc hm hcallee
  | instanceObject r => exact callInstance_keeps hc hm hcallee
  | null | integer n | float x | complex z | bool b | string s | space s | weak w | array r | dict r
  | outer r | prototype r p => exact .releaseAll hm fun m1 hm1 => .fail hm1 ErrorKind.noConfusion

end Exec

end ScriptMachine
