import Mathlib.Data.List.Induction
import Mathlib.Data.List.Nodup
import ScriptMachine.Proofs.Builder.Parts

/-!
# Labels and loops

Jumps name instructions by their index, so an index must go on meaning the same
instruction while the function is built. Only the last instruction ever combines
with a later one, and it does not when a label follows it or when it is a jump
itself. The jumps that leave a loop wait for its end and are directed there.
-/

set_option autoImplicit false

namespace ScriptMachine

/-! ## When instructions do not combine -/

/-- Behind a label an instruction is taken as it is. -/
theorem fuse_suppressed (previous : Option Instruction) (next : Instruction) (ctx : FusionContext) :
    fuse previous next .suppressed ctx = .append next := by
  cases previous <;> rfl

/-- A jump does not combine with what follows it. -/
theorem fuse_jump {previous : Instruction} (hp : previous.opcode = .jump) (next : Instruction)
    (state : EmitterState) (ctx : FusionContext) :
    ∃ next', fuse (some previous) next state ctx = .append next' := by
  cases state with
  | suppressed => exact ⟨next, rfl⟩
  | armed =>
    have hfeeds : ∀ source, Fusion.feeds ctx previous source = false := by
      intro source
      simp [Fusion.feeds, hp]
    show ∃ next', Fusion.ofPair ctx previous next = .append next'
    unfold Fusion.ofPair
    split
    all_goals first
      | exact ⟨_, rfl⟩
      | simp [hp, hfeeds, Fusion.ofReturn, Fusion.ofAppend, Fusion.ofMove, Opcode.isRetargetable,
          AppendSource.ofLoad?]

namespace Draft

/-! ## Settled instructions -/

def opcodeAt (d : Draft) (i : Nat) : Option Opcode := (d.code[i]?).map (·.opcode)

/-- The jumps that wait for the end of an open loop. -/
def waiting (d : Draft) : List Nat :=
  d.loops.flatMap fun (l : LoopTargets) => l.breaks ++ l.continues

/-- The caller changes arguments of the instruction at an index. -/
def Op.Overwrites : Op → Nat → Prop
  | .setArgs pos _ _ _ _, i => pos = i
  | .setArg pos _ _, i => pos = i
  | .patchJump pos _, i => pos = i
  | _, _ => False

/-- Nothing will be merged into the instruction at an index. -/
structure Settled (d : Draft) (i : Nat) : Prop where
  lt : i < d.code.size
  last : i + 1 = d.code.size → d.state = .suppressed ∨ d.opcodeAt i = some .jump

/-- An instruction has kept its index and, unless it was changed on purpose, its
arguments. -/
structure Stays (d d' : Draft) (touched : Prop) (i : Nat) : Prop where
  settled : d'.Settled i
  opcode : d'.opcodeAt i = d.opcodeAt i
  arguments : ¬ touched → i ∉ d.waiting → d'.code[i]? = d.code[i]? ∧ i ∉ d'.waiting

variable {nested : Bool} {d d' d'' : Draft} {i : Nat}

theorem Settled.of_before (h : i + 1 < d.code.size) : d.Settled i :=
  ⟨by omega, fun hlast => by omega⟩

theorem opcodeAt_eq_some {op : Opcode} :
    d.opcodeAt i = some op ↔ ∃ j, d.code[i]? = some j ∧ j.opcode = op := Option.map_eq_some_iff

theorem opcodeAt_eq_none : d.opcodeAt i = none ↔ d.code.size ≤ i := by
  rw [opcodeAt, Option.map_eq_none_iff, Array.getElem?_eq_none_iff]

theorem back?_eq (hlast : i + 1 = d.code.size) : d.code.back? = d.code[i]? := by
  rw [Array.back?_eq_getElem?, ← hlast, Nat.add_sub_cancel]

/-- Behind a settled instruction that is the last, the next one is appended. -/
theorem Settled.appends (h : d.Settled i) (hlast : i + 1 = d.code.size) (next : Instruction)
    (ctx : FusionContext) : ∃ next', fuse d.code.back? next d.state ctx = .append next' := by
  rcases h.last hlast with hs | hj
  · exact ⟨next, by rw [hs, fuse_suppressed]⟩
  · obtain ⟨j, hj, hop⟩ := opcodeAt_eq_some.1 hj
    rw [back?_eq hlast, hj]
    exact fuse_jump hop next d.state ctx

theorem Settled.emit (h : d.Settled i) (nested : Bool) (next : Instruction) :
    (d.emit nested next).Settled i ∧ (d.emit nested next).code[i]? = d.code[i]? := by
  have hlt := h.lt
  have hpush : ∀ d' : Draft, ∀ x, d'.code = d.code.push x →
      d'.Settled i ∧ d'.code[i]? = d.code[i]? := by
    intro d' x hcode
    refine ⟨.of_before ?_, ?_⟩
    · rw [hcode, Array.size_push]
      omega
    · rw [hcode, Array.getElem?_push, if_neg (by omega)]
  unfold Draft.emit
  split
  case isFalse => exact hpush _ next rfl
  unfold emitFused
  by_cases hlast : i + 1 = d.code.size
  · obtain ⟨next', hfuse⟩ := h.appends hlast next (d.fusionContext nested)
    rw [hfuse]
    exact hpush _ next' rfl
  · -- what changes lies behind the instruction
    cases fuse d.code.back? next d.state (d.fusionContext nested) with
    | append next' => exact hpush _ next' rfl
    | replace previous state =>
      refine ⟨.of_before ?_, ?_⟩
      · show i + 1 < (d.code.setIfInBounds (d.code.size - 1) previous).size
        rw [Array.size_setIfInBounds]
        omega
      · show (d.code.setIfInBounds (d.code.size - 1) previous)[i]? = d.code[i]?
        rw [Array.getElem?_setIfInBounds, if_neg (by omega)]
    | adjust previous next' =>
      refine ⟨.of_before ?_, ?_⟩
      · show i + 1 < ((d.code.setIfInBounds (d.code.size - 1) previous).push next').size
        rw [Array.size_push, Array.size_setIfInBounds]
        omega
      · show ((d.code.setIfInBounds (d.code.size - 1) previous).push next')[i]? = d.code[i]?
        rw [Array.getElem?_push, Array.size_setIfInBounds, if_neg (by omega),
          Array.getElem?_setIfInBounds, if_neg (by omega)]

/-- An instruction is appended, or it is merged into the last one. -/
theorem size_emit (nested : Bool) (next : Instruction) :
    (d.emit nested next).code.size = d.code.size + 1 ∨
      (d.emit nested next).code.size = d.code.size ∧ d.state = .armed ∧ d.code.size ≠ 0 := by
  unfold Draft.emit
  split
  case isFalse => exact .inl (Array.size_push _)
  unfold emitFused
  cases hstate : d.state with
  | suppressed =>
    rw [fuse_suppressed]
    exact .inl (Array.size_push _)
  | armed =>
    by_cases hempty : d.code.size = 0
    · have hback : d.code.back? = none := by
        rw [Array.back?_eq_getElem?, Array.getElem?_eq_none_iff]
        omega
      rw [hback]
      exact .inl (Array.size_push _)
    · cases fuse d.code.back? next .armed (d.fusionContext nested) with
      | append next' => exact .inl (Array.size_push _)
      | replace previous state => exact .inr ⟨Array.size_setIfInBounds, rfl, hempty⟩
      | adjust previous next' =>
        refine .inl ?_
        show ((d.code.setIfInBounds (d.code.size - 1) previous).push next').size = _
        rw [Array.size_push, Array.size_setIfInBounds]

theorem emit_suppressed (hs : d.state = .suppressed) (nested : Bool) (next : Instruction) :
    (d.emit nested next).code = d.code.push next := by
  unfold Draft.emit
  split
  · rw [emitFused, hs, fuse_suppressed]
    rfl
  · rfl

theorem loops_emit (nested : Bool) (next : Instruction) :
    (d.emit nested next).loops = d.loops := by
  unfold Draft.emit
  split
  · unfold emitFused
    cases fuse d.code.back? next d.state (d.fusionContext nested) <;> rfl
  · rfl

/-! ## Changing arguments -/

theorem opcode_setArg (j : Instruction) (arg : Nat) (v : Int64) :
    (j.setArg arg v).opcode = j.opcode := by
  unfold Instruction.setArg
  split <;> rfl

/-- The stream is as long as before, and only arguments differ. -/
structure Reworded (d d' : Draft) : Prop where
  size : d'.code.size = d.code.size
  opcode : ∀ k, d'.opcodeAt k = d.opcodeAt k
  state : d'.state = d.state ∨ d'.state = .suppressed

namespace Reworded

theorem of_code (hcode : d'.code = d.code) (hstate : d'.state = d.state ∨ d'.state = .suppressed) :
    Reworded d d' :=
  ⟨congrArg Array.size hcode, fun k => by rw [opcodeAt, opcodeAt, hcode], hstate⟩

theorem trans (h : Reworded d d') (h' : Reworded d' d'') : Reworded d d'' where
  size := h'.size.trans h.size
  opcode k := (h'.opcode k).trans (h.opcode k)
  state := by
    rcases h'.state with heq | heq
    · rw [heq]
      exact h.state
    · exact .inr heq

theorem modify {f : Instruction → Instruction} (hf : ∀ j, (f j).opcode = j.opcode) (d : Draft)
    (pos : Nat) : Reworded d (d.modifyInstruction pos f) where
  size := Array.size_modify
  opcode k := by
    show ((d.code.modify pos f)[k]?).map (·.opcode) = (d.code[k]?).map (·.opcode)
    rw [Array.getElem?_modify]
    split
    · rw [Option.map_map]
      exact congrArg (Option.map · _) (funext hf)
    · rfl
  state := .inl rfl

theorem patchJump (d : Draft) (pos target : Nat) : Reworded d (d.patchJump pos target) := by
  have h : Reworded d (d.setArg pos 1 (jumpOffset pos target)) :=
    modify (fun j => opcode_setArg j 1 _) d pos
  unfold Draft.patchJump
  dsimp only
  split
  · exact h.trans (.of_code rfl (.inr rfl))
  · exact h

theorem settled (h : Reworded d d') (hi : d.Settled i) : d'.Settled i := by
  refine ⟨by rw [h.size]; exact hi.lt, fun hlast => ?_⟩
  rw [h.opcode]
  rcases hi.last (by rw [← h.size]; exact hlast) with hs | hj
  · rcases h.state with heq | heq
    · exact .inl (heq.trans hs)
    · exact .inl heq
  · exact .inr hj

end Reworded

theorem code_patchJump (d : Draft) (pos target : Nat) (k : Nat) :
    (d.patchJump pos target).code[k]? =
      if pos = k then (d.code[k]?).map (·.setArg 1 (jumpOffset k target)) else d.code[k]? := by
  have hcode : (d.patchJump pos target).code =
      d.code.modify pos (·.setArg 1 (jumpOffset pos target)) := by
    unfold Draft.patchJump
    dsimp only
    split <;> rfl
  rw [hcode, Array.getElem?_modify]
  split
  · rename_i heq
    rw [heq]
  · rfl

theorem loops_patchJump (d : Draft) (pos target : Nat) :
    (d.patchJump pos target).loops = d.loops := by
  unfold Draft.patchJump
  dsimp only
  split <;> rfl

/-- Directs several jumps to one target. -/
def patchAll (d : Draft) (ps : List Nat) (target : Nat) : Draft :=
  ps.foldl (fun (d : Draft) (pos : Nat) => d.patchJump pos target) d

theorem reworded_patchAll (d : Draft) (ps : List Nat) (target : Nat) :
    Reworded d (d.patchAll ps target) := by
  induction ps generalizing d with
  | nil => exact .of_code rfl (.inl rfl)
  | cons pos ps ih => exact (Reworded.patchJump d pos target).trans (ih _)

theorem loops_patchAll (d : Draft) (ps : List Nat) (target : Nat) :
    (d.patchAll ps target).loops = d.loops := by
  induction ps generalizing d with
  | nil => rfl
  | cons pos ps ih => exact (ih _).trans (loops_patchJump d pos target)

theorem code_patchAll (d : Draft) (ps : List Nat) (target k : Nat) :
    (d.patchAll ps target).code[k]? =
      if k ∈ ps then (d.code[k]?).map (·.setArg 1 (jumpOffset k target)) else d.code[k]? := by
  induction ps generalizing d with
  | nil => rw [if_neg List.not_mem_nil]; rfl
  | cons pos ps ih =>
    show ((d.patchJump pos target).patchAll ps target).code[k]? = _
    rw [ih, code_patchJump]
    by_cases hpos : pos = k
    · subst hpos
      rw [if_pos rfl, if_pos List.mem_cons_self, Option.map_map]
      -- patching twice is patching once
      split <;> rfl
    · rw [if_neg hpos]
      simp only [List.mem_cons, Ne.symm hpos, false_or]

/-- A jump that is directed to the end of the stream puts a label there. -/
theorem state_patchAll (d : Draft) {ps : List Nat} (hps : ps ≠ []) :
    (d.patchAll ps d.code.size).state = .suppressed := by
  obtain ⟨pos, ps, rfl⟩ := List.exists_cons_of_ne_nil hps
  show ((d.patchJump pos d.code.size).patchAll ps d.code.size).state = .suppressed
  have hfirst : (d.patchJump pos d.code.size).state = .suppressed := by
    have hsize : d.code.size = (d.setArg pos 1 (jumpOffset pos d.code.size)).code.size :=
      Array.size_modify.symm
    unfold patchJump
    dsimp only
    rw [if_pos hsize]
    rfl
  rcases (reworded_patchAll (d.patchJump pos d.code.size) ps d.code.size).state with heq | heq
  · exact heq.trans hfirst
  · exact heq

theorem endLoop_eq {l : LoopTargets} {rest : List LoopTargets} (hloops : d.loops = l :: rest)
    (continueTo : Nat) : (d.endLoop continueTo).2 =
      (({ d with loops := rest }.patchAll l.breaks d.code.size).patchAll l.continues continueTo) := by
  unfold endLoop
  rw [hloops]
  rfl

theorem endLoop_outside (hloops : d.loops = []) (continueTo : Nat) :
    (d.endLoop continueTo).2 = d := by
  unfold endLoop
  rw [hloops]

theorem reworded_endLoop (d : Draft) (continueTo : Nat) : Reworded d (d.endLoop continueTo).2 := by
  cases hloops : d.loops with
  | nil =>
    rw [endLoop_outside hloops]
    exact .of_code rfl (.inl rfl)
  | cons l rest =>
    rw [endLoop_eq hloops]
    have hpop : Reworded d { d with loops := rest } := .of_code rfl (.inl rfl)
    exact hpop.trans ((reworded_patchAll _ _ _).trans (reworded_patchAll _ _ _))

theorem loops_endLoop (d : Draft) (continueTo : Nat) :
    (d.endLoop continueTo).2.loops = d.loops.tail := by
  cases hloops : d.loops with
  | nil => rw [endLoop_outside hloops, hloops, List.tail_nil]
  | cons l rest => rw [endLoop_eq hloops, loops_patchAll, loops_patchAll, List.tail_cons]

/-- The end of a loop changes nothing but the jumps that wait for it. -/
theorem code_endLoop {l : LoopTargets} {rest : List LoopTargets} (hloops : d.loops = l :: rest)
    (continueTo k : Nat) : (d.endLoop continueTo).2.code[k]? =
      if k ∈ l.continues then
        (if k ∈ l.breaks then (d.code[k]?).map (·.setArg 1 (jumpOffset k d.code.size))
          else d.code[k]?).map (·.setArg 1 (jumpOffset k continueTo))
      else if k ∈ l.breaks then (d.code[k]?).map (·.setArg 1 (jumpOffset k d.code.size))
        else d.code[k]? := by
  rw [endLoop_eq hloops, code_patchAll, code_patchAll]

/-! ## Steps -/

theorem SameStream.reworded (h : SameStream d d') : Reworded d d' :=
  .of_code h.code (.inl h.state)

/-- An operation that is no concern of the stream, or that changes arguments. -/
theorem aside_step {o : Op} (ho : o.Aside) (nested : Bool) (d : Draft) :
    Reworded d (d.step nested o) ∧ (d.step nested o).loops = d.loops ∧
      ∀ k, ¬ o.Overwrites k → (d.step nested o).code[k]? = d.code[k]? := by
  have hsame : o.part ≠ .stream → Reworded d (d.step nested o) ∧
      (d.step nested o).loops = d.loops ∧
        ∀ k, ¬ o.Overwrites k → (d.step nested o).code[k]? = d.code[k]? := fun hp =>
    have h := (confined_step nested d o).stream hp
    ⟨h.reworded, h.loops, fun k _ => by rw [h.code]⟩
  have hmodify : ∀ pos (f : Instruction → Instruction), (∀ j, (f j).opcode = j.opcode) →
      d.step nested o = d.modifyInstruction pos f → (∀ k, pos = k → o.Overwrites k) →
        Reworded d (d.step nested o) ∧ (d.step nested o).loops = d.loops ∧
          ∀ k, ¬ o.Overwrites k → (d.step nested o).code[k]? = d.code[k]? := by
    intro pos f hf heq hover
    rw [heq]
    refine ⟨.modify hf d pos, rfl, fun k hk => ?_⟩
    show (d.code.modify pos f)[k]? = d.code[k]?
    rw [Array.getElem?_modify, if_neg fun h => hk (hover k h)]
  cases o with
  | emit i => exact ho.elim
  | addBreak => exact ho.elim
  | addContinue => exact ho.elim
  | beginLoop => exact ho.elim
  | endLoop continueTo => exact ho.elim
  | suppress => exact ⟨.of_code rfl (.inr rfl), rfl, fun _ _ => rfl⟩
  | setArgs pos a b c e =>
    exact hmodify pos (fun j => { j with arg0 := a, arg1 := b, arg2 := c, arg3 := e })
      (fun _ => rfl) rfl fun _ h => h
  | setArg pos arg v =>
    exact hmodify pos (fun j => j.setArg arg v) (fun j => opcode_setArg j arg v) rfl fun _ h => h
  | patchJump pos target =>
    refine ⟨.patchJump d pos target, loops_patchJump d pos target, fun k hk => ?_⟩
    exact (code_patchJump d pos target k).trans (if_neg hk)
  | optimization on => exact ⟨.of_code rfl (.inl rfl), rfl, fun _ _ => rfl⟩
  | beginReturnExpression => exact ⟨.of_code rfl (.inl rfl), rfl, fun _ _ => rfl⟩
  | endReturnExpression => exact ⟨.of_code rfl (.inl rfl), rfl, fun _ _ => rfl⟩
  | _ => exact hsame fun h => by cases h

/-- What a loop has recorded once a break or a continue of it is issued at an index. -/
def Op.record (l : LoopTargets) (p : Nat) : Op → LoopTargets
  | .addBreak => { l with breaks := l.breaks ++ [p] }
  | .addContinue => { l with continues := l.continues ++ [p] }
  | _ => l

/-- A break or a continue is a jump that waits; outside a loop it is refused. -/
theorem exit_cases {o : Op} (ho : o.Exits) (nested : Bool) (d : Draft) :
    (d.loops = [] ∧ d.step nested o = d) ∨
      ∃ l rest, d.loops = l :: rest ∧ d.step nested o =
        { d with
          loops := o.record l d.code.size :: rest
          code := d.code.push { opcode := .jump }
          state := .armed } := by
  cases hloops : d.loops with
  | nil =>
    refine .inl ⟨rfl, ?_⟩
    cases o with
    | addBreak =>
      show (d.addBreak).2 = d
      rw [addBreak, hloops]
    | addContinue =>
      show (d.addContinue).2 = d
      rw [addContinue, hloops]
    | _ => exact ho.elim
  | cons l rest =>
    refine .inr ⟨l, rest, rfl, ?_⟩
    cases o with
    | addBreak =>
      show (d.addBreak).2 = _
      rw [addBreak, hloops]
      rfl
    | addContinue =>
      show (d.addContinue).2 = _
      rw [addContinue, hloops]
      rfl
    | _ => exact ho.elim

/-- The jumps recorded are those that were, with one more among them. -/
theorem record_perm {o : Op} (ho : o.Exits) (l : LoopTargets) (p : Nat) :
    ((o.record l p).breaks ++ (o.record l p).continues).Perm
      (p :: (l.breaks ++ l.continues)) := by
  cases o with
  | addBreak =>
    show ((l.breaks ++ [p]) ++ l.continues).Perm _
    rw [List.append_assoc]
    exact List.perm_middle
  | addContinue =>
    show (l.breaks ++ (l.continues ++ [p])).Perm _
    rw [← List.append_assoc]
    exact List.perm_append_singleton p _
  | _ => exact ho.elim

theorem waiting_cons {l : LoopTargets} {rest : List LoopTargets} (hloops : d.loops = l :: rest) :
    d.waiting = (l.breaks ++ l.continues) ++ rest.flatMap fun l => l.breaks ++ l.continues := by
  rw [waiting, hloops, List.flatMap_cons]

theorem waiting_congr (hloops : d'.loops = d.loops) : d'.waiting = d.waiting := by
  rw [waiting, waiting, hloops]

/-- The instruction that an operation appends where nothing combines. -/
def Op.emission (d : Draft) : Op → Option Instruction
  | .emit j => some j
  | .addBreak | .addContinue => if d.loops.isEmpty then none else some { opcode := .jump }
  | _ => none

theorem emission_exit {o : Op} (ho : o.Exits) {loops : List LoopTargets} (hloops : d.loops = loops) :
    o.emission d = if loops.isEmpty then none else some { opcode := .jump } := by
  subst hloops
  cases o <;> first | rfl | exact ho.elim

/-- An emission is that of an instruction, or of a jump that joins those that wait. -/
theorem emission_step {o : Op} {j : Instruction} (ho : o.emission d = some j) (nested : Bool) :
    o = .emit j ∨ j.opcode = .jump ∧ (d.step nested o).code = d.code.push j ∧
      (d.step nested o).waiting.Perm (d.code.size :: d.waiting) := by
  induction o using Op.stream_cases with
  | emit next =>
    cases ho
    exact .inl rfl
  | exit o hexit =>
    rcases exit_cases hexit nested d with ⟨hloops, -⟩ | ⟨l, rest, hloops, heq⟩
    · cases (emission_exit hexit hloops).symm.trans ho
    · cases (emission_exit hexit hloops).symm.trans ho
      refine .inr ⟨rfl, congrArg Draft.code heq, ?_⟩
      rw [heq, waiting_cons rfl, waiting_cons hloops]
      exact (record_perm hexit l d.code.size).append_right _
  | beginLoop => cases ho
  | endLoop continueTo => cases ho
  | aside o haside => cases o <;> first | exact haside.elim | cases ho

/-- Without an emission the stream is at most reworded, where the caller or the end
of a loop says so. -/
theorem quiet_step {o : Op} (ho : o.emission d = none) (nested : Bool) :
    Reworded d (d.step nested o) ∧ (d.step nested o).waiting.Sublist d.waiting ∧
      ∀ i, ¬ o.Overwrites i → i ∉ d.waiting → (d.step nested o).code[i]? = d.code[i]? := by
  have hsame : d.step nested o = d → Reworded d (d.step nested o) ∧
      (d.step nested o).waiting.Sublist d.waiting ∧
        ∀ i, ¬ o.Overwrites i → i ∉ d.waiting → (d.step nested o).code[i]? = d.code[i]? := by
    intro heq
    rw [heq]
    exact ⟨.of_code rfl (.inl rfl), .refl _, fun _ _ _ => rfl⟩
  induction o using Op.stream_cases with
  | emit next => cases ho
  | exit o hexit =>
    rcases exit_cases hexit nested d with ⟨-, heq⟩ | ⟨l, rest, hloops, -⟩
    · exact hsame heq
    · cases (emission_exit hexit hloops).symm.trans ho
  | beginLoop => exact ⟨.of_code rfl (.inr rfl), .refl _, fun _ _ _ => rfl⟩
  | endLoop continueTo =>
    cases hloops : d.loops with
    | nil => exact hsame (endLoop_outside hloops continueTo)
    | cons l rest =>
      refine ⟨reworded_endLoop d continueTo, ?_, fun i _ hw => ?_⟩
      · show (d.endLoop continueTo).2.waiting.Sublist d.waiting
        rw [waiting, loops_endLoop, waiting_cons hloops, hloops]
        exact List.sublist_append_right _ _
      · rw [waiting_cons hloops, List.mem_append, List.mem_append, not_or, not_or] at hw
        exact (code_endLoop hloops continueTo i).trans (by rw [if_neg hw.1.2, if_neg hw.1.1])
  | aside o haside =>
    obtain ⟨hre, hloops, hcode⟩ := aside_step haside nested d
    exact ⟨hre, waiting_congr hloops ▸ .refl _, fun i hover _ => hcode i hover⟩

/-- A settled instruction stays through one operation. -/
theorem Settled.step (h : d.Settled i) (nested : Bool) (o : Op) :
    Stays d (d.step nested o) (o.Overwrites i) i := by
  cases ho : o.emission d with
  | none =>
    obtain ⟨hre, hsub, hkept⟩ := quiet_step ho nested
    exact ⟨hre.settled h, hre.opcode i,
      fun hover hw => ⟨hkept i hover hw, fun hmem => hw (hsub.subset hmem)⟩⟩
  | some j =>
    have hlt := h.lt
    rcases emission_step ho nested with rfl | ⟨-, hcode, hperm⟩
    · obtain ⟨hs, hcode⟩ := h.emit nested j
      refine ⟨hs, congrArg (Option.map _) hcode, fun _ hw => ⟨hcode, ?_⟩⟩
      show i ∉ (d.emit nested j).waiting
      rwa [waiting_congr (loops_emit nested j)]
    · have hsame : (d.step nested o).code[i]? = d.code[i]? := by
        rw [hcode, Array.getElem?_push, if_neg (by omega)]
      refine ⟨.of_before ?_, congrArg (Option.map _) hsame, fun _ hw => ⟨hsame, fun hmem => ?_⟩⟩
      · rw [hcode, Array.size_push]
        omega
      · rcases List.mem_cons.1 (hperm.mem_iff.1 hmem) with heq | hmem
        · omega
        · exact hw hmem

/-- A settled instruction stays for good. -/
theorem Settled.run (h : d.Settled i) (nested : Bool) (ops : List Op) :
    Stays d (d.run nested ops) (∃ o ∈ ops, o.Overwrites i) i := by
  induction ops generalizing d with
  | nil => exact ⟨h, rfl, fun _ hw => ⟨rfl, hw⟩⟩
  | cons o ops ih =>
    have hstep := h.step nested o
    have hrun := ih hstep.settled
    refine ⟨hrun.settled, hrun.opcode.trans hstep.opcode, fun hover hw => ?_⟩
    obtain ⟨hcode, hw'⟩ := hstep.arguments
      (fun ho => hover ⟨o, List.mem_cons_self, ho⟩) hw
    obtain ⟨hcode', hw''⟩ := hrun.arguments
      (fun ⟨p, hp, ho⟩ => hover ⟨p, List.mem_cons_of_mem _ hp, ho⟩) hw'
    exact ⟨hcode'.trans hcode, hw''⟩

theorem size_step (nested : Bool) (d : Draft) (o : Op) :
    d.code.size ≤ (d.step nested o).code.size := by
  cases ho : o.emission d with
  | none => exact Nat.le_of_eq (quiet_step ho nested).1.size.symm
  | some j =>
    rcases emission_step ho nested with rfl | ⟨-, hcode, -⟩
    · show d.code.size ≤ (d.emit nested j).code.size
      rcases size_emit (d := d) nested j with h | h <;> omega
    · rw [hcode, Array.size_push]
      omega

theorem size_run (nested : Bool) (d : Draft) (ops : List Op) :
    d.code.size ≤ (d.run nested ops).code.size := by
  induction ops generalizing d with
  | nil => exact Nat.le_refl _
  | cons o ops ih => exact Nat.le_trans (size_step nested d o) (ih _)

/-! ## Labels -/

/-- Behind a label, an instruction is appended as it is, and until then the label
holds. -/
theorem step_suppressed (hs : d.state = .suppressed) (nested : Bool) (o : Op) :
    (∃ j, o.emission d = some j ∧ (d.step nested o).code = d.code.push j) ∨
      o.emission d = none ∧ (d.step nested o).code.size = d.code.size ∧
        (d.step nested o).state = .suppressed := by
  cases ho : o.emission d with
  | none =>
    have hre := (quiet_step ho nested).1
    exact .inr ⟨rfl, hre.size, hre.state.elim (fun heq => heq.trans hs) id⟩
  | some j =>
    refine .inl ⟨j, rfl, ?_⟩
    rcases emission_step ho nested with rfl | ⟨-, hcode, -⟩
    · exact emit_suppressed hs nested j
    · exact hcode

/-- A label holds until something is appended. -/
theorem suppressed_run (hs : d.state = .suppressed) (nested : Bool) (ops : List Op)
    (hsize : (d.run nested ops).code.size = d.code.size) :
    (d.run nested ops).state = .suppressed := by
  induction ops generalizing d with
  | nil => exact hs
  | cons o ops ih =>
    have hgrow := size_run nested (d.step nested o) ops
    rw [run_cons] at hsize ⊢
    rcases step_suppressed hs nested o with ⟨j, -, hcode⟩ | ⟨-, hsame, hs'⟩
    · rw [hcode, Array.size_push] at hgrow
      omega
    · exact ih hs' (hsize.trans hsame.symm)

/-- The operation puts a label at the end of the stream. The end of a loop does
so for the jumps that it directs there. -/
def BindsLabel (d : Draft) : Op → Prop
  | .beginLoop | .suppress => True
  | .patchJump _ target => target = d.code.size
  | .endLoop continueTo => ∃ l rest, d.loops = l :: rest ∧
      (l.breaks ≠ [] ∨ l.continues ≠ [] ∧ continueTo = d.code.size)
  | _ => False

theorem BindsLabel.suppresses {o : Op} (h : d.BindsLabel o) (nested : Bool) :
    (d.step nested o).code.size = d.code.size ∧ (d.step nested o).state = .suppressed := by
  cases o with
  | beginLoop => exact ⟨rfl, rfl⟩
  | suppress => exact ⟨rfl, rfl⟩
  | patchJump pos target =>
    cases h
    exact ⟨(Reworded.patchJump d pos _).size,
      state_patchAll d (List.cons_ne_nil pos [])⟩
  | endLoop continueTo =>
    obtain ⟨l, rest, hloops, hwait⟩ := h
    refine ⟨(reworded_endLoop d continueTo).size, ?_⟩
    show (d.endLoop continueTo).2.state = .suppressed
    rw [endLoop_eq hloops]
    have hsize := (reworded_patchAll { d with loops := rest } l.breaks d.code.size).size
    rcases hwait with hbreaks | ⟨hcontinues, rfl⟩
    · have hfirst : ({ d with loops := rest }.patchAll l.breaks d.code.size).state =
          .suppressed := state_patchAll { d with loops := rest } hbreaks
      exact (reworded_patchAll _ l.continues continueTo).state.elim (·.trans hfirst) id
    · have hlast := state_patchAll ({ d with loops := rest }.patchAll l.breaks d.code.size)
        hcontinues
      rwa [hsize] at hlast
  | _ => exact h.elim

/-- The instructions before an index have kept their place and their opcodes, and
their arguments unless the caller or the end of an open loop has changed them. -/
structure KeptBelow (n : Nat) (d d' : Draft) (ops : List Op) : Prop where
  opcodes : ∀ i < n, d'.opcodeAt i = d.opcodeAt i
  arguments : ∀ i < n, (∀ o ∈ ops, ¬ o.Overwrites i) → i ∉ d.waiting → d'.code[i]? = d.code[i]?

theorem keptBelow_of_settled {n : Nat} (h : ∀ i < n, d.Settled i) (nested : Bool)
    (ops : List Op) : KeptBelow n d (d.run nested ops) ops where
  opcodes i hi := ((h i hi).run nested ops).opcode
  arguments i hi hover hw :=
    (((h i hi).run nested ops).arguments (fun ⟨o, ho, h⟩ => hover o ho h) hw).1

/-- The end of the stream is a label: whatever comes first is appended there as it
is, and nothing is ever merged into an instruction before it. -/
structure Labelled (nested : Bool) (n : Nat) (d : Draft) : Prop where
  atEnd : d.code.size = n
  next : ∀ ops o j, (d.run nested ops).code.size = n → o.emission (d.run nested ops) = some j →
    ((d.run nested ops).step nested o).code = (d.run nested ops).code.push j
  apart : ∀ ops, KeptBelow n d (d.run nested ops) ops

theorem BindsLabel.labelled {o : Op} (h : d.BindsLabel o) (nested : Bool) :
    Labelled nested d.code.size (d.step nested o) := by
  obtain ⟨hsize, hs⟩ := h.suppresses nested
  refine ⟨hsize, fun ops p j hlen hj => ?_, fun ops => ?_⟩
  · have hs' := suppressed_run hs nested ops (hlen.trans hsize.symm)
    rcases step_suppressed hs' nested p with ⟨j', hj', hcode⟩ | ⟨hnone, -⟩
    · rw [hj] at hj'
      cases hj'
      exact hcode
    · rw [hj] at hnone
      cases hnone
  · exact keptBelow_of_settled
      (fun i hi => ⟨by omega, fun _ => .inl hs⟩) nested ops

/-! ## Loops -/

/-- The jumps that wait are where they were issued, each once. -/
structure Orderly (d : Draft) : Prop where
  jumps : ∀ p ∈ d.waiting, d.opcodeAt p = some .jump
  distinct : d.waiting.Nodup

theorem Orderly.settled {p : Nat} (h : d.Orderly) (hp : p ∈ d.waiting) : d.Settled p := by
  refine ⟨?_, fun _ => .inr (h.jumps p hp)⟩
  by_contra hge
  have hnone := opcodeAt_eq_none.2 (Nat.le_of_not_lt hge)
  rw [h.jumps p hp] at hnone
  cases hnone

theorem Orderly.step (h : d.Orderly) (nested : Bool) (o : Op) : (d.step nested o).Orderly := by
  have hstays : ∀ p ∈ d.waiting, (d.step nested o).opcodeAt p = some .jump := fun p hp =>
    ((h.settled hp).step nested o).opcode.trans (h.jumps p hp)
  have hfewer : (d.step nested o).waiting.Sublist d.waiting → (d.step nested o).Orderly :=
    fun hsub => ⟨fun p hp => hstays p (hsub.subset hp), h.distinct.sublist hsub⟩
  cases ho : o.emission d with
  | none => exact hfewer (quiet_step ho nested).2.1
  | some j =>
    rcases emission_step ho nested with rfl | ⟨hjump, hcode, hperm⟩
    · refine hfewer ?_
      show (d.emit nested j).waiting.Sublist d.waiting
      rw [waiting_congr (loops_emit nested j)]
    · refine ⟨fun p hp => ?_, hperm.nodup_iff.2 (List.nodup_cons.2 ⟨fun hmem => ?_, h.distinct⟩)⟩
      · rcases List.mem_cons.1 (hperm.mem_iff.1 hp) with rfl | hp
        · exact opcodeAt_eq_some.2 ⟨_, by rw [hcode, Array.getElem?_push_size], hjump⟩
        · exact hstays p hp
      · exact Nat.lt_irrefl _ (h.settled hmem).lt

theorem Orderly.run (h : d.Orderly) (nested : Bool) (ops : List Op) :
    (d.run nested ops).Orderly := by
  induction ops generalizing d with
  | nil => exact h
  | cons o ops ih => exact ih (h.step nested o)

theorem orderly_new (name source : String) : ({ name, source } : Draft).Orderly :=
  ⟨fun _ hp => absurd hp List.not_mem_nil, List.nodup_nil⟩

/-- The depth of loops after an operation; none when there is no loop to end. -/
def Op.depth (n : Nat) : Op → Option Nat
  | .beginLoop => some (n + 1)
  | .endLoop _ => if n = 0 then none else some (n - 1)
  | _ => some n

theorem depth_exit {o : Op} (ho : o.Exits) (n : Nat) : o.depth n = some n := by
  cases o <;> first | rfl | exact ho.elim

/-- The depth of loops after a sequence that starts outside of them. -/
def depthAfter (ops : List Op) : Option Nat := ops.foldlM Op.depth 0

/-- Every loop that is begun is ended, and no other. -/
def Nested (ops : List Op) : Prop := depthAfter ops = some 0

instance (ops : List Op) : Decidable (Nested ops) := inferInstanceAs (Decidable (_ = _))

theorem depthAfter_snoc (ops : List Op) (o : Op) :
    depthAfter (ops ++ [o]) = (depthAfter ops).bind fun n => o.depth n := by
  rw [depthAfter, List.foldlM_append]
  show (depthAfter ops).bind (fun n => [o].foldlM Op.depth n) = _
  congr 1
  funext n
  show (o.depth n).bind some = o.depth n
  cases o.depth n <;> rfl

/-- A sequence within a loop issues a break or a continue of that loop, and no
inner one, when the stream has a given length. -/
def Issues (nested : Bool) (d : Draft) (ops : List Op) (o : Op) (p : Nat) : Prop :=
  ∃ ops₁ ops₂, ops = ops₁ ++ o :: ops₂ ∧ Nested ops₁ ∧ p = (d.run nested ops₁).code.size

theorem not_issues_nil {o : Op} {p : Nat} : ¬ Issues nested d [] o p := by
  rintro ⟨ops₁, ops₂, heq, -⟩
  simp at heq

theorem issues_snoc {ops : List Op} {o o' : Op} {p : Nat} :
    Issues nested d (ops ++ [o']) o p ↔
      Issues nested d ops o p ∨ o' = o ∧ Nested ops ∧ p = (d.run nested ops).code.size := by
  constructor
  · rintro ⟨ops₁, ops₂, heq, hn, hp⟩
    rcases List.eq_nil_or_concat ops₂ with rfl | ⟨ops₂, o'', rfl⟩
    · obtain ⟨rfl, hlast⟩ := List.append_inj' heq rfl
      cases hlast
      exact .inr ⟨rfl, hn, hp⟩
    · rw [List.concat_eq_append, ← List.cons_append, ← List.append_assoc] at heq
      obtain ⟨rfl, -⟩ := List.append_inj' heq rfl
      exact .inl ⟨ops₁, ops₂, rfl, hn, hp⟩
  · rintro (⟨ops₁, ops₂, rfl, hn, hp⟩ | ⟨rfl, hn, hp⟩)
    · exact ⟨ops₁, ops₂ ++ [o'], by simp, hn, hp⟩
    · exact ⟨ops, [], rfl, hn, hp⟩

/-- Of the open loops, the one at hand has recorded what the sequence issued. -/
structure Records (nested : Bool) (d : Draft) (ops : List Op) (l : LoopTargets) : Prop where
  breaks : ∀ p, p ∈ l.breaks ↔ Issues nested d ops .addBreak p
  continues : ∀ p, p ∈ l.continues ↔ Issues nested d ops .addContinue p

/-- An exit of the loop at hand is recorded by it. -/
theorem Records.exit {ops : List Op} {l : LoopTargets} (h : Records nested d ops l) {o : Op}
    (ho : o.Exits) (hn : Nested ops) :
    Records nested d (ops ++ [o]) (o.record l (d.run nested ops).code.size) := by
  cases o with
  | addBreak =>
    refine ⟨fun p => ?_, fun p => ?_⟩
    · rw [issues_snoc, ← h.breaks]
      simp [Op.record, hn]
    · rw [issues_snoc, ← h.continues]
      simp [Op.record]
  | addContinue =>
    refine ⟨fun p => ?_, fun p => ?_⟩
    · rw [issues_snoc, ← h.breaks]
      simp [Op.record]
    · rw [issues_snoc, ← h.continues]
      simp [Op.record, hn]
  | _ => exact ho.elim

/-- An operation that is no exit of the loop at hand leaves its record valid. -/
theorem Records.snoc {ops : List Op} {l : LoopTargets} (h : Records nested d ops l) {o : Op}
    (ho : o.Exits → ¬ Nested ops) : Records nested d (ops ++ [o]) l where
  breaks p := by
    rw [issues_snoc, h.breaks]
    exact ⟨.inl, fun hp => hp.elim id fun ⟨he, hn, _⟩ => absurd hn (ho (he ▸ trivial))⟩
  continues p := by
    rw [issues_snoc, h.continues]
    exact ⟨.inl, fun hp => hp.elim id fun ⟨he, hn, _⟩ => absurd hn (ho (he ▸ trivial))⟩

/-- While the body of a loop is built, the loops begun in it lie above it. -/
theorem loops_within (nested : Bool) {rest : List LoopTargets} (hstart : d.loops = {} :: rest)
    (ops : List Op) {n : Nat} (hn : depthAfter ops = some n) :
    ∃ inner l, inner.length = n ∧ (d.run nested ops).loops = inner ++ l :: rest ∧
      Records nested d ops l := by
  induction ops using List.reverseRecOn generalizing n with
  | nil =>
    cases hn
    refine ⟨[], {}, rfl, hstart, fun p => ?_, fun p => ?_⟩ <;>
      exact ⟨fun hp => absurd hp List.not_mem_nil, fun hp => absurd hp not_issues_nil⟩
  | append_singleton ops o ih =>
    rw [depthAfter_snoc] at hn
    obtain ⟨m, hm, hdepth⟩ := Option.bind_eq_some_iff.1 hn
    obtain ⟨inner, l, hlen, hloops, hrec⟩ := ih hm
    -- at depth zero the body is at its own level
    have hnested : m ≠ 0 → ¬ Nested ops := fun h0 h => h0 (Option.some.inj (hm.symm.trans h))
    rw [run_append, run_cons, run_nil]
    generalize hr : d.run nested ops = r at hloops
    induction o using Op.stream_cases with
    | emit next =>
      cases hdepth
      exact ⟨inner, l, hlen, (loops_emit nested next).trans hloops, hrec.snoc False.elim⟩
    | exit o hexit =>
      rw [depth_exit hexit] at hdepth
      cases hdepth
      rcases exit_cases hexit nested r with ⟨hnil, -⟩ | ⟨l', rest', hcons, heq⟩
      · rw [hnil] at hloops
        cases inner <;> cases hloops
      · rw [heq]
        rw [hcons] at hloops
        cases inner with
        | nil =>
          cases hloops
          cases hlen
          exact ⟨[], _, rfl, rfl, hr ▸ hrec.exit hexit hm⟩
        | cons x inner =>
          cases hloops
          exact ⟨o.record l' r.code.size :: inner, l, hlen, rfl,
            hrec.snoc fun _ => hnested (by rw [← hlen]; simp)⟩
    | beginLoop =>
      cases hdepth
      refine ⟨{} :: inner, l, congrArg (· + 1) hlen, ?_, hrec.snoc False.elim⟩
      show {} :: r.loops = _
      rw [hloops, List.cons_append]
    | endLoop continueTo =>
      rw [Op.depth] at hdepth
      split at hdepth
      case isTrue => cases hdepth
      case isFalse h0 =>
        cases hdepth
        cases inner with
        | nil => exact absurd hlen.symm h0
        | cons x inner =>
          refine ⟨inner, l, by rw [← hlen, List.length_cons, Nat.add_sub_cancel], ?_,
            hrec.snoc False.elim⟩
          show (r.endLoop continueTo).2.loops = _
          rw [loops_endLoop, hloops, List.cons_append, List.tail_cons]
    | aside o ho =>
      have hsame : o.depth m = some m := by cases o <;> first | rfl | exact ho.elim
      rw [hsame] at hdepth
      cases hdepth
      refine ⟨inner, l, hlen, (aside_step ho nested r).2.1.trans hloops,
        hrec.snoc fun hexit => ?_⟩
      cases o <;> first | exact ho.elim | exact hexit.elim

/-- A jump at an index whose offset, counted from the instruction after it, leads
to a target. -/
def JumpsTo (d : Draft) (p target : Nat) : Prop :=
  ∃ j, d.code[p]? = some j ∧ j.opcode = .jump ∧ Int64.ofNat (p + 1) + j.arg1 = Int64.ofNat target

theorem jumpsTo_of_offset {p target : Nat} {j : Instruction} (hj : j.opcode = .jump)
    (hp : d.code[p]? = some (j.setArg 1 (jumpOffset p target))) : d.JumpsTo p target := by
  refine ⟨_, hp, (opcode_setArg j 1 _).trans hj, ?_⟩
  show Int64.ofNat (p + 1) + (Int64.ofNat target - (Int64.ofNat p + 1)) = Int64.ofNat target
  have hone : Int64.ofNat 1 = 1 := rfl
  rw [Int64.ofNat_add, hone, Int64.add_comm, Int64.sub_add_cancel]

/-- What becomes of a loop that has begun when its body is built and it ends. The
exits lead to their targets for as long as the caller leaves them alone, and no
other instruction is changed by the end of the loop. -/
structure Closes (nested : Bool) (d : Draft) (body : List Op) (continueTo : Nat) : Prop where
  size : ((d.run nested body).step nested (.endLoop continueTo)).code.size =
    (d.run nested body).code.size
  breaks : ∀ p, Issues nested d body .addBreak p → ∀ later, (∀ o ∈ later, ¬ o.Overwrites p) →
    (((d.run nested body).step nested (.endLoop continueTo)).run nested later).JumpsTo p
      (d.run nested body).code.size
  continues : ∀ p, Issues nested d body .addContinue p → ∀ later,
    (∀ o ∈ later, ¬ o.Overwrites p) →
      (((d.run nested body).step nested (.endLoop continueTo)).run nested later).JumpsTo p
        continueTo
  others : ∀ p, ¬ Issues nested d body .addBreak p → ¬ Issues nested d body .addContinue p →
    ((d.run nested body).step nested (.endLoop continueTo)).code[p]? =
      (d.run nested body).code[p]?

theorem closes (ho : d.Orderly) {rest : List LoopTargets} (hstart : d.loops = {} :: rest)
    {body : List Op} (hbody : Nested body) (continueTo : Nat) :
    Closes nested d body continueTo := by
  obtain ⟨inner, l, hlen, hloops, hrec⟩ := loops_within nested hstart body hbody
  obtain rfl := List.eq_nil_of_length_eq_zero hlen
  have horder : (d.run nested body).Orderly := ho.run nested body
  generalize he : d.run nested body = e at hloops horder
  rw [List.nil_append] at hloops
  have hdistinct := horder.distinct
  rw [waiting_cons hloops] at hdistinct
  have hexit := (List.nodup_append'.1 hdistinct).2.2
  have hsides := (List.nodup_append'.1 (List.nodup_append'.1 hdistinct).1).2.2
  -- an exit that is directed somewhere stays so
  have hlater : ∀ p target, p ∈ l.breaks ++ l.continues →
      (∀ j, e.code[p]? = some j → (e.step nested (.endLoop continueTo)).code[p]? =
        some (j.setArg 1 (jumpOffset p target))) → ∀ later, (∀ o ∈ later, ¬ o.Overwrites p) →
        ((e.step nested (.endLoop continueTo)).run nested later).JumpsTo p target := by
    intro p target hp hcode later hover
    have hwait : p ∈ e.waiting := by
      rw [waiting_cons hloops]
      exact List.mem_append_left _ hp
    obtain ⟨j, hj, hop⟩ := opcodeAt_eq_some.1 (horder.jumps p hwait)
    have hsettled := (horder.settled hwait).step nested (.endLoop continueTo)
    have hgone : p ∉ (e.step nested (.endLoop continueTo)).waiting := by
      show p ∉ (e.endLoop continueTo).2.waiting
      rw [waiting, loops_endLoop, hloops]
      exact fun hmem => hexit hp hmem
    have hkept := ((hsettled.settled.run nested later).arguments
      (fun ⟨o, ho, h⟩ => hover o ho h) hgone).1
    exact jumpsTo_of_offset hop (hkept.trans (hcode j hj))
  refine ⟨?_, fun p hp => ?_, fun p hp => ?_, fun p hb hc => ?_⟩ <;> rw [he]
  · exact (reworded_endLoop e continueTo).size
  · have hmem := (hrec.breaks p).2 hp
    refine hlater p _ (List.mem_append_left _ hmem) fun j hj => ?_
    exact (code_endLoop hloops continueTo p).trans
      (by rw [if_neg (fun h => hsides hmem h), if_pos hmem, hj]; rfl)
  · have hmem := (hrec.continues p).2 hp
    refine hlater p _ (List.mem_append_right _ hmem) fun j hj => ?_
    exact (code_endLoop hloops continueTo p).trans
      (by rw [if_pos hmem, if_neg (fun h => hsides h hmem), hj]; rfl)
  · exact (code_endLoop hloops continueTo p).trans
      (by rw [if_neg (fun h => hc ((hrec.continues p).1 h)),
        if_neg (fun h => hb ((hrec.breaks p).1 h))])

/-- However a function is built: its stream only grows and its instructions keep
their indices, the last one too as long as nothing is emitted; what follows a label
starts there and is not merged into what precedes it; and the exits of a loop, inner
loops apart, lead where they should. -/
theorem labels_survive_fusion (nested : Bool) (name source : String) (before : List Op) {d : Draft}
    (hd : d = ({ name, source } : Draft).run nested before) :
    (∀ ops, d.code.size ≤ (d.run nested ops).code.size ∧
      KeptBelow (d.code.size - 1) d (d.run nested ops) ops) ∧
    (∀ o, o.emission d = none → KeptBelow d.code.size d (d.step nested o) [o]) ∧
    (∀ o, d.BindsLabel o → Labelled nested d.code.size (d.step nested o)) ∧
    ∀ body, Nested body → ∀ continueTo,
      Closes nested (d.step nested .beginLoop) body continueTo := by
  have ho : d.Orderly := hd ▸ (orderly_new name source).run nested before
  refine ⟨fun ops => ⟨size_run nested d ops, ?_⟩, fun o hquiet => ?_,
    fun o h => h.labelled nested, ?_⟩
  · exact keptBelow_of_settled (fun i hi => .of_before (by omega)) nested ops
  · obtain ⟨hre, -, hkept⟩ := quiet_step hquiet nested
    exact ⟨fun i _ => hre.opcode i, fun i _ hover => hkept i (hover o List.mem_cons_self)⟩
  · exact fun body hbody continueTo =>
      closes (ho.step nested .beginLoop) rfl hbody continueTo

/-- A break of a loop and the continue behind an inner loop: the inner break is not
counted among them. -/
theorem labels_survive_fusion_nestedLoops :
    let before : List Op := [.emit { opcode := .loadNulls }]
    let body : List Op := [.addBreak, .beginLoop, .addBreak, .endLoop 2, .addContinue]
    let d := ({ name := "f", source := "" } : Draft).run false before
    let looped := ((d.step false .beginLoop).run false body).step false (.endLoop 1)
    Nested body ∧ looped.JumpsTo 1 4 ∧ looped.JumpsTo 3 1 ∧
      (looped.step false (.emit { opcode := .loadNulls })).code.size = 5 := by
  have hbody : Nested [.addBreak, .beginLoop, .addBreak, .endLoop 2, .addContinue] := rfl
  obtain ⟨-, -, -, hloops⟩ :=
    labels_survive_fusion false "f" "" [.emit { opcode := .loadNulls }] rfl
  have hcloses := hloops _ hbody 1
  refine ⟨hbody, hcloses.breaks 1 ⟨[], _, rfl, rfl, rfl⟩ [] (by simp),
    hcloses.continues 3 ⟨[.addBreak, .beginLoop, .addBreak, .endLoop 2], [], rfl, rfl, rfl⟩ []
      (by simp), by decide⟩

end Draft

end ScriptMachine
