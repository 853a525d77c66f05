import ScriptMachine.Machine.Globals
import ScriptMachine.Proofs.Machine.Below

/-!
# Entering a function without a place

A function is entered over its arguments, on a stack that has grown to the height
of the new frame. Of all accesses to the stack this leaves one that may fail: the
array of arguments is stored in the slot of the last parameter, and that is
outside when there is neither a parameter nor a register nor an argument. A run
never reaches outside the stack in any other way.
-/

set_option autoImplicit false

namespace ScriptMachine

/-- The function takes any number of arguments and has no slot for them. -/
def Prototype.Placeless (p : Prototype) : Prop :=
  p.varargs = true ∧ p.parameters = [] ∧ p.stackSize = 0

namespace Regime

/-- Everything is allowed but to reach outside the stack. -/
def onStack : Regime where
  rel _ _ := True
  cut e _ _ := e ≠ .outsideStack
  writes _ := True
  trans _ _ := trivial
  cut_trans _ h := h
  beside _ _ := trivial
  cut_beside h _ _ := h
  write _ _ _ := trivial

theorem onStack_iff {α : Type} {act : Exec α} {m : Machine} :
    onStack.AllowsAt act m ↔ ∀ m', act m ≠ .error .outsideStack m' := by
  unfold AllowsAt Leads
  cases act m with
  | ok a m1 => exact ⟨fun _ _ h => (by cases h), fun _ => trivial⟩
  | error e m1 =>
    cases e with
    | script e => exact ⟨fun _ _ h => (by cases h), fun _ => trivial⟩
    | outsideStack => exact ⟨fun h => absurd rfl h, fun h => absurd rfl (h m1)⟩
    | outOfSteps => exact ⟨fun _ _ h => (by cases h), fun _ h => (by cases h)⟩

/-- An action that passes on the faults of another one. -/
theorem onStack_of_fault {α β : Type} {act : Exec α} {act' : Exec β} {m : Machine}
    (hact : onStack.AllowsAt act m)
    (h : ∀ m1, act' m = .error .outsideStack m1 → ∃ m2, act m = .error .outsideStack m2) :
    onStack.AllowsAt act' m := by
  refine onStack_iff.2 fun m1 he => ?_
  obtain ⟨m2, he⟩ := h m1 he
  exact onStack_iff.1 hact m2 he

/-- A change of the machine. -/
theorem onStack_modify {α : Type} (g : Machine → α × Machine) :
    onStack.Allows (MonadStateOf.modifyGet g : Exec α) := fun _ => trivial

theorem onStack_restoring {α : Type} {act : Exec α} {undo : Machine → Machine} {m : Machine}
    (h : onStack.AllowsAt act m) : onStack.AllowsAt (Exec.restoring act undo) m := by
  refine onStack_of_fault h fun m1 he => ?_
  unfold Exec.restoring at he
  split at he <;> cases he
  exact ⟨_, ‹_›⟩

end Regime

/-! ## Functions stay what they are -/

namespace Heap

/-- The functions that live on run what they ran. -/
def SameFunctions (h h' : Heap) : Prop :=
  ∀ r c', h'.closure? r = some c' → ∃ c, h.closure? r = some c ∧ c'.prototype = c.prototype

namespace SameFunctions

variable {h h' h'' : Heap}

theorem of_bodies (hb : ∀ r b, h'.body? r = some b → h.body? r = some b) : SameFunctions h h' :=
  fun r c' hc => ⟨c', closure?_eq_some.2 (hb r _ (closure?_eq_some.1 hc)), rfl⟩

theorem refl (h : Heap) : SameFunctions h h := of_bodies fun _ _ hb => hb

theorem trans (h1 : SameFunctions h h') (h2 : SameFunctions h' h'') : SameFunctions h h'' := by
  intro r c'' hc''
  obtain ⟨c', hc', hp'⟩ := h2 r c'' hc''
  obtain ⟨c, hc, hp⟩ := h1 r c' hc'
  exact ⟨c, hc, hp'.trans hp⟩

theorem releaseRefs (h : Heap) (rs : List Ref) : SameFunctions h (h.releaseRefs rs) :=
  of_bodies fun _ _ hb => (trims_releaseRefs h rs).body? hb

theorem release (h : Heap) (v : Value) : SameFunctions h (h.release v) := by
  unfold Heap.release
  split
  · exact releaseRefs h _
  · exact refl h

theorem releaseAll (h : Heap) (vs : List Value) : SameFunctions h (h.releaseAll vs) := by
  induction vs generalizing h with
  | nil => exact refl h
  | cons v vs ih => exact (release h v).trans (ih _)

theorem retain (h : Heap) (v : Value) : SameFunctions h (h.retain v) :=
  of_bodies fun r b hb => by rwa [body?_retain] at hb

theorem retainAll (h : Heap) (vs : List Value) : SameFunctions h (h.retainAll vs) := by
  induction vs generalizing h with
  | nil => exact refl h
  | cons v vs ih => exact (retain h v).trans (ih _)

theorem setBody (h : Heap) (r : Ref) {b' : Body} (hb : ∀ c', b' = .closure c' →
    ∃ c, h.body? r = some (.closure c) ∧ c'.prototype = c.prototype) :
    SameFunctions h (h.setBody r b') := by
  intro s c' hc'
  rw [closure?_eq_some] at hc'
  cases hr : h.body? r with
  | none =>
    have hsame : (h.setBody r b').body? s = h.body? s := by
      rw [show h.setBody r b' = h.modifyBody r fun _ => b' from rfl,
        modifyBody_same fun b hb => by rw [hr] at hb; cases hb]
    exact ⟨c', closure?_eq_some.2 (hsame ▸ hc'), rfl⟩
  | some b =>
    rw [body?_setBody hr] at hc'
    split at hc'
    · rename_i hs
      obtain ⟨c, hc, hp⟩ := hb c' (Option.some.inj hc')
      exact ⟨c, closure?_eq_some.2 (hs ▸ hc), hp⟩
    · exact ⟨c', closure?_eq_some.2 hc', rfl⟩

theorem closeOuter (h : Heap) (r : Ref) (v : Value) : SameFunctions h (h.closeOuter r v) :=
  (setBody h r fun _ hc => by cases hc).trans (release _ _)

theorem clear (h : Heap) (r : Ref) : SameFunctions h (h.clear r) := by
  unfold Heap.clear
  cases hr : h.body? r with
  | none => exact refl h
  | some b =>
    refine (setBody h r fun c' hc' => ?_).trans (releaseRefs _ _)
    cases b with
    | closure c =>
      cases hc'
      exact ⟨c, hr, rfl⟩
    | content | weak | array | dict | native | classObject | instanceObject | outer => cases hc'

theorem freeAll (h : Heap) (rs : List Ref) : SameFunctions h (h.freeAll rs) := by
  have hclear : ∀ (gs : List Ref) (h : Heap), SameFunctions h (gs.foldl Heap.clear h) := by
    intro gs
    induction gs with
    | nil => exact refl
    | cons g gs ih => exact fun h => (clear h g).trans (ih _)
  have hretain : ∀ (rs : List Ref) (h : Heap), SameFunctions h (h.retainRefs rs) := by
    intro rs
    induction rs with
    | nil => exact refl
    | cons r rs ih =>
      exact fun h => (of_bodies fun s b hb => by rwa [body?_retainRef] at hb).trans (ih _)
  exact (hretain rs h).trans ((hclear rs _).trans (releaseRefs _ _))

/-- A collection leaves no function with other instructions. -/
theorem maybeCollect (h : Heap) : SameFunctions h h.maybeCollect := by
  unfold Heap.maybeCollect
  split
  · exact (refl h).trans (freeAll { h with chain := _ } _)
  · exact refl h

theorem closeWithin (slot : Nat) (stack : Array Value) (fuel : Nat) (h : Heap) (cells : Array Ref)
    (closed : Nat) :
    SameFunctions h (OpenOuters.closeWithin slot stack fuel h cells closed).2.2 := by
  induction fuel generalizing h cells closed with
  | zero => exact refl h
  | succ fuel ih =>
    unfold OpenOuters.closeWithin
    split
    · exact refl h
    · split
      · exact (releaseRefs h _).trans (ih _ _ _)
      · split
        · exact refl h
        · exact (retain h _).trans ((closeOuter _ _ _).trans ((releaseRefs _ _).trans (ih _ _ _)))

end SameFunctions

end Heap

namespace Exec

open Regime

variable {m m' : Machine}

/-! ## Binding arguments -/

theorem takeSlots_inRange (start count : Nat) (hin : start + count ≤ m.stack.size) :
    ∃ vs m', takeSlots start count m = .ok vs m' ∧ m'.stack.size = m.stack.size := by
  induction count generalizing start m with
  | zero => exact ⟨[], m, rfl, rfl⟩
  | succ count ih =>
    obtain ⟨v, hv⟩ : ∃ v, m.stack[start]? = some v := ⟨_, Array.getElem?_eq_getElem (by omega)⟩
    have hsize : (m.stack.setIfInBounds start .null).size = m.stack.size :=
      Array.size_setIfInBounds
    obtain ⟨vs, m', heq, hsize'⟩ := ih (m := { m with stack := m.stack.setIfInBounds start .null })
      (start + 1) (by rw [hsize]; omega)
    refine ⟨v :: vs, m', ?_, hsize'.trans hsize⟩
    unfold takeSlots
    rw [bind_ok m (takeSlot_found hv)]
    simp only
    rw [bind_ok _ heq]
    rfl

theorem fillSlots_contained {start : Nat} {vs : List Value}
    (hin : start + vs.length ≤ m.stack.size) : onStack.AllowsAt (fillSlots start vs) m := by
  induction vs generalizing start m with
  | nil => exact Allows.pure () m
  | cons v vs ih =>
    rw [List.length_cons] at hin
    obtain ⟨m1, heq, hsize⟩ := writeSlot_inRange (m := m.withHeap (m.heap.retain v)) v
      (j := start) (by rw [Machine.withHeap_stack]; omega)
    rw [Machine.withHeap_stack] at hsize
    exact .next (retain_eq m v) trivial (.next heq trivial (ih (by omega)))

theorem packArguments_contained {p : Prototype} {base count : Nat}
    (hin : base + count ≤ m.stack.size) (hplace : base + (p.parameters.length - 1) < m.stack.size) :
    onStack.AllowsAt (packArguments p base count) m := by
  unfold packArguments
  dsimp only
  split
  · exact Allows.fail _ m
  · obtain ⟨vs, m1, heq, hsize⟩ := takeSlots_inRange (m := m)
      (base + (p.parameters.length - 1)) (count - (p.parameters.length - 1)) (by omega)
    obtain ⟨m2, heq2, -⟩ := writeSlot_inRange
      (m := m1.withHeap (m1.heap.newArray vs.toArray).2) (m1.heap.newArray vs.toArray).1
      (j := base + (p.parameters.length - 1)) (by rw [Machine.withHeap_stack]; omega)
    exact .next heq trivial (.next (heap_eq m1 _) trivial (.next heq2 trivial (Allows.pure _ m2)))

/-- The arguments are bound within a frame, unless there is no slot for the array
that they are packed into. -/
theorem bindArguments_contained {p : Prototype} {defaults : List Value} {base count : Nat}
    (hin : frameTop p base count ≤ m.stack.size)
    (hplace : ¬ (p.Placeless ∧ count = 0 ∧ m.stack.size ≤ base)) :
    onStack.AllowsAt (bindArguments p defaults base count) m := by
  unfold frameTop at hin
  unfold bindArguments
  split
  case isTrue hvar =>
    refine packArguments_contained (by omega) ?_
    by_contra hout
    refine hplace ⟨⟨hvar, List.length_eq_zero_iff.1 ?_, ?_⟩, ?_, ?_⟩ <;> omega
  case isFalse =>
    split
    · unfold fillDefaults
      dsimp only
      split
      · exact Allows.fail _ m
      · refine (fillSlots_contained ?_).bind fun _ m1 _ => Allows.pure _ m1
        rw [List.length_drop]
        omega
    · exact Allows.pure _ m

/-- A function is entered within the stack, or it has no slot for its arguments. -/
theorem pushFrame_contained {r : Ref} {base count : Nat} {target : Option Nat} {root : Bool}
    (hplace : ∀ c, m.heap.closure? r = some c →
      ¬ (c.prototype.Placeless ∧ count = 0 ∧ m.stack.size ≤ base)) :
    onStack.AllowsAt (pushFrame r base count target root) m := by
  refine .handing ?_
  refine .reading (t := anyTerms) checkDepth_reads fun _ _ => ?_
  refine .next (updateHeap_eq m _) trivial (.next (a := (m.heap.maybeCollect).closure? r) rfl trivial ?_)
  split
  · exact Allows.malformed _ _
  · rename_i c hc
    obtain ⟨c', hc', hp⟩ := Heap.SameFunctions.maybeCollect m.heap r c hc
    refine .next (heightBelow_eq base root _) trivial (.next (growTo_eq _ _) trivial ?_)
    generalize hgrown : (m.withHeap m.heap.maybeCollect).pushed _ = m2
    have hsize : m2.stack.size =
        m.stack.size + (frameTop c.prototype base count - m.stack.size) := by
      rw [← hgrown, Machine.size_pushed, List.length_replicate, Machine.withHeap_stack]
    refine (bindArguments_contained (by omega) fun ⟨hless, hzero, hout⟩ => ?_).bind
      fun bound m3 _ => ((nullSlots_allowed _ _ fun _ _ => trivial).bind fun _ => onStack_modify _) m3
    exact hplace c' hc' ⟨hp ▸ hless, hzero, by omega⟩

/-! ## Call instructions -/

section

variable {call : Caller} {base : Nat} {i : Instruction}

/-- The register of the callee holds a function that has no slot for arguments, and
none are passed. -/
def CallsPlaceless (m : Machine) (base : Nat) (i : Instruction) : Prop :=
  i.arg3 = 0 ∧ ∃ c o, m.stack[base + i.arg1.toInt.toNat]? = some (.closure c) ∧
    m.heap.closure? c = some o ∧ o.prototype.Placeless

theorem noArguments {arg : Int64} (hpos : 0 ≤ arg) (hzero : arg.toInt.toNat = 0) : arg = 0 := by
  have h0 : (0 : Int64).toInt ≤ arg.toInt := Int64.le_iff_toInt_le.1 hpos
  have hz : (0 : Int64).toInt = 0 := rfl
  exact Int64.toInt_inj.1 (by omega)

theorem callInstruction_contained (hc : onStack.AllowsCalls call)
    (hplace : CallsPlaceless m base i → base + i.arg2.toInt.toNat < m.stack.size) :
    onStack.AllowsAt (callInstruction call base i) m := by
  refine .reading (register_found base i.arg1) ?_
  rintro callee ⟨-, hcallee⟩
  refine .reading (t := anyTerms) (registerSlot_reads False.elim) ?_
  rintro start ⟨-, rfl⟩
  refine .reading (t := anyTerms) (indexArg_reads False.elim) ?_
  rintro count ⟨hpos, rfl⟩
  refine .reading (t := anyTerms) (resultSlot_reads False.elim) fun target _ => ?_
  split
  · rename_i c
    refine .next (show stackSize m = .ok m.stack.size m from rfl) trivial ?_
    split
    · refine .next (retain_eq m _) trivial (pushFrame_contained fun o ho ⟨hless, hzero, hout⟩ => ?_)
      rw [Machine.withHeap_heap] at ho
      obtain ⟨o', ho', hp⟩ := Heap.SameFunctions.retain m.heap _ c o ho
      have hlt := hplace ⟨noArguments hpos hzero, c, o', hcallee, ho', hp ▸ hless⟩
      exact absurd hout (Nat.not_le.2 hlt)
    · exact Allows.malformed _ m
  · exact callForeign_allowed hc (fun _ _ => trivial) _ _ _ _ m

/-- When a frame gives way to a callee without arguments, functions stay what they are. -/
theorem vacated_sameFunctions (base : Nat) (c : Ref) (n : Nat) :
    Heap.SameFunctions m.heap ((vacated base c [] m).cut n).heap :=
  (Heap.SameFunctions.retainAll _ _).trans ((Heap.SameFunctions.closeWithin _ _ _ _ _ _).trans
    (Heap.SameFunctions.releaseAll _ _))

theorem tailCallInstruction_contained {f : Frame} {rest : List Frame}
    (hc : onStack.AllowsCalls call) (hf : m.frames = f :: rest)
    (hplace : CallsPlaceless m base i → base < f.prevTop) :
    onStack.AllowsAt (tailCallInstruction call base i) m := by
  refine .reading (register_found base i.arg1) ?_
  rintro callee ⟨-, hcallee⟩
  split
  · rename_i c
    refine .reading (t := anyTerms) (registerSlot_reads False.elim) ?_
    rintro start ⟨-, rfl⟩
    refine .reading (t := anyTerms) (indexArg_reads False.elim) ?_
    rintro count ⟨hpos, rfl⟩
    refine .reading (window_found _ _) fun args ⟨hwindow, hlen⟩ => ?_
    refine .next (currentFrame_eq hf) trivial ?_
    obtain ⟨m1, hplaced, hvacate, -, hsize, -⟩ := vacate_found (m := m) base f c args (by omega)
    refine .next hvacate trivial (.bind (onStack_restoring (pushFrame_contained fun o ho ⟨hless, hzero, hout⟩ => ?_))
      fun _ m2 _ => ((onStack_modify _).bind fun _ => .release _) m2)
    cases List.eq_nil_of_length_eq_zero (hlen.trans hzero)
    cases hplaced
    obtain ⟨o', ho', hp⟩ := vacated_sameFunctions base c _ c o ho
    rw [Machine.size_cut, hsize, List.length_nil] at hout
    have hlt := hplace ⟨noArguments hpos hzero, c, o', hcallee, ho', hp ▸ hless⟩
    have hbase := (Array.getElem?_eq_some_iff.1 hcallee).1
    omega
  · rename_i hother
    refine callInstruction_contained hc fun ⟨_, c, _, hslot, _⟩ => ?_
    rw [hcallee] at hslot
    exact absurd (Option.some.inj hslot) (hother c)

end

/-! ## One instruction -/

theorem leaveFrame_contained (f : Frame) (rest : List Frame) : onStack.Allows (leaveFrame f rest) :=
  fun m => .of_ok (leaveFrame_eq f rest m) trivial

theorem returnFromFrame_contained (v : Value) : onStack.Allows (returnFromFrame v) := by
  refine Allows.get.bind fun m => ?_
  cases m.frames with
  | nil => exact (Allows.release v).bind fun _ => .malformed _
  | cons f rest =>
    refine (leaveFrame_contained f rest).bind fun _ => ?_
    split
    · exact (Allows.release _).bind fun _ => .pure _
    · split
      · exact (Allows.release _).bind fun _ => (Allows.release v).bind fun _ => .pure _
      · refine (writeSlot_allowed v trivial).bind fun written => ?_
        split
        · exact (Allows.release _).bind fun _ => .pure _
        · exact (Allows.release _).bind fun _ => (Allows.release v).bind fun _ => .malformed _

theorem setOuterInstruction_contained {base : Nat} {i : Instruction} :
    onStack.Allows (setOuterInstruction base i) :=
  (outerCell_allowed i.arg1).bind fun _ => (register_allowed base i.arg2).bind fun _ =>
    (Allows.retainAll _).bind fun _ => (onStack_modify _).bind fun _ =>
      setOptional_allowed base i.arg0 _ fun _ _ => trivial

end Exec

/-- The instruction at hand enters a function that has no slot for its arguments,
where the stack ends: the arguments of a call lie above all registers, or a tail
call leaves a frame that was entered at the end of the stack. -/
def Machine.EntersPlaceless (m : Machine) : Prop :=
  ∃ f rest i, m.frames = f :: rest ∧ f.prototype.code[f.ip]? = some i ∧
    Exec.CallsPlaceless m f.base i ∧
    (i.opcode = .call ∧ m.stack.size ≤ f.base + i.arg2.toInt.toNat ∨
      i.opcode = .tailCall ∧ f.prevTop ≤ f.base)

/-- A function that has no slot for its arguments is entered at the end of the
stack. -/
def Moment.EntersPlaceless : Moment → Machine → Prop
  | .call (.closure c) [], m => ∃ o, m.heap.closure? c = some o ∧ o.prototype.Placeless
  | .fetch, m => m.EntersPlaceless
  | _, _ => False

namespace Exec

open Regime

variable {m m' : Machine}

theorem step_contained {call : Caller} (hc : onStack.AllowsCalls call)
    (hplace : ¬ m.EntersPlaceless) : onStack.AllowsAt (step call) m := by
  cases hint : m.interrupted with
  | true =>
    exact .bind (Leads.of_fail ((checkInterrupt_eq m).trans (if_pos hint)) trivial) fun _ m1 he => by
      rw [checkInterrupt_eq, if_pos hint] at he
      cases he
  | false =>
    refine .next ((checkInterrupt_eq m).trans (if_neg (by simp [hint]))) trivial ?_
    cases hf : m.frames with
    | nil =>
      refine .bind (currentFrame_allowed m) fun f m1 hcurrent => ?_
      unfold currentFrame at hcurrent
      rw [bind_ok m (show (get : Exec Machine) m = .ok m m from rfl), hf] at hcurrent
      cases hcurrent
    | cons f rest =>
      refine .next (currentFrame_eq hf) trivial ?_
      cases hcode : f.prototype.code[f.ip]? with
      | none => exact returnFromFrame_contained .null m
      | some i =>
        refine .next (setIp_eq (f.ip + 1) hf) trivial ?_
        split
        · have hvalue : onStack.Allows (returnedValue f.base i.arg0) := by
            unfold returnedValue
            split
            · exact (register_allowed f.base i.arg0).bind fun v => sharing_allowed v
            · exact .pure Value.null
          exact hvalue.bind (fun v => returnFromFrame_contained v) _
        · refine .bind (effect_allowed hc (fun _ _ => trivial) (fun _ _ _ _ _ => trivial) (fun _ => ?_)
            (fun hop => callInstruction_contained hc fun hless => ?_)
            fun hop => tailCallInstruction_contained (f := { f with ip := f.ip + 1 }) hc rfl
              fun hless => ?_) fun _ m1 _ => Allows.pure _ m1
          · exact setOuterInstruction_contained _
          · by_contra hout
            exact hplace ⟨f, rest, i, hf, hcode, hless, .inl ⟨hop, Nat.le_of_not_lt hout⟩⟩
          · by_contra hout
            exact hplace ⟨f, rest, i, hf, hcode, hless, .inr ⟨hop, Nat.le_of_not_lt hout⟩⟩

/-! ## The run -/

theorem unwind_contained (e : ScriptError) : onStack.Allows (unwind e) := by
  have hframes : ∀ (fs : List Frame) (e : ScriptError), onStack.Allows (unwindFrames fs e) := by
    intro fs
    induction fs with
    | nil => exact Allows.pure
    | cons f rest ih =>
      intro e
      refine (leaveFrame_contained f rest).bind fun _ => (Allows.release _).bind fun _ => ?_
      dsimp only
      split
      · exact .pure _
      · exact ih _
  exact Allows.get.bind fun m => hframes m.frames e

theorem executeWith_contained {call : Caller} {again : Exec Value}
    (hc : onStack.AllowsCalls call) (hagain : onStack.Allows again)
    (hplace : ¬ m.EntersPlaceless) : onStack.AllowsAt (executeWith call again) m := by
  refine onStack_iff.2 fun m' he => ?_
  unfold executeWith at he
  cases hstep : step call m with
  | ok flow m1 =>
    rw [hstep] at he
    cases flow with
    | next => exact onStack_iff.1 (hagain m1) m' he
    | finished v => cases he
  | error fault m1 =>
    rw [hstep] at he
    cases fault with
    | script e => exact onStack_iff.1 (((unwind_contained e).bind fun e => .fail e) m1) m' he
    | outsideStack => exact onStack_iff.1 (step_contained hc hplace) m1 hstep
    | outOfSteps => cases he

theorem enter_contained {c : Ref} {args : List Value}
    (hplace : ¬ (Moment.call (.closure c) args).EntersPlaceless m) :
    onStack.AllowsAt (enter c args) m := by
  unfold enter
  refine .next (show stackSize m = .ok m.stack.size m from rfl) trivial
    (.next (pushValues_eq m args) trivial (.next (retain_eq _ _) trivial ?_))
  have hpush : onStack.AllowsAt (pushFrame c m.stack.size args.length none true)
      ((m.pushed args).withHeap ((m.pushed args).heap.retain (.closure c))) := by
    refine pushFrame_contained fun o ho ⟨hless, hzero, _⟩ => hplace ?_
    obtain ⟨o', ho', hp⟩ := Heap.SameFunctions.retain m.heap _ c o ho
    cases List.eq_nil_of_length_eq_zero hzero
    exact ⟨o', ho', hp ▸ hless⟩
  refine onStack_of_fault hpush fun m1 he => ?_
  cases hact : pushFrame c m.stack.size args.length none true
      ((m.pushed args).withHeap ((m.pushed args).heap.retain (.closure c))) with
  | ok a m2 => cases he.symm.trans (cuttingBack_ok _ hact)
  | error e m2 =>
    cases he.symm.trans (cuttingBack_error _ hact)
    exact ⟨m2, rfl⟩

theorem callWith_contained {execute : Exec Value} {run : Routine → Exec Value} {call : Caller}
    {callee : Value} {args : List Value} (hexecute : onStack.Allows execute)
    (hrun : ∀ r, onStack.Allows (run r)) (hc : onStack.AllowsCalls call)
    (hplace : ¬ (Moment.call callee args).EntersPlaceless m) :
    onStack.AllowsAt (callWith execute run call callee args) m := by
  refine callWith_allowed hc hrun ?_
  rintro c rfl
  exact (enter_contained hplace).bind fun _ m1 _ => hexecute m1

/-- Gives the run up when a function that has no slot for its arguments is entered
at the end of the stack. -/
def placeWatch : Watch := ⟨fun k m => ¬ k.EntersPlaceless m, throw .outOfSteps⟩

theorem guard_contained {k : Moment} {act : Exec Value}
    (hact : ¬ k.EntersPlaceless m → onStack.AllowsAt act m) : onStack.AllowsAt (placeWatch.guard k act) m := by
  refine onStack_iff.2 fun m' he => ?_
  unfold Watch.guard at he
  split at he
  · exact onStack_iff.1 (hact ‹_›) m' he
  · cases he

theorem watched_contained (steps : Nat) :
    (∀ callee args, onStack.Allows (callWatched placeWatch steps callee args)) ∧
      onStack.Allows (executeWatched placeWatch steps) := by
  induction steps with
  | zero =>
    refine ⟨fun callee args m => onStack_iff.2 fun m' he => ?_, fun m => onStack_iff.2 fun m' he => ?_⟩
    · rw [callWatched] at he
      cases he
    · rw [executeWatched] at he
      cases he
  | succ steps ih =>
    obtain ⟨hcall, hexecute⟩ := ih
    refine ⟨fun callee args m => ?_, fun m => ?_⟩
    · rw [callWatched]
      exact guard_contained fun hplace => callWith_contained hexecute
        (fun r m => guard_contained fun _ => perform_allowed hcall [] r m) hcall hplace
    · rw [executeWatched]
      exact guard_contained fun hplace => executeWith_contained hcall hexecute hplace

/-- A run reaches outside the stack in one way only: when it enters a function that
takes any number of arguments, but names no parameter and has no register, without
an argument and at the end of the stack. -/
theorem outside_only_placeless {steps : Nat} {callee : Value} {args : List Value}
    (h : callValue steps callee args m = .error .outsideStack m') :
    Sometime steps callee args m Moment.EntersPlaceless := by
  intro hnever
  have hrun := hnever (throw .outOfSteps)
  exact onStack_iff.1 ((watched_contained steps).1 callee args m) m' (hrun.trans h)

/-! ## Such a function -/

def spilled : Prototype where
  name := "f"
  parameters := []
  stackSize := 0
  varargs := true
  code := #[{ opcode := .ret, arg0 := absent }]

/-- Calls it without arguments above all registers. -/
def spilling : Prototype where
  name := "main"
  stackSize := 2
  functions := [spilled]
  code := #[{ opcode := .closure }, { opcode := .call, arg0 := 1, arg2 := 2 },
    { opcode := .ret, arg0 := 1 }]

def isOutside {α : Type} : EStateM.Result Fault Machine α → Bool
  | .error .outsideStack _ => true
  | _ => false

theorem outside_of_isOutside {α : Type} {r : EStateM.Result Fault Machine α}
    (h : isOutside r = true) : ∃ m', r = .error .outsideStack m' := by
  unfold isOutside at h
  split at h
  · exact ⟨_, rfl⟩
  · cases h

def spillingClosure : Ref × Heap := (Machine.create {}).heap.newClosure spilling [] []

/-- A new machine with a closure of that caller. -/
def spillingHome : Machine := (Machine.create {}).withHeap spillingClosure.2

theorem outside_only_placeless_spilling :
    ∃ m', callValue 5 (.closure spillingClosure.1) [.null] spillingHome = .error .outsideStack m' ∧
      Sometime 5 (.closure spillingClosure.1) [.null] spillingHome Moment.EntersPlaceless := by
  obtain ⟨m', h⟩ := outside_of_isOutside (r := callValue 5 (.closure spillingClosure.1) [.null]
    spillingHome) (by decide +kernel)
  exact ⟨m', h, outside_only_placeless h⟩

/-- Not every function stays within the stack. -/
theorem spilling_leaves_stack :
    ¬ ∀ (p : Prototype) (m' : Machine), run p (.create {}) ≠ .error .outsideStack m' := by
  intro h
  obtain ⟨m', hrun⟩ := outside_of_isOutside (r := run spilling (.create {})) (by decide +kernel)
  exact h spilling m' hrun

end Exec

end ScriptMachine
