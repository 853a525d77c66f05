import ScriptMachine.Proofs.Machine.Binding
import ScriptMachine.Proofs.Machine.Isolation
import ScriptMachine.Proofs.Machine.Reachable
import ScriptMachine.Proofs.Machine.Variables

/-!
# Calls in place of a function

A function that is called in place of another takes the seat of that one, and finds
there the registers that a call would have given it on top of the stack. A refused
callee leaves the old function in its seat, with the error of a call.
-/

set_option autoImplicit false

namespace ScriptMachine

namespace OpenOuters

theorem size_closeWithin (slot : Nat) (stack : Array Value) (fuel : Nat) (h : Heap)
    (cells : Array Ref) (closed : Nat) :
    (closeWithin slot stack fuel h cells closed).2.2.cells.size = h.cells.size := by
  induction fuel generalizing h cells closed with
  | zero => rfl
  | succ fuel ih =>
    unfold closeWithin
    split
    · rfl
    split
    · rw [ih]
      exact (Heap.trims_releaseRefs h _).size
    · split
      · rfl
      · rw [ih]
        refine (Heap.trims_releaseRefs _ _).size.trans ?_
        rename_i i _ _
        refine Eq.trans ?_ (Heap.trims_retain h ((stack[i]?).getD .null)).size
        exact (Heap.trims_release _ _).size.trans (Heap.size_modifyCell ..)

end OpenOuters

/-- The frame with another instruction to execute next. -/
def Frame.recode (f : Frame) (i : Instruction) : Frame :=
  { f with prototype := { f.prototype with code := f.prototype.code.setIfInBounds f.ip i } }

namespace Machine

/-- The machine with another instruction at hand. -/
def recode (m : Machine) (i : Instruction) : Machine :=
  match m.frames with
  | f :: rest => m.withFrames (f.recode i :: rest)
  | [] => m

/-- The instruction at hand calls a script function in place of the current one. -/
structure TailCallsAt (m : Machine) (f : Frame) (rest : List Frame) (i : Instruction) (r : Ref) :
    Prop where
  frames : m.frames = f :: rest
  code : f.prototype.code[f.ip]? = some i
  opcode : i.opcode = .tailCall
  named : 0 ≤ i.arg1
  callee : m.stack[f.base + i.arg1.toInt.toNat]? = some (.closure r)

/-- The slot that is to receive a result is there, or no result is wanted. -/
def Receives (m : Machine) (base : Nat) (r : Int64) : Prop :=
  isPresent r = true → 0 ≤ r ∧ base + r.toInt.toNat < m.stack.size

/-- The arguments that an instruction names. -/
def named (m : Machine) (base : Nat) (i : Instruction) : List Value :=
  (m.stack.extract (base + i.arg2.toInt.toNat)
    (base + i.arg2.toInt.toNat + i.arg3.toInt.toNat)).toList

end Machine

namespace Exec

/-- Why a function is not entered, whatever the depth. -/
inductive CallRefused (height base : Nat) (i : Instruction) (c : ClosureObject) : ScriptError → Prop
  | start (h : i.arg2 < 0) : CallRefused height base i c
      ⟨.compile, "invalid register " ++ Decimal.integer i.arg2, []⟩
  | count (hstart : 0 ≤ i.arg2) (h : i.arg3 < 0) : CallRefused height base i c
      ⟨.compile, "invalid argument count " ++ Decimal.integer i.arg3, []⟩
  | window (hstart : 0 ≤ i.arg2) (hcount : 0 ≤ i.arg3)
      (h : height < base + i.arg2.toInt.toNat + i.arg3.toInt.toNat) :
      CallRefused height base i c ⟨.compile, "call arguments out of range", []⟩
  | arguments (hstart : 0 ≤ i.arg2) (hcount : 0 ≤ i.arg3)
      (hin : base + i.arg2.toInt.toNat + i.arg3.toInt.toNat ≤ height)
      (h : ¬ c.prototype.Accepts c.defaults i.arg3.toInt.toNat) :
      CallRefused height base i c (wrongArgumentCount c.prototype i.arg3.toInt.toNat)

variable {t : Terms} {own : List Value} {m : Machine} {c : ClosureObject} {r : Ref}
variable {f : Frame} {rest : List Frame} {i : Instruction} {call : Caller} {base : Nat}

/-! ## Operands -/

theorem registerSlot_negative {arg : Int64} (h : arg < 0) : registerSlot base arg m =
    .error (.script ⟨.compile, "invalid register " ++ Decimal.integer arg, []⟩) m := by
  unfold registerSlot
  rw [if_pos h]
  rfl

theorem registerSlot_named {arg : Int64} (h : 0 ≤ arg) :
    registerSlot base arg m = .ok (base + arg.toInt.toNat) m := by
  unfold registerSlot
  rw [if_neg (Int64.not_lt.2 h)]
  rfl

theorem indexArg_negative {arg : Int64} (h : arg < 0) (what : String) : indexArg arg what m =
    .error (.script ⟨.compile, "invalid " ++ what ++ " " ++ Decimal.integer arg, []⟩) m := by
  unfold indexArg
  rw [if_pos h]
  rfl

theorem indexArg_named {arg : Int64} (h : 0 ≤ arg) (what : String) :
    indexArg arg what m = .ok arg.toInt.toNat m := by
  unfold indexArg
  rw [if_neg (Int64.not_lt.2 h)]
  rfl

theorem register_named {arg : Int64} {v : Value} (h : 0 ≤ arg)
    (hv : m.stack[base + arg.toInt.toNat]? = some v) : register base arg m = .ok v m := by
  unfold register
  rw [bind_ok m (registerSlot_named h), bind_ok m (show slot? _ m = .ok (some v) m by rw [← hv]; rfl)]
  rfl

theorem resultSlot_received {arg : Int64} (h : m.Receives base arg) :
    resultSlot base arg m = .ok (slotOf base arg) m := by
  unfold resultSlot slotOf
  split
  · rename_i hp
    obtain ⟨hpos, hlt⟩ := h hp
    rw [bind_ok m (registerSlot_named hpos),
      bind_ok m (show stackSize m = .ok m.stack.size m from rfl), if_pos hlt]
    rfl
  · rfl

theorem resultSlot_missing {arg : Int64} (h : ¬ m.Receives base arg) :
    ∃ e, resultSlot base arg m = .error (.script e) m := by
  obtain ⟨hp, hout⟩ := Classical.not_imp.1 h
  unfold resultSlot
  rw [if_pos hp]
  by_cases hneg : arg < 0
  · exact ⟨_, bind_error m (registerSlot_negative hneg)⟩
  · have hpos := Int64.not_lt.1 hneg
    rw [bind_ok m (registerSlot_named hpos),
      bind_ok m (show stackSize m = .ok m.stack.size m from rfl),
      if_neg fun hlt => hout ⟨hpos, hlt⟩]
    exact ⟨_, rfl⟩

/-! ## The call -/

theorem step_interrupted (hint : m.interrupted = true) : step call m =
    .error (.script ⟨.interrupted, "execution interrupted", []⟩) { m with interrupted := false } := by
  unfold step
  rw [bind_error m ((checkInterrupt_eq m).trans (if_pos hint))]

theorem step_effect (hint : m.interrupted = false) (hf : m.frames = f :: rest)
    (hi : f.prototype.code[f.ip]? = some i) (hop : i.opcode ≠ .ret) : step call m =
      (do effect call f.base i; return Flow.next) (m.withFrames ({ f with ip := f.ip + 1 } :: rest)) := by
  unfold step
  rw [bind_ok m ((checkInterrupt_eq m).trans (if_neg (by simp [hint]))),
    bind_ok m (currentFrame_eq hf), hi]
  simp only
  rw [bind_ok m (setIp_eq (f.ip + 1) hf), if_neg hop]

/-- A call of a function that is refused fails, and says why unless it failed before. -/
theorem callInstruction_refused (call : Caller) {e : ScriptError} {l : Law} {owned : Multiset Value}
    (hb : m.heap.Backs l owned) (hcallee : register base i.arg1 m = .ok (.closure r) m)
    (hr : m.heap.Has (.closure r)) (hc : m.heap.closure? r = some c)
    (h : CallRefused m.stack.size base i c e) :
    ∃ e' m', callInstruction call base i m = .error (.script e') m' ∧
      (m.Receives base i.arg0 → m.HasRoom → e' = e) := by
  unfold callInstruction
  rw [bind_ok m hcallee]
  cases h with
  | start h => exact ⟨_, m, bind_error m (registerSlot_negative h), fun _ _ => rfl⟩
  | count hstart h =>
    rw [bind_ok m (registerSlot_named hstart)]
    exact ⟨_, m, bind_error m (indexArg_negative h _), fun _ _ => rfl⟩
  | window hstart hcount h =>
    rw [bind_ok m (registerSlot_named hstart), bind_ok m (indexArg_named hcount _)]
    by_cases hreceives : m.Receives base i.arg0
    swap
    · obtain ⟨e, he⟩ := resultSlot_missing hreceives
      exact ⟨e, m, bind_error m he, fun hre => absurd hre hreceives⟩
    rw [bind_ok m (resultSlot_received hreceives)]
    simp only
    rw [bind_ok m (show stackSize m = .ok m.stack.size m from rfl), if_neg (Nat.not_le.2 h)]
    exact ⟨_, m, rfl, fun _ _ => rfl⟩
  | arguments hstart hcount hin h =>
    rw [bind_ok m (registerSlot_named hstart), bind_ok m (indexArg_named hcount _)]
    by_cases hreceives : m.Receives base i.arg0
    swap
    · obtain ⟨e, he⟩ := resultSlot_missing hreceives
      exact ⟨e, m, bind_error m he, fun hre => absurd hre hreceives⟩
    rw [bind_ok m (resultSlot_received hreceives)]
    simp only
    rw [bind_ok m (show stackSize m = .ok m.stack.size m from rfl), if_pos hin,
      bind_ok m (retain_eq m _)]
    have hb1 := (hb.retain hr).backs
    have hc1 : (m.withHeap (m.heap.retain (.closure r))).heap.closure? r = some c := by
      rw [Heap.closure?_eq_some] at hc ⊢
      rw [Machine.withHeap_heap, Heap.body?_retain]
      exact hc
    by_cases hroom : m.HasRoom
    · obtain ⟨m1, heq, -⟩ := pushFrame_refused (base + i.arg2.toInt.toNat) (slotOf base i.arg0)
        false hb1 hc1 hroom h
      exact ⟨_, m1, heq, fun _ _ => rfl⟩
    · obtain ⟨m1, heq, -⟩ := pushFrame_full (m := m.withHeap (m.heap.retain (.closure r))) r
        (base + i.arg2.toInt.toNat) i.arg3.toInt.toNat (slotOf base i.arg0) false hroom
      exact ⟨_, m1, heq, fun _ h => absurd h hroom⟩

/-! ## The call in place -/

/-- Placing values makes no objects. -/
theorem placeSlots_objects {m' : Machine} (start : Nat) (vs : List Value)
    (h : placeSlots start vs m = .ok () m') : m'.heap.cells.size = m.heap.cells.size := by
  induction vs generalizing start m with
  | nil =>
    cases h
    rfl
  | cons v vs ih =>
    unfold placeSlots at h
    cases hslot : m.stack[start]? with
    | none =>
      rw [bind_ok m (writeSlot_missing v hslot)] at h
      cases h
    | some old =>
      rw [bind_ok m (writeSlot_found v hslot)] at h
      exact (ih (start + 1) h).trans (Heap.trims_release m.heap old).size

/-- The stack is cleared for a function to be entered in place of another. -/
structure Vacated (t : Terms) (own : List Value) (f : Frame) (rest : List Frame) (r : Ref)
    (args : List Value) (m m' : Machine) : Prop extends
    m'.Tidy t (.closure r :: .closure f.closure :: own),
    Machine.Follows t (entryReach f.base) m m' where
  frames : m'.frames = rest
  height : f.base + args.length ≤ m'.stack.size
  window : (m'.stack.extract f.base (f.base + args.length)).toList = args
  below : ∀ j < f.base, m'.stack[j]? = m.stack[j]?
  objects : m'.heap.cells.size = m.heap.cells.size
  states : ∀ d st st', m.heap.outerState? d = some st → m'.heap.outerState? d = some st' →
    st' = OpenOuters.settled f.base m.stack st

theorem vacate_clears {args : List Value} (hm : m.Tidy t own) (hf : m.frames = f :: rest)
    (hr : m.heap.Has (.closure r)) (ha : ∀ v ∈ args, m.heap.Has v)
    (hin : f.base + args.length ≤ m.stack.size) :
    ∃ m', vacate f f.base r args m = .ok () m' ∧ Vacated t own f rest r args m m' := by
  obtain ⟨m', heq, htidy, hfollows, hframes, hsize⟩ := vacate_spec hm hf hr ha hin
  obtain ⟨m1, hplace, hvacate, -, hsize1, hbelow1⟩ := vacate_found (m := m) f.base f r args hin
  rw [heq, EStateM.Result.ok.injEq] at hvacate
  obtain ⟨-, rfl⟩ := hvacate
  obtain ⟨m1', hplace', hturns⟩ := placeSlots_turns (m := vacated f.base r args m) f.base args hin
  rw [hplace, EStateM.Result.ok.injEq] at hplace'
  obtain ⟨-, rfl⟩ := hplace'
  have hstack1 : m1.stack = overlay m.stack f.base args := hturns.stack_eq
  have htrims : m1.heap.Trims (m1.cut (max f.prevTop (f.base + args.length))).heap :=
    Heap.trims_releaseAll _ _
  have hretained : (m.withHeap (m.heap.retainAll (.closure r :: args))).Tidy t
      ((.closure r :: args) ++ own) :=
    (Machine.Within.retainAll (s := .still m .nothing) (.of_start hm)
      (List.forall_mem_cons.2 ⟨hr, ha⟩)).toTidy
  have hcells : (vacated f.base r args m).heap.cells.size = m.heap.cells.size :=
    (OpenOuters.size_closeWithin ..).trans (Heap.trims_retainAll m.heap _).size
  have hcut : ∀ j < f.base + args.length,
      (m1.cut (max f.prevTop (f.base + args.length))).stack[j]? = m1.stack[j]? :=
    fun j hj => shrink_getElem? (by omega)
  refine ⟨_, heq, htidy, hfollows, hframes, by omega, ?_, fun j hj => ?_, ?_, fun d st st' hd hd' => ?_⟩
  · refine List.ext_getElem? fun k => ?_
    by_cases hk : k < args.length
    · rw [getElem?_window hk, hcut _ (by omega), hstack1, overlay_inside hin hk]
    · rw [List.getElem?_eq_none (by rw [length_window (by omega)]; omega),
        List.getElem?_eq_none (by omega)]
  · rw [hcut j (by omega), hbelow1 j hj]
  · exact htrims.size.trans ((placeSlots_objects _ _ hplace).trans hcells)
  · have hlt := Heap.body?_lt (Heap.outerState?_eq_some.1 hd)
    have hlive := hturns.sheds.body d _ (hcells.symm ▸ hlt)
      (htrims.body? (Heap.outerState?_eq_some.1 hd'))
    refine OpenOuters.closeWithin_states m.openOuters.size 0 (Nat.le_refl _) hretained.cells
      hretained.beside (fun _ hv => Machine.slot_mem_beside hv) ?_ (Heap.outerState?_eq_some.2 hlive)
    exact Heap.outerState?_eq_some.2 ((Heap.spares_retainAll m.heap _).body
      (Heap.outerState?_eq_some.1 hd))

/-- A function has taken the seat of another. -/
structure Supplants (c : ClosureObject) (r : Ref) (f : Frame) (rest : List Frame)
    (args : List Value) (m m' : Machine) : Prop where
  frames : m'.frames = ⟨r, c.prototype, 0, f.base, f.prevTop, f.target, f.root⟩ :: rest
  holds : m'.Holds c f.base args ⟨m.heap.cells.size⟩
  below : ∀ j < f.base, m'.stack[j]? = m.stack[j]?
  /-- What is left of the open cells has the values that the slots had. -/
  states : ∀ d st st', m.heap.outerState? d = some st → m'.heap.outerState? d = some st' →
    st' = OpenOuters.settled f.base m.stack st
  opened : ∀ d s, m'.heap.outerState? d = some (.opened s) →
    m.heap.outerState? d = some (.opened s) ∧ s < f.base

theorem window_eq {start count : Nat} (hin : start + count ≤ m.stack.size) :
    window start count m = .ok (m.stack.extract start (start + count)).toList m := by
  unfold window
  rw [bind_ok m (show (get : Exec Machine) m = .ok m m from rfl)]
  rw [if_pos hin]
  rfl

theorem window_short {start count : Nat} (hout : m.stack.size < start + count) :
    window start count m =
      .error (.script ⟨.compile, "call arguments out of range", []⟩) m := by
  unfold window
  rw [bind_ok m (show (get : Exec Machine) m = .ok m m from rfl)]
  rw [if_neg (Nat.not_le.2 hout)]
  rfl

theorem Vacated.hasRoom {args : List Value} {m' : Machine} (hm : m.Tidy t own)
    (hf : m.frames = f :: rest) (hv : Vacated t own f rest r args m m') : m'.HasRoom := by
  have hd := hm.depth
  rw [hf, List.length_cons] at hd
  unfold Machine.HasRoom
  rw [hv.frames, hv.nativeDepth, hv.config]
  omega

/-- An entered callee has the seat once it goes back to the old height. -/
theorem Vacated.supplanted {args : List Value} {m1 m2 : Machine} {prevTop : Nat}
    (hv : Vacated t own f rest r args m m1)
    (he : Entered t (.closure f.closure :: own) r f.base f.target f.root m1 m2)
    (hacc : c.prototype.Accepts c.defaults args.length)
    (hact : Activated r c f.base args f.target prevTop f.root m1 m2) :
    Supplants c r f rest args m ((m2.withFrames
      (⟨r, c.prototype, 0, f.base, f.prevTop, f.target, f.root⟩ :: rest)).withHeap
        (m2.heap.release (.closure f.closure))) := by
  have hframes : m2.frames = ⟨r, c.prototype, 0, f.base, prevTop, f.target, f.root⟩ :: rest := by
    rw [hact.frames, hv.frames]
  have htrims := Heap.trims_release m2.heap (.closure f.closure)
  have hreseated : (m2.withFrames
      (⟨r, c.prototype, 0, f.base, f.prevTop, f.target, f.root⟩ :: rest)).Tidy t
        (.closure f.closure :: own) := he.reframe hframes rfl rfl
  have hstates : ∀ d st st', m.heap.outerState? d = some st →
      (m2.heap.release (.closure f.closure)).outerState? d = some st' →
        st' = OpenOuters.settled f.base m.stack st := by
    intro d st st' hd hd'
    have hlt := Heap.body?_lt (Heap.outerState?_eq_some.1 hd)
    exact hv.states d st st' hd (Heap.outerState?_eq_some.2 (hact.sheds.body d _
      (hv.objects ▸ hlt) (htrims.body? (Heap.outerState?_eq_some.1 hd'))))
  refine ⟨rfl, ?_, fun j hj => (hact.below j hj).trans (hv.below j hj), hstates, fun d s hd => ?_⟩
  · refine holds_of_registers hreseated.release hacc ?_ fun hvar b hb => ?_
    · rw [← hv.objects]
      exact hact.registers
    · rw [← hv.objects] at hb
      exact hact.packed hvar b (htrims.body? hb)
  · have hfollows := (hv.toFollows.trans he.toFollows).trans
      ((Machine.Follows.withFrames _).trans hreseated.follows_release)
    have hopen := (hfollows.opened d s hd).resolve_right id
    have hsettled : .opened s = if s < f.base then OuterState.opened s else _ := hstates d _ _ hopen hd
    refine ⟨hopen, Classical.byContradiction fun hge => ?_⟩
    rw [if_neg hge] at hsettled
    cases hsettled

/-- Nothing stands in the way of entering a function, but for the depth. -/
structure CallFits (height base : Nat) (i : Instruction) (c : ClosureObject) : Prop where
  start : 0 ≤ i.arg2
  count : 0 ≤ i.arg3
  window : base + i.arg2.toInt.toNat + i.arg3.toInt.toNat ≤ height
  accepts : c.prototype.Accepts c.defaults i.arg3.toInt.toNat

/-- The callee supplants the frame that gives way, or is refused and that frame is back. -/
theorem replace_supplants {args : List Value} (hm : m.Tidy t own) (hf : m.frames = f :: rest)
    (hr : m.heap.Has (.closure r)) (hc : m.heap.closure? r = some c)
    (hlive : ∀ v ∈ args, m.heap.Has v) (hin : f.base + args.length ≤ m.stack.size) :
    match (do
      vacate f f.base r args
      restoring (pushFrame r f.base args.length f.target f.root) (pushBack f)
      setPrevTop f.prevTop
      release (.closure f.closure) : Exec Unit) m with
    | .ok _ m' => Supplants c r f rest args m m' ∧ c.prototype.Accepts c.defaults args.length
    | .error (.script e) m' => e = wrongArgumentCount c.prototype args.length ∧
        ¬ c.prototype.Accepts c.defaults args.length ∧ m'.frames = m.frames
    | .error .outsideStack _ => True
    | .error .outOfSteps _ => False := by
  obtain ⟨m1, hvacate, hv⟩ := vacate_clears hm hf hr hlive hin
  have hroom := hv.hasRoom hm hf
  have hc1 := hv.drifts.keeps_closure hc (hv.has List.mem_cons_self)
  rw [bind_ok m hvacate]
  cases hpush : pushFrame r f.base args.length f.target f.root m1 with
  | ok a m2 =>
    obtain ⟨he, hacc, hact⟩ := pushFrame_entered hv.toTidy hc1 hv.height hpush
    rw [hv.window] at hact
    have hframes2 := hact.frames
    rw [hv.frames] at hframes2
    rw [bind_ok _ (restoring_ok _ hpush), bind_ok _ (setPrevTop_eq f.prevTop hframes2), release_eq]
    exact ⟨hv.supplanted he hacc hact, hacc⟩
  | error fault m2 =>
    rw [bind_error _ (restoring_error _ hpush)]
    by_cases hacc : c.prototype.Accepts c.defaults args.length
    · rcases pushFrame_activated f.target f.root hv.backs_cons hc1 hv.height hroom hacc with
        ⟨m3, heq⟩ | ⟨m3, heq, -⟩
      · cases hpush.symm.trans heq
        trivial
      · cases hpush.symm.trans heq
    · obtain ⟨m3, heq, hframes⟩ := pushFrame_refused f.base f.target f.root hv.backs_cons hc1 hroom hacc
      cases hpush.symm.trans heq
      refine ⟨rfl, hacc, ?_⟩
      show f :: m2.frames = m.frames
      rw [hframes, hv.frames, hf]

/-- A script function is called in place of the current one, or refused. -/
theorem tailCallInstruction_supplants (call : Caller) (hm : m.Tidy t own) (hf : m.frames = f :: rest)
    (hcallee : register f.base i.arg1 m = .ok (.closure r) m) (hr : m.heap.Has (.closure r))
    (hc : m.heap.closure? r = some c) :
    match tailCallInstruction call f.base i m with
    | .ok _ m' => Supplants c r f rest (m.named f.base i) m m' ∧ CallFits m.stack.size f.base i c
    | .error (.script e) m' => CallRefused m.stack.size f.base i c e ∧ m'.frames = m.frames
    | .error .outsideStack _ => True
    | .error .outOfSteps _ => False := by
  unfold tailCallInstruction
  rw [bind_ok m hcallee]
  simp only
  by_cases hstart : i.arg2 < 0
  · rw [bind_error m (registerSlot_negative hstart)]
    exact ⟨.start hstart, rfl⟩
  rw [Int64.not_lt] at hstart
  rw [bind_ok m (registerSlot_named hstart)]
  by_cases hcount : i.arg3 < 0
  · rw [bind_error m (indexArg_negative hcount _)]
    exact ⟨.count hstart hcount, rfl⟩
  rw [Int64.not_lt] at hcount
  rw [bind_ok m (indexArg_named hcount _)]
  by_cases hin : f.base + i.arg2.toInt.toNat + i.arg3.toInt.toNat ≤ m.stack.size
  swap
  · rw [bind_error m (window_short (Nat.lt_of_not_le hin))]
    exact ⟨.window hstart hcount (Nat.lt_of_not_le hin), rfl⟩
  rw [bind_ok m (window_eq hin), bind_ok m (currentFrame_eq hf)]
  have hlen : (m.named f.base i).length = i.arg3.toInt.toNat := length_window hin
  have hlive : ∀ v ∈ m.named f.base i, m.heap.Has v := by
    intro v hv
    obtain ⟨k, hk⟩ := List.mem_iff_getElem?.1 hv
    have hlt := (List.getElem?_eq_some_iff.1 hk).1
    exact hm.has_slot ((getElem?_window (by omega)).symm.trans hk)
  have hreplace := replace_supplants hm hf hr hc hlive (by omega)
  rw [hlen] at hreplace
  unfold Machine.named at hreplace
  split at hreplace
  · exact ⟨hreplace.1, hstart, hcount, hin, hreplace.2⟩
  · obtain ⟨rfl, hacc, hframes⟩ := hreplace
    exact ⟨.arguments hstart hcount hin hacc, hframes⟩
  · trivial
  · exact hreplace.elim

theorem recode_eq (hf : m.frames = f :: rest) (i : Instruction) :
    m.recode i = m.withFrames (f.recode i :: rest) := by
  unfold Machine.recode
  rw [hf]

theorem step_call_refused {e : ScriptError} (hm : m.Tidy t own) (hat : m.TailCallsAt f rest i r)
    (hint : m.interrupted = false) (hc : m.heap.closure? r = some c)
    (h : CallRefused m.stack.size f.base i c e) :
    ∃ e' m', step call (m.recode { i with opcode := .call }) = .error (.script e') m' ∧
      (m.Receives f.base i.arg0 → m.HasRoom → e' = e) := by
  have hip : f.ip < f.prototype.code.size := (Array.getElem?_eq_some_iff.1 hat.code).1
  have hlength : m.frames.length = rest.length + 1 := by rw [hat.frames, List.length_cons]
  rw [recode_eq hat.frames, step_effect (f := f.recode { i with opcode := .call })
    (m := m.withFrames (f.recode { i with opcode := .call } :: rest)) hint rfl
    (Array.getElem?_setIfInBounds_self_of_lt hip) Opcode.noConfusion]
  obtain ⟨e', m', heq, hsame⟩ := callInstruction_refused call
    (m := m.withFrames ({ f.recode { i with opcode := .call } with ip := f.ip + 1 } :: rest))
    (i := { i with opcode := .call }) hm.backs (register_named hat.named hat.callee)
    (hm.has_slot hat.callee) hc
    (show CallRefused m.stack.size f.base { i with opcode := .call } c e by cases h <;> constructor <;> assumption)
  refine ⟨e', m', bind_error _ heq, fun hreceives hroom => hsame hreceives ?_⟩
  unfold Machine.HasRoom at hroom ⊢
  rwa [hlength] at hroom

/-- How a call in place of the current function ends, compared with a call. -/
inductive EndsAsCall (call : Caller) (m : Machine) (f : Frame) (rest : List Frame) (i : Instruction)
    (r : Ref) : EStateM.Result Fault Machine Flow → Prop
  | entered {c : ClosureObject} {m' : Machine} (closure : m.heap.closure? r = some c)
      (supplants : Supplants c r f rest (m.named f.base i) m m')
      (as_call : ∀ target outside m'', pushFrame r (f.base + i.arg2.toInt.toNat)
          i.arg3.toInt.toNat target outside (m.withHeap (m.heap.retain (.closure r))) = .ok () m'' →
        m''.Holds c (f.base + i.arg2.toInt.toNat) (m.named f.base i) ⟨m.heap.cells.size⟩) :
      EndsAsCall call m f rest i r (.ok .next m')
  | refused {e e' : ScriptError} {m' m'' : Machine} {ip : Nat}
      (frames : m'.frames = { f with ip } :: rest)
      (call_refused : step call (m.recode { i with opcode := .call }) = .error (.script e') m'')
      (as_call : m.Receives f.base i.arg0 → m.HasRoom → e' = e) :
      EndsAsCall call m f rest i r (.error (.script e) m')
  /-- There is no register for what is packed. -/
  | outside {m' : Machine} : EndsAsCall call m f rest i r (.error .outsideStack m')

/-- A function called in place of the current one takes its seat, with the registers
that it would have on top of the stack; the cells of the old registers keep the values.
When it is refused, the old function is back, and a call would have failed too: in the
same way, if there is a place for the result and room for another activation. -/
theorem tail_call_enters_as_call (call : Caller) (hm : m.Tidy t own) (hat : m.TailCallsAt f rest i r) :
    EndsAsCall call m f rest i r (step call m) := by
  have hf := hat.frames
  have hr := hm.has_slot hat.callee
  obtain ⟨c, hbody⟩ := hr.closure
  have hc := Heap.closure?_eq_some.2 hbody
  cases hint : m.interrupted with
  | true =>
    rw [step_interrupted hint]
    refine .refused (show m.frames = { f with ip := f.ip } :: rest from hf) (step_interrupted ?_) fun _ _ => rfl
    rw [recode_eq hf]
    exact hint
  | false =>
    have hseat := tailCallInstruction_supplants call (i := i) (f := { f with ip := f.ip + 1 })
      (m := m.withFrames ({ f with ip := f.ip + 1 } :: rest)) (hm.reframe hf rfl rfl) rfl
      (register_named hat.named hat.callee) hr hc
    have heffect : effect call f.base i = tailCallInstruction call f.base i := by
      unfold effect
      rw [hat.opcode]
    rw [step_effect hint hf hat.code (by rw [hat.opcode]; exact Opcode.noConfusion), heffect]
    cases hact : tailCallInstruction call f.base i (m.withFrames ({ f with ip := f.ip + 1 } :: rest)) with
    | ok a m1 =>
      rw [hact] at hseat
      obtain ⟨hsup, hstart, hcount, hin⟩ := hseat
      rw [bind_ok _ hact]
      refine .entered hc ⟨hsup.frames, hsup.holds, hsup.below, hsup.states, hsup.opened⟩
        fun target outside m2 hpush => ?_
      have hc1 : (m.withHeap (m.heap.retain (.closure r))).heap.closure? r = some c := by
        rw [Machine.withHeap_heap, Heap.closure?_eq_some, Heap.body?_retain]
        exact hbody
      have hargs : (m.named f.base i).length = i.arg3.toInt.toNat := length_window hin
      obtain ⟨he, hacc, hactivated⟩ := pushFrame_entered (hm.retain hr) hc1 hin hpush
      have hholds := hactivated.holds he.toTidy (hargs.symm ▸ hacc)
      rwa [Machine.withHeap_heap, (Heap.trims_retain m.heap (.closure r)).size] at hholds
    | error fault m1 =>
      rw [hact] at hseat
      rw [bind_error _ hact]
      cases fault with
      | outsideStack => exact .outside
      | outOfSteps => exact hseat.elim
      | script e =>
        obtain ⟨e', m'', heq, hsame⟩ := step_call_refused hm hat hint hc hseat.1
        exact .refused hseat.2 heq hsame

/-! ## Machines on their way -/

/-- A run is in good order: functions run above the state of some entry. -/
def Underway (m : Machine) : Prop :=
  ∃ m0 own, Machine.Above (.open False []) m0 own m ∧ m.Roomy

theorem Underway.advanced (hm : Underway m) (h : goesOn m = true) : Underway (advanced m) := by
  obtain ⟨m0, own, habove, hroomy⟩ := hm
  have hs := (step_meets (callValue_faithful (t := .open False []) (fun _ _ => trivial) 9) habove
    hroomy fun _ _ _ => trivial).2
  rw [step_advanced h] at hs
  exact ⟨m0, own, hs⟩

/-- A new machine that calls a function with nothing for a receiver. -/
def entering (p : Prototype) : EStateM.Result Fault Machine Unit :=
  enter ((Machine.create {}).heap.newClosure p [] []).1 [.null]
    ((Machine.create {}).withHeap ((Machine.create {}).heap.newClosure p [] []).2)

/-- It has entered the function. -/
def begun (p : Prototype) : Machine :=
  match entering p with
  | .ok _ m => m
  | .error _ m => m

def begins (p : Prototype) : Bool :=
  match entering p with
  | .ok _ _ => true
  | .error _ _ => false

theorem enter_underway {args own : List Value} {m' : Machine}
    (hm : m.Tidy (.open False []) (args ++ own)) (hr : m.heap.Has (.closure r))
    (h : enter r args m = .ok () m') : Underway m' := by
  have hentered := (enter_meets hm hr).2
  rw [h] at hentered
  exact ⟨m, own, hentered⟩

theorem created_closureOf {p : Prototype} (houters : p.outers = []) :
    Reachable False [] [.closure ((Machine.create {}).heap.newClosure p [] []).1]
      ((Machine.create {}).withHeap ((Machine.create {}).heap.newClosure p [] []).2) :=
  (Reachable.created {}).closureOf False.elim houters

theorem begun_underway {p : Prototype} (houters : p.outers = []) (h : begins p = true) :
    Underway (begun p) := by
  have hhome := (created_closureOf houters).tidy
  unfold begins at h
  unfold begun
  cases heq : entering p with
  | ok a m =>
    exact enter_underway (hhome.own_plain (v := .null) rfl)
      (hhome.has List.mem_cons_self) heq
  | error e m =>
    rw [heq] at h
    cases h

/-! ## Such calls -/

/-- A function that packs its arguments. -/
def packing : Prototype where
  name := "packing"
  parameters := ["this", "rest"]
  varargs := true
  stackSize := 3
  code := #[{ opcode := .ret, arg0 := 1 }]

/-- A call in place, with a window from register 3 on. -/
def yieldingCall (result : Int64) : Instruction :=
  { opcode := .tailCall, arg0 := result, arg1 := 2, arg2 := 3, arg3 := 2 }

/-- Calls a function in its own place, with a seven for the argument. -/
def yielding (p : Prototype) (result : Int64) : Prototype where
  name := "main"
  stackSize := 6
  functions := [p]
  code := #[{ opcode := .closure, arg0 := 2 }, { opcode := .loadInteger, arg0 := 4, arg1 := 7 },
    yieldingCall result, { opcode := .ret, arg0 := result }]

def tailCallsAt (m : Machine) (i : Instruction) : Bool :=
  match m.frames with
  | f :: _ =>
    match m.stack[f.base + i.arg1.toInt.toNat]? with
    | some (.closure _) => i.opcode == .tailCall && decide (0 ≤ i.arg1) &&
        f.prototype.code[f.ip]? == some i
    | _ => false
  | [] => false

theorem tailCallsAt_sound (h : tailCallsAt m i = true) : ∃ f rest r, m.TailCallsAt f rest i r := by
  unfold tailCallsAt at h
  split at h
  swap
  · cases h
  rename_i f rest hf
  split at h
  swap
  · cases h
  rename_i r hr
  obtain ⟨h, hi⟩ := Bool.and_eq_true_iff.1 h
  obtain ⟨hop, hnamed⟩ := Bool.and_eq_true_iff.1 h
  exact ⟨f, rest, r, hf, eq_of_beq hi, eq_of_beq hop, of_decide_eq_true hnamed, hr⟩

/-- The machine at that call. -/
def atYield (p : Prototype) (result : Int64) : Machine :=
  advanced (advanced (begun (yielding p result)))

theorem atYield_underway (p : Prototype) (result : Int64)
    (h : (begins (yielding p result) && goesOn (begun (yielding p result)) &&
      goesOn (advanced (begun (yielding p result)))) = true) : Underway (atYield p result) := by
  obtain ⟨h, hsecond⟩ := Bool.and_eq_true_iff.1 h
  obtain ⟨hbegins, hfirst⟩ := Bool.and_eq_true_iff.1 h
  exact ((begun_underway rfl hbegins).advanced hfirst).advanced hsecond

/-- The function that packs its arguments has the seat of its caller. -/
theorem tail_call_enters_as_call_packing : ∃ own f rest r c,
    (atYield packing 1).Tidy (.open False []) own ∧
      (atYield packing 1).TailCallsAt f rest (yieldingCall 1) r ∧
      step (callValue 9) (atYield packing 1) = .ok .next (advanced (atYield packing 1)) ∧
      Supplants c r f rest ((atYield packing 1).named f.base (yieldingCall 1)) (atYield packing 1)
        (advanced (atYield packing 1)) := by
  obtain ⟨m0, own, habove, -⟩ := atYield_underway packing 1 (by decide +kernel)
  obtain ⟨f, rest, r, hat⟩ :=
    tailCallsAt_sound (m := atYield packing 1) (i := yieldingCall 1) (by decide +kernel)
  have hstep : step (callValue 9) (atYield packing 1) = .ok .next (advanced (atYield packing 1)) :=
    step_advanced (by decide +kernel)
  have h := tail_call_enters_as_call (callValue 9) habove.toTidy hat
  generalize advanced (atYield packing 1) = m' at hstep ⊢
  rw [hstep] at h
  cases h with
  | entered _ hsup _ => exact ⟨own, f, rest, r, _, habove.toTidy, hat, hstep, hsup⟩

def errorKind {α : Type} : EStateM.Result Fault Machine α → Option ErrorKind
  | .error (.script e) _ => some e.kind
  | _ => none

/-- With an argument too many, and a result for a register that is not there: a call in
place looks at the arguments alone, a call at the register first. -/
theorem tail_call_ignores_result : Underway (atYield five 9) ∧
    (∃ f rest r, (atYield five 9).TailCallsAt f rest (yieldingCall 9) r) ∧
      errorKind (step (callValue 9) (atYield five 9)) = some .argument ∧
      errorKind (step (callValue 9)
        ((atYield five 9).recode { yieldingCall 9 with opcode := .call })) = some .compile :=
  ⟨atYield_underway five 9 (by decide +kernel), tailCallsAt_sound (by decide +kernel), by decide +kernel, by decide +kernel⟩

end Exec

end ScriptMachine
