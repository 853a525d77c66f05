import ScriptMachine.Proofs.Machine.Origins
import ScriptMachine.Proofs.Machine.Replacing

/-!
# How activations follow one another

A step puts one function on top, replaces it or takes it off, and goes on in the one on
top. What runs inside one activation is gone when that ends, with a value or with an
error: every call leaves the activations that it found.
-/

set_option autoImplicit false

namespace ScriptMachine

/-- The frame when the instruction at hand is fetched. -/
def Frame.advance (f : Frame) : Frame := { f with ip := f.ip + 1 }

/-- The machine when the current function has fetched its instruction. -/
def Machine.fetched (f : Frame) (rest : List Frame) (m : Machine) : Machine :=
  m.withFrames (f.advance :: rest)

/-- These frames are active, and so many natives. -/
structure Machine.Active (frames : List Frame) (depth : Nat) (m : Machine) : Prop where
  frames : m.frames = frames
  depth : m.nativeDepth = depth

/-- The function goes on, maybe elsewhere, or another has its place, or one that it
calls is on top. -/
inductive Machine.Moved (f : Frame) (rest : List Frame) (depth : Nat) (m : Machine) : Prop
  | goes {g : Frame} (hroot : g.root = f.root) (h : m.Active (g :: rest) depth)
  | calls {g : Frame} (hroot : g.root = false) (h : m.Active (g :: f :: rest) depth)

/-- The machine where default values are shared in for a native. -/
def Machine.supplied (n : NativeObject) (args : List Value) (m : Machine) : Machine :=
  m.withHeap (m.heap.retainAll ((n.filled args).drop args.length))

/-- The machine while one native more runs. -/
def Machine.serving (m : Machine) : Machine := { m with nativeDepth := m.nativeDepth + 1 }

/-- The machine when one native less runs. -/
def Machine.shallower (m : Machine) : Machine := { m with nativeDepth := m.nativeDepth - 1 }

variable {m m' : Machine} {f : Frame} {rest : List Frame}

theorem SameActive.active (h : SameActive m m') : m'.Active m.frames m.nativeDepth :=
  ⟨h.frames, h.depth⟩

theorem Steered.moved (h : Steered m m') (hf : m.frames = f :: rest) :
    m'.Moved f rest m.nativeDepth := by
  rcases h.frames with hsame | ⟨g, rest', ip, hg, hframes⟩
  · exact .goes rfl ⟨hsame.trans hf, h.depth⟩
  · obtain ⟨rfl, rfl⟩ := List.cons_eq_cons.1 (hf.symm.trans hg)
    exact .goes (g := { f with ip }) rfl ⟨hframes, h.depth⟩

namespace Exec

variable {α β : Type} {call : Caller} {base : Nat} {i : Instruction}

namespace Tells

variable {g : α → Caller → Exec β} {P : β → Machine → Prop}

theorem after {act : Caller → Exec α} (h : Telling act call)
    (hg : ∀ a m', SameActive m m' → Tells (g a) call P m') :
    Tells (fun c => act c >>= fun a => g a c) call P m :=
  .bind ((h m).mono fun a m1 hs => ⟨hs, hg a m1 hs⟩)

/-- A first part that only reads. -/
theorem reading {t : Terms} {G : α → Prop} {act : Exec α} (hr : Reads t act G m)
    (h : Telling (fun _ => act) call) (hg : ∀ a, G a → Tells (g a) call P m) :
    Tells (fun c => act >>= fun a => g a c) call P m := by
  rcases hr with ⟨a, ha, hga⟩ | ⟨e, he, -⟩
  · exact .next ha (.refl m) (hg a hga)
  · have hends := (h m).ends
    rw [he] at hends
    have hbind : ∀ c, (act >>= fun a => g a c) m = .error (.script e) m := fun c => bind_error m he
    refine ⟨fun _ _ _ => .inl ((hbind _).trans (hbind _).symm), ?_⟩
    rw [hbind]
    refine ⟨.refl m, hends.2.imp id ?_⟩
    rintro ⟨_, _, _, _, -, m1, hmade⟩
    exact absurd (he.symm.trans hmade) (by simp)

end Tells

/-! ## Entering -/

theorem Telling.outside : Telling (fun _ => (throw .outsideStack : Exec α)) call := fun _ =>
  ⟨fun _ _ _ => .inl rfl, trivial⟩

theorem checkDepth_tells : Telling (fun _ => checkDepth) call := by
  refine Telling.get.bind fun m => ?_
  by_cases h : m.config.maxCallDepth ≤ m.frames.length + m.nativeDepth
  · simp only [if_pos h]
    exact .fail rfl
  · simp only [if_neg h]
    exact .pure ()

theorem takeSlot_tells (j : Nat) : Telling (fun _ => takeSlot j) call := .of_same fun m => by
  cases hslot : m.stack[j]? with
  | some v => exact ⟨_, _, takeSlot_found hslot, rfl, rfl⟩
  | none =>
    refine ⟨none, m, ?_, .refl m⟩
    unfold takeSlot
    rw [bind_ok m (show slot? j m = .ok none m by rw [← hslot]; rfl)]
    rfl

theorem takeSlots_tells (start count : Nat) : Telling (fun _ => takeSlots start count) call := by
  induction count generalizing start with
  | zero => exact .pure []
  | succ count ih =>
    refine (takeSlot_tells start).bind fun v => ?_
    cases v with
    | none => exact .outside
    | some v => exact (ih (start + 1)).bind fun _ => .pure _

theorem fillSlots_tells (start : Nat) (vs : List Value) :
    Telling (fun _ => fillSlots start vs) call := by
  induction vs generalizing start with
  | nil => exact .pure ()
  | cons v vs ih =>
    refine (Telling.retain v).bind fun _ => (writeSlot_tells v start).bind fun written => ?_
    cases written with
    | true => exact ih (start + 1)
    | false => exact .outside

theorem placeSlots_tells (start : Nat) (vs : List Value) :
    Telling (fun _ => placeSlots start vs) call := by
  induction vs generalizing start with
  | nil => exact .pure ()
  | cons v vs ih =>
    refine (writeSlot_tells v start).bind fun written => ?_
    cases written with
    | true => exact ih (start + 1)
    | false => exact .outside

theorem packArguments_tells (p : Prototype) (count : Nat) :
    Telling (fun _ => packArguments p base count) call := by
  unfold packArguments
  by_cases h : count < p.parameters.length - 1
  · simp only [if_pos h]
    exact .fail rfl
  · simp only [if_neg h]
    refine (takeSlots_tells _ _).bind fun vs => (Telling.heap _).bind fun packed =>
      (writeSlot_tells packed _).bind fun written => ?_
    cases written with
    | true => exact .pure _
    | false => exact .outside

theorem bindArguments_tells (p : Prototype) (defaults : List Value) (count : Nat) :
    Telling (fun _ => bindArguments p defaults base count) call := by
  unfold bindArguments
  by_cases hv : p.varargs = true
  · simp only [if_pos hv]
    exact packArguments_tells p count
  simp only [if_neg hv]
  by_cases hn : count ≠ p.parameters.length
  · simp only [if_pos hn]
    unfold fillDefaults
    by_cases hbad : p.parameters.length < count ∨ defaults.length < p.parameters.length - count
    · simp only [if_pos hbad]
      exact .fail rfl
    · simp only [if_neg hbad]
      exact (fillSlots_tells _ _).bind fun _ => .pure _
  · simp only [if_neg hn]
    exact .pure _

theorem growTo_tells (top : Nat) : Telling (fun _ => growTo top) call :=
  .of_same fun m => ⟨(), _, growTo_eq m top, rfl, rfl⟩

theorem heightBelow_tells (root : Bool) : Telling (fun _ => heightBelow base root) call :=
  .of_same fun m => ⟨_, m, heightBelow_eq base root m, .refl m⟩

/-- A function is entered on top of all others, or refused with an error of its own. -/
theorem pushFrame_tells (r : Ref) (count : Nat) (target : Option Nat) (root : Bool) :
    Tells (fun _ => pushFrame r base count target root) call
      (fun _ m' => ∃ g, g.root = root ∧ m'.Active (g :: m.frames) m.nativeDepth) m := by
  refine .handing (.after checkDepth_tells fun _ m1 h1 => .after (Telling.updateHeap _) fun _ m2 h2 =>
    .after (Telling.readHeap _) fun c m3 h3 => ?_)
  cases c with
  | none => exact .of_fail rfl (.refl m3) rfl
  | some c =>
    refine .after (heightBelow_tells root) fun prevTop m4 h4 => .after (growTo_tells _) fun _ m5 h5 =>
      .after (bindArguments_tells _ _ count) fun bound m6 h6 => .after (nullSlots_tells _ _)
        fun _ m7 h7 => ?_
    have h := h1.trans (h2.trans (h3.trans (h4.trans (h5.trans (h6.trans h7)))))
    exact .of_ok rfl ⟨_, rfl, congrArg (List.cons _) h.frames, h.depth⟩

/-! ## Instructions that call -/

theorem callInstruction_tells (hc : TellingCalls call) (hf : m.frames = f :: rest) :
    Tells (fun c => callInstruction c base i) call
      (fun _ m' => m'.Moved f rest m.nativeDepth) m := by
  refine .after (register_tells base i.arg1) fun callee m1 h1 => .after (registerSlot_tells base i.arg2)
    fun start m2 h2 => .after (indexArg_tells i.arg3 _) fun count m3 h3 =>
      .after (resultSlot_tells base i.arg0) fun target m4 h4 => ?_
  have h := h1.trans (h2.trans (h3.trans h4))
  have hforeign : Tells (fun c => callForeign c base i callee start count target) call
      (fun _ m' => m'.Moved f rest m.nativeDepth) m4 :=
    (callForeign_tells hc callee start count target m4).mono fun _ _ h5 =>
      (h.trans h5).steered.moved hf
  cases callee with
  | closure r =>
    refine .after stackSize_tells fun n m5 h5 => ?_
    by_cases hin : start + count ≤ n
    · simp only [if_pos hin]
      refine .after (Telling.retain _) fun _ m6 h6 => (pushFrame_tells r count target false).mono ?_
      rintro - m7 ⟨g, hroot, h7⟩
      have h := h.trans (h5.trans h6)
      exact .calls hroot ⟨by rw [h7.frames, h.frames, hf], h7.depth.trans h.depth⟩
    · simp only [if_neg hin]
      exact .of_fail rfl (.refl m5) rfl
  | _ => exact hforeign

/-- The frame that gives way is back when the callee is refused. -/
theorem replace_tells (hf : m.frames = f :: rest) (r : Ref) (args : List Value) (count : Nat)
    (hin : base + args.length ≤ m.stack.size) :
    Tells (fun _ => do
      vacate f base r args
      restoring (pushFrame r base count f.target f.root) (pushBack f)
      setPrevTop f.prevTop
      release (.closure f.closure)) call (fun _ m' => m'.Moved f rest m.nativeDepth) m := by
  obtain ⟨m1, hplace, hvacate, hframes, -⟩ := vacate_found base f r args hin
  have hdepth : m1.nativeDepth = m.nativeDepth := by
    have htells : Telling (fun _ => placeSlots base args) call := placeSlots_tells base args
    have hends := (htells (vacated base r args m)).ends
    rw [hplace] at hends
    exact hends.depth
  rw [hf, List.tail_cons] at hframes
  generalize max f.prevTop (base + args.length) = top at hvacate
  refine ⟨fun _ _ _ => .inl rfl, ?_⟩
  have htells : Tells (fun _ => pushFrame r base count f.target f.root) call _ (m1.cut top) :=
    pushFrame_tells r count f.target f.root
  have hpush := htells.ends
  rw [bind_ok m hvacate]
  cases hact : pushFrame r base count f.target f.root (m1.cut top) with
  | ok a m2 =>
    rw [hact] at hpush
    obtain ⟨g, hroot, h2⟩ := hpush
    have hframes2 : m2.frames = g :: rest := h2.frames.trans (congrArg (List.cons g) hframes)
    rw [bind_ok _ (restoring_ok _ hact), bind_ok _ (setPrevTop_eq f.prevTop hframes2), release_eq]
    exact .goes (g := { g with prevTop := f.prevTop }) hroot ⟨rfl, h2.depth.trans hdepth⟩
  | error fault m2 =>
    rw [hact] at hpush
    rw [bind_error _ (restoring_error _ hact)]
    cases fault with
    | script e =>
      obtain ⟨hsame, htold⟩ := hpush
      refine ⟨⟨?_, hsame.depth.trans hdepth⟩, htold.imp id ?_⟩
      · show f :: m2.frames = m.frames
        rw [hsame.frames, hf]
        exact congrArg (List.cons f) hframes
      · rintro ⟨_, _, _, _, -, m3, hmade⟩
        exact absurd (hact.symm.trans hmade) (by simp)
    | outsideStack | outOfSteps => trivial

theorem tailCallInstruction_tells (hc : TellingCalls call) (hf : m.frames = f :: rest) :
    Tells (fun c => tailCallInstruction c base i) call
      (fun _ m' => m'.Moved f rest m.nativeDepth) m := by
  refine .reading (register_found base i.arg1) (register_tells base i.arg1) fun callee _ => ?_
  cases callee with
  | closure r =>
    refine .reading (t := anyTerms) (registerSlot_reads False.elim) (registerSlot_tells base i.arg2) ?_
    rintro start ⟨-, rfl⟩
    refine .reading (t := anyTerms) (indexArg_reads False.elim) (indexArg_tells i.arg3 _)
      fun count _ => .reading (window_found _ _) (window_tells _ _) fun args hwindow => ?_
    refine .next (currentFrame_eq hf) (.refl m) ?_
    exact replace_tells hf r args count (by omega)
  | _ => exact callInstruction_tells hc hf

/-- What an instruction does to the activations when it does not return. -/
theorem effect_tells (hc : TellingCalls call) (hf : m.frames = f :: rest) :
    Tells (fun c => effect c base i) call (fun _ m' => m'.Moved f rest m.nativeDepth) m := by
  by_cases hcall : i.opcode = .call
  · unfold effect
    rw [hcall]
    exact callInstruction_tells hc hf
  · by_cases htail : i.opcode = .tailCall
    · unfold effect
      rw [htail]
      exact tailCallInstruction_tells hc hf
    · exact (effect_steers hc hcall htail m).mono fun _ _ h => h.moved hf

/-! ## Steps -/

/-- What a step does to the activations: an instruction that fails has left its own
function only when that returned. -/
inductive Succeeds (f : Frame) (rest : List Frame) (passed : ScriptError → Prop) (m : Machine) :
    EStateM.Result Fault Machine Flow → Prop
  | moved {m' : Machine} (h : m'.Moved f.advance rest m.nativeDepth) :
      Succeeds f rest passed m (.ok .next m')
  | returned {m' : Machine} (hroot : f.root = false) (h : m'.Active rest m.nativeDepth) :
      Succeeds f rest passed m (.ok .next m')
  | finished {v : Value} {m' : Machine} (hroot : f.root = true) (h : m'.Active rest m.nativeDepth) :
      Succeeds f rest passed m (.ok (.finished v) m')
  | interrupted {e : ScriptError} {m' : Machine} (hint : m.interrupted = true)
      (hkind : e.kind = .interrupted) (h : m'.Active (f :: rest) m.nativeDepth) :
      Succeeds f rest passed m (.error (.script e) m')
  | failed {e : ScriptError} {m' : Machine} (htold : e.trace = [] ∨ passed e)
      (h : m'.Active (f.advance :: rest) m.nativeDepth) :
      Succeeds f rest passed m (.error (.script e) m')
  | undelivered {e : ScriptError} {m' : Machine} (hroot : f.root = false) (htrace : e.trace = [])
      (h : m'.Active rest m.nativeDepth) : Succeeds f rest passed m (.error (.script e) m')
  | crashed {fault : Fault} {m' : Machine} (hnot : ∀ e, fault ≠ .script e) :
      Succeeds f rest passed m (.error fault m')

theorem returnFromFrame_succeeds {passed : ScriptError → Prop} {m1 : Machine} {g : Frame} (v : Value)
    (hg : g.root = f.root) (h1 : m1.Active (g :: rest) m.nativeDepth) :
    Succeeds f rest passed m (returnFromFrame v m1) := by
  have hleft : ∀ s h, Machine.Active rest m.nativeDepth
      ({ m1.left g rest with stack := s }.withHeap h) := fun _ _ => ⟨rfl, h1.depth⟩
  rw [returnFromFrame_eq h1.frames]
  rcases Bool.eq_false_or_eq_true g.root with hroot | hroot
  · rw [deliver_root hroot]
    exact .finished (hg ▸ hroot) (hleft _ _)
  cases ht : g.target with
  | none =>
    rw [deliver_nowhere hroot ht]
    exact .returned (hg ▸ hroot) (hleft _ _)
  | some t =>
    cases hslot : (m1.left g rest).stack[t]? with
    | none =>
      obtain ⟨h, heq⟩ := deliver_missing hroot ht hslot v
      rw [heq]
      exact .undelivered (hg ▸ hroot) rfl (hleft _ _)
    | some old =>
      obtain ⟨h, heq⟩ := deliver_slot hroot ht hslot v
      rw [heq]
      exact .returned (hg ▸ hroot) (hleft _ _)

theorem returnedValue_tells (r : Int64) : Telling (fun _ => returnedValue base r) call := by
  unfold returnedValue
  cases isPresent r with
  | true => exact (register_tells base r).bind fun v => sharing_tells v
  | false => exact .pure Value.null

/-- A step either makes no calls or is an instruction that does not return. -/
theorem step_cases (passed : ScriptError → Prop) (hf : m.frames = f :: rest) :
    (∃ r, (∀ c, step c m = r) ∧ Succeeds f rest passed m r) ∨
      ∃ i, ∀ c, step c m = (effect c f.base i >>= fun _ => pure Flow.next) (m.fetched f rest) := by
  by_cases hint : m.interrupted = true
  · exact .inl ⟨_, fun c => step_interrupted hint, .interrupted hint rfl ⟨hf, rfl⟩⟩
  have hcheck : checkInterrupt m = .ok () m := (checkInterrupt_eq m).trans (if_neg hint)
  cases hi : f.prototype.code[f.ip]? with
  | none =>
    refine .inl ⟨returnFromFrame .null m, fun c => ?_, returnFromFrame_succeeds .null rfl ⟨hf, rfl⟩⟩
    unfold step
    rw [bind_ok m hcheck, bind_ok m (currentFrame_eq hf), hi]
  | some i =>
    by_cases hret : i.opcode = .ret
    · refine .inl ⟨(returnedValue f.base i.arg0 >>= returnFromFrame) (m.fetched f rest), fun c => ?_, ?_⟩
      · unfold step
        rw [bind_ok m hcheck, bind_ok m (currentFrame_eq hf), hi]
        simp only
        rw [bind_ok m (setIp_eq (f.ip + 1) hf), if_pos hret]
        rfl
      · have htells : Telling (fun _ => returnedValue f.base i.arg0) fun _ _ => throw .outOfSteps :=
          returnedValue_tells i.arg0
        have hends := (htells (m.fetched f rest)).ends
        cases hv : returnedValue f.base i.arg0 (m.fetched f rest) with
        | ok v m1 =>
          rw [hv] at hends
          rw [bind_ok _ hv]
          exact returnFromFrame_succeeds (g := f.advance) v rfl hends.active
        | error fault m1 =>
          rw [hv] at hends
          rw [bind_error _ hv]
          cases fault with
          | script e =>
            refine .failed (.inl ?_) hends.1.active
            refine hends.2.resolve_right ?_
            rintro ⟨_, _, _, _, hcall, -⟩
            cases hcall
          | outsideStack => exact .crashed fun _ => Fault.noConfusion
          | outOfSteps => exact .crashed fun _ => Fault.noConfusion
    · exact .inr ⟨i, fun c => step_effect (Bool.not_eq_true _ ▸ hint) hf hi hret⟩

theorem step_succeeds (hc : TellingCalls call) (hf : m.frames = f :: rest) :
    Succeeds f rest (PassedOn step call m) m (step call m) := by
  rcases step_cases _ hf with ⟨r, hr, hs⟩ | ⟨i, hstep⟩
  · rw [hr]
    exact hs
  have htells : Tells (fun c => effect c f.base i) call _ (m.fetched f rest) :=
    effect_tells hc (show _ = f.advance :: rest from rfl)
  have hends := htells.ends
  cases hact : effect call f.base i (m.fetched f rest) with
  | ok a m1 =>
    rw [hact] at hends
    rw [hstep, bind_ok _ hact]
    exact .moved hends
  | error fault m1 =>
    rw [hact] at hends
    rw [hstep, bind_error _ hact]
    cases fault with
    | script e =>
      refine .failed (hends.2.imp id ?_) hends.1.active
      rintro ⟨callee, args, site, m2, hcall, m3, hmade⟩
      exact ⟨callee, args, site, m2, hcall, m3, (hstep _).trans (bind_error _ hmade)⟩
    | outsideStack => exact .crashed fun _ => Fault.noConfusion
    | outOfSteps => exact .crashed fun _ => Fault.noConfusion

/-- The calls that an instruction makes find its function on top, and so does an error. -/
theorem calls_from_top (hc : TellingCalls call) (hf : m.frames = f :: rest) {callee : Value}
    {args : List Value} {site : Machine} {e : ScriptError}
    (hcalls : Calls step call m callee args site)
    (h : step call m = .error (.script e) m') :
    site.Active (f.advance :: rest) m.nativeDepth ∧ m'.Active (f.advance :: rest) m.nativeDepth := by
  obtain ⟨m1, hmade⟩ : ∃ m1, step (stopping call callee args site) m = .error .outOfSteps m1 := hcalls
  rcases step_cases (fun _ => True) hf with ⟨r, hr, -⟩ | ⟨i, hstep⟩
  · rw [hr] at hmade h
    rw [hmade] at h
    cases h
  have htells : Tells (fun c => effect c f.base i) call _ (m.fetched f rest) :=
    effect_tells hc (show _ = f.advance :: rest from rfl)
  have hends := htells.ends
  rw [hstep] at h
  cases hact : effect call f.base i (m.fetched f rest) with
  | ok a m2 =>
    rw [bind_ok _ hact] at h
    cases h
  | error fault m2 =>
    rw [bind_error _ hact] at h
    cases h
    rw [hact] at hends
    refine ⟨?_, hends.1.active⟩
    rcases htells.steady callee args site with heq | ⟨hsame, -⟩
    · rw [hstep, bind_error _ (heq.trans hact)] at hmade
      cases hmade
    · exact hsame.active

/-! ## Unwinding -/

/-- A function that was entered from outside the instruction loop, under those that it
has called. -/
inductive Rooted : List Frame → Prop
  | entry {f : Frame} (hroot : f.root = true) : Rooted [f]
  | called {f : Frame} {fs : List Frame} (hroot : f.root = false) (hrest : Rooted fs) :
      Rooted (f :: fs)

namespace Rooted

variable {g : Frame} {fs : List Frame}

theorem replace (h : Rooted (f :: fs)) (hg : g.root = f.root) : Rooted (g :: fs) := by
  cases h with
  | entry hroot => exact .entry (hg.trans hroot)
  | called hroot hrest => exact .called (hg.trans hroot) hrest

theorem of_called (h : Rooted (f :: fs)) (hroot : f.root = false) : Rooted fs := by
  cases h with
  | entry h => exact absurd (hroot.symm.trans h) (by decide)
  | called _ hrest => exact hrest

theorem advance (h : Rooted fs) : Rooted (fs.map Frame.advance) := by
  induction h with
  | entry hroot => exact .entry hroot
  | called hroot _ ih => exact .called hroot ih

theorem of_entry (h : Rooted (f :: fs)) (hroot : f.root = true) : fs = [] := by
  cases h with
  | entry _ => rfl
  | called h _ => exact absurd (h.symm.trans hroot) (by decide)

end Rooted

/-- Unwinding leaves the functions of one entry and notes each, the innermost first. -/
theorem unwindFrames_lists {seg : List Frame} (hs : Rooted seg) (below : List Frame) (e : ScriptError)
    (m : Machine) : ∃ m', unwindFrames (seg ++ below) e m =
      .ok { e with trace := e.trace ++ seg.map Frame.traceEntry } m' ∧
        m'.Active below m.nativeDepth := by
  induction hs generalizing e m with
  | @entry f hroot =>
    show ∃ m', unwindFrames (f :: below) e m = _ ∧ _
    unfold unwindFrames
    rw [bind_ok m (leaveFrame_eq f below m), bind_ok _ (release_eq _ _)]
    simp only [hroot, if_true]
    exact ⟨_, rfl, rfl, rfl⟩
  | @called f fs hroot hrest ih =>
    show ∃ m', unwindFrames (f :: (fs ++ below)) e m = _ ∧ _
    rw [unwindFrames, bind_ok m (leaveFrame_eq f _ m), bind_ok _ (release_eq _ _)]
    simp only [hroot, Bool.false_eq_true, if_false]
    obtain ⟨m', heq, hactive⟩ := ih (e.leave f.traceEntry) _
    refine ⟨m', heq.trans ?_, hactive⟩
    simp only [ScriptError.leave, List.append_assoc, List.map_cons, List.singleton_append]

theorem unwinding_lists {seg below : List Frame} (hs : Rooted seg) (hf : m.frames = seg ++ below)
    (e : ScriptError) : ∃ m', (unwinding (.script e) : Exec α) m =
      .error (.script { e with trace := e.trace ++ seg.map Frame.traceEntry }) m' ∧
        m'.Active below m.nativeDepth := by
  obtain ⟨m', heq, hactive⟩ := unwindFrames_lists hs below e m
  refine ⟨m', ?_, hactive⟩
  show (unwind e >>= fun e => fail e) m = _
  have hun : unwind e m = unwindFrames m.frames e m := rfl
  rw [bind_ok m (hun.trans (hf ▸ heq))]
  rfl

/-! ## Natives -/

section

variable (run : Routine → Exec Value) {r : Ref} {args : List Value} {n : NativeObject}

theorem owning_congr {act act' : Exec α} {vs : List Value} (h : act m = act' m) :
    owning vs act m = owning vs act' m := by
  unfold owning
  rw [h]

theorem checkDepth_eq (m : Machine) : checkDepth m =
    if m.config.maxCallDepth ≤ m.frames.length + m.nativeDepth then
      .error (.script (depthError m.config.maxCallDepth)) m
    else .ok () m := by
  unfold checkDepth
  rw [bind_ok m (show (get : Exec Machine) m = .ok m m from rfl)]
  split <;> rfl

theorem callNative_stray (args : List Value) (hn : m.heap.native? r = none) : ∃ h, callNative run r args m =
    .error (.script ⟨.compile, "no native", []⟩) (m.withHeap h) := by
  unfold callNative
  rw [bind_ok m (show readHeap (fun h => h.native? r) m = .ok none m by rw [← hn]; rfl)]
  simp only
  rw [bind_ok m (releaseAll_eq m args)]
  exact ⟨_, rfl⟩

variable (hn : m.heap.native? r = some n)

include hn in
theorem callNative_eq : callNative run r args m = owning (n.filled args).reverse (do
    checkDepth
    tracing (nativeEntry n) do
      let accepted ← ofExcept (n.prepare args)
      inNative (run (n.behaviour accepted))) (m.supplied n args) := by
  unfold callNative
  rw [bind_ok m (show readHeap (fun h => h.native? r) m = .ok (some n) m by rw [← hn]; rfl)]
  simp only
  rw [bind_ok m (retainAll_eq m _)]
  rfl

include hn in
theorem callNative_tooDeep (args : List Value) (hd : m.config.maxCallDepth ≤ m.frames.length + m.nativeDepth) :
    ∃ h, callNative run r args m =
      .error (.script (depthError m.config.maxCallDepth)) (m.withHeap h) := by
  have hcheck : checkDepth (m.supplied n args) = .error (.script (depthError m.config.maxCallDepth)) _ :=
    (checkDepth_eq _).trans (if_pos hd)
  rw [callNative_eq run hn, owning_error (bind_error _ hcheck)]
  exact ⟨_, rfl⟩

variable (hd : ¬ m.config.maxCallDepth ≤ m.frames.length + m.nativeDepth)

include hn hd in
theorem callNative_within : callNative run r args m = owning (n.filled args).reverse
    (tracing (nativeEntry n) do
      let accepted ← ofExcept (n.prepare args)
      inNative (run (n.behaviour accepted))) (m.supplied n args) := by
  have hcheck : checkDepth (m.supplied n args) = .ok () _ := (checkDepth_eq _).trans (if_neg hd)
  rw [callNative_eq run hn]
  exact owning_congr (bind_ok _ hcheck)

include hn hd in
theorem callNative_rejected {e : ScriptError} (hp : n.prepare args = .error e) :
    ∃ h, callNative run r args m = .error (.script (e.leave (nativeEntry n))) (m.withHeap h) := by
  rw [callNative_within run hn hd, hp]
  have hends : tracing (nativeEntry n) (do
      let accepted ← ofExcept (Except.error e)
      inNative (run (n.behaviour accepted))) (m.supplied n args) =
    .error (.script (e.leave (nativeEntry n))) (m.supplied n args) := rfl
  rw [owning_error hends]
  exact ⟨_, rfl⟩

/-- The end of a native's call, given that of its routine. -/
def served (n : NativeObject) (args : List Value) :
    EStateM.Result Fault Machine Value → EStateM.Result Fault Machine Value
  | .ok v m => .ok v (done m)
  | .error (.script e) m => .error (.script (e.leave (nativeEntry n))) (done m)
  | .error fault m => .error fault (done m)
where
  done (m : Machine) : Machine :=
    m.shallower.withHeap (m.heap.releaseAll (n.filled args).reverse.reverse)

include hn hd in
theorem callNative_runs {accepted : List Value} (hp : n.prepare args = .ok accepted) :
    callNative run r args m =
      served n args (run (n.behaviour accepted) (m.supplied n args).serving) := by
  rw [callNative_within run hn hd, hp]
  have hrun : (do
      let accepted ← ofExcept (Except.ok accepted)
      inNative (run (n.behaviour accepted)) : Exec Value) (m.supplied n args) =
      altered Machine.shallower (fun _ => Machine.shallower)
        (run (n.behaviour accepted) (m.supplied n args).serving) := by
    show inNative (run (n.behaviour accepted)) (m.supplied n args) = _
    unfold inNative Machine.serving
    cases run (n.behaviour accepted)
      { m.supplied n args with nativeDepth := (m.supplied n args).nativeDepth + 1 } <;> rfl
  cases hend : run (n.behaviour accepted) (m.supplied n args).serving with
  | ok v m1 =>
    rw [hend] at hrun
    refine owning_ok ?_
    unfold tracing
    rw [hrun]
    rfl
  | error fault m1 =>
    rw [hend] at hrun
    cases fault
    all_goals
      refine owning_error ?_
      unfold tracing
      rw [hrun]
      rfl

end

/-! ## Calls -/

section

variable (hc : TellingCalls call)

theorem withReceiver_tells (this : Value) (args : List Value) :
    Telling (fun _ => withReceiver this args) call := by
  refine (Telling.retain this).bind fun _ => ?_
  cases args with
  | nil => exact .pure _
  | cons old args => exact (Telling.release old).bind fun _ => .pure _

include hc in
theorem construct_tells (cls : Ref) (args : List Value) :
    Telling (fun c => construct c cls args) call := by
  refine (Telling.heap _).bind fun r => (Telling.readHeap _).bind fun ctor => ?_
  cases ctor with
  | none => exact (Telling.releaseAll args).bind fun _ => .pure _
  | some f =>
    exact Telling.bind (.handing (.holding ((withReceiver_tells _ args).bind fun args =>
      (hc f args).bind Telling.release))) fun _ => .pure _

include hc in
theorem callInstance_tells (this : Value) (args : List Value) :
    Telling (fun c => callInstance c this args) call := by
  refine (Telling.readHeap _).bind fun method => ?_
  cases method with
  | none => exact (Telling.releaseAll args).bind fun _ => .fail rfl
  | some f => exact .holding ((withReceiver_tells this args).bind fun args => hc f args)

include hc in
theorem callNoting_tells (callee : Value) (args : List Value) :
    Telling (fun c => callNoting c callee args) call :=
  (Telling.retainAll _).bind fun _ => .noting (hc callee _)

include hc in
theorem answer_tells (q : Request) : Telling (fun c => answer c q) call := by
  unfold answer
  cases q with
  | call f args => exact callNoting_tells hc f args
  | newArray items => exact (Telling.retainAll items).bind fun _ => .heap _
  | push r v =>
    exact (Telling.retain v).bind fun _ => (Telling.updateHeap _).bind fun _ => .pure _
  | newString | weaken | «attribute» => exact .heap _
  | target w => exact (Telling.readHeap _).bind fun v => sharing_tells v
  | length | deepEqual | live => exact (Telling.readHeap _).bind fun _ => .pure _
  | display v => exact (Telling.readHeap _).bind fun s => .heap _
  | root => exact Telling.get.bind fun m => sharing_tells _
  | collect => exact (Telling.heap _).bind fun _ => .pure _
  | interrupt => exact (Telling.modifyGet fun _ => ⟨rfl, rfl⟩).bind fun _ => .pure _
  | emit line => exact (Telling.modifyGet fun _ => ⟨rfl, rfl⟩).bind fun _ => .pure _

/-- A function is entered from outside the instruction loop. -/
theorem enter_tells (r : Ref) (args : List Value) : Tells (fun _ => enter r args) call
    (fun _ m' => ∃ g, g.root = true ∧ m'.Active (g :: m.frames) m.nativeDepth) m := by
  refine .after stackSize_tells fun base m1 h1 => .next (pushValues_eq _ args) ⟨rfl, rfl⟩
    (.after (Telling.retain _) fun _ m2 h2 => ?_)
  have hcut : ∀ act : Exec Unit, cuttingBack base act m2 =
      altered id (fun _ m => m.cut base) (act m2) := by
    intro act
    unfold cuttingBack
    cases act m2 <;> simp only [truncate_eq, altered, id]
  refine .ending (fun _ => hcut _) (pushFrame_tells r args.length none true) ?_ fun _ _ => ⟨rfl, rfl⟩
  rintro - m3 ⟨g, hroot, h3⟩
  have h : SameActive m m2 := h1.trans ⟨h2.frames, h2.depth⟩
  exact ⟨g, hroot, h3.frames.trans (congrArg (List.cons g) h.frames), h3.depth.trans h.depth⟩

end

/-- The end of an action with these activations. -/
def Restores (frames : List Frame) (depth : Nat) : EStateM.Result Fault Machine α → Prop
  | .ok _ m => m.Active frames depth
  | .error (.script _) m => m.Active frames depth
  | .error _ _ => True

theorem Telling.restores {act : Caller → Exec α} (h : Telling act call) (m : Machine) :
    Restores m.frames m.nativeDepth (act call m) := by
  have hends := (h m).ends
  cases hact : act call m with
  | ok a m1 =>
    rw [hact] at hends
    exact hends.active
  | error fault m1 =>
    rw [hact] at hends
    cases fault with
    | script e => exact hends.1.active
    | outsideStack | outOfSteps => trivial

/-- Calls that leave the activations as they were make errors of their own. -/
theorem tellingCalls_of_restores
    (h : ∀ callee args m, Restores m.frames m.nativeDepth (call callee args m)) :
    TellingCalls call := by
  intro callee args m
  have hmade : Calls (fun c => c callee args) call m callee args m := ⟨m, if_pos ⟨rfl, rfl, rfl⟩⟩
  refine ⟨fun f vs site => ?_, ?_⟩
  · by_cases heq : callee = f ∧ args = vs ∧ m = site
    · obtain ⟨rfl, rfl, rfl⟩ := heq
      exact .inr ⟨.refl m, hmade⟩
    · exact .inl (if_neg heq)
  · have hm := h callee args m
    cases hact : call callee args m with
    | ok v m1 =>
      rw [hact] at hm
      exact ⟨hm.frames, hm.depth⟩
    | error fault m1 =>
      rw [hact] at hm
      cases fault with
      | script e =>
        exact ⟨⟨hm.frames, hm.depth⟩, .inr ⟨callee, args, m, m1, hact, hmade⟩⟩
      | outsideStack | outOfSteps => trivial

/-- A routine goes on with the answer to its request. -/
theorem perform_ask (answers : List Value) (q : Request) (next : Except ScriptError Value → Routine)
    (m : Machine) : perform call answers (.ask q next) m =
      match answer call q m with
      | .ok v m1 => perform call (v :: answers) (next (.ok v)) m1
      | .error (.script e) m1 => perform call answers (next (.error e)) m1
      | .error fault m1 => .error fault m1 := by
  rw [perform]
  show EStateM.bind (attempt (answer call q)) _ m = _
  unfold EStateM.bind attempt
  cases answer call q m with
  | ok v m1 => rfl
  | error fault m1 => cases fault <;> rfl

theorem perform_restores (hc : TellingCalls call) (r : Routine) (answers : List Value) (m : Machine) :
    Restores m.frames m.nativeDepth (perform call answers r m) := by
  induction r generalizing answers m with
  | finish v =>
    have htells : Telling (fun _ => perform call answers (.finish v)) call :=
      (Telling.retain v).bind fun _ => (Telling.releaseAll answers).bind fun _ => .pure v
    exact htells.restores m
  | fail e =>
    unfold perform
    rw [bind_ok m (releaseAll_eq m answers)]
    exact ⟨rfl, rfl⟩
  | ask q next ih =>
    rw [perform_ask]
    have hanswer := (answer_tells hc q).restores m
    cases hact : answer call q m with
    | ok v m1 =>
      rw [hact] at hanswer
      rw [← hanswer.frames, ← hanswer.depth]
      exact ih (.ok v) (v :: answers) m1
    | error fault m1 =>
      rw [hact] at hanswer
      cases fault with
      | script e =>
        rw [← hanswer.frames, ← hanswer.depth]
        exact ih (.error e) answers m1
      | outsideStack | outOfSteps => trivial

theorem callNative_restores {run : Routine → Exec Value}
    (hrun : ∀ r m, Restores m.frames m.nativeDepth (run r m)) (r : Ref) (args : List Value)
    (m : Machine) : Restores m.frames m.nativeDepth (callNative run r args m) := by
  cases hn : m.heap.native? r with
  | none =>
    obtain ⟨h, heq⟩ := callNative_stray run args hn
    rw [heq]
    exact ⟨rfl, rfl⟩
  | some n =>
    by_cases hd : m.config.maxCallDepth ≤ m.frames.length + m.nativeDepth
    · obtain ⟨h, heq⟩ := callNative_tooDeep run hn args hd
      rw [heq]
      exact ⟨rfl, rfl⟩
    · cases hp : n.prepare args with
      | error e =>
        obtain ⟨h, heq⟩ := callNative_rejected run hn hd hp
        rw [heq]
        exact ⟨rfl, rfl⟩
      | ok accepted =>
        have hend := hrun (n.behaviour accepted) (m.supplied n args).serving
        have hdone : ∀ m1 : Machine, m1.Active m.frames (m.nativeDepth + 1) →
            (served.done n args m1).Active m.frames m.nativeDepth := fun m1 h =>
          ⟨h.frames, congrArg Nat.pred h.depth⟩
        rw [callNative_runs run hn hd hp]
        cases hact : run (n.behaviour accepted) (m.supplied n args).serving with
        | ok v m1 =>
          rw [hact] at hend
          exact hdone m1 hend
        | error fault m1 =>
          rw [hact] at hend
          cases fault with
          | script e => exact hdone m1 hend
          | outsideStack | outOfSteps => trivial

section

variable {below : List Frame} {depth : Nat}

/-- What goes on inside an entry leaves what is below it. -/
def Closes (below : List Frame) (depth : Nat) (again : Exec Value) : Prop :=
  ∀ m seg, Rooted seg → m.Active (seg ++ below) depth → Restores below depth (again m)

theorem executeWith_next {again : Exec Value} (h : step call m = .ok .next m') :
    executeWith call again m = again m' := by
  unfold executeWith
  rw [h]

theorem executeWith_finished {again : Exec Value} {v : Value} (h : step call m = .ok (.finished v) m') :
    executeWith call again m = .ok v m' := by
  unfold executeWith
  rw [h]

theorem executeWith_error {again : Exec Value} {fault : Fault} (h : step call m = .error fault m') :
    executeWith call again m = unwinding fault m' := by
  unfold executeWith
  rw [h]

theorem moved_rooted {fs : List Frame} (h : m.Moved f (fs ++ below) depth)
    (hs : Rooted (f :: fs)) : ∃ seg, Rooted seg ∧ m.Active (seg ++ below) depth := by
  cases h with
  | @goes g hroot h => exact ⟨g :: fs, hs.replace hroot, h⟩
  | @calls g hroot h => exact ⟨g :: f :: fs, .called hroot hs, h⟩

theorem executeWith_closes (hc : TellingCalls call) {again : Exec Value}
    (ha : Closes below depth again) : Closes below depth (executeWith call again) := by
  rintro m seg hs ⟨hf, rfl⟩
  obtain ⟨f, fs, rfl⟩ : ∃ f fs, seg = f :: fs := by cases hs <;> exact ⟨_, _, rfl⟩
  have hstep := step_succeeds hc (show m.frames = f :: (fs ++ below) from hf)
  have hunwind : ∀ (e : ScriptError) (m1 : Machine) (seg : List Frame), Rooted seg →
      m1.Active (seg ++ below) m.nativeDepth →
        Restores below m.nativeDepth ((unwinding (.script e) : Exec Value) m1) := by
    intro e m1 seg hseg h1
    obtain ⟨m2, heq, h2⟩ := unwinding_lists (α := Value) hseg h1.frames e
    rw [heq, ← h1.depth]
    exact h2
  cases hact : step call m with
  | ok flow m1 =>
    rw [hact] at hstep
    cases hstep with
    | moved h =>
      obtain ⟨seg, hseg, h1⟩ := moved_rooted h (hs.replace rfl)
      rw [executeWith_next hact]
      exact ha m1 seg hseg h1
    | returned hroot h =>
      rw [executeWith_next hact]
      exact ha m1 fs (hs.of_called hroot) h
    | finished hroot h =>
      rw [executeWith_finished hact]
      rw [hs.of_entry hroot] at h
      exact h
  | error fault m1 =>
    rw [hact] at hstep
    rw [executeWith_error hact]
    cases hstep with
    | interrupted _ _ h => exact hunwind _ m1 (f :: fs) hs h
    | failed _ h => exact hunwind _ m1 (f.advance :: fs) (hs.replace rfl) h
    | undelivered hroot _ h => exact hunwind _ m1 fs (hs.of_called hroot) h
    | crashed hnot =>
      cases fault with
      | script e => exact absurd rfl (hnot e)
      | outsideStack | outOfSteps => trivial

theorem callWith_restores (hc : TellingCalls call) {execute : Exec Value} {run : Routine → Exec Value}
    (he : ∀ below depth, Closes below depth execute)
    (hrun : ∀ r m, Restores m.frames m.nativeDepth (run r m)) (callee : Value) (args : List Value)
    (m : Machine) : Restores m.frames m.nativeDepth (callWith execute run call callee args m) := by
  have hother : ∀ e : ScriptError, e.trace = [] →
      Restores m.frames m.nativeDepth ((releaseAll args >>= fun _ => (fail e : Exec Value)) m) :=
    fun e he => by
      have htells : Telling (fun _ => releaseAll args >>= fun _ => (fail e : Exec Value)) call :=
        (Telling.releaseAll args).bind fun _ => .fail he
      exact htells.restores m
  cases callee with
  | closure r =>
    have htells : Tells (fun _ => enter r args) call _ m := enter_tells r args
    have hends := htells.ends
    cases hact : enter r args m with
    | ok a m1 =>
      rw [hact] at hends
      obtain ⟨g, hroot, h1⟩ := hends
      show Restores _ _ ((enter r args >>= fun _ => execute) m)
      rw [bind_ok m hact]
      exact he _ _ m1 [g] (.entry hroot) h1
    | error fault m1 =>
      rw [hact] at hends
      show Restores _ _ ((enter r args >>= fun _ => execute) m)
      rw [bind_error m hact]
      cases fault with
      | script e => exact hends.1.active
      | outsideStack | outOfSteps => trivial
  | native n => exact callNative_restores hrun n args m
  | classObject c => exact (construct_tells hc c args).restores m
  | instanceObject r => exact (callInstance_tells hc _ args).restores m
  | _ => exact hother _ rfl

end

theorem steps_restore (n : Nat) :
    (∀ callee args m, Restores m.frames m.nativeDepth (callValue n callee args m)) ∧
      ∀ below depth, Closes below depth (execute n) := by
  induction n with
  | zero => exact ⟨fun _ _ _ => trivial, fun _ _ _ _ _ _ => trivial⟩
  | succ n ih =>
    have hc := tellingCalls_of_restores ih.1
    refine ⟨fun callee args m => ?_, fun below depth => ?_⟩
    · exact callWith_restores hc ih.2 (fun r m => perform_restores hc r [] m) callee args m
    · exact executeWith_closes hc (ih.2 below depth)

/-- Every call leaves the activations that it found, with a value or with an error. -/
theorem callValue_tells (n : Nat) : TellingCalls (callValue n) :=
  tellingCalls_of_restores (steps_restore n).1

end Exec

end ScriptMachine
