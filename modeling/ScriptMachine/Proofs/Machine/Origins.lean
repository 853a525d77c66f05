import ScriptMachine.Proofs.Machine.Conduct

/-!
# Where errors come from

An error that an instruction ends with is new, and then without a trace, or it is the
error of a call that the instruction has made, passed on as it is. Meanwhile the
activations stay the same, until the instruction enters or leaves a function itself.
-/

set_option autoImplicit false

namespace ScriptMachine

/-- The machines count the same activations. -/
structure SameActive (m m' : Machine) : Prop where
  frames : m'.frames = m.frames
  depth : m'.nativeDepth = m.nativeDepth

/-- At most the current function goes on elsewhere. -/
structure Steered (m m' : Machine) : Prop where
  frames : m'.frames = m.frames ∨
    ∃ f rest ip, m.frames = f :: rest ∧ m'.frames = { f with ip } :: rest
  depth : m'.nativeDepth = m.nativeDepth

namespace SameActive

variable {m m' m'' : Machine}

theorem refl (m : Machine) : SameActive m m := ⟨rfl, rfl⟩

theorem trans (h : SameActive m m') (h' : SameActive m' m'') : SameActive m m'' :=
  ⟨h'.frames.trans h.frames, h'.depth.trans h.depth⟩

theorem steered (h : SameActive m m') : Steered m m' := ⟨.inl h.frames, h.depth⟩

theorem then_steered (h : SameActive m m') (h' : Steered m' m'') : Steered m m'' := by
  refine ⟨?_, h'.depth.trans h.depth⟩
  have := h'.frames
  rwa [h.frames] at this

end SameActive

theorem Steered.then_same {m m' m'' : Machine} (h : Steered m m') (h' : SameActive m' m'') :
    Steered m m'' := by
  refine ⟨?_, h'.depth.trans h.depth⟩
  rw [h'.frames]
  exact h.frames

namespace Exec

open Classical in
/-- The caller, but that one call stops the run. -/
noncomputable def stopping (call : Caller) (callee : Value) (args : List Value) (site : Machine) :
    Caller := fun f vs m =>
  if f = callee ∧ vs = args ∧ m = site then .error .outOfSteps m else call f vs m

section

variable {α β : Type}

/-- The action calls a value from a machine: when that stops the run, it stops. -/
def Calls (act : Caller → Exec α) (call : Caller) (m : Machine) (callee : Value)
    (args : List Value) (site : Machine) : Prop :=
  ∃ m', act (stopping call callee args site) m = .error .outOfSteps m'

/-- An error that the action passes on, of a call that it makes. -/
def PassedOn (act : Caller → Exec α) (call : Caller) (m : Machine) (e : ScriptError) : Prop :=
  ∃ callee args site m', call callee args site = .error (.script e) m' ∧
    Calls act call m callee args site

/-- A value with `Q`, or an error that is new or passed on. -/
def Told (passed : ScriptError → Prop) (Q : α → Machine → Prop) (m : Machine) :
    EStateM.Result Fault Machine α → Prop
  | .ok a m' => Q a m'
  | .error (.script e) m' => SameActive m m' ∧ (e.trace = [] ∨ passed e)
  | .error _ _ => True

/-- The action gives a value with `Q`, or tells where its error comes from. -/
structure Tells (act : Caller → Exec α) (call : Caller) (Q : α → Machine → Prop) (m : Machine) :
    Prop where
  /-- All that a caller does to it are the calls that it makes. -/
  steady : ∀ callee args site, act (stopping call callee args site) m = act call m ∨
    SameActive m site ∧ Calls act call m callee args site
  ends : Told (PassedOn act call m) Q m (act call m)

/-- The action tells where its errors come from and keeps the activations. -/
def Telling (act : Caller → Exec α) (call : Caller) : Prop :=
  ∀ m, Tells act call (fun _ m' => SameActive m m') m

/-- As much, but that the current function may go on elsewhere. -/
def Steering (act : Caller → Exec α) (call : Caller) : Prop :=
  ∀ m, Tells act call (fun _ m' => Steered m m') m

/-- Calls tell where their errors come from: they are their own. -/
def TellingCalls (call : Caller) : Prop :=
  ∀ callee args, Telling (fun c => c callee args) call

variable {call : Caller} {act : Caller → Exec α} {f : α → Caller → Exec β} {m m' : Machine}
variable {Q Q' : α → Machine → Prop} {P : β → Machine → Prop} {vs : List Value} {v : Value}

theorem Told.imp {passed passed' : ScriptError → Prop} {r : EStateM.Result Fault Machine α}
    (h : Told passed Q m' r) (hq : ∀ a m1, Q a m1 → Q' a m1) (hsame : SameActive m m')
    (hpassed : ∀ e, passed e → passed' e) : Told passed' Q' m r := by
  cases r with
  | ok a m1 => exact hq a m1 h
  | error e m1 =>
    cases e with
    | script e => exact ⟨hsame.trans h.1, h.2.imp id (hpassed e)⟩
    | outsideStack | outOfSteps => trivial

/-! ## Composition -/

/-- Another end of an action, which leaves the activations alone. -/
def altered (fo : Machine → Machine) (fe : Fault → Machine → Machine) :
    EStateM.Result Fault Machine α → EStateM.Result Fault Machine α
  | .ok a m => .ok a (fo m)
  | .error e m => .error e (fe e m)

namespace Tells

theorem of_ok {act : Exec α} {a : α} (h : act m = .ok a m') (hq : Q a m') :
    Tells (fun _ => act) call Q m := by
  refine ⟨fun _ _ _ => .inl rfl, ?_⟩
  rw [h]
  exact hq

theorem of_fail {act : Exec α} {e : ScriptError} (h : act m = .error (.script e) m')
    (hsame : SameActive m m') (he : e.trace = []) : Tells (fun _ => act) call Q m := by
  refine ⟨fun _ _ _ => .inl rfl, ?_⟩
  rw [h]
  exact ⟨hsame, .inl he⟩

theorem mono (h : Tells act call Q m) (hq : ∀ a m', Q a m' → Q' a m') : Tells act call Q' m :=
  ⟨h.steady, h.ends.imp hq (.refl m) fun _ => id⟩

theorem bind (h : Tells act call (fun a m' => SameActive m m' ∧ Tells (f a) call P m') m) :
    Tells (fun c => act c >>= fun a => f a c) call P m := by
  have hcalls : ∀ {callee args site}, Calls act call m callee args site →
      Calls (fun c => act c >>= fun a => f a c) call m callee args site :=
    fun ⟨m1, h1⟩ => ⟨m1, bind_error m h1⟩
  have hends := h.ends
  cases hact : act call m with
  | error e m1 =>
    rw [hact] at hends
    have hbind : (act call >>= fun a => f a call) m = .error e m1 := bind_error m hact
    refine ⟨fun callee args site => (h.steady callee args site).imp (fun heq => ?_)
      (And.imp id hcalls), ?_⟩
    · exact (bind_error m (heq.trans hact)).trans hbind.symm
    · simp only [hbind]
      cases e with
      | script e =>
        exact ⟨hends.1, hends.2.imp id fun ⟨callee, args, site, m2, hcall, hmade⟩ =>
          ⟨callee, args, site, m2, hcall, hcalls hmade⟩⟩
      | outsideStack | outOfSteps => trivial
  | ok a m1 =>
    rw [hact] at hends
    obtain ⟨hsame, hf⟩ := hends
    have hbind : (act call >>= fun a => f a call) m = f a call m1 := bind_ok m hact
    -- a call of the second part is one of the whole, unless the first part makes it already
    have hlater : ∀ {callee args site}, Calls (f a) call m1 callee args site →
        Calls (fun c => act c >>= fun a => f a c) call m callee args site := by
      rintro callee args site ⟨m2, h2⟩
      rcases h.steady callee args site with heq | ⟨-, hmade⟩
      · exact ⟨m2, (bind_ok m (heq.trans hact)).trans h2⟩
      · exact hcalls hmade
    refine ⟨fun callee args site => ?_, ?_⟩
    · rcases h.steady callee args site with heq | hmade
      · exact (hf.steady callee args site).imp
          (fun heq2 => ((bind_ok m (heq.trans hact)).trans heq2).trans hbind.symm)
          (And.imp hsame.trans hlater)
      · exact .inr (hmade.imp id hcalls)
    · simp only [hbind]
      exact hf.ends.imp (fun _ _ => id) hsame fun e ⟨callee, args, site, m3, hcall, hmade⟩ =>
        ⟨callee, args, site, m3, hcall, hlater hmade⟩

/-- A call that is made while the action fails finds the activations as they were. -/
theorem site_same {callee : Value} {args : List Value} {site : Machine} {e : ScriptError}
    (h : Tells act call Q m) (hcalls : Calls act call m callee args site)
    (hfail : act call m = .error (.script e) m') : SameActive m site := by
  rcases h.steady callee args site with heq | ⟨hsame, -⟩
  · obtain ⟨m1, hmade⟩ := hcalls
    rw [heq, hfail] at hmade
    cases hmade
  · exact hsame

/-- A first part that cannot fail. -/
theorem next {act : Exec α} {a : α} (h : act m = .ok a m') (hsame : SameActive m m')
    (hf : Tells (f a) call P m') : Tells (fun c => act >>= fun a => f a c) call P m :=
  bind (of_ok h ⟨hsame, hf⟩)

/-- The action ends in another way. -/
theorem ending {act' : Caller → Exec α} {fo : Machine → Machine} {fe : Fault → Machine → Machine}
    (hact : ∀ c, act' c m = altered fo fe (act c m)) (h : Tells act call Q m)
    (hq : ∀ a m', Q a m' → Q' a (fo m')) (he : ∀ e m', SameActive m' (fe e m')) :
    Tells act' call Q' m := by
  have hcalls : ∀ {callee args site}, Calls act call m callee args site →
      Calls act' call m callee args site := fun ⟨m1, h1⟩ =>
    ⟨fe .outOfSteps m1, by rw [hact, h1]; rfl⟩
  refine ⟨fun callee args site => (h.steady callee args site).imp (fun heq => ?_)
    (And.imp id hcalls), ?_⟩
  · rw [hact, hact, heq]
  · have hends := h.ends
    rw [hact]
    cases hr : act call m with
    | ok a m1 =>
      rw [hr] at hends
      exact hq a m1 hends
    | error e m1 =>
      rw [hr] at hends
      cases e with
      | script e =>
        exact ⟨hends.1.trans (he _ m1), hends.2.imp id fun ⟨callee, args, site, m2, hcall, hmade⟩ =>
          ⟨callee, args, site, m2, hcall, hcalls hmade⟩⟩
      | outsideStack | outOfSteps => trivial

theorem owning (h : Tells act call Q m) (hq : ∀ a m' h, Q a m' → Q' a (m'.withHeap h)) :
    Tells (fun c => Exec.owning vs (act c)) call Q' m := by
  let release : Machine → Machine := fun m => m.withHeap (m.heap.releaseAll vs.reverse)
  have hact : ∀ c, Exec.owning vs (act c) m = altered release (fun _ => release) (act c m) := by
    intro c
    unfold Exec.owning
    cases act c m <;> simp only [releaseAll_eq, altered, release]
  exact ending hact h (fun a m' hm => hq a m' _ hm) fun _ _ => ⟨rfl, rfl⟩

theorem handing (h : Tells act call Q m) : Tells (fun c => Exec.handing v (act c)) call Q m := by
  have hact : ∀ c, Exec.handing v (act c) m =
      altered id (fun _ m => m.withHeap (m.heap.release v)) (act c m) := by
    intro c
    unfold Exec.handing
    cases act c m <;> simp only [release_eq, altered, id]
  exact ending hact h (fun _ _ hm => hm) fun _ _ => ⟨rfl, rfl⟩

end Tells

namespace Telling

variable {call : Caller} {act : Caller → Exec α} {f : α → Caller → Exec β} {vs : List Value}
variable {v : Value}

/-- An action that never fails and leaves the activations alone. -/
theorem of_same {act : Exec α} (h : ∀ m, ∃ a m', act m = .ok a m' ∧ SameActive m m') :
    Telling (fun _ => act) call := fun m => by
  obtain ⟨a, m', hok, hsame⟩ := h m
  exact .of_ok hok hsame

theorem pure (a : α) : Telling (fun _ => (Pure.pure a : Exec α)) call :=
  of_same fun m => ⟨a, m, rfl, .refl m⟩

theorem fail {e : ScriptError} (he : e.trace = []) :
    Telling (fun _ => (Exec.fail e : Exec α)) call := fun m => .of_fail rfl (.refl m) he

theorem malformed (message : String) :
    Telling (fun _ => (Exec.malformed message : Exec α)) call := fail rfl

theorem bind (h : Telling act call) (hf : ∀ a, Telling (f a) call) :
    Telling (fun c => act c >>= fun a => f a c) call := fun m =>
  .bind ((h m).mono fun a m1 hsame => ⟨hsame, (hf a m1).mono fun _ _ => hsame.trans⟩)

theorem get : Telling (fun _ => (MonadState.get : Exec Machine)) call :=
  of_same fun m => ⟨m, m, rfl, .refl m⟩

theorem modifyGet {g : Machine → α × Machine} (hg : ∀ m, SameActive m (g m).2) :
    Telling (fun _ => (MonadStateOf.modifyGet g : Exec α)) call :=
  of_same fun m => ⟨(g m).1, (g m).2, rfl, hg m⟩

theorem ofExcept {r : Except ScriptError α} (h : ∀ e, r = .error e → e.trace = []) :
    Telling (fun _ => Exec.ofExcept r) call := by
  cases r with
  | ok a => exact pure a
  | error e => exact fail (h e rfl)

theorem ofSlot (r : Except SlotError α) : Telling (fun _ => Exec.ofSlot r) call := by
  cases r with
  | ok a => exact pure a
  | error e => exact fail rfl

theorem heap (g : Heap → α × Heap) : Telling (fun _ => Exec.heap g) call :=
  of_same fun m => ⟨_, _, heap_eq m g, rfl, rfl⟩

theorem updateHeap (g : Heap → Heap) : Telling (fun _ => Exec.updateHeap g) call := heap _

theorem readHeap (g : Heap → α) : Telling (fun _ => Exec.readHeap g) call :=
  get.bind fun _ => pure _

theorem slotHeap (g : Heap → Except SlotError α × Heap) :
    Telling (fun _ => Exec.slotHeap g) call := (heap g).bind ofSlot

/-- An error that is made up from the heap. -/
theorem failWith {g : Heap → ScriptError} (hg : ∀ h, (g h).trace = []) :
    Telling (fun _ => Exec.readHeap g >>= fun e => (Exec.fail e : Exec α)) call := fun m =>
  have hread : Exec.readHeap g m = .ok (g m.heap) m := rfl
  .next hread (.refl m) (fail (hg m.heap) m)

/-- An operation of the heap that refuses. -/
theorem heapExcept {g : Heap → Except ScriptError α × Heap}
    (hg : ∀ h e, (g h).1 = .error e → e.trace = []) :
    Telling (fun _ => Exec.heap g >>= fun r => Exec.ofExcept r) call := fun m =>
  .next (heap_eq m g) ⟨rfl, rfl⟩ ((ofExcept (hg m.heap) _).mono fun _ _ => .trans ⟨rfl, rfl⟩)

theorem retain (v : Value) : Telling (fun _ => Exec.retain v) call :=
  of_same fun m => ⟨(), _, retain_eq m v, rfl, rfl⟩

theorem release (v : Value) : Telling (fun _ => Exec.release v) call :=
  of_same fun m => ⟨(), _, release_eq m v, rfl, rfl⟩

theorem retainAll (vs : List Value) : Telling (fun _ => Exec.retainAll vs) call :=
  of_same fun m => ⟨(), _, retainAll_eq m vs, rfl, rfl⟩

theorem releaseAll (vs : List Value) : Telling (fun _ => Exec.releaseAll vs) call :=
  of_same fun m => ⟨(), _, releaseAll_eq m vs, rfl, rfl⟩

theorem owning (h : Telling act call) : Telling (fun c => Exec.owning vs (act c)) call := fun m =>
  (h m).owning fun _ _ _ hsame => ⟨hsame.frames, hsame.depth⟩

theorem holding (h : Telling act call) : Telling (fun c => Exec.holding vs (act c)) call :=
  (retainAll vs).bind fun _ => owning h

theorem handing (h : Telling act call) : Telling (fun c => Exec.handing v (act c)) call :=
  fun m => (h m).handing

theorem handingAll (h : Telling act call) : Telling (fun c => Exec.handingAll vs (act c)) call := by
  intro m
  have hact : ∀ c, Exec.handingAll vs (act c) m =
      altered id (fun _ m => m.withHeap (m.heap.releaseAll vs)) (act c m) := by
    intro c
    unfold Exec.handingAll
    cases act c m <;> simp only [releaseAll_eq, altered, id]
  exact .ending hact (h m) (fun _ _ hm => hm) fun _ _ => ⟨rfl, rfl⟩

theorem noting (h : Telling act call) : Telling (fun c => Exec.noting (act c)) call := by
  intro m
  let note : Fault → Machine → Machine := fun fault m =>
    fault.casesOn (fun e => { m with lastError := some e }) m m
  have hact : ∀ c, Exec.noting (act c) m = altered id note (act c m) := by
    intro c
    unfold Exec.noting
    cases act c m with
    | ok a m1 => rfl
    | error e m1 => cases e <;> rfl
  exact .ending hact (h m) (fun _ _ hm => hm) fun e _ => by cases e <;> exact ⟨rfl, rfl⟩

theorem steering (h : Telling act call) : Steering act call := fun m =>
  (h m).mono fun _ _ => SameActive.steered

end Telling

namespace Steering

variable {call : Caller} {act : Caller → Exec α} {f : α → Caller → Exec β} {vs : List Value}

theorem after (h : Telling act call) (hf : ∀ a, Steering (f a) call) :
    Steering (fun c => act c >>= fun a => f a c) call := fun m =>
  .bind ((h m).mono fun a m1 hsame => ⟨hsame, (hf a m1).mono fun _ _ => hsame.then_steered⟩)

theorem owning (h : Steering act call) : Steering (fun c => Exec.owning vs (act c)) call := fun m =>
  (h m).owning fun _ _ _ hs => hs.then_same ⟨rfl, rfl⟩

theorem holding (h : Steering act call) : Steering (fun c => Exec.holding vs (act c)) call :=
  after (.retainAll vs) fun _ => owning h

end Steering

end

/-! ## Stack and registers -/

section

variable {call : Caller} (base : Nat) (r : Int64) (v : Value)

theorem slot?_tells (i : Nat) : Telling (fun _ => slot? i) call := Telling.get.bind fun _ => .pure _

theorem stackSize_tells : Telling (fun _ => stackSize) call := Telling.get.bind fun _ => .pure _

theorem writeSlot_tells (i : Nat) : Telling (fun _ => writeSlot i v) call := .of_same fun m => by
  cases hslot : m.stack[i]? with
  | none => exact ⟨_, _, writeSlot_missing v hslot, rfl, rfl⟩
  | some old => exact ⟨_, _, writeSlot_found v hslot, rfl, rfl⟩

theorem nullSlots_tells (start count : Nat) : Telling (fun _ => nullSlots start count) call := by
  induction count generalizing start with
  | zero => exact .pure ()
  | succ count ih => exact (writeSlot_tells .null start).bind fun _ => ih (start + 1)

theorem indexArg_tells (what : String) : Telling (fun _ => indexArg r what) call := by
  unfold indexArg
  by_cases h : r < 0
  · simp only [if_pos h]
    exact .malformed _
  · simp only [if_neg h]
    exact .pure _

theorem registerSlot_tells : Telling (fun _ => registerSlot base r) call := by
  unfold registerSlot
  by_cases h : r < 0
  · simp only [if_pos h]
    exact .malformed _
  · simp only [if_neg h]
    exact .pure _

theorem register_tells : Telling (fun _ => register base r) call := by
  refine (registerSlot_tells base r).bind fun i => (slot?_tells i).bind fun v => ?_
  cases v with
  | none => exact .malformed _
  | some v => exact .pure v

theorem setRegister_tells : Telling (fun _ => setRegister base r v) call := by
  refine .handing ((registerSlot_tells base r).bind fun i => (writeSlot_tells v i).bind
    fun written => ?_)
  cases written with
  | true => exact .pure ()
  | false => exact .malformed _

theorem setOptional_tells : Telling (fun _ => setOptional base r v) call := by
  unfold setOptional
  cases isPresent r with
  | true => exact setRegister_tells base r v
  | false => exact .release v

theorem currentFrame_tells : Telling (fun _ => currentFrame) call := by
  refine Telling.get.bind fun m => ?_
  cases m.frames with
  | nil => exact .malformed _
  | cons f rest => exact .pure f

theorem setIp_steers (ip : Nat) : Steering (fun _ => setIp ip) call := by
  intro m
  cases hf : m.frames with
  | nil =>
    refine .of_ok (show setIp ip m = .ok () m from ?_) (SameActive.refl m).steered
    show EStateM.Result.ok () _ = _
    simp only [hf]
  | cons f rest => exact .of_ok (setIp_eq ip hf) ⟨.inr ⟨f, rest, ip, hf, rfl⟩, rfl⟩

theorem jump_steers (offset : Int64) : Steering (fun _ => jump offset) call := by
  refine .after currentFrame_tells fun f => ?_
  by_cases h : Int64.ofNat f.ip + offset < 0
  · simp only [if_pos h]
    exact (Telling.malformed _).steering
  · simp only [if_neg h]
    exact setIp_steers _

theorem ofLiteral_tells (l : Literal) : Telling (fun _ => ofLiteral l) call := by
  unfold ofLiteral
  cases l with
  | string | space => exact .heap _
  | _ => exact .pure _

theorem literal_tells (index : Int64) : Telling (fun _ => literal index) call := by
  refine currentFrame_tells.bind fun f => ?_
  cases (if index < 0 then none else f.prototype.literals[index.toInt.toNat]?) with
  | some l => exact ofLiteral_tells l
  | none => exact .malformed _

theorem sharing_tells : Telling (fun _ => sharing v) call := (Telling.retain v).bind fun _ => .pure v

theorem closeOuters_tells (slot : Nat) : Telling (fun _ => closeOuters slot) call :=
  .of_same fun m => ⟨(), _, closeOuters_eq slot m, rfl, rfl⟩

end

/-! ## Members and operators -/

section

variable {call : Caller}

/-- Errors of operators are new. -/
theorem numeric_trace {op : ArithOp} {a b : Value} {e : ScriptError}
    (h : Operator.numeric op a b = .error e) : e.trace = [] := by
  unfold Operator.numeric Operator.integer Operator.complex at h
  repeat' split at h
  all_goals first | cases h; rfl | cases h

theorem arith_trace (op : ArithOp) (a b : Value) (h : Heap) (e : ScriptError)
    (he : (h.arith op a b).1 = .error e) : e.trace = [] := by
  unfold Heap.arith at he
  split at he
  · cases he
  · cases he
  · cases he
  · exact numeric_trace he

theorem bitwise_trace {op : BitwiseOp} {a b : Value} (e : ScriptError)
    (h : Operator.bitwise op a b = .error e) : e.trace = [] := by
  unfold Operator.bitwise at h
  split at h <;> cases h
  rfl

theorem bitNot_trace {v : Value} (e : ScriptError) (h : Operator.bitNot v = .error e) :
    e.trace = [] := by
  unfold Operator.bitNot at h
  split at h <;> cases h
  rfl

theorem negate_trace {v : Value} (e : ScriptError) (h : Operator.negate v = .error e) :
    e.trace = [] := by
  unfold Operator.negate at h
  split at h <;> cases h
  rfl

theorem statedOrder_trace {v : Value} (e : ScriptError) (h : statedOrder v = .error e) :
    e.trace = [] := by
  unfold statedOrder at h
  split at h <;> cases h
  rfl

theorem compare_trace {a b : Value} (e : ScriptError) (h : Operator.compare a b = .error e) :
    e.trace = [] := by
  unfold Operator.compare Operator.compareFloats at h
  repeat' split at h
  all_goals first | cases h; rfl | cases h

variable (hc : TellingCalls call)

include hc in
theorem callMeta_tells (m : Value) (lent owned : List Value) :
    Telling (fun c => callMeta c m lent owned) call :=
  .holding ((Telling.retainAll _).bind fun _ => hc _ _)

theorem keyDelegate?_tells (tag : TypeTag) (key : Value) :
    Telling (fun _ => keyDelegate? tag key) call := by
  unfold keyDelegate?
  cases key with
  | string => exact Telling.get.bind fun _ => .pure _
  | _ => exact .pure none

include hc in
theorem getMember_tells (obj key : Value) : Telling (fun c => getMember c obj key) call := by
  refine (Telling.readHeap _).bind fun found => ?_
  rcases found with e | (_ | v)
  · exact .fail rfl
  · refine (Telling.readHeap _).bind fun method => ?_
    cases method with
    | some m => exact callMeta_tells hc _ _ _
    | none =>
      refine (keyDelegate?_tells _ _).bind fun found => ?_
      cases found with
      | some v => exact sharing_tells _
      | none => exact .failWith fun _ => rfl
  · exact sharing_tells _

theorem storingKey_tells (key : Value) (stored : List Value) :
    Telling (fun _ => storingKey key stored) call := by
  unfold storingKey
  cases key.keyText with
  | ok t => exact .pure t
  | error e => exact (Telling.releaseAll _).bind fun _ => .fail rfl

theorem requireFound_tells (name : String) (found : Bool) :
    Telling (fun _ => requireFound name found) call := by
  cases found with
  | true => exact .pure ()
  | false => exact .fail rfl

include hc in
theorem assignThrough_tells (obj key v : Value) :
    Telling (fun c => assignThrough c obj key v) call := by
  refine (Telling.readHeap _).bind fun method => ?_
  cases method with
  | some m => exact (callMeta_tells hc _ _ _).bind Telling.release
  | none => exact (Telling.release v).bind fun _ => .failWith fun _ => rfl

include hc in
theorem setMember_tells (obj key v : Value) : Telling (fun c => setMember c obj key v) call := by
  unfold setMember
  cases obj with
  | dict | classObject =>
    exact (storingKey_tells _ _).bind fun k => (Telling.heap _).bind fun found =>
      requireFound_tells _ _
  | array =>
    cases key with
    | integer => exact .slotHeap _
    | _ => exact (Telling.release v).bind fun _ => .fail rfl
  | instanceObject r =>
    have hend : ∀ stored : Bool, Telling (fun c =>
        if stored then Exec.release v else assignThrough c (.instanceObject r) key v) call := by
      intro stored
      cases stored with
      | true => exact .release v
      | false => exact assignThrough_tells hc _ _ _
    refine (Telling.retain v).bind fun _ => ?_
    cases key with
    | string => exact (Telling.heap _).bind hend
    | _ => exact (Telling.release v).bind fun _ => hend false
  | _ => exact (Telling.release v).bind fun _ => .fail rfl

include hc in
theorem newClassMember_tells (cls : Ref) (key v attributes : Value) (isStatic : Bool) :
    Telling (fun c => newClassMember c cls key v attributes isStatic) call := by
  refine (Telling.readHeap _).bind fun method => ?_
  cases method with
  | some m => exact (callMeta_tells hc _ _ _).bind Telling.release
  | none =>
    refine (storingKey_tells _ _).bind fun k => Telling.bind
      (.handing ((Telling.retain key).bind fun _ => .slotHeap _)) fun _ => ?_
    cases attributes.isNull with
    | true => exact .pure ()
    | false => exact .slotHeap _

include hc in
theorem newSlot_tells (obj key v : Value) : Telling (fun c => newSlot c obj key v) call := by
  unfold newSlot
  cases obj with
  | dict =>
    exact (storingKey_tells _ _).bind fun k => (Telling.retain key).bind fun _ => .updateHeap _
  | classObject => exact newClassMember_tells hc _ _ _ _ _
  | instanceObject =>
    refine (Telling.readHeap _).bind fun method => ?_
    cases method with
    | some m => exact (callMeta_tells hc _ _ _).bind Telling.release
    | none => exact (Telling.release v).bind fun _ => .fail rfl
  | _ => exact (Telling.release v).bind fun _ => .fail rfl

include hc in
theorem deleteSlot_tells (obj key : Value) : Telling (fun c => deleteSlot c obj key) call := by
  unfold deleteSlot
  cases obj with
  | dict =>
    refine (Telling.ofSlot _).bind fun k => (Telling.heap _).bind fun gone => ?_
    cases gone with
    | some v => exact .pure v
    | none => exact .fail rfl
  | array =>
    cases key with
    | integer => exact .slotHeap _
    | _ => exact .fail rfl
  | instanceObject =>
    refine (Telling.readHeap _).bind fun method => ?_
    cases method with
    | some m => exact callMeta_tells hc _ _ _
    | none => exact .fail rfl
  | _ => exact .fail rfl

include hc in
theorem displayText_tells (v : Value) : Telling (fun c => displayText c v) call := by
  refine (Telling.readHeap _).bind fun method => ?_
  cases method with
  | none => exact .readHeap _
  | some m => exact (callMeta_tells hc _ _ _).bind fun _ => .owning (.readHeap _)

include hc in
theorem arithOp_tells (op : ArithOp) (a b : Value) : Telling (fun c => arithOp c op a b) call := by
  refine (Telling.readHeap _).bind fun method => ?_
  cases method with
  | some m => exact callMeta_tells hc _ _ _
  | none =>
    dsimp only
    have hplain : Telling (fun _ => Exec.heap (fun (h : Heap) => h.arith op a b) >>= fun r =>
        Exec.ofExcept r) call := .heapExcept (arith_trace op a b)
    cases op <;> try exact hplain
    cases a <;> cases b <;> first
      | exact hplain
      | exact (displayText_tells hc _).bind fun _ => .heap _

include hc in
theorem negateOp_tells (v : Value) : Telling (fun c => negateOp c v) call := by
  refine (Telling.readHeap _).bind fun method => ?_
  cases method with
  | some m => exact callMeta_tells hc _ _ _
  | none => exact .ofExcept negate_trace

include hc in
theorem compareOp_tells (a b : Value) : Telling (fun c => compareOp c a b) call := by
  refine (Telling.readHeap _).bind fun method => ?_
  cases method with
  | some m => exact (callMeta_tells hc _ _ _).bind fun _ => .owning (.ofExcept statedOrder_trace)
  | none => exact .ofExcept compare_trace

include hc in
theorem typeOf_tells (v : Value) : Telling (fun c => typeOf c v) call := by
  refine (Telling.readHeap _).bind fun method => ?_
  cases method with
  | some m => exact callMeta_tells hc _ _ _
  | none => exact .heap _

theorem instanceOf_tells (cls obj : Value) : Telling (fun _ => instanceOf cls obj) call := by
  unfold instanceOf
  cases cls with
  | classObject =>
    cases obj with
    | instanceObject => exact .readHeap _
    | _ => exact .pure false
  | _ => exact .fail rfl

end

/-! ## New objects -/

section

variable {call : Caller} (base : Nat) (i : Instruction)

theorem gather_tells {α : Type} {make : α → Exec Value}
    (hmake : ∀ a, Telling (fun _ => make a) call) (made : List Value) (as : List α) :
    Telling (fun _ => gather make made as) call := by
  induction as generalizing made with
  | nil => exact .pure made
  | cons a as ih => exact (Telling.handingAll (hmake a)).bind fun v => ih _

theorem currentOuters_tells : Telling (fun _ => currentOuters) call := by
  refine currentFrame_tells.bind fun f => (Telling.readHeap _).bind fun c => ?_
  cases c <;> exact .pure _

theorem captureCell_tells (outers : List Ref) (c : Capture) :
    Telling (fun _ => captureCell base outers c) call := by
  unfold captureCell
  cases c.kind with
  | register => exact (Telling.modifyGet fun _ => ⟨rfl, rfl⟩).bind fun c => .pure _
  | outer =>
    cases outers[c.index]? with
    | some cell => exact sharing_tells _
    | none => exact .malformed _

theorem defaultCopy_tells (r : Int64) : Telling (fun _ => defaultCopy base r) call :=
  (register_tells base r).bind fun _ => .heap _

theorem closureInstruction_tells : Telling (fun _ => closureInstruction base i) call := by
  refine (indexArg_tells _ _).bind fun index => currentFrame_tells.bind fun f => ?_
  cases f.prototype.functions[index]? with
  | none => exact .malformed _
  | some p =>
    exact currentOuters_tells.bind fun outers =>
      (gather_tells (captureCell_tells base outers) _ _).bind fun cells =>
        Telling.bind (.handingAll (gather_tells (defaultCopy_tells base) _ _)) fun _ =>
          (Telling.heap _).bind fun c => setRegister_tells _ _ _

theorem baseClass_tells (r : Int64) : Telling (fun _ => baseClass base r) call := by
  unfold baseClass
  cases isPresent r with
  | true =>
    refine (register_tells base r).bind fun v => ?_
    cases v with
    | classObject => exact .pure _
    | _ => exact .fail rfl
  | false => exact .pure none

theorem optionalRegister_tells (r : Int64) : Telling (fun _ => optionalRegister base r) call := by
  unfold optionalRegister
  cases isPresent r with
  | true => exact register_tells base r
  | false => exact .pure Value.null

variable (hc : TellingCalls call)

include hc in
theorem announce_tells (parent : Option Ref) (cls : Ref) (attributes : Value) :
    Telling (fun c => announce c parent cls attributes) call := by
  unfold announce
  cases parent with
  | none => exact .pure ()
  | some p =>
    refine (Telling.readHeap _).bind fun method => ?_
    cases method with
    | none => exact .pure ()
    | some m => exact (callMeta_tells hc _ _ _).bind Telling.release

include hc in
theorem newClassValue_tells : Telling (fun c => newClassValue c base i) call :=
  (baseClass_tells base _).bind fun _ => (optionalRegister_tells base _).bind fun _ =>
    Telling.get.bind fun _ => (Telling.heap _).bind fun _ => (Telling.retain _).bind fun _ =>
      (Telling.updateHeap _).bind fun _ =>
        (Telling.handing (announce_tells hc _ _ _)).bind fun _ => .pure _

include hc in
theorem newObjectInstruction_tells : Telling (fun c => newObjectInstruction c base i) call := by
  unfold newObjectInstruction
  cases ObjectKind.ofCode? i.arg3 with
  | none => exact .malformed _
  | some kind =>
    cases kind with
    | dict | array => exact (Telling.heap _).bind fun _ => setRegister_tells _ _ _
    | classObject => exact (newClassValue_tells base i hc).bind fun _ => setRegister_tells _ _ _

include hc in
theorem newMemberInstruction_tells : Telling (fun c => newMemberInstruction c base i) call := by
  refine (register_tells base _).bind fun cls => ?_
  cases cls with
  | classObject r =>
    refine (register_tells base _).bind fun key => (register_tells base _).bind fun v => ?_
    have hend : ∀ attributes : Value, Telling (fun c => holding [.classObject r, key] do
        retainAll [v, attributes]
        newClassMember c r key v attributes (i.arg0 &&& 1 != 0)) call := fun _ =>
      .holding ((Telling.retainAll _).bind fun _ => newClassMember_tells hc _ _ _ _ _)
    dsimp only
    cases i.arg0 &&& 2 != 0 with
    | true => exact (register_tells base _).bind hend
    | false => exact hend .null
  | _ => exact .fail rfl

theorem appendedValue_tells : ∀ source, Telling (fun _ => appendedValue base i source) call
  | .register => (register_tells base _).bind fun v => sharing_tells v
  | .literal => literal_tells _
  | .integer | .float | .bool => .pure _

theorem appendInstruction_tells : Telling (fun _ => appendInstruction base i) call := by
  refine (register_tells base _).bind fun target => ?_
  cases target with
  | array =>
    cases AppendSource.ofCode? i.arg2 with
    | none => exact .malformed _
    | some source => exact (appendedValue_tells base i _).bind fun v => .updateHeap _
  | _ => exact .fail rfl

/-! ## Iteration -/

theorem sharingVisit_tells (visit : Option Visit) : Telling (fun _ => sharingVisit visit) call := by
  unfold sharingVisit
  cases visit with
  | none => exact .pure none
  | some s => exact (Telling.retainAll _).bind fun _ => .pure _

include hc in
theorem instanceVisit_tells (container state : Value) :
    Telling (fun c => instanceVisit c container state) call := by
  refine (Telling.readHeap _).bind fun method => ?_
  cases method with
  | none => exact .fail rfl
  | some m =>
    refine .holding ((Telling.retainAll _).bind fun _ => (hc _ _).bind fun key => ?_)
    cases hnull : key.isNull with
    | true =>
      simp only [if_true]
      exact .pure none
    | false =>
      simp only [Bool.false_eq_true, if_false]
      exact (Telling.handing (getMember_tells hc _ _)).bind fun v =>
        (Telling.retain key).bind fun _ => .pure _

include hc in
theorem nextVisit_tells (container state : Value) :
    Telling (fun c => nextVisit c container state) call := by
  unfold nextVisit
  cases container with
  | array | dict => exact (Telling.readHeap _).bind fun _ => sharingVisit_tells _
  | string => exact sharingVisit_tells _
  | instanceObject => exact instanceVisit_tells hc _ _
  | _ => exact .fail rfl

include hc in
theorem foreachInstruction_steers : Steering (fun c => foreachInstruction c base i) call := by
  refine .after (register_tells base _) fun container => .after (register_tells base _) fun state =>
    .holding (.after (nextVisit_tells hc _ _) fun visit => ?_)
  cases visit with
  | none => exact jump_steers _
  | some s =>
    exact Telling.steering ((Telling.handing ((Telling.handing (setRegister_tells _ _ _)).bind fun _ =>
      setRegister_tells _ _ _)).bind fun _ => setRegister_tells _ _ _)

end

/-! ## Other instructions -/

section

variable {call : Caller} {base : Nat} {i : Instruction}

theorem outerCell_tells (index : Int64) : Telling (fun _ => outerCell index) call := by
  refine (indexArg_tells index _).bind fun k => currentOuters_tells.bind fun cells => ?_
  cases cells[k]? with
  | some c => exact .pure c
  | none => exact .malformed _

theorem ownerBase_tells : Telling (fun _ => ownerBase) call := by
  refine currentFrame_tells.bind fun f => (Telling.readHeap _).bind fun parent => ?_
  cases parent with
  | some b => exact sharing_tells _
  | none => exact .pure Value.null

theorem writeOuter_tells (cell : Ref) (v : Value) : Telling (fun _ => writeOuter cell v) call :=
  .of_same fun m => ⟨(), _, writeOuter_eq cell v m, rfl, rfl⟩

theorem setOuterInstruction_tells : Telling (fun _ => setOuterInstruction base i) call :=
  (outerCell_tells i.arg1).bind fun cell => (register_tells base i.arg2).bind fun v =>
    (Telling.retainAll _).bind fun _ => (writeOuter_tells cell v).bind fun _ =>
      setOptional_tells base i.arg0 v

/-- What is done with the result of a comparison may be a jump. -/
theorem comparing_steers (hc : TellingCalls call) (code a b : Int64) {use : Value → Exec Unit}
    (huse : ∀ v, Steering (fun _ => use v) call) :
    Steering (fun c => comparing c code base a b use) call := by
  unfold comparing
  cases CompareOp.ofCode? code with
  | none => exact (Telling.malformed _).steering
  | some op =>
    exact .after (register_tells base a) fun x => .after (register_tells base b) fun y =>
      .holding (.after (compareOp_tells hc x y) fun o => huse _)

theorem moveRegister_tells (target source : Int64) :
    Telling (fun _ => moveRegister base target source) call :=
  (register_tells base source).bind fun v => (sharing_tells v).bind fun _ =>
    setRegister_tells base target _

theorem loadLiteral_tells (target index : Int64) :
    Telling (fun _ => loadLiteral base target index) call :=
  (literal_tells index).bind fun v => setRegister_tells base target v

theorem prepareCall_tells (hc : TellingCalls call) (key obj : Value) :
    Telling (fun c => prepareCall c base i key obj) call :=
  (getMember_tells hc obj key).bind fun m => Telling.bind
    (.handing ((Telling.retain obj).bind fun _ => setRegister_tells base i.arg3 obj))
    fun _ => setRegister_tells base i.arg0 m

theorem arithInstruction_tells (hc : TellingCalls call) (op : ArithOp) :
    Telling (fun c => arithInstruction c op base i) call :=
  (register_tells base i.arg1).bind fun a => (register_tells base i.arg2).bind fun b =>
    .holding ((arithOp_tells hc op a b).bind fun v => setRegister_tells base i.arg0 v)

theorem bitwiseInstruction_tells : Telling (fun _ => bitwiseInstruction base i) call := by
  unfold bitwiseInstruction
  cases BitwiseOp.ofCode? i.arg3 with
  | none => exact .malformed _
  | some op =>
    exact (register_tells base i.arg1).bind fun _ => (register_tells base i.arg2).bind
      fun _ => (Telling.ofExcept bitwise_trace).bind fun v => setRegister_tells base i.arg0 v

theorem literalEquality_tells (wanted : Bool) :
    Telling (fun _ => literalEquality base i wanted) call :=
  (literal_tells i.arg1).bind fun _ => .owning ((register_tells base i.arg2).bind fun _ =>
    setRegister_tells base i.arg0 _)

theorem shortCircuit_steers (onFalsy : Bool) :
    Steering (fun _ => shortCircuit base i onFalsy) call := by
  refine .after (register_tells base i.arg2) fun v => ?_
  cases h : v.isFalsy == onFalsy with
  | true =>
    simp only [if_true]
    exact .after (.retain v) fun _ => .after (setRegister_tells base i.arg0 v) fun _ => jump_steers i.arg1
  | false =>
    simp only [Bool.false_eq_true, if_false]
    exact (Telling.pure ()).steering

theorem window_tells (start count : Nat) : Telling (fun _ => window start count) call := by
  refine Telling.get.bind fun m => ?_
  by_cases h : start + count ≤ m.stack.size
  · simp only [if_pos h]
    exact .pure _
  · simp only [if_neg h]
    exact .malformed _

theorem resultSlot_tells (base : Nat) (r : Int64) : Telling (fun _ => resultSlot base r) call := by
  unfold resultSlot
  cases isPresent r with
  | true =>
    refine (registerSlot_tells base r).bind fun slot => stackSize_tells.bind fun n => ?_
    by_cases h : slot < n
    · simp only [if_pos h]
      exact .pure _
    · simp only [if_neg h]
      exact .malformed _
  | false => exact .pure none

theorem callForeign_tells (hc : TellingCalls call) (callee : Value) (start count : Nat)
    (target : Option Nat) :
    Telling (fun c => callForeign c base i callee start count target) call := by
  refine .holding ((window_tells start count).bind fun args =>
    (Telling.retainAll args).bind fun _ => (hc callee args).bind fun result => ?_)
  cases target with
  | none => exact .release result
  | some _ => exact setRegister_tells base i.arg0 result

theorem loadNullsInstruction_tells : Telling (fun _ => loadNullsInstruction base i) call :=
  (registerSlot_tells base i.arg0).bind fun _ => (indexArg_tells i.arg1 _).bind fun _ =>
    stackSize_tells.bind fun _ => nullSlots_tells _ _

theorem jumpWhen_steers (b : Bool) (offset : Int64) :
    Steering (fun _ => if b then jump offset else pure ()) call := by
  cases b with
  | true => exact jump_steers offset
  | false => exact (Telling.pure ()).steering

/-- An instruction that enters no function tells where its errors come from. -/
theorem effect_steers (hc : TellingCalls call) (hcall : i.opcode ≠ .call)
    (htail : i.opcode ≠ .tailCall) : Steering (fun c => effect c base i) call := by
  unfold effect
  have hput : ∀ v, Telling (fun _ => setRegister base i.arg0 v) call := fun v =>
    setRegister_tells _ _ v
  have hstore : ∀ (store : Caller → Value → Value → Value → Exec Unit),
      (∀ obj key v, Telling (fun c => store c obj key v) call) → Telling (fun c => do
        let obj ← register base i.arg1
        let key ← register base i.arg2
        let v ← register base i.arg3
        holding [obj, key] do
          retain v
          handing v do
            retain v
            store c obj key v
          setOptional base i.arg0 v) call := fun store hs =>
    (register_tells base i.arg1).bind fun obj => (register_tells base i.arg2).bind fun key =>
      (register_tells base i.arg3).bind fun v => .holding ((Telling.retain v).bind fun _ =>
        Telling.bind (.handing ((Telling.retain v).bind fun _ => hs obj key v)) fun _ =>
          setOptional_tells base i.arg0 v)
  cases hop : i.opcode with
  | load => exact (loadLiteral_tells _ _).steering
  | loadInteger | loadFloat | loadBool => exact (hput _).steering
  | doubleLoad => exact ((loadLiteral_tells _ _).bind fun _ => loadLiteral_tells _ _).steering
  | loadNulls => exact loadNullsInstruction_tells.steering
  | loadRoot => exact (Telling.get.bind fun m => (sharing_tells _).bind hput).steering
  | move => exact (moveRegister_tells _ _).steering
  | doubleMove => exact ((moveRegister_tells _ _).bind fun _ => moveRegister_tells _ _).steering
  | getOuter =>
    exact ((outerCell_tells i.arg1).bind fun c => Telling.bind
      (Telling.get.bind fun m => .pure _) fun v => (sharing_tells v).bind hput).steering
  | setOuter => exact setOuterInstruction_tells.steering
  | get =>
    exact ((register_tells base i.arg1).bind fun key => (register_tells base i.arg2).bind
      fun obj => .holding ((getMember_tells hc obj key).bind hput)).steering
  | getLiteral =>
    exact ((literal_tells i.arg1).bind fun key => .owning ((register_tells base i.arg2).bind
      fun obj => .holding ((getMember_tells hc obj key).bind hput))).steering
  | assign => exact (hstore setMember (setMember_tells hc)).steering
  | newSlot => exact (hstore newSlot (newSlot_tells hc)).steering
  | newMember => exact (newMemberInstruction_tells base i hc).steering
  | remove =>
    exact ((register_tells base i.arg1).bind fun obj => (register_tells base i.arg2).bind
      fun key => .holding ((deleteSlot_tells hc obj key).bind fun v =>
        setOptional_tells base i.arg0 v)).steering
  | add => exact (arithInstruction_tells hc .add).steering
  | sub => exact (arithInstruction_tells hc .sub).steering
  | mul => exact (arithInstruction_tells hc .mul).steering
  | div => exact (arithInstruction_tells hc .div).steering
  | mod => exact (arithInstruction_tells hc .mod).steering
  | exp => exact (arithInstruction_tells hc .exp).steering
  | bitwise => exact bitwiseInstruction_tells.steering
  | neg =>
    exact ((register_tells base i.arg1).bind fun v => .holding
      ((negateOp_tells hc v).bind hput)).steering
  | not => exact ((register_tells base i.arg1).bind fun v => hput _).steering
  | bitNot =>
    exact ((register_tells base i.arg1).bind fun v => (Telling.ofExcept bitNot_trace).bind hput).steering
  | eq | neq =>
    exact ((register_tells base i.arg1).bind fun _ => (register_tells base i.arg2).bind
      fun _ => hput _).steering
  | eqLiteral => exact (literalEquality_tells true).steering
  | neqLiteral => exact (literalEquality_tells false).steering
  | compare => exact comparing_steers hc _ _ _ fun v => (hput v).steering
  | jumpUnless => exact comparing_steers hc _ _ _ fun v => jumpWhen_steers v.isFalsy i.arg1
  | jump => exact jump_steers i.arg1
  | jumpIfFalsy => exact .after (register_tells base i.arg0) fun v => jumpWhen_steers v.isFalsy i.arg1
  | shortAnd => exact shortCircuit_steers true
  | shortOr => exact shortCircuit_steers false
  | prepareCall =>
    exact ((register_tells base i.arg1).bind fun key => (register_tells base i.arg2).bind
      fun obj => .holding (prepareCall_tells hc key obj)).steering
  | prepareCallLiteral =>
    exact ((literal_tells i.arg1).bind fun key => .owning ((register_tells base i.arg2).bind
      fun obj => .holding (prepareCall_tells hc key obj))).steering
  | call => exact absurd hop hcall
  | tailCall => exact absurd hop htail
  | ret => exact (Telling.pure ()).steering
  | close => exact ((registerSlot_tells base i.arg1).bind fun slot => closeOuters_tells slot).steering
  | closure => exact (closureInstruction_tells base i).steering
  | newObject => exact (newObjectInstruction_tells base i hc).steering
  | append => exact (appendInstruction_tells base i).steering
  | typeOf =>
    exact ((register_tells base i.arg1).bind fun v => .holding
      ((typeOf_tells hc v).bind hput)).steering
  | instanceOf =>
    exact ((register_tells base i.arg1).bind fun cls => (register_tells base i.arg2).bind
      fun obj => (instanceOf_tells cls obj).bind fun b => hput _).steering
  | has =>
    exact ((register_tells base i.arg1).bind fun obj => (register_tells base i.arg2).bind
      fun key => (Telling.readHeap _).bind fun b => hput _).steering
  | base => exact (ownerBase_tells.bind hput).steering
  | deepCopy => exact ((defaultCopy_tells base i.arg1).bind hput).steering
  | foreach => exact foreachInstruction_steers base i hc

end

end Exec

end ScriptMachine
