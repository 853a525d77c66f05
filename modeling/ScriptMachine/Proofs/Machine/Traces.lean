import ScriptMachine.Proofs.Machine.Succession

/-!
# Traces list the active calls

Where an error comes from is told step by step, from the call that it ends down to the
instruction, the refused callee or the native that raised it, with the activations that
it meets on the way. Its trace is the list of those that were alive when it was raised,
and they are just what the machine had on top of the caller then.
-/

set_option autoImplicit false

namespace ScriptMachine

/-- An activation that an error ends. -/
inductive Activation where
  /-- A function, as it was when it fetched the instruction that it executes. -/
  | script (f : Frame)
  | native (n : NativeObject)
  /-- A native that never ran, since its arguments do not fit. -/
  | rejected (n : NativeObject)

namespace Activation

def entry : Activation → TraceEntry
  | script f => ⟨f.prototype.name, f.prototype.source, f.prototype.lineFor f.ip, f.ip⟩
  | native n | rejected n => ⟨n.name.chars, "native", 0, 0⟩

/-- What the machine has of it, which is past the instruction. -/
def frame? : Activation → Option Frame
  | script f => some f.advance
  | native _ | rejected _ => none

def isNative : Activation → Bool
  | native _ => true
  | script _ | rejected _ => false

end Activation

namespace Exec

/-- A value whose call is a call of another value, if it can be called at all. -/
def Indirect : Value → Prop
  | .closure _ | .native _ => False
  | _ => True

/-- The call of such a value. -/
def through (n : Nat) (callee : Value) (args : List Value) (call : Caller) : Exec Value :=
  callWith (execute n) (perform (callValue n) []) call callee args

/-- The arguments of a call from outside the instruction loop. -/
def received (args : List Value) : List Value := if args.isEmpty then [.null] else args

mutual

/-- The call raises an error at a machine, where these activations are alive since the
call, the innermost first. -/
inductive CallRaises : Nat → Value → List Value → Machine → ScriptError → List Activation →
    Machine → Prop
  /-- A function that is not entered, as it is too deep or the arguments do not fit. -/
  | refused {n : Nat} {r : Ref} {args : List Value} {m m' : Machine} {e : ScriptError}
      (h : enter r args m = .error (.script e) m') : CallRaises (n + 1) (.closure r) args m e [] m'
  | entered {n : Nat} {r : Ref} {args : List Value} {m m1 mr : Machine} {e : ScriptError}
      {alive : List Activation} (h : enter r args m = .ok () m1)
      (hraises : RunRaises n [] m1 e alive mr) : CallRaises (n + 1) (.closure r) args m e alive mr
  /-- No native, or one that is too deep. -/
  | unreached {n : Nat} {r : Ref} {args : List Value} {m m' : Machine} {e : ScriptError}
      (hn : ∀ o, m.heap.native? r = some o →
        m.config.maxCallDepth ≤ m.frames.length + m.nativeDepth)
      (h : callValue (n + 1) (.native r) args m = .error (.script e) m') :
      CallRaises (n + 1) (.native r) args m e [] m'
  | rejected {n : Nat} {r : Ref} {args : List Value} {m : Machine} {e : ScriptError}
      {o : NativeObject} (hn : m.heap.native? r = some o)
      (hd : ¬ m.config.maxCallDepth ≤ m.frames.length + m.nativeDepth)
      (hp : o.prepare args = .error e) : CallRaises (n + 1) (.native r) args m e [.rejected o] m
  | served {n : Nat} {r : Ref} {args accepted : List Value} {m mr : Machine} {e : ScriptError}
      {alive : List Activation} {o : NativeObject} (hn : m.heap.native? r = some o)
      (hd : ¬ m.config.maxCallDepth ≤ m.frames.length + m.nativeDepth)
      (hp : o.prepare args = .ok accepted)
      (hraises : RoutineRaises n [] [] (o.behaviour accepted) (m.supplied o args).serving e alive mr) :
      CallRaises (n + 1) (.native r) args m e (alive ++ [.native o]) mr
  /-- An error of its own of a class, an instance or a value that cannot be called. -/
  | own {n : Nat} {callee : Value} {args : List Value} {m m' : Machine} {e : ScriptError}
      (hind : Indirect callee) (h : callValue (n + 1) callee args m = .error (.script e) m')
      (hown : ¬ PassedOn (through n callee args) (callValue n) m e) :
      CallRaises (n + 1) callee args m e [] m'
  | passed {n : Nat} {callee f : Value} {args vs : List Value} {m site m1 m2 mr : Machine}
      {e e' : ScriptError} {alive : List Activation} (hind : Indirect callee)
      (hcalls : Calls (through n callee args) (callValue n) m f vs site)
      (hfail : callValue n f vs site = .error (.script e') m1)
      (h : callValue (n + 1) callee args m = .error (.script e') m2)
      (hraises : CallRaises n f vs site e alive mr) : CallRaises (n + 1) callee args m e alive mr

/-- As much of the instruction loop, where these functions wait for their callees since
it was entered, each as it was when it fetched the instruction that calls. -/
inductive RunRaises : Nat → List Frame → Machine → ScriptError → List Activation → Machine → Prop
  /-- An instruction fails by itself. One that has left its function is no longer
  executed by it. -/
  | raised {n : Nat} {held rest : List Frame} {m m' : Machine} {f : Frame} {e : ScriptError}
      (hint : m.interrupted = false) (hf : m.frames = f :: rest)
      (h : step (callValue n) m = .error (.script e) m')
      (hown : ¬ PassedOn step (callValue n) m e) :
      RunRaises (n + 1) held m e
        (((f :: held).drop (m.frames.length - m'.frames.length)).map .script) m'
  | passed {n : Nat} {held rest : List Frame} {m site m1 m2 mr : Machine} {f : Frame}
      {callee : Value} {args : List Value} {e e' : ScriptError} {alive : List Activation}
      (hf : m.frames = f :: rest)
      (hcalls : Calls step (callValue n) m callee args site)
      (hfail : callValue n callee args site = .error (.script e') m1)
      (h : step (callValue n) m = .error (.script e') m2)
      (hraises : CallRaises n callee args site e alive mr) :
      RunRaises (n + 1) held m e (alive ++ (f :: held).map .script) mr
  /-- The function waits if it has a callee on top now; the last one that waits goes on
  if it has returned. -/
  | goes {n : Nat} {held rest : List Frame} {m m1 mr : Machine} {f : Frame} {e : ScriptError}
      {alive : List Activation} (hf : m.frames = f :: rest)
      (h : step (callValue n) m = .ok .next m1)
      (hraises : RunRaises n ((f :: held).drop (m.frames.length + 1 - m1.frames.length)) m1 e
        alive mr) : RunRaises (n + 1) held m e alive mr

/-- As much of a routine that has got some errors already. -/
inductive RoutineRaises : Nat → List ScriptError → List Value → Routine → Machine → ScriptError →
    List Activation → Machine → Prop
  | threw {n : Nat} {got : List ScriptError} {answers : List Value} {m : Machine} {e : ScriptError}
      (hnew : e ∉ got) : RoutineRaises n got answers (.fail e) m e [] m
  | answered {n : Nat} {got : List ScriptError} {answers : List Value} {q : Request}
      {next : Except ScriptError Value → Routine} {v : Value} {m m1 mr : Machine} {e : ScriptError}
      {alive : List Activation} (h : answer (callValue n) q m = .ok v m1)
      (hraises : RoutineRaises n got (v :: answers) (next (.ok v)) m1 e alive mr) :
      RoutineRaises n got answers (.ask q next) m e alive mr
  | caught {n : Nat} {got : List ScriptError} {answers : List Value} {q : Request}
      {next : Except ScriptError Value → Routine} {m m1 mr : Machine} {e e' : ScriptError}
      {alive : List Activation} (h : answer (callValue n) q m = .error (.script e') m1)
      (hraises : RoutineRaises n (e' :: got) answers (next (.error e')) m1 e alive mr) :
      RoutineRaises n got answers (.ask q next) m e alive mr
  /-- The routine fails with the error that it got. -/
  | passed {n : Nat} {got : List ScriptError} {answers vs : List Value} {callee : Value}
      {next : Except ScriptError Value → Routine} {m m1 m2 mr : Machine} {e e' : ScriptError}
      {alive : List Activation}
      (hfail : callValue n callee (received vs) (m.withHeap (m.heap.retainAll (received vs))) =
        .error (.script e') m1)
      (h : perform (callValue n) answers (next (.error e')) { m1 with lastError := some e' } =
        .error (.script e') m2)
      (hraises : CallRaises n callee (received vs) (m.withHeap (m.heap.retainAll (received vs))) e
        alive mr) : RoutineRaises n got answers (.ask (.call callee vs) next) m e alive mr

end

/-- The error is the one that was raised, with the activations that were alive then in
its trace, and those were all on top of the frames and natives below. -/
structure Listed (below : List Frame) (depth : Nat) (e : ScriptError) (alive : List Activation)
    (mr : Machine) (e' : ScriptError) : Prop where
  error : e' = { e with trace := e.trace ++ alive.map Activation.entry }
  active : mr.Active (alive.filterMap Activation.frame? ++ below)
    (depth + alive.countP Activation.isNative)

/-- Only natives raise errors that have a trace already. -/
def Fresh (e : ScriptError) (alive : List Activation) : Prop :=
  e.trace = [] ∨ ∃ n rest, alive = .native n :: rest

section

variable {below : List Frame} {depth : Nat} {e e1 e' : ScriptError} {alive more : List Activation}
variable {m mr : Machine}

theorem Listed.nil (h : mr.Active below depth) : Listed below depth e [] mr e :=
  ⟨by simp, h⟩

/-- The error leaves some activations more. -/
theorem Listed.append
    (h : Listed (more.filterMap Activation.frame? ++ below) (depth + more.countP Activation.isNative)
      e alive mr e1) (he : e' = { e1 with trace := e1.trace ++ more.map Activation.entry }) :
    Listed below depth e (alive ++ more) mr e' := by
  refine ⟨?_, ?_, ?_⟩
  · rw [he, h.error, List.map_append, List.append_assoc]
  · rw [h.active.frames, List.filterMap_append, List.append_assoc]
  · rw [h.active.depth, List.countP_append]
    omega

theorem Fresh.append (h : Fresh e alive) : Fresh e (alive ++ more) := by
  rcases h with h | ⟨n, rest, rfl⟩
  · exact .inl h
  · exact .inr ⟨n, rest ++ more, rfl⟩

/-- Unwinding notes the functions of an entry. -/
theorem Listed.unwound {fs : List Frame} {m1 m' : Machine} (hs : Rooted fs)
    (h : Listed (fs.map Frame.advance ++ below) depth e alive mr e1)
    (h1 : m1.frames = fs.map Frame.advance ++ below)
    (hunwind : (unwinding (.script e1) : Exec Value) m1 = .error (.script e') m') :
    Listed below depth e (alive ++ fs.map .script) mr e' := by
  obtain ⟨m2, heq, -⟩ := unwinding_lists (α := Value) hs.advance h1 e1
  rw [heq, EStateM.Result.error.injEq, Fault.script.injEq] at hunwind
  have hframes : (fs.map Activation.script).filterMap Activation.frame? = fs.map Frame.advance := by
    rw [List.filterMap_map]
    exact congrFun (List.filterMap_eq_map (f := Frame.advance)) fs
  have hnative : (fs.map Activation.script).countP Activation.isNative = 0 := by
    rw [List.countP_map]
    exact congrFun List.countP_false fs
  have hentries : (fs.map Activation.script).map Activation.entry =
      (fs.map Frame.advance).map Frame.traceEntry := by
    rw [List.map_map, List.map_map]
    rfl
  refine .append ?_ (hunwind.1.symm.trans (by rw [hentries]))
  rw [hframes, hnative]
  exact h

end

/-! ## Every trace -/

/-- What holds of all errors that calls with a budget end with. -/
def CallsListed (n : Nat) : Prop :=
  ∀ {callee : Value} {args : List Value} {m m' mr : Machine} {e e' : ScriptError}
    {alive : List Activation}, callValue n callee args m = .error (.script e') m' →
      CallRaises n callee args m e alive mr →
        Listed m.frames m.nativeDepth e alive mr e' ∧ Fresh e alive

/-- As much of the instruction loop. -/
def RunsListed (n : Nat) : Prop :=
  ∀ {below held : List Frame} {f : Frame} {m m' mr : Machine} {e e' : ScriptError}
    {alive : List Activation}, Rooted (f :: held) →
      m.frames = f :: (held.map Frame.advance ++ below) →
        execute n m = .error (.script e') m' → RunRaises n held m e alive mr →
          Listed below m.nativeDepth e alive mr e' ∧ Fresh e alive

section

variable {n : Nat} {m m' mr : Machine} {e e' : ScriptError} {alive : List Activation}

theorem prepare_trace {o : NativeObject} {args : List Value} (h : o.prepare args = .error e) :
    e.trace = [] := by
  have hmask : ∀ (masks : List Nat) (vs : List Value) (k : Nat) (e : ScriptError),
      o.checkMask k masks vs = .error e → e.trace = [] := by
    intro masks vs
    induction masks generalizing vs with
    | nil =>
      intro k e he
      cases he
    | cons mask masks ih =>
      intro k e he
      cases vs with
      | nil => cases he
      | cons v vs =>
        unfold NativeObject.checkMask at he
        split at he
        · cases he
          rfl
        · exact ih vs _ e he
  unfold NativeObject.prepare at h
  dsimp only at h
  split at h
  · split at h
    · cases h
    · rename_i hcheck
      cases h
      exact hmask _ _ _ _ hcheck
  · cases h
    rfl

theorem callNoting_eq (call : Caller) (callee : Value) (args : List Value) (m : Machine) :
    callNoting call callee args m =
      noting (call callee (received args)) (m.withHeap (m.heap.retainAll (received args))) := by
  unfold callNoting received
  exact bind_ok m (retainAll_eq m _)

theorem noting_error {α : Type} {act : Exec α} {fault : Fault}
    (h : noting act m = .error fault m') : ∃ m1, act m = .error fault m1 ∧ ∀ e, fault = .script e →
      m' = { m1 with lastError := some e } := by
  unfold noting at h
  cases hact : act m with
  | ok a m1 =>
    rw [hact] at h
    cases h
  | error fault' m1 =>
    rw [hact] at h
    cases fault' with
    | script e1 =>
      cases h
      exact ⟨m1, rfl, fun e he => by cases he; rfl⟩
    | outsideStack | outOfSteps =>
      cases h
      exact ⟨_, rfl, fun e he => by cases he⟩

theorem answer_failed {call : Caller} {callee : Value} {args : List Value} {m1 : Machine}
    (h : call callee (received args) (m.withHeap (m.heap.retainAll (received args))) =
      .error (.script e) m1) :
    answer call (.call callee args) m = .error (.script e) { m1 with lastError := some e } := by
  show callNoting call callee args m = _
  rw [callNoting_eq]
  unfold noting
  rw [h]

theorem routine_listed (hcall : CallsListed n) {got : List ScriptError} {answers : List Value}
    {r : Routine} (h : perform (callValue n) answers r m = .error (.script e') m')
    (hraises : RoutineRaises n got answers r m e alive mr) :
    Listed m.frames m.nativeDepth e alive mr e' ∧ (alive = [] ∨ Fresh e alive) := by
  have hc := callValue_tells n
  induction r generalizing got answers m with
  | finish v => cases hraises
  | fail e1 =>
    cases hraises with
    | threw hnew =>
      unfold perform at h
      rw [bind_ok _ (releaseAll_eq _ answers)] at h
      cases h
      exact ⟨.nil ⟨rfl, rfl⟩, .inl rfl⟩
  | ask q next ih =>
    rw [perform_ask] at h
    have hanswer := (answer_tells hc q).restores m
    cases hraises with
    | answered hq hraises =>
      rw [hq] at h hanswer
      rw [← hanswer.frames, ← hanswer.depth]
      exact ih _ h hraises
    | caught hq hraises =>
      rw [hq] at h hanswer
      rw [← hanswer.frames, ← hanswer.depth]
      exact ih _ h hraises
    | passed hfail hon hraises =>
      rw [answer_failed hfail] at h
      have herror := h.symm.trans hon
      cases herror
      exact (hcall hfail hraises).imp id .inr

/-- The error of a call that raises it itself. -/
theorem raised_listed {callee : Value} {args : List Value} {m1 : Machine} {e1 : ScriptError}
    (h1 : callValue n callee args m = .error (.script e1) m1)
    (h : callValue n callee args m = .error (.script e') m') (htrace : e1.trace = []) :
    Listed m.frames m.nativeDepth e1 [] m1 e' ∧ Fresh e1 [] := by
  have hactive := (steps_restore n).1 callee args m
  rw [h1] at hactive h
  cases h
  exact ⟨.nil hactive, .inl htrace⟩

theorem through_tells {callee : Value} (hind : Indirect callee) (args : List Value) :
    Telling (through n callee args) (callValue n) := by
  have hc := callValue_tells n
  cases callee with
  | closure | native => exact hind.elim
  | classObject c => exact construct_tells hc c args
  | instanceObject r => exact callInstance_tells hc _ args
  | _ => exact (Telling.releaseAll args).bind fun _ => .fail rfl

/-- A function that is entered runs on top of the machine that called it. -/
theorem call_entered {r : Ref} {args : List Value} {m1 : Machine} (h : enter r args m = .ok () m1) :
    callValue (n + 1) (.closure r) args m = execute n m1 ∧
      ∃ g, g.root = true ∧ m1.Active (g :: m.frames) m.nativeDepth := by
  have htells : Tells (fun _ => enter r args) (callValue n) _ m := enter_tells r args
  have hends := htells.ends
  rw [h] at hends
  exact ⟨bind_ok m h, hends⟩

/-- No call is under way yet when a function is refused. -/
theorem refused_trace {r : Ref} {args : List Value} (h : enter r args m = .error (.script e) m') :
    e.trace = [] := by
  have htells : Tells (fun _ => enter r args) (callValue 0) _ m := enter_tells r args
  have hends := htells.ends
  rw [h] at hends
  refine hends.2.resolve_right ?_
  rintro ⟨_, _, _, _, -, m1, hmade⟩
  exact absurd (h.symm.trans hmade) (by simp)

theorem unreached_trace {r : Ref} {args : List Value}
    (hn : ∀ o, m.heap.native? r = some o → m.config.maxCallDepth ≤ m.frames.length + m.nativeDepth)
    (h : callValue (n + 1) (.native r) args m = .error (.script e) m') : e.trace = [] := by
  have hcall : callNative (perform (callValue n) []) r args m = .error (.script e) m' := h
  cases hobj : m.heap.native? r with
  | none =>
    obtain ⟨_, hstray⟩ := callNative_stray (perform (callValue n) []) args hobj
    cases hcall.symm.trans hstray
    rfl
  | some o =>
    obtain ⟨_, hdeep⟩ := callNative_tooDeep (perform (callValue n) []) hobj args (hn o hobj)
    cases hcall.symm.trans hdeep
    rfl

/-- A native that is served fails as its routine does, and is noted in the trace. -/
theorem served_error {r : Ref} {args accepted : List Value} {o : NativeObject}
    (hn : m.heap.native? r = some o)
    (hd : ¬ m.config.maxCallDepth ≤ m.frames.length + m.nativeDepth)
    (hp : o.prepare args = .ok accepted)
    (h : callValue (n + 1) (.native r) args m = .error (.script e') m') :
    ∃ e1 m1, perform (callValue n) [] (o.behaviour accepted) (m.supplied o args).serving =
        .error (.script e1) m1 ∧ e' = e1.leave (nativeEntry o) := by
  have heq : callValue (n + 1) (.native r) args m = served o args
      (perform (callValue n) [] (o.behaviour accepted) (m.supplied o args).serving) :=
    callNative_runs (perform (callValue n) []) hn hd hp
  rw [heq] at h
  cases hact : perform (callValue n) [] (o.behaviour accepted) (m.supplied o args).serving with
  | ok v m1 =>
    rw [hact] at h
    cases h
  | error fault m1 =>
    rw [hact] at h
    cases fault with
    | script e1 =>
      cases h
      exact ⟨e1, m1, rfl, rfl⟩
    | outsideStack | outOfSteps => cases h

theorem call_listed (hcall : CallsListed n) (hrun : RunsListed n) : CallsListed (n + 1) := by
  intro callee args m m' mr e e' alive h hraises
  cases hraises with
  | refused henter => exact raised_listed (bind_error m henter) h (refused_trace henter)
  | entered henter hraises =>
    obtain ⟨heq, g, hroot, h1⟩ := call_entered henter
    rw [heq] at h
    rw [← h1.depth]
    exact hrun (.entry hroot) h1.frames h hraises
  | unreached hn h1 => exact raised_listed h1 h (unreached_trace hn h1)
  | @rejected _ r _ _ _ o hn hd hp =>
    obtain ⟨_, heq⟩ := callNative_rejected (perform (callValue n) []) hn hd hp
    have herror := h.symm.trans heq
    cases herror
    exact ⟨⟨rfl, rfl, rfl⟩, .inl (prepare_trace hp)⟩
  | @served _ r _ accepted _ _ _ alive o hn hd hp hraises =>
    obtain ⟨e1, m1, hact, he⟩ := served_error hn hd hp h
    obtain ⟨hlisted, hfresh⟩ := routine_listed hcall hact hraises
    refine ⟨.append hlisted he, ?_⟩
    rcases hfresh with rfl | hfresh
    · exact .inr ⟨o, [], rfl⟩
    · exact hfresh.append
  | own hind h1 hown =>
    have hends := (through_tells (n := n) hind args m).ends
    have heq : through n callee args (callValue n) m = .error (.script e) mr := h1
    rw [heq] at hends
    exact raised_listed h1 h (hends.2.resolve_right hown)
  | @passed _ _ f _ vs _ site m1 m2 _ _ e1 _ hind hcalls hfail h1 hraises =>
    have he : e' = e1 := by
      have herror := h.symm.trans h1
      cases herror
      rfl
    subst he
    obtain ⟨hlisted, hfresh⟩ := hcall hfail hraises
    have heq : through n callee args (callValue n) m = .error (.script e') m2 := h1
    have hsame := (through_tells hind args m).site_same hcalls heq
    rw [← hsame.frames, ← hsame.depth]
    exact ⟨hlisted, hfresh⟩

theorem run_listed (hcall : CallsListed n) (hrun : RunsListed n) : RunsListed (n + 1) := by
  intro below held f m m' mr e e' alive hs hf h hraises
  have hc := callValue_tells n
  have hsucceeds := step_succeeds hc hf
  have hexecute : execute (n + 1) m = executeWith (callValue n) (execute n) m := rfl
  rw [hexecute] at h
  cases hraises with
  | @raised _ _ rest _ _ g _ hint hg h1 hown =>
    obtain ⟨rfl, rfl⟩ := List.cons_eq_cons.1 (hf.symm.trans hg)
    rw [executeWith_error h1] at h
    rw [h1] at hsucceeds
    cases hsucceeds with
    | interrupted hpending => exact absurd (hint.symm.trans hpending) (by decide)
    | failed htold h2 =>
      have hdrop : m.frames.length - mr.frames.length = 0 := by
        rw [h2.frames, hf, List.length_cons, List.length_cons, Nat.sub_self]
      rw [hdrop]
      have hnil : Listed ((f :: held).map Frame.advance ++ below) m.nativeDepth e [] mr e := .nil h2
      exact ⟨hnil.unwound hs h2.frames h, .inl (htold.resolve_right hown)⟩
    | undelivered hroot htrace h2 =>
      have hdrop : m.frames.length - mr.frames.length = 1 := by
        rw [h2.frames, hf, List.length_cons, Nat.add_sub_cancel_left]
      rw [hdrop]
      have hnil : Listed (held.map Frame.advance ++ below) m.nativeDepth e [] mr e := .nil h2
      exact ⟨hnil.unwound (hs.of_called hroot) h2.frames h, .inl htrace⟩
    | crashed hnot => exact absurd rfl (hnot e)
  | @passed _ _ rest _ site m1 m2 _ g callee args _ e1 alive hg hcalls hfail h1 hraises =>
    obtain ⟨rfl, rfl⟩ := List.cons_eq_cons.1 (hf.symm.trans hg)
    rw [executeWith_error h1] at h
    obtain ⟨hsite, h2⟩ := calls_from_top hc hf hcalls h1
    obtain ⟨hlisted, hfresh⟩ := hcall hfail hraises
    rw [hsite.frames, hsite.depth] at hlisted
    exact ⟨hlisted.unwound hs h2.frames h, hfresh.append⟩
  | @goes _ _ rest _ m1 _ g _ _ hg h1 hraises =>
    obtain ⟨rfl, rfl⟩ := List.cons_eq_cons.1 (hf.symm.trans hg)
    rw [executeWith_next h1] at h
    rw [h1] at hsucceeds
    cases hsucceeds with
    | moved hmoved =>
      cases hmoved with
      | goes hroot h2 =>
        have hdrop : m.frames.length + 1 - m1.frames.length = 1 := by
          rw [h2.frames, hf, List.length_cons, List.length_cons, Nat.add_sub_cancel_left]
        rw [hdrop] at hraises
        rw [← h2.depth]
        exact hrun (hs.replace hroot) h2.frames h hraises
      | calls hroot h2 =>
        have hdrop : m.frames.length + 1 - m1.frames.length = 0 := by
          rw [h2.frames, hf, List.length_cons, List.length_cons, List.length_cons, Nat.sub_self]
        rw [hdrop] at hraises
        rw [← h2.depth]
        exact hrun (.called hroot hs) h2.frames h hraises
    | returned hroot h2 =>
      have hdrop : m.frames.length + 1 - m1.frames.length = 2 := by
        rw [h2.frames, hf, List.length_cons]
        omega
      rw [hdrop] at hraises
      rw [← h2.depth]
      cases held with
      | nil => exact absurd (hs.of_called hroot) (by rintro ⟨⟩)
      | cons g held =>
        have hseg : Rooted (g.advance :: held) := (hs.of_called hroot).replace rfl
        exact hrun hseg h2.frames h hraises

theorem steps_listed (n : Nat) : CallsListed n ∧ RunsListed n := by
  induction n with
  | zero =>
    refine ⟨?_, ?_⟩
    · intro callee args m m' mr e e' alive h
      cases h
    · intro below held f m m' mr e e' alive _ _ h
      cases h
  | succ n ih => exact ⟨call_listed ih.1 ih.2, run_listed ih.1 ih.2⟩

/-! ## Every error is raised somewhere -/

/-- All errors that calls with a budget end with, but for interrupts, are raised. -/
def CallsRaise (n : Nat) : Prop :=
  ∀ {callee : Value} {args : List Value} {m m' : Machine} {e' : ScriptError},
    callValue n callee args m = .error (.script e') m' → e'.kind ≠ .interrupted →
      ∃ e alive mr, CallRaises n callee args m e alive mr

/-- As much of the instruction loop. -/
def RunsRaise (n : Nat) : Prop :=
  ∀ {seg below held : List Frame} {m m' : Machine} {e' : ScriptError}, Rooted seg →
    m.frames = seg ++ below → execute n m = .error (.script e') m' → e'.kind ≠ .interrupted →
      ∃ e alive mr, RunRaises n held m e alive mr

/-- Of all requests, only calls fail. -/
theorem answer_error {call : Caller} {q : Request} (h : answer call q m = .error (.script e) m') :
    ∃ callee args m1, q = .call callee args ∧
      call callee (received args) (m.withHeap (m.heap.retainAll (received args))) =
        .error (.script e) m1 ∧ m' = { m1 with lastError := some e } := by
  have hret : ∀ {r : EStateM.Result Fault Machine Value} {v : Value} {m1 : Machine},
      r = .error (.script e) m' → r ≠ .ok v m1 := fun hr hok => by
    rw [hr] at hok
    cases hok
  cases q with
  | call callee args =>
    have hcall : callNoting call callee args m = .error (.script e) m' := h
    rw [callNoting_eq] at hcall
    obtain ⟨m1, hfail, hnoted⟩ := noting_error hcall
    exact ⟨callee, args, m1, rfl, hfail, hnoted e rfl⟩
  | newArray items => exact absurd (bind_ok m (retainAll_eq m items)) (hret h)
  | push r v => exact absurd (bind_ok m (retain_eq m v)) (hret h)
  | target w =>
    exact absurd (bind_ok m (retain_eq m (m.heap.target w))) (hret h)
  | root =>
    have hok : answer call .root m = .ok (.dict m.root) _ :=
      (bind_ok m (show (get : Exec Machine) m = .ok m m from rfl)).trans (bind_ok m (retain_eq m _))
    exact absurd hok (hret h)
  | _ => exact absurd rfl (hret h)

theorem routine_raised (hcall : CallsRaise n) {got : List ScriptError} {answers : List Value}
    {r : Routine} (h : perform (callValue n) answers r m = .error (.script e') m')
    (hkind : e'.kind ≠ .interrupted) :
    e' ∈ got ∨ ∃ e alive mr, RoutineRaises n got answers r m e alive mr := by
  induction r generalizing got answers m with
  | finish v =>
    have hok : perform (callValue n) answers (.finish v) m = .ok v _ :=
      (bind_ok m (retain_eq m v)).trans (bind_ok _ (releaseAll_eq _ answers))
    rw [hok] at h
    cases h
  | fail e1 =>
    have hfail : perform (callValue n) answers (.fail e1) m = .error (.script e1) _ :=
      bind_ok m (releaseAll_eq m answers)
    rw [hfail] at h
    cases h
    by_cases hnew : e' ∈ got
    · exact .inl hnew
    · exact .inr ⟨e', [], m, .threw hnew⟩
  | ask q next ih =>
    rw [perform_ask] at h
    cases hq : answer (callValue n) q m with
    | ok v m1 =>
      rw [hq] at h
      exact (ih _ h).imp id fun ⟨e, alive, mr, hraises⟩ => ⟨e, alive, mr, .answered hq hraises⟩
    | error fault m1 =>
      rw [hq] at h
      cases fault with
      | script e1 =>
        -- the error is one that the routine got before, this one, or a later one
        have hnext : e' ∈ e1 :: got ∨ _ := ih (.error e1) h
        rcases hnext with hgot | ⟨e, alive, mr, hraises⟩
        · rcases List.mem_cons.1 hgot with rfl | hgot
          · obtain ⟨callee, args, m2, rfl, hfail, rfl⟩ := answer_error hq
            obtain ⟨e, alive, mr, hraises⟩ := hcall hfail hkind
            exact .inr ⟨e, alive, mr, .passed hfail h hraises⟩
          · exact .inl hgot
        · exact .inr ⟨e, alive, mr, .caught hq hraises⟩
      | outsideStack | outOfSteps => cases h

theorem call_raised (hcall : CallsRaise n) (hrun : RunsRaise n) : CallsRaise (n + 1) := by
  intro callee args m m' e' h hkind
  have hindirect : Indirect callee → ∃ e alive mr, CallRaises (n + 1) callee args m e alive mr := by
    intro hind
    by_cases hpassed : PassedOn (through n callee args) (callValue n) m e'
    · obtain ⟨f, vs, site, m1, hfail, hcalls⟩ := hpassed
      obtain ⟨e, alive, mr, hraises⟩ := hcall hfail hkind
      exact ⟨e, alive, mr, .passed hind hcalls hfail h hraises⟩
    · exact ⟨e', [], m', .own hind h hpassed⟩
  cases callee with
  | closure r =>
    cases henter : enter r args m with
    | ok a m1 =>
      obtain ⟨heq, g, hroot, h1⟩ := call_entered (n := n) henter
      rw [heq] at h
      obtain ⟨e, alive, mr, hraises⟩ := hrun (.entry hroot) h1.frames h hkind
      exact ⟨e, alive, mr, .entered henter hraises⟩
    | error fault m1 =>
      have heq : callValue (n + 1) (.closure r) args m = .error fault m1 := bind_error m henter
      rw [heq] at h
      cases h
      exact ⟨e', [], m', .refused henter⟩
  | native r =>
    by_cases hreached : ∀ o, m.heap.native? r = some o →
        m.config.maxCallDepth ≤ m.frames.length + m.nativeDepth
    · exact ⟨e', [], m', .unreached hreached h⟩
    push Not at hreached
    obtain ⟨o, hn, hd⟩ := hreached
    cases hp : o.prepare args with
    | error e => exact ⟨e, [.rejected o], m, .rejected hn (Nat.not_le.2 hd) hp⟩
    | ok accepted =>
      obtain ⟨e1, m1, hact, rfl⟩ := served_error hn (Nat.not_le.2 hd) hp h
      have hraised : e1 ∈ [] ∨ _ := routine_raised hcall hact hkind
      rcases hraised with hgot | ⟨e, alive, mr, hraises⟩
      · cases hgot
      · exact ⟨e, alive ++ [.native o], mr, .served hn (Nat.not_le.2 hd) hp hraises⟩
  | _ => exact hindirect trivial

theorem run_raised (hcall : CallsRaise n) (hrun : RunsRaise n) : RunsRaise (n + 1) := by
  intro seg below held m m' e' hs hf h hkind
  obtain ⟨f, fs, rfl⟩ : ∃ f fs, seg = f :: fs := by cases hs <;> exact ⟨_, _, rfl⟩
  have hf : m.frames = f :: (fs ++ below) := hf
  have hsucceeds := step_succeeds (callValue_tells n) hf
  have hexecute : execute (n + 1) m = executeWith (callValue n) (execute n) m := rfl
  rw [hexecute] at h
  cases hact : step (callValue n) m with
  | ok flow m1 =>
    rw [hact] at hsucceeds
    cases hsucceeds with
    | moved hmoved =>
      rw [executeWith_next hact] at h
      obtain ⟨seg, hseg, h1⟩ := moved_rooted hmoved (hs.replace rfl)
      obtain ⟨e, alive, mr, hraises⟩ := hrun hseg h1.frames h hkind
      exact ⟨e, alive, mr, .goes hf hact hraises⟩
    | returned hroot h1 =>
      rw [executeWith_next hact] at h
      obtain ⟨e, alive, mr, hraises⟩ := hrun (hs.of_called hroot) h1.frames h hkind
      exact ⟨e, alive, mr, .goes hf hact hraises⟩
    | finished =>
      rw [executeWith_finished hact] at h
      cases h
  | error fault m1 =>
    rw [executeWith_error hact] at h
    rw [hact] at hsucceeds
    cases fault with
    | outsideStack | outOfSteps => cases h
    | script e =>
      obtain ⟨seg, hseg, h1⟩ : ∃ seg, Rooted seg ∧ m1.frames = seg ++ below := by
        cases hsucceeds with
        | interrupted _ _ h1 => exact ⟨f :: fs, hs, h1.frames⟩
        | failed _ h1 => exact ⟨f.advance :: fs, hs.replace rfl, h1.frames⟩
        | undelivered hroot _ h1 => exact ⟨fs, hs.of_called hroot, h1.frames⟩
        | crashed hnot => exact absurd rfl (hnot e)
      obtain ⟨m2, heq, -⟩ := unwinding_lists (α := Value) hseg h1 e
      rw [heq] at h
      cases h
      by_cases hpassed : PassedOn step (callValue n) m e
      · obtain ⟨callee, args, site, m3, hfail, hcalls⟩ := hpassed
        obtain ⟨e1, alive, mr, hraises⟩ := hcall hfail hkind
        exact ⟨e1, _, mr, .passed hf hcalls hfail hact hraises⟩
      · have hint : m.interrupted = false := by
          by_contra hpending
          rw [step_interrupted (Bool.not_eq_false _ ▸ hpending)] at hact
          cases hact
          exact hkind rfl
        exact ⟨e, _, m1, .raised hint hf hact hpassed⟩

theorem steps_raise (n : Nat) : CallsRaise n ∧ RunsRaise n := by
  induction n with
  | zero =>
    refine ⟨?_, ?_⟩
    · intro callee args m m' e' h
      cases h
    · intro seg below held m m' e' _ _ h
      cases h
  | succ n ih => exact ⟨call_raised ih.1 ih.2, run_raised ih.1 ih.2⟩

end

/-! ## From outside -/

section

variable {n : Nat} {callee : Value} {args : List Value} {m m' : Machine} {e' : ScriptError}

/-- An error that a call lets out was raised at a machine with some activations on top of
those that were active before, unless it is an interrupt: they are its trace, and all of
them are gone. -/
theorem trace_lists_active (h : callNoting (callValue n) callee args m = .error (.script e') m') :
    m'.Active m.frames m.nativeDepth ∧
      (e'.kind ≠ .interrupted → ∃ e alive mr, CallRaises n callee (received args)
        (m.withHeap (m.heap.retainAll (received args))) e alive mr) ∧
      ∀ e alive mr, CallRaises n callee (received args)
          (m.withHeap (m.heap.retainAll (received args))) e alive mr →
        Listed m.frames m.nativeDepth e alive mr e' ∧ Fresh e alive := by
  have hactive := (callNoting_tells (callValue_tells n) callee args).restores m
  rw [h] at hactive
  rw [callNoting_eq] at h
  obtain ⟨m1, hcall, -⟩ := noting_error h
  refine ⟨hactive, (steps_raise n).1 hcall, fun e alive mr hraises => ?_⟩
  have hlisted := (steps_listed n).1 hcall hraises
  exact hlisted

theorem closureOf_tells (call : Caller) (p : Prototype) : Telling (fun _ => closureOf p) call := by
  unfold closureOf
  cases p.outers with
  | nil => exact .heap _
  | cons c _ => exact .malformed _

/-- A run of a function, given how to call. -/
def runWith (p : Prototype) (call : Caller) : Exec Value := do
  let f ← noting (closureOf p)
  owning [f] do
    holding [.dict (← get).root] do callNoting call f [.dict (← get).root]

theorem runWith_tells {call : Caller} (hc : TellingCalls call) (p : Prototype) :
    Telling (runWith p) call :=
  (Telling.noting (closureOf_tells call p)).bind fun f => .owning (Telling.get.bind fun _ =>
    .holding (Telling.get.bind fun _ => callNoting_tells hc f _))

/-- So it is with an error that a run ends with, unless the function cannot be run. -/
theorem run_lists_active {p : Prototype} (h : run p m = .error (.script e') m')
    (hkind : e'.kind ≠ .interrupted) : e'.trace = [] ∨ ∃ callee args site e alive mr,
      SameActive m site ∧ CallRaises stepLimit callee args site e alive mr ∧
        Listed m.frames m.nativeDepth e alive mr e' ∧ Fresh e alive := by
  have htells := runWith_tells (callValue_tells stepLimit) p m
  have hrun : runWith p (callValue stepLimit) m = .error (.script e') m' := h
  have hends := htells.ends
  rw [hrun] at hends
  refine hends.2.imp id ?_
  rintro ⟨callee, args, site, m1, hcall, hmade⟩
  have hsame := htells.site_same hmade hrun
  obtain ⟨e, alive, mr, hraises⟩ := (steps_raise stepLimit).1 hcall hkind
  have hlisted := (steps_listed stepLimit).1 hcall hraises
  rw [hsame.frames, hsame.depth] at hlisted
  exact ⟨callee, args, site, e, alive, mr, hsame, hraises, hlisted⟩

/-- Fails at once. -/
def failing : Prototype where
  name := "failing"
  source := "inner.s"
  code := #[{ opcode := .loadNulls, arg0 := 0, arg1 := 1 }, { opcode := .neg, arg0 := 0, arg1 := 0 }]
  lines := #[{ op := 0, line := 3 }, { op := 1, line := 4 }]

/-- Calls the native in its first argument with the second one. -/
def applying : Prototype where
  name := "applying"
  source := "outer.s"
  parameters := ["this", "native", "f"]
  stackSize := 3
  code := #[{ opcode := .call, arg0 := 0, arg1 := 1, arg2 := 1, arg3 := 2 }]
  lines := #[{ op := 0, line := 7 }]

/-- Calls its argument. -/
def calls : NativeFunction where
  name := "calls"
  behaviour
    | [_, f] => .giving (.call f [])
    | _ => .finish .null

/-- Two functions and a native between them. -/
def layered : Machine × Value × List Value :=
  let m := Machine.create {}
  let (f, h) := m.heap.newClosure failing [] []
  let (n, h) := h.newNative calls
  let (c, h) := h.newClosure applying [] []
  (m.withHeap h, .closure c, [.null, .native n, .closure f])

/-- The kind and the trace of an error. -/
def errorTrace {α : Type} : EStateM.Result Fault Machine α → Option (ErrorKind × List TraceEntry)
  | .error (.script e) _ => some (e.kind, e.trace)
  | _ => none

theorem errorTrace_eq_some {α : Type} {r : EStateM.Result Fault Machine α} {k : ErrorKind}
    {t : List TraceEntry} (h : errorTrace r = some (k, t)) :
    ∃ e m, r = .error (.script e) m ∧ e.kind = k ∧ e.trace = t := by
  unfold errorTrace at h
  split at h
  · cases h
    exact ⟨_, _, rfl, rfl, rfl⟩
  · cases h

theorem trace_lists_active_layered : ∃ e' m' e alive mr,
    callNoting (callValue 9) layered.2.1 layered.2.2 layered.1 = .error (.script e') m' ∧
      Listed layered.1.frames layered.1.nativeDepth e alive mr e' ∧ Fresh e alive ∧
      e'.trace = [⟨"failing", "inner.s", 4, 1⟩, ⟨"calls", "native", 0, 0⟩,
        ⟨"applying", "outer.s", 7, 0⟩] := by
  have htrace : errorTrace (callNoting (callValue 9) layered.2.1 layered.2.2 layered.1) =
      some (.type, [⟨"failing", "inner.s", 4, 1⟩, ⟨"calls", "native", 0, 0⟩,
        ⟨"applying", "outer.s", 7, 0⟩]) := by decide +kernel
  obtain ⟨e', m', hend, hkind, htrace⟩ := errorTrace_eq_some htrace
  obtain ⟨-, hraised, hlisted⟩ := trace_lists_active hend
  obtain ⟨e, alive, mr, hraises⟩ := hraised (by rw [hkind]; decide)
  obtain ⟨hlisted, hfresh⟩ := hlisted e alive mr hraises
  exact ⟨e', m', e, alive, mr, hend, hlisted, hfresh, htrace⟩

end

end Exec

end ScriptMachine
