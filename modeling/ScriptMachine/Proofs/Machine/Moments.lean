import ScriptMachine.Proofs.Machine.Stepping

/-!
# The moments of a run

A run can be looked at when a value is called, when a native starts and when an
instruction is fetched; frames and natives are counted up at no other time. A
watch expects something of the machine at these moments and interferes when it
is not so. What makes no difference to watch for holds throughout.
-/

set_option autoImplicit false

namespace ScriptMachine

inductive Moment where
  /-- A value is called with arguments that are handed over. -/
  | call (callee : Value) (args : List Value)
  /-- A native has been counted and starts. -/
  | native
  /-- The instruction loop fetches an instruction. -/
  | fetch

structure Watch where
  expects : Moment → Machine → Prop
  /-- What happens instead of going on when the expectation fails. -/
  alarm : Exec Value

namespace Watch

open Classical in
/-- Goes on if the machine is as expected. -/
noncomputable def guard (w : Watch) (k : Moment) (act : Exec Value) : Exec Value := fun m =>
  if w.expects k m then act m else w.alarm m

/-- A watch that expects nothing. -/
def idle (alarm : Exec Value) : Watch := ⟨fun _ _ => True, alarm⟩

theorem guard_idle (alarm : Exec Value) (k : Moment) (act : Exec Value) :
    (idle alarm).guard k act = act := by
  funext m
  exact if_pos trivial

end Watch

namespace Exec

mutual

/-- Calls a value under a watch. -/
noncomputable def callWatched (w : Watch) : Nat → Value → List Value → Exec Value
  | 0, _, _ => throw .outOfSteps
  | steps + 1, callee, args =>
    w.guard (.call callee args) (callWith (executeWatched w steps)
      (fun (r : Routine) => w.guard .native (perform (callWatched w steps) [] r))
      (callWatched w steps) callee args)

/-- Runs instructions under a watch until the frame entered from outside returns. -/
noncomputable def executeWatched (w : Watch) : Nat → Exec Value
  | 0 => throw .outOfSteps
  | steps + 1 => w.guard .fetch (executeWith (callWatched w steps) (executeWatched w steps))

end

/-- Without expectations it is the run itself. -/
theorem watched_idle (alarm : Exec Value) (steps : Nat) :
    callWatched (.idle alarm) steps = callValue steps ∧
      executeWatched (.idle alarm) steps = execute steps := by
  induction steps with
  | zero =>
    refine ⟨?_, ?_⟩
    · funext callee args
      rw [callWatched, callValue]
    · rw [executeWatched, execute]
  | succ steps ih =>
    refine ⟨?_, ?_⟩
    · funext callee args
      rw [callWatched, callValue, Watch.guard_idle, ih.1, ih.2]
      simp only [Watch.guard_idle]
    · rw [executeWatched, execute, Watch.guard_idle, ih.1, ih.2]

/-- At every moment of a call: no alarm makes a difference. -/
def Throughout (steps : Nat) (callee : Value) (args : List Value) (m : Machine)
    (expects : Moment → Machine → Prop) : Prop :=
  ∀ alarm : Exec Value, callWatched ⟨expects, alarm⟩ steps callee args m = callValue steps callee args m

/-- At some moment of a call. -/
def Sometime (steps : Nat) (callee : Value) (args : List Value) (m : Machine)
    (happens : Moment → Machine → Prop) : Prop :=
  ¬ Throughout steps callee args m fun k m' => ¬ happens k m'

/-- What holds throughout a call holds when it begins. -/
theorem Throughout.start {steps : Nat} {callee : Value} {args : List Value} {m : Machine}
    {expects : Moment → Machine → Prop} (h : Throughout (steps + 1) callee args m expects) :
    expects (.call callee args) m := by
  by_contra hnot
  -- an alarm that does what the call does not
  have halarm : ∀ alarm : Exec Value, alarm m = callValue (steps + 1) callee args m := by
    intro alarm
    have := h alarm
    rw [callWatched] at this
    unfold Watch.guard at this
    rwa [if_neg hnot] at this
  have h1 := halarm (pure .null)
  have h2 := halarm (throw .outOfSteps)
  have heq : (pure Value.null : Exec Value) m = (throw .outOfSteps : Exec Value) m := h1.trans h2.symm
  cases heq

/-! ## Watched runs in order -/

variable {t : Terms} {s : Scope} {own : List Value} {m0 m : Machine} {w w' : Watch}

/-- Both watches go on, or both give the run up. -/
def AgreeAt (w w' : Watch) (k : Moment) (m : Machine) : Prop :=
  (w.expects k m ∧ w'.expects k m) ∨
    ¬ w.expects k m ∧ ¬ w'.expects k m ∧ w.alarm m = .error .outOfSteps m ∧
      w'.alarm m = .error .outOfSteps m

/-- Two watches agree on machines in order, and whenever they go on, values are
stored through cells as the terms allow. -/
structure Agree (t : Terms) (w w' : Watch) : Prop where
  call : ∀ (callee : Value) (args own : List Value) (m : Machine), m.Tidy t (args ++ own) →
    m.heap.Has callee → AgreeAt w w' (.call callee args) m
  native : ∀ (own : List Value) (m : Machine), m.Tidy t own → AgreeAt w w' .native m
  fetch : ∀ (m0 : Machine) (own : List Value) (m : Machine), Machine.Above t m0 own m → m.Roomy →
    AgreeAt w w' .fetch m ∧
      (w.expects .fetch m → ∀ slot v, m.Stores slot v → t.stores slot v)

theorem Meets.guard {k : Moment} {act act' : Exec Value} {Q : Value → Machine → Prop}
    {F : ScriptError → Machine → Prop} (ha : AgreeAt w w' k m)
    (hact : w.expects k m → Meets t act act' Q F m) :
    Meets t (w.guard k act) (w'.guard k act') Q F m := by
  unfold Meets Watch.guard
  rcases ha with ⟨h, h'⟩ | ⟨h, h', halarm, halarm'⟩
  · rw [if_pos h, if_pos h']
    exact hact h
  · rw [if_neg h, if_neg h', halarm, halarm']
    exact ⟨rfl, trivial⟩

/-- Calls leave everything as they found it, however deep they nest. -/
theorem watched_faithful (ha : Agree t w w') (steps : Nat) :
    Faithful t (callWatched w steps) (callWatched w' steps) ∧
      Carries t (executeWatched w steps) (executeWatched w' steps) := by
  induction steps with
  | zero =>
    refine ⟨fun s callee args own m _ _ => ?_, fun m0 own m _ _ => ?_⟩
    · rw [callWatched, callWatched]
      exact ⟨rfl, trivial⟩
    · rw [executeWatched, executeWatched]
      exact ⟨rfl, trivial⟩
  | succ steps ih =>
    obtain ⟨hcall, hcarry⟩ := ih
    have hrun : Performs t (fun r => w.guard .native (perform (callWatched w steps) [] r))
        (fun r => w'.guard .native (perform (callWatched w' steps) [] r)) := fun s own m r hm hr =>
      Meets.guard (ha.native own m hm.toTidy) fun _ => perform_performs hcall s own m r hm hr
    refine ⟨fun s callee args own m hm hcallee => ?_, fun m0 own m hm hr => ?_⟩
    · rw [callWatched, callWatched]
      exact Meets.guard (ha.call callee args own m hm.toTidy hcallee) fun _ =>
        callWith_faithful hcall hcarry hrun s callee args own m hm hcallee
    · rw [executeWatched, executeWatched]
      obtain ⟨hagree, hstores⟩ := ha.fetch m0 own m hm hr
      exact Meets.guard hagree fun h => executeWith_meets hcall hcarry hm hr (hstores h)

/-- When anything may be stored, calls and the loop leave everything as they found it. -/
theorem run_faithful (ht : ∀ slot v, t.stores slot v) (steps : Nat) :
    Faithful t (callValue steps) (callValue steps) ∧ Carries t (execute steps) (execute steps) := by
  have hagree : Agree t (.idle (throw .outOfSteps)) (.idle (throw .outOfSteps)) := {
    call := fun _ _ _ _ _ _ => .inl ⟨trivial, trivial⟩
    native := fun _ _ _ => .inl ⟨trivial, trivial⟩
    fetch := fun _ _ _ _ _ => ⟨.inl ⟨trivial, trivial⟩, fun _ slot v _ => ht slot v⟩ }
  have h := watched_faithful hagree steps
  rwa [(watched_idle _ steps).1, (watched_idle _ steps).2] at h

theorem callValue_faithful (ht : ∀ slot v, t.stores slot v) (steps : Nat) :
    Faithful t (callValue steps) (callValue steps) := (run_faithful ht steps).1

/-- What an orderly machine promises at each moment holds throughout a call. -/
theorem throughout_of_promise {expects : Moment → Machine → Prop} (ht : ∀ slot v, t.stores slot v)
    (hcall : ∀ (callee : Value) (args own : List Value) (m : Machine), m.Tidy t (args ++ own) →
      m.heap.Has callee → expects (.call callee args) m)
    (hnative : ∀ (own : List Value) (m : Machine), m.Tidy t own → expects .native m)
    (hfetch : ∀ (m0 : Machine) (own : List Value) (m : Machine), Machine.Above t m0 own m →
      m.Roomy → expects .fetch m) {steps : Nat} {callee : Value} {args : List Value}
    (hm : m.Tidy t (args ++ own)) (hcallee : m.heap.Has callee) :
    Throughout steps callee args m expects := by
  intro alarm
  have hagree : Agree t (.idle alarm) ⟨expects, alarm⟩ := {
    call := fun callee args own m hm hc => .inl ⟨trivial, hcall callee args own m hm hc⟩
    native := fun own m hm => .inl ⟨trivial, hnative own m hm⟩
    fetch := fun m0 own m hm hr => ⟨.inl ⟨trivial, hfetch m0 own m hm hr⟩, fun _ slot v _ => ht slot v⟩ }
  have h := (watched_faithful hagree steps).1 (.still m .nothing) callee args own m (.of_start hm) hcallee
  rw [(watched_idle alarm steps).1] at h
  exact h.1

/-- A call that is only assumed to store what the terms allow. -/
theorem call_keeps_of_assumption {expects : Moment → Machine → Prop} {steps : Nat} {callee : Value}
    {args : List Value} (hall : Throughout steps callee args m expects)
    (hstores : ∀ m', expects .fetch m' → ∀ slot v, m'.Stores slot v → t.stores slot v)
    (hm : m.Tidy t (args ++ own)) (hcallee : m.heap.Has callee) :
    Keeps t (.still m .nothing) own (callValue steps callee args) (callValue steps callee args)
      (fun (v : Value) => [v]) m := by
  have hagree : Agree t ⟨expects, throw .outOfSteps⟩ ⟨expects, throw .outOfSteps⟩ := {
    call := fun callee args own m _ _ => (Classical.em (expects (.call callee args) m)).imp
      (fun h => ⟨h, h⟩) fun h => ⟨h, h, rfl, rfl⟩
    native := fun own m _ => (Classical.em (expects .native m)).imp
      (fun h => ⟨h, h⟩) fun h => ⟨h, h, rfl, rfl⟩
    fetch := fun m0 own m _ _ => ⟨(Classical.em (expects .fetch m)).imp
      (fun h => ⟨h, h⟩) fun h => ⟨h, h, rfl, rfl⟩, hstores m⟩ }
  have h := (watched_faithful hagree steps).1 (.still m .nothing) callee args own m (.of_start hm) hcallee
  unfold Keeps Meets at h ⊢
  rw [hall] at h
  exact ⟨rfl, h.2⟩

end Exec

end ScriptMachine
