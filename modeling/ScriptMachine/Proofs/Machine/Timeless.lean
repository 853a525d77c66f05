import ScriptMachine.Proofs.Machine.Creation

/-!
# Runs that take no notice of lifetimes

A native holds what it is called with and the answers it got, and can name nothing
else. Some requests are about lifetimes: they make or follow a weak reference, count
the living or collect. In an alarmed run these requests set off an alarm in place of
an answer; a run that no alarm makes a difference to has made none of them.
-/

set_option autoImplicit false

namespace ScriptMachine

/-! ## Natives that name what they hold -/

/-- The objects that a request names are known. -/
def Request.Knows (known : Value → Prop) : Request → Prop
  | .call callee args => known callee ∧ ∀ v ∈ args, known v
  | .newArray items => ∀ v ∈ items, known v
  | .push r v => known (.array r) ∧ known v
  | .weaken v | .display v => known v
  | .target w => known (.weak w)
  | .length r => known (.array r) ∨ known (.dict r)
  | .attribute r _ => known (.native r)
  | .deepEqual a b => known a ∧ known b
  | .newString _ | .root | .live | .collect | .interrupt | .emit _ => True

/-- The routine names no objects but those it knows and those it gets as answers, be it
to look at them or to hand them on. -/
def Routine.Frank : Routine → (Value → Prop) → Prop
  | .finish v, known => known v
  | .fail _, _ => True
  | .ask q next, known =>
    q.Knows known ∧
      (∀ v : Value, (next (.ok v)).Frank fun (u : Value) => known u ∨ u = v) ∧
      ∀ e : ScriptError, (next (.error e)).Frank known

/-- A native names what it is called with. -/
def Frank (behaviour : List Value → Routine) : Prop :=
  ∀ args, (behaviour args).Frank fun (v : Value) => v.ref? = none ∨ v ∈ args

theorem Request.Knows.names {q : Request} {known : Value → Prop} (h : q.Knows known) :
    ∀ v ∈ q.names, known v := by
  intro v hv
  cases q with
  | call callee args => exact (List.mem_cons.1 hv).elim (fun he => he ▸ h.1) (h.2 v)
  | newArray items => exact h v hv
  | push r w =>
    rcases List.mem_cons.1 hv with rfl | hv
    · exact h.1
    · exact List.mem_singleton.1 hv ▸ h.2
  | weaken w => exact List.mem_singleton.1 hv ▸ h
  | newString _ | target _ | length _ | «attribute» _ _ | display _ | deepEqual _ _ | root | live
  | collect | interrupt | emit _ => cases hv

theorem Request.Knows.mono {q : Request} {known known' : Value → Prop} (h : q.Knows known)
    (hk : ∀ v, known v → known' v) : q.Knows known' := by
  cases q with
  | call callee args => exact ⟨hk _ h.1, fun v hv => hk v (h.2 v hv)⟩
  | newArray items => exact fun v hv => hk v (h v hv)
  | push r v | deepEqual a b => exact ⟨hk _ h.1, hk _ h.2⟩
  | weaken v | display v | target w | «attribute» r a => exact hk _ h
  | length r => exact h.imp (hk _) (hk _)
  | newString _ | root | live | collect | interrupt | emit _ => trivial

namespace Routine

variable {known : Value → Prop} {q : Request}

theorem Frank.honest {r : Routine} (h : r.Frank known) : r.Honest known := by
  induction r generalizing known with
  | finish v => exact h
  | fail e => trivial
  | ask q next ih => exact ⟨h.1.names, fun v => ih (.ok v) (h.2.1 v), fun e => ih (.error e) (h.2.2 e)⟩

theorem Frank.mono {r : Routine} {known' : Value → Prop} (h : r.Frank known)
    (hk : ∀ v, known v → known' v) : r.Frank known' := by
  induction r generalizing known known' with
  | finish v => exact hk v h
  | fail e => trivial
  | ask q next ih =>
    refine ⟨h.1.mono hk, fun v => ih (.ok v) (h.2.1 v) fun u hu => hu.imp_left (hk u), fun e => ?_⟩
    exact ih (.error e) (h.2.2 e) hk

theorem asking_frank {next : Value → Routine} (hq : q.Knows known)
    (hn : ∀ v, (next v).Frank fun u => known u ∨ u = v) : (asking q next).Frank known :=
  ⟨hq, hn, fun _ => trivial⟩

theorem giving_frank (hq : q.Knows known) : (giving q).Frank known :=
  asking_frank hq fun _ => .inr rfl

end Routine

theorem Frank.honest {behaviour : List Value → Routine} (h : Frank behaviour) :
    Honest [] behaviour := fun args =>
  (h args).honest.mono fun _ hv => hv.imp_right .inl

namespace TypeMethod

variable {args : List Value}

theorem held_receiver : (receiver args).ref? = none ∨ receiver args ∈ args := by
  cases args with
  | nil => exact .inl rfl
  | cons v rest => exact .inr List.mem_cons_self

theorem held_argument (i : Nat) : (argument args i).ref? = none ∨ argument args i ∈ args := by
  unfold argument
  cases h : args[i]? with
  | none => exact .inl rfl
  | some v => exact .inr (List.mem_of_getElem? h)

theorem len_frank : Frank len.behaviour := by
  intro args
  have hreceiver := @held_receiver args
  simp only [len]
  split
  · exact .inl rfl
  · rename_i h
    rw [h] at hreceiver
    exact Routine.giving_frank (.inl hreceiver)
  · rename_i h
    rw [h] at hreceiver
    exact Routine.giving_frank (.inr hreceiver)
  · trivial

theorem append_frank : Frank append.behaviour := by
  intro args
  have hreceiver := @held_receiver args
  simp only [append]
  split
  · rename_i h
    rw [h] at hreceiver
    exact Routine.asking_frank ⟨hreceiver, held_argument 1⟩ fun _ => .inl hreceiver
  · trivial

theorem weakref_frank : Frank weakref.behaviour := fun _ => Routine.giving_frank held_receiver

theorem ref_frank : Frank ref.behaviour := by
  intro args
  have hreceiver := @held_receiver args
  simp only [ref]
  split
  · rename_i h
    rw [h] at hreceiver
    exact Routine.giving_frank hreceiver
  · exact hreceiver

theorem readAttribute_frank : Frank readAttribute.behaviour := by
  intro args
  have hreceiver := @held_receiver args
  simp only [readAttribute]
  split
  · rename_i h
    rw [h] at hreceiver
    split
    · exact Routine.giving_frank hreceiver
    · trivial
  · trivial

theorem all_frank {e : NativeFunction × List TypeTag} (he : e ∈ all) : Frank e.1.behaviour := by
  simp only [all, List.mem_cons, List.not_mem_nil, or_false] at he
  rcases he with rfl | rfl | rfl | rfl | rfl
  · exact len_frank
  · exact append_frank
  · exact weakref_frank
  · exact ref_frank
  · exact readAttribute_frank

end TypeMethod

/-! ## Alarmed runs -/

/-- The request is about what lives. -/
def Request.concernsLifetimes : Request → Bool
  | .weaken _ | .target _ | .live | .collect => true
  | _ => false

namespace Exec

/-- Answers a request, unless it is about lifetimes. -/
def answerAlarmed (alarm : Exec Value) (call : Caller) (q : Request) : Exec Value :=
  if q.concernsLifetimes then alarm else answer call q

mutual

/-- Calls a value; requests about lifetimes set off an alarm. -/
def callAlarmed (alarm : Exec Value) : Nat → Caller
  | 0, _, _ => throw .outOfSteps
  | steps + 1, callee, args =>
    callWith (executeAlarmed alarm steps)
      (performWith (answerAlarmed alarm (callAlarmed alarm steps)) []) (callAlarmed alarm steps)
      callee args

/-- Runs instructions; requests about lifetimes set off an alarm. -/
def executeAlarmed (alarm : Exec Value) : Nat → Exec Value
  | 0 => throw .outOfSteps
  | steps + 1 => executeWith (callAlarmed alarm steps) (executeAlarmed alarm steps)

end

variable {t : Terms} {φ : Fault}

theorem answerAlarmed_replies {s : Scope} {call : Caller} (hφ : ∀ e : ScriptError, φ ≠ .script e)
    (hlax : ¬ t.strict) (hc : Faithful t call call) :
    Replies t s (answerAlarmed (throw φ) call) (answerAlarmed (throw φ) call) := by
  intro q own m hm hq
  unfold answerAlarmed
  split
  · cases φ with
    | script e => exact absurd rfl (hφ e)
    | outsideStack => exact ⟨rfl, hlax⟩
    | outOfSteps => exact ⟨rfl, trivial⟩
  · exact answer_keeps hc hm hq

/-- A run that an alarm ends keeps the machine in order, as any run does. -/
theorem alarmed_faithful (hφ : ∀ e : ScriptError, φ ≠ .script e) (hlax : ¬ t.strict)
    (ht : ∀ slot v, t.stores slot v) (steps : Nat) :
    Faithful t (callAlarmed (throw φ) steps) (callAlarmed (throw φ) steps) ∧
      Carries t (executeAlarmed (throw φ) steps) (executeAlarmed (throw φ) steps) := by
  induction steps with
  | zero =>
    refine ⟨fun s callee args own m _ _ => ?_, fun m0 own m _ _ => ?_⟩
    · rw [callAlarmed]
      exact ⟨rfl, trivial⟩
    · rw [executeAlarmed]
      exact ⟨rfl, trivial⟩
  | succ steps ih =>
    obtain ⟨hcall, hcarry⟩ := ih
    refine ⟨fun s callee args own m hm hcallee => ?_, fun m0 own m hm hr => ?_⟩
    · rw [callAlarmed]
      exact callWith_faithful hcall hcarry
        (performWith_performs fun _ => answerAlarmed_replies hφ hlax hcall) s callee args own m hm hcallee
    · rw [executeAlarmed]
      exact executeWith_meets hcall hcarry hm hr fun slot v _ => ht slot v

end Exec

end ScriptMachine
