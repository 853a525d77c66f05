import ScriptMachine.Proofs.Machine.Creation
import ScriptMachine.Proofs.Machine.Moments

/-!
# What hosts and scripts can rely on

A host makes machines, changes their heap by operations that keep the accounts,
and calls values; natives call back. Every state that arises is in order. Hence
a call leaves the machine as it found it, and functions that are well-formed
never meet an instruction that is not.
-/

set_option autoImplicit false

namespace ScriptMachine

namespace Heap.Backs

/-- Less may be required of the functions. -/
theorem relax {l l' : Law} {own : Multiset Value} {h : Heap} (hb : h.Backs l own)
    (hl : ∀ b, l.Admits b → l'.Admits b) : h.Backs l' own :=
  ⟨hb.sound, hb.fits, fun r b hr => ⟨(hb.bodies r b hr).1, hl b (hb.bodies r b hr).2⟩, hb.handles⟩

end Heap.Backs

/-- Terms under which cells may be stored through freely. -/
def Terms.open (strict : Prop) (host : List Value) : Terms := ⟨strict, host, fun _ _ => True⟩

namespace Exec

/-- The call is over, with a value or an error of the script. -/
def Ends (r : EStateM.Result Fault Machine Value) (m : Machine) : Prop :=
  (∃ v, r = .ok v m) ∨ ∃ e, r = .error (.script e) m

/-- The machines that arise, with what the host keeps for good and what is owned
besides. When functions are strict, all of them are well-formed. -/
inductive Reachable (strict : Prop) : List Value → List Value → Machine → Prop
  | created (config : MachineConfig) : Reachable strict [] [] (.create config)
  /-- The heap is changed by an operation that keeps the accounts. -/
  | operated {host own own' : List Value} {m : Machine} {h : Heap} :
    Reachable strict host own m →
    Heap.Moves (Terms.open strict host).law
      ((own' : Multiset Value) + ((host : Multiset Value) + m.roots)) m.heap h →
    Reachable strict host own' (m.withHeap h)
  /-- The host keeps a value for natives to use. -/
  | kept {host own : List Value} {m : Machine} {v : Value} :
    Reachable strict host (v :: own) m → Reachable strict (v :: host) own m
  /-- The host sets or clears what only it and its natives look at. -/
  | told {host own : List Value} {m : Machine} (lastError : Option ScriptError)
    (interrupted : Bool) (output : Array String) : Reachable strict host own m →
    Reachable strict host own { m with lastError, interrupted, output }
  /-- A call has ended with a value. -/
  | returned {host own args : List Value} {m m' : Machine} {steps : Nat} {callee v : Value} :
    Reachable strict host (args ++ own) m → m.heap.Has callee →
    callValue steps callee args m = .ok v m' → Reachable strict host (v :: own) m'
  /-- A call has ended with an error. -/
  | raised {host own args : List Value} {m m' : Machine} {steps : Nat} {callee : Value}
    {e : ScriptError} : Reachable strict host (args ++ own) m → m.heap.Has callee →
    callValue steps callee args m = .error (.script e) m' → Reachable strict host own m'
  /-- Within a call, another value is about to be called. -/
  | within {host own args args' : List Value} {m m' : Machine} {steps : Nat}
    {callee callee' : Value} : Reachable strict host (args ++ own) m → m.heap.Has callee →
    Sometime steps callee args m (fun k m1 => k = .call callee' args' ∧ m1 = m') →
    Reachable strict host args' m'

variable {strict : Prop} {host own args : List Value} {m m' : Machine} {callee : Value}

theorem open_keeps (steps : Nat) (hm : m.Tidy (.open strict host) (args ++ own))
    (hcallee : m.heap.Has callee) :
    Keeps (.open strict host) (.still m .nothing) own (callValue steps callee args)
      (callValue steps callee args) (fun (v : Value) => [v]) m :=
  callValue_faithful (fun _ _ => trivial) steps _ callee args own m (.of_start hm) hcallee

/-- Every machine that arises is in order. -/
theorem Reachable.tidy (hm : Reachable strict host own m) : m.Tidy (.open strict host) own := by
  induction hm with
  | created config => exact Machine.create_tidy rfl config
  | operated _ hmoves ih => exact ih.heap hmoves
  | @kept host own m v _ ih =>
    refine ⟨(ih.backs.relax fun b hb => ?_).mono (le_of_eq ?_), ih.cells, ih.running, ih.depth⟩
    · cases b with
      | native n =>
        refine fun args => (hb args).mono fun u hu => ?_
        exact hu.imp_right (Or.imp_right (List.mem_cons_of_mem v))
      | content | weak | array | dict | closure | classObject | instanceObject | outer => exact hb
    · show (own : Multiset Value) + ((v :: host : List Value) + m.roots) = _
      rw [coe_cons_add, Multiset.add_cons, coe_cons_add]
      rfl
  | told lastError interrupted output _ ih => exact ⟨ih.backs, ih.cells, ih.running, ih.depth⟩
  | @returned _ _ _ _ _ steps _ _ _ hcallee hret ih =>
    have h := (open_keeps steps ih hcallee).2
    rw [hret] at h
    exact h.toTidy
  | @raised _ _ _ _ _ steps _ _ _ hcallee hret ih =>
    have h := (open_keeps steps ih hcallee).2
    rw [hret] at h
    exact h.1.toTidy
  | @within host own args args' m m' steps callee callee' _ hcallee hsome ih =>
    by_contra hnot
    apply hsome
    refine throughout_of_promise (fun _ _ => trivial) (fun c as own m1 hm1 _ h => hnot ?_)
      (fun own m1 _ h => by cases h.1) (fun m0 own m1 _ _ h => by cases h.1) ih hcallee
    obtain ⟨heq, rfl⟩ := h
    cases heq
    exact hm1.mono (by rw [← Multiset.coe_add]; exact Multiset.le_add_right _ _)

/-- What holds of orderly machines with room for their registers holds at every fetch. -/
theorem Reachable.throughout_fetch {expects : Machine → Prop}
    (hm : Reachable strict host (args ++ own) m) (hcallee : m.heap.Has callee) (steps : Nat)
    (hfetch : ∀ m0 own m1, Machine.Above (.open strict host) m0 own m1 → m1.Roomy → expects m1) :
    Throughout steps callee args m fun k m1 => k = .fetch → expects m1 :=
  throughout_of_promise (fun _ _ => trivial) (fun _ _ _ _ _ _ hk => by cases hk)
    (fun _ _ _ hk => by cases hk) (fun m0 own m1 hm1 hroomy _ => hfetch m0 own m1 hm1 hroomy)
    hm.tidy hcallee

theorem closureOf_eq {p : Prototype} (houters : p.outers = []) (m : Machine) :
    closureOf p m = .ok (.closure (m.heap.newClosure p [] []).1)
      (m.withHeap (m.heap.newClosure p [] []).2) := by
  unfold closureOf
  rw [houters]
  rfl

/-- A host may make closures of functions that capture nothing, of well-formed
ones when it must. -/
theorem Reachable.closureOf {p : Prototype} (hm : Reachable strict host own m)
    (hp : strict → p.WellFormed) (houters : p.outers = []) :
    Reachable strict host (.closure (m.heap.newClosure p [] []).1 :: own)
      (m.withHeap (m.heap.newClosure p [] []).2) := by
  refine hm.operated ?_
  rw [coe_cons_add]
  refine Heap.Backs.newClosure (hm.tidy.backs.mono (by simp [Terms.open])) fun hs => ⟨hp hs, ?_⟩
  rw [houters]
  rfl

/-- A host may share in what lives. -/
theorem Reachable.retain {v : Value} (hm : Reachable strict host own m) (hv : m.heap.Has v) :
    Reachable strict host (v :: own) (m.withHeap (m.heap.retain v)) :=
  hm.operated (by rw [coe_cons_add]; exact hm.tidy.backs.retain hv)

theorem Reachable.release {v : Value} (hm : Reachable strict host (v :: own) m) :
    Reachable strict host own (m.withHeap (m.heap.release v)) :=
  hm.operated hm.tidy.backs_cons.release

/-! ## Calls leave the machine as they found it -/

/-- Nothing is left of a call but what was stored through cells. -/
structure LeftAsFound (steps : Nat) (callee : Value) (args : List Value) (m m' : Machine) : Prop where
  frames : m'.frames = m.frames
  height : m'.stack.size = m.stack.size
  nativeDepth : m'.nativeDepth = m.nativeDepth
  /-- A slot has its old value, or one that was stored through its cell. -/
  slots : ∀ i v, m'.stack[i]? = some v → m.stack[i]? = some v ∨
    Sometime steps callee args m fun k m1 => k = .fetch ∧ m1.Stores i v
  /-- No cell is open that was not open before. -/
  closed : ∀ c i, m'.heap.outerState? c = some (.opened i) → m.heap.outerState? c = some (.opened i)

/-- A slot changes only if its new value was stored through its cell. -/
theorem slot_unchanged {steps i : Nat} {v : Value} (hm : m.Tidy (.open strict host) (args ++ own))
    (hcallee : m.heap.Has callee) (hend : Ends (callValue steps callee args m) m')
    (hv : m'.stack[i]? = some v)
    (hnever : Throughout steps callee args m fun k m1 => ¬ (k = .fetch ∧ m1.Stores i v)) :
    m.stack[i]? = some v := by
  have hm' : m.Tidy ⟨strict, host, fun j u => ¬ (j = i ∧ u = v)⟩ (args ++ own) :=
    ⟨hm.backs, hm.cells, hm.running, hm.depth⟩
  have hkeeps := call_keeps_of_assumption hnever (fun m1 h1 j u hu => by
    rintro ⟨rfl, rfl⟩
    exact h1 ⟨rfl, hu⟩) hm' hcallee
  have hfollows : Machine.Follows ⟨strict, host, fun j u => ¬ (j = i ∧ u = v)⟩ .nothing m m' := by
    have h := hkeeps.2
    rcases hend with ⟨u, hret⟩ | ⟨e, hret⟩
    · rw [hret] at h
      exact h.toFollows
    · rw [hret] at h
      exact h.1.toFollows
  rcases hfollows.slots i v hv with h | h | h
  · exact h
  · exact h.elim
  · exact absurd ⟨rfl, rfl⟩ h

/-- Whatever is called, in whatever state: when the call ends, frames, height of
the stack and depth are those at its start, and the limit of the depth is kept
all the time. -/
theorem call_leaves_as_found (hm : Reachable strict host (args ++ own) m) (hcallee : m.heap.Has callee)
    (steps : Nat) :
    (∀ m', Ends (callValue steps callee args m) m' → LeftAsFound steps callee args m m') ∧
      Throughout steps callee args m fun _ m1 =>
        m1.frames.length + m1.nativeDepth ≤ m1.config.maxCallDepth := by
  have htidy := hm.tidy
  refine ⟨fun m' hend => ?_, ?_⟩
  · have hwithin : ∃ own', m'.Within (.open strict host) (.still m .nothing) own' := by
      have h := (open_keeps steps htidy hcallee).2
      rcases hend with ⟨v, hret⟩ | ⟨e, hret⟩
      · rw [hret] at h
        exact ⟨_, h⟩
      · rw [hret] at h
        exact ⟨_, h.1⟩
    obtain ⟨own', hw⟩ := hwithin
    refine ⟨hw.frames_still, hw.size, hw.nativeDepth, fun i v hv => ?_, fun c i hc => ?_⟩
    · by_cases hnever : Throughout steps callee args m fun k m1 => ¬ (k = .fetch ∧ m1.Stores i v)
      · exact .inl (slot_unchanged htidy hcallee hend hv hnever)
      · exact .inr hnever
    · exact (hw.opened c i hc).elim id fun h => h.elim
  · exact throughout_of_promise (fun _ _ => trivial) (fun _ _ _ _ h _ => h.depth) (fun _ _ h => h.depth)
      (fun _ _ _ h _ => h.depth) htidy hcallee

/-- A function that calls its receiver with the receiver: called with itself, it
calls until it is too deep. -/
def selfCall : Prototype where
  name := "again"
  code := #[{ opcode := .call, arg3 := 1 }, { opcode := .ret }]

theorem selfCall_wellFormed : selfCall.WellFormed := by
  have hregister : selfCall.HasRegister 0 := ⟨by decide, by decide⟩
  have hwindow : selfCall.HasWindow 0 1 := ⟨by decide, by decide, by decide⟩
  refine .intro _ (List.cons_ne_nil _ _) (fun place i hi => ?_) ?_ ?_
  · obtain ⟨hlt, hi⟩ := Array.getElem?_eq_some_iff.1 hi
    match place, hlt with
    | 0, _ =>
      subst hi
      exact ⟨fun _ => hregister, hregister, hwindow⟩
    | 1, _ =>
      subst hi
      exact fun _ => hregister
  · exact fun f hf => by cases hf
  · exact fun f hf => by cases hf

def selfCallClosure : Ref × Heap := (Machine.create {}).heap.newClosure selfCall [] []

/-- A new machine with a closure of that function. -/
def selfCallHome : Machine := (Machine.create {}).withHeap selfCallClosure.2

/-- There are two references to the closure: one to call it by, one to pass. -/
def selfCallMachine : Machine :=
  selfCallHome.withHeap (selfCallHome.heap.retain (.closure selfCallClosure.1))

theorem selfCall_reachable :
    Reachable strict [] ([.closure selfCallClosure.1] ++ [.closure selfCallClosure.1])
      selfCallMachine := by
  have hm : Reachable strict [] [.closure selfCallClosure.1] selfCallHome :=
    (Reachable.created {}).closureOf (fun _ => selfCall_wellFormed) (by rfl)
  have hhas : selfCallHome.heap.Has (.closure selfCallClosure.1) := hm.tidy.has List.mem_cons_self
  exact hm.retain hhas

theorem selfCall_has : selfCallMachine.heap.Has (.closure selfCallClosure.1) :=
  (@selfCall_reachable False).tidy.has List.mem_cons_self

/-- The call that goes too deep leaves nothing behind. -/
theorem call_leaves_as_found_selfCall :
    Reachable False [] ([.closure selfCallClosure.1] ++ [.closure selfCallClosure.1])
        selfCallMachine ∧
      selfCallMachine.heap.Has (.closure selfCallClosure.1) ∧
      ∀ steps, (∀ m', Ends (callValue steps (.closure selfCallClosure.1)
          [.closure selfCallClosure.1] selfCallMachine) m' →
            LeftAsFound steps (.closure selfCallClosure.1) [.closure selfCallClosure.1]
              selfCallMachine m') ∧
        Throughout steps (.closure selfCallClosure.1) [.closure selfCallClosure.1] selfCallMachine
          fun _ m1 => m1.frames.length + m1.nativeDepth ≤ m1.config.maxCallDepth :=
  ⟨selfCall_reachable, selfCall_has,
    call_leaves_as_found (@selfCall_reachable False) selfCall_has⟩

/-! ## Well-formed functions do not go wrong -/

/-- No instruction is refused as malformed, and none reaches outside the stack. -/
def Sound {α : Type} : EStateM.Result Fault Machine α → Prop
  | .ok _ _ => True
  | .error (.script e) _ => ¬ e.Raw
  | .error .outsideStack _ => False
  | .error .outOfSteps _ => True

theorem Meets.sound {α : Type} {t : Terms} {act act' : Exec α} {Q : α → Machine → Prop}
    {F : ScriptError → Machine → Prop} (h : Meets t act act' Q F m) (ht : t.strict)
    (hF : ∀ e m', F e m' → t.strict → ¬ e.Raw) : Sound (act m) := by
  have h2 := h.2
  cases hact : act m with
  | ok a m' => trivial
  | error e m' =>
    rw [hact] at h2
    cases e with
    | script e => exact hF e m' h2 ht
    | outsideStack => exact h2 ht
    | outOfSteps => trivial

/-- Machines whose functions are all well-formed: at every fetch of every run the
instruction is sound, however calls are made from there. -/
theorem wellFormed_sound (hm : Reachable True host (args ++ own) m) (hcallee : m.heap.Has callee)
    (steps : Nat) :
    (Throughout steps callee args m fun k m1 =>
        k = .fetch → ∀ steps', Sound (step (callValue steps') m1)) ∧
      Sound (callValue steps callee args m) := by
  have htidy := hm.tidy
  refine ⟨?_, (open_keeps steps htidy hcallee).sound trivial fun e m' he => he.2⟩
  refine throughout_of_promise (t := .open True host) (fun _ _ => trivial) (fun _ _ _ _ _ _ h => by cases h)
    (fun _ _ _ h => by cases h) (fun m0 own m1 hm1 hr _ steps' => ?_) htidy hcallee
  have hfaithful : Faithful (.open True host) (callValue steps') (callValue steps') :=
    callValue_faithful (fun _ _ => trivial) steps'
  exact (step_meets hfaithful hm1 hr fun _ _ _ => trivial).sound trivial fun e m' he => he.decent

theorem wellFormed_sound_selfCall :
    Reachable True [] ([.closure selfCallClosure.1] ++ [.closure selfCallClosure.1])
        selfCallMachine ∧
      selfCallMachine.heap.Has (.closure selfCallClosure.1) ∧
      ∀ steps, Throughout steps (.closure selfCallClosure.1) [.closure selfCallClosure.1]
          selfCallMachine
          (fun k m1 => k = .fetch → ∀ steps', Sound (step (callValue steps') m1)) ∧
        Sound (callValue steps (.closure selfCallClosure.1) [.closure selfCallClosure.1]
          selfCallMachine) :=
  ⟨selfCall_reachable, selfCall_has, wellFormed_sound selfCall_reachable selfCall_has⟩

end Exec

end ScriptMachine
