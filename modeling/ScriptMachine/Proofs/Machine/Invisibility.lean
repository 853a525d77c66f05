import ScriptMachine.Proofs.Machine.Likeness
import ScriptMachine.Proofs.Machine.Quietness

/-!
# Collecting cannot be seen

Two hosts make the same calls, one of a machine that collects by one rule and one of a
machine that collects by another. As long as no native asks about lifetimes, both see the
same. None does, for one, while all functions that run call nothing.
-/

set_option autoImplicit false

namespace ScriptMachine

open Exec

/-! ## Calls that are the same for all callers -/

/-- The call runs a quiet function, or calls nothing. -/
def HostCall.Quiet : HostCall → Prop
  | .op (.run p) _ => p.Quiet
  | .op o _ => ∀ (call call' : Caller) (vs : List Value), o.act call vs = o.act call' vs
  | .drop _ => True

namespace Hosting

variable {x x' : Hosting} {q : HostCall}

/-- An alarm makes no difference to a quiet call. -/
theorem Alike.act_alarmed (h : Alike x x') (hq : q.Quiet) (alarm : Exec Value) :
    x.act (callAlarmed alarm stepLimit) q = x.act hostCaller q := by
  cases q with
  | drop i => rw [act, act]
  | op o operands =>
    rw [act, act]
    cases o with
    | run p => exact bind_congr_left (runWith_alarmed alarm stepLimit id h.peers.left hq)
    | _ => exact congrFun (hq _ _ _) x.machine

/-- Hosts of quiet calls are not concerned with lifetimes. -/
theorem Alike.timeless (h : Alike x x) (calls : List HostCall) (hq : ∀ q ∈ calls, q.Quiet) :
    x.Timeless calls := by
  induction calls generalizing x with
  | nil => trivial
  | cons q rest ih =>
    have halarm := h.act_alarmed (hq q List.mem_cons_self)
    have hm := h.matched q halarm
    have hrest : ∀ p ∈ rest, p.Quiet := fun p hp => hq p (List.mem_cons_of_mem _ hp)
    refine ⟨halarm, ?_⟩
    generalize x.act hostCaller q = r at hm ⊢
    cases hm with
    | ok hn => exact ih hn hrest
    | failed hn => exact ih hn hrest
    | @stopped f _ _ hf =>
      cases f with
      | script e => exact absurd rfl (hf e)
      | outsideStack | outOfSteps => trivial

/-! ## Whole sequences of calls -/

theorem start_alike (config : MachineConfig) (c c' : CollectConfig) :
    Alike (start { config with collect := c }) (start { config with collect := c' }) := by
  obtain ⟨hp, ht⟩ := Machine.create_peers config c c'
  exact .fresh hp ht

theorem timeless_of_quiet (config : MachineConfig) (calls : List HostCall)
    (hq : ∀ q ∈ calls, q.Quiet) : (start config).Timeless calls :=
  (start_alike config config.collect config.collect).timeless calls hq

/-- Hosts that are alike see the same. -/
theorem Alike.sights_eq (h : Alike x x') (calls : List HostCall) (ht : x.Timeless calls) :
    x'.sights calls = x.sights calls := by
  induction calls generalizing x x' with
  | nil => rfl
  | cons q rest ih =>
    obtain ⟨halarm, hrest⟩ := ht
    have hq := h.matched q halarm
    unfold sights
    generalize x.act hostCaller q = r at hq hrest ⊢
    generalize x'.act hostCaller q = r' at hq ⊢
    cases hq with
    | ok hn =>
      dsimp only
      rw [hn.outlook_eq, ih hn hrest]
    | failed hn =>
      dsimp only
      rw [hn.outlook_eq, ih hn hrest]
    | @stopped f _ _ hf =>
      cases f with
      | script e => exact absurd rfl (hf e)
      | outsideStack | outOfSteps => rfl

/-- A function that leaves an array behind that holds itself. -/
def knot : Prototype where
  name := "knot"
  stackSize := 2
  code := #[{ opcode := .newObject, arg0 := 1, arg3 := ObjectKind.array.code },
    { opcode := .append, arg0 := 1, arg1 := 1, arg2 := AppendSource.register.code },
    { opcode := .ret, arg0 := 1 }]

theorem knot_quiet : knot.Quiet := by
  intro i hi
  simp only [knot, List.mem_cons, List.not_mem_nil, or_false] at hi
  rcases hi with rfl | rfl | rfl
  · exact .inr ⟨by decide, by decide, fun _ _ _ => rfl⟩
  · exact .inr ⟨by decide, by decide, fun _ _ _ => rfl⟩
  · exact .inl rfl

/-- The host makes a knot, drops it and makes another. -/
def knots : List HostCall := [.op (.run knot) [], .drop 0, .op (.run knot) []]

theorem knots_quiet : ∀ q ∈ knots, q.Quiet := by
  intro q hq
  simp only [knots, List.mem_cons, List.not_mem_nil, or_false] at hq
  rcases hq with rfl | rfl | rfl
  · exact knot_quiet
  · trivial
  · exact knot_quiet

/-- Automatic collection is invisible: as long as natives do not ask about lifetimes, the
answers, the errors, the output and all that can be reached are the same, however a machine
collects. -/
theorem collection_invisible (config : MachineConfig) (c c' : CollectConfig)
    (calls : List HostCall) (h : (start { config with collect := c }).Timeless calls) :
    (start { config with collect := c' }).sights calls =
      (start { config with collect := c }).sights calls :=
  (start_alike config c c').sights_eq calls h

/-- A machine that collects at each call collects the first knot, and the host cannot tell. -/
theorem collection_invisible_knots :
    (start { collect := { auto := false } }).Timeless knots ∧
      (start { collect := { auto := true, threshold := 0 } }).sights knots =
        (start { collect := { auto := false } }).sights knots :=
  have h := timeless_of_quiet { collect := { auto := false } } knots knots_quiet
  ⟨h, collection_invisible {} { auto := false } { auto := true, threshold := 0 } knots h⟩

end Hosting

end ScriptMachine
