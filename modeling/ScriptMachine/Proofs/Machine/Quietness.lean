import ScriptMachine.Proofs.Machine.Binding
import ScriptMachine.Proofs.Machine.Reachable
import ScriptMachine.Proofs.Machine.Timeless
import ScriptMachine.Proofs.Machine.Traces

/-!
# Code that calls nothing

A function whose instructions call nothing runs the same however calls are made. Hence an
alarm that some native would set off makes no difference to it.
-/

set_option autoImplicit false

namespace ScriptMachine

open Exec

/-- The instruction stays in its function, and the caller makes no difference to it. -/
structure Instruction.Quiet (i : Instruction) : Prop where
  noCall : i.opcode ≠ .call
  noTailCall : i.opcode ≠ .tailCall
  heedless : ∀ (call call' : Caller) (base : Nat), effect call base i = effect call' base i

/-- The code calls nothing. -/
def Prototype.Quiet (p : Prototype) : Prop :=
  ∀ i ∈ p.code.toList, i.opcode = .ret ∨ i.Quiet

namespace Exec

variable {m : Machine} {f : Frame} {rest : List Frame}

/-- Both go on alike from where the first part ends. -/
theorem bind_congr_at {α β : Type} {act : Exec α} {g g' : α → Exec β}
    (h : ∀ a n, act m = .ok a n → g a n = g' a n) : (act >>= g) m = (act >>= g') m := by
  cases hact : act m with
  | ok a n => rw [bind_ok m hact, bind_ok m hact, h a n hact]
  | error e n => rw [bind_error m hact, bind_error m hact]

theorem bind_congr_left {α β : Type} {act act' : Exec α} {g : α → Exec β} (h : act m = act' m) :
    (act >>= g) m = (act' >>= g) m := by
  show EStateM.bind act g m = EStateM.bind act' g m
  unfold EStateM.bind
  rw [h]

theorem noting_congr {α : Type} {act act' : Exec α} (h : act m = act' m) :
    noting act m = noting act' m := by
  unfold noting
  rw [h]

/-- A step of quiet code is the same for all callers, and the function goes on unless it
returns to the outside. -/
theorem step_quiet (hf : m.frames = f :: rest) (hroot : f.root = true) (hq : f.prototype.Quiet) :
    ∃ r, (∀ call, step call m = r) ∧
      ∀ n, r = .ok .next n → ∃ ip, n.frames = { f with ip } :: rest := by
  have hends : ∀ {g : Frame} {n n' : Machine} (v : Value), n.frames = g :: rest → g.root = true →
      returnFromFrame v n ≠ .ok .next n' := by
    intro g n n' v hg hr h
    rw [returnFromFrame_eq hg, deliver_root hr] at h
    cases h
  by_cases hint : m.interrupted = true
  · exact ⟨_, fun call => step_interrupted hint, fun n h => by cases h⟩
  have hcheck : checkInterrupt m = .ok () m := (checkInterrupt_eq m).trans (if_neg hint)
  cases hi : f.prototype.code[f.ip]? with
  | none =>
    refine ⟨returnFromFrame .null m, fun call => ?_, fun n h => absurd h (hends .null hf hroot)⟩
    unfold step
    rw [bind_ok m hcheck, bind_ok m (currentFrame_eq hf), hi]
  | some i =>
    have hmem : i ∈ f.prototype.code.toList := Array.mem_def.1 (Array.mem_of_getElem? hi)
    by_cases hret : i.opcode = .ret
    · refine ⟨(returnedValue f.base i.arg0 >>= returnFromFrame) (m.fetched f rest), fun call => ?_, ?_⟩
      · unfold step
        rw [bind_ok m hcheck, bind_ok m (currentFrame_eq hf), hi]
        simp only
        rw [bind_ok m (setIp_eq (f.ip + 1) hf), if_pos hret]
        rfl
      · intro n h
        have htelling : Telling (fun _ => returnedValue f.base i.arg0) hostCaller :=
          returnedValue_tells i.arg0
        have htold := (htelling (m.fetched f rest)).ends
        cases hv : returnedValue f.base i.arg0 (m.fetched f rest) with
        | ok v n1 =>
          rw [hv] at htold
          rw [bind_ok _ hv] at h
          exact absurd h (hends v htold.frames hroot)
        | error e n1 =>
          rw [bind_error _ hv] at h
          cases h
    · have hquiet := (hq i hmem).resolve_left hret
      refine ⟨(effect hostCaller f.base i >>= fun _ => pure .next) (m.fetched f rest),
        fun call => ?_, fun n h => ?_⟩
      · rw [step_effect (Bool.not_eq_true _ ▸ hint) hf hi hret, hquiet.heedless call hostCaller]
        rfl
      · have hsteering : Steering (fun c => effect c f.base i) (callValue stepLimit) :=
          effect_steers (callValue_tells stepLimit) hquiet.noCall hquiet.noTailCall
        have hsteered := (hsteering (m.fetched f rest)).ends
        cases he : effect hostCaller f.base i (m.fetched f rest) with
        | ok a n1 =>
          rw [show effect (callValue stepLimit) f.base i (m.fetched f rest) = _ from he] at hsteered
          rw [bind_ok _ he] at h
          cases h
          rcases hsteered.frames with heq | ⟨g, rest', ip, hg, heq⟩
          · exact ⟨_, heq⟩
          · cases hg
            exact ⟨ip, heq⟩
        | error e n1 =>
          rw [bind_error _ he] at h
          cases h

/-- An alarm makes no difference to quiet code. -/
theorem execute_alarmed (alarm : Exec Value) (steps : Nat) (hf : m.frames = f :: rest)
    (hroot : f.root = true) (hq : f.prototype.Quiet) :
    executeAlarmed alarm steps m = execute steps m := by
  induction steps generalizing m f with
  | zero => rw [executeAlarmed, execute]
  | succ steps ih =>
    obtain ⟨r, hstep, hnext⟩ := step_quiet hf hroot hq
    rw [executeAlarmed, execute]
    unfold executeWith
    rw [hstep, hstep]
    cases r with
    | ok flow n =>
      cases flow with
      | next =>
        obtain ⟨ip, hn⟩ := hnext n rfl
        exact ih hn hroot hq
      | finished v => rfl
    | error e n => rfl

/-! ## Calls -/

variable {t : Terms} {own args : List Value} {r : Ref} {c : ClosureObject} {m' : Machine}

/-- A function that is entered from outside is the current one. -/
theorem enter_frames (hm : m.Tidy t (args ++ own)) (hc : m.heap.closure? r = some c)
    (h : enter r args m = .ok () m') :
    ∃ g, m'.frames = g :: m.frames ∧ g.root = true ∧ g.prototype = c.prototype := by
  have hlive : (m.pushed args).heap.Has (.closure r) := fun s hs => by
    cases hs
    exact ⟨_, Heap.closure?_eq_some.1 hc, rfl⟩
  have hm1 := hm.pushed.retain hlive
  have hc1 : ((m.pushed args).withHeap ((m.pushed args).heap.retain (.closure r))).heap.closure? r =
      some c := by
    rw [Machine.withHeap_heap, Heap.closure?_eq_some, Heap.body?_retain]
    exact Heap.closure?_eq_some.1 hc
  have hin : m.stack.size + args.length ≤ (m.pushed args).stack.size :=
    le_of_eq (Machine.size_pushed m args).symm
  have hpush : pushFrame r m.stack.size args.length none true
      ((m.pushed args).withHeap ((m.pushed args).heap.retain (.closure r))) = .ok () m' := by
    rw [enter_eq] at h
    cases hact : pushFrame r m.stack.size args.length none true
        ((m.pushed args).withHeap ((m.pushed args).heap.retain (.closure r))) with
    | ok a n => exact (cuttingBack_ok _ hact).symm.trans h
    | error e n => cases h.symm.trans (cuttingBack_error _ hact)
  obtain ⟨-, -, hact⟩ := pushFrame_entered hm1 hc1 hin hpush
  exact ⟨_, hact.frames, rfl, rfl⟩

/-- An alarm makes no difference to the call of a quiet function. -/
theorem call_alarmed (alarm : Exec Value) (steps : Nat) (hm : m.Tidy t (args ++ own))
    (hc : m.heap.closure? r = some c) (hq : c.prototype.Quiet) :
    callAlarmed alarm steps (.closure r) args m = callValue steps (.closure r) args m := by
  cases steps with
  | zero => rw [callAlarmed, callValue]
  | succ steps =>
    rw [callAlarmed, callValue]
    refine bind_congr_at fun _ n hn => ?_
    obtain ⟨g, hframes, hroot, hp⟩ := enter_frames hm hc hn
    exact execute_alarmed alarm steps hframes hroot (hp ▸ hq)

/-- An alarm makes no difference to the run of a quiet function. -/
theorem runWith_alarmed (alarm : Exec Value) (steps : Nat) (hlax : ¬ t.strict) (hm : m.Tidy t own)
    {p : Prototype} (hq : p.Quiet) :
    runWith p (callAlarmed alarm steps) m = runWith p (callValue steps) m := by
  unfold runWith
  cases houters : p.outers with
  | cons k ks =>
    have hno : ∀ f n, noting (closureOf p) m ≠ .ok f n := by
      intro f n h
      unfold noting closureOf at h
      rw [houters] at h
      cases h
    exact bind_congr_at fun f n hf => absurd hf (hno f n)
  | nil =>
    have hmake : noting (closureOf p) m = .ok (.closure (m.heap.newClosure p [] []).1)
        (m.withHeap (m.heap.newClosure p [] []).2) := by
      unfold noting
      rw [closureOf_eq houters m]
    have hnew : (m.heap.newClosure p [] []).2.closure? (m.heap.newClosure p [] []).1 =
        some ⟨p, [], [], none⟩ :=
      Heap.closure?_eq_some.2 ((Heap.body?_allocateLinked _ _ _).trans (if_pos rfl))
    have hm1 : (m.withHeap (m.heap.newClosure p [] []).2).Tidy t
        (.closure (m.heap.newClosure p [] []).1 :: own) := by
      refine hm.heap ?_
      rw [coe_cons_add]
      exact Heap.Backs.newClosure (hm.backs.mono (by simp)) fun h => absurd h hlax
    rw [bind_ok m hmake, bind_ok m hmake]
    generalize (m.heap.newClosure p [] []).1 = r at hm1 hnew
    generalize (m.heap.newClosure p [] []).2 = h at hm1 hnew
    refine owning_congr ?_
    show holding [.dict (m.withHeap h).root] (do
        callNoting (callAlarmed alarm steps) (.closure r) [.dict (← get).root]) (m.withHeap h) =
      holding [.dict (m.withHeap h).root] (do
        callNoting (callValue steps) (.closure r) [.dict (← get).root]) (m.withHeap h)
    unfold holding
    refine bind_congr_at fun _ n hn => owning_congr ?_
    rw [retainAll_eq] at hn
    cases hn
    show callNoting _ _ [.dict _] _ = callNoting _ _ [.dict _] _
    unfold callNoting
    refine bind_congr_at fun _ n hn => noting_congr ?_
    rw [retainAll_eq] at hn
    cases hn
    have hroot : (m.withHeap h).heap.Has (.dict m.root) := hm1.has_root Machine.globals_mem_roots
    have hstart : (m.withHeap h).Within t ⟨m.withHeap h, .nothing, False⟩ (.closure r :: own) :=
      .of_start hm1
    have hlent : ∀ v ∈ [Value.dict m.root], (m.withHeap h).heap.Has v := by simpa using hroot
    have hw := hstart.retainAll hlent
    have hw2 := hw.retainAll fun v hv => hw.has (List.mem_append_left _ hv)
    refine call_alarmed (c := ⟨p, [], [], none⟩) alarm steps hw2.toTidy ?_ hq
    rw [Heap.closure?_eq_some] at hnew ⊢
    exact Heap.spares_retainAll _ _ _ _ nofun (Heap.spares_retainAll _ _ _ _ nofun hnew)

end Exec

end ScriptMachine
