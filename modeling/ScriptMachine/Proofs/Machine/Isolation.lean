import ScriptMachine.Machine.Globals
import ScriptMachine.Proofs.Machine.Below

/-!
# The caller's registers

A call instruction names a window of the stack for the arguments, and the callee
lives from the start of the window on. Until it returns, the slots below the window
change only by stores through the cells of captured slots, however deep calls nest,
however often functions are called in place of others, and whatever natives call.
When it returns, the caller finds its frame and its stack as they were, and the
value in the slot that was to receive it.
-/

set_option autoImplicit false

namespace ScriptMachine

variable {low : Nat} {may : Nat → Value → Prop} {l : Landing} {m m' : Machine} {f : Frame}
variable {rest : List Frame}

/-- The instruction at hand leaves the current function with a value. -/
def Machine.Returns (m : Machine) (v : Value) : Prop :=
  ∃ f rest, m.frames = f :: rest ∧ (f.prototype.code[f.ip]? = none ∧ v = .null ∨
    ∃ i, f.prototype.code[f.ip]? = some i ∧ i.opcode = .ret ∧
      (isPresent i.arg0 = true ∧ m.stack[f.base + i.arg0.toInt.toNat]? = some v ∨
        isPresent i.arg0 = false ∧ v = .null))

/-- The callers go on at a landing, which has received a value. -/
structure Landed (low : Nat) (may : Nat → Value → Prop) (l : Landing) (v : Value) (m : Machine) :
    Prop where
  frames : m.frames = l.below
  height : m.stack.size = l.height
  target : ∀ t, l.target = some t → m.stack[t]? = some v
  others : ∀ j < low, l.target ≠ some j → ∀ u, m.stack[j]? = some u → may j u

/-- All that led back to a landing is gone. -/
structure Gone (low : Nat) (may : Nat → Value → Prop) (l : Landing) (m : Machine) : Prop where
  frames : m.frames = l.below
  height : m.stack.size = l.height
  guarded : m.Guarded low may

/-- How an instruction ends that may return a value to a landing. -/
def Lands (low : Nat) (may : Nat → Value → Prop) (l : Landing) (gives : Value → Prop) :
    EStateM.Result Fault Machine Flow → Prop
  | .ok .next m' => Kept low may l m' ∨ l.root = false ∧ ∃ v, gives v ∧ Landed low may l v m'
  | .ok (.finished _) m' => l.root = true ∧ Gone low may l m'
  | .error (.script _) m' => (l.root = true → Kept low may l m') ∧ m'.Guarded low may
  | .error _ m' => m'.Guarded low may

namespace Exec

open Regime

variable {call : Caller}

/-! ## Leaving a function -/

/-- What comes after a frame is left. -/
def deliver (f : Frame) (v : Value) : Exec Flow :=
  if f.root then do
    release (.closure f.closure)
    return .finished v
  else
    match f.target with
    | none => do
      release (.closure f.closure)
      release v
      return .next
    | some t => do
      if ← writeSlot t v then
        release (.closure f.closure)
        return .next
      else
        release (.closure f.closure)
        release v
        malformed "return target out of range"

theorem returnFromFrame_eq (hf : m.frames = f :: rest) (v : Value) :
    returnFromFrame v m = deliver f v (m.left f rest) := by
  unfold returnFromFrame
  rw [bind_ok m (show (get : Exec Machine) m = .ok m m from rfl), hf]
  simp only
  rw [bind_ok m (leaveFrame_eq f rest m)]
  rfl

theorem deliver_root (hroot : f.root = true) (v : Value) :
    deliver f v m = .ok (.finished v) (m.withHeap (m.heap.release (.closure f.closure))) := by
  unfold deliver
  rw [if_pos hroot, bind_ok _ (release_eq _ _)]
  rfl

theorem deliver_nowhere (hroot : f.root = false) (ht : f.target = none) (v : Value) :
    deliver f v m = .ok .next (m.withHeap ((m.heap.release (.closure f.closure)).release v)) := by
  unfold deliver
  rw [if_neg (by simp [hroot]), ht]
  simp only
  rw [bind_ok _ (release_eq _ _), bind_ok _ (release_eq _ _)]
  rfl

theorem deliver_slot {t : Nat} {old : Value} (hroot : f.root = false) (ht : f.target = some t)
    (hslot : m.stack[t]? = some old) (v : Value) : ∃ h, deliver f v m =
      .ok .next ({ m with stack := m.stack.setIfInBounds t v }.withHeap h) := by
  unfold deliver
  rw [if_neg (by simp [hroot]), ht]
  simp only
  rw [bind_ok _ (writeSlot_found v hslot), if_pos rfl, bind_ok _ (release_eq _ _)]
  exact ⟨_, rfl⟩

theorem deliver_missing {t : Nat} (hroot : f.root = false) (ht : f.target = some t)
    (hslot : m.stack[t]? = none) (v : Value) : ∃ h, deliver f v m =
      .error (.script ⟨.compile, "return target out of range", []⟩) (m.withHeap h) := by
  unfold deliver
  rw [if_neg (by simp [hroot]), ht]
  simp only
  rw [bind_ok _ (writeSlot_missing v hslot), if_neg Bool.false_ne_true, bind_ok _ (release_eq _ _),
    bind_ok _ (release_eq _ _)]
  exact ⟨_, rfl⟩

/-- What returning from a frame does: a frame that was entered from outside gives its
value out, others put it where it is expected. -/
theorem returnFromFrame_cases (hf : m.frames = f :: rest) (v : Value) :
    ∃ m', m'.frames = rest ∧
      (f.root = true ∧ returnFromFrame v m = .ok (.finished v) m' ∧
          m'.stack = m.stack.shrink f.prevTop ∨
        f.root = false ∧ f.target = none ∧ returnFromFrame v m = .ok .next m' ∧
          m'.stack = m.stack.shrink f.prevTop ∨
        f.root = false ∧ (∃ t, f.target = some t ∧ t < (m.stack.shrink f.prevTop).size ∧
          m'.stack = (m.stack.shrink f.prevTop).setIfInBounds t v) ∧
          returnFromFrame v m = .ok .next m' ∨
        f.root = false ∧ (∃ e, returnFromFrame v m = .error (.script e) m') ∧
          m'.stack = m.stack.shrink f.prevTop) := by
  rw [returnFromFrame_eq hf v]
  rcases Bool.eq_false_or_eq_true f.root with hroot | hroot
  · exact ⟨_, rfl, .inl ⟨hroot, deliver_root hroot v, rfl⟩⟩
  cases ht : f.target with
  | none => exact ⟨_, rfl, .inr (.inl ⟨hroot, rfl, deliver_nowhere hroot ht v, rfl⟩)⟩
  | some t =>
    cases hslot : (m.left f rest).stack[t]? with
    | none =>
      obtain ⟨h, heq⟩ := deliver_missing hroot ht hslot v
      exact ⟨_, rfl, .inr (.inr (.inr ⟨hroot, ⟨_, heq⟩, rfl⟩))⟩
    | some old =>
      obtain ⟨h, heq⟩ := deliver_slot hroot ht hslot v
      have hlt := (Array.getElem?_eq_some_iff.1 hslot).1
      exact ⟨_, rfl, .inr (.inr (.inl ⟨hroot, ⟨t, rfl, hlt, rfl⟩, heq⟩))⟩

theorem returnFromFrame_lands (hk : Kept low may l m) (v : Value) :
    Lands low may l (fun w => w = v) (returnFromFrame v m) := by
  obtain ⟨hstacked, hlow, hheight, hguard⟩ := hk
  cases hf : m.frames with
  | nil =>
    rw [hf] at hstacked
    cases hstacked
  | cons f rest =>
    rw [hf] at hstacked
    have hprev := hstacked.height_le
    have hsame : ∀ j < low, (m.stack.shrink f.prevTop)[j]? = m.stack[j]? := fun j hj =>
      shrink_getElem? (by omega)
    have hsize : (m.stack.shrink f.prevTop).size = min f.prevTop m.stack.size := by simp
    have hguarded : ∀ m' : Machine, m'.stack = m.stack.shrink f.prevTop → m'.Guarded low may :=
      fun m' hs => hguard.of_same fun j hj => by rw [hs, hsame j hj]
    obtain ⟨m', hframes, h⟩ := returnFromFrame_cases hf v
    cases hstacked with
    | called hbase hprev' htarget hroot hrest =>
      have hkept : l.height ≤ m'.stack.size → m'.Guarded low may → Kept low may l m' :=
        fun hle hg => ⟨hframes ▸ hrest, hlow, hle, hg⟩
      rcases h with ⟨hr, -⟩ | ⟨-, -, heq, hs⟩ | ⟨-, ⟨t, ht, hlt, hs⟩, heq⟩ | ⟨-, ⟨e, heq⟩, hs⟩
      · exact absurd (hroot.symm.trans hr) Bool.false_ne_true
      · rw [heq]
        exact .inl (hkept (by rw [hs]; omega) (hguarded m' hs))
      · rw [heq]
        refine .inl (hkept (by rw [hs, Array.size_setIfInBounds]; omega) ?_)
        have hg := (hguarded { m with stack := m.stack.shrink f.prevTop } rfl).write v
          (.inl (htarget t ht))
        exact hg.of_same fun j _ => by rw [hs]
      · rw [heq]
        exact ⟨fun _ => hkept (by rw [hs]; omega) (hguarded m' hs), hguarded m' hs⟩
    | entry hbase hprev' htarget hroot =>
      have hheight' : (m.stack.shrink f.prevTop).size = l.height := by omega
      rcases h with ⟨hr, heq, hs⟩ | ⟨hr, ht, heq, hs⟩ | ⟨hr, ⟨t, ht, hlt, hs⟩, heq⟩ |
        ⟨hr, ⟨e, heq⟩, hs⟩
      · rw [heq]
        exact ⟨hroot.symm.trans hr, hframes, by rw [hs, hheight'], hguarded m' hs⟩
      · rw [heq]
        refine .inr ⟨hroot.symm.trans hr, v, rfl, hframes, by rw [hs, hheight'], fun t ht' => ?_,
          fun j hj _ => hguarded m' hs j hj⟩
        rw [← htarget, ht] at ht'
        cases ht'
      · rw [heq]
        refine .inr ⟨hroot.symm.trans hr, v, rfl, hframes, ?_, fun t' ht' => ?_,
          fun j hj hne u hu => ?_⟩
        · rw [hs, Array.size_setIfInBounds, hheight']
        · rw [← htarget, ht] at ht'
          cases ht'
          rw [hs, Array.getElem?_setIfInBounds_self, if_pos hlt]
        · rw [← htarget, ht] at hne
          rw [hs, Array.getElem?_setIfInBounds_ne (fun h => hne (congrArg some h))] at hu
          exact hguarded { m with stack := m.stack.shrink f.prevTop } rfl j hj u hu
      · rw [heq]
        refine ⟨fun h => ?_, hguarded m' hs⟩
        rw [← hroot, hr] at h
        cases h

/-! ## One instruction -/

theorem Lands.of_kept {α : Type} {act : Exec α} {gives : Value → Prop} {k : α → Exec Flow}
    (hact : (upholding low may l).AllowsAt act m) (hk : Kept low may l m)
    (hf : ∀ a m', act m = .ok a m' → Kept low may l m' → Lands low may l gives (k a m')) :
    Lands low may l gives ((act >>= k) m) := by
  unfold AllowsAt Leads at hact
  cases h : act m with
  | ok a m1 =>
    rw [h] at hact
    rw [bind_ok m h]
    exact hf a m1 h (hact hk)
  | error e m1 =>
    rw [h] at hact
    rw [bind_error m h]
    cases e with
    | script e => exact ⟨fun _ => hact hk, (hact hk).guarded⟩
    | outsideStack | outOfSteps => exact hact hk

theorem Lands.imp {gives gives' : Value → Prop} {r : EStateM.Result Fault Machine Flow}
    (h : Lands low may l gives r) (himp : ∀ v, gives v → gives' v) : Lands low may l gives' r := by
  cases r with
  | ok flow m1 =>
    cases flow with
    | next => exact h.imp id fun ⟨hr, v, hv, hl⟩ => ⟨hr, v, himp v hv, hl⟩
    | finished v => exact h
  | error e m1 => cases e <;> exact h

/-- What a return instruction hands back is read from a register. -/
theorem returnedValue_found (base : Nat) (r : Int64) :
    (∃ v, returnedValue base r m = .ok v (m.withHeap (m.heap.retain v)) ∧
      (isPresent r = true ∧ m.stack[base + r.toInt.toNat]? = some v ∨
        isPresent r = false ∧ v = .null)) ∨
      ∃ e, returnedValue base r m = .error (.script e) m := by
  unfold returnedValue
  cases hp : isPresent r with
  | false => exact .inl ⟨.null, rfl, .inr ⟨rfl, rfl⟩⟩
  | true =>
    rw [if_pos rfl]
    rcases register_found (m := m) base r with ⟨v, hreg, -, hv⟩ | ⟨e, he, -⟩
    · refine .inl ⟨v, ?_, .inl ⟨rfl, hv⟩⟩
      unfold sharing
      rw [bind_ok m hreg, bind_ok m (retain_eq m v)]
      rfl
    · exact .inr ⟨e, bind_error m he⟩

/-- An instruction of what stands upon a landing ends upon it, or returns to it. -/
theorem step_lands (hc : (guarding low may).AllowsCalls call) (hk : Kept low may l m)
    (hst : ∀ slot v, m.Stores slot v → may slot v) :
    Lands low may l m.Returns (step call m) := by
  unfold step
  cases hint : m.interrupted with
  | true =>
    rw [bind_error m ((checkInterrupt_eq m).trans (if_pos hint))]
    exact ⟨fun _ => hk.of_same rfl hk.height fun _ _ => rfl, hk.guarded⟩
  | false =>
    rw [bind_ok m ((checkInterrupt_eq m).trans (if_neg (by simp [hint])))]
    cases hf : m.frames with
    | nil =>
      have hstacked := hk.frames
      rw [hf] at hstacked
      cases hstacked
    | cons f rest =>
      rw [bind_ok m (currentFrame_eq hf)]
      have hstacked := hk.frames
      rw [hf] at hstacked
      cases hcode : f.prototype.code[f.ip]? with
      | none =>
        exact Lands.imp (returnFromFrame_lands hk .null) fun v hv => ⟨f, rest, hf, .inl ⟨hcode, hv⟩⟩
      | some i =>
        simp only
        have hk1 := upholding_jumps m f rest (f.ip + 1) hf hk
        rw [bind_ok m (setIp_eq (f.ip + 1) hf)]
        generalize hm1 : m.withFrames ({ f with ip := f.ip + 1 } :: rest) = m1 at hk1
        have hf1 : m1.frames = { f with ip := f.ip + 1 } :: rest := by rw [← hm1]; rfl
        split
        · rename_i hret
          rcases returnedValue_found (m := m1) f.base i.arg0 with ⟨v, hvalue, hv⟩ | ⟨e, hvalue⟩
          · rw [bind_ok m1 hvalue]
            refine Lands.imp (returnFromFrame_lands (m := m1.withHeap (m1.heap.retain v))
              (hk1.of_same rfl hk1.height fun _ _ => rfl) v) ?_
            rintro w rfl
            rw [← hm1] at hv
            exact ⟨f, rest, hf, .inr ⟨i, hcode, hret, hv⟩⟩
          · rw [bind_error m1 hvalue]
            exact ⟨fun _ => hk1, hk1.guarded⟩
        · refine Lands.of_kept ?_ hk1 fun _ m2 _ hk2 => .inl hk2
          refine effect_allowed (fun callee args m => upholding_of_guarding (hc callee args m))
            (fun j hj => hstacked.base_le.trans hj) upholding_jumps (fun hop => ?_)
            (fun _ => callInstruction_upholds hc hstacked.base_le m1)
            fun _ => tailCallInstruction_upholds hc hf1 rfl
          refine setOuterInstruction_upholds hf1 hstacked.base_le fun c hcl slot v hv => ?_
          refine hst slot v ⟨hint, f, rest, c, i, hf, ?_, hcode, hop, ?_⟩
          · rw [← hm1] at hcl
            exact hcl
          · rw [← hm1] at hv
            exact hv

/-! ## Runs -/

/-- An error leaves all that was entered from outside. -/
theorem unwindFrames_gone {fs : List Frame} (hs : Stacked low l fs) (hroot : l.root = true)
    (hlow : low ≤ l.height) (hheight : l.height ≤ m.stack.size) (hg : m.Guarded low may)
    (e : ScriptError) : ∃ e' m', unwindFrames fs e m = .ok e' m' ∧ Gone low may l m' := by
  have hguard : ∀ {m : Machine} {f : Frame} {rest : List Frame}, l.height ≤ f.prevTop →
      m.Guarded low may → (m.left f rest).Guarded low may := fun hle hg =>
    hg.of_same fun j hj => shrink_getElem? (by omega)
  induction hs generalizing m e with
  | @entry f hbase hprev htarget hr =>
    refine ⟨e.leave f.traceEntry, (m.left f l.below).withHeap
      ((m.left f l.below).heap.release (.closure f.closure)), ?_, rfl, ?_, hguard hprev.ge hg⟩
    · unfold unwindFrames
      rw [bind_ok m (leaveFrame_eq f l.below m), bind_ok _ (release_eq _ _)]
      simp only [hr.trans hroot, if_true]
      rfl
    · rw [Machine.withHeap_stack, Machine.size_left]
      omega
  | @called f fs hbase hprev htarget hr hrest ih =>
    obtain ⟨e', m', heq, hgone⟩ := ih
      (m := (m.left f fs).withHeap ((m.left f fs).heap.release (.closure f.closure)))
      (by rw [Machine.withHeap_stack, Machine.size_left]; omega) (hguard hprev hg)
      (e.leave f.traceEntry)
    refine ⟨e', m', ?_, hgone⟩
    unfold unwindFrames
    rw [bind_ok m (leaveFrame_eq f fs m), bind_ok _ (release_eq _ _)]
    simp only [hr]
    exact heq

/-- Running on leaves nothing of what was entered from outside. -/
def Clears (low : Nat) (may : Nat → Value → Prop) (act : Exec Value) : Prop :=
  ∀ (l : Landing) (m : Machine), l.root = true → Kept low may l m →
    match act m with
    | .ok _ m' => Gone low may l m'
    | .error (.script _) m' => Gone low may l m'
    | .error _ m' => m'.Guarded low may

theorem executeWith_clears (hc : (guarding low may).AllowsCalls call) {again : Exec Value}
    (ha : Clears low may again) (hroot : l.root = true) (hk : Kept low may l m)
    (hst : ∀ slot v, m.Stores slot v → may slot v) :
    match executeWith call again m with
    | .ok _ m' => Gone low may l m'
    | .error (.script _) m' => Gone low may l m'
    | .error _ m' => m'.Guarded low may := by
  have h := step_lands hc hk hst
  unfold executeWith
  cases hstep : step call m with
  | ok flow m1 =>
    rw [hstep] at h
    cases flow with
    | next =>
      rcases h with hk1 | ⟨hr, -⟩
      · exact ha l m1 hroot hk1
      · exact absurd (hr.symm.trans hroot) Bool.false_ne_true
    | finished v => exact h.2
  | error fault m1 =>
    rw [hstep] at h
    cases fault with
    | script e =>
      obtain ⟨hstacked, hlow, hheight, hg⟩ := h.1 hroot
      obtain ⟨e', m2, heq, hgone⟩ := unwindFrames_gone hstacked hroot hlow hheight hg e
      have hun : (unwinding (.script e) : Exec Value) m1 = .error (.script e') m2 := by
        show (unwind e >>= fun e => fail e) m1 = _
        unfold unwind
        rw [bind_ok m1 (bind_ok m1 (show (get : Exec Machine) m1 = .ok m1 m1 from rfl) |>.trans heq)]
        rfl
      simp only
      rw [hun]
      exact hgone
    | outsideStack | outOfSteps => exact h

theorem pushed_getElem? (m : Machine) (vs : List Value) {j : Nat} (hj : j < m.stack.size) :
    (m.pushed vs).stack[j]? = m.stack[j]? := Array.getElem?_append_left hj

/-- A script function that is called from outside the instruction loop stands above
all that is there. -/
theorem enter_guards {execute : Exec Value} (he : Clears low may execute) (c : Ref)
    (args : List Value) : (guarding low may).Allows (enter c args >>= fun _ => execute) := by
  intro m
  by_cases hm : low ≤ m.stack.size ∧ m.Guarded low may
  swap
  · exact .of_free (fun _ hlow hg => absurd ⟨hlow, hg⟩ hm) fun _ _ hlow hg => absurd ⟨hlow, hg⟩ hm
  obtain ⟨hlow, hg⟩ := hm
  have henter := enter_eq c args m
  generalize hm1 : (m.pushed args).withHeap ((m.pushed args).heap.retain (.closure c)) = m1 at henter
  have hframes1 : m1.frames = m.frames := by rw [← hm1]; rfl
  have hsize1 : m1.stack.size = m.stack.size + args.length := by
    rw [← hm1, Machine.withHeap_stack, Machine.size_pushed]
  have hsame1 : ∀ j < m.stack.size, m1.stack[j]? = m.stack[j]? := fun j hj => by
    rw [← hm1]
    exact pushed_getElem? m args hj
  have hpush : (entering m.stack.size).Leads (pushFrame c m.stack.size args.length none true)
      (fun _ m' => Pushed m.stack.size none true m1 m') m1 := pushFrame_entering
  unfold Leads at hpush
  unfold AllowsAt Leads
  cases hact : pushFrame c m.stack.size args.length none true m1 with
  | ok a m2 =>
    rw [hact] at hpush
    rw [bind_ok m (henter.trans (cuttingBack_ok _ hact))]
    obtain ⟨closure, prototype, hframes⟩ := hpush.frames
    have hheight : m.stack.size ≤ m2.stack.size := le_trans (by omega) hpush.size
    have hk : Kept low may ⟨m.stack.size, none, true, m.frames⟩ m2 := by
      refine ⟨?_, hlow, hheight, hg.of_same fun j hj => ?_⟩
      · rw [hframes, hframes1]
        exact .entry hlow rfl rfl rfl
      · exact (hpush.below j (by omega) (by omega)).trans (hsame1 j (by omega))
    have hend := he _ m2 rfl hk
    cases hrun : execute m2 with
    | ok v m3 =>
      rw [hrun] at hend
      exact fun _ _ => ⟨hend.height, hend.frames, hend.guarded⟩
    | error e m3 =>
      rw [hrun] at hend
      cases e with
      | script e => exact fun _ _ => ⟨hend.height, hend.frames, hend.guarded⟩
      | outsideStack | outOfSteps => exact fun _ _ => hend
  | error e m2 =>
    rw [hact] at hpush
    rw [bind_error m (henter.trans (cuttingBack_error _ hact))]
    have hguarded : (entering m.stack.size).cut .outsideStack m1 m2 →
        (m2.cut m.stack.size).Guarded low may := fun h => hg.of_same fun j hj =>
      (shrink_getElem? (by omega)).trans ((h j (by omega) (by omega)).trans (hsame1 j (by omega)))
    cases e with
    | script e =>
      obtain ⟨hframes, hsize, hbelow⟩ := hpush
      refine fun _ _ => ⟨?_, hframes.trans hframes1, hguarded hbelow⟩
      rw [Machine.size_cut]
      omega
    | outsideStack | outOfSteps => exact fun _ _ => hguarded hpush

/-- A watch that gives the run up, and that lets nothing pass that stores through a
cell what may not be. -/
structure Vigilant (may : Nat → Value → Prop) (w : Watch) : Prop where
  gives_up : w.alarm = throw .outOfSteps
  stores : ∀ m, w.expects .fetch m → ∀ slot v, m.Stores slot v → may slot v

theorem guard_guards {w : Watch} (hw : Vigilant may w) {k : Moment} {act : Exec Value}
    (hact : (guarding low may).Allows act) : (guarding low may).Allows (w.guard k act) := by
  intro m
  unfold AllowsAt Leads Watch.guard
  by_cases h : w.expects k m
  · rw [if_pos h]
    exact hact m
  · rw [if_neg h, hw.gives_up]
    exact fun _ hg => hg

/-- However calls nest, they leave frames, height and what is below as they are. -/
theorem watched_guards {w : Watch} (hw : Vigilant may w) (steps : Nat) :
    (guarding low may).AllowsCalls (callWatched w steps) ∧
      Clears low may (executeWatched w steps) := by
  induction steps with
  | zero =>
    refine ⟨fun callee args m => ?_, fun l m _ hk => ?_⟩
    · rw [callWatched]
      exact fun _ hg => hg
    · rw [executeWatched]
      exact hk.guarded
  | succ steps ih =>
    obtain ⟨hcall, hexecute⟩ := ih
    refine ⟨fun callee args => ?_, fun l m hroot hk => ?_⟩
    · rw [callWatched]
      refine guard_guards hw fun m => ?_
      refine callWith_allowed hcall (fun r => guard_guards hw (perform_allowed hcall [] r)) ?_
      rintro c rfl
      exact enter_guards hexecute c args m
    · rw [executeWatched]
      unfold Watch.guard
      by_cases h : w.expects .fetch m
      · rw [if_pos h]
        exact executeWith_clears hcall hexecute hroot hk (hw.stores m h)
      · rw [if_neg h, hw.gives_up]
        exact hk.guarded

/-! ## The call instruction -/

/-- The slot that an optional register names. -/
def slotOf (base : Nat) (r : Int64) : Option Nat :=
  if isPresent r then some (base + r.toInt.toNat) else none

/-- Where the callee of a call instruction leads back to. -/
def landingOf (m : Machine) (f : Frame) (rest : List Frame) (i : Instruction) : Landing :=
  ⟨m.stack.size, slotOf f.base i.arg0, false, { f with ip := f.ip + 1 } :: rest⟩

theorem resultSlot_found (base : Nat) (r : Int64) : Reads anyTerms (resultSlot base r)
    (fun target => target = slotOf base r ∧ ∀ t, target = some t → 0 ≤ r ∧ t < m.stack.size) m := by
  unfold resultSlot slotOf
  split
  · refine .bind (registerSlot_reads False.elim) ?_
    rintro slot ⟨hpos, rfl⟩
    refine .bind (G := fun n => n = m.stack.size) (.inl ⟨_, rfl, rfl⟩) ?_
    rintro _ rfl
    split
    · refine .pure ⟨rfl, fun t ht => ⟨hpos, ?_⟩⟩
      cases ht
      assumption
    · exact .malformed id
  · exact .pure ⟨rfl, fun t ht => by cases ht⟩

theorem setRegister_found {base : Nat} {r : Int64} (hpos : 0 ≤ r)
    (hlt : base + r.toInt.toNat < m.stack.size) (v : Value) : ∃ h, setRegister base r v m =
      .ok () ({ m with stack := m.stack.setIfInBounds (base + r.toInt.toNat) v }.withHeap h) := by
  have hslot : registerSlot base r m = .ok (base + r.toInt.toNat) m := by
    unfold registerSlot
    rw [if_neg (Int64.not_lt.2 hpos)]
    rfl
  refine ⟨m.heap.release m.stack[base + r.toInt.toNat], ?_⟩
  unfold setRegister handing
  rw [bind_ok m hslot, bind_ok m (writeSlot_found v (Array.getElem?_eq_getElem hlt)), if_pos rfl]
  rfl

/-- The call instruction at hand calls a value that is no script function, with copies
of the arguments, and gets a value. -/
def CallsForeign (call : Caller) (m : Machine) (f : Frame) (i : Instruction) (v : Value) : Prop :=
  ∃ callee args m1 m2, m.stack[f.base + i.arg1.toInt.toNat]? = some callee ∧
    (∀ c, callee ≠ .closure c) ∧ args.length = i.arg3.toInt.toNat ∧ m1.stack = m.stack ∧
      call callee args m1 = .ok v m2

section

variable {i : Instruction}

/-- A callee that is no script function comes back at once. -/
theorem callForeign_leads (hc : (guarding low may).AllowsCalls call) {callee : Value}
    {start count : Nat} {target : Option Nat} (hf : m.frames = l.below)
    (hsize : m.stack.size = l.height) (hl : l.target = slotOf f.base i.arg0)
    (htarget : target = l.target ∧ ∀ t, target = some t → 0 ≤ i.arg0 ∧ t < m.stack.size)
    (hcallee : m.stack[f.base + i.arg1.toInt.toNat]? = some callee)
    (hother : ∀ c, callee ≠ .closure c) (hlow : low ≤ start) (hg : m.Guarded low may)
    (hcount : count = i.arg3.toInt.toNat) :
    (guarding low may).Leads (callForeign call f.base i callee start count target)
      (fun _ m' => ∃ v, CallsForeign call m f i v ∧ Landed low may l v m') m := by
  unfold callForeign holding
  refine .next (retainAll_eq m _) (beside _ rfl rfl) (Leads.owning ?_ ?_)
  swap
  · rintro - m' h ⟨v, hv, hland⟩
    exact ⟨v, hv, hland.frames, hland.height, hland.target, hland.others⟩
  refine .reading (window_found start count) ?_
  rintro args ⟨hin, hlen⟩
  refine .next (retainAll_eq _ args) (beside _ rfl rfl) ?_
  refine (hc callee args _).leads fun v m1 hcall hrel => ?_
  obtain ⟨hsize1, hframes1, hg1⟩ := hrel (show low ≤ m.stack.size by
    rw [Machine.withHeap_stack] at hin
    omega) hg
  have hforeign : CallsForeign call m f i v := by
    refine ⟨callee, args, _, m1, hcallee, hother, hlen.trans hcount, ?_, hcall⟩
    rfl
  have hsize1' : m1.stack.size = m.stack.size := hsize1
  cases ht : target with
  | none =>
    refine .of_ok (release_eq m1 v) ⟨v, hforeign, hframes1.trans hf, hsize1'.trans hsize, ?_, ?_⟩
    · intro t h
      rw [← htarget.1, ht] at h
      cases h
    · exact fun j hj _ => hg1 j hj
  | some t =>
    have hslot : slotOf f.base i.arg0 = some t := by rw [← hl, ← htarget.1, ht]
    obtain ⟨hpos, hlt⟩ := htarget.2 t ht
    have heq : t = f.base + i.arg0.toInt.toNat := by
      unfold slotOf at hslot
      split at hslot <;> cases hslot
      rfl
    subst heq
    have hlt1 : f.base + i.arg0.toInt.toNat < m1.stack.size := hsize1'.symm ▸ hlt
    obtain ⟨h, hset⟩ := setRegister_found (m := m1) hpos hlt1 v
    refine .of_ok hset ⟨v, hforeign, hframes1.trans hf, ?_, fun t' ht' => ?_, fun j hj hne u hu => ?_⟩
    · exact Array.size_setIfInBounds.trans (hsize1'.trans hsize)
    · rw [hl, hslot] at ht'
      cases ht'
      exact (Array.getElem?_setIfInBounds_self ..).trans (if_pos hlt1)
    · rw [hl, hslot] at hne
      refine hg1 j hj u ?_
      rw [← hu]
      exact (Array.getElem?_setIfInBounds_ne fun h => hne (congrArg some h)).symm

/-- After a call instruction the callee is on top, or it has come back. -/
theorem callInstruction_leads (hc : (guarding low may).AllowsCalls call)
    (hf : m.frames = l.below) (hsize : m.stack.size = l.height)
    (hl : l.target = slotOf f.base i.arg0) (hroot : l.root = false)
    (hlow : low = f.base + i.arg2.toInt.toNat) (hle : low ≤ m.stack.size)
    (hg : m.Guarded low may) :
    (sparing low may).Leads (callInstruction call f.base i) (fun _ m' =>
      Kept low may l m' ∨ ∃ v, CallsForeign call m f i v ∧ Landed low may l v m') m := by
  refine .reading (register_found f.base i.arg1) ?_
  rintro callee ⟨-, hcallee⟩
  refine .reading (t := anyTerms) (registerSlot_reads False.elim) ?_
  rintro start ⟨-, rfl⟩
  refine .reading (t := anyTerms) (indexArg_reads False.elim) ?_
  rintro count ⟨-, rfl⟩
  refine .reading (resultSlot_found f.base i.arg0) ?_
  rintro target ⟨htarget, hin⟩
  split
  · rename_i c
    refine .next (show stackSize m = .ok m.stack.size m from rfl) (refl _ m) ?_
    split
    swap
    · exact Leads.of_fail rfl (refl _ m)
    refine .next (retain_eq m _) (beside _ rfl rfl) ?_
    have hkeep : ∀ m1 m2 : Machine, m1.stack = m.stack →
        (entering (f.base + i.arg2.toInt.toNat)).cut .outsideStack m1 m2 → m2.Guarded low may :=
      fun m1 m2 hs h => hg.of_same fun j hj => by
        rw [← hs]
        exact h j (by omega) (by rw [hs]; omega)
    refine Leads.weaken pushFrame_entering (fun _ m1 hp => .inl ?_)
      (fun m1 h hle' _ => ⟨hle'.trans h.2.1, hkeep _ m1 rfl h.2.2⟩) fun _ m1 h _ _ => hkeep _ m1 rfl h
    · obtain ⟨closure, prototype, hframes⟩ := hp.frames
      refine ⟨?_, hsize ▸ hle, hsize ▸ hp.size, hkeep _ m1 rfl hp.below⟩
      have hbelow : (m.withHeap (m.heap.retain (.closure c))).frames = l.below := hf
      rw [hframes, hbelow]
      exact .entry (Nat.le_of_eq hlow) hsize (htarget.trans hl.symm) hroot.symm
  · rename_i hother
    refine Leads.weaken (callForeign_leads hc hf hsize hl ⟨htarget.trans hl.symm, hin⟩ hcallee hother
      (Nat.le_of_eq hlow) hg rfl) (fun _ _ => .inr) (fun m' h hle hg => ?_) fun _ _ h => h
    obtain ⟨hsize', -, hg'⟩ := h hle hg
    exact ⟨hsize'.symm ▸ hle, hg'⟩

/-- A window that lies higher than the stack is refused, and nothing changes. -/
theorem callInstruction_outside (hlow : m.stack.size < f.base + i.arg2.toInt.toNat) :
    still.Leads (callInstruction call f.base i) (fun _ _ => False) m := by
  refine .reading (register_found f.base i.arg1) fun callee _ => ?_
  refine .reading (t := anyTerms) (registerSlot_reads False.elim) ?_
  rintro start ⟨-, rfl⟩
  refine .reading (t := anyTerms) (indexArg_reads False.elim) fun count _ => ?_
  refine .reading (resultSlot_found f.base i.arg0) fun target _ => ?_
  split
  · refine .next (show stackSize m = .ok m.stack.size m from rfl) (refl _ m) ?_
    rw [if_neg (by omega)]
    exact Leads.of_fail rfl (refl _ m)
  · unfold callForeign holding
    refine .next (retainAll_eq m _) (beside _ rfl rfl) (Leads.owning ?_ fun _ _ _ h => h)
    refine .reading (window_found _ count) ?_
    rintro args ⟨hin, -⟩
    rw [Machine.withHeap_stack] at hin
    omega

end

/-- The instruction at hand is a call of a function with the given window. -/
structure Machine.CallsAt (m : Machine) (f : Frame) (rest : List Frame) (i : Instruction)
    (low : Nat) : Prop where
  frames : m.frames = f :: rest
  code : f.prototype.code[f.ip]? = some i
  opcode : i.opcode = .call
  window : low = f.base + i.arg2.toInt.toNat

/-- How a call instruction ends. -/
theorem step_calls {i : Instruction} (hc : (guarding low may).AllowsCalls call)
    (hm : Machine.CallsAt m f rest i low) (hg : m.Guarded low may) :
    match step call m with
    | .ok .next m' => Kept low may (landingOf m f rest i) m' ∨
        ∃ v, CallsForeign call m f i v ∧ Landed low may (landingOf m f rest i) v m'
    | .ok (.finished _) _ => False
    | .error _ m' => m'.Guarded low may := by
  unfold step
  cases hint : m.interrupted with
  | true =>
    rw [bind_error m ((checkInterrupt_eq m).trans (if_pos hint))]
    exact hg
  | false =>
    rw [bind_ok m ((checkInterrupt_eq m).trans (if_neg (by simp [hint]))),
      bind_ok m (currentFrame_eq hm.frames), hm.code]
    simp only
    rw [bind_ok m (setIp_eq (f.ip + 1) hm.frames), if_neg (by rw [hm.opcode]; decide)]
    have heffect : effect call f.base i = callInstruction call f.base i := by
      unfold effect
      rw [hm.opcode]
    rw [heffect]
    generalize hm1 : m.withFrames ({ f with ip := f.ip + 1 } :: rest) = m1
    have hstack : m1.stack = m.stack := by rw [← hm1]; rfl
    have hg1 : m1.Guarded low may := hg.of_same fun _ _ => by rw [hstack]
    by_cases hle : low ≤ m.stack.size
    · have h := callInstruction_leads (l := landingOf m f rest i) (m := m1) (f := f) (i := i) hc
        (by rw [← hm1]; rfl) (by rw [hstack]; rfl) rfl rfl hm.window (by rw [hstack]; exact hle) hg1
      unfold Leads at h
      cases hact : callInstruction call f.base i m1 with
      | ok a m2 =>
        rw [hact] at h
        rw [bind_ok m1 hact]
        refine h.imp id fun ⟨v, hv, hland⟩ => ⟨v, ?_, hland⟩
        obtain ⟨callee, args, m3, m4, hcallee, hother, hlen, hs, hcall⟩ := hv
        rw [hstack] at hcallee hs
        exact ⟨callee, args, m3, m4, hcallee, hother, hlen, hs, hcall⟩
      | error e m2 =>
        rw [hact] at h
        rw [bind_error m1 hact]
        have hle1 : low ≤ m1.stack.size := by rw [hstack]; exact hle
        cases e with
        | script e => exact (h hle1 hg1).2
        | outsideStack | outOfSteps => exact h hle1 hg1
    · have h : still.Leads (callInstruction call f.base i) (fun _ _ => False) m1 :=
        callInstruction_outside (by rw [hstack, ← hm.window]; omega)
      unfold Leads at h
      cases hact : callInstruction call f.base i m1 with
      | ok a m2 =>
        rw [hact] at h
        exact h.elim
      | error e m2 =>
        rw [hact] at h
        rw [bind_error m1 hact]
        cases e <;> exact hg1.of_same fun _ _ => by rw [show m2.stack = m1.stack from h]

/-! ## From the call to the return -/

/-- The call has not returned. -/
def Ongoing (m : Machine) (trail : List (Nat × Machine)) (m' : Machine) : Prop :=
  trail = [] ∨ m.frames.length < m'.frames.length

/-- Instructions that follow each other from a call on until it has returned, each with
the budget of what it calls, the last one first. -/
inductive Course (m : Machine) : List (Nat × Machine) → Machine → Prop
  | start : Course m [] m
  | next {trail : List (Nat × Machine)} {m1 m2 : Machine} {n : Nat} : Course m trail m1 →
      Ongoing m trail m1 → step (callValue n) m1 = .ok .next m2 → Course m ((n, m1) :: trail) m2

/-- A run follows the course that its budgets name. -/
theorem Course.execute {m m' : Machine} {trail : List (Nat × Machine)} (hcourse : Course m trail m')
    (n : Nat) (hbudgets : trail.map Prod.fst = List.range' n trail.length) :
    execute (n + trail.length) m = execute n m' := by
  induction hcourse generalizing n with
  | start => rfl
  | @next trail m1 m2 k hcourse hongoing hstep ih =>
    rw [List.map_cons, List.length_cons, List.range'_succ] at hbudgets
    obtain ⟨rfl, hrest⟩ := List.cons_eq_cons.1 hbudgets
    have hrun := ih (k + 1) hrest
    rw [List.length_cons, show k + (trail.length + 1) = k + 1 + trail.length by omega, hrun]
    show executeWith (callValue k) (Exec.execute k) m1 = _
    unfold executeWith
    rw [hstep]

/-- Within what the instruction at hand calls, the value is stored through the cell of
the slot. -/
def StoresWithin (n : Nat) (m : Machine) (slot : Nat) (v : Value) : Prop :=
  ¬ ∀ alarm : Exec Value, step (callWatched
    ⟨fun k m1 => ¬ (k = .fetch ∧ m1.Stores slot v), alarm⟩ n) m = step (callValue n) m

/-- On the way the value has been stored through the cell of the slot. -/
def StoredOn (trail : List (Nat × Machine)) (slot : Nat) (v : Value) : Prop :=
  ∃ n m, (n, m) ∈ trail ∧ (m.Stores slot v ∨ StoresWithin n m slot v)

/-- An instruction on the way brings a value back: the callee returns it, or the callee
was no script function and has given it. -/
def Brings (call : Caller) (trail : List (Nat × Machine)) (m : Machine) (f : Frame)
    (i : Instruction) (v : Value) : Prop :=
  trail ≠ [] ∧ m.Returns v ∨ trail = [] ∧ CallsForeign call m f i v

/-- All stores on the way are such as may be. -/
def Minded (may : Nat → Value → Prop) (trail : List (Nat × Machine)) : Prop :=
  ∀ n m, (n, m) ∈ trail → (∀ slot v, m.Stores slot v → may slot v) ∧
    ∃ w, Vigilant may w ∧ step (callWatched w n) m = step (callValue n) m

/-- Anything may be in any slot, but for one value in one slot. -/
def allBut (slot : Nat) (v : Value) : Nat → Value → Prop := fun j u => ¬ (j = slot ∧ u = v)

variable {i : Instruction} {trail : List (Nat × Machine)} {slot : Nat} {v : Value}

theorem guarded_allBut (h : m.stack[slot]? ≠ some v) : m.Guarded low (allBut slot v) := by
  rintro j - u hu ⟨rfl, rfl⟩
  exact h hu

theorem minded_allBut (h : ¬ StoredOn trail slot v) : Minded (allBut slot v) trail := by
  intro n m hmem
  refine ⟨?_, ⟨fun k m1 => ¬ (k = .fetch ∧ m1.Stores slot v), throw .outOfSteps⟩, ⟨rfl, ?_⟩, ?_⟩
  · rintro j u hs ⟨rfl, rfl⟩
    exact h ⟨n, m, hmem, .inl hs⟩
  · rintro m1 hquiet j u hs ⟨rfl, rfl⟩
    exact hquiet ⟨rfl, hs⟩
  · by_contra hne
    exact h ⟨n, m, hmem, .inr fun hall => hne (hall _)⟩

/-- When anything may be anywhere, nothing need be minded. -/
theorem minded_any (trail : List (Nat × Machine)) : Minded (fun _ _ => True) trail :=
  fun n m _ => ⟨fun _ _ _ => trivial, .idle (throw .outOfSteps), ⟨rfl, fun _ _ _ _ _ => trivial⟩,
    by rw [(watched_idle _ n).1]⟩

/-- How an instruction on the way ends. -/
theorem step_onward {m1 : Machine} (hm : Machine.CallsAt m f rest i low) (hg : m.Guarded low may)
    (hc : (guarding low may).AllowsCalls call) (hst : ∀ slot v, m1.Stores slot v → may slot v)
    (hstart : trail = [] → m1 = m)
    (hk : trail ≠ [] → Kept low may (landingOf m f rest i) m1) :
    match step call m1 with
    | .ok .next m2 => Kept low may (landingOf m f rest i) m2 ∨
        ∃ v, Brings call trail m1 f i v ∧ Landed low may (landingOf m f rest i) v m2
    | .ok (.finished _) _ => False
    | .error _ m2 => m2.Guarded low may := by
  by_cases ht : trail = []
  · cases hstart ht
    have h := step_calls hc hm hg
    cases hstep : step call m with
    | ok flow m2 =>
      rw [hstep] at h
      cases flow with
      | next => exact h.imp id fun ⟨v, hv, hl⟩ => ⟨v, .inr ⟨ht, hv⟩, hl⟩
      | finished v => exact h
    | error e m2 =>
      rw [hstep] at h
      exact h
  · have h := step_lands hc (hk ht) hst
    cases hstep : step call m1 with
    | ok flow m2 =>
      rw [hstep] at h
      cases flow with
      | next => exact h.imp id fun ⟨_, v, hv, hl⟩ => ⟨v, .inl ⟨ht, hv⟩, hl⟩
      | finished v => exact Bool.false_ne_true h.1
    | error e m2 =>
      rw [hstep] at h
      cases e with
      | script e => exact h.2
      | outsideStack | outOfSteps => exact h

theorem length_landing (hm : Machine.CallsAt m f rest i low) :
    (landingOf m f rest i).below.length = m.frames.length := by
  rw [hm.frames]
  rfl

/-- The callee is on top until it has returned. -/
theorem Course.kept (hcourse : Course m trail m') (hm : Machine.CallsAt m f rest i low)
    (hg : m.Guarded low may) (hminded : Minded may trail) (hne : trail ≠ [])
    (hdeep : m.frames.length < m'.frames.length) : Kept low may (landingOf m f rest i) m' := by
  induction hcourse with
  | start => exact absurd rfl hne
  | @next trail m1 m2 n hcourse hongoing hstep ih =>
    obtain ⟨hstores, w, hw, heq⟩ := hminded n m1 List.mem_cons_self
    have h := step_onward hm hg (watched_guards hw n).1 hstores
      (fun (ht : trail = []) => by subst ht; cases hcourse; rfl)
      fun ht => ih (fun n m hmem => hminded n m (List.mem_cons_of_mem _ hmem)) ht
        (hongoing.resolve_left ht)
    rw [heq, hstep] at h
    rcases h with hk | ⟨v, -, hland⟩
    · exact hk
    · rw [hland.frames, length_landing hm] at hdeep
      exact absurd hdeep (Nat.lt_irrefl _)

/-- How an instruction after a course ends. -/
theorem Course.onward (hcourse : Course m trail m') (hm : Machine.CallsAt m f rest i low)
    (hg : m.Guarded low may) (hminded : Minded may trail) (hongoing : Ongoing m trail m')
    (hc : (guarding low may).AllowsCalls call) (hst : ∀ slot v, m'.Stores slot v → may slot v) :
    match step call m' with
    | .ok .next m2 => Kept low may (landingOf m f rest i) m2 ∨
        ∃ v, Brings call trail m' f i v ∧ Landed low may (landingOf m f rest i) v m2
    | .ok (.finished _) _ => False
    | .error _ m2 => m2.Guarded low may :=
  step_onward hm hg hc hst (fun (ht : trail = []) => by subst ht; cases hcourse; rfl)
    fun ht => hcourse.kept hm hg hminded ht (hongoing.resolve_left ht)

/-- The callee has returned. -/
theorem Course.landed {n : Nat} {m1 : Machine} (hcourse : Course m ((n, m1) :: trail) m')
    (hm : Machine.CallsAt m f rest i low) (hg : m.Guarded low may)
    (hminded : Minded may ((n, m1) :: trail)) (hover : ¬ Ongoing m ((n, m1) :: trail) m') :
    ∃ v, Landed low may (landingOf m f rest i) v m' := by
  cases hcourse with
  | next hcourse hongoing hstep =>
    obtain ⟨hstores, w, hw, heq⟩ := hminded n m1 List.mem_cons_self
    have h := hcourse.onward hm hg (fun n m hmem => hminded n m (List.mem_cons_of_mem _ hmem))
      hongoing (watched_guards hw n).1 hstores
    rw [heq, hstep] at h
    rcases h with hk | ⟨v, -, hland⟩
    · exact absurd (.inr (length_landing hm ▸ hk.frames.length_lt)) hover
    · exact ⟨v, hland⟩

/-- The caller goes on after the call, with its frame and its stack as they were. -/
structure Resumed (m : Machine) (f : Frame) (rest : List Frame) (i : Instruction) (low : Nat)
    (trail : List (Nat × Machine)) (m' : Machine) : Prop where
  frames : m'.frames = { f with ip := f.ip + 1 } :: rest
  height : m'.stack.size = m.stack.size
  /-- Below the window only the slot for the value has changed, but for stores. -/
  below : ∀ j < low, slotOf f.base i.arg0 ≠ some j → ∀ v, m'.stack[j]? = some v →
    m.stack[j]? = some v ∨ StoredOn trail j v
  /-- The slot for the value has received what the callee returned. -/
  target : ∃ n m1 earlier v, trail = (n, m1) :: earlier ∧ Brings (callValue n) earlier m1 f i v ∧
    ∀ t, slotOf f.base i.arg0 = some t → m'.stack[t]? = some v

/-- Until a call has returned, no slot below its window changes but by stores through
cells, also within what an instruction calls, whenever that is given up. And when it
has returned, the caller goes on with the value. -/
theorem caller_isolated (hm : Machine.CallsAt m f rest i low) (hcourse : Course m trail m') :
    (Ongoing m trail m' → m.stack.size ≤ m'.stack.size ∧
      (∀ j < low, ∀ v, m'.stack[j]? = some v → m.stack[j]? = some v ∨ StoredOn trail j v) ∧
      ∀ (n : Nat) (w : Watch) (e : Fault) (m1 : Machine), w.alarm = throw .outOfSteps →
        step (callWatched w n) m' = .error e m1 → ∀ j < low, ∀ v,
          (∀ m2, w.expects .fetch m2 → ¬ m2.Stores j v) → ¬ m'.Stores j v →
            m1.stack[j]? = some v → m.stack[j]? = some v ∨ StoredOn trail j v) ∧
    (¬ Ongoing m trail m' → Resumed m f rest i low trail m') := by
  have hany : ∀ m : Machine, m.Guarded low fun _ _ => True := fun _ _ _ _ _ => trivial
  refine ⟨fun hongoing => ⟨?_, fun j hj v hv => ?_, ?_⟩, fun hover => ?_⟩
  · by_cases ht : trail = []
    · subst ht
      cases hcourse
      exact Nat.le_refl _
    · exact (hcourse.kept hm (hany m) (minded_any trail) ht (hongoing.resolve_left ht)).height
  · by_contra hnot
    obtain ⟨hold, hnever⟩ := not_or.1 hnot
    have ht : trail ≠ [] := by
      rintro rfl
      cases hcourse
      exact hold hv
    have hk := hcourse.kept hm (guarded_allBut hold) (minded_allBut hnever) ht
      (hongoing.resolve_left ht)
    exact hk.guarded j hj v hv ⟨rfl, rfl⟩
  · intro n w e m1 halarm hstep j hj v hstops hquiet hv
    by_contra hnot
    obtain ⟨hold, hnever⟩ := not_or.1 hnot
    have hw : Vigilant (allBut j v) w := ⟨halarm, by
      rintro m2 hexp j' u hs ⟨rfl, rfl⟩
      exact hstops m2 hexp hs⟩
    have h := hcourse.onward hm (guarded_allBut hold) (minded_allBut hnever) hongoing
      (watched_guards hw n).1 (by
        rintro j' u hs ⟨rfl, rfl⟩
        exact hquiet hs)
    rw [hstep] at h
    exact h j hj v hv ⟨rfl, rfl⟩
  · cases hcourse with
    | start => exact absurd (.inl rfl) hover
    | @next earlier m1 _ n hcourse hongoing hstep =>
      have hc : (guarding low fun _ _ => True).AllowsCalls (callValue n) := by
        have hw : Vigilant (fun _ _ => True) (.idle (throw .outOfSteps)) :=
          ⟨rfl, fun _ _ _ _ _ => trivial⟩
        rw [← (watched_idle (throw .outOfSteps) n).1]
        exact (watched_guards hw n).1
      have h := hcourse.onward hm (hany m) (minded_any earlier) hongoing hc fun _ _ _ => trivial
      rw [hstep] at h
      rcases h with hk | ⟨v, hbrings, hland⟩
      · exact absurd (.inr (length_landing hm ▸ hk.frames.length_lt)) hover
      refine ⟨hland.frames, hland.height, fun j hj hne u hu => ?_,
        n, m1, earlier, v, rfl, hbrings, hland.target⟩
      by_contra hnot
      obtain ⟨hold, hnever⟩ := not_or.1 hnot
      obtain ⟨_, hland'⟩ := (Course.next hcourse hongoing hstep).landed hm (guarded_allBut hold)
        (minded_allBut hnever) hover
      exact hland'.others j hj hne u hu ⟨rfl, rfl⟩

/-! ## Such a call -/

def five : Prototype where
  name := "five"
  stackSize := 2
  code := #[{ opcode := .loadInteger, arg0 := 1, arg1 := 5 }, { opcode := .ret, arg0 := 1 }]

/-- Calls it with a window from register 3 on; the value goes to the receiver's register. -/
def callingFive : Prototype where
  name := "main"
  stackSize := 4
  functions := [five]
  code := #[{ opcode := .loadInteger, arg0 := 1, arg1 := 7 }, { opcode := .closure, arg0 := 2 },
    { opcode := .call, arg1 := 2, arg2 := 3, arg3 := 1 }, { opcode := .ret }]

/-- The machine after an instruction that goes on. -/
def advanced (m : Machine) : Machine :=
  match step (callValue 9) m with
  | .ok .next m' => m'
  | _ => m

def goesOn (m : Machine) : Bool :=
  match step (callValue 9) m with
  | .ok .next _ => true
  | _ => false

theorem step_advanced (h : goesOn m = true) : step (callValue 9) m = .ok .next (advanced m) := by
  unfold goesOn at h
  unfold advanced
  split at h
  · rename_i heq
    rw [heq]
  · cases h

def callsAt (m : Machine) (low : Nat) : Bool :=
  match m.frames with
  | f :: _ =>
    match f.prototype.code[f.ip]? with
    | some i => i.opcode == .call && low == f.base + i.arg2.toInt.toNat
    | none => false
  | [] => false

theorem callsAt_sound (h : callsAt m low = true) : ∃ f rest i, Machine.CallsAt m f rest i low := by
  unfold callsAt at h
  split at h
  · rename_i f rest hf
    split at h
    · rename_i i hi
      obtain ⟨hop, hlow⟩ := Bool.and_eq_true_iff.1 h
      exact ⟨f, rest, i, hf, hi, eq_of_beq hop, eq_of_beq hlow⟩
    · cases h
  · cases h

/-- A machine that has entered the caller from outside. -/
def calling : Machine :=
  let (c, h) := (Machine.create {}).heap.newClosure callingFive [] []
  match enter c [.null] ((Machine.create {}).withHeap h) with
  | .ok _ m => m
  | .error _ m => m

/-- It is at the call. -/
def atCall : Machine := advanced (advanced calling)

/-- The receiver's register has received the five, and the other registers below the
window are as they were. -/
theorem caller_isolated_callingFive : ∃ f rest i trail, Machine.CallsAt atCall f rest i 3 ∧
    Course atCall trail (advanced (advanced (advanced atCall))) ∧
    ¬ Ongoing atCall trail (advanced (advanced (advanced atCall))) ∧
    Resumed atCall f rest i 3 trail (advanced (advanced (advanced atCall))) := by
  obtain ⟨f, rest, i, hm⟩ := callsAt_sound (show callsAt atCall 3 = true by decide +kernel)
  have h1 : Course atCall [(9, atCall)] (advanced atCall) :=
    .next .start (.inl rfl) (step_advanced (by decide +kernel))
  have h2 := Course.next h1 (.inr (by decide +kernel)) (step_advanced (by decide +kernel))
  have h3 := Course.next h2 (.inr (by decide +kernel)) (step_advanced (by decide +kernel))
  have hover : ∀ n trail, ¬ Ongoing atCall (n :: trail) (advanced (advanced (advanced atCall))) := by
    rintro n trail (h | h)
    · cases h
    · exact absurd h (by decide +kernel)
  exact ⟨f, rest, i, _, hm, h3, hover _ _, (caller_isolated hm h3).2 (hover _ _)⟩

end Exec

end ScriptMachine
