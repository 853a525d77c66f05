import ScriptMachine.Proofs.Machine.Moments

/-!
# Regimes

A regime says what an action may do to the stack and to the frames, and how a run
may look where it is given up. The heap, the open cells and the rest of the machine
are no concern of it. What a regime allows is closed under composition, so most
actions are allowed by every regime that lets them write their registers.
-/

set_option autoImplicit false

namespace ScriptMachine

structure Regime where
  /-- How the machine may look after an action, be it a value or an error of the script. -/
  rel : Machine → Machine → Prop
  /-- How the machine may look after a fault that no script can catch. -/
  cut : Fault → Machine → Machine → Prop
  /-- Slots that may be written. -/
  writes : Nat → Prop
  trans {m m' m'' : Machine} : rel m m' → rel m' m'' → rel m m''
  cut_trans {e : Fault} {m m' m'' : Machine} : rel m m' → cut e m' m'' → cut e m m''
  beside {m m' : Machine} : m'.stack = m.stack → m'.frames = m.frames → rel m m'
  cut_beside {e : Fault} {m m' m'' : Machine} : cut e m m' → m''.stack = m'.stack →
    m''.frames = m'.frames → cut e m m''
  write {i : Nat} (m : Machine) (v : Value) : writes i →
    rel m { m with stack := m.stack.setIfInBounds i v }

namespace Regime

open Exec

/-- Two outcomes of a kind, with the same stack and frames. -/
inductive SameEnd {α β : Type} :
    EStateM.Result Fault Machine α → EStateM.Result Fault Machine β → Prop
  | value {a : α} {b : β} {m m' : Machine} (hstack : m'.stack = m.stack)
    (hframes : m'.frames = m.frames) : SameEnd (.ok a m) (.ok b m')
  | caught {e : ScriptError} {b : β} {m m' : Machine} (hstack : m'.stack = m.stack)
    (hframes : m'.frames = m.frames) : SameEnd (.error (.script e) m) (.ok b m')
  | raised {e e' : ScriptError} {m m' : Machine} (hstack : m'.stack = m.stack)
    (hframes : m'.frames = m.frames) : SameEnd (.error (.script e) m) (.error (.script e') m')
  | error {e : Fault} {m m' : Machine} (hstack : m'.stack = m.stack)
    (hframes : m'.frames = m.frames) : SameEnd (.error e m) (.error e m')

section

variable {α β : Type} {R : Regime} {act : Exec α} {f : α → Exec β} {vs : List Value} {v : Value}
variable {m m' : Machine}

theorem refl (R : Regime) (m : Machine) : R.rel m m := R.beside rfl rfl

/-- All slots from a base on may be written. -/
def Owns (R : Regime) (base : Nat) : Prop := ∀ i, base ≤ i → R.writes i

/-- The current function may go on elsewhere. -/
def Jumps (R : Regime) : Prop := ∀ (m : Machine) (f : Frame) (rest : List Frame) (ip : Nat),
  m.frames = f :: rest → R.rel m (m.withFrames ({ f with ip } :: rest))

/-- The action gives a value with `Q`, or ends as the regime allows. -/
def Leads (R : Regime) (act : Exec α) (Q : α → Machine → Prop) (m : Machine) : Prop :=
  match act m with
  | .ok a m' => Q a m'
  | .error (.script _) m' => R.rel m m'
  | .error e m' => R.cut e m m'

/-- From this state the action does what the regime allows. -/
def AllowsAt (R : Regime) (act : Exec α) (m : Machine) : Prop :=
  R.Leads act (fun _ m' => R.rel m m') m

/-- The action only ever does what the regime allows. -/
def Allows (R : Regime) (act : Exec α) : Prop := ∀ m : Machine, R.AllowsAt act m

def AllowsCalls (R : Regime) (call : Caller) : Prop := ∀ callee args, R.Allows (call callee args)

/-! ## Composition -/

namespace Leads

variable {Q Q' : α → Machine → Prop} {P : β → Machine → Prop}

theorem of_ok {a : α} (h : act m = .ok a m') (hq : Q a m') : R.Leads act Q m := by
  unfold Leads
  rw [h]
  exact hq

theorem of_fail {e : ScriptError} (h : act m = .error (.script e) m') (hrel : R.rel m m') :
    R.Leads act Q m := by
  unfold Leads
  rw [h]
  exact hrel

theorem mono (h : R.Leads act Q m) (hq : ∀ a m', act m = .ok a m' → Q a m' → Q' a m') :
    R.Leads act Q' m := by
  unfold Leads at h ⊢
  cases hact : act m with
  | ok a m1 =>
    rw [hact] at h
    exact hq a m1 hact h
  | error e m1 =>
    rw [hact] at h
    cases e <;> exact h

theorem of_eq {a : α} (h : R.Leads act Q m) (hok : act m = .ok a m') : Q a m' := by
  unfold Leads at h
  rw [hok] at h
  exact h

/-- Another regime may allow what one allows. -/
theorem weaken {R' : Regime} (h : R.Leads act Q m) (hq : ∀ a m', Q a m' → Q' a m')
    (hrel : ∀ m', R.rel m m' → R'.rel m m') (hcut : ∀ e m', R.cut e m m' → R'.cut e m m') :
    R'.Leads act Q' m := by
  unfold Leads at h ⊢
  cases hact : act m with
  | ok a m1 =>
    rw [hact] at h
    exact hq a m1 h
  | error e m1 =>
    rw [hact] at h
    cases e with
    | script e => exact hrel m1 h
    | outsideStack | outOfSteps => exact hcut _ m1 h

/-- What an action leads to when it starts from an allowed state. -/
theorem after (hrel : R.rel m m') (h : R.Leads act Q m') :
    match act m' with
    | .ok a m'' => Q a m''
    | .error (.script _) m'' => R.rel m m''
    | .error e m'' => R.cut e m m'' := by
  unfold Leads at h
  cases hact : act m' with
  | ok a m1 =>
    rw [hact] at h
    exact h
  | error e m1 =>
    rw [hact] at h
    cases e with
    | script e => exact R.trans hrel h
    | outsideStack => exact R.cut_trans hrel h
    | outOfSteps => exact R.cut_trans hrel h

theorem bind (h : R.Leads act (fun a m' => R.rel m m' ∧ R.Leads (f a) P m') m) :
    R.Leads (act >>= f) P m := by
  unfold Leads at h ⊢
  cases hact : act m with
  | ok a m1 =>
    rw [hact] at h
    rw [bind_ok m hact]
    exact Leads.after h.1 h.2
  | error e m1 =>
    rw [hact] at h
    rw [bind_error m hact]
    cases e <;> exact h

/-- A first part that cannot fail. -/
theorem next {a : α} (h : act m = .ok a m') (hrel : R.rel m m') (hf : R.Leads (f a) P m') :
    R.Leads (act >>= f) P m := bind (of_ok h ⟨hrel, hf⟩)

theorem reading {t : Terms} {G : α → Prop} (h : Reads t act G m)
    (hf : ∀ a, G a → R.Leads (f a) P m) : R.Leads (act >>= f) P m := by
  rcases h with ⟨a, ha, hg⟩ | ⟨e, he, -⟩
  · exact next ha (R.refl m) (hf a hg)
  · exact bind (of_fail he (R.refl m))

theorem owning (h : R.Leads act Q m) (hq : ∀ a m' h, Q a m' → Q a (m'.withHeap h)) :
    R.Leads (Exec.owning vs act) Q m := by
  unfold Leads Exec.owning at *
  cases hact : act m with
  | ok a m1 =>
    rw [hact] at h
    simp only [releaseAll_eq]
    exact hq a m1 _ h
  | error e m1 =>
    rw [hact] at h
    simp only [releaseAll_eq]
    cases e with
    | script e => exact R.trans h (R.beside rfl rfl)
    | outsideStack | outOfSteps => exact R.cut_beside h rfl rfl

theorem handing (h : R.Leads act Q m) : R.Leads (Exec.handing v act) Q m := by
  unfold Leads Exec.handing at *
  cases hact : act m with
  | ok a m1 =>
    rw [hact] at h
    exact h
  | error e m1 =>
    rw [hact] at h
    simp only [release_eq]
    cases e with
    | script e => exact R.trans h (R.beside rfl rfl)
    | outsideStack => exact R.cut_beside h rfl rfl
    | outOfSteps => exact R.cut_beside h rfl rfl

end Leads

/-- From a state of which nothing is asked anything is allowed. -/
theorem AllowsAt.of_free (hrel : ∀ m', R.rel m m') (hcut : ∀ e m', R.cut e m m') :
    R.AllowsAt act m := by
  unfold AllowsAt Leads
  split
  · exact hrel _
  · exact hrel _
  · exact hcut _ _

namespace AllowsAt

theorem of_ok {a : α} (h : act m = .ok a m') (hrel : R.rel m m') : R.AllowsAt act m :=
  Leads.of_ok h hrel

theorem bind (h : R.AllowsAt act m) (hf : ∀ a m', act m = .ok a m' → R.AllowsAt (f a) m') :
    R.AllowsAt (act >>= f) m :=
  Leads.bind (Leads.mono h fun a m' hact hrel =>
    ⟨hrel, Leads.mono (hf a m' hact) fun _ _ _ hrel' => R.trans hrel hrel'⟩)

/-- What comes after an allowed part. -/
theorem leads {P : β → Machine → Prop} (h : R.AllowsAt act m)
    (hf : ∀ a m', act m = .ok a m' → R.rel m m' → R.Leads (f a) P m') :
    R.Leads (act >>= f) P m :=
  Leads.bind (Leads.mono h fun a m' hact hrel => ⟨hrel, hf a m' hact hrel⟩)

theorem next {a : α} (h : act m = .ok a m') (hrel : R.rel m m') (hf : R.AllowsAt (f a) m') :
    R.AllowsAt (act >>= f) m :=
  Leads.next h hrel (Leads.mono hf fun _ _ _ hrel' => R.trans hrel hrel')

theorem reading {t : Terms} {G : α → Prop} (h : Reads t act G m)
    (hf : ∀ a, G a → R.AllowsAt (f a) m) : R.AllowsAt (act >>= f) m := Leads.reading h hf

theorem handing (h : R.AllowsAt act m) : R.AllowsAt (Exec.handing v act) m := Leads.handing h

end AllowsAt

namespace Allows

/-- An action that never fails and concerns neither stack nor frames. -/
theorem of_beside (h : ∀ m, ∃ a m', act m = .ok a m' ∧ m'.stack = m.stack ∧ m'.frames = m.frames) :
    R.Allows act := by
  intro m
  obtain ⟨a, m', hok, hstack, hframes⟩ := h m
  exact .of_ok hok (R.beside hstack hframes)

theorem pure (a : α) : R.Allows (Pure.pure a : Exec α) := of_beside fun m => ⟨a, m, rfl, rfl, rfl⟩

theorem fail (e : ScriptError) : R.Allows (Exec.fail e : Exec α) :=
  fun m => Leads.of_fail rfl (R.refl m)

theorem malformed (message : String) : R.Allows (Exec.malformed message : Exec α) := fail _

theorem bind (h : R.Allows act) (hf : ∀ a, R.Allows (f a)) : R.Allows (act >>= f) :=
  fun m => (h m).bind fun a m1 _ => hf a m1

theorem get : R.Allows (MonadState.get : Exec Machine) := of_beside fun m => ⟨m, m, rfl, rfl, rfl⟩

/-- A change of the machine beside stack and frames. -/
theorem modifyGet {g : Machine → α × Machine}
    (hg : ∀ m, (g m).2.stack = m.stack ∧ (g m).2.frames = m.frames) :
    R.Allows (MonadStateOf.modifyGet g : Exec α) := of_beside fun m => ⟨(g m).1, (g m).2, rfl, hg m⟩

theorem ofExcept : ∀ r : Except ScriptError α, R.Allows (Exec.ofExcept r)
  | .ok a => pure a
  | .error e => fail e

theorem ofSlot : ∀ r : Except SlotError α, R.Allows (Exec.ofSlot r)
  | .ok a => pure a
  | .error e => fail e.toScriptError

theorem heap (g : Heap → α × Heap) : R.Allows (Exec.heap g) :=
  of_beside fun m => ⟨_, _, heap_eq m g, rfl, rfl⟩

theorem updateHeap (g : Heap → Heap) : R.Allows (Exec.updateHeap g) := heap _

theorem readHeap (g : Heap → α) : R.Allows (Exec.readHeap g) := get.bind fun _ => pure _

theorem slotHeap (g : Heap → Except SlotError α × Heap) : R.Allows (Exec.slotHeap g) :=
  (heap g).bind ofSlot

theorem retain (v : Value) : R.Allows (Exec.retain v) :=
  of_beside fun m => ⟨(), _, retain_eq m v, rfl, rfl⟩

theorem release (v : Value) : R.Allows (Exec.release v) :=
  of_beside fun m => ⟨(), _, release_eq m v, rfl, rfl⟩

theorem retainAll (vs : List Value) : R.Allows (Exec.retainAll vs) :=
  of_beside fun m => ⟨(), _, retainAll_eq m vs, rfl, rfl⟩

theorem releaseAll (vs : List Value) : R.Allows (Exec.releaseAll vs) :=
  of_beside fun m => ⟨(), _, releaseAll_eq m vs, rfl, rfl⟩

/-- Another way to end in the same state, but for the heap and the like. -/
theorem ending {act' : Exec β} (h : R.Allows act) (hend : ∀ m, SameEnd (act m) (act' m)) :
    R.Allows act' := by
  intro m
  have hm := h m
  have he := hend m
  unfold AllowsAt Leads at *
  generalize act m = r at hm he
  generalize act' m = r' at he
  cases he with
  | value hstack hframes => exact R.trans hm (R.beside hstack hframes)
  | caught hstack hframes => exact R.trans hm (R.beside hstack hframes)
  | raised hstack hframes => exact R.trans hm (R.beside hstack hframes)
  | @error e _ _ hstack hframes =>
    cases e with
    | script e => exact R.trans hm (R.beside hstack hframes)
    | outsideStack | outOfSteps => exact R.cut_beside hm hstack hframes

theorem owning (h : R.Allows act) : R.Allows (Exec.owning vs act) := by
  refine h.ending fun m => ?_
  unfold Exec.owning
  cases act m with
  | ok a m1 =>
    simp only [releaseAll_eq]
    exact .value rfl rfl
  | error e m1 =>
    simp only [releaseAll_eq]
    exact .error rfl rfl

theorem holding (h : R.Allows act) : R.Allows (Exec.holding vs act) :=
  (retainAll vs).bind fun _ => owning h

theorem handing (h : R.Allows act) : R.Allows (Exec.handing v act) := fun m => Leads.handing (h m)

theorem handingAll (h : R.Allows act) : R.Allows (Exec.handingAll vs act) := by
  refine h.ending fun m => ?_
  unfold Exec.handingAll
  cases act m with
  | ok a m1 => exact .value rfl rfl
  | error e m1 =>
    simp only [releaseAll_eq]
    exact .error rfl rfl

theorem attempt (h : R.Allows act) : R.Allows (Exec.attempt act) := by
  refine h.ending fun m => ?_
  unfold Exec.attempt
  cases act m with
  | ok a m1 => exact .value rfl rfl
  | error e m1 =>
    cases e with
    | script e => exact .caught rfl rfl
    | outsideStack | outOfSteps => exact .error rfl rfl

theorem tracing {entry : TraceEntry} (h : R.Allows act) : R.Allows (Exec.tracing entry act) := by
  refine h.ending fun m => ?_
  unfold Exec.tracing
  cases act m with
  | ok a m1 => exact .value rfl rfl
  | error e m1 =>
    cases e with
    | script e => exact .raised rfl rfl
    | outsideStack | outOfSteps => exact .error rfl rfl

theorem noting (h : R.Allows act) : R.Allows (Exec.noting act) := by
  refine h.ending fun m => ?_
  unfold Exec.noting
  cases act m with
  | ok a m1 => exact .value rfl rfl
  | error e m1 => cases e <;> exact .error rfl rfl

theorem inNative (h : R.Allows act) : R.Allows (Exec.inNative act) := by
  intro m
  have hdeeper : R.rel m { m with nativeDepth := m.nativeDepth + 1 } := R.beside rfl rfl
  have hm := Leads.after hdeeper
    (Leads.mono (h { m with nativeDepth := m.nativeDepth + 1 }) fun _ _ _ hrel => R.trans hdeeper hrel)
  unfold AllowsAt Leads Exec.inNative
  cases hact : act { m with nativeDepth := m.nativeDepth + 1 } with
  | ok a m1 =>
    rw [hact] at hm
    exact R.trans hm (R.beside rfl rfl)
  | error e m1 =>
    rw [hact] at hm
    cases e with
    | script e => exact R.trans hm (R.beside rfl rfl)
    | outsideStack | outOfSteps => exact R.cut_beside hm rfl rfl

end Allows

end

end Regime

namespace Exec

open Regime

/-- Nothing is assumed of a machine. -/
def anyTerms : Terms := ⟨False, [], fun _ _ => True⟩

theorem register_found {m : Machine} (base : Nat) (r : Int64) :
    Reads anyTerms (register base r)
      (fun v => 0 ≤ r ∧ m.stack[base + r.toInt.toNat]? = some v) m := by
  unfold register
  refine .bind (registerSlot_reads False.elim) ?_
  rintro i ⟨hpos, rfl⟩
  refine .bind (G := fun o => o = m.stack[base + r.toInt.toNat]?) (.inl ⟨_, rfl, rfl⟩) ?_
  rintro o rfl
  split
  · exact .pure ⟨hpos, ‹_›⟩
  · exact .malformed id

/-! ## Stack and registers -/

section

variable {R : Regime} {m : Machine} (base : Nat) (r : Int64) (v : Value)

theorem slot?_allowed (i : Nat) : R.Allows (slot? i) := Allows.get.bind fun _ => .pure _

theorem stackSize_allowed : R.Allows stackSize := Allows.get.bind fun _ => .pure _

theorem writeSlot_allowed {i : Nat} (hi : R.writes i) : R.Allows (writeSlot i v) := by
  intro m
  cases hslot : m.stack[i]? with
  | none => exact .of_ok (writeSlot_missing v hslot) (R.refl m)
  | some old => exact .of_ok (writeSlot_found v hslot) (R.trans (R.write m v hi) (R.beside rfl rfl))

theorem nullSlots_allowed (start count : Nat) (hs : R.Owns start) :
    R.Allows (nullSlots start count) := by
  induction count generalizing start with
  | zero => exact .pure ()
  | succ count ih =>
    exact (writeSlot_allowed .null (hs start (Nat.le_refl _))).bind fun _ =>
      ih (start + 1) fun i hi => hs i (by omega)

theorem indexArg_allowed (what : String) : R.Allows (indexArg r what) := by
  unfold indexArg
  split
  · exact .malformed _
  · exact .pure _

theorem registerSlot_allowed : R.Allows (registerSlot base r) := by
  unfold registerSlot
  split
  · exact .malformed _
  · exact .pure _

theorem register_allowed : R.Allows (register base r) := by
  refine (registerSlot_allowed base r).bind fun i => (slot?_allowed i).bind fun v => ?_
  cases v with
  | none => exact .malformed _
  | some v => exact .pure v

theorem setRegister_allowed (hb : R.Owns base) : R.Allows (setRegister base r v) := by
  intro m
  refine Leads.handing (Leads.reading (t := anyTerms) (registerSlot_reads False.elim) ?_)
  rintro i ⟨-, rfl⟩
  refine ((writeSlot_allowed v (hb _ (Nat.le_add_right _ _))).bind fun written => ?_) m
  cases written with
  | true => exact .pure ()
  | false => exact .malformed _

theorem setOptional_allowed (hb : R.Owns base) : R.Allows (setOptional base r v) := by
  unfold setOptional
  split
  · exact setRegister_allowed base r v hb
  · exact .release v

theorem currentFrame_allowed : R.Allows currentFrame := by
  refine Allows.get.bind fun m => ?_
  cases m.frames with
  | nil => exact .malformed _
  | cons f rest => exact .pure f

theorem setIp_allowed (hj : R.Jumps) (ip : Nat) : R.Allows (setIp ip) := by
  intro m
  cases hf : m.frames with
  | nil =>
    refine .of_ok (a := ()) (show setIp ip m = .ok () m from ?_) (R.refl m)
    show EStateM.Result.ok () _ = _
    simp only [hf]
  | cons f rest => exact .of_ok (setIp_eq ip hf) (hj m f rest ip hf)

theorem jump_allowed (hj : R.Jumps) (offset : Int64) : R.Allows (jump offset) := by
  refine currentFrame_allowed.bind fun f => ?_
  dsimp only
  split
  · exact .malformed _
  · exact setIp_allowed hj _

theorem ofLiteral_allowed (l : Literal) : R.Allows (ofLiteral l) := by
  unfold ofLiteral
  split <;> first | exact .pure _ | exact .heap _

theorem literal_allowed (index : Int64) : R.Allows (literal index) := by
  refine currentFrame_allowed.bind fun f => ?_
  split
  · exact ofLiteral_allowed _
  · exact .malformed _

theorem sharing_allowed : R.Allows (sharing v) := (Allows.retain v).bind fun _ => .pure v

theorem closeOuters_allowed (slot : Nat) : R.Allows (closeOuters slot) :=
  .of_beside fun m => ⟨(), _, closeOuters_eq slot m, rfl, rfl⟩

end

end Exec

end ScriptMachine
