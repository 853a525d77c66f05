import ScriptMachine.Proofs.Heap.Lookups
import ScriptMachine.Proofs.Machine.Tidiness

/-!
# Judging actions

An action is judged at the machine it starts from: what holds when it gives a
value, and what holds when the script fails. A second version of the action,
which differs in how it calls back, must have the same outcome.
-/

set_option autoImplicit false

namespace ScriptMachine

/-- An error as an instruction raises it when it is malformed. -/
def ScriptError.Raw (e : ScriptError) : Prop := e.kind = .compile ∧ e.trace = []

theorem ScriptError.not_raw_of_kind {e : ScriptError} (he : e.kind ≠ .compile) : ¬ e.Raw :=
  fun h => he h.1

theorem ScriptError.leave_not_raw (e : ScriptError) (entry : TraceEntry) :
    ¬ (e.leave entry).Raw := by
  rintro ⟨-, h⟩
  simp [ScriptError.leave] at h

theorem SlotError.not_raw (e : SlotError) : ¬ e.toScriptError.Raw := by
  apply ScriptError.not_raw_of_kind
  cases e <;> simp [SlotError.toScriptError, SlotError.kind]

namespace Exec

section

variable {α : Type} (m : Machine)

theorem heap_eq (f : Heap → α × Heap) : heap f m = .ok (f m.heap).1 (m.withHeap (f m.heap).2) := rfl

theorem updateHeap_eq (f : Heap → Heap) : updateHeap f m = .ok () (m.withHeap (f m.heap)) := rfl

theorem retain_eq (v : Value) : retain v m = .ok () (m.withHeap (m.heap.retain v)) := by
  unfold retain Heap.retain
  cases v.ref? with
  | none => rfl
  | some r => rfl

theorem release_eq (v : Value) : release v m = .ok () (m.withHeap (m.heap.release v)) := by
  unfold release Heap.release
  cases v.ref? with
  | none => rfl
  | some r => rfl

theorem bind_ok {β : Type} {x : Exec α} {f : α → Exec β} {a : α} {m' : Machine}
    (hx : x m = .ok a m') : (x >>= f) m = f a m' := by
  show EStateM.bind x f m = f a m'
  simp only [EStateM.bind, hx]

theorem bind_error {β : Type} {x : Exec α} {f : α → Exec β} {e : Fault} {m' : Machine}
    (hx : x m = .error e m') : (x >>= f) m = .error e m' := by
  show EStateM.bind x f m = .error e m'
  simp only [EStateM.bind, hx]

theorem retainAll_eq (vs : List Value) :
    retainAll vs m = .ok () (m.withHeap (m.heap.retainAll vs)) := by
  induction vs generalizing m with
  | nil => rfl
  | cons v vs ih =>
    show (retain v >>= fun _ => retainAll vs) m = _
    rw [bind_ok m (retain_eq m v), ih]
    rfl

theorem releaseAll_eq (vs : List Value) :
    releaseAll vs m = .ok () (m.withHeap (m.heap.releaseAll vs)) := by
  induction vs generalizing m with
  | nil => rfl
  | cons v vs ih =>
    show (release v >>= fun _ => releaseAll vs) m = _
    rw [bind_ok m (release_eq m v), ih]
    rfl

end

section

variable {α : Type} {act : Exec α} {m m' : Machine} {a : α} {e : Fault}

theorem handing_ok {v : Value} (h : act m = .ok a m') : handing v act m = .ok a m' := by
  simp only [handing, h]

theorem handing_error {v : Value} (h : act m = .error e m') :
    handing v act m = .error e (m'.withHeap (m'.heap.release v)) := by
  simp only [handing, h, release_eq]

theorem owning_ok {vs : List Value} (h : act m = .ok a m') :
    owning vs act m = .ok a (m'.withHeap (m'.heap.releaseAll vs.reverse)) := by
  unfold owning
  rw [h]
  simp only [releaseAll_eq]

theorem owning_error {vs : List Value} (h : act m = .error e m') :
    owning vs act m = .error e (m'.withHeap (m'.heap.releaseAll vs.reverse)) := by
  unfold owning
  rw [h]
  simp only [releaseAll_eq]

end

/-! ## The judgement -/

/-- The action gives a value with `Q`, or the script fails with `F`. Under strict
terms nothing outside the stack is accessed. Both versions have the same outcome. -/
def Meets {α : Type} (t : Terms) (act act' : Exec α) (Q : α → Machine → Prop)
    (F : ScriptError → Machine → Prop) (m : Machine) : Prop :=
  act' m = act m ∧
    match act m with
    | .ok a m' => Q a m'
    | .error (.script e) m' => F e m'
    | .error .outsideStack _ => ¬ t.strict
    | .error .outOfSteps _ => True

/-- What is left when the script fails inside an instruction. -/
def Fails (t : Terms) (s : Scope) (own : List Value) (e : ScriptError) (m : Machine) : Prop :=
  m.Within t s own ∧ (t.strict → ¬ e.Raw)

/-- The action gives a value, which makes the caller own some values more, or the
script fails, and stays within its scope. -/
def Keeps {α : Type} (t : Terms) (s : Scope) (own : List Value) (act act' : Exec α)
    (gives : α → List Value) (m : Machine) : Prop :=
  Meets t act act' (fun (a : α) (m' : Machine) => m'.Within t s (gives a ++ own)) (Fails t s own) m

/-- Calls take their arguments over and give a value. -/
def Faithful (t : Terms) (call call' : Caller) : Prop :=
  ∀ (s : Scope) (callee : Value) (args own : List Value) (m : Machine),
    m.Within t s (args ++ own) → m.heap.Has callee →
      Keeps t s own (call callee args) (call' callee args) (fun (v : Value) => [v]) m

section

variable {α β : Type} {t : Terms} {s : Scope} {own own' vs : List Value} {act act' : Exec α}
variable {Q Q' : α → Machine → Prop} {F F' : ScriptError → Machine → Prop} {m m' : Machine}

namespace Meets

theorem of_ok {a : α} (h : act m = .ok a m') (hq : Q a m') : Meets t act act Q F m := by
  refine ⟨rfl, ?_⟩
  rw [h]
  exact hq

theorem of_fail {e : ScriptError} (hf : F e m) : Meets t (fail e : Exec α) (fail e) Q F m :=
  ⟨rfl, hf⟩

theorem of_error {e : ScriptError} (h : act m = .error (.script e) m') (hf : F e m') :
    Meets t act act Q F m := by
  refine ⟨rfl, ?_⟩
  rw [h]
  exact hf

theorem done {a : α} (h : Meets t act act' Q F m) (heq : act m = .ok a m') : Q a m' := by
  have h2 := h.2
  rwa [heq] at h2

theorem failed {e : ScriptError} (h : Meets t act act' Q F m)
    (heq : act m = .error (.script e) m') : F e m' := by
  have h2 := h.2
  rwa [heq] at h2

theorem mono (h : Meets t act act' Q F m) (hq : ∀ a m', Q a m' → Q' a m')
    (hf : ∀ e m', F e m' → F' e m') : Meets t act act' Q' F' m := by
  refine ⟨h.1, ?_⟩
  have h2 := h.2
  split at h2
  · exact hq _ _ h2
  · exact hf _ _ h2
  · exact h2
  · trivial

theorem bind {R : β → Machine → Prop} {f f' : α → Exec β}
    (h : Meets t act act' (fun a m' => Meets t (f a) (f' a) R F m') F m) :
    Meets t (act >>= f) (act' >>= f') R F m := by
  obtain ⟨heq, h2⟩ := h
  unfold Meets
  show EStateM.bind act' f' m = EStateM.bind act f m ∧ _
  unfold EStateM.bind
  rw [heq]
  cases hm : act m with
  | ok a m1 =>
    rw [hm] at h2
    rw [bind_ok m hm]
    exact h2
  | error e m1 =>
    rw [hm] at h2
    rw [bind_error m hm]
    exact ⟨rfl, by cases e <;> exact h2⟩

/-- A first part that cannot fail. -/
theorem next {R : β → Machine → Prop} {f f' : α → Exec β} {a : α} (h : act m = .ok a m')
    (hf : Meets t (f a) (f' a) R F m') : Meets t (act >>= f) (act >>= f') R F m :=
  bind (of_ok h hf)

/-- A value is let go when the action fails. -/
theorem handing {v : Value} (h : Meets t act act' Q
    (fun e m' => F e (m'.withHeap (m'.heap.release v))) m) :
    Meets t (handing v act) (handing v act') Q F m := by
  obtain ⟨heq, h2⟩ := h
  unfold Meets Exec.handing
  rw [heq]
  cases hm : act m with
  | ok a m1 =>
    rw [hm] at h2
    exact ⟨rfl, h2⟩
  | error e m1 =>
    rw [hm] at h2
    simp only [release_eq]
    refine ⟨trivial, ?_⟩
    cases e with
    | script e => exact h2
    | outsideStack => exact h2
    | outOfSteps => trivial

theorem handingAll (h : Meets t act act' Q
    (fun e m' => F e (m'.withHeap (m'.heap.releaseAll vs))) m) :
    Meets t (handingAll vs act) (handingAll vs act') Q F m := by
  obtain ⟨heq, h2⟩ := h
  unfold Meets Exec.handingAll
  rw [heq]
  cases hm : act m with
  | ok a m1 =>
    rw [hm] at h2
    exact ⟨rfl, h2⟩
  | error e m1 =>
    rw [hm] at h2
    simp only [releaseAll_eq]
    refine ⟨trivial, ?_⟩
    cases e with
    | script e => exact h2
    | outsideStack => exact h2
    | outOfSteps => trivial

/-- Values are let go when the action ends, however it ends. -/
theorem owning (h : Meets t act act'
    (fun a m' => Q a (m'.withHeap (m'.heap.releaseAll vs.reverse)))
    (fun e m' => F e (m'.withHeap (m'.heap.releaseAll vs.reverse))) m) :
    Meets t (owning vs act) (owning vs act') Q F m := by
  obtain ⟨heq, h2⟩ := h
  unfold Meets Exec.owning
  rw [heq]
  cases hm : act m with
  | ok a m1 =>
    rw [hm] at h2
    simp only [releaseAll_eq]
    exact ⟨trivial, h2⟩
  | error e m1 =>
    rw [hm] at h2
    simp only [releaseAll_eq]
    refine ⟨trivial, ?_⟩
    cases e with
    | script e => exact h2
    | outsideStack => exact h2
    | outOfSteps => trivial

theorem attempt (h : Meets t act act' Q F m) :
    Meets t (attempt act) (attempt act')
      (fun r m' => match r with
        | .ok a => Q a m'
        | .error e => F e m') F' m := by
  obtain ⟨heq, h2⟩ := h
  unfold Meets Exec.attempt
  rw [heq]
  cases hm : act m with
  | ok a m1 =>
    rw [hm] at h2
    exact ⟨rfl, h2⟩
  | error e m1 =>
    rw [hm] at h2
    cases e with
    | script e => exact ⟨rfl, h2⟩
    | outsideStack => exact ⟨rfl, h2⟩
    | outOfSteps => exact ⟨rfl, trivial⟩

theorem tracing {entry : TraceEntry} (h : Meets t act act' Q (fun e m' => F (e.leave entry) m') m) :
    Meets t (tracing entry act) (tracing entry act') Q F m := by
  obtain ⟨heq, h2⟩ := h
  unfold Meets Exec.tracing
  rw [heq]
  cases hm : act m with
  | ok a m1 =>
    rw [hm] at h2
    exact ⟨rfl, h2⟩
  | error e m1 =>
    rw [hm] at h2
    cases e with
    | script e => exact ⟨rfl, h2⟩
    | outsideStack => exact ⟨rfl, h2⟩
    | outOfSteps => exact ⟨rfl, trivial⟩

theorem noting (h : Meets t act act' Q (fun e m' => F e { m' with lastError := some e }) m) :
    Meets t (noting act) (noting act') Q F m := by
  obtain ⟨heq, h2⟩ := h
  unfold Meets Exec.noting
  rw [heq]
  cases hm : act m with
  | ok a m1 =>
    rw [hm] at h2
    exact ⟨rfl, h2⟩
  | error e m1 =>
    rw [hm] at h2
    cases e with
    | script e => exact ⟨rfl, h2⟩
    | outsideStack => exact ⟨rfl, h2⟩
    | outOfSteps => exact ⟨rfl, trivial⟩

theorem restoring {undo : Machine → Machine} (h : Meets t act act' Q (fun e m' => F e (undo m')) m) :
    Meets t (restoring act undo) (restoring act' undo) Q F m := by
  obtain ⟨heq, h2⟩ := h
  unfold Meets Exec.restoring
  rw [heq]
  cases hm : act m with
  | ok a m1 =>
    rw [hm] at h2
    exact ⟨rfl, h2⟩
  | error e m1 =>
    rw [hm] at h2
    cases e with
    | script e => exact ⟨rfl, h2⟩
    | outsideStack => exact ⟨rfl, h2⟩
    | outOfSteps => exact ⟨rfl, trivial⟩

end Meets

/-! ## Reading -/

/-- The action gives a value, or the script fails, and nothing changes. -/
def Reads {α : Type} (t : Terms) (act : Exec α) (G : α → Prop) (m : Machine) : Prop :=
  (∃ a, act m = .ok a m ∧ G a) ∨
    ∃ e, act m = .error (.script e) m ∧ (t.strict → ¬ e.Raw)

namespace Reads

variable {G : α → Prop} {H : β → Prop} {f : α → Exec β}

theorem pure {a : α} (hg : G a) : Reads t (Pure.pure a) G m := .inl ⟨a, rfl, hg⟩

theorem fail {e : ScriptError} (he : e.kind ≠ .compile) : Reads t (fail e) G m :=
  .inr ⟨e, rfl, fun _ => ScriptError.not_raw_of_kind he⟩

theorem malformed {message : String} (h : ¬ t.strict) : Reads t (malformed message) G m :=
  .inr ⟨_, rfl, fun ht => absurd ht h⟩

theorem bind (h : Reads t act G m) (hf : ∀ a, G a → Reads t (f a) H m) :
    Reads t (act >>= f) H m := by
  rcases h with ⟨a, ha, hg⟩ | ⟨e, he, hraw⟩
  · have heq : (act >>= f) m = f a m := bind_ok m ha
    rcases hf a hg with ⟨b, hb, hh⟩ | ⟨e, he, hraw⟩
    · exact .inl ⟨b, heq.trans hb, hh⟩
    · exact .inr ⟨e, heq.trans he, hraw⟩
  · exact .inr ⟨e, bind_error m he, hraw⟩

theorem ofSlot {r : Except SlotError α} : Reads t (ofSlot r) (fun a => r = .ok a) m := by
  cases r with
  | ok a => exact .pure rfl
  | error e => exact .inr ⟨_, rfl, fun _ => e.not_raw⟩

theorem mono {H : α → Prop} (h : Reads t act G m) (hg : ∀ a, G a → H a) : Reads t act H m :=
  h.imp (fun ⟨a, ha, hga⟩ => ⟨a, ha, hg a hga⟩) id

end Reads

/-! ## Within a scope -/

namespace Keeps

variable {gives : α → List Value} {gives' : β → List Value} {f f' : α → Exec β}

theorem bind (h : Keeps t s own act act' gives m)
    (hf : ∀ a m', m'.Within t s (gives a ++ own) → Keeps t s own (f a) (f' a) gives' m') :
    Keeps t s own (act >>= f) (act' >>= f') gives' m :=
  Meets.bind (Meets.mono h hf fun _ _ he => he)

/-- The first part does not move the current function. -/
theorem bind_quiet (h : Keeps t s.quiet own act act' gives m)
    (hf : ∀ a m', m'.Within t s.quiet (gives a ++ own) → Keeps t s own (f a) (f' a) gives' m') :
    Keeps t s own (act >>= f) (act' >>= f') gives' m :=
  Meets.bind (Meets.mono h hf fun _ _ hf => ⟨hf.1.of_quiet, hf.2⟩)

theorem next {a : α} (h : act m = .ok a m') (hf : Keeps t s own (f a) (f' a) gives' m') :
    Keeps t s own (act >>= f) (act >>= f') gives' m := Meets.next h hf

theorem pure {a : α} (hm : m.Within t s (gives a ++ own)) :
    Keeps t s own (Pure.pure a) (Pure.pure a) gives m := Meets.of_ok rfl hm

theorem fail {e : ScriptError} (hm : m.Within t s own) (he : e.kind ≠ .compile) :
    Keeps t s own (fail e) (fail e) gives m :=
  Meets.of_fail ⟨hm, fun _ => ScriptError.not_raw_of_kind he⟩

theorem fail_slot {e : SlotError} (hm : m.Within t s own) :
    Keeps t s own (Exec.fail e.toScriptError) (Exec.fail e.toScriptError) gives m :=
  Meets.of_fail ⟨hm, fun _ => e.not_raw⟩

theorem malformed {message : String} (hm : m.Within t s own) (h : ¬ t.strict) :
    Keeps t s own (Exec.malformed message) (Exec.malformed message) gives m :=
  Meets.of_fail ⟨hm, fun ht => absurd ht h⟩

theorem reading {G : α → Prop} (h : Reads t act G m) (hm : m.Within t s own)
    (hf : ∀ a, G a → Keeps t s own (f a) (f' a) gives' m) :
    Keeps t s own (act >>= f) (act >>= f') gives' m := by
  rcases h with ⟨a, ha, hg⟩ | ⟨e, he, hraw⟩
  · exact .next ha (hf a hg)
  · exact Meets.bind (Meets.of_error he ⟨hm, hraw⟩)

theorem readHeap {g : Heap → α} (hf : Keeps t s own (f (g m.heap)) (f' (g m.heap)) gives' m) :
    Keeps t s own (readHeap g >>= f) (readHeap g >>= f') gives' m := hf

theorem get {f f' : Machine → Exec β} (hf : Keeps t s own (f m) (f' m) gives' m) :
    Keeps t s own (MonadState.get >>= f) (MonadState.get >>= f') gives' m := hf

theorem ofExcept {r : Except ScriptError α} (hok : ∀ a, r = .ok a → m.Within t s (gives a ++ own))
    (hfail : ∀ e, r = .error e → m.Within t s own ∧ e.kind ≠ .compile) :
    Keeps t s own (ofExcept r) (ofExcept r) gives m := by
  cases r with
  | ok a => exact .pure (hok a rfl)
  | error e => exact .fail (hfail e rfl).1 (hfail e rfl).2

theorem ofSlot {r : Except SlotError α} (hok : ∀ a, r = .ok a → m.Within t s (gives a ++ own))
    (hfail : ∀ e, r = .error e → m.Within t s own) :
    Keeps t s own (ofSlot r) (ofSlot r) gives m := by
  cases r with
  | ok a => exact .pure (hok a rfl)
  | error e => exact .fail_slot (hfail e rfl)

theorem retain {s₀ : Scope} {v : Value} {f f' : Unit → Exec β} (hm : m.Within t s₀ own')
    (hv : m.heap.Has v) (hf : ∀ m', m'.Within t s₀ (v :: own') → (∀ w, m.heap.Has w → m'.heap.Has w) →
      Keeps t s own (f ()) (f' ()) gives' m') :
    Keeps t s own (Exec.retain v >>= f) (Exec.retain v >>= f') gives' m :=
  .next (retain_eq m v) (hf _ (hm.retain hv) fun _ hw => Heap.Backs.has_retain hw)

theorem release {v : Value} {f f' : Unit → Exec β} (hm : m.Within t s (v :: own'))
    (hf : ∀ m', m'.Within t s own' → Keeps t s own (f ()) (f' ()) gives' m') :
    Keeps t s own (Exec.release v >>= f) (Exec.release v >>= f') gives' m :=
  .next (release_eq m v) (hf _ hm.release)

theorem released {v : Value} (hm : m.Within t s (v :: own)) :
    Keeps t s own (Exec.release v) (Exec.release v) (fun _ => []) m :=
  Meets.of_ok (release_eq m v) hm.release

theorem releaseAll {f f' : Unit → Exec β} (hm : m.Within t s (vs ++ own'))
    (hf : ∀ m', m'.Within t s own' → Keeps t s own (f ()) (f' ()) gives' m') :
    Keeps t s own (Exec.releaseAll vs >>= f) (Exec.releaseAll vs >>= f') gives' m :=
  .next (releaseAll_eq m vs) (hf _ hm.releaseAll)

theorem retainAll {s₀ : Scope} {f f' : Unit → Exec β} (hm : m.Within t s₀ own')
    (hv : ∀ v ∈ vs, m.heap.Has v) (hf : ∀ m', m'.Within t s₀ (vs ++ own') → (∀ w, m.heap.Has w → m'.heap.Has w) →
      Keeps t s own (f ()) (f' ()) gives' m') :
    Keeps t s own (Exec.retainAll vs >>= f) (Exec.retainAll vs >>= f') gives' m :=
  .next (retainAll_eq m vs)
    (hf _ (hm.retainAll hv) fun _ hw => (Heap.spares_retainAll m.heap vs).has hw)

/-- A heap operation that gives values. -/
theorem heap {g : Heap → α × Heap} {f f' : α → Exec β}
    (hg : (m.withHeap (g m.heap).2).Within t s own')
    (hf : ∀ m', m'.Within t s own' → m' = m.withHeap (g m.heap).2 →
      Keeps t s own (f (g m.heap).1) (f' (g m.heap).1) gives' m') :
    Keeps t s own (Exec.heap g >>= f) (Exec.heap g >>= f') gives' m :=
  .next (heap_eq m g) (hf _ hg rfl)

theorem owning (h : Keeps t s (vs ++ own) act act' gives m) :
    Keeps t s own (Exec.owning vs act) (Exec.owning vs act') gives m := by
  refine Meets.owning (Meets.mono h (fun a m' hm => ?_) fun e m' he => ⟨?_, he.2⟩)
  · refine Machine.Within.releaseAll (hm.mono (le_of_eq ?_))
    simp only [← Multiset.coe_add, Multiset.coe_reverse]
    ac_rfl
  · refine Machine.Within.releaseAll (he.1.mono (le_of_eq ?_))
    simp only [← Multiset.coe_add, Multiset.coe_reverse]

theorem holding {s₀ : Scope} (hm : m.Within t s₀ own') (hv : ∀ v ∈ vs, m.heap.Has v)
    (hact : ∀ m', m'.Within t s₀ (vs ++ own') → (∀ w, m.heap.Has w → m'.heap.Has w) →
      Keeps t s (vs ++ own) act act' gives m') :
    Keeps t s own (Exec.holding vs act) (Exec.holding vs act') gives m :=
  .retainAll hm hv fun m' hm' hw => .owning (hact m' hm' hw)

/-- A value that is let go on failure is still the caller's afterwards. -/
theorem handing {v : Value} (h : Keeps t s (v :: own) act act' gives m) :
    Keeps t s own (Exec.handing v act) (Exec.handing v act') (fun a => gives a ++ [v]) m := by
  refine Meets.handing (Meets.mono h (fun a m' hm => ?_) fun e m' he => ⟨he.1.release, he.2⟩)
  rw [List.append_assoc]
  exact hm

theorem seq {x x' : Exec Unit} {f f' : Unit → Exec β} (h : Keeps t s own x x' (fun _ => []) m)
    (hf : ∀ m', m'.Within t s own → Keeps t s own (f ()) (f' ()) gives' m') :
    Keeps t s own (x >>= f) (x' >>= f') gives' m := .bind h fun _ => hf

theorem handed {v : Value} {x x' : Exec Unit} {f f' : Unit → Exec β}
    (h : Keeps t s (v :: own) x x' (fun _ => []) m)
    (hf : ∀ m', m'.Within t s (v :: own) → Keeps t s own (f ()) (f' ()) gives' m') :
    Keeps t s own (Exec.handing v x >>= f) (Exec.handing v x' >>= f') gives' m :=
  .bind (.handing h) fun _ => hf

theorem handingAll (h : Keeps t s (vs ++ own) act act' gives m) :
    Keeps t s own (Exec.handingAll vs act) (Exec.handingAll vs act') (fun a => gives a ++ vs) m := by
  refine Meets.handingAll (Meets.mono h (fun a m' hm => ?_) fun e m' he => ⟨he.1.releaseAll, he.2⟩)
  rw [List.append_assoc]
  exact hm

end Keeps

end

end Exec

end ScriptMachine
