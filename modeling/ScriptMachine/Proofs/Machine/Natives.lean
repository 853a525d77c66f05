import ScriptMachine.Machine.Natives
import ScriptMachine.Proofs.Machine.Members

/-!
# Natives keep the machine in order

A native that names only what it knows never gets hold of an object that is
gone: its arguments and the answers it got are held while it runs.
-/

set_option autoImplicit false

namespace ScriptMachine

theorem Routine.Honest.mono {r : Routine} {known known' : Value → Prop} (h : r.Honest known)
    (hk : ∀ v, known v → known' v) : r.Honest known' := by
  induction r generalizing known known' with
  | finish v => exact hk v h
  | fail e => trivial
  | ask q next ih =>
    refine ⟨fun v hv => hk v (h.1 v hv), fun v => ih (.ok v) (h.2.1 v) ?_, fun e => ?_⟩
    · exact fun u hu => hu.imp_left (hk u)
    · exact ih (.error e) (h.2.2 e) hk

/-- The same scope while one native more runs. -/
def Scope.deeper (s : Scope) : Scope :=
  { s with start := { s.start with nativeDepth := s.start.nativeDepth + 1 } }

namespace Machine.Within

variable {t : Terms} {s : Scope} {own : List Value} {m : Machine}

theorem deeper (hm : m.Within t s own)
    (hd : m.frames.length + m.nativeDepth < m.config.maxCallDepth) :
    { m with nativeDepth := m.nativeDepth + 1 }.Within t s.deeper own := by
  refine ⟨⟨hm.backs, hm.cells, hm.running, hd⟩, ?_, hm.frames, hm.size⟩
  exact ⟨hm.config, hm.root, hm.delegates, congrArg (· + 1) hm.nativeDepth, hm.drifts, hm.slots,
    hm.opened⟩

theorem shallower (hm : m.Within t s.deeper own) :
    { m with nativeDepth := m.nativeDepth - 1 }.Within t s own := by
  have hn : m.nativeDepth = s.start.nativeDepth + 1 := hm.nativeDepth
  have hd := hm.depth
  refine ⟨⟨hm.backs, hm.cells, hm.running, ?_⟩, ?_, hm.frames, hm.size⟩
  · show m.frames.length + (m.nativeDepth - 1) ≤ m.config.maxCallDepth
    omega
  · refine ⟨hm.config, hm.root, hm.delegates, ?_, hm.drifts, hm.slots, hm.opened⟩
    show m.nativeDepth - 1 = s.start.nativeDepth
    omega

theorem noted (hm : m.Within t s own) (e : ScriptError) :
    { m with lastError := some e }.Within t s own :=
  ⟨⟨hm.backs, hm.cells, hm.running, hm.depth⟩,
    ⟨hm.config, hm.root, hm.delegates, hm.nativeDepth, hm.drifts, hm.slots, hm.opened⟩,
    hm.frames, hm.size⟩

/-- Interrupts and lines that are put out concern nobody. -/
theorem told (hm : m.Within t s own) (interrupted : Bool) (output : Array String) :
    { m with interrupted, output }.Within t s own :=
  ⟨⟨hm.backs, hm.cells, hm.running, hm.depth⟩,
    ⟨hm.config, hm.root, hm.delegates, hm.nativeDepth, hm.drifts, hm.slots, hm.opened⟩,
    hm.frames, hm.size⟩

end Machine.Within

namespace Exec

variable {t : Terms} {s : Scope} {own answers : List Value} {m : Machine} {call call' : Caller}

/-! ## Requests -/

/-- Values that may be named while some are owned. -/
def Nameable (t : Terms) (own : List Value) (v : Value) : Prop :=
  v.ref? = none ∨ v ∈ own ∨ v ∈ t.host

theorem Nameable.has {v : Value} (hv : Nameable t own v) (hm : m.Within t s own) :
    m.heap.Has v := by
  rcases hv with hv | hv | hv
  · exact Heap.has_of_none hv
  · exact hm.has hv
  · exact hm.has_host hv

/-- What went wrong is remembered. -/
theorem Keeps.noting {α : Type} {act act' : Exec α} {gives : α → List Value}
    (h : Keeps t s own act act' gives m) :
    Keeps t s own (Exec.noting act) (Exec.noting act') gives m :=
  Meets.noting (Meets.mono h (fun _ _ hm => hm) fun e _ he => ⟨he.1.noted e, he.2⟩)

theorem callNoting_keeps (hc : Faithful t call call') {f : Value} {args : List Value}
    (hm : m.Within t s own) (hf : m.heap.Has f) (ha : ∀ v ∈ args, m.heap.Has v) :
    Keeps t s own (callNoting call f args) (callNoting call' f args) (fun (v : Value) => [v]) m := by
  have hargs : ∀ v ∈ (if args.isEmpty then [.null] else args), m.heap.Has v := by
    split
    · simp [Heap.has_of_none (h := m.heap) (v := Value.null) rfl]
    · exact ha
  unfold callNoting
  exact .retainAll hm hargs fun m1 hm1 hw1 => .noting (hc s f _ own m1 hm1 (hw1 f hf))

theorem answer_keeps (hc : Faithful t call call') {r : Request} (hm : m.Within t s own)
    (hr : ∀ v ∈ r.names, Nameable t own v) :
    Keeps t s own (answer call r) (answer call' r) (fun (v : Value) => [v]) m := by
  have hlive : ∀ v ∈ r.names, m.heap.Has v := fun v hv => (hr v hv).has hm
  unfold answer
  cases r with
  | call f args =>
    exact callNoting_keeps hc hm (hlive f List.mem_cons_self)
      fun v hv => hlive v (List.mem_cons_of_mem _ hv)
  | newArray items =>
    refine .retainAll hm hlive fun m1 hm1 _ => ?_
    refine Meets.of_ok (heap_eq _ _) (hm1.heap_cons (Heap.Backs.newArray ?_))
    rw [List.toList_toArray]
    exact hm1.backs_append
  | newString x => exact newString_keeps hm
  | push r v =>
    refine .retain hm (hlive v (by simp [Request.names])) fun m1 hm1 _ => ?_
    exact .next (updateHeap_eq _ _) (.pure ((hm1.heap hm1.backs_cons.pushItem).own_plain rfl))
  | weaken v =>
    refine Meets.of_ok (heap_eq _ _) (hm.heap_cons (hm.backs.weaken (hlive v ?_)))
    simp [Request.names]
  | target w => exact .readHeap (sharing_keeps hm (hm.backs.has_target w))
  | length r => exact .readHeap (.pure (hm.own_plain rfl))
  | «attribute» r a =>
    refine Meets.of_ok (heap_eq _ _) ?_
    split
    · rename_i n hn
      exact hm.heap_cons (hm.backs.nativeAttribute hn a)
    · exact hm.own_plain rfl
  | display v => exact .readHeap (newString_keeps hm)
  | deepEqual a b => exact .readHeap (.pure (hm.own_plain rfl))
  | root => exact .get (sharing_keeps hm (hm.has_root Machine.globals_mem_roots))
  | live => exact .readHeap (.pure (hm.own_plain rfl))
  | collect => exact .next (heap_eq _ _) (.pure ((hm.heap hm.backs.collect).own_plain rfl))
  | interrupt =>
    refine .next (a := ()) (show _ = EStateM.Result.ok () _ from rfl) (.pure ?_)
    exact (hm.told true m.output).own_plain rfl
  | emit line =>
    refine .next (a := ()) (show _ = EStateM.Result.ok () _ from rfl) (.pure ?_)
    exact (hm.told m.interrupted _).own_plain rfl

/-! ## Routines -/

/-- A way to run the routines of natives that gives a value or fails in order. -/
def Performs (t : Terms) (run run' : Routine → Exec Value) : Prop :=
  ∀ (s : Scope) (own : List Value) (m : Machine) (r : Routine), m.Within t s own →
    r.Honest (Nameable t own) →
    Meets t (run r) (run' r) (fun v m' => m'.Within t s (v :: own)) (fun _ m' => m'.Within t s own) m

/-- Runs a routine, given how its requests are answered. -/
def performWith (reply : Request → Exec Value) (answers : List Value) : Routine → Exec Value
  | .finish v => do
    retain v
    releaseAll answers
    return v
  | .fail e => do
    releaseAll answers
    fail e
  | .ask q next => do
    match ← attempt (reply q) with
    | .ok v => performWith reply (v :: answers) (next (.ok v))
    | .error e => performWith reply answers (next (.error e))

theorem perform_eq (call : Caller) (answers : List Value) (r : Routine) :
    perform call answers r = performWith (answer call) answers r := by
  induction r generalizing answers with
  | finish v => rfl
  | fail e => rfl
  | ask q next ih =>
    unfold perform performWith
    refine congrArg _ (funext fun res => ?_)
    cases res with
    | ok v => exact ih (.ok v) (v :: answers)
    | error e => exact ih (.error e) answers

/-- Requests for what may be named are answered in order. -/
def Replies (t : Terms) (s : Scope) (reply reply' : Request → Exec Value) : Prop :=
  ∀ (q : Request) (own : List Value) (m : Machine), m.Within t s own →
    (∀ v ∈ q.names, Nameable t own v) → Keeps t s own (reply q) (reply' q) (fun (v : Value) => [v]) m

theorem performWith_meets {reply reply' : Request → Exec Value} (hreply : Replies t s reply reply')
    (r : Routine) {known : Value → Prop} (hr : r.Honest known) (answers : List Value)
    (hk : ∀ v, known v → Nameable t (answers ++ own) v) (hm : m.Within t s (answers ++ own)) :
    Meets t (performWith reply answers r) (performWith reply' answers r)
      (fun v m' => m'.Within t s (v :: own)) (fun _ m' => m'.Within t s own) m := by
  induction r generalizing known answers m with
  | finish v =>
    have hv := (hk v hr).has hm
    refine Meets.next (retain_eq m v) ?_
    have hm1 := (hm.retain hv).perm (List.perm_middle : (answers ++ v :: own).Perm _)
    exact Meets.next (releaseAll_eq _ answers) (Meets.of_ok rfl hm1.releaseAll)
  | fail e => exact Meets.next (releaseAll_eq m answers) (Meets.of_fail hm.releaseAll)
  | ask q next ih =>
    obtain ⟨hnames, hok, herr⟩ := hr
    have hanswer := hreply q _ m hm fun v hv => hk v (hnames v hv)
    unfold performWith
    refine Meets.bind (Meets.mono (Meets.attempt hanswer) ?_ fun _ _ he => he)
    intro res m1 hm1
    cases res with
    | ok v =>
      refine ih (.ok v) (hok v) (v :: answers) ?_ hm1
      intro w hw
      rcases hw with hw | rfl
      · rcases hk w hw with h | h | h
        · exact .inl h
        · exact .inr (.inl (List.mem_cons_of_mem _ h))
        · exact .inr (.inr h)
      · exact .inr (.inl List.mem_cons_self)
    | error e => exact ih (.error e) (herr e) answers hk hm1.1

theorem performWith_performs {reply reply' : Request → Exec Value}
    (hreply : ∀ s, Replies t s reply reply') : Performs t (performWith reply []) (performWith reply' []) :=
  fun s _ _ r hm hr => performWith_meets (hreply s) r hr [] (fun _ hv => hv) hm

theorem perform_performs (hc : Faithful t call call') :
    Performs t (perform call []) (perform call' []) := by
  have hreply : Performs t (performWith (answer call) []) (performWith (answer call') []) :=
    performWith_performs fun _ _ _ _ hm hr => answer_keeps hc hm hr
  rwa [← funext (perform_eq call []), ← funext (perform_eq call' [])] at hreply

/-! ## The call -/

theorem Meets.inNative {α : Type} {act act' : Exec α} {Q : α → Machine → Prop}
    {F : ScriptError → Machine → Prop}
    (h : Meets t act act' (fun a m' => Q a { m' with nativeDepth := m'.nativeDepth - 1 })
      (fun e m' => F e { m' with nativeDepth := m'.nativeDepth - 1 })
      { m with nativeDepth := m.nativeDepth + 1 }) :
    Meets t (inNative act) (inNative act') Q F m := by
  obtain ⟨heq, h2⟩ := h
  unfold Meets Exec.inNative
  rw [heq]
  cases hm : act { m with nativeDepth := m.nativeDepth + 1 } with
  | ok a m1 =>
    rw [hm] at h2
    exact ⟨rfl, h2⟩
  | error e m1 =>
    rw [hm] at h2
    cases e with
    | script e => exact ⟨rfl, h2⟩
    | outsideStack => exact ⟨rfl, h2⟩
    | outOfSteps => exact ⟨rfl, trivial⟩

theorem checkDepth_reads :
    Reads t checkDepth (fun _ => m.frames.length + m.nativeDepth < m.config.maxCallDepth) m := by
  unfold checkDepth
  by_cases h : m.config.maxCallDepth ≤ m.frames.length + m.nativeDepth
  · refine .inr ⟨depthError m.config.maxCallDepth, ?_,
      fun _ => ScriptError.not_raw_of_kind ErrorKind.noConfusion⟩
    rw [bind_ok m (show (get : Exec Machine) m = .ok m m from rfl), if_pos h]
    rfl
  · refine .inl ⟨(), ?_, by omega⟩
    rw [bind_ok m (show (get : Exec Machine) m = .ok m m from rfl), if_neg h]
    rfl

/-- What is filled in are default values. -/
theorem fill_eq (n : NativeObject) (missing : Nat) (args : List Value) :
    ∃ extra, n.fill missing args = args ++ extra ∧
      ∀ v ∈ extra, v ∈ n.defaults.map (·.2) := by
  induction missing generalizing args with
  | zero => exact ⟨[], by simp [NativeObject.fill], by simp⟩
  | succ missing ih =>
    unfold NativeObject.fill
    split
    · rename_i v hv
      obtain ⟨extra, heq, hextra⟩ := ih (args ++ [v])
      refine ⟨v :: extra, by rw [heq, List.append_assoc]; rfl, ?_⟩
      intro w hw
      rcases List.mem_cons.1 hw with rfl | hw
      · obtain ⟨l1, l2, hl, -⟩ := List.lookup_eq_some_iff.1 hv
        exact List.mem_map.2 ⟨(args.length, w), by rw [hl]; simp, rfl⟩
      · exact hextra w hw
    · exact ⟨[], by simp, by simp⟩

theorem filled_eq (n : NativeObject) (args : List Value) :
    ∃ extra, n.filled args = args ++ extra ∧ ∀ v ∈ extra, v ∈ n.defaults.map (·.2) := by
  unfold NativeObject.filled
  split
  · exact ⟨[], by simp, by simp⟩
  · exact fill_eq n _ args

theorem prepare_eq {n : NativeObject} {args accepted : List Value}
    (h : n.prepare args = .ok accepted) : accepted = n.filled args := by
  unfold NativeObject.prepare at h
  dsimp only at h
  split at h
  · split at h
    · exact (Except.ok.inj h).symm
    · cases h
  · cases h

theorem callNative_keeps {run run' : Routine → Exec Value} (hrun : Performs t run run') {r : Ref}
    {args : List Value} (hm : m.Within t s (args ++ own)) (hr : m.heap.Has (.native r)) :
    Keeps t s own (callNative run r args) (callNative run' r args) (fun (v : Value) => [v]) m := by
  obtain ⟨n, hbody⟩ := hr.native
  have hn := Heap.native?_eq_some.2 hbody
  have hhonest : Honest t.host n.behaviour := (hm.backs.bodies r _ hbody).2
  obtain ⟨extra, hfilled, hextra⟩ := filled_eq n args
  have hlive : ∀ v ∈ extra, m.heap.Has v := by
    intro v hv
    refine hm.has_body hbody ?_
    simp only [Body.values, List.mem_cons]
    exact .inr (.inr (hextra v hv))
  unfold callNative
  refine .readHeap ?_
  rw [hn]
  simp only [hfilled, List.drop_left]
  refine .retainAll hm hlive fun m1 hm1 _ => .owning ?_
  have hm2 : m1.Within t s ((args ++ extra).reverse ++ own) := by
    refine hm1.mono (le_of_eq ?_)
    simp only [← Multiset.coe_add, Multiset.coe_reverse]
    ac_rfl
  refine .reading checkDepth_reads hm2 fun _ hd => Meets.tracing (Meets.bind ?_)
  cases hprep : n.prepare args with
  | error e => exact Meets.of_fail ⟨hm2, fun _ => e.leave_not_raw _⟩
  | ok accepted =>
    have hacc : accepted = args ++ extra := (prepare_eq hprep).trans hfilled
    subst hacc
    refine Meets.of_ok rfl (Meets.inNative ?_)
    refine Meets.mono (hrun s.deeper _ _ _ (hm2.deeper hd) ?_) (fun v m3 hm3 => hm3.shallower)
      fun e m3 hm3 => ⟨hm3.shallower, fun _ => e.leave_not_raw _⟩
    refine (hhonest _).mono fun v hv => ?_
    rcases hv with hv | hv | hv
    · exact .inl hv
    · exact .inr (.inl (List.mem_append_left _ (List.mem_reverse.2 hv)))
    · exact .inr (.inr hv)

end Exec

end ScriptMachine
