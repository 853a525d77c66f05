import ScriptMachine.Proofs.Machine.Moments
import ScriptMachine.Proofs.Machine.Tandem
import ScriptMachine.Proofs.Machine.Timeless

/-!
# Runs at two machines

An alarmed run at one machine and the same run at another, where natives name what
they hold. Unless the first ends by the alarm, both come to the same: at every call
and every instruction what one of them still uses lives in the other, however often
either collects.
-/

set_option autoImplicit false

namespace ScriptMachine

/-- The native names what it is called with. -/
def NativeObject.IsFrank (n : NativeObject) : Prop := Frank n.behaviour

variable {φ : Fault} {t : Terms} {s s' : Scope}

namespace Machine

/-- A value that needs no object, or one that is owned. -/
def Held (own : List Value) (v : Value) : Prop := v.ref? = none ∨ v ∈ own

theorem Level.shared_held {P : NativeObject → Prop} {own : List Value} {m m' : Machine} {v : Value}
    (hl : Level P t s s' own m m') (hv : Held own v) : Shared m m' v :=
  hv.elim (fun hv => Heap.shared_plain hv) fun hv => hl.shared hv

/-- One native more runs at both machines. -/
theorem Level.deeper {P : NativeObject → Prop} {own : List Value} {m m' : Machine}
    (hl : Level P t s s' own m m')
    (hd : m.frames.length + m.nativeDepth < m.config.maxCallDepth)
    (hd' : m'.frames.length + m'.nativeDepth < m'.config.maxCallDepth) :
    Level P t s.deeper s'.deeper own { m with nativeDepth := m.nativeDepth + 1 }
      { m' with nativeDepth := m'.nativeDepth + 1 } where
  twin := hl.twin.update (f := fun n => { n with nativeDepth := n.nativeDepth + 1 })
    (fun _ _ => rfl) rfl
  left := hl.left.deeper hd
  right := hl.right.deeper hd'

theorem Held.nameable {own : List Value} {v : Value} (hv : Held own v) : Exec.Nameable t own v :=
  hv.imp_right .inl

end Machine

namespace Heap

theorem lengthOf_eq {P : NativeObject → Prop} {l : Law} {h h' : Heap} {r : Ref}
    (ha : Abreast P l h h') (hr : Shared h h' (.array r) ∨ Shared h h' (.dict r)) :
    Exec.lengthOf h' r = Exec.lengthOf h r := by
  rw [Exec.lengthOf, Exec.lengthOf]
  rcases hr with hr | hr
  · rw [ha.body?_eq hr rfl]
  · rw [ha.body?_eq hr rfl]

/-- An instance is of the class that it was made of. -/
theorem instance?_newInstance (h : Heap) (cls : Ref) :
    ∃ vs, (h.newInstance cls).2.instance? (h.newInstance cls).1 = some (cls, vs) := by
  unfold newInstance
  dsimp only
  generalize (h.lock cls).deepCopyAll _ = d
  refine ⟨d.1, ?_⟩
  unfold instance?
  rw [body?_allocateLinked, if_pos]
  rfl

end Heap

namespace Exec

open ScriptMachine.Machine (Level Peers Shared Held)

variable {α β : Type} {m m' : Machine} {own : List Value} {call call' : Caller}

/-! ## Requests -/

section

variable {P : NativeObject → Prop}

theorem callNoting_echo (hφ : ∀ e : ScriptError, φ ≠ .script e) (hc : Accord P φ t call call')
    {f : Value} {args : List Value} (hl : Level P t s s' own m m') (hf : Shared m m' f)
    (hargs : ∀ v ∈ args, Shared m m' v) :
    EchoAt P φ (callNoting call f args) (callNoting call' f args) m m' := by
  have hall : ∀ v ∈ (if args.isEmpty then [.null] else args), Shared m m' v := by
    split
    · have hnull : Shared m m' .null := Heap.shared_plain rfl
      simpa using hnull
    · exact hargs
  unfold callNoting
  exact .retainingAll hl hall fun n n' hn hw => .noting hφ (hc.echo hn (hw f hf))

/-- Both answer a request that is not about lifetimes alike. -/
theorem answer_echo (hφ : ∀ e : ScriptError, φ ≠ .script e) (hc : Accord P φ t call call')
    {q : Request} (hl : Level P t s s' own m m') (hq : q.Knows (Shared m m'))
    (hlife : q.concernsLifetimes = false) : EchoAt P φ (answer call q) (answer call' q) m m' := by
  have ht := hl.twin
  unfold answer
  cases q with
  | call f args => exact callNoting_echo hφ hc hl hq.1 hq.2
  | newArray items =>
    exact (retainAll_echo ht items).seq fun _ _ _ hn => heap_echo hn (hn.mirrors.newArray _)
  | newString chars => exact newString_echo ht chars
  | push r v =>
    refine (retain_echo ht v).seq fun _ _ _ hn => ?_
    exact (updateHeap_echo hn (hn.mirrors.pushItem r v)).seq fun _ _ _ hn1 => .pure hn1 _
  | length r => exact .readHeap (Heap.lengthOf_eq hl.abreast hq) (.pure ht _)
  | «attribute» r a =>
    refine heap_echo ht ?_
    simp only [Heap.Mirrored, hl.abreast.native?_eq hq]
    cases m.heap.native? r with
    | none => exact ⟨rfl, ht.mirrors⟩
    | some n => exact hl.abreast.nativeAttribute n a
  | display v => exact .readHeap (hl.abreast.display_eq hq) (newString_echo ht _)
  | deepEqual a b => exact .readHeap (hl.abreast.deepEqual_eq hq.1 hq.2) (.pure ht _)
  | root =>
    refine .get ?_
    rw [ht.root_eq]
    exact sharing_echo ht _
  | interrupt => exact (modify_echo ht (fun _ _ => rfl) rfl).seq fun _ _ _ hn => .pure hn _
  | emit line => exact (modify_echo ht (fun _ _ => rfl) rfl).seq fun _ _ _ hn => .pure hn _
  | weaken | target | live | collect => cases hlife

/-! ## Routines -/

/-- Requests that name what is held are answered alike. -/
def RepliesAlike (P : NativeObject → Prop) (φ : Fault) (t : Terms) (s s' : Scope)
    (reply reply' : Request → Exec Value) : Prop :=
  ∀ (q : Request) (own : List Value) (m m' : Machine), Level P t s s' own m m' → q.Knows (Held own) →
    EchoAt P φ (reply q) (reply' q) m m'

theorem performWith_echo (hφ : ∀ e : ScriptError, φ ≠ .script e) {reply reply' : Request → Exec Value}
    (hleft : Replies t s reply reply) (hright : Replies t s' reply' reply')
    (halike : RepliesAlike P φ t s s' reply reply') (r : Routine) {known : Value → Prop}
    (hr : r.Frank known) (answers : List Value) (hk : ∀ v, known v → Held (answers ++ own) v)
    (hl : Level P t s s' (answers ++ own) m m') :
    EchoAt P φ (performWith reply answers r) (performWith reply' answers r) m m' := by
  induction r generalizing known answers m m' with
  | finish v =>
    refine (retain_echo hl.twin v).seq fun _ _ _ hn => ?_
    exact (releaseAll_echo hn answers).seq fun _ _ _ hn1 => .pure hn1 v
  | fail e => exact (releaseAll_echo hl.twin answers).seq fun _ _ _ hn => .fail hn e
  | ask q next ih =>
    obtain ⟨hq, hok, herr⟩ := hr
    have hq' := hq.mono hk
    have hnames : ∀ v ∈ q.names, Nameable t (answers ++ own) v := fun v hv => (hq'.names v hv).nameable
    have hkeeps : Meets t (attempt _) (attempt _) _ (fun _ _ => False) m :=
      .attempt (hleft q _ m hl.left hnames)
    have hkeeps' : Meets t (attempt _) (attempt _) _ (fun _ _ => False) m' :=
      .attempt (hright q _ m' hl.right hnames)
    unfold performWith
    refine (EchoAt.attempt hφ (halike q _ m m' hl hq')).bind fun res n n' heq heq' hn => ?_
    have hn1 := hkeeps.done heq
    have hn1' := hkeeps'.done heq'
    cases res with
    | ok v =>
      refine ih (.ok v) (hok v) (v :: answers) (fun w hw => ?_) ⟨hn, hn1, hn1'⟩
      rcases hw with hw | rfl
      · exact (hk w hw).imp_right (List.mem_cons_of_mem _)
      · exact .inr List.mem_cons_self
    | error e => exact ih (.error e) (herr e) answers hk ⟨hn, hn1.1, hn1'.1⟩

end

/-! ## Calling natives -/

/-- Routines that name what is held run alike. -/
def RunsAlike (φ : Fault) (t : Terms) (run run' : Routine → Exec Value) : Prop :=
  ∀ (s s' : Scope) (own : List Value) (m m' : Machine) (r : Routine),
    Level NativeObject.IsFrank t s s' own m m' → r.Frank (Held own) →
      EchoAt NativeObject.IsFrank φ (run r) (run' r) m m'

/-- A native that lives in both machines. -/
theorem native_shared {r : Ref} (hl : Level NativeObject.IsFrank t s s' own m m')
    (hr : Shared m m' (.native r)) : ∃ n, m.heap.native? r = some n ∧ n.IsFrank ∧
      ∀ v ∈ n.defaults.map (·.2), Shared m m' v := by
  obtain ⟨n, hbody⟩ := hr.1.native
  refine ⟨n, Heap.native?_eq_some.2 hbody, hl.twin.mirrors.bodies r _ hbody, fun v hv => ?_⟩
  refine hl.abreast.within hr rfl hbody ?_
  simp only [Body.values, List.mem_cons]
  exact .inr (.inr hv)

theorem callNative_echo (hφ : ∀ e : ScriptError, φ ≠ .script e) {run run' : Routine → Exec Value}
    (hrun : RunsAlike φ t run run') {r : Ref} {args : List Value}
    (hl : Level NativeObject.IsFrank t s s' (args ++ own) m m') (hr : Shared m m' (.native r)) :
    EchoAt NativeObject.IsFrank φ (callNative run r args) (callNative run' r args) m m' := by
  obtain ⟨n, hn, hfrank, hdefaults⟩ := native_shared hl hr
  obtain ⟨extra, hfilled, hextra⟩ := filled_eq n args
  unfold callNative
  refine .readHeap (hl.abreast.native?_eq hr) ?_
  rw [hn]
  simp only [hfilled, List.drop_left]
  refine .retainingAll hl (fun v hv => hdefaults v (hextra v hv)) fun m1 m1' hl1 _ => .owning ?_
  have hl2 : Level NativeObject.IsFrank t s s' ((args ++ extra).reverse ++ own) m1 m1' := by
    refine hl1.mono (le_of_eq ?_)
    simp only [← Multiset.coe_add, Multiset.coe_reverse]
    ac_rfl
  refine .reading (checkDepth_echo hl2.twin) (checkDepth_reads (t := t)) checkDepth_reads
    fun _ hd hd' => .tracing hφ ?_
  cases hprep : n.prepare args with
  | error e => exact (EchoAt.fail hl2.twin e).bind fun _ _ _ heq _ _ => by cases heq
  | ok accepted =>
    have hacc : accepted = args ++ extra := (prepare_eq hprep).trans hfilled
    subst hacc
    have hgiven : ∀ n, ofExcept (.ok (args ++ extra)) n = .ok (args ++ extra) n := fun _ => rfl
    refine .next (hgiven _) (hgiven _) (.inNative (hrun _ _ _ _ _ _ (hl2.deeper hd hd') ?_))
    refine (hfrank _).mono fun v hv => hv.imp_right fun hv => ?_
    exact List.mem_append_left _ (List.mem_reverse.2 hv)

/-! ## Calling classes and instances -/

section

variable {P : NativeObject → Prop}

theorem withReceiver_echo (ht : m.Twin P m') (this : Value) (args : List Value) :
    EchoAt P φ (withReceiver this args) (withReceiver this args) m m' := by
  unfold withReceiver
  refine (retain_echo ht this).seq fun _ _ _ hn => ?_
  split
  · exact .pure hn _
  · exact (release_echo hn _).seq fun _ _ _ hn1 => .pure hn1 _

/-- Both make an instance of a class that lives in both, and goes on living. -/
theorem EchoAt.newInstance {cls : Ref} {f f' : Ref → Exec β} (hl : Level P t s s' own m m')
    (hcls : Shared m m' (.classObject cls))
    (hf : ∀ r n n', Level P t s s' (.instanceObject r :: own) n n' → Shared n n' (.classObject cls) →
      EchoAt P φ (f r) (f' r) n n') :
    EchoAt P φ (Exec.heap (fun (h : Heap) => h.newInstance cls) >>= f)
      (Exec.heap (fun (h : Heap) => h.newInstance cls) >>= f') m m' := by
  have hm := hl.abreast.newInstance hcls
  have hleft : (m.withHeap (m.heap.newInstance cls).2).Within t s
      (.instanceObject (m.heap.newInstance cls).1 :: own) :=
    hl.left.heap_cons (hl.left.backs.newInstance hcls.1)
  have hright : (m'.withHeap (m'.heap.newInstance cls).2).Within t s'
      (.instanceObject (m'.heap.newInstance cls).1 :: own) :=
    hl.right.heap_cons (hl.right.backs.newInstance hcls.2)
  rw [show (m'.heap.newInstance cls).1 = (m.heap.newInstance cls).1 from hm.1] at hright
  refine .operating hl hm hleft hright fun hn => hf _ _ _ hn ?_
  obtain ⟨vs, hinst⟩ := Heap.instance?_newInstance m.heap cls
  exact hn.abreast.class_shared (hn.shared List.mem_cons_self) hinst

theorem construct_echo (hc : Accord P φ t call call') {cls : Ref} {args : List Value}
    (hl : Level P t s s' (args ++ own) m m') (hcls : Shared m m' (.classObject cls)) :
    EchoAt P φ (construct call cls args) (construct call' cls args) m m' := by
  unfold construct
  refine .newInstance hl hcls fun r n n' hn hclass => ?_
  have hn1 : Level P t s s' (args ++ .instanceObject r :: own) n n' := hn.perm List.perm_middle
  refine .readHeap (congrArg (·.bind ClassObject.constructor?) (hn.abreast.class?_eq hclass)) ?_
  split
  · exact (releaseAll_echo hn.twin args).seq fun _ _ _ hn2 => .pure hn2 _
  · rename_i f hf
    have hctor : Shared n n' f := ⟨hn.left.backs.has_constructor hf,
      hn.right.backs.has_constructor (by rwa [hn.abreast.class?_eq hclass])⟩
    refine (EchoAt.handing (.holding hn1 (by simpa using hctor) fun k k' hk hw => ?_)).seq
      fun _ _ _ hn2 => .pure hn2 _
    have hargs : Level P t s s' (args ++ f :: .instanceObject r :: own) k k' := hk.perm List.perm_middle
    have hlive := hargs.shared (v := .instanceObject r) (by simp)
    refine .keeping (withReceiver_echo hargs.twin _ args) (withReceiver_keeps hargs.left hlive.1)
      (withReceiver_keeps hargs.right hlive.2) fun vs n1 n1' hn2 => ?_
    exact (hc.echo hn2 (hn2.shared (by simp))).seq fun v _ _ hn3 => release_echo hn3 v

theorem callInstance_echo (hc : Accord P φ t call call') {this : Value} {args : List Value}
    (hl : Level P t s s' (args ++ own) m m') (ht : Shared m m' this) :
    EchoAt P φ (callInstance call this args) (callInstance call' this args) m m' := by
  unfold callInstance
  refine .readHeap (hl.abreast.metaOf?_eq ht .call) ?_
  split
  · exact (releaseAll_echo hl.twin args).seq fun _ _ _ hn => .fail hn _
  · rename_i f hf
    refine .holding hl (by simpa using hl.abreast.metaOf?_shared ht hf) fun n n' hn hw => ?_
    have hargs := hn.perm (List.perm_middle : (args ++ f :: own).Perm _)
    have hlive := hw _ ht
    refine .keeping (withReceiver_echo hargs.twin _ args) (withReceiver_keeps hargs.left hlive.1)
      (withReceiver_keeps hargs.right hlive.2) fun vs n1 n1' hn1 => ?_
    exact hc.echo hn1 (hn1.shared (by simp))

/-! ## Entering from outside -/

theorem EchoAt.cuttingBack {act act' : Exec α} {height : Nat} (h : EchoAt P φ act act' m m') :
    EchoAt P φ (Exec.cuttingBack height act) (Exec.cuttingBack height act') m m' := by
  unfold EchoAt at h ⊢
  unfold Exec.cuttingBack
  generalize act m = x at h ⊢
  generalize act' m' = y at h ⊢
  cases h with
  | ok ht => exact .ok ht
  | error ht =>
    simp only [truncate_eq]
    exact .error (ht.cut height)
  | escaped =>
    simp only [truncate_eq]
    exact .escaped

theorem enter_echo {c : Ref} {args : List Value} (hp : Peers P t (args ++ own) m m')
    (hc : Shared m m' (.closure c)) : EchoAt P φ (enter c args) (enter c args) m m' := by
  unfold enter
  have hsize' : stackSize m' = .ok m.stack.size m' := by
    rw [← hp.twin.stack_eq]
    rfl
  refine .next (show stackSize m = .ok m.stack.size m from rfl) hsize' ?_
  refine .next (pushValues_eq m args) (pushValues_eq m' args) (.next (retain_eq _ _) (retain_eq _ _) ?_)
  have hpushed : Peers P t own (m.pushed args) (m'.pushed args) :=
    ⟨hp.twin.pushed args, hp.left.pushed, hp.right.pushed⟩
  exact .cuttingBack (pushFrame_echo (hpushed.retain hc) _ _ _ _)

end

/-- Functions run at both machines, which are at the same point. -/
structure BothRun (P : NativeObject → Prop) (t : Terms) (m0 m0' : Machine) (own : List Value)
    (m m' : Machine) : Prop where
  twin : m.Twin P m'
  left : Machine.Above t m0 own m
  right : Machine.Above t m0' own m'
  roomy : m.Roomy
  roomy' : m'.Roomy

/-- Going on comes to the same at two machines where functions run. -/
def InParallel (φ : Fault) (t : Terms) (exec exec' : Exec Value) : Prop :=
  ∀ {m0 m0' : Machine} {own : List Value} {m m' : Machine},
    BothRun NativeObject.IsFrank t m0 m0' own m m' → EchoAt NativeObject.IsFrank φ exec exec' m m'

/-- A call of any value at both machines. -/
theorem callWith_echo (hφ : ∀ e : ScriptError, φ ≠ .script e)
    (hc : Accord NativeObject.IsFrank φ t call call') {exec exec' : Exec Value}
    (he : InParallel φ t exec exec') {run run' : Routine → Exec Value} (hrun : RunsAlike φ t run run')
    {callee : Value} {args : List Value} (hl : Level NativeObject.IsFrank t s s' (args ++ own) m m')
    (hcallee : Shared m m' callee) :
    EchoAt NativeObject.IsFrank φ (callWith exec run call callee args)
      (callWith exec' run' call' callee args) m m' := by
  unfold callWith
  cases callee with
  | closure r =>
    dsimp only
    refine (enter_echo hl.peers hcallee).bind fun _ n n' heq heq' hn => ?_
    have hn1 := (enter_meets hl.left.toTidy hcallee.1).done heq
    have hn1' := (enter_meets hl.right.toTidy hcallee.2).done heq'
    exact he ⟨hn, hn1.1, hn1'.1, hn1.2, hn1'.2⟩
  | native r => exact callNative_echo hφ hrun hl hcallee
  | classObject r => exact construct_echo hc hl hcallee
  | instanceObject r => exact callInstance_echo hc hl hcallee
  | null | integer n | float x | complex z | bool b | string s | space s | weak w | array r | dict r
  | outer r | prototype r p =>
    exact (releaseAll_echo hl.twin args).seq fun _ _ _ hn => .fail hn _

/-! ## Steps -/

section

variable {P : NativeObject → Prop} {m0 m0' : Machine}

theorem BothRun.peers (ha : BothRun P t m0 m0' own m m') : Peers P t own m m' :=
  ⟨ha.twin, ha.left.toTidy, ha.right.toTidy⟩

theorem checkInterrupt_echo (ht : m.Twin P m') :
    EchoAt P φ checkInterrupt checkInterrupt m m' := by
  unfold checkInterrupt
  refine .get ?_
  rw [show m'.interrupted = m.interrupted from ht.same (f := fun m => m.interrupted) fun _ _ => rfl]
  split
  · exact (modify_echo ht (fun _ _ => rfl) rfl).seq fun _ _ _ hn => .fail hn _
  · exact .pure ht ()

theorem returnedValue_echo (ht : m.Twin P m') (base : Nat) (r : Int64) :
    EchoAt P φ (returnedValue base r) (returnedValue base r) m m' := by
  unfold returnedValue
  split
  · exact (register_echo ht r).seq fun v _ _ hn => sharing_echo hn v
  · exact .pure ht _

/-- An instruction of the current function at both machines. -/
theorem instruction_echo (hc : Accord P φ t call call') (hlax : ¬ t.strict)
    (ha : BothRun P t m0 m0' own m m') {f : Frame} {rest : List Frame} (hf : m.frames = f :: rest)
    (i : Instruction) :
    EchoAt P φ
      (if i.opcode = .ret then do returnFromFrame (← returnedValue f.base i.arg0)
        else do
          effect call f.base i
          return .next)
      (if i.opcode = .ret then do returnFromFrame (← returnedValue f.base i.arg0)
        else do
          effect call' f.base i
          return .next) m m' := by
  have hf' : m'.frames = f :: rest := ha.twin.frames_eq.trans hf
  have hl := ha.peers.level (.upFrom f.base) True
  obtain ⟨g, seg, c, hframes, -, hcl, hp⟩ := ha.left.current
  obtain ⟨rfl, -⟩ := List.cons_eq_cons.1 (hf.symm.trans hframes)
  have hcl' : m'.heap.closure? f.closure = some c :=
    (hl.abreast.closure?_eq (hl.shared_running (hf ▸ List.mem_cons_self))).trans hcl
  have hs : RunBoth t ⟨m, .upFrom f.base, True⟩ ⟨m', .upFrom f.base, True⟩ c f.base :=
    ⟨Machine.Above.runs ha.roomy hf hcl hp, Machine.Above.runs ha.roomy' hf' hcl' hp, hlax⟩
  split
  · exact .keeping (returnedValue_echo hl.twin _ _)
      (returnedValue_keeps hs.left hl.left fun h => absurd h hlax)
      (returnedValue_keeps hs.right hl.right fun h => absurd h hlax)
      fun v n n' hn => returnFromFrame_echo hn.peers
  · have heffect : EchoAt P φ (effect call f.base i) (effect call' f.base i) m m' := by
      by_cases hcall : i.opcode = .call
      · rw [effect, effect, hcall]
        exact callInstruction_echo hc hs hl
      by_cases htail : i.opcode = .tailCall
      · rw [effect, effect, htail]
        exact tailCallInstruction_echo hc hs hl hf rfl
      exact effect_echo hc hs hl hcall htail
    exact heffect.seq fun _ _ _ hn => .pure hn _

/-- The next instruction is fetched. -/
theorem BothRun.fetched (ha : BothRun P t m0 m0' own m m') {f : Frame} {rest : List Frame}
    (hf : m.frames = f :: rest) : BothRun P t m0 m0' own
      (m.withFrames ({ f with ip := f.ip + 1 } :: rest))
      (m'.withFrames ({ f with ip := f.ip + 1 } :: rest)) := by
  have hside : ∀ {k0 k : Machine}, Machine.Above t k0 own k → k.Roomy → k.frames = f :: rest →
      Machine.Above t k0 own (k.withFrames ({ f with ip := f.ip + 1 } :: rest)) ∧
        (k.withFrames ({ f with ip := f.ip + 1 } :: rest)).Roomy := by
    intro k0 k hk hroomy hkf
    have hw : (k.withFrames ({ f with ip := f.ip + 1 } :: rest)).Within t
        ⟨k, .upFrom f.base, True⟩ own :=
      ⟨hk.toTidy.reframe hkf rfl rfl, .withFrames _, .inr ⟨trivial, f, _, _, hkf, rfl⟩, rfl⟩
    exact ⟨hk.of_within hkf hw, Machine.Above.roomy_of_within hroomy hkf hw⟩
  obtain ⟨hleft, hroomy⟩ := hside ha.left ha.roomy hf
  obtain ⟨hright, hroomy'⟩ := hside ha.right ha.roomy' (ha.twin.frames_eq.trans hf)
  exact ⟨ha.twin.withFrames _, hleft, hright, hroomy, hroomy'⟩

theorem step_echo (hc : Accord P φ t call call') (hlax : ¬ t.strict)
    (ha : BothRun P t m0 m0' own m m') : EchoAt P φ (step call) (step call') m m' := by
  obtain ⟨f, seg, c, hf, -, -, -⟩ := ha.left.current
  have hf' : m'.frames = f :: (seg ++ m0.frames) := ha.twin.frames_eq.trans hf
  -- an interrupt is noticed at both, or at neither
  have hquiet : ∀ {k k' : Machine}, checkInterrupt k = .ok () k' → k' = k := by
    intro k k' hk
    rw [checkInterrupt_eq] at hk
    split at hk
    · cases hk
    · cases hk
      rfl
  unfold step
  refine (checkInterrupt_echo ha.twin).bind fun _ n n' heq heq' _ => ?_
  cases hquiet heq
  cases hquiet heq'
  refine .next (currentFrame_eq hf) (currentFrame_eq hf') ?_
  split
  · exact returnFromFrame_echo ⟨ha.twin, ha.left.toTidy.own_plain rfl, ha.right.toTidy.own_plain rfl⟩
  · rename_i i _
    refine .next (setIp_eq _ hf) (setIp_eq _ hf') ?_
    exact instruction_echo hc hlax (ha.fetched hf) rfl i

end

/-- One instruction and what comes after it, at both machines. -/
theorem executeWith_echo (hφ : ∀ e : ScriptError, φ ≠ .script e) (hlax : ¬ t.strict)
    (hst : ∀ slot v, t.stores slot v) (hc : Accord NativeObject.IsFrank φ t call call')
    {again again' : Exec Value} (hagain : InParallel φ t again again') {m0 m0' : Machine}
    (ha : BothRun NativeObject.IsFrank t m0 m0' own m m') :
    EchoAt NativeObject.IsFrank φ (executeWith call again) (executeWith call' again') m m' := by
  have hstep := step_echo hc hlax ha
  have hleft := step_meets hc.left ha.left ha.roomy fun slot v _ => hst slot v
  have hright := step_meets hc.right ha.right ha.roomy' fun slot v _ => hst slot v
  unfold EchoAt at hstep ⊢
  unfold executeWith
  cases hx : step call m with
  | ok flow n =>
    cases hy : step call' m' with
    | ok flow' n' =>
      rw [hx, hy] at hstep
      cases hstep with
      | ok hn =>
        have hn1 := hleft.done hx
        have hn1' := hright.done hy
        cases flow with
        | next => exact hagain ⟨hn, hn1.1, hn1'.1, hn1.2, hn1'.2⟩
        | finished v => exact .ok hn
    | error e n' =>
      rw [hx, hy] at hstep
      cases hstep
  | error e n =>
    rw [hx] at hstep
    generalize hy : step call' m' = y at hstep
    cases hstep with
    | error hn =>
      cases e with
      | script e =>
        exact unwinding_echo _ ⟨hn, (hleft.failed hx).toTidy, (hright.failed hy).toTidy⟩
      | outsideStack | outOfSteps => exact .error hn
    | escaped =>
      cases φ with
      | script e => exact absurd rfl (hφ e)
      | outsideStack | outOfSteps => exact .escaped

/-! ## Runs -/

/-- Either the alarmed run ends by the alarm, or both runs come to the same. -/
theorem runs_in_concert (hφ : ∀ e : ScriptError, φ ≠ .script e) (hlax : ¬ t.strict)
    (hst : ∀ slot v, t.stores slot v) (steps : Nat) :
    Accord NativeObject.IsFrank φ t (callAlarmed (throw φ) steps) (callValue steps) ∧
      InParallel φ t (executeAlarmed (throw φ) steps) (execute steps) := by
  have hleft := alarmed_faithful (t := t) hφ hlax hst
  have hright := run_faithful (t := t) hst
  induction steps with
  | zero =>
    refine ⟨⟨(hleft 0).1, (hright 0).1, fun hl _ => ?_⟩, fun ha => ?_⟩
    · rw [callAlarmed, callValue]
      exact .throw hl.twin _
    · rw [executeAlarmed, execute]
      exact .throw ha.twin _
  | succ steps ih =>
    obtain ⟨hc, hp⟩ := ih
    refine ⟨⟨(hleft _).1, (hright _).1, fun hl hcallee => ?_⟩, fun ha => ?_⟩
    · rw [callAlarmed, callValue]
      refine callWith_echo hφ hc hp (fun s s' own m m' r hl hr => ?_) hl hcallee
      rw [perform_eq]
      refine performWith_echo hφ (answerAlarmed_replies hφ hlax hc.left)
        (fun q own m hm hq => answer_keeps hc.right hm hq) (fun q own m m' hl hq => ?_) r hr []
        (fun _ hv => hv) hl
      unfold answerAlarmed
      split
      · exact .escaped
      · rename_i hlife
        exact answer_echo hφ hc hl (hq.mono fun v hv => hl.shared_held hv) (by simpa using hlife)
    · rw [executeAlarmed, execute]
      exact executeWith_echo hφ hlax hst hc hp ha

end Exec

end ScriptMachine
