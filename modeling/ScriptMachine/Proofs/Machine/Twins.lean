import ScriptMachine.Machine.Run
import ScriptMachine.Proofs.Heap.Kindred
import ScriptMachine.Proofs.Machine.Stack

/-!
# Machines at the same point

Two machines that differ in what their heaps have let go, and an action on both. Either
both give the same, and are at the same point again, or the first has escaped by a fault
of its own. What only counts, writes or makes keeps two machines together whatever they
hold.
-/

set_option autoImplicit false

namespace ScriptMachine

variable {P : NativeObject → Prop} {φ : Fault}

namespace Machine

/-- The machine with another heap, which is collected by another rule. -/
def across (m : Machine) (h : Heap) (c : CollectConfig) : Machine :=
  { m with heap := h, config := { m.config with collect := c } }

/-- The machines are at the same point, and their heaps mirror each other. -/
def Twin (P : NativeObject → Prop) (m m' : Machine) : Prop :=
  ∃ h c, m' = m.across h c ∧ m.heap.Mirrors P h

namespace Twin

variable {m m' : Machine} {k k' : Heap}

theorem mirrors (ht : m.Twin P m') : m.heap.Mirrors P m'.heap := by
  obtain ⟨h, c, rfl, hm⟩ := ht
  exact hm

theorem withHeap (ht : m.Twin P m') (hk : k.Mirrors P k') :
    (m.withHeap k).Twin P (m'.withHeap k') := by
  obtain ⟨h, c, rfl, -⟩ := ht
  exact ⟨k', c, rfl, hk⟩

/-- Both are changed alike, apart from their heaps. -/
theorem update (ht : m.Twin P m') {f : Machine → Machine}
    (hf : ∀ h c, f (m.across h c) = (f m).across h c) (hheap : (f m).heap = m.heap) :
    (f m).Twin P (f m') := by
  obtain ⟨h, c, rfl, hm⟩ := ht
  exact ⟨h, c, hf h c, by rwa [hheap]⟩

/-- What is read apart from the heap is the same. -/
theorem same {α : Type} (ht : m.Twin P m') {f : Machine → α}
    (hf : ∀ h c, f (m.across h c) = f m) : f m' = f m := by
  obtain ⟨h, c, rfl, -⟩ := ht
  exact hf h c

theorem stack_eq (ht : m.Twin P m') : m'.stack = m.stack := ht.same fun _ _ => rfl

theorem frames_eq (ht : m.Twin P m') : m'.frames = m.frames := ht.same fun _ _ => rfl

theorem openOuters_eq (ht : m.Twin P m') : m'.openOuters = m.openOuters := ht.same fun _ _ => rfl

theorem root_eq (ht : m.Twin P m') : m'.root = m.root := ht.same fun _ _ => rfl

theorem delegates_eq (ht : m.Twin P m') : m'.delegates = m.delegates := ht.same fun _ _ => rfl

theorem retain (ht : m.Twin P m') (v : Value) :
    (m.withHeap (m.heap.retain v)).Twin P (m'.withHeap (m'.heap.retain v)) :=
  ht.withHeap (ht.mirrors.retain v)

theorem release (ht : m.Twin P m') (v : Value) :
    (m.withHeap (m.heap.release v)).Twin P (m'.withHeap (m'.heap.release v)) :=
  ht.withHeap (ht.mirrors.release v v)

theorem releaseAll (ht : m.Twin P m') (vs : List Value) :
    (m.withHeap (m.heap.releaseAll vs)).Twin P (m'.withHeap (m'.heap.releaseAll vs)) :=
  ht.withHeap (ht.mirrors.releaseAll vs vs)

end Twin

end Machine

namespace Exec

/-! ## The judgement -/

/-- The first outcome is an escape, or both are the same. -/
inductive Echo {α : Type} (P : NativeObject → Prop) (φ : Fault) :
    EStateM.Result Fault Machine α → EStateM.Result Fault Machine α → Prop
  | ok {a : α} {n n' : Machine} : n.Twin P n' → Echo P φ (.ok a n) (.ok a n')
  | error {f : Fault} {n n' : Machine} : n.Twin P n' → Echo P φ (.error f n) (.error f n')
  | escaped {n : Machine} {r : EStateM.Result Fault Machine α} : Echo P φ (.error φ n) r

/-- What the two actions come to at two machines. -/
def EchoAt {α : Type} (P : NativeObject → Prop) (φ : Fault) (act act' : Exec α)
    (m m' : Machine) : Prop := Echo P φ (act m) (act' m')

variable {α β : Type} {m m' : Machine} {act act' : Exec α} {f f' : α → Exec β}

namespace EchoAt

theorem of_ok {a : α} {n n' : Machine} (h : act m = .ok a n) (h' : act' m' = .ok a n')
    (ht : n.Twin P n') : EchoAt P φ act act' m m' := by
  unfold EchoAt
  rw [h, h']
  exact .ok ht

theorem pure (ht : m.Twin P m') (a : α) :
    EchoAt P φ (Pure.pure a : Exec α) (Pure.pure a) m m' := .ok ht

theorem fail (ht : m.Twin P m') (e : ScriptError) :
    EchoAt P φ (Exec.fail e : Exec α) (Exec.fail e) m m' := .error ht

theorem throw (ht : m.Twin P m') (f : Fault) :
    EchoAt P φ (MonadExcept.throw f : Exec α) (MonadExcept.throw f) m m' := .error ht

/-- The second parts meet the machines that the first parts leave. -/
theorem bind (h : EchoAt P φ act act' m m')
    (hf : ∀ a n n', act m = .ok a n → act' m' = .ok a n' → n.Twin P n' →
      EchoAt P φ (f a) (f' a) n n') : EchoAt P φ (act >>= f) (act' >>= f') m m' := by
  unfold EchoAt at h ⊢
  cases hx : act m with
  | ok a n =>
    cases hy : act' m' with
    | ok b n' =>
      rw [hx, hy] at h
      cases h with
      | ok ht =>
        rw [bind_ok m hx, bind_ok m' hy]
        exact hf a n n' hx hy ht
    | error e n' =>
      rw [hx, hy] at h
      cases h
  | error e n =>
    rw [bind_error m hx]
    cases hy : act' m' with
    | ok b n' =>
      rw [hx, hy] at h
      cases h
      exact .escaped
    | error e' n' =>
      rw [hx, hy] at h
      rw [bind_error m' hy]
      cases h with
      | error ht => exact .error ht
      | escaped => exact .escaped

theorem seq (h : EchoAt P φ act act' m m')
    (hf : ∀ a n n', n.Twin P n' → EchoAt P φ (f a) (f' a) n n') :
    EchoAt P φ (act >>= f) (act' >>= f') m m' := h.bind fun a n n' _ _ ht => hf a n n' ht

/-- A first part that cannot fail. -/
theorem next {a : α} {n n' : Machine} (h : act m = .ok a n) (h' : act' m' = .ok a n')
    (hf : EchoAt P φ (f a) (f' a) n n') : EchoAt P φ (act >>= f) (act' >>= f') m m' := by
  unfold EchoAt at hf ⊢
  rwa [bind_ok m h, bind_ok m' h']

/-- Both go on from what they read. -/
theorem get {f f' : Machine → Exec β} (hf : EchoAt P φ (f m) (f' m') m m') :
    EchoAt P φ (MonadState.get >>= f) (MonadState.get >>= f') m m' := hf

theorem readHeap {g : Heap → α} (hg : g m'.heap = g m.heap)
    (hf : EchoAt P φ (f (g m.heap)) (f' (g m.heap)) m m') :
    EchoAt P φ (Exec.readHeap g >>= f) (Exec.readHeap g >>= f') m m' :=
  have hleft : Exec.readHeap g m = .ok (g m.heap) m := rfl
  next hleft (show _ = EStateM.Result.ok (g m.heap) m' by rw [← hg]; rfl) hf

/-! ### What goes around an action -/

theorem owning {vs : List Value} (h : EchoAt P φ act act' m m') :
    EchoAt P φ (Exec.owning vs act) (Exec.owning vs act') m m' := by
  unfold EchoAt at h ⊢
  unfold Exec.owning
  generalize act m = x at h ⊢
  generalize act' m' = y at h ⊢
  cases h with
  | ok ht =>
    simp only [releaseAll_eq]
    exact .ok (ht.releaseAll _)
  | error ht =>
    simp only [releaseAll_eq]
    exact .error (ht.releaseAll _)
  | escaped =>
    simp only [releaseAll_eq]
    exact .escaped

theorem handing {v : Value} (h : EchoAt P φ act act' m m') :
    EchoAt P φ (Exec.handing v act) (Exec.handing v act') m m' := by
  unfold EchoAt at h ⊢
  unfold Exec.handing
  generalize act m = x at h ⊢
  generalize act' m' = y at h ⊢
  cases h with
  | ok ht => exact .ok ht
  | error ht =>
    simp only [release_eq]
    exact .error (ht.release v)
  | escaped =>
    simp only [release_eq]
    exact .escaped

theorem handingAll {vs : List Value} (h : EchoAt P φ act act' m m') :
    EchoAt P φ (Exec.handingAll vs act) (Exec.handingAll vs act') m m' := by
  unfold EchoAt at h ⊢
  unfold Exec.handingAll
  generalize act m = x at h ⊢
  generalize act' m' = y at h ⊢
  cases h with
  | ok ht => exact .ok ht
  | error ht =>
    simp only [releaseAll_eq]
    exact .error (ht.releaseAll vs)
  | escaped =>
    simp only [releaseAll_eq]
    exact .escaped

theorem restoring {undo : Machine → Machine} (hundo : ∀ n n', n.Twin P n' → (undo n).Twin P (undo n'))
    (h : EchoAt P φ act act' m m') :
    EchoAt P φ (Exec.restoring act undo) (Exec.restoring act' undo) m m' := by
  unfold EchoAt at h ⊢
  unfold Exec.restoring
  generalize act m = x at h ⊢
  generalize act' m' = y at h ⊢
  cases h with
  | ok ht => exact .ok ht
  | error ht => exact .error (hundo _ _ ht)
  | escaped => exact .escaped

theorem inNative (h : EchoAt P φ act act' { m with nativeDepth := m.nativeDepth + 1 }
    { m' with nativeDepth := m'.nativeDepth + 1 }) :
    EchoAt P φ (Exec.inNative act) (Exec.inNative act') m m' := by
  have hdown : ∀ {n n' : Machine}, n.Twin P n' →
      Machine.Twin P { n with nativeDepth := n.nativeDepth - 1 }
        { n' with nativeDepth := n'.nativeDepth - 1 } := fun ht =>
    ht.update (f := fun n => { n with nativeDepth := n.nativeDepth - 1 }) (fun _ _ => rfl) rfl
  unfold EchoAt at h ⊢
  unfold Exec.inNative
  generalize act { m with nativeDepth := m.nativeDepth + 1 } = x at h ⊢
  generalize act' { m' with nativeDepth := m'.nativeDepth + 1 } = y at h ⊢
  cases h with
  | ok ht => exact .ok (hdown ht)
  | error ht => exact .error (hdown ht)
  | escaped => exact .escaped

section

variable (hφ : ∀ e : ScriptError, φ ≠ .script e)

include hφ in
theorem attempt (h : EchoAt P φ act act' m m') :
    EchoAt P φ (Exec.attempt act) (Exec.attempt act') m m' := by
  unfold EchoAt at h ⊢
  unfold Exec.attempt
  generalize act m = x at h ⊢
  generalize act' m' = y at h ⊢
  cases h with
  | ok ht => exact .ok ht
  | @error f _ _ ht =>
    cases f with
    | script e => exact .ok ht
    | outsideStack | outOfSteps => exact .error ht
  | escaped =>
    cases φ with
    | script e => exact absurd rfl (hφ e)
    | outsideStack | outOfSteps => exact .escaped

include hφ in
theorem tracing {entry : TraceEntry} (h : EchoAt P φ act act' m m') :
    EchoAt P φ (Exec.tracing entry act) (Exec.tracing entry act') m m' := by
  unfold EchoAt at h ⊢
  unfold Exec.tracing
  generalize act m = x at h ⊢
  generalize act' m' = y at h ⊢
  cases h with
  | ok ht => exact .ok ht
  | @error f _ _ ht =>
    cases f with
    | script e => exact .error ht
    | outsideStack | outOfSteps => exact .error ht
  | escaped =>
    cases φ with
    | script e => exact absurd rfl (hφ e)
    | outsideStack | outOfSteps => exact .escaped

include hφ in
theorem noting (h : EchoAt P φ act act' m m') :
    EchoAt P φ (Exec.noting act) (Exec.noting act') m m' := by
  unfold EchoAt at h ⊢
  unfold Exec.noting
  generalize act m = x at h ⊢
  generalize act' m' = y at h ⊢
  cases h with
  | ok ht => exact .ok ht
  | @error f n n' ht =>
    cases f with
    | script e =>
      exact .error (ht.update (f := fun n => { n with lastError := some e }) (fun _ _ => rfl) rfl)
    | outsideStack | outOfSteps => exact .error ht
  | escaped =>
    cases φ with
    | script e => exact absurd rfl (hφ e)
    | outsideStack | outOfSteps => exact .escaped

end

end EchoAt

/-! ## Counting -/

section

variable (ht : m.Twin P m')
include ht

theorem retain_echo (v : Value) : EchoAt P φ (retain v) (retain v) m m' :=
  .of_ok (retain_eq m v) (retain_eq m' v) (ht.retain v)

theorem release_echo (v : Value) : EchoAt P φ (release v) (release v) m m' :=
  .of_ok (release_eq m v) (release_eq m' v) (ht.release v)

theorem retainAll_echo (vs : List Value) : EchoAt P φ (retainAll vs) (retainAll vs) m m' :=
  .of_ok (retainAll_eq m vs) (retainAll_eq m' vs) (ht.withHeap (ht.mirrors.retainAll vs))

theorem releaseAll_echo (vs : List Value) : EchoAt P φ (releaseAll vs) (releaseAll vs) m m' :=
  .of_ok (releaseAll_eq m vs) (releaseAll_eq m' vs) (ht.releaseAll vs)

theorem sharing_echo (v : Value) : EchoAt P φ (sharing v) (sharing v) m m' :=
  (retain_echo ht v).seq fun _ _ _ hn => .pure hn v

/-- An operation that does the same to both heaps. -/
theorem heap_echo {g : Heap → α × Heap} (hg : Heap.Mirrored P g m.heap m'.heap) :
    EchoAt P φ (heap g) (heap g) m m' := by
  refine .of_ok (heap_eq m g) ?_ (ht.withHeap hg.2)
  rw [heap_eq, hg.1]

theorem updateHeap_echo {g : Heap → Heap} (hg : (g m.heap).Mirrors P (g m'.heap)) :
    EchoAt P φ (updateHeap g) (updateHeap g) m m' := heap_echo ht ⟨rfl, hg⟩

theorem ofSlot_echo (r : Except SlotError α) : EchoAt P φ (ofSlot r) (ofSlot r) m m' := by
  cases r with
  | ok a => exact .pure ht a
  | error e => exact .fail ht _

theorem ofExcept_echo (r : Except ScriptError α) :
    EchoAt P φ (ofExcept r) (ofExcept r) m m' := by
  cases r with
  | ok a => exact .pure ht a
  | error e => exact .fail ht e

theorem slotHeap_echo {g : Heap → Except SlotError α × Heap}
    (hg : Heap.Mirrored P g m.heap m'.heap) : EchoAt P φ (slotHeap g) (slotHeap g) m m' :=
  (heap_echo ht hg).seq fun r _ _ hn => ofSlot_echo hn r

theorem newString_echo (chars : String) : EchoAt P φ (newString chars) (newString chars) m m' :=
  heap_echo ht (ht.mirrors.newString chars)

/-! ## The stack -/

theorem modify_echo {g : Machine → Machine} (hg : ∀ h c, g (m.across h c) = (g m).across h c)
    (hheap : (g m).heap = m.heap) : EchoAt P φ (modify g) (modify g) m m' :=
  .of_ok (a := ()) rfl rfl (ht.update hg hheap)

theorem stack_echo (g : Array Value → α × Array Value) : EchoAt P φ (stack g) (stack g) m m' := by
  obtain ⟨h, c, rfl, hm⟩ := ht
  exact .ok ⟨h, c, rfl, hm⟩

theorem stackSize_echo : EchoAt P φ stackSize stackSize m m' := by
  obtain ⟨h, c, rfl, hm⟩ := ht
  exact .ok ⟨h, c, rfl, hm⟩

theorem slot?_echo (i : Nat) : EchoAt P φ (slot? i) (slot? i) m m' := by
  obtain ⟨h, c, rfl, hm⟩ := ht
  exact .ok ⟨h, c, rfl, hm⟩

theorem writeSlot_echo (i : Nat) (v : Value) : EchoAt P φ (writeSlot i v) (writeSlot i v) m m' := by
  unfold writeSlot
  refine (slot?_echo ht i).seq fun o n n' hn => ?_
  cases o with
  | none => exact .pure hn false
  | some old =>
    refine (stack_echo hn _).seq fun _ n1 n1' hn1 => ?_
    exact (release_echo hn1 old).seq fun _ _ _ hn2 => .pure hn2 true

theorem takeSlot_echo (i : Nat) : EchoAt P φ (takeSlot i) (takeSlot i) m m' := by
  unfold takeSlot
  refine (slot?_echo ht i).seq fun o n n' hn => ?_
  cases o with
  | none => exact .pure hn none
  | some v => exact (stack_echo hn _).seq fun _ _ _ hn1 => .pure hn1 (some v)

theorem truncate_echo (n : Nat) : EchoAt P φ (truncate n) (truncate n) m m' :=
  (stack_echo ht _).seq fun gone _ _ hn => releaseAll_echo hn gone

theorem growTo_echo (top : Nat) : EchoAt P φ (growTo top) (growTo top) m m' := stack_echo ht _

end

theorem nullSlots_echo (ht : m.Twin P m') (start count : Nat) :
    EchoAt P φ (nullSlots start count) (nullSlots start count) m m' := by
  induction count generalizing start m m' with
  | zero => exact .pure ht ()
  | succ count ih =>
    exact (writeSlot_echo ht start .null).seq fun _ _ _ hn => ih hn (start + 1)

/-! ## Registers and the current frame -/

section

variable (ht : m.Twin P m')
include ht

theorem registerSlot_echo (base : Nat) (r : Int64) :
    EchoAt P φ (registerSlot base r) (registerSlot base r) m m' := by
  unfold registerSlot
  split
  · exact .fail ht _
  · exact .pure ht _

theorem indexArg_echo (arg : Int64) (what : String) :
    EchoAt P φ (indexArg arg what) (indexArg arg what) m m' := by
  unfold indexArg
  split
  · exact .fail ht _
  · exact .pure ht _

theorem setRegister_echo (base : Nat) (r : Int64) (v : Value) :
    EchoAt P φ (setRegister base r v) (setRegister base r v) m m' := by
  unfold setRegister
  refine .handing ((registerSlot_echo ht base r).seq fun i n n' hn => ?_)
  refine (writeSlot_echo hn i v).seq fun found _ _ hn1 => ?_
  cases found with
  | true => exact .pure hn1 ()
  | false => exact .fail hn1 _

theorem setOptional_echo (base : Nat) (r : Int64) (v : Value) :
    EchoAt P φ (setOptional base r v) (setOptional base r v) m m' := by
  unfold setOptional
  split
  · exact setRegister_echo ht base r v
  · exact release_echo ht v

theorem currentFrame_echo : EchoAt P φ currentFrame currentFrame m m' := by
  unfold currentFrame
  refine .get ?_
  rw [ht.frames_eq]
  cases m.frames with
  | nil => exact .fail ht _
  | cons f rest => exact .pure ht f

/-- The current frame changes alike. -/
theorem reframe_echo (g : Frame → Frame) :
    EchoAt P φ
      (modify fun (m : Machine) =>
        match m.frames with
        | f :: rest => { m with frames := g f :: rest }
        | [] => m)
      (modify fun (m : Machine) =>
        match m.frames with
        | f :: rest => { m with frames := g f :: rest }
        | [] => m) m m' := by
  refine modify_echo ht (fun h c => ?_) ?_
  · cases m with
    | mk _ _ _ frames => cases frames <;> rfl
  · cases m.frames <;> rfl

theorem setIp_echo (ip : Nat) : EchoAt P φ (setIp ip) (setIp ip) m m' :=
  reframe_echo ht fun f => { f with ip }

theorem jump_echo (offset : Int64) : EchoAt P φ (jump offset) (jump offset) m m' := by
  unfold jump
  refine (currentFrame_echo ht).seq fun f n n' hn => ?_
  dsimp only
  split
  · exact .fail hn _
  · exact setIp_echo hn _

theorem ofLiteral_echo (l : Literal) : EchoAt P φ (ofLiteral l) (ofLiteral l) m m' := by
  cases l with
  | string s => exact heap_echo ht (ht.mirrors.newString s)
  | space s =>
    obtain ⟨heq, hm⟩ := ht.mirrors.allocate (b := .content) trivial
    exact heap_echo ht (g := fun (h : Heap) =>
      (Value.space (h.allocate .content).1 s, (h.allocate .content).2))
      ⟨congrArg (Value.space · s) heq, hm⟩
  | _ => exact .pure ht _

theorem literal_echo (index : Int64) : EchoAt P φ (literal index) (literal index) m m' := by
  unfold literal
  refine (currentFrame_echo ht).seq fun f n n' hn => ?_
  split
  · exact ofLiteral_echo hn _
  · exact .fail hn _

theorem loadLiteral_echo (base : Nat) (target index : Int64) :
    EchoAt P φ (loadLiteral base target index) (loadLiteral base target index) m m' :=
  (literal_echo ht index).seq fun v _ _ hn => setRegister_echo hn base target v

end

end Exec

end ScriptMachine
