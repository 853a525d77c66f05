import ScriptMachine.Proofs.Machine.Hosting

/-!
# Host operations at two machines

What a host asks of two machines in order comes to the same at both, and both stay in
order: operations that call, as far as calls come to the same, and those that only read,
make or change objects, since what the host names lives in both.
-/

set_option autoImplicit false

namespace ScriptMachine

variable {φ : Fault} {t : Terms} {s s' : Scope} {own vs : List Value} {m m' : Machine}

/-- A native is made and entered in a dict of both heaps. -/
theorem Heap.Mirrors.install {P : NativeObject → Prop} {l : Law} {h h' : Heap}
    {held held' : Multiset Value} {f : NativeFunction} {table : Ref} (hm : h.Mirrors P h')
    (hb : h.Backs l held) (hb' : h'.Backs l held') (hd : ∀ v ∈ f.defaults.map (·.2), h.Shared h' v)
    (hl : ∀ name docs, l.native ⟨name, docs, f.behaviour, f.params, f.mask, f.defaults⟩)
    (hP : ∀ name docs, P ⟨name, docs, f.behaviour, f.params, f.mask, f.defaults⟩)
    (ht : .dict table ∈ held) (ht' : .dict table ∈ held') :
    Mirrors P ((h.newNative f).2.dictInsertChars table f.name (.native (h.newNative f).1))
      ((h'.newNative f).2.dictInsertChars table f.name (.native (h'.newNative f).1)) := by
  have hnew := (hb.newNative (fun v hv => (hd v hv).1) hl).backs
  have hnew' := (hb'.newNative (fun v hv => (hd v hv).2) hl).backs
  obtain ⟨hr, hm1⟩ := hm.newNative hP
  obtain ⟨es, hes⟩ := (hnew.has (v := .dict table) (by simp [ht])).dict
  obtain ⟨es', hes'⟩ := (hnew'.has (v := .dict table) (by simp [ht'])).dict
  cases hm1.same _ _ _ hes hes'
  simp only at hr
  rw [hr]
  exact hm1.dictInsertChars hes hes' _ _

namespace Exec

open ScriptMachine.Machine (Level Peers Shared)

variable {α β : Type} {act act' : Exec α} {call call' : Caller}

/-! ## Actions at two machines -/

/-- The action comes to the same at two machines in order, and leaves each in order. -/
structure Concerted (φ : Fault) (t : Terms) (s s' : Scope) (own : List Value) (act act' : Exec α)
    (gives : α → List Value) (m m' : Machine) : Prop where
  echo : EchoAt NativeObject.IsFrank φ act act' m m'
  left : Keeps t s own act act gives m
  right : Keeps t s' own act' act' gives m'

namespace Concerted

variable {gives : α → List Value} {gives' : β → List Value} {f f' : α → Exec β}

/-- A first part that cannot fail. -/
theorem next {a : α} {n n' : Machine} (h : act m = .ok a n) (h' : act' m' = .ok a n')
    (hf : Concerted φ t s s' own (f a) (f' a) gives' n n') :
    Concerted φ t s s' own (act >>= f) (act' >>= f') gives' m m' :=
  ⟨.next h h' hf.echo, .next h hf.left, .next h' hf.right⟩

/-- Both go on from what they read. -/
theorem get {f f' : Machine → Exec β} (hf : Concerted φ t s s' own (f m) (f' m') gives' m m') :
    Concerted φ t s s' own (MonadState.get >>= f) (MonadState.get >>= f') gives' m m' :=
  ⟨.get hf.echo, .get hf.left, .get hf.right⟩

theorem readHeap {g : Heap → α} (hg : g m'.heap = g m.heap)
    (hf : Concerted φ t s s' own (f (g m.heap)) (f' (g m.heap)) gives' m m') :
    Concerted φ t s s' own (Exec.readHeap g >>= f) (Exec.readHeap g >>= f') gives' m m' :=
  next (show Exec.readHeap g m = .ok (g m.heap) m from rfl)
    (show _ = EStateM.Result.ok (g m.heap) m' by rw [← hg]; rfl) hf

theorem retain {v : Value} {f f' : Unit → Exec β} (hl : Level NativeObject.IsFrank t s s' own m m')
    (hv : v ∈ own) (hf : ∀ n n', Level NativeObject.IsFrank t s s' (v :: own) n n' →
      Concerted φ t s s' own (f ()) (f' ()) gives' n n') :
    Concerted φ t s s' own (Exec.retain v >>= f) (Exec.retain v >>= f') gives' m m' :=
  next (retain_eq m v) (retain_eq m' v) (hf _ _ (hl.retain (hl.shared hv)))

theorem retainAll {vs : List Value} {f f' : Unit → Exec β}
    (hl : Level NativeObject.IsFrank t s s' own m m') (hvs : ∀ v ∈ vs, v ∈ own)
    (hf : ∀ n n', Level NativeObject.IsFrank t s s' (vs ++ own) n n' →
      Concerted φ t s s' own (f ()) (f' ()) gives' n n') :
    Concerted φ t s s' own (Exec.retainAll vs >>= f) (Exec.retainAll vs >>= f') gives' m m' :=
  next (retainAll_eq m vs) (retainAll_eq m' vs)
    (hf _ _ (hl.retainAll fun v hv => hl.shared (hvs v hv)))

theorem of_reads {G G' : α → Prop} (hl : Level NativeObject.IsFrank t s s' own m m')
    (h : EchoAt NativeObject.IsFrank φ act act' m m') (hr : Reads t act G m) (hr' : Reads t act' G' m') :
    Concerted φ t s s' own act act' (fun _ => []) m m' := by
  have hkeeps : ∀ {s : Scope} {n : Machine} {act : Exec α} {G : α → Prop}, n.Within t s own →
      Reads t act G n → Keeps t s own act act (fun _ => []) n := by
    intro s n act G hn hr
    rcases hr with ⟨a, ha, -⟩ | ⟨e, he, hraw⟩
    · exact Meets.of_ok ha hn
    · exact Meets.of_error he ⟨hn, hraw⟩
  exact ⟨h, hkeeps hl.left hr, hkeeps hl.right hr'⟩

/-- The answer is made of what the action gives. -/
theorem answering (h : Concerted φ t s s' own act act' gives m m') (f : α → Answer)
    (hf : ∀ a, (f a).gives = gives a) :
    Concerted φ t s s' own (act >>= fun a => pure (f a)) (act' >>= fun a => pure (f a)) Answer.gives
      m m' where
  echo := h.echo.seq fun a _ _ hn => .pure hn (f a)
  left := .bind h.left fun a _ hm => .pure (by rwa [hf])
  right := .bind h.right fun a _ hm => .pure (by rwa [hf])

theorem pure (hl : Level NativeObject.IsFrank t s s' own m m') (a : Answer) (ha : a.gives = []) :
    Concerted φ t s s' own (Pure.pure a) (Pure.pure a) Answer.gives m m' :=
  ⟨.pure hl.twin a, .pure (by rw [ha]; exact hl.left), .pure (by rw [ha]; exact hl.right)⟩

theorem sharing {v : Value} (hl : Level NativeObject.IsFrank t s s' own m m') (hv : Shared m m' v) :
    Concerted φ t s s' own (Exec.sharing v) (Exec.sharing v) (fun w => [w]) m m' :=
  ⟨sharing_echo hl.twin v, sharing_keeps hl.left hv.1, sharing_keeps hl.right hv.2⟩

theorem offering {o : Option Value} (hl : Level NativeObject.IsFrank t s s' own m m')
    (ho : ∀ v, o = some v → Shared m m' v) :
    Concerted φ t s s' own (Exec.offering o) (Exec.offering o) Answer.gives m m' := by
  cases o with
  | none => exact .pure hl _ rfl
  | some v => exact (sharing hl (ho v rfl)).answering _ fun _ => rfl

/-- An operation that keeps both heaps in order and does the same to them. -/
theorem operating {own' : List Value} {g : Heap → α × Heap} (f : α → Answer)
    (hl : Level NativeObject.IsFrank t s s' own' m m')
    (hg : Heap.Mirrored NativeObject.IsFrank g m.heap m'.heap)
    (hk : ∀ {s : Scope} {n : Machine}, n.Within t s own' →
      (∀ v, Shared m m' v → n.heap.Has v) →
        (n.withHeap (g n.heap).2).Within t s ((f (g n.heap).1).gives ++ own)) :
    Concerted φ t s s' own (Exec.heap g >>= fun a => Pure.pure (f a))
      (Exec.heap g >>= fun a => Pure.pure (f a)) Answer.gives m m' where
  echo := (heap_echo hl.twin hg).seq fun a _ _ hn => .pure hn (f a)
  left := .next (heap_eq m g) (.pure (hk hl.left fun _ hv => hv.1))
  right := .next (heap_eq m' g) (.pure (hk hl.right fun _ hv => hv.2))

end Concerted

/-! ## Running and registering -/

theorem closureOf_keeps (hlax : ¬ t.strict) (hm : m.Within t s own) (p : Prototype) :
    Keeps t s own (closureOf p) (closureOf p) (fun v => [v]) m := by
  unfold closureOf
  split
  · refine Meets.of_ok (heap_eq m _) (hm.heap_cons ?_)
    exact Heap.Backs.newClosure (hm.backs.mono (by simp)) fun h => absurd h hlax
  · exact Meets.of_fail ⟨hm, fun h => absurd h hlax⟩

theorem closureOf_echo (ht : m.Twin NativeObject.IsFrank m') (p : Prototype) :
    EchoAt NativeObject.IsFrank φ (closureOf p) (closureOf p) m m' := by
  unfold closureOf
  split
  · obtain ⟨hr, hm⟩ := ht.mirrors.newClosure p [] []
    exact heap_echo ht ⟨congrArg Value.closure hr, hm⟩
  · exact .fail ht _

theorem runWith_keeps (hlax : ¬ t.strict) (hc : Faithful t call call') (hm : m.Within t s own)
    (p : Prototype) : Keeps t s own (runWith p call) (runWith p call') (fun v => [v]) m := by
  unfold runWith
  refine .bind (.noting (closureOf_keeps hlax hm p)) fun f m1 hm1 => .owning (.get ?_)
  have hroot := hm1.has_root Machine.globals_mem_roots
  refine .holding hm1 (by simpa using hroot) fun m2 hm2 hw => .get ?_
  exact callNoting_keeps hc hm2 (hm2.has (by simp))
    (by simpa using hm2.has_root Machine.globals_mem_roots)

theorem runWith_echo (hφ : ∀ e : ScriptError, φ ≠ .script e) (hlax : ¬ t.strict)
    (hc : Accord NativeObject.IsFrank φ t call call') (hl : Level NativeObject.IsFrank t s s' own m m')
    (p : Prototype) : EchoAt NativeObject.IsFrank φ (runWith p call) (runWith p call') m m' := by
  unfold runWith
  refine .keeping (.noting hφ (closureOf_echo hl.twin p)) (.noting (closureOf_keeps hlax hl.left p))
    (.noting (closureOf_keeps hlax hl.right p)) fun f n n' hn => .owning (.get ?_)
  rw [hn.twin.root_eq]
  refine .holding hn (by simpa using hn.shared_globals) fun n1 n1' hn1 _ => .get ?_
  rw [hn1.twin.root_eq]
  exact callNoting_echo hφ hc hn1 (hn1.shared (by simp)) (by simpa using hn1.shared_globals)

/-! ## Registering -/

/-- A dict in which natives are registered. -/
def IsTable (m : Machine) (d : Ref) : Prop := d = m.root ∨ d ∈ m.delegates

theorem IsTable.root {d : Ref} (h : IsTable m d) : .dict d ∈ m.roots := by
  rcases h with rfl | h
  · exact Machine.globals_mem_roots
  · exact Machine.table_mem_roots h

theorem IsTable.across {d : Ref} (h : IsTable m d) (ht : m.Twin NativeObject.IsFrank m') :
    IsTable m' d := by
  rwa [IsTable, ht.root_eq, ht.delegates_eq]

theorem isTable_method (ht : Tabled m) (tag : TypeTag) :
    IsTable m ((m.delegates[tag.index]?).getD ⟨0⟩) := by
  have hlt : tag.index < m.delegates.length := by
    rw [ht]
    cases tag <;> decide
  rw [List.getElem?_eq_getElem hlt]
  exact .inr (List.getElem_mem hlt)

/-- A native is made at both machines. -/
theorem install_level (hl : Level NativeObject.IsFrank (.open False []) s s' own m m') {table : Ref}
    (htable : IsTable m table) {f : NativeFunction} (hf : Frank f.behaviour)
    (hd : ∀ v ∈ f.defaults.map (·.2), v ∈ own) :
    ∃ h h', install table f m = .ok () (m.withHeap h) ∧ install table f m' = .ok () (m'.withHeap h') ∧
      Level NativeObject.IsFrank (.open False []) s s' own (m.withHeap h) (m'.withHeap h') := by
  have hlive := fun v hv => hl.shared (hd v hv)
  have hbeside : ∀ {n : Machine}, IsTable n table →
      .dict table ∈ (own : Multiset Value) + ((Terms.open False []).host + n.roots) := fun h =>
    Multiset.mem_add.2 (.inr (Multiset.mem_add.2 (.inr h.root)))
  have htable' := htable.across hl.twin
  have hm := hl.twin.mirrors.install hl.left.backs hl.right.backs hlive (fun _ _ => hf.honest)
    (fun _ _ => hf) (hbeside htable) (hbeside htable')
  have hleft := hl.left.backs.install (fun v hv => (hlive v hv).1) (fun _ _ => hf.honest)
    (hbeside htable)
  have hright := hl.right.backs.install (fun v hv => (hlive v hv).2) (fun _ _ => hf.honest)
    (hbeside htable')
  exact ⟨_, _, updateHeap_eq m _, updateHeap_eq m' _, hl.twin.withHeap hm, hl.left.heap hleft,
    hl.right.heap hright⟩

/-- A native is registered at both machines, or refused. -/
theorem registerIn_concerted (hl : Level NativeObject.IsFrank (.open False []) s s' own m m')
    {table : Ref} (htable : IsTable m table) {f : NativeFunction} (hf : Frank f.behaviour)
    (hd : ∀ v ∈ f.defaults.map (·.2), v ∈ own) (refusal : String) :
    Concerted φ (.open False []) s s' own (registerIn table refusal f) (registerIn table refusal f)
      (fun _ => []) m m' := by
  have hlive : Shared m m' (.dict table) :=
    ⟨hl.left.has_root htable.root, hl.right.has_root (htable.across hl.twin).root⟩
  unfold registerIn
  refine .readHeap (by rw [hl.abreast.dictGet?_eq hlive]) ?_
  split
  · exact ⟨.pure hl.twin _, .pure hl.left, .pure hl.right⟩
  · obtain ⟨h, h', heq, heq', hn⟩ := install_level hl htable hf hd
    exact .next heq heq' ⟨.pure hn.twin _, .pure hn.left, .pure hn.right⟩

/-! ## Operations -/

/-- The operands that there are, and null, are held. -/
structure Supplied (vs own : List Value) : Prop where
  given : ∀ v ∈ vs, v ∈ own
  null : .null ∈ own

theorem Supplied.operand (hs : Supplied vs own) (i : Nat) : HostOp.operand vs i ∈ own := by
  unfold HostOp.operand
  cases hi : vs[i]? with
  | none => exact hs.null
  | some v => exact hs.given v (List.mem_of_getElem? hi)

theorem Supplied.defaults (hs : Supplied vs own) (f : NativeFunction) (positions : List Nat) :
    ∀ v ∈ (HostOp.withDefaults f positions vs).defaults.map (·.2), v ∈ own := by
  intro v hv
  obtain ⟨e, he, rfl⟩ := List.mem_map.1 hv
  exact hs.given _ (List.of_mem_zip (b := e.2) (a := e.1) he).2

theorem HostOp.class?_eq {v : Value} {cls : Ref} (h : HostOp.class? v = some cls) :
    v = .classObject cls := by
  cases v <;> cases h
  rfl

theorem HostOp.cell?_eq {v : Value} {c : Ref} (h : HostOp.cell? v = some c) : v = .outer c := by
  cases v <;> cases h
  rfl

theorem Answer.stored_gives (r : Except SlotError Bool) : (Answer.stored r).gives = [] := by
  cases r <;> rfl

theorem Answer.taken_gives (r : Except SlotError (Option Value)) :
    (Answer.taken r).gives = Heap.taken r := by
  rcases r with _ | _ | _ <;> rfl

section

variable (hl : Level NativeObject.IsFrank (.open False []) s s' own m m')
include hl

theorem body?_eq {v : Value} (hv : Shared m m' v) :
    v.ref?.bind m'.heap.body? = v.ref?.bind m.heap.body? := by
  cases hr : v.ref? with
  | none => rfl
  | some r => exact hl.abreast.body?_eq hv hr

theorem global_concerted (name : String) :
    Concerted φ (.open False []) s s' own (global? name >>= offering) (global? name >>= offering)
      Answer.gives m m' := by
  have hread := hl.abreast.dictGet?_eq hl.shared_globals name
  refine .next (a := m.heap.dictGet? m.root name) rfl ?_ (.offering hl fun v hv => ?_)
  · rw [← hread, ← hl.twin.root_eq]
    rfl
  · exact ⟨hl.left.backs.has_dictGet hv, hl.right.backs.has_dictGet (hread.trans hv)⟩

theorem delegate_concerted (tag : TypeTag) (name : String) :
    Concerted φ (.open False []) s s' own (delegate? tag name >>= offering)
      (delegate? tag name >>= offering) Answer.gives m m' := by
  have hread : ((m'.delegates[tag.index]?).bind fun d => m'.heap.dictGet? d name) =
      (m.delegates[tag.index]?).bind fun d => m.heap.dictGet? d name := by
    rw [hl.twin.delegates_eq]
    cases hd : m.delegates[tag.index]? with
    | none => rfl
    | some d => exact hl.abreast.dictGet?_eq (hl.shared_table (List.mem_of_getElem? hd)) name
  have hlive : ∀ {n : Machine} {v : Value}, (n.delegates[tag.index]?).bind
      (fun d => n.heap.dictGet? d name) = some v → ∀ {held : Multiset Value},
        n.heap.Backs (Terms.open False []).law held → n.heap.Has v := by
    intro n v hv held hb
    obtain ⟨d, -, hget⟩ := Option.bind_eq_some_iff.1 hv
    exact hb.has_dictGet hget
  refine .next (a := (m.delegates[tag.index]?).bind fun d => m.heap.dictGet? d name) rfl ?_
    (.offering hl fun v hv => ?_)
  · rw [← hread]
    rfl
  · exact ⟨hlive hv hl.left.backs, hlive (hread.trans hv) hl.right.backs⟩

theorem registerGlobal_concerted {f : NativeFunction} (hf : Frank f.behaviour)
    (hd : ∀ v ∈ f.defaults.map (·.2), v ∈ own) :
    Concerted φ (.open False []) s s' own (registerGlobal f) (registerGlobal f) (fun _ => []) m m' := by
  refine .get ?_
  rw [hl.twin.root_eq]
  exact registerIn_concerted hl (.inl rfl) hf hd _

theorem registerMethod_concerted (htabled : Tabled m) (tag : TypeTag) {f : NativeFunction}
    (hf : Frank f.behaviour) (hd : ∀ v ∈ f.defaults.map (·.2), v ∈ own) :
    Concerted φ (.open False []) s s' own (registerMethod tag f) (registerMethod tag f)
      (fun _ => []) m m' := by
  refine .get ?_
  rw [hl.twin.delegates_eq]
  exact registerIn_concerted hl (isTable_method htabled tag) hf hd _

theorem register_concerted (htabled : Tabled m) (tag : Option TypeTag) {f : NativeFunction}
    (hf : Frank f.behaviour) (hd : ∀ v ∈ f.defaults.map (·.2), v ∈ own) :
    Concerted φ (.open False []) s s' own (tag.elim (registerGlobal f) (registerMethod · f))
      (tag.elim (registerGlobal f) (registerMethod · f)) (fun _ => []) m m' := by
  cases tag with
  | none => exact registerGlobal_concerted hl hf hd
  | some tag => exact registerMethod_concerted hl htabled tag hf hd

theorem closure_concerted (hs : Supplied vs own) (p : Prototype) (cells : Nat) :
    Concerted φ (.open False []) s s' own ((HostOp.closure p cells).act call vs)
      ((HostOp.closure p cells).act call' vs) Answer.gives m m' := by
  unfold HostOp.act
  dsimp only
  refine .retainAll hl ?_ fun n n' hn => ?_
  · intro v hv
    rcases List.mem_append.1 hv with hv | hv
    · obtain ⟨c, hc, rfl⟩ := List.mem_map.1 hv
      obtain ⟨w, hw, hcell⟩ := List.mem_filterMap.1 hc
      exact HostOp.cell?_eq hcell ▸ hs.given w (List.mem_of_mem_take hw)
    · exact hs.given v (List.mem_of_mem_drop hv)
  · exact .operating (fun r => .value (.closure r)) hn (hn.twin.mirrors.newClosure _ _ _) fun hk _ =>
      hk.heap_cons (Heap.Backs.newClosure hk.backs_append fun h => h.elim)

theorem store_concerted (hs : Supplied vs own) (place : Place) :
    Concerted φ (.open False []) s s' own ((HostOp.store place).act call vs)
      ((HostOp.store place).act call' vs) Answer.gives m m' := by
  refine .retain hl (hs.operand 1) fun n n' hn => ?_
  have hheld : ∀ {rest : Multiset Value}, HostOp.operand vs 0 ∈ (own : Multiset Value) + rest :=
    Multiset.mem_add.2 (.inl (hs.operand 0))
  refine .operating .stored hn (hn.twin.mirrors.store hn.left.backs_cons hn.right.backs_cons hheld
    hheld place) fun {s k} hk _ => ?_
  rw [Answer.stored_gives]
  exact hk.heap (hk.backs_cons.store hheld place)

end

theorem setGlobal_concerted {v : Value}
    (hl : Level NativeObject.IsFrank (.open False []) s s' (v :: own) m m') (name : String) :
    Concerted φ (.open False []) s s' own (setGlobal name v) (setGlobal name v) (fun _ => []) m m' := by
  obtain ⟨es, hes⟩ := hl.shared_globals.1.dict
  have hes' := (hl.abreast.body?_eq hl.shared_globals rfl).trans hes
  have hk : ∀ {s : Scope} {n : Machine}, n.Within (.open False []) s (v :: own) →
      (n.withHeap (n.heap.dictInsertChars n.root name v)).Within (.open False []) s own := fun hn =>
    hn.heap (hn.backs_cons.dictInsertChars
      (Multiset.mem_add.2 (.inr (Multiset.mem_add.2 (.inr Machine.globals_mem_roots)))))
  have hright := hk hl.right
  rw [hl.twin.root_eq] at hright
  refine .get ?_
  rw [hl.twin.root_eq]
  exact ⟨updateHeap_echo hl.twin (hl.twin.mirrors.dictInsertChars hes hes' name v),
    Meets.of_ok (updateHeap_eq m _) (hk hl.left), Meets.of_ok (updateHeap_eq m' _) hright⟩

/-- A host operation comes to the same at two machines in order. -/
theorem act_concerted (hφ : ∀ e : ScriptError, φ ≠ .script e)
    (hc : Accord NativeObject.IsFrank φ (.open False []) call call')
    (hl : Level NativeObject.IsFrank (.open False []) s s' own m m') (hs : Supplied vs own)
    (htabled : Tabled m) (q : HostOp) :
    Concerted φ (.open False []) s s' own (q.act call vs) (q.act call' vs) Answer.gives m m' := by
  have hshared : ∀ i, Shared m m' (HostOp.operand vs i) := fun i => hl.shared (hs.operand i)
  have hlax : ¬ (Terms.open False []).strict := id
  cases q with
  | run p =>
    exact .answering ⟨runWith_echo hφ hlax hc hl p, runWith_keeps hlax hc.left hl.left p,
      runWith_keeps hlax hc.right hl.right p⟩ _ fun _ => rfl
  | closureOf p =>
    exact .answering ⟨closureOf_echo hl.twin p, closureOf_keeps hlax hl.left p,
      closureOf_keeps hlax hl.right p⟩ _ fun _ => rfl
  | call =>
    have hargs : ∀ v ∈ vs.drop 1, Shared m m' v := fun v hv =>
      hl.shared (hs.given v (List.mem_of_mem_drop hv))
    exact .answering ⟨callNoting_echo hφ hc hl (hshared 0) hargs,
      callNoting_keeps hc.left hl.left (hshared 0).1 fun v hv => (hargs v hv).1,
      callNoting_keeps hc.right hl.right (hshared 0).2 fun v hv => (hargs v hv).2⟩ _ fun _ => rfl
  | get =>
    exact .answering ⟨getMember_echo hc hl (hshared 0) (hshared 1),
      getMember_keeps hc.left hl.left (hshared 0).1 (hshared 1).1,
      getMember_keeps hc.right hl.right (hshared 0).2 (hshared 1).2⟩ _ fun _ => rfl
  | set =>
    refine .retain hl (hs.operand 2) fun n n' hn => ?_
    exact .answering ⟨setMember_echo hc hn (hs.operand 0) (hs.operand 1),
      setMember_keeps hc.left hn.left (hs.operand 0) (hs.operand 1),
      setMember_keeps hc.right hn.right (hs.operand 0) (hs.operand 1)⟩ _ fun _ => rfl
  | newSlot =>
    refine .retain hl (hs.operand 2) fun n n' hn => ?_
    exact .answering ⟨newSlot_echo hc hn (hs.operand 0) (hs.operand 1),
      newSlot_keeps hc.left hn.left (hs.operand 0) (hs.operand 1),
      newSlot_keeps hc.right hn.right (hs.operand 0) (hs.operand 1)⟩ _ fun _ => rfl
  | newMember isStatic =>
    unfold HostOp.act
    cases hcls : HostOp.class? (HostOp.operand vs 0) with
    | none => exact .pure hl _ rfl
    | some cls =>
      have ho : .classObject cls ∈ own := HostOp.class?_eq hcls ▸ hs.operand 0
      refine .retainAll hl (by simp [hs.operand]) fun n n' hn => ?_
      exact .answering ⟨newClassMember_echo hc hn ho (hs.operand 1),
        newClassMember_keeps hc.left hn.left ho (hs.operand 1),
        newClassMember_keeps hc.right hn.right ho (hs.operand 1)⟩ _ fun _ => rfl
  | delete =>
    exact .answering ⟨deleteSlot_echo hc hl (hshared 0) (hshared 1),
      deleteSlot_keeps hc.left hl.left (hshared 0).1 (hshared 1).1,
      deleteSlot_keeps hc.right hl.right (hshared 0).2 (hshared 1).2⟩ _ fun _ => rfl
  | has =>
    have hreads : ∀ n : Machine, Reads (.open False []) (hasMember (HostOp.operand vs 0)
        (HostOp.operand vs 1)) (fun _ => True) n := fun _ => .inl ⟨_, rfl, trivial⟩
    exact .answering (.of_reads hl (hasMember_echo hl (hshared 0) _) (hreads m) (hreads m')) _
      fun _ => rfl
  | arith op =>
    exact .answering ⟨arithOp_echo hc hl (hshared 0) (hshared 1),
      arithOp_keeps hc.left hl.left (hshared 0).1 (hshared 1).1,
      arithOp_keeps hc.right hl.right (hshared 0).2 (hshared 1).2⟩ _ fun _ => rfl
  | negate =>
    exact .answering ⟨negateOp_echo hc hl (hshared 0), negateOp_keeps hc.left hl.left (hshared 0).1,
      negateOp_keeps hc.right hl.right (hshared 0).2⟩ _ fun _ => rfl
  | compare =>
    exact .answering ⟨compareOp_echo hc hl (hshared 0) (hshared 1),
      compareOp_keeps hc.left hl.left (hshared 0).1 (hshared 1).1,
      compareOp_keeps hc.right hl.right (hshared 0).2 (hshared 1).2⟩ _ fun _ => rfl
  | typeOf =>
    exact .answering ⟨typeOf_echo hc hl (hshared 0), typeOf_keeps hc.left hl.left (hshared 0).1,
      typeOf_keeps hc.right hl.right (hshared 0).2⟩ _ fun _ => rfl
  | instanceOf =>
    exact .answering (.of_reads hl (instanceOf_echo hl _ (hshared 1)) (instanceOf_reads _ _)
      (instanceOf_reads _ _)) _ fun _ => rfl
  | subclass =>
    unfold HostOp.act
    cases hcls : HostOp.class? (HostOp.operand vs 0) with
    | none => exact .pure hl _ rfl
    | some cls =>
      cases HostOp.class? (HostOp.operand vs 1) with
      | none => exact .pure hl _ rfl
      | some other =>
        have ho := HostOp.class?_eq hcls ▸ hshared 0
        exact .readHeap (hl.abreast.isSubclassWithin_eq other _ ho) (.pure hl _ rfl)
  | text =>
    exact .answering ⟨displayText_echo hc hl (hshared 0),
      displayText_keeps hc.left hl.left (hshared 0).1,
      displayText_keeps hc.right hl.right (hshared 0).2⟩ _ fun _ => rfl
  | deepEqual => exact .readHeap (hl.abreast.deepEqual_eq (hshared 0) (hshared 1)) (.pure hl _ rfl)
  | inspect look =>
    refine .readHeap (body?_eq hl (hshared 0)) (.pure hl _ ?_)
    cases (HostOp.operand vs 0).ref?.bind m.heap.body? <;> rfl
  | root =>
    refine .get ?_
    rw [hl.twin.root_eq]
    exact .answering (.sharing hl hl.shared_globals) _ fun _ => rfl
  | global name => exact global_concerted hl name
  | setGlobal name =>
    refine .retain hl (hs.operand 0) fun n n' hn => ?_
    exact .answering (setGlobal_concerted hn name) _ fun _ => rfl
  | delegate tag name => exact delegate_concerted hl tag name
  | register tag f frank positions =>
    exact .answering (register_concerted hl htabled tag (f := HostOp.withDefaults f positions vs)
      frank (hs.defaults f positions)) Answer.registered fun r => by cases r <;> rfl
  | native f frank positions =>
    have hd := fun v hv => hl.shared (hs.defaults f positions v hv)
    refine .operating (fun r => .value (.native r)) hl (hl.twin.mirrors.newNative fun _ _ => frank) ?_
    intro s n hn hlive
    exact hn.heap_cons (hn.backs.newNative (fun v hv => hlive v (hd v hv)) fun _ _ => frank.honest)
  | string chars =>
    exact .operating .value hl (hl.twin.mirrors.newString chars) fun hn _ =>
      hn.heap_cons (hn.backs.newString chars)
  | array =>
    refine .retainAll hl hs.given fun n n' hn => ?_
    refine .operating .value hn (hn.twin.mirrors.newArray _) fun hk _ => hk.heap_cons ?_
    exact Heap.Backs.newArray (by simpa using hk.backs_append)
  | dict =>
    exact .operating (fun r => .value (.dict r)) hl hl.twin.mirrors.newDict fun hn _ =>
      hn.heap_cons hn.backs.newDict
  | classObject constructor =>
    have hbase : ∀ b, HostOp.class? (HostOp.operand vs 0) = some b → Shared m m' (.classObject b) :=
      fun b hb => HostOp.class?_eq hb ▸ hshared 0
    exact .operating (fun r => .value (.classObject r)) hl (hl.abreast.newClass constructor hbase)
      fun hn hlive => hn.heap_cons (hn.backs.newClass fun b hb => hlive _ (hbase b hb))
  | instanceObject =>
    unfold HostOp.act
    cases hcls : HostOp.class? (HostOp.operand vs 0) with
    | none => exact .pure hl _ rfl
    | some cls =>
      have ho := HostOp.class?_eq hcls ▸ hshared 0
      exact .operating (fun r => .value (.instanceObject r)) hl (hl.abreast.newInstance ho)
        fun hn hlive => hn.heap_cons (hn.backs.newInstance (hlive _ ho))
  | cell =>
    refine .retain hl (hs.operand 0) fun n n' hn => ?_
    refine .operating (fun r => .value (.outer r)) hn (hn.twin.mirrors.newOuter _) fun hk _ =>
      hk.heap_cons ?_
    exact Heap.Backs.allocateLinked (b := .outer (.closed _)) (by simpa [Body.values] using hk.backs_cons)
      rfl trivial rfl rfl fun i hi => by cases hi
  | closure p cells => exact closure_concerted hl hs p cells
  | copy =>
    exact .operating .value hl (hl.abreast.deepCopy (hshared 0)) fun hn hlive =>
      hn.heap_cons (hn.backs.deepCopy (hlive _ (hshared 0))).1
  | lock =>
    unfold HostOp.act
    cases hcls : HostOp.class? (HostOp.operand vs 0) with
    | none => exact .pure hl _ rfl
    | some cls =>
      have ho := HostOp.class?_eq hcls ▸ hshared 0
      exact .operating (fun _ => .done) hl ⟨rfl, hl.abreast.lockFrom _ ho⟩ fun hn _ =>
        hn.heap (hn.backs.lockFrom _ _).1
  | store place => exact store_concerted hl hs place
  | takeOut portion =>
    refine .operating .taken hl (hl.abreast.takeOut (hshared 0) portion) fun {s n} hn hlive => ?_
    rw [Answer.taken_gives]
    exact hn.heap_append (hn.backs.takeOut (hlive _ (hshared 0)) portion)
  | follow way =>
    refine .readHeap (congrArg (Option.bind · way.find) (body?_eq hl (hshared 0))) ?_
    refine .offering hl fun v hv => ?_
    obtain ⟨b, hb, hfind⟩ := Option.bind_eq_some_iff.1 hv
    obtain ⟨r, hr, hbody⟩ := Option.bind_eq_some_iff.1 hb
    exact hl.abreast.within (hshared 0) hr hbody (way.holds b v hfind)
  | interrupt =>
    have htwin := hl.twin.update (f := fun n => { n with interrupted := true }) (fun _ _ => rfl) rfl
    refine .next (a := ()) rfl rfl ?_
    exact .pure ⟨htwin, hl.left.told true m.output, hl.right.told true m'.output⟩ _ rfl

end Exec

end ScriptMachine
