import ScriptMachine.Machine.Members
import ScriptMachine.Proofs.Machine.Slots

/-!
# Members and operators keep the machine in order

What is looked up is lent by the object it is found in, so it is held before
anything is called.
-/

set_option autoImplicit false

namespace ScriptMachine.Exec

variable {α β : Type} {t : Terms} {s : Scope} {own vs : List Value} {m : Machine}
variable {call call' : Caller} {gives : β → List Value}

/-! ## Calls -/

theorem callMeta_keeps (hc : Faithful t call call') {f : Value} {lent : List Value}
    (owned : List Value)
    (hm : m.Within t s (owned ++ own)) (hf : m.heap.Has f) (hl : ∀ v ∈ lent, m.heap.Has v) :
    Keeps t s own (callMeta call f lent owned) (callMeta call' f lent owned)
      (fun (v : Value) => [v]) m := by
  unfold callMeta
  refine .holding hm (by simpa using hf) fun m1 hm1 hw1 => ?_
  refine .retainAll hm1 (fun v hv => hw1 v (hl v hv)) fun m2 hm2 hw2 => ?_
  refine hc s f (lent ++ owned) ([f] ++ own) m2 (hm2.mono (le_of_eq ?_)) (hw2 f (hw1 f hf))
  simp only [← Multiset.coe_add]
  ac_rfl

theorem sharing_keeps {v : Value} (hm : m.Within t s own) (hv : m.heap.Has v) :
    Keeps t s own (sharing v) (sharing v) (fun (w : Value) => [w]) m := by
  unfold sharing
  exact .retain hm hv fun m1 hm1 _ => .pure hm1

/-! ## Reading -/

theorem delegate_reads (hm : m.Within t s own) (tag : TypeTag) (name : String) :
    Reads t (delegate? tag name) (fun o => ∀ v, o = some v → m.heap.Has v) m := by
  refine .inl ⟨_, rfl, fun v hv => ?_⟩
  obtain ⟨d, -, hd⟩ := Option.bind_eq_some_iff.1 hv
  exact hm.backs.has_dictGet hd

theorem keyDelegate_reads (hm : m.Within t s own) (tag : TypeTag) (key : Value) :
    Reads t (keyDelegate? tag key) (fun o => ∀ v, o = some v → m.heap.Has v) m := by
  unfold keyDelegate?
  split
  · exact delegate_reads hm tag _
  · exact .pure fun v hv => by cases hv

theorem getMember_keeps (hc : Faithful t call call') {obj key : Value} (hm : m.Within t s own)
    (ho : m.heap.Has obj) (hk : m.heap.Has key) :
    Keeps t s own (getMember call obj key) (getMember call' obj key) (fun (v : Value) => [v]) m := by
  unfold getMember
  refine .readHeap ?_
  split
  · exact .fail_slot hm
  · rename_i v hv
    exact sharing_keeps hm (hm.backs.has_member hv)
  · refine .readHeap ?_
    split
    · rename_i f hf
      refine callMeta_keeps hc [] hm (hm.backs.has_metaOf hf) ?_
      simp [ho, hk]
    · refine .reading (keyDelegate_reads hm _ key) hm fun o hv => ?_
      split
      · exact sharing_keeps hm (hv _ rfl)
      · exact .readHeap (.fail hm (by simp [missingIndex, ScriptError.member]))

/-! ## Writing -/

theorem storingKey_meets {key : Value} (vs : List Value) (hm : m.Within t s (vs ++ own)) :
    Meets t (storingKey key vs) (storingKey key vs) (fun k m' => m' = m ∧ key = .string k)
      (Fails t s own) m := by
  unfold storingKey
  cases hk : key.keyText with
  | ok k =>
    refine Meets.of_ok rfl ⟨rfl, ?_⟩
    cases key <;> simp only [Value.keyText, Except.ok.injEq, reduceCtorEq] at hk
    exact congrArg Value.string hk
  | error e => exact Meets.next (releaseAll_eq m vs) (Meets.of_fail ⟨hm.releaseAll, fun _ => e.not_raw⟩)

/-- A key that is no string is an error, which lets go of what was to be stored. -/
theorem Keeps.storingKey {key : Value} {f f' : Text → Exec β} (vs : List Value) (hm : m.Within t s (vs ++ own))
    (hf : ∀ k, key = .string k → Keeps t s own (f k) (f' k) gives m) :
    Keeps t s own (storingKey key vs >>= f) (storingKey key vs >>= f') gives m :=
  Meets.bind (Meets.mono (storingKey_meets vs hm) (fun k _ ⟨heq, hk⟩ => heq ▸ hf k hk) fun _ _ he => he)

theorem requireFound_keeps {name : String} {found : Bool} (hm : m.Within t s own) :
    Keeps t s own (requireFound name found) (requireFound name found) (fun _ => []) m := by
  unfold requireFound
  split
  · exact .pure hm
  · exact .fail_slot hm

theorem slotHeap_keeps {g : Heap → Except SlotError α × Heap} {gives : α → List Value}
    (hok : ∀ a, (g m.heap).1 = .ok a → (m.withHeap (g m.heap).2).Within t s (gives a ++ own))
    (hfail : ∀ e, (g m.heap).1 = .error e → (m.withHeap (g m.heap).2).Within t s own) :
    Keeps t s own (slotHeap g) (slotHeap g) gives m := by
  unfold slotHeap
  exact .next (heap_eq m g) (.ofSlot hok hfail)

theorem assignThrough_keeps (hc : Faithful t call call') {obj key v : Value}
    (hm : m.Within t s (v :: own)) (ho : m.heap.Has obj) (hk : m.heap.Has key) :
    Keeps t s own (assignThrough call obj key v) (assignThrough call' obj key v) (fun _ => [])
      m := by
  unfold assignThrough
  refine .readHeap ?_
  split
  · rename_i f hf
    refine .bind (callMeta_keeps hc [v] hm (hm.backs.has_metaOf hf) ?_) ?_
    · simp [ho, hk]
    · exact fun a m1 hm1 => .released hm1
  · refine .release hm fun m1 hm1 => ?_
    exact .readHeap (.fail hm1 (by simp [missingIndex, ScriptError.member]))

/-- Overwriting keeps the order; the object and the key must be held. -/
theorem setMember_keeps (hc : Faithful t call call') {obj key v : Value}
    (hm : m.Within t s (v :: own)) (ho : obj ∈ own) (hk : key ∈ own) :
    Keeps t s own (setMember call obj key v) (setMember call' obj key v) (fun _ => []) m := by
  have hrest : ∀ (stored : Bool) (m1 : Machine), m1.Within t s (v :: own) →
      Keeps t s own (if stored then release v else assignThrough call obj key v)
        (if stored then release v else assignThrough call' obj key v) (fun _ => []) m1 := by
    intro stored m1 hm1
    split
    · exact .released hm1
    · exact assignThrough_keeps hc hm1 (hm1.has (List.mem_cons_of_mem _ ho))
        (hm1.has (List.mem_cons_of_mem _ hk))
  unfold setMember
  split
  · refine .storingKey [v] hm fun k _ => ?_
    refine .heap (hm.heap hm.backs_cons.dictSet) fun m1 hm1 _ => ?_
    exact requireFound_keeps hm1
  · refine .storingKey [v] hm fun k _ => ?_
    refine .heap (hm.heap hm.backs_cons.classSet) fun m1 hm1 _ => ?_
    exact requireFound_keeps hm1
  · rename_i r
    split
    · rename_i i
      have hset : (m.withHeap (m.heap.setItem r i v).2).Within t s own :=
        hm.heap hm.backs_cons.setItem
      exact slotHeap_keeps (fun _ _ => hset) fun _ _ => hset
    · exact .release hm fun m1 hm1 => .fail_slot hm1
  · refine .retain hm (hm.has List.mem_cons_self) fun m1 hm1 hw1 => ?_
    dsimp only
    split
    · exact .heap (hm1.heap hm1.backs_cons.instanceSet) fun m2 hm2 _ => hrest _ m2 hm2
    · exact .release hm1 fun m2 hm2 => .next rfl (hrest false m2 hm2)
  · exact .release hm fun m1 hm1 => .fail hm1 (by simp [ScriptError.typeError])

theorem addMember_keeps {cls : Ref} {k : Text} {v : Value} {isStatic : Bool}
    (hm : m.Within t s (v :: own)) (ho : .classObject cls ∈ own) (hk : .string k ∈ own) :
    Keeps t s own
      (do
        retain (.string k)
        slotHeap fun (h : Heap) => h.classNewSlot cls k v isStatic)
      (do
        retain (.string k)
        slotHeap fun (h : Heap) => h.classNewSlot cls k v isStatic) (fun _ => []) m := by
  refine .retain hm (hm.has (List.mem_cons_of_mem _ hk)) fun m1 hm1 _ => ?_
  have hb := (hm1.perm (List.Perm.swap (.string k) v _)).backs_cons
  rw [coe_cons_add] at hb
  have hnew : (m1.withHeap (m1.heap.classNewSlot cls k v isStatic).2).Within t s own := by
    refine hm1.heap (hb.classNewSlot ?_)
    simp [ho]
  exact slotHeap_keeps (fun _ _ => hnew) fun _ _ => hnew

theorem newClassMember_keeps (hc : Faithful t call call') {cls : Ref} {key v attributes : Value}
    {isStatic : Bool} (hm : m.Within t s (v :: attributes :: own))
    (ho : .classObject cls ∈ own) (hk : key ∈ own) :
    Keeps t s own (newClassMember call cls key v attributes isStatic)
      (newClassMember call' cls key v attributes isStatic) (fun _ => []) m := by
  have hlive : ∀ w ∈ own, m.heap.Has w := fun w hw =>
    hm.has (List.mem_cons_of_mem _ (List.mem_cons_of_mem _ hw))
  unfold newClassMember
  refine .readHeap ?_
  split
  · rename_i f hf
    have hm0 : m.Within t s (v :: attributes :: .bool isStatic :: own) :=
      (hm.own_plain (v := .bool isStatic) rfl).perm (by
        exact ((List.Perm.swap _ _ _).cons _).trans (List.Perm.swap _ _ _))
    refine .bind (callMeta_keeps hc [v, attributes, .bool isStatic] hm0
      (hm.backs.has_classMeta hf) ?_) fun a m1 hm1 => .released hm1
    simp [hlive _ ho, hlive _ hk]
  · refine .storingKey [v, attributes] hm fun k hkey => ?_
    subst hkey
    refine .handed (addMember_keeps hm (List.mem_cons_of_mem _ ho) (List.mem_cons_of_mem _ hk))
      fun m1 hm1 => ?_
    split
    · exact .pure (hm1.drop [attributes])
    · have hset : (m1.withHeap (m1.heap.setMemberAttributes cls k.chars attributes).2).Within t s
          own := hm1.heap hm1.backs_cons.setMemberAttributes
      exact slotHeap_keeps (fun _ _ => hset) fun _ _ => hset

theorem newSlot_keeps (hc : Faithful t call call') {obj key v : Value}
    (hm : m.Within t s (v :: own)) (ho : obj ∈ own) (hk : key ∈ own) :
    Keeps t s own (newSlot call obj key v) (newSlot call' obj key v) (fun _ => []) m := by
  have hlive : ∀ w ∈ own, m.heap.Has w := fun w hw => hm.has (List.mem_cons_of_mem _ hw)
  unfold newSlot
  split
  · refine .storingKey [v] hm fun k hkey => ?_
    subst hkey
    refine .retain hm (hlive _ hk) fun m1 hm1 hw1 => ?_
    have hb := hm1.backs_cons
    rw [coe_cons_add] at hb
    exact Meets.of_ok (updateHeap_eq _ _) (hm1.heap (hb.dictInsert (hw1 _ (hlive _ ho))))
  · refine newClassMember_keeps hc ?_ ho hk
    exact (hm.own_plain (v := .null) rfl).perm (.swap _ _ _)
  · refine .readHeap ?_
    split
    · rename_i f hf
      refine .bind (callMeta_keeps hc [v] hm (hm.backs.has_metaOf hf) ?_)
        fun a m1 hm1 => .released hm1
      simp [hlive _ ho, hlive _ hk]
    · exact .release hm fun m1 hm1 => .fail hm1 (by simp [ScriptError.typeError])
  · exact .release hm fun m1 hm1 => .fail hm1 (by simp [ScriptError.typeError])

theorem deleteSlot_keeps (hc : Faithful t call call') {obj key : Value}
    (hm : m.Within t s own) (ho : m.heap.Has obj) (hk : m.heap.Has key) :
    Keeps t s own (deleteSlot call obj key) (deleteSlot call' obj key) (fun (v : Value) => [v])
      m := by
  unfold deleteSlot
  split
  · rename_i r
    refine .reading .ofSlot hm fun k _ => ?_
    have hrem : (m.withHeap (m.heap.dictRemove r k.chars).2).Within t s
        ((m.heap.dictRemove r k.chars).1.toList ++ own) := hm.heap_append hm.backs.dictRemove
    refine .heap hrem fun m1 hm1 _ => ?_
    split
    · rename_i v hv
      rw [hv] at hm1
      exact .pure hm1
    · exact .fail_slot (hm1.drop _)
  · rename_i r
    split
    · rename_i i
      have hrem : (m.withHeap (m.heap.removeItem r i).2).Within t s
          ((m.heap.removeItem r i).1.toOption.toList ++ own) := hm.heap_append hm.backs.removeItem
      refine slotHeap_keeps (fun v hv => ?_) fun _ _ => hrem.drop _
      rw [hv] at hrem
      exact hrem
    · exact .fail_slot hm
  · refine .readHeap ?_
    split
    · rename_i f hf
      refine callMeta_keeps hc [] hm (hm.backs.has_metaOf hf) ?_
      simp [ho, hk]
    · exact .fail hm (by simp [ScriptError.typeError])
  · exact .fail hm (by simp [ScriptError.typeError])

/-! ## Operators -/

theorem newString_keeps {chars : String} (hm : m.Within t s own) :
    Keeps t s own (newString chars) (newString chars) (fun (v : Value) => [v]) m :=
  Meets.of_ok (heap_eq m _) (hm.heap_cons (hm.backs.newString chars))

theorem displayText_keeps (hc : Faithful t call call') {v : Value} (hm : m.Within t s own)
    (hv : m.heap.Has v) :
    Keeps t s own (displayText call v) (displayText call' v) (fun _ => []) m := by
  unfold displayText
  refine .readHeap ?_
  split
  · exact Meets.of_ok rfl hm
  · rename_i f hf
    refine .bind (callMeta_keeps hc [] hm (hm.backs.has_metaOf hf) (by simpa using hv)) ?_
    exact fun w m1 hm1 => .owning (Meets.of_ok rfl hm1)

theorem arithOp_keeps (hc : Faithful t call call') {op : ArithOp} {a b : Value}
    (hm : m.Within t s own) (ha : m.heap.Has a) (hb : m.heap.Has b) :
    Keeps t s own (arithOp call op a b) (arithOp call' op a b) (fun (v : Value) => [v]) m := by
  unfold arithOp
  refine .readHeap ?_
  split
  · rename_i f hf
    refine callMeta_keeps hc [] hm (hm.backs.has_metaOf hf) ?_
    simp [ha, hb]
  · split
    · exact .bind (displayText_keeps hc hm hb) fun _ m1 hm1 => newString_keeps hm1
    · exact .bind (displayText_keeps hc hm ha) fun _ m1 hm1 => newString_keeps hm1
    · have harith : (m.withHeap (m.heap.arith op a b).2).Within t s
          ((m.heap.arith op a b).1.toOption.toList ++ own) :=
        hm.heap_append (hm.backs.arith op a b)
      refine .heap harith fun m1 hm1 _ => .ofExcept (fun v hv => ?_) fun e he => ?_
      · rw [hv] at hm1
        exact hm1
      · rw [he] at hm1
        exact ⟨hm1, Heap.arith_kind he⟩

/-- The result of an operator that names no object. -/
theorem plain_keeps {r : Except ScriptError Value} (hm : m.Within t s own)
    (hr : Operator.Plain r) : Keeps t s own (ofExcept r) (ofExcept r) (fun (v : Value) => [v]) m := by
  refine .ofExcept (fun v hv => ?_) fun e he => ?_
  · rw [hv] at hr
    exact hm.own_plain hr
  · rw [he] at hr
    exact ⟨hm, hr⟩

theorem negateOp_keeps (hc : Faithful t call call') {v : Value} (hm : m.Within t s own)
    (hv : m.heap.Has v) :
    Keeps t s own (negateOp call v) (negateOp call' v) (fun (w : Value) => [w]) m := by
  unfold negateOp
  refine .readHeap ?_
  split
  · rename_i f hf
    exact callMeta_keeps hc [] hm (hm.backs.has_metaOf hf) (by simpa using hv)
  · exact plain_keeps hm (Operator.negate_plain v)

theorem statedOrder_kind {v : Value} {e : ScriptError} (h : statedOrder v = .error e) :
    e.kind ≠ .compile := by
  unfold statedOrder at h
  split at h
  · cases h
  · cases h
    exact ErrorKind.noConfusion

theorem compareOp_keeps (hc : Faithful t call call') {a b : Value} (hm : m.Within t s own)
    (ha : m.heap.Has a) (hb : m.heap.Has b) :
    Keeps t s own (compareOp call a b) (compareOp call' a b) (fun _ => []) m := by
  unfold compareOp
  refine .readHeap ?_
  split
  · rename_i f hf
    refine .bind (callMeta_keeps hc [] hm (hm.backs.has_metaOf hf) (by simp [ha, hb])) ?_
    exact fun w m1 hm1 => .owning
      (.ofExcept (fun _ _ => hm1) fun e he => ⟨hm1, statedOrder_kind he⟩)
  · exact .ofExcept (fun _ _ => hm) fun e he => ⟨hm, Operator.compare_kind he⟩

theorem typeOf_keeps (hc : Faithful t call call') {v : Value} (hm : m.Within t s own)
    (hv : m.heap.Has v) :
    Keeps t s own (typeOf call v) (typeOf call' v) (fun (w : Value) => [w]) m := by
  unfold typeOf
  refine .readHeap ?_
  split
  · rename_i f hf
    exact callMeta_keeps hc [] hm (hm.backs.has_metaOf hf) (by simpa using hv)
  · exact newString_keeps hm

theorem instanceOf_reads (cls obj : Value) : Reads t (instanceOf cls obj) (fun _ => True) m := by
  unfold instanceOf
  split
  · split
    · exact .inl ⟨_, rfl, trivial⟩
    · exact .pure trivial
  · exact .fail ErrorKind.noConfusion

end ScriptMachine.Exec
