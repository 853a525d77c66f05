import ScriptMachine.Proofs.Heap.Classes
import ScriptMachine.Proofs.Operators

/-!
# Values found in the heap

What a look-up lends is held by the object it was found in, so it lives as long
as that object does.
-/

set_option autoImplicit false

namespace ScriptMachine

theorem Entry.value_mem_of_find {key : String} {es : List Entry} {v : Value}
    (hf : Entry.find? key es = some v) : v ∈ Entry.values es := by
  induction es with
  | nil => cases hf
  | cons e rest ih =>
    obtain ⟨k, w⟩ := e
    rw [Entry.find?] at hf
    rw [Entry.values_cons]
    split at hf
    · cases hf
      simp
    · simp [ih hf]

theorem Entry.after?_mem {key : String} {es : List Entry} {e : Entry}
    (hf : Entry.after? key es = some e) : e ∈ es := by
  induction es with
  | nil => cases hf
  | cons d rest ih =>
    obtain ⟨k, w⟩ := d
    rw [Entry.after?] at hf
    split at hf
    · cases hf
      simp
    · simp [ih hf]

theorem Entries.next?_mem {es : Entries} {key : Option String} {e : Entry}
    (hf : es.next? key = some e) : e ∈ es.list := by
  cases key with
  | none => exact List.mem_of_mem_head? hf
  | some k => exact Entry.after?_mem hf

namespace Heap.Backs

variable {l : Law} {own : Multiset Value} {h : Heap}

/-! ## Containers -/

theorem has_items (hb : h.Backs l own) {r : Ref} {v : Value} (hv : v ∈ (h.items r).toList) :
    h.Has v := by
  unfold Heap.items at hv
  split at hv
  · rename_i xs hr
    exact hb.has_of_body hr hv
  · cases hv

theorem has_item (hb : h.Backs l own) {r : Ref} {i : Int64} {v : Value}
    (hv : h.itemAt r i = .ok v) : h.Has v := by
  obtain ⟨xs, hr, -, hx⟩ := itemAt_mem hv
  exact hb.has_of_body hr (Array.mem_def.1 (Array.mem_of_getElem? hx))

theorem has_entry (hb : h.Backs l own) {r : Ref} {v : Value}
    (hv : v ∈ Entry.values (h.entries r).list) : h.Has v := by
  unfold Heap.entries at hv
  split at hv
  · rename_i es hr
    exact hb.has_of_body hr hv
  · cases hv

theorem has_dictGet (hb : h.Backs l own) {r : Ref} {key : String} {v : Value}
    (hv : h.dictGet? r key = some v) : h.Has v :=
  hb.has_entry (Entry.value_mem_of_find hv)

/-! ## Classes -/

theorem has_method (hb : h.Backs l own) {r : Ref} {c : ClassObject} (hc : h.class? r = some c)
    {e : ClassMember} (he : e ∈ c.methods) : h.Has e.value := by
  refine hb.has_of_body (class?_eq_some.1 hc) ?_
  have : e.value ∈ c.methods.flatMap ClassMember.values :=
    List.mem_flatMap.2 ⟨e, he, by simp [ClassMember.values]⟩
  simp only [Body.values, List.mem_append]
  exact .inr (.inl (.inl (.inl (.inr this))))

theorem has_entry? (hb : h.Backs l own) {r : Ref} {c : ClassObject} (hc : h.class? r = some c)
    {m : Member} {e : ClassMember} (he : ClassObject.entry? c m = some e) : h.Has e.value := by
  cases m with
  | field i => exact hb.has_field hc (List.mem_of_getElem? he)
  | method i => exact hb.has_method hc (List.mem_of_getElem? he)

theorem has_get (hb : h.Backs l own) {r : Ref} {c : ClassObject} (hc : h.class? r = some c)
    {name : String} {v : Value} (hv : c.get? name = some v) : h.Has v := by
  simp only [ClassObject.get?, Option.map_eq_some_iff, Option.bind_eq_some_iff] at hv
  obtain ⟨e, ⟨m, -, he⟩, rfl⟩ := hv
  exact hb.has_entry? hc he

theorem has_methodNamed (hb : h.Backs l own) {r : Ref} {c : ClassObject} (hc : h.class? r = some c)
    {name : String} {v : Value} (hv : c.method? name = some v) : h.Has v := by
  unfold ClassObject.method? at hv
  split at hv
  · obtain ⟨e, he, rfl⟩ := Option.map_eq_some_iff.1 hv
    exact hb.has_method hc (List.mem_of_getElem? he)
  · cases hv

theorem has_constructor (hb : h.Backs l own) {r : Ref} {v : Value}
    (hv : (h.class? r).bind ClassObject.constructor? = some v) : h.Has v := by
  obtain ⟨c, hc, hv⟩ := Option.bind_eq_some_iff.1 hv
  obtain ⟨e, he, rfl⟩ := Option.map_eq_some_iff.1 hv
  obtain ⟨i, -, hi⟩ := Option.bind_eq_some_iff.1 he
  exact hb.has_method hc (List.mem_of_getElem? hi)

theorem has_meta (hb : h.Backs l own) {r : Ref} {c : ClassObject} (hc : h.class? r = some c)
    {m : MetaMethod} {v : Value} (hv : c.meta? m = some v) : h.Has v := by
  unfold ClassObject.meta? at hv
  split at hv
  · rename_i w hw
    split at hv
    · cases hv
    · cases hv
      refine hb.has_of_body (class?_eq_some.1 hc) ?_
      simp only [Body.values, List.mem_append]
      exact .inr (.inl (.inr (List.mem_of_getElem? hw)))
  · cases hv

theorem has_classMeta (hb : h.Backs l own) {r : Ref} {m : MetaMethod} {v : Value}
    (hv : h.classMeta? r m = some v) : h.Has v := by
  obtain ⟨c, hc, hv⟩ := Option.bind_eq_some_iff.1 hv
  exact hb.has_meta hc hv

theorem has_base (hb : h.Backs l own) {r b : Ref} {c : ClassObject} (hc : h.class? r = some c)
    (hv : c.base = some b) : h.Has (.classObject b) := by
  refine hb.has_of_body (class?_eq_some.1 hc) ?_
  simp [Body.values, hv]

/-! ## Instances -/

theorem has_instanceGet (hb : h.Backs l own) {r : Ref} {name : String} {v : Value}
    (hv : h.instanceGet? r name = some v) : h.Has v := by
  unfold Heap.instanceGet? at hv
  split at hv
  · cases hv
  · rename_i cls vs hi
    split at hv
    · cases hv
    · rename_i c hc
      split at hv
      · refine hb.has_of_body (instance?_eq_some.1 hi) ?_
        exact List.mem_cons_of_mem _ (List.mem_of_getElem? hv)
      · exact hb.has_methodNamed hc hv
      · cases hv

theorem has_metaOf (hb : h.Backs l own) {obj : Value} {m : MetaMethod} {v : Value}
    (hv : h.metaOf? obj m = some v) : h.Has v := by
  cases obj with
  | instanceObject r =>
    obtain ⟨c, hc, hv⟩ := Option.bind_eq_some_iff.1 hv
    obtain ⟨i, -, hc⟩ := Option.bind_eq_some_iff.1 hc
    exact hb.has_meta hc hv
  | _ => cases hv

/-! ## Members -/

theorem plain_of_byteAt? {s : String} {i : Int64} {v : Value} (hv : byteAt? s i = some v) :
    v.ref? = none := by
  obtain ⟨k, -, hv⟩ := Option.bind_eq_some_iff.1 hv
  obtain ⟨b, -, rfl⟩ := Option.map_eq_some_iff.1 hv
  rfl

theorem plain_of_byteAt {s : String} {i : Int64} {v : Value} (hv : byteAt s i = .ok v) :
    v.ref? = none := by
  delta byteAt at hv
  dsimp only at hv
  split at hv
  · rename_i w hw
    cases hv
    exact plain_of_byteAt? hw
  · cases hv

theorem has_member (hb : h.Backs l own) {obj key v : Value} (hv : h.member? obj key = .ok (some v)) :
    h.Has v := by
  unfold Heap.member? at hv
  split at hv
  · exact hb.has_dictGet (Except.ok.inj hv)
  · rename_i r i
    cases hi : h.itemAt r i with
    | error e => rw [hi] at hv; cases hv
    | ok w =>
      rw [hi] at hv
      cases hv
      exact hb.has_item hi
  · rename_i s i
    cases hi : byteAt s.chars i with
    | error e => rw [hi] at hv; cases hv
    | ok w =>
      rw [hi] at hv
      cases hv
      exact has_of_none (plain_of_byteAt hi)
  · exact hb.has_instanceGet (Except.ok.inj hv)
  · obtain ⟨c, hc, hv⟩ := Option.bind_eq_some_iff.1 (Except.ok.inj hv)
    exact hb.has_get hc hv
  · cases hv

/-! ## Weak references -/

theorem has_target (hb : h.Backs l own) (w : Ref) : h.Has (h.target w) := by
  unfold Heap.target
  split
  · rename_i v hw
    cases hr : v.ref? with
    | none => exact has_of_none rfl
    | some r =>
      simp only
      split
      · rename_i ha
        intro s hs
        rw [hr, Option.some.injEq] at hs
        subst hs
        obtain ⟨c, hc⟩ := Option.isSome_iff_exists.1 ha
        have hbody := body?_of_cell? hc
        exact ⟨c.body, hbody, ((hb.bodies w _ hw).1 v (by simp [Body.mentions]) r hr).2 c.body hbody⟩
      · exact has_of_none rfl
  · exact has_of_none rfl

/-! ## Arithmetic -/

theorem arith (hb : h.Backs l own) (op : ArithOp) (a b : Value) :
    Moves l (((h.arith op a b).1.toOption.toList : Multiset Value) + own) h (h.arith op a b).2 := by
  have hjoin := hb.newString (h.display a ++ h.display b)
  unfold Heap.arith
  split
  · simpa [Except.toOption] using hjoin
  · simpa [Except.toOption] using hjoin
  · rename_i x y
    have hlive : ∀ v ∈ (h.items x ++ h.items y).toList, h.Has v := by
      intro v hv
      rw [Array.toList_append] at hv
      rcases List.mem_append.1 hv with hv | hv
      · exact hb.has_items hv
      · exact hb.has_items hv
    have hm := hb.retainAll hlive
    simpa [Except.toOption] using hm.trans hm.backs.newArray
  · have hplain := Operator.numeric_plain op a b
    cases hn : Operator.numeric op a b with
    | error e => simpa [Except.toOption] using hb.stay
    | ok v =>
      rw [hn] at hplain
      simpa [Except.toOption] using (hb.own_plain hplain).stay

end Heap.Backs

end ScriptMachine
