import ScriptMachine.Heap.Native
import ScriptMachine.Proofs.Heap.Copying

/-!
# Functions, classes and instances

Making closures, classes and instances, and what the tables of a class take
over and let go.
-/

set_option autoImplicit false

namespace ScriptMachine

namespace ClassObject

/-- What a class keeps alive apart from its base. -/
def contents (c : ClassObject) : Multiset Value :=
  (c.members.map fun (e : Text × Member) => Value.string e.1 : List Value) +
    (c.methods.flatMap ClassMember.values : List Value) +
    (c.fields.flatMap ClassMember.values : List Value) + (c.metas : List Value) + {c.attributes}

theorem coe_values (c : ClassObject) : ((Body.classObject c).values : Multiset Value) =
    (c.base.toList.map Value.classObject : List Value) + c.contents := by
  simp only [Body.values, contents, ← Multiset.coe_add, Multiset.coe_singleton]

theorem keys_direct (members : List (Text × Member)) (key : Text) (m : Member) :
    (direct members key m).map (fun (e : Text × Member) => Value.string e.1) =
      members.map (fun (e : Text × Member) => Value.string e.1) ++
        if (members.find? fun (e : Text × Member) => e.1.chars == key.chars).isSome then []
        else [Value.string key] := by
  induction members with
  | nil => rfl
  | cons e rest ih =>
    obtain ⟨k, old⟩ := e
    by_cases hk : k.chars = key.chars
    · simp [direct, hk]
    · rw [direct, if_neg hk, List.map_cons, ih, List.find?_cons_of_neg (by simpa using hk)]
      rfl

theorem isSome_member? (c : ClassObject) (name : String) : (c.member? name).isSome =
    (c.members.find? fun (e : Text × Member) => e.1.chars == name).isSome := by
  simp [member?]

theorem contents_addField (c : ClassObject) (key : Text) (v : Value) :
    (c.addField key v).contents = c.contents + {.string key, v, .null} +
      (if (c.member? key.chars).isSome then 0 else {.string key}) := by
  rw [isSome_member?]
  simp only [contents, addField, keys_direct]
  rw [← Multiset.coe_add]
  split
  · simp [ClassMember.values, ← Multiset.coe_add, ← Multiset.cons_coe, ← Multiset.singleton_add]
    ac_rfl
  · simp [ClassMember.values, ← Multiset.coe_add, ← Multiset.cons_coe, ← Multiset.singleton_add]
    ac_rfl

theorem contents_addMethod (c : ClassObject) (key : Text) (v : Value) :
    (c.addMethod key v).contents = c.contents + {.string key, v, .null} +
      (if (c.member? key.chars).isSome then 0 else {.string key}) := by
  rw [isSome_member?]
  simp only [contents, addMethod, keys_direct]
  rw [← Multiset.coe_add]
  split
  · simp [ClassMember.values, ← Multiset.coe_add, ← Multiset.cons_coe, ← Multiset.singleton_add]
    ac_rfl
  · simp [ClassMember.values, ← Multiset.coe_add, ← Multiset.cons_coe, ← Multiset.singleton_add]
    ac_rfl

theorem contents_setMeta {c : ClassObject} {m : MetaMethod} {v old : Value}
    (h : c.metas[m.index]? = some old) : old ::ₘ (c.setMeta m v).contents = v ::ₘ c.contents := by
  exact exchange_left (exchange_right (coe_set h) _) _

theorem setMeta_of_none {c : ClassObject} {m : MetaMethod} {v : Value}
    (h : c.metas[m.index]? = none) : c.setMeta m v = c := by
  have hlen : c.metas.length ≤ m.index := by simpa using h
  simp only [setMeta, List.set_eq_of_length_le hlen]

theorem coe_modify {ms : List ClassMember} {i : Nat} {e : ClassMember}
    {f : ClassMember → ClassMember} {old v : Value} (h : ms[i]? = some e)
    (hf : old ::ₘ ((f e).values : Multiset Value) = v ::ₘ (e.values : Multiset Value)) :
    old ::ₘ ((ms.modify i f).flatMap ClassMember.values : Multiset Value) =
      v ::ₘ (ms.flatMap ClassMember.values : Multiset Value) := by
  induction ms generalizing i with
  | nil => cases h
  | cons d ms ih =>
    cases i with
    | zero =>
      simp only [List.getElem?_cons_zero, Option.some.injEq] at h
      subst h
      simp only [List.modify_zero_cons, List.flatMap_cons, ← Multiset.coe_add]
      rw [← Multiset.cons_add, ← Multiset.cons_add, hf]
    | succ i =>
      simp only [List.modify_succ_cons, List.flatMap_cons, ← Multiset.coe_add]
      rw [← Multiset.add_cons, ← Multiset.add_cons, ih (by simpa using h)]

theorem contents_modifyEntry {c : ClassObject} {m : Member} {e : ClassMember}
    {f : ClassMember → ClassMember} {old v : Value} (h : c.entry? m = some e)
    (hf : old ::ₘ ((f e).values : Multiset Value) = v ::ₘ (e.values : Multiset Value)) :
    old ::ₘ (c.modifyEntry m f).contents = v ::ₘ c.contents := by
  cases m with
  | field i => exact exchange_left (exchange_left (exchange_right (coe_modify h hf) _) _) _
  | method i =>
    exact exchange_left (exchange_left (exchange_left (exchange_right (coe_modify h hf) _) _) _) _

theorem modifyEntry_of_none {c : ClassObject} {m : Member} {f : ClassMember → ClassMember}
    (h : c.entry? m = none) : c.modifyEntry m f = c := by
  cases m with
  | field i =>
    have hlen : c.fields.length ≤ i := by simpa [ entry?] using h
    simp only [modifyEntry, List.modify_eq_self hlen]
  | method i =>
    have hlen : c.methods.length ≤ i := by simpa [ entry?] using h
    simp only [modifyEntry, List.modify_eq_self hlen]

theorem base_modifyEntry (c : ClassObject) (m : Member) (f : ClassMember → ClassMember) :
    (c.modifyEntry m f).base = c.base := by
  cases m <;> rfl

end ClassObject

namespace Heap

variable {l : Law} {own own' : Multiset Value} {h h' : Heap}

theorem class?_eq_some {r : Ref} {c : ClassObject} :
    h.class? r = some c ↔ h.body? r = some (.classObject c) := by
  unfold class?
  cases h.body? r with
  | none => simp
  | some b => cases b <;> simp

theorem closure?_eq_some {r : Ref} {c : ClosureObject} :
    h.closure? r = some c ↔ h.body? r = some (.closure c) := by
  unfold closure?
  cases h.body? r with
  | none => simp
  | some b => cases b <;> simp

theorem native?_eq_some {r : Ref} {n : NativeObject} :
    h.native? r = some n ↔ h.body? r = some (.native n) := by
  unfold native?
  cases h.body? r with
  | none => simp
  | some b => cases b <;> simp

theorem instance?_eq_some {r cls : Ref} {vs : List Value} :
    h.instance? r = some (cls, vs) ↔ h.body? r = some (.instanceObject cls vs) := by
  unfold instance?
  cases h.body? r with
  | none => simp
  | some b => cases b <;> simp

theorem modifyClass_eq {r : Ref} {c : ClassObject} (hc : h.class? r = some c)
    (f : ClassObject → ClassObject) : h.modifyClass r f = h.setBody r (.classObject (f c)) :=
  modifyBody_eq (class?_eq_some.1 hc) _

theorem retainRefs_valueRefs (h : Heap) (vs : List Value) :
    h.retainRefs (Body.valueRefs vs) = h.retainAll vs := by
  induction vs generalizing h with
  | nil => rfl
  | cons v vs ih =>
    have hcons : h.retainAll (v :: vs) = (h.retain v).retainAll vs := rfl
    rw [hcons, ← ih, retain, Body.valueRefs_cons]
    cases v.ref? <;> rfl

namespace Backs

/-! ## Functions -/

theorem newClosure {p : Prototype} {outers : List Ref} {defaults : List Value}
    (hb : h.Backs l ((outers.map Value.outer ++ defaults : List Value) + own))
    (hp : l.closure p outers.length) :
    Moves l (.closure (h.newClosure p outers defaults).1 ::ₘ own) h
      (h.newClosure p outers defaults).2 := by
  have hb' : h.Backs l (((Body.closure ⟨p, outers, defaults, none⟩).values : Multiset Value) + own) := by
    simpa [Body.values] using hb
  exact hb'.allocateLinked rfl hp rfl rfl (fun i hi => by cases hi)

theorem retainBody {b : Body} (hb : h.Backs l own) (hv : ∀ v ∈ b.values, h.Has v) :
    Moves l ((b.values : Multiset Value) + own) h (h.retainRefs b.refs) := by
  rw [← Body.valueRefs_values, retainRefs_valueRefs]
  exact hb.retainAll hv

theorem bindTo {f owner : Ref} {c : ClosureObject} (hb : h.Backs l own) (hf : h.closure? f = some c)
    (ho : h.Has (.classObject owner)) :
    Moves l (.closure (h.bindTo c owner).1 ::ₘ own) h (h.bindTo c owner).2 := by
  have hbody := closure?_eq_some.1 hf
  have hm := hb.retainBody (b := .closure { c with owner := some owner }) (by
    intro v hv
    simp only [Body.values, List.mem_append, Option.toList_some, List.map_cons, List.map_nil,
      List.mem_singleton] at hv
    rcases hv with (hv | hv) | rfl
    · exact hb.has_of_body hbody (by simp [Body.values, hv])
    · exact hb.has_of_body hbody (by simp [Body.values, hv])
    · exact ho)
  have hlaw : l.Admits (.closure { c with owner := some owner }) := (hb.bodies f _ hbody).2
  exact hm.trans (hm.backs.allocateLinked rfl hlaw rfl rfl (fun i hi => by cases hi))

theorem newNative {f : NativeFunction} (hb : h.Backs l own)
    (hd : ∀ v ∈ f.defaults.map (·.2), h.Has v)
    (hl : ∀ name docs, l.native ⟨name, docs, f.behaviour, f.params, f.mask, f.defaults⟩) :
    Moves l (.native (h.newNative f).1 ::ₘ own) h (h.newNative f).2 := by
  have hspare : ∀ (g : Heap) (chars : String), Spares g (g.allocateText chars).2 := by
    intro g chars s b _ hb
    simp only [Heap.allocateText, body?, cell?_allocate]
    rw [if_neg, ← body?, hb]
    rintro rfl
    exact Nat.lt_irrefl _ (body?_lt hb)
  have h1 := hb.allocateText f.name
  have h2 := h1.backs.allocateText f.docs
  have hlive : ∀ v ∈ f.defaults.map (·.2),
      ((h.allocateText f.name).2.allocateText f.docs).2.Has v :=
    fun v hv => (hspare _ _).has ((hspare _ _).has (hd v hv))
  have h3 := h2.backs.retainAll hlive
  have hle : ((Body.native ⟨(h.allocateText f.name).1,
      ((h.allocateText f.name).2.allocateText f.docs).1, f.behaviour, f.params, f.mask,
      f.defaults⟩).values : Multiset Value) + own ≤ (f.defaults.map (·.2) : List Value) +
        (.string ((h.allocateText f.name).2.allocateText f.docs).1 ::ₘ
          .string (h.allocateText f.name).1 ::ₘ own) := le_of_eq (by
    simp only [Body.values, ← Multiset.cons_coe, ← Multiset.singleton_add]
    ac_rfl)
  exact h1.trans (h2.trans (h3.trans ((h3.backs.mono hle).allocateLinked rfl (hl _ _) rfl rfl
    (fun i hi => by cases hi))))

theorem nativeAttribute {r : Ref} {n : NativeObject} (hb : h.Backs l own)
    (hn : h.native? r = some n) (a : NativeAttribute) :
    Moves l ((h.nativeAttribute n a).1 ::ₘ own) h (h.nativeAttribute n a).2 := by
  have hbody := native?_eq_some.1 hn
  cases a with
  | name =>
    have hv : h.Has (.string n.name) := hb.has_of_body hbody (by simp [Body.values])
    exact hb.retainRef hv rfl
  | docs =>
    have hv : h.Has (.string n.docs) := hb.has_of_body hbody (by simp [Body.values])
    exact hb.retainRef hv rfl
  | paramCount | minArgs | defaultCount => exact (hb.own_plain rfl).stay
  | typeMask => exact hb.newString _

/-! ## Classes -/

theorem setClass {r : Ref} {c d : ClassObject} (hb : h.Backs l own) (hr : h.class? r = some c)
    (hbase : d.base = c.base) (hle : d.contents + own' ≤ c.contents + own) :
    Moves l own' h (h.setBody r (.classObject d)) := by
  refine hb.setBody (class?_eq_some.1 hr) (.classObject hbase) Kind.noConfusion ?_
  rw [ClassObject.coe_values, ClassObject.coe_values, hbase, add_assoc, add_assoc]
  exact add_le_add le_rfl hle

theorem newClass {base : Option Ref} {name : String} (hb : h.Backs l own)
    (hv : ∀ b, base = some b → h.Has (.classObject b)) :
    Moves l (.classObject (h.newClass base name).1 ::ₘ own) h (h.newClass base name).2 := by
  have hmake : ∀ c : ClassObject, (∀ v ∈ (Body.classObject c).values, h.Has v) →
      Moves l (.classObject ((h.retainRefs (Body.classObject c).refs).allocateLinked
        (.classObject c)).1 ::ₘ own) h
        ((h.retainRefs (Body.classObject c).refs).allocateLinked (.classObject c)).2 := by
    intro c hc
    have hm := hb.retainBody hc
    exact hm.trans (hm.backs.allocateLinked rfl trivial rfl rfl (fun i hi => by cases hi))
  have hempty : ∀ v ∈ (Body.classObject (.empty name)).values, h.Has v := by
    intro v hv
    simp only [Body.values, ClassObject.empty, Option.toList_none, List.map_nil, List.flatMap_nil,
      List.nil_append, List.mem_append, List.mem_replicate, List.mem_singleton] at hv
    rcases hv with ⟨-, rfl⟩ | rfl <;> exact has_of_none rfl
  unfold Heap.newClass
  cases base with
  | none => exact hmake _ hempty
  | some b =>
    cases hc : h.class? b with
    | none =>
      simp only [hc]
      exact hmake _ hempty
    | some bc =>
      simp only [hc]
      refine hmake _ fun v hv' => ?_
      have hold : v = .classObject b ∨ v = .null ∨ v ∈ (Body.classObject bc).values := by
        simp only [Body.values, ClassObject.derived, Option.toList_some, List.map_cons, List.map_nil,
          List.mem_append, List.mem_singleton] at hv' ⊢
        tauto
      rcases hold with rfl | rfl | hold
      · exact hv b rfl
      · exact has_of_none rfl
      · exact hb.has_of_body (class?_eq_some.1 hc) hold

theorem lockFrom (fuel : Nat) (r : Ref) (hb : h.Backs l own) :
    Moves l own h (h.lockFrom fuel r) ∧ ∀ v, h.Has v → (h.lockFrom fuel r).Has v := by
  induction fuel generalizing h r with
  | zero => exact ⟨hb.stay, fun _ hv => hv⟩
  | succ fuel ih =>
    unfold Heap.lockFrom
    cases hc : h.class? r with
    | none => exact ⟨hb.stay, fun _ hv => hv⟩
    | some c =>
      simp only [modifyClass_eq hc]
      have hm : Moves l own h (h.setBody r (.classObject { c with locked := true })) :=
        hb.setClass hc rfl le_rfl
      have hv : ∀ v, h.Has v → (h.setBody r (.classObject { c with locked := true })).Has v :=
        fun v hv => has_setBody (class?_eq_some.1 hc) (by rfl) hv
      split
      · exact ⟨hm, hv⟩
      · rename_i b _
        obtain ⟨hm2, hv2⟩ := ih b hm.backs
        exact ⟨hm.trans hm2, fun v h1 => hv2 v (hv v h1)⟩

theorem asMethod {r : Ref} {c : ClassObject} {name : String} {v : Value}
    (hb : h.Backs l (v ::ₘ own)) (hr : .classObject r ∈ own) (hc : h.class? r = some c) :
    Moves l ((h.asMethod r c name v).1 ::ₘ own) h (h.asMethod r c name v).2 ∧
      (h.asMethod r c name v).2.class? r = some c := by
  unfold Heap.asMethod
  cases v with
  | closure f =>
    cases hf : h.closure? f with
    | none => simpa only [hf] using ⟨hb.stay, hc⟩
    | some fc =>
      simp only [hf]
      split
      · exact ⟨hb.stay, hc⟩
      · have hm := hb.bindTo hf (hb.has (Multiset.mem_cons_of_mem hr))
        have hb2 := hm.backs
        rw [Multiset.cons_swap] at hb2
        have hrel := hb2.release
        refine ⟨hm.trans hrel, ?_⟩
        -- the class is owned, so it outlives the closure that is let go
        obtain ⟨d, hd⟩ := (hrel.backs.has (Multiset.mem_cons_of_mem hr)).classObject
        have hretain : (h.bindTo fc r).2.class? r = some c := by
          have hsp : Spares h (h.bindTo fc r).2 := by
            refine SparesBut.trans ?_ (spares_allocateLinked _ _)
            rw [← Body.valueRefs_values, retainRefs_valueRefs]
            exact spares_retainAll h _
          exact class?_eq_some.2 (hsp.body (class?_eq_some.1 hc))
        have htrim : Trims (h.bindTo fc r).2 ((h.bindTo fc r).2.release (.closure f)) :=
          trims_releaseRefs _ _
        rw [class?_eq_some, ← class?_eq_some.1 hretain, hd]
        exact (htrim.body? hd).symm
  | _ => exact ⟨hb.stay, hc⟩

/-- An entry takes a value over in the place of another, which is let go. -/
theorem exchangeEntry {r : Ref} {c : ClassObject} {m : Member} {v : Value}
    (place : ClassMember → Value) (f : ClassMember → ClassMember)
    (hf : ∀ e, place e ::ₘ ((f e).values : Multiset Value) = v ::ₘ (e.values : Multiset Value))
    (hb : h.Backs l (v ::ₘ own)) (hc : h.class? r = some c) :
    Moves l own h ((h.modifyClass r fun (c : ClassObject) => c.modifyEntry m f).release
      (match c.entry? m with
       | some e => place e
       | none => .null)) := by
  simp only [modifyClass_eq hc]
  cases he : c.entry? m with
  | none =>
    rw [ClassObject.modifyEntry_of_none he]
    exact hb.setClass hc rfl (by gcongr; exact Multiset.le_cons_self _ _)
  | some e =>
    have hm : Moves l (place e ::ₘ own) h (h.setBody r (.classObject (c.modifyEntry m f))) :=
      hb.setClass hc (ClassObject.base_modifyEntry ..)
        (le_of_eq (exchange (ClassObject.contents_modifyEntry he (hf e)) own))
    exact hm.trans hm.backs.release

theorem replaceEntry {r : Ref} {c : ClassObject} {m : Member} {v : Value}
    (hb : h.Backs l (v ::ₘ own)) (hc : h.class? r = some c) :
    Moves l own h (h.replaceEntry r c m v) := by
  refine hb.exchangeEntry (·.value) (fun (e : ClassMember) => { e with value := v }) (fun e => ?_) hc
  simp only [ClassMember.values, ← Multiset.cons_coe, ← Multiset.singleton_add]
  ac_rfl

theorem classSet {r : Ref} {name : String} {v : Value} (hb : h.Backs l (v ::ₘ own)) :
    Moves l own h (h.classSet r name v).2 := by
  unfold Heap.classSet
  cases hc : h.class? r with
  | none => exact hb.release
  | some c =>
    simp only
    split
    · exact hb.replaceEntry hc
    · exact hb.release

theorem setMemberAttributes {r : Ref} {name : String} {v : Value} (hb : h.Backs l (v ::ₘ own)) :
    Moves l own h (h.setMemberAttributes r name v).2 := by
  unfold Heap.setMemberAttributes
  cases hc : h.class? r with
  | none => exact hb.release
  | some c =>
    simp only
    split
    · rename_i m hm
      refine hb.exchangeEntry (·.attributes) (fun (e : ClassMember) => { e with attributes := v })
        (fun e => ?_) hc
      simp only [ClassMember.values, ← Multiset.cons_coe, ← Multiset.singleton_add]
      ac_rfl
    · exact hb.release

theorem setClassAttributes {r : Ref} {v : Value} (hb : h.Backs l (v ::ₘ own)) :
    Moves l own h (h.setClassAttributes r v) := by
  unfold Heap.setClassAttributes
  cases hc : h.class? r with
  | none => exact hb.release
  | some c =>
    simp only [modifyClass_eq hc]
    have hm : Moves l (c.attributes ::ₘ own) h
        (h.setBody r (.classObject { c with attributes := v })) := by
      refine hb.setClass hc rfl (le_of_eq ?_)
      simp only [ClassObject.contents, ← Multiset.singleton_add]
      ac_rfl
    exact hm.trans hm.backs.release

theorem class?_retainRef (h : Heap) (r s : Ref) : (h.retainRef s).class? r = h.class? r := by
  unfold class?
  rw [body?_retainRef]

/-- A new field; its name needs a key object for itself unless it is known. -/
theorem addField {r : Ref} {c : ClassObject} {key : Text} {v : Value}
    (hb : h.Backs l (v ::ₘ .string key ::ₘ own)) (hc : h.class? r = some c) :
    Moves l own h ((if (c.member? key.chars).isSome then h else h.retainRef key.ref).modifyClass r
      fun (c : ClassObject) => c.addField key v) := by
  split
  · rename_i hsome
    rw [modifyClass_eq hc]
    refine (hb.own_plain (v := .null) rfl).setClass hc rfl (le_of_eq ?_)
    rw [ClassObject.contents_addField, if_pos hsome]
    simp only [Multiset.insert_eq_cons, ← Multiset.singleton_add]
    ac_rfl
  · rename_i hnone
    have hm := hb.retainRef (v := .string key) (hb.has (by simp)) rfl
    have hc' : (h.retainRef key.ref).class? r = some c := by rw [class?_retainRef, hc]
    rw [modifyClass_eq hc']
    refine hm.trans ((hm.backs.own_plain (v := .null) rfl).setClass hc' rfl (le_of_eq ?_))
    rw [ClassObject.contents_addField, if_neg hnone]
    simp only [Multiset.insert_eq_cons, ← Multiset.singleton_add]
    ac_rfl

theorem addMethod {r : Ref} {c : ClassObject} {key : Text} {v : Value}
    (hb : h.Backs l (v ::ₘ .string key ::ₘ own)) (hc : h.class? r = some c)
    (hnone : c.member? key.chars = none) :
    Moves l own h ((h.retainRef key.ref).modifyClass r
      fun (c : ClassObject) => c.addMethod key v) := by
  have hm := hb.retainRef (v := .string key) (hb.has (by simp)) rfl
  have hc' : (h.retainRef key.ref).class? r = some c := by rw [class?_retainRef, hc]
  rw [modifyClass_eq hc']
  refine hm.trans ((hm.backs.own_plain (v := .null) rfl).setClass hc' rfl (le_of_eq ?_))
  rw [ClassObject.contents_addMethod, hnone]
  simp only [Multiset.insert_eq_cons, ← Multiset.singleton_add, Option.isSome_none]
  simp only [Bool.false_eq_true, if_false]
  ac_rfl

theorem setMeta {r : Ref} {c : ClassObject} {m : MetaMethod} {key : Text} {v : Value}
    (hb : h.Backs l (v ::ₘ .string key ::ₘ own)) (hc : h.class? r = some c) :
    Moves l own h (((h.modifyClass r fun (c : ClassObject) => c.setMeta m v).release
      ((c.metas[m.index]?).getD .null)).releaseRef key.ref) := by
  have hset : Moves l ((c.metas[m.index]?).getD .null ::ₘ .string key ::ₘ own) h
      (h.modifyClass r fun (c : ClassObject) => c.setMeta m v) := by
    rw [modifyClass_eq hc]
    cases hold : c.metas[m.index]? with
    | none =>
      rw [ClassObject.setMeta_of_none hold]
      refine (hb.own_plain (v := .null) rfl).setClass hc rfl ?_
      exact add_le_add le_rfl (Multiset.cons_le_cons _ (Multiset.le_cons_self _ _))
    | some old =>
      refine hb.setClass hc rfl (le_of_eq ?_)
      exact exchange (ClassObject.contents_setMeta hold) _
  have hrel := hset.backs.release
  exact hset.trans (hrel.trans (hrel.backs.releaseRef (v := .string key) rfl))

theorem classNewSlot {r : Ref} {key : Text} {v : Value} {isStatic : Bool}
    (hb : h.Backs l (v ::ₘ .string key ::ₘ own)) (hr : .classObject r ∈ own) :
    Moves l own h (h.classNewSlot r key v isStatic).2 := by
  have hrefuse : Moves l own h ((h.release v).releaseRef key.ref) := by
    have hm := hb.release
    exact hm.trans (hm.backs.releaseRef (v := .string key) rfl)
  unfold Heap.classNewSlot
  cases hc : h.class? r with
  | none => exact hrefuse
  | some c =>
    have hreplace : ∀ (g : Heap) (m : Member) (w : Value), g.Backs l (w ::ₘ .string key ::ₘ own) →
        g.class? r = some c → Moves l own g ((g.replaceEntry r c m w).releaseRef key.ref) := by
      intro g m w hg hgc
      have hm := hg.replaceEntry (m := m) hgc
      exact hm.trans (hm.backs.releaseRef (v := .string key) rfl)
    simp only
    split
    · exact hrefuse
    · split
      · exact hreplace h _ v hb hc
      · rename_i hfield
        split
        · exact hrefuse
        · split
          · exact hb.addField hc
          · split
            · exact hb.setMeta hc
            · have hr' : Value.classObject r ∈ .string key ::ₘ own := Multiset.mem_cons_of_mem hr
              obtain ⟨hm, hc'⟩ : Moves l ((h.asMethod r c key.chars v).1 ::ₘ .string key ::ₘ own) h
                  (h.asMethod r c key.chars v).2 ∧
                    (h.asMethod r c key.chars v).2.class? r = some c := hb.asMethod hr' hc
              split
              · exact hm.trans (hreplace _ _ _ hm.backs hc')
              · rename_i hmethod
                have hnone : c.member? key.chars = none := by
                  cases hmem : c.member? key.chars with
                  | none => rfl
                  | some m =>
                    cases m with
                    | field i => exact (hfield i hmem).elim
                    | method i => exact (hmethod i hmem).elim
                exact hm.trans (hm.backs.addMethod hc' hnone)

theorem has_field {r : Ref} {c : ClassObject} {e : ClassMember} (hb : h.Backs l own)
    (hc : h.class? r = some c) (he : e ∈ c.fields) : h.Has e.value := by
  have hm : e.value ∈ c.fields.flatMap ClassMember.values :=
    List.mem_flatMap.2 ⟨e, he, by simp [ClassMember.values]⟩
  exact hb.has_of_body (class?_eq_some.1 hc)
    (List.mem_append_right _ (List.mem_append_left _ (List.mem_append_left _
      (List.mem_append_right _ hm))))

theorem newInstance {cls : Ref} (hb : h.Backs l own) (hc : h.Has (.classObject cls)) :
    Moves l (.instanceObject (h.newInstance cls).1 ::ₘ own) h (h.newInstance cls).2 := by
  obtain ⟨hm, hv⟩ := hb.lockFrom (cls.id + 1) cls
  have hmake : ∀ vs : List Value, (∀ v ∈ vs, (h.lock cls).Has v) →
      Moves l (.instanceObject ((((h.lock cls).deepCopyAll vs).2.retainRef cls).allocateLinked
        (.instanceObject cls ((h.lock cls).deepCopyAll vs).1)).1 ::ₘ own) h
        ((((h.lock cls).deepCopyAll vs).2.retainRef cls).allocateLinked
          (.instanceObject cls ((h.lock cls).deepCopyAll vs).1)).2 := by
    intro vs hvs
    obtain ⟨hm2, hs2⟩ := hm.backs.deepCopyAll hvs
    have hm3 := hm2.backs.retainRef (v := .classObject cls) (hs2.has (hv _ hc)) rfl
    have hb4 := hm3.backs
    rw [← coe_cons_add] at hb4
    exact hm.trans (hm2.trans (hm3.trans (hb4.allocateLinked (b := .instanceObject cls _) rfl trivial
      rfl rfl (fun i hi => by cases hi))))
  unfold Heap.newInstance
  cases hlc : (h.lock cls).class? cls with
  | none =>
    simp only [hlc]
    exact hmake [] (fun v hv => by cases hv)
  | some c =>
    simp only [hlc]
    refine hmake _ fun v hvs => ?_
    obtain ⟨e, he, rfl⟩ := List.mem_map.1 hvs
    exact hm.backs.has_field hlc he

theorem instanceSet {r : Ref} {name : String} {v : Value} (hb : h.Backs l (v ::ₘ own)) :
    Moves l own h (h.instanceSet r name v).2 := by
  unfold Heap.instanceSet
  split
  · exact hb.release
  · rename_i cls values hi
    split
    · split
      · rename_i i _ _ old hold
        have hx : old ::ₘ ((Body.instanceObject cls (values.set i v)).values : Multiset Value) =
            v ::ₘ ((Body.instanceObject cls values).values : Multiset Value) := by
          simp only [Body.values, ← Multiset.cons_coe]
          rw [Multiset.cons_swap, coe_set hold, Multiset.cons_swap]
        have hm : Moves l (old ::ₘ own) h (h.setBody r (.instanceObject cls (values.set i v))) :=
          hb.setBody (instance?_eq_some.1 hi) (.instanceObject ..) Kind.noConfusion
            (le_of_eq (exchange hx own))
        exact hm.trans hm.backs.release
      · exact hb.release
    · exact hb.release

end Backs

end Heap

end ScriptMachine
