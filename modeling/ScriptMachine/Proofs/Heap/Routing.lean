import ScriptMachine.Proofs.Heap.Shedding
import ScriptMachine.Proofs.Heap.Tables

/-!
# Where a member goes

A new member of a class becomes a field, a method or a metamethod, by what it is and by
what its name is. A name that leads to a field keeps leading there: whatever is stored
under it, a function or a static value included, becomes the default value of the field.
-/

set_option autoImplicit false

namespace ScriptMachine

/-! ## Tables of one class -/

namespace ClassObject

variable {c d : ClassObject} {key : Text} {name other : String} {v w : Value} {m : Member} {i : Nat}

/-- Each name that leads somewhere leads to an entry of that name, and the metamethods
all have their places. -/
structure Placed (c : ClassObject) : Prop where
  field : ∀ name i, c.member? name = some (.field i) → c.fieldNames[i]? = some name
  method : ∀ name i, c.member? name = some (.method i) → c.methodNames[i]? = some name
  metas : c.metas.length = MetaMethod.count

theorem Placed.of_same (hc : c.Placed) (hmembers : d.members = c.members)
    (hfields : d.fieldNames = c.fieldNames) (hmethods : d.methodNames = c.methodNames)
    (hmetas : d.metas.length = c.metas.length) : d.Placed where
  field := fun name i hi => by
    rw [member?, hmembers] at hi
    exact hfields ▸ hc.field name i hi
  method := fun name i hi => by
    rw [member?, hmembers] at hi
    exact hmethods ▸ hc.method name i hi
  metas := hmetas.trans hc.metas

theorem getElem?_concat {α : Type} {xs : List α} {x y : α} (h : xs[i]? = some x) :
    (xs ++ [y])[i]? = some x := by
  rw [List.getElem?_append_left (List.getElem?_eq_some_iff.1 h).1, h]

theorem Placed.addField (hc : c.Placed) (key : Text) (v : Value) : (c.addField key v).Placed where
  field := fun name i hi => by
    rw [member?_addField] at hi
    rw [fieldNames_addField]
    split at hi
    · rename_i hname
      cases hi
      rw [← hname, ← List.length_map (f := fun e : ClassMember => e.key.chars)]
      exact List.getElem?_concat_length
    · exact getElem?_concat (hc.field name i hi)
  method := fun name i hi => by
    rw [member?_addField] at hi
    split at hi
    · cases hi
    · exact hc.method name i hi
  metas := hc.metas

theorem Placed.addMethod (hc : c.Placed) (key : Text) (v : Value) : (c.addMethod key v).Placed where
  field := fun name i hi => by
    rw [member?_addMethod] at hi
    split at hi
    · cases hi
    · exact hc.field name i hi
  method := fun name i hi => by
    rw [member?_addMethod] at hi
    rw [methodNames_addMethod]
    split at hi
    · rename_i hname
      cases hi
      rw [← hname, ← List.length_map (f := fun e : ClassMember => e.key.chars)]
      exact List.getElem?_concat_length
    · exact getElem?_concat (hc.method name i hi)
  metas := hc.metas

theorem placed_upheld : Upheld (fun _ => True) True Placed where
  empty := fun name _ => by
    refine ⟨fun _ _ hi => ?_, fun _ _ hi => ?_, List.length_replicate⟩ <;> cases hi
  derived := fun _ _ _ _ hc => hc.of_same rfl rfl rfl rfl
  locked := fun _ hc => hc.of_same rfl rfl rfl rfl
  setMeta := fun _ _ _ hc => hc.of_same rfl rfl rfl List.length_set
  modifyEntry := fun c m f hf hc => by
    obtain ⟨hfields, hmethods⟩ := c.names_modifyEntry m hf
    cases m <;> exact hc.of_same rfl hfields hmethods rfl
  addField := fun _ key v _ _ hc => hc.addField key v
  addMethod := fun _ key v _ hc => hc.addMethod key v

theorem Placed.entry? (hc : c.Placed) (hm : c.member? name = some m) :
    ∃ e, c.entry? m = some e ∧ e.key.chars = name := by
  cases m with
  | field i =>
    have hi := hc.field name i hm
    rw [fieldNames, List.getElem?_map] at hi
    exact Option.map_eq_some_iff.1 hi
  | method i =>
    have hi := hc.method name i hm
    rw [methodNames, List.getElem?_map] at hi
    exact Option.map_eq_some_iff.1 hi

/-- No two names lead to one place. -/
theorem Placed.unique (hc : c.Placed) (hm : c.member? name = some m)
    (hother : c.member? other = some m) : name = other := by
  obtain ⟨e, he, hname⟩ := hc.entry? hm
  obtain ⟨e', he', hname'⟩ := hc.entry? hother
  rw [he, Option.some.injEq] at he'
  rw [← hname, he', hname']

/-- What a name leads to, with the value and the attributes there. -/
def resolve? (c : ClassObject) (name : String) : Option (Member × ClassMember) :=
  (c.member? name).bind fun (m : Member) => Option.map (Prod.mk m) ( c.entry? m)

theorem resolve?_of_member? (hm : c.member? name = some m) :
    c.resolve? name = Option.map (Prod.mk m) ( c.entry? m) := by
  rw [resolve?, hm, Option.bind_some]

theorem resolve?_congr (hmember : d.member? name = c.member? name)
    (hentry : ∀ m, c.member? name = some m → d.entry? m = c.entry? m) :
    d.resolve? name = c.resolve? name := by
  rw [resolve?, hmember, resolve?]
  cases hm : c.member? name with
  | none => rfl
  | some m => rw [Option.bind_some, Option.bind_some, hentry m hm]

theorem of_resolve? {e : ClassMember} (he : c.resolve? name = some (m, e)) :
    c.member? name = some m ∧ c.entry? m = some e := by
  obtain ⟨m', hm, hentry⟩ := Option.bind_eq_some_iff.1 he
  obtain ⟨e', he', heq⟩ := Option.map_eq_some_iff.1 hentry
  cases heq
  exact ⟨hm, he'⟩

theorem get?_of_resolve? {e : ClassMember} (he : c.resolve? name = some (m, e)) :
    c.get? name = some e.value := by
  obtain ⟨hm, hentry⟩ := of_resolve? he
  rw [get?, hm, Option.bind_some, hentry, Option.map_some]

theorem method?_of_resolve? {e : ClassMember} (he : c.resolve? name = some (.method i, e)) :
    c.method? name = some e.value := by
  obtain ⟨hm, hentry⟩ := of_resolve? he
  rw [method?, hm]
  exact congrArg (Option.map _) hentry

/-! ### What each change does to the names -/

theorem member?_modifyEntry (c : ClassObject) (m : Member) (f : ClassMember → ClassMember)
    (name : String) : (c.modifyEntry m f).member? name = c.member? name := by
  cases m <;> rfl

theorem found_modifyEntry (c : ClassObject) (m n : Member) (f : ClassMember → ClassMember) :
    ClassObject.entry? (c.modifyEntry m f) n = if n = m then Option.map f ( c.entry? n) else c.entry? n := by
  cases m with
  | field i =>
    cases n with
    | field j =>
      simp only [modifyEntry, ClassObject.entry?, List.getElem?_modify, Member.field.injEq]
      by_cases hij : i = j
      · simp [hij]
      · simp [hij, Ne.symm hij]
    | method j => rfl
  | method i =>
    cases n with
    | field j => rfl
    | method j =>
      simp only [modifyEntry, ClassObject.entry?, List.getElem?_modify, Member.method.injEq]
      by_cases hij : i = j
      · simp [hij]
      · simp [hij, Ne.symm hij]

theorem Placed.resolve?_modifyEntry (hc : c.Placed) (hm : c.member? name = some m)
    (f : ClassMember → ClassMember) (hother : other ≠ name) :
    (c.modifyEntry m f).resolve? other = c.resolve? other := by
  refine resolve?_congr (member?_modifyEntry ..) fun n hn => ?_
  rw [found_modifyEntry, if_neg]
  rintro rfl
  exact hother (hc.unique hn hm)

theorem Placed.resolve?_modified (hc : c.Placed) (hm : c.member? name = some m)
    (f : ClassMember → ClassMember) :
    ∃ e, c.resolve? name = some (m, e) ∧ (c.modifyEntry m f).resolve? name = some (m, f e) := by
  obtain ⟨e, he, -⟩ := hc.entry? hm
  refine ⟨e, ?_, ?_⟩
  · rw [resolve?_of_member? hm, he, Option.map_some]
  · rw [resolve?_of_member? ((member?_modifyEntry ..).trans hm), found_modifyEntry, if_pos rfl, he,
      Option.map_some, Option.map_some]

theorem Placed.resolve?_addField (hc : c.Placed) (key : Text) (v : Value) (name : String) :
    (c.addField key v).resolve? name =
      if key.chars = name then some (.field c.fields.length, ⟨key, v, .null⟩) else c.resolve? name := by
  split
  · next hname =>
    rw [resolve?_of_member? ((member?_addField ..).trans (if_pos hname))]
    exact congrArg (Option.map _) List.getElem?_concat_length
  · next hname =>
    refine resolve?_congr ((member?_addField ..).trans (if_neg hname)) fun m hm => ?_
    obtain ⟨e, he, -⟩ := hc.entry? hm
    cases m with
    | field i => exact (getElem?_concat he).trans he.symm
    | method i => rfl

theorem Placed.resolve?_addMethod (hc : c.Placed) (key : Text) (v : Value) (name : String) :
    (c.addMethod key v).resolve? name =
      if key.chars = name then some (.method c.methods.length, ⟨key, v, .null⟩)
      else c.resolve? name := by
  split
  · next hname =>
    rw [resolve?_of_member? ((member?_addMethod ..).trans (if_pos hname))]
    exact congrArg (Option.map _) List.getElem?_concat_length
  · next hname =>
    refine resolve?_congr ((member?_addMethod ..).trans (if_neg hname)) fun m hm => ?_
    obtain ⟨e, he, -⟩ := hc.entry? hm
    cases m with
    | field i => rfl
    | method i => exact (getElem?_concat he).trans he.symm

theorem getElem?_index (m : MetaMethod) : MetaMethod.all[m.index]? = some m := by
  cases m <;> rfl

theorem meta?_setMeta (hc : c.Placed) (m n : MetaMethod) (hv : v.isNull = false) :
    (c.setMeta m v).meta? n = if n = m then some v else c.meta? n := by
  have hlt : m.index < c.metas.length := by
    rw [hc.metas]
    exact (List.getElem?_eq_some_iff.1 (getElem?_index m)).1
  by_cases hn : n = m
  · subst hn
    simp only [meta?, setMeta, List.getElem?_set_self hlt, hv, Bool.false_eq_true, if_false, if_true]
  · have hindex : m.index ≠ n.index := fun heq => hn (by
      have hm := getElem?_index m
      rw [heq, getElem?_index n, Option.some.injEq] at hm
      exact hm)
    rw [if_neg hn, meta?, setMeta, List.getElem?_set_ne hindex]
    rfl

end ClassObject

namespace Heap

open ClassObject

variable {l : Law} {own own' : Multiset Value} {h h' : Heap} {r : Ref} {c d : ClassObject}
variable {key : Text} {v w : Value} {isStatic : Bool}

/-! ## Storing a member -/

/-- What a class keeps of a function or a static value: the value itself, or of a script
function that is neither inherited nor its own a copy that shares the cells. -/
inductive Adopts (h h' : Heap) (r : Ref) (c : ClassObject) (name : String) : Value → Value → Prop
  | itself {v : Value} :
    (∀ f fc, v = .closure f → h.closure? f = some fc →
      h.isInherited c name v = true ∨ fc.owner = some r) →
    Adopts h h' r c name v v
  | bound {f g : Ref} {fc : ClosureObject} :
    h.closure? f = some fc → h.isInherited c name (.closure f) = false → fc.owner ≠ some r →
    h.body? g = none → h'.closure? g = some { fc with owner := some r } →
    Adopts h h' r c name (.closure f) (.closure g)

/-- What becomes of a class that takes a member in. -/
inductive Enters (h h' : Heap) (r : Ref) (c : ClassObject) (key : Text) (v : Value)
    (isStatic : Bool) : ClassObject → Prop
  | override {i : Nat} : c.member? key.chars = some (.field i) →
    Enters h h' r c key v isStatic
      (c.modifyEntry (.field i) fun (e : ClassMember) => { e with value := v })
  | declare : (∀ i, c.member? key.chars ≠ some (.field i)) → (v.isFunction || isStatic) = false →
    Enters h h' r c key v isStatic (c.addField key v)
  | define {m : MetaMethod} : (∀ i, c.member? key.chars ≠ some (.field i)) → v.isFunction = true →
    MetaMethod.ofName? key.chars = some m →
    Enters h h' r c key v isStatic (c.setMeta m v)
  | replace {i : Nat} {w : Value} : c.member? key.chars = some (.method i) →
    (v.isFunction || isStatic) = true →
    (v.isFunction = true → MetaMethod.ofName? key.chars = none) →
    (h'.Has w → Adopts h h' r c key.chars v w) →
    Enters h h' r c key v isStatic
      (c.modifyEntry (.method i) fun (e : ClassMember) => { e with value := w })
  | add {w : Value} : c.member? key.chars = none → (v.isFunction || isStatic) = true →
    (v.isFunction = true → MetaMethod.ofName? key.chars = none) →
    (h'.Has w → Adopts h h' r c key.chars v w) →
    Enters h h' r c key v isStatic (c.addMethod key w)

/-- The changed class, after whatever is let go then. -/
theorem class?_settled {g : Heap} {f : ClassObject → ClassObject} (hc : g.class? r = some c)
    (ht : Trims (g.modifyClass r f) h') (hr : h'.Has (.classObject r)) :
    h'.class? r = some (f c) := by
  rw [(SameLayouts.of_trims ht).class?_eq hr, class?_modifyClass, if_pos rfl, hc, Option.map_some]

theorem closure?_settled {g : Heap} {f : ClassObject → ClassObject} (hc : g.class? r = some c)
    (ht : Trims (g.modifyClass r f) h') {s : Ref} {fc : ClosureObject}
    (hs : h'.closure? s = some fc) : g.closure? s = some fc := by
  have hbody := ht.body? (closure?_eq_some.1 hs)
  rw [modifyClass_eq hc, body?_setBody (class?_eq_some.1 hc)] at hbody
  split at hbody
  · cases hbody
  · exact closure?_eq_some.2 hbody

theorem trims_replaceEntry (h : Heap) (r : Ref) (c : ClassObject) (m : Member) (v : Value)
    (key : Text) :
    Trims (h.modifyClass r fun (c : ClassObject) =>
      c.modifyEntry m fun (e : ClassMember) => { e with value := v })
      ((h.replaceEntry r c m v).releaseRef key.ref) :=
  (trims_release _ _).trans (trims_releaseRefs _ _)

/-- The closures that are left of those there were when a value was made a method. -/
theorem Backs.adopts (hb : h.Backs l (v ::ₘ own))
    (hleft : ∀ g fc, h'.closure? g = some fc → (h.asMethod r c key.chars v).2.closure? g = some fc)
    (hw : h'.Has (h.asMethod r c key.chars v).1) :
    Adopts h h' r c key.chars v (h.asMethod r c key.chars v).1 := by
  revert hleft hw
  unfold Heap.asMethod
  cases v with
  | closure f =>
    obtain ⟨fc, hf⟩ := (hb.has (Multiset.mem_cons_self _ _)).closure
    have hf := closure?_eq_some.2 hf
    simp only [hf]
    split
    · next hkeep =>
      refine fun _ _ => .itself fun f' fc' hf' hfc' => ?_
      cases hf'
      rw [hf, Option.some.injEq] at hfc'
      subst hfc'
      simpa using hkeep
    · next hkeep =>
      obtain ⟨hinherited, howner⟩ : h.isInherited c key.chars (.closure f) = false ∧
          fc.owner ≠ some r := by simpa using hkeep
      intro hleft hw
      obtain ⟨gc, hg⟩ := hw.closure
      have hg := closure?_eq_some.2 hg
      have hbound := (trims_release _ _).body? (closure?_eq_some.1 (hleft _ _ hg))
      refine .bound hf hinherited howner ?_ ?_
      · refine Option.eq_none_iff_forall_ne_some.2 fun b hb => ?_
        rw [← body?_retainRefs h (Body.closure { fc with owner := some r }).refs] at hb
        exact Nat.lt_irrefl _ (body?_lt hb)
      · rw [Heap.bindTo, body?_allocateLinked, if_pos rfl] at hbound
        cases hbound
        exact hg
  | _ => exact fun _ _ => .itself fun f fc hf => by cases hf

/-- Storing a member that is not refused changes the class in one of these ways. -/
theorem Backs.newSlot_enters (hb : h.Backs l (v ::ₘ .string key ::ₘ own))
    (hr : .classObject r ∈ own) (hc : h.class? r = some c)
    (hok : (h.classNewSlot r key v isStatic).1 = .ok ()) :
    ∃ d, (h.classNewSlot r key v isStatic).2.class? r = some d ∧
      Enters h (h.classNewSlot r key v isStatic).2 r c key v isStatic d := by
  have hlive := (@Backs.classNewSlot _ _ _ r key v isStatic hb hr).backs.has hr
  revert hok hlive
  unfold Heap.classNewSlot
  simp only [hc]
  split
  · exact fun hok => by cases hok
  · split
    · next i hi =>
      intro _ hlive
      exact ⟨_, class?_settled hc (trims_replaceEntry h r c _ v key) hlive, .override hi⟩
    · next hfield =>
      split
      · exact fun hok => by cases hok
      · split
        · next hplain =>
          intro _ hlive
          refine ⟨_, class?_settled ?_ (.refl _) hlive, .declare hfield (by simpa using hplain)⟩
          split
          · exact hc
          · rw [class?_retainRef, hc]
        · next hshared =>
          rw [Bool.not_eq_true, Bool.not_eq_false'] at hshared
          split
          · next m hm =>
            intro _ hlive
            obtain ⟨hfunction, hm⟩ : v.isFunction = true ∧ MetaMethod.ofName? key.chars = some m := by
              simpa using hm
            exact ⟨_, class?_settled hc ((trims_release _ _).trans (trims_releaseRefs _ _)) hlive,
              .define hfield hfunction hm⟩
          · next hm =>
            have hm : v.isFunction = true → MetaMethod.ofName? key.chars = none := by simpa using hm
            have hr' : Value.classObject r ∈ Value.string key ::ₘ own := Multiset.mem_cons_of_mem hr
            obtain ⟨-, hc'⟩ := @Backs.asMethod _ _ _ r c key.chars v hb hr' hc
            split
            · next i hi =>
              intro _ hlive
              have ht := trims_replaceEntry (h.asMethod r c key.chars v).2 r c (.method i)
                (h.asMethod r c key.chars v).1 key
              exact ⟨_, class?_settled hc' ht hlive, .replace hi hshared hm
                (hb.adopts fun g fc => closure?_settled hc' ht)⟩
            · next hmethod =>
              intro _ hlive
              have hnone : c.member? key.chars = none := by
                cases hmember : c.member? key.chars with
                | none => rfl
                | some m =>
                  cases m with
                  | field i => exact absurd hmember (hfield i)
                  | method i => exact absurd hmember (hmethod i)
              have hc'' := (class?_retainRef _ r key.ref).trans hc'
              refine ⟨_, class?_settled hc'' (.refl _) hlive, .add hnone hshared hm
                (hb.adopts fun g fc hg => ?_)⟩
              have hg := closure?_settled hc'' (.refl _) hg
              rw [closure?_eq_some, body?_retainRef] at hg
              exact closure?_eq_some.2 hg

/-! ## Where it is found -/

/-- A function that is stored under the name of a metamethod, where no field has the name,
defines the metamethod. -/
def Defines (c : ClassObject) (key : Text) (v : Value) (m : MetaMethod) : Prop :=
  (∀ i, c.member? key.chars ≠ some (.field i)) ∧ v.isFunction = true ∧
    MetaMethod.ofName? key.chars = some m

/-- What is found in a class that took a member in. -/
structure Routed (h h' : Heap) (r : Ref) (c d : ClassObject) (key : Text) (v : Value)
    (isStatic : Bool) : Prop where
  /-- The other names lead where they led, to what was there. -/
  others : ∀ name, name ≠ key.chars → d.resolve? name = c.resolve? name
  metas : ∀ m, ¬ Defines c key v m → d.meta? m = c.meta? m
  /-- A name that leads to a field goes on leading there, whatever is stored. -/
  overridden : ∀ i, c.member? key.chars = some (.field i) →
    ∃ e, c.resolve? key.chars = some (.field i, e) ∧
      d.resolve? key.chars = some (.field i, { e with value := v })
  defined : ∀ m, Defines c key v m → d.meta? m = some v ∧ d.members = c.members ∧
    d.fields = c.fields ∧ d.methods = c.methods
  method : (∀ i, c.member? key.chars ≠ some (.field i)) → (v.isFunction || isStatic) = true →
    (∀ m, ¬ Defines c key v m) →
    ∃ w, d.method? key.chars = some w ∧ Adopts h h' r c key.chars v w
  declared : (∀ i, c.member? key.chars ≠ some (.field i)) → (v.isFunction || isStatic) = false →
    d.resolve? key.chars = some (.field c.fields.length, ⟨key, v, .null⟩)

theorem meta?_modifyEntry (c : ClassObject) (m : Member) (f : ClassMember → ClassMember)
    (n : MetaMethod) : (c.modifyEntry m f).meta? n = c.meta? n := by
  cases m <;> rfl

theorem resolve?_setMeta (c : ClassObject) (m : MetaMethod) (v : Value) (name : String) :
    (c.setMeta m v).resolve? name = c.resolve? name :=
  resolve?_congr rfl fun n _ => by cases n <;> rfl

theorem isNull_of_isFunction (hv : v.isFunction = true) : v.isNull = false := by
  cases v <;> first | rfl | cases hv

theorem not_defines_of_named (hname : v.isFunction = true → MetaMethod.ofName? key.chars = none)
    (m : MetaMethod) : ¬ Defines c key v m := fun hdef => by
  have hsome := hdef.2.2
  rw [hname hdef.2.1] at hsome
  cases hsome

theorem Enters.routed (hentry : Enters h h' r c key v isStatic d) (hplaced : c.Placed)
    (hb : h'.Backs l own) (hd : h'.class? r = some d) : Routed h h' r c d key v isStatic := by
  cases hentry with
  | override hi =>
    obtain ⟨e, he, he'⟩ := hplaced.resolve?_modified hi fun (e : ClassMember) => { e with value := v }
    constructor
    case others => exact fun name hname => hplaced.resolve?_modifyEntry hi _ hname
    case metas => exact fun m _ => meta?_modifyEntry ..
    case overridden =>
      intro j hj
      rw [hi, Option.some.injEq, Member.field.injEq] at hj
      exact ⟨e, hj ▸ he, hj ▸ he'⟩
    case defined => exact fun m hdef => absurd hi (hdef.1 _)
    case method => exact fun hfield _ _ => absurd hi (hfield _)
    case declared => exact fun hfield _ => absurd hi (hfield _)
  | declare hfield hplain =>
    have hfunction : v.isFunction = false := (Bool.or_eq_false_iff.1 hplain).1
    constructor
    case others =>
      exact fun name hname => (hplaced.resolve?_addField key v name).trans (if_neg (Ne.symm hname))
    case metas => exact fun m _ => rfl
    case overridden => exact fun i hi => absurd hi (hfield i)
    case defined =>
      intro m hdef
      rw [hdef.2.1] at hfunction
      cases hfunction
    case method =>
      intro _ hshared _
      rw [hplain] at hshared
      cases hshared
    case declared => exact fun _ _ => (hplaced.resolve?_addField key v key.chars).trans (if_pos rfl)
  | @define m hfield hfunction hm =>
    have hmeta := fun n => meta?_setMeta hplaced m n (isNull_of_isFunction hfunction)
    constructor
    case others => exact fun name _ => resolve?_setMeta ..
    case metas =>
      intro n hn
      rw [hmeta, if_neg]
      rintro rfl
      exact hn ⟨hfield, hfunction, hm⟩
    case overridden => exact fun i hi => absurd hi (hfield i)
    case defined =>
      rintro n ⟨-, -, hn⟩
      rw [hm, Option.some.injEq] at hn
      exact ⟨by rw [hmeta, if_pos hn.symm], rfl, rfl, rfl⟩
    case method => exact fun _ _ hno => absurd ⟨hfield, hfunction, hm⟩ (hno m)
    case declared =>
      intro _ hplain
      rw [hfunction] at hplain
      cases hplain
  | @replace i w hi hshared hname hadopts =>
    obtain ⟨e, -, he⟩ := hplaced.resolve?_modified hi fun (e : ClassMember) => { e with value := w }
    have hfield (j : Nat) : c.member? key.chars ≠ some (.field j) := by
      rw [hi]
      exact fun heq => by cases heq
    constructor
    case others => exact fun name hne => hplaced.resolve?_modifyEntry hi _ hne
    case metas => exact fun m _ => meta?_modifyEntry ..
    case overridden => exact fun j hj => absurd hj (hfield j)
    case defined => exact fun m hdef => absurd hdef (not_defines_of_named hname m)
    case method =>
      exact fun _ _ _ =>
        ⟨w, method?_of_resolve? he, hadopts (hb.has_get hd (get?_of_resolve? he))⟩
    case declared =>
      intro _ hplain
      rw [hshared] at hplain
      cases hplain
  | @add w hnew hshared hname hadopts =>
    have he := (hplaced.resolve?_addMethod key w key.chars).trans (if_pos rfl)
    constructor
    case others =>
      exact fun name hne => (hplaced.resolve?_addMethod key w name).trans (if_neg (Ne.symm hne))
    case metas => exact fun m _ => rfl
    case overridden =>
      intro i hi
      rw [hnew] at hi
      cases hi
    case defined => exact fun m hdef => absurd hdef (not_defines_of_named hname m)
    case method =>
      exact fun _ _ _ =>
        ⟨w, method?_of_resolve? he, hadopts (hb.has_get hd (get?_of_resolve? he))⟩
    case declared =>
      intro _ hplain
      rw [hshared] at hplain
      cases hplain

/-! ## Histories -/

/-- One use of the classes of a heap, their attributes included, or of the heap beside
them. -/
inductive ClassUse (l : Law) : Heap × Multiset Value → Heap × Multiset Value → Prop
  | step {s t : Heap × Multiset Value} : ClassStep l s t → ClassUse l s t
  | describe {h : Heap} {own : Multiset Value} (r : Ref) (v : Value) :
    ClassUse l (h, v ::ₘ own) (h.setClassAttributes r v, own)

abbrev ClassUses (l : Law) : Heap × Multiset Value → Heap × Multiset Value → Prop :=
  Relation.ReflTransGen (ClassUse l)

theorem EveryClass.setClassAttributes {P : ClassObject → Prop} (hall : h.EveryClass P)
    (hP : ∀ c v, P c → P { c with attributes := v }) (r : Ref) (v : Value) :
    (h.setClassAttributes r v).EveryClass P := by
  unfold Heap.setClassAttributes
  split
  · exact (SameLayouts.release h v).everyClass hall
  · have hset := hall.modifyClass (r := r) fun d _ hd => hP d v hd
    exact (SameLayouts.release _ _).everyClass hset

/-- Writing an instance changes no class. -/
theorem class?_instanceSet {i : Ref} {name : String}
    (hc : (h.instanceSet i name v).2.class? r = some c) : h.class? r = some c := by
  have hrelease := SameLayouts.release h v
  unfold Heap.instanceSet at hc
  split at hc
  · exact hrelease.class? hc
  · next cls vs hi =>
    split at hc
    · split at hc
      · next k _ _ _ _ =>
        have hset := (SameLayouts.release _ _).class? hc
        rw [class?_eq_some, body?_setBody (instance?_eq_some.1 hi)] at hset
        split at hset
        · cases hset
        · exact class?_eq_some.2 hset
      · exact hrelease.class? hc
    · exact hrelease.class? hc

theorem EveryClass.instanceSet {P : ClassObject → Prop} (hall : h.EveryClass P) (i : Ref)
    (name : String) (v : Value) : (h.instanceSet i name v).2.EveryClass P :=
  fun r c hc => hall r c (class?_instanceSet hc)

theorem ClassUse.spec {s t : Heap × Multiset Value} (hb : s.1.Backs l s.2)
    (hall : s.1.EveryClass Placed) (huse : ClassUse l s t) :
    t.1.Backs l t.2 ∧ t.1.EveryClass Placed := by
  cases huse with
  | step hstep =>
    refine ⟨(hstep.spec hb).1, ?_⟩
    cases hstep with dsimp only at hall ⊢
    | newClass base name _ => exact hall.newClass placed_upheld base trivial
    | newSlot r key v isStatic _ => exact hall.classNewSlot placed_upheld fun _ => trivial
    | assign r name v => exact hall.classSet placed_upheld r name v
    | annotate r name v => exact hall.setMemberAttributes placed_upheld r name v
    | instantiate r _ => exact hall.newInstance placed_upheld r
    | assignField i name v => exact hall.instanceSet i name v
    | elsewhere _ hs => exact hs.everyClass hall
  | describe r v =>
    exact ⟨(Backs.setClassAttributes hb).backs,
      hall.setClassAttributes (fun _ _ hc => hc.of_same rfl rfl rfl rfl) r v⟩

theorem ClassUses.spec (hb : h.Backs l own) (hall : h.EveryClass Placed)
    (hrun : ClassUses l (h, own) (h', own')) : h'.Backs l own' ∧ h'.EveryClass Placed :=
  upheld_along (P := fun t => t.1.Backs l t.2 ∧ t.1.EveryClass Placed) hrun ⟨hb, hall⟩
    fun _ _ hu huse => huse.spec hu.1 hu.2

/-- Whatever happened to the classes of a heap, storing a member in one leaves all other
names as they were and puts the member where its name and its kind say. A function of the
name of a metamethod defines it, other functions and static values become methods and all
else fields. Only a name that leads to a field comes before all this: it stays with the
field. -/
theorem newSlot_routes (l : Law) {h₀ : Heap} {own₀ : Multiset Value} (hback : h₀.Backs l own₀)
    (hnone : ∀ r b, h₀.body? r = some b → Bare b)
    (hrun : ClassUses l (h₀, own₀) (h, v ::ₘ .string key ::ₘ own)) (hr : .classObject r ∈ own)
    (hc : h.class? r = some c) (hok : (h.classNewSlot r key v isStatic).1 = .ok ()) :
    ∃ d, (h.classNewSlot r key v isStatic).2.class? r = some d ∧
      Routed h (h.classNewSlot r key v isStatic).2 r c d key v isStatic := by
  have hall₀ : h₀.EveryClass Placed :=
    fun s d hd => absurd rfl (hnone s _ (class?_eq_some.1 hd)).1
  obtain ⟨hb, hall⟩ := hrun.spec hback hall₀
  obtain ⟨d, hd, hentry⟩ := hb.newSlot_enters hr hc hok
  exact ⟨d, hd, hentry.routed (hall r c hc) (hb.classNewSlot hr).backs hd⟩

/-- The name of a metamethod twice, and a function. -/
def firstName : Text × Heap := ({} : Heap).allocateText "_add"

def secondName : Text × Heap := firstName.2.allocateText "_add"

def addition : Ref × Heap := secondName.2.newClosure { name := "f" } [] []

def numberClass : Ref × Heap := addition.2.newClass none "init"

theorem addition_bare (r : Ref) (b : Body) (hr : addition.2.body? r = some b) : Bare b := by
  simp only [addition, newClosure, body?_allocateLinked] at hr
  split at hr
  · cases hr
    exact ⟨Kind.noConfusion, Kind.noConfusion⟩
  · simp only [secondName, firstName, allocateText, body?, cell?_allocate] at hr
    split at hr
    · cases hr
      exact ⟨Kind.noConfusion, Kind.noConfusion⟩
    · split at hr
      · cases hr
        exact ⟨Kind.noConfusion, Kind.noConfusion⟩
      · cases hr

theorem addition_backs (l : Law) (hp : ∀ p n, l.closure p n) :
    addition.2.Backs l (.integer 1 ::ₘ .closure addition.1 ::ₘ .string secondName.1 ::ₘ
      {.string firstName.1}) := by
  have hfirst := (Backs.empty l {}).allocateText "_add"
  have hsecond := hfirst.backs.allocateText "_add"
  have hb : secondName.2.Backs l ((([] : List Ref).map Value.outer ++ [] : List Value) +
      (Value.string secondName.1 ::ₘ {Value.string firstName.1} : Multiset Value)) := by
    simpa [secondName, firstName] using hsecond.backs
  exact (hb.newClosure (p := { name := "f" }) (hp _ _)).backs.own_plain rfl

theorem numberClass_run (l : Law) :
    ClassUses l (addition.2, .integer 1 ::ₘ .closure addition.1 ::ₘ .string secondName.1 ::ₘ
        {.string firstName.1})
      (numberClass.2, .closure addition.1 ::ₘ .string secondName.1 ::ₘ .integer 1 ::ₘ
        .string firstName.1 ::ₘ {.classObject numberClass.1}) := by
  have hmake : ClassUse l (addition.2, .integer 1 ::ₘ .closure addition.1 ::ₘ
      .string secondName.1 ::ₘ {.string firstName.1}) (numberClass.2, _) :=
    .step (.newClass none "init" fun b hb => by cases hb)
  have howned : (.classObject numberClass.1 ::ₘ .integer 1 ::ₘ .closure addition.1 ::ₘ
      .string secondName.1 ::ₘ {.string firstName.1} : Multiset Value) =
      .closure addition.1 ::ₘ .string secondName.1 ::ₘ .integer 1 ::ₘ .string firstName.1 ::ₘ
        {.classObject numberClass.1} := by
    simp only [← Multiset.singleton_add]
    ac_rfl
  exact howned ▸ .single hmake

theorem newSlot_routes_numberClass :
    ∃ d, (numberClass.2.classNewSlot numberClass.1 secondName.1 (.closure addition.1) false).2.class?
        numberClass.1 = some d ∧
      d.meta? .add = some (.closure addition.1) ∧ d.memberNames = [] := by
  let l : Law := ⟨fun _ _ => True, fun _ => True⟩
  have hbacks := addition_backs l fun _ _ => trivial
  have hclass : numberClass.2.class? numberClass.1 = some (.empty "init") := rfl
  have hok : (numberClass.2.classNewSlot numberClass.1 secondName.1 (.closure addition.1) false).1 =
      .ok () := rfl
  obtain ⟨d, hd, hrouted⟩ := newSlot_routes l hbacks addition_bare (numberClass_run l) (by simp)
    hclass hok
  have hdefines : Defines (.empty "init") secondName.1 (.closure addition.1) .add :=
    ⟨fun _ hi => (by cases hi), rfl, by decide⟩
  obtain ⟨hmeta, -, hfields, hmethods⟩ := hrouted.defined .add hdefines
  refine ⟨d, hd, hmeta, ?_⟩
  rw [ClassObject.memberNames, hfields, hmethods]
  rfl

/-- The class has a field of the name. -/
def numberField : Heap :=
  (numberClass.2.classNewSlot numberClass.1 firstName.1 (.integer 1) false).2

theorem numberField_run (l : Law) :
    ClassUses l (addition.2, .integer 1 ::ₘ .closure addition.1 ::ₘ .string secondName.1 ::ₘ
        {.string firstName.1})
      (numberField, .closure addition.1 ::ₘ .string secondName.1 ::ₘ
        {.classObject numberClass.1}) := by
  have hrun := numberClass_run l
  have howned : (.closure addition.1 ::ₘ .string secondName.1 ::ₘ .integer 1 ::ₘ
      .string firstName.1 ::ₘ {.classObject numberClass.1} : Multiset Value) =
      .integer 1 ::ₘ .string firstName.1 ::ₘ .closure addition.1 ::ₘ .string secondName.1 ::ₘ
        {.classObject numberClass.1} := by
    simp only [← Multiset.singleton_add]
    ac_rfl
  rw [howned] at hrun
  exact hrun.tail (.step (.newSlot numberClass.1 firstName.1 (.integer 1) false (by simp)))

/-- A function that is stored under the name of a metamethod becomes the default value of
the field that has the name, and the metamethod is not defined. -/
theorem field_keeps_metamethod_name :
    (∀ l, ClassUses l (addition.2, .integer 1 ::ₘ .closure addition.1 ::ₘ
        .string secondName.1 ::ₘ {.string firstName.1})
      (numberField, .closure addition.1 ::ₘ .string secondName.1 ::ₘ
        {.classObject numberClass.1})) ∧
    (numberField.classNewSlot numberClass.1 secondName.1 (.closure addition.1) false).1 = .ok () ∧
    MetaMethod.ofName? secondName.1.chars = some .add ∧
    ∃ d, (numberField.classNewSlot numberClass.1 secondName.1 (.closure addition.1) false).2.class?
        numberClass.1 = some d ∧ d.meta? .add = none ∧ d.method? secondName.1.chars = none ∧
      d.get? secondName.1.chars = some (.closure addition.1) := by
  let l : Law := ⟨fun _ _ => True, fun _ => True⟩
  have hall : addition.2.EveryClass Placed :=
    fun s d hd => absurd rfl (addition_bare s _ (class?_eq_some.1 hd)).1
  obtain ⟨hb, hplaced⟩ := (numberField_run l).spec (addition_backs l fun _ _ => trivial) hall
  have hclass : numberField.class? numberClass.1 =
      some ((ClassObject.empty "init").addField firstName.1 (.integer 1)) := rfl
  have hok : (numberField.classNewSlot numberClass.1 secondName.1 (.closure addition.1) false).1 =
      .ok () := rfl
  have hfield : ((ClassObject.empty "init").addField firstName.1 (.integer 1)).member?
      secondName.1.chars = some (.field 0) := by decide
  have hr : Value.classObject numberClass.1 ∈ ({.classObject numberClass.1} : Multiset Value) :=
    Multiset.mem_singleton_self _
  obtain ⟨d, hd, hentry⟩ := hb.newSlot_enters hr hclass hok
  have hrouted := hentry.routed (hplaced _ _ hclass) (hb.classNewSlot hr).backs hd
  obtain ⟨e, -, he⟩ := hrouted.overridden 0 hfield
  refine ⟨numberField_run, hok, by decide, d, hd, ?_, ?_, get?_of_resolve? he⟩
  · rw [hrouted.metas .add fun hdef => hdef.1 0 hfield]
    decide
  · rw [ClassObject.method?, (of_resolve? he).1]

end Heap

end ScriptMachine
