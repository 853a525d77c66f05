import ScriptMachine.Proofs.Heap.Layout

/-!
# The tables of a class

A class keeps a directory of names, a table of fields, a table of methods and the
place of its constructor. They agree about every name but one that led to a method
until a plain value was stored under it: its method stays in the table, and stays the
constructor, beside the field that the name leads to from then on.
-/

set_option autoImplicit false

namespace ScriptMachine

/-! ## Tables of one class -/

namespace ClassObject

def fieldNames (c : ClassObject) : List String := c.fields.map (·.key.chars)

def methodNames (c : ClassObject) : List String := c.methods.map (·.key.chars)

/-- A method of the name is left in its table, and the name leads to a field. -/
def Overtaken (c : ClassObject) (name : String) : Prop :=
  name ∈ c.methodNames ∧ ∃ i, c.member? name = some (.field i)

/-- The tables agree about the names that are not lost. -/
structure CoherentBut (c : ClassObject) (lost : String → Prop) : Prop where
  /-- The names that are listed are those that lead to a member. -/
  listed : ∀ name, name ∈ c.memberNames ↔ (c.member? name).isSome = true
  once : ∀ name, ¬ lost name → c.memberNames.count name ≤ 1
  field : ∀ i e, c.fields[i]? = some e → c.member? e.key.chars = some (.field i)
  method : ∀ i e, c.methods[i]? = some e → ¬ lost e.key.chars →
    c.member? e.key.chars = some (.method i)
  constructor : ¬ lost c.constructorName → c.constructor? = c.method? c.constructorName

def Coherent (c : ClassObject) : Prop := c.CoherentBut fun _ => False

/-- What the operations on classes keep, with one name for all constructors. -/
structure Tabled (ctor : String) (c : ClassObject) : Prop where
  named : c.constructorName = ctor
  field : ∀ i name, c.fieldNames[i]? = some name ↔ c.member? name = some (.field i)
  found : ∀ i name, c.member? name = some (.method i) → c.methodNames[i]? = some name
  method : ∀ i name, c.methodNames[i]? = some name →
    c.member? name = some (.method i) ∨ ∃ j, c.member? name = some (.field j)
  distinct : c.methodNames.Nodup
  constructor : ∀ i, c.constructorIndex = some i ↔ c.methodNames[i]? = some ctor

variable {c d : ClassObject} {ctor : String}

theorem Tabled.of_same (hc : c.Tabled ctor) (hnamed : d.constructorName = ctor)
    (hmembers : d.members = c.members) (hfields : d.fieldNames = c.fieldNames)
    (hmethods : d.methodNames = c.methodNames) (hindex : d.constructorIndex = c.constructorIndex) :
    d.Tabled ctor := by
  have hmember (name : String) : d.member? name = c.member? name := by
    rw [member?, hmembers, member?]
  constructor
  case named => exact hnamed
  case field => simpa only [hfields, hmember] using hc.field
  case found => simpa only [hmethods, hmember] using hc.found
  case method => simpa only [hmethods, hmember] using hc.method
  case distinct =>
    rw [hmethods]
    exact hc.distinct
  case constructor => simpa only [hmethods, hindex] using hc.constructor

theorem Overtaken.of_same {name : String} (h : d.Overtaken name) (hmembers : d.members = c.members)
    (hmethods : d.methodNames = c.methodNames) : c.Overtaken name := by
  obtain ⟨hname, i, hi⟩ := h
  refine ⟨hmethods ▸ hname, i, ?_⟩
  rwa [member?, ← hmembers]

theorem tabled_empty (ctor : String) : (empty ctor).Tabled ctor := by
  constructor <;> simp [empty, fieldNames, methodNames, member?]

theorem map_modify_same {α β : Type} {f : α → α} {g : α → β} (hf : ∀ x, g (f x) = g x)
    (xs : List α) (i : Nat) : (xs.modify i f).map g = xs.map g := by
  induction xs generalizing i with
  | nil => simp
  | cons x xs ih =>
    cases i with
    | zero => simp [hf]
    | succ i => simp [ih]

theorem names_modifyEntry (c : ClassObject) (m : Member) {f : ClassMember → ClassMember}
    (hf : ∀ e, (f e).key = e.key) :
    (c.modifyEntry m f).fieldNames = c.fieldNames ∧ (c.modifyEntry m f).methodNames = c.methodNames := by
  have hname : ∀ e, (f e).key.chars = e.key.chars := fun e => congrArg Text.chars (hf e)
  cases m with
  | field i => exact ⟨map_modify_same hname _ i, rfl⟩
  | method i => exact ⟨rfl, map_modify_same hname _ i⟩

theorem fieldNames_addField (c : ClassObject) (key : Text) (v : Value) :
    (c.addField key v).fieldNames = c.fieldNames ++ [key.chars] := by
  simp [fieldNames, addField]

theorem methodNames_addMethod (c : ClassObject) (key : Text) (v : Value) :
    (c.addMethod key v).methodNames = c.methodNames ++ [key.chars] := by
  simp [methodNames, addMethod]

theorem Tabled.mem_fieldNames (hc : c.Tabled ctor) {name : String} :
    name ∈ c.fieldNames ↔ ∃ i, c.member? name = some (.field i) := by
  rw [List.mem_iff_getElem?]
  simp only [hc.field]

theorem Tabled.nodup_fieldNames (hc : c.Tabled ctor) : c.fieldNames.Nodup := by
  rw [List.nodup_iff_getElem?_ne_getElem?]
  intro i j hij hj heq
  have hjname : c.fieldNames[j]? = some c.fieldNames[j] := List.getElem?_eq_getElem hj
  have hi := (hc.field i _).1 (heq.trans hjname)
  rw [(hc.field j _).1 hjname] at hi
  cases hi
  exact Nat.lt_irrefl _ hij

theorem Tabled.constructorIndex_eq_none (hc : c.Tabled ctor) (h : ctor ∉ c.methodNames) :
    c.constructorIndex = none :=
  Option.eq_none_iff_forall_ne_some.2 fun i hi => h (List.mem_of_getElem? ((hc.constructor i).1 hi))

theorem Tabled.addField (hc : c.Tabled ctor) {key : Text} (v : Value)
    (hkey : ∀ i, c.member? key.chars ≠ some (.field i)) : (c.addField key v).Tabled ctor := by
  have hlen : c.fields.length = c.fieldNames.length := (List.length_map _).symm
  constructor
  case named => exact hc.named
  case field =>
    intro i name
    rw [fieldNames_addField, member?_addField, hlen]
    by_cases hname : key.chars = name
    · subst hname
      have hnew : c.fieldNames[i]? ≠ some key.chars := fun h => hkey i ((hc.field i _).1 h)
      rw [if_pos rfl]
      by_cases hi : i < c.fieldNames.length
      · rw [List.getElem?_append_left hi]
        refine iff_of_false hnew fun h => ?_
        cases h
        exact Nat.lt_irrefl _ hi
      · rw [List.getElem?_append_right (by omega), List.getElem?_singleton]
        simp only [Option.some.injEq, Member.field.injEq]
        split <;> simp <;> omega
    · rw [if_neg hname, ← hc.field]
      by_cases hi : i < c.fieldNames.length
      · rw [List.getElem?_append_left hi]
      · rw [List.getElem?_append_right (by omega), List.getElem?_singleton]
        rw [List.getElem?_eq_none (by omega)]
        split <;> simp [hname]
  case found =>
    intro i name h
    rw [member?_addField] at h
    split at h
    · cases h
    · exact hc.found i name h
  case method =>
    intro i name h
    rw [member?_addField]
    split
    · exact .inr ⟨_, rfl⟩
    · exact hc.method i name h
  case distinct => exact hc.distinct
  case constructor => exact hc.constructor

theorem Tabled.not_mem_methodNames (hc : c.Tabled ctor) {name : String}
    (hname : c.member? name = none) : name ∉ c.methodNames := by
  intro hmem
  obtain ⟨i, hi⟩ := List.mem_iff_getElem?.1 hmem
  rcases hc.method i name hi with h | ⟨j, h⟩ <;> rw [hname] at h <;> cases h

theorem Tabled.addMethod (hc : c.Tabled ctor) {key : Text} (v : Value)
    (hkey : c.member? key.chars = none) : (c.addMethod key v).Tabled ctor := by
  have hlen : c.methods.length = c.methodNames.length := (List.length_map _).symm
  have hnew : key.chars ∉ c.methodNames := hc.not_mem_methodNames hkey
  have hnames := methodNames_addMethod c key v
  have hold {i : Nat} {name : String} (h : c.methodNames[i]? = some name) :
      key.chars ≠ name := fun heq => hnew (heq ▸ List.mem_of_getElem? h)
  constructor
  case named => exact hc.named
  case field =>
    intro i name
    rw [member?_addMethod]
    split
    · next hname =>
      subst hname
      refine iff_of_false (fun h => ?_) (fun h => by cases h)
      have := (hc.field i _).1 h
      rw [hkey] at this
      cases this
    · exact hc.field i name
  case found =>
    intro i name h
    rw [member?_addMethod, hlen] at h
    rw [hnames]
    split at h
    · next hname =>
      cases h
      rw [List.getElem?_concat_length, hname]
    · have := hc.found i name h
      rw [List.getElem?_append_left (List.getElem?_eq_some_iff.1 this).1, this]
  case method =>
    intro i name h
    rw [hnames] at h
    rw [member?_addMethod, hlen]
    by_cases hi : i < c.methodNames.length
    · rw [List.getElem?_append_left hi] at h
      rw [if_neg (hold h)]
      exact hc.method i name h
    · rw [List.getElem?_append_right (by omega), List.getElem?_singleton] at h
      split at h
      · next heq =>
        cases h
        rw [if_pos rfl]
        exact .inl (by congr 2; omega)
      · cases h
  case distinct =>
    rw [hnames, List.nodup_append]
    refine ⟨hc.distinct, List.nodup_singleton _, ?_⟩
    rintro a ha b hb rfl
    exact hnew (List.mem_singleton.1 hb ▸ ha)
  case constructor =>
    intro i
    rw [hnames]
    have hindex : (c.addMethod key v).constructorIndex =
        if key.chars = ctor ∧ c.constructorIndex = none then some c.methodNames.length
        else c.constructorIndex := by
      rw [← hc.named, ← hlen]
      rfl
    rw [hindex]
    by_cases hctor : key.chars = ctor
    · have hnone : c.constructorIndex = none := hc.constructorIndex_eq_none (hctor ▸ hnew)
      rw [if_pos ⟨hctor, hnone⟩]
      by_cases hi : i < c.methodNames.length
      · rw [List.getElem?_append_left hi, ← hc.constructor i, hnone]
        simp only [Option.some.injEq, reduceCtorEq, iff_false]
        omega
      · rw [List.getElem?_append_right (by omega), List.getElem?_singleton]
        simp only [Option.some.injEq, hctor]
        split <;> simp <;> omega
    · rw [if_neg fun h => hctor h.1, hc.constructor i]
      by_cases hi : i < c.methodNames.length
      · rw [List.getElem?_append_left hi]
      · rw [List.getElem?_append_right (by omega), List.getElem?_eq_none (by omega),
          List.getElem?_singleton]
        split <;> simp [hctor]

/-- The tables agree about the names that are not overtaken. -/
theorem Tabled.coherentBut (hc : c.Tabled ctor) : c.CoherentBut c.Overtaken := by
  constructor
  case listed =>
    intro name
    show name ∈ c.fieldNames ++ c.methodNames ↔ _
    rw [List.mem_append, hc.mem_fieldNames, List.mem_iff_getElem?]
    constructor
    · rintro (⟨i, h⟩ | ⟨i, h⟩)
      · rw [h]
        rfl
      · rcases hc.method i name h with h | ⟨j, h⟩ <;> rw [h] <;> rfl
    · intro h
      obtain ⟨m, hm⟩ := Option.isSome_iff_exists.1 h
      cases m with
      | field i => exact .inl ⟨i, hm⟩
      | method i => exact .inr ⟨i, hc.found i name hm⟩
  case once =>
    intro name hlost
    show (c.fieldNames ++ c.methodNames).count name ≤ 1
    rw [List.count_append]
    by_cases hname : name ∈ c.methodNames
    · have hno : name ∉ c.fieldNames := fun h => hlost ⟨hname, hc.mem_fieldNames.1 h⟩
      rw [List.count_eq_zero_of_not_mem hno, Nat.zero_add]
      exact List.nodup_iff_count_le_one.1 hc.distinct name
    · rw [List.count_eq_zero_of_not_mem hname]
      exact List.nodup_iff_count_le_one.1 hc.nodup_fieldNames name
  case field =>
    intro i e he
    rw [← hc.field, fieldNames, List.getElem?_map, he]
    rfl
  case method =>
    intro i e he hlost
    have hi : c.methodNames[i]? = some e.key.chars := by
      rw [methodNames, List.getElem?_map, he]
      rfl
    rcases hc.method i _ hi with h | h
    · exact h
    · exact absurd ⟨List.mem_of_getElem? hi, h⟩ hlost
  case constructor =>
    intro hlost
    rw [hc.named] at hlost ⊢
    rw [method?]
    split
    · next i hi =>
      rw [constructor?, (hc.constructor i).2 (hc.found i ctor hi)]
      rfl
    · next hother =>
      have hname : ctor ∉ c.methodNames := by
        intro hname
        obtain ⟨i, hi⟩ := List.mem_iff_getElem?.1 hname
        rcases hc.method i ctor hi with h | h
        · exact hother i h
        · exact hlost ⟨hname, h⟩
      rw [constructor?, hc.constructorIndex_eq_none hname]
      rfl

/-- The tables of a class in a history where names are overtaken only when that is
allowed. -/
structure Kept (ctor : String) (redefining : Prop) (c : ClassObject) : Prop where
  tabled : c.Tabled ctor
  overtaken : ∀ name, c.Overtaken name → redefining

variable {redefining : Prop}

theorem Kept.of_same (hc : c.Kept ctor redefining) (hnamed : d.constructorName = ctor)
    (hmembers : d.members = c.members) (hfields : d.fieldNames = c.fieldNames)
    (hmethods : d.methodNames = c.methodNames) (hindex : d.constructorIndex = c.constructorIndex) :
    d.Kept ctor redefining where
  tabled := hc.tabled.of_same hnamed hmembers hfields hmethods hindex
  overtaken := fun name h => hc.overtaken name (h.of_same hmembers hmethods)

theorem kept_empty (ctor : String) (redefining : Prop) : (empty ctor).Kept ctor redefining where
  tabled := tabled_empty ctor
  overtaken := fun name h => by cases h.1

theorem Kept.derived (hc : c.Kept ctor redefining) (base : Ref) :
    (ClassObject.derived base c ctor).Kept ctor redefining :=
  hc.of_same rfl rfl rfl rfl rfl

theorem Kept.locked (hc : c.Kept ctor redefining) : { c with locked := true }.Kept ctor redefining :=
  hc.of_same hc.tabled.named rfl rfl rfl rfl

theorem Kept.setMeta (hc : c.Kept ctor redefining) (m : MetaMethod) (v : Value) :
    (c.setMeta m v).Kept ctor redefining :=
  hc.of_same hc.tabled.named rfl rfl rfl rfl

theorem Kept.modifyEntry (hc : c.Kept ctor redefining) (m : Member) {f : ClassMember → ClassMember}
    (hf : ∀ e, (f e).key = e.key) : (c.modifyEntry m f).Kept ctor redefining := by
  obtain ⟨hfields, hmethods⟩ := c.names_modifyEntry m hf
  apply hc.of_same
  · cases m <;> exact hc.tabled.named
  · cases m <;> rfl
  · exact hfields
  · exact hmethods
  · cases m <;> rfl

theorem Kept.addMethod (hc : c.Kept ctor redefining) {key : Text} (v : Value)
    (hkey : c.member? key.chars = none) : (c.addMethod key v).Kept ctor redefining where
  tabled := hc.tabled.addMethod v hkey
  overtaken := fun name ⟨hname, i, hi⟩ => by
    rw [member?_addMethod] at hi
    split at hi
    · cases hi
    · next hne =>
      rw [methodNames_addMethod, List.mem_append, List.mem_singleton] at hname
      exact hc.overtaken name ⟨hname.resolve_right (Ne.symm hne), i, hi⟩

/-- A new field overtakes the method of its name, if there is one, and no other. -/
theorem Kept.addField (hc : c.Kept ctor redefining) {key : Text} (v : Value)
    (hkey : ∀ i, c.member? key.chars ≠ some (.field i))
    (hmethod : ∀ i, c.member? key.chars = some (.method i) → redefining) :
    (c.addField key v).Kept ctor redefining where
  tabled := hc.tabled.addField v hkey
  overtaken := fun name ⟨hname, i, hi⟩ => by
    rw [member?_addField] at hi
    split at hi
    · next heq =>
      subst heq
      obtain ⟨j, hj⟩ := List.mem_iff_getElem?.1 hname
      rcases hc.tabled.method j _ hj with h | ⟨k, h⟩
      · exact hmethod j h
      · exact absurd h (hkey k)
    · exact hc.overtaken name ⟨hname, i, hi⟩

/-- What all operations on classes keep of a class, when constructors are named as
required and names are overtaken only when that is allowed. -/
structure Upheld (named : String → Prop) (redefining : Prop) (P : ClassObject → Prop) : Prop where
  empty : ∀ name, named name → P (empty name)
  derived : ∀ c base name, named name → P c → P (derived base c name)
  locked : ∀ c, P c → P { c with locked := true }
  setMeta : ∀ c m v, P c → P (c.setMeta m v)
  modifyEntry : ∀ c m (f : ClassMember → ClassMember), (∀ e, (f e).key = e.key) → P c →
    P (c.modifyEntry m f)
  addField : ∀ c (key : Text) v, (∀ i, c.member? key.chars ≠ some (.field i)) →
    (∀ i, c.member? key.chars = some (.method i) → redefining) → P c → P (c.addField key v)
  addMethod : ∀ c (key : Text) v, c.member? key.chars = none → P c → P (c.addMethod key v)

theorem kept_upheld (ctor : String) (redefining : Prop) :
    Upheld (· = ctor) redefining (Kept ctor redefining) where
  empty := fun _ hname => hname ▸ kept_empty ctor redefining
  derived := fun _ base _ hname hc => hname ▸ hc.derived base
  locked := fun _ hc => hc.locked
  setMeta := fun _ m v hc => hc.setMeta m v
  modifyEntry := fun _ m _ hf hc => hc.modifyEntry m hf
  addField := fun _ _ v hkey hmethod hc => hc.addField v hkey hmethod
  addMethod := fun _ _ v hkey hc => hc.addMethod v hkey

theorem coherent_iff (hc : c.Tabled ctor) : c.Coherent ↔ ∀ name, ¬ c.Overtaken name := by
  constructor
  · rintro h name ⟨hname, i, hi⟩
    obtain ⟨e, he, rfl⟩ := List.mem_map.1 hname
    obtain ⟨j, hj⟩ := List.mem_iff_getElem?.1 he
    have := h.method j e hj id
    rw [hi] at this
    cases this
  · intro h
    have hall := hc.coherentBut
    have hlost : c.Overtaken = fun _ => False := funext fun name => eq_false (h name)
    rwa [hlost] at hall

end ClassObject

/-! ## The classes of a heap -/

namespace Heap

variable {h h' : Heap} {P : ClassObject → Prop} {named : String → Prop} {ctor : String}
variable {redefining : Prop}

def EveryClass (P : ClassObject → Prop) (h : Heap) : Prop := ∀ r c, h.class? r = some c → P c

theorem SameLayouts.everyClass (hs : SameLayouts h h') (hall : h.EveryClass P) : h'.EveryClass P :=
  fun r c hc => hall r c (hs.class? hc)

theorem class?_modifyClass (h : Heap) (r : Ref) (f : ClassObject → ClassObject) (s : Ref) :
    (h.modifyClass r f).class? s = if s = r then (h.class? r).map f else h.class? s := by
  cases hc : h.class? r with
  | some c => rw [modifyClass_eq hc, class?_setBody hc, Option.map_some]
  | none =>
    have hsame : h.modifyClass r f = h := modifyBody_same fun b hb => by
      cases b with
      | classObject c => exact absurd (class?_eq_some.2 hb) (by simp [hc])
      | content | weak | array | dict | closure | native | instanceObject | outer => rfl
    rw [hsame]
    split
    · next heq => rw [heq, hc, Option.map_none]
    · rfl

namespace EveryClass

theorem modifyClass (hall : h.EveryClass P) {r : Ref} {f : ClassObject → ClassObject}
    (hf : ∀ c, h.class? r = some c → P c → P (f c)) : (h.modifyClass r f).EveryClass P := by
  intro s c hc
  rw [class?_modifyClass] at hc
  split at hc
  · obtain ⟨d, hd, rfl⟩ := Option.map_eq_some_iff.1 hc
    exact hf d hd (hall r d hd)
  · exact hall s c hc

theorem allocateClass (hall : h.EveryClass P) {c : ClassObject} (hc : P c) :
    (h.allocateLinked (.classObject c)).2.EveryClass P := by
  intro s d hd
  rw [class?_eq_some, body?_allocateLinked] at hd
  split at hd
  · cases hd
    exact hc
  · exact hall s d (class?_eq_some.2 hd)

theorem newClass (hall : h.EveryClass P) (hu : ClassObject.Upheld named redefining P)
    (base : Option Ref) {name : String} (hname : named name) :
    (h.newClass base name).2.EveryClass P := by
  have hmake (c : ClassObject) (hc : P c) :
      ((h.retainRefs (Body.classObject c).refs).allocateLinked (.classObject c)).2.EveryClass P :=
    allocateClass ((SameLayouts.retainRefs h _).everyClass hall) hc
  unfold Heap.newClass
  cases base with
  | none => exact hmake _ (hu.empty name hname)
  | some b =>
    cases hb : h.class? b with
    | none =>
      simp only [hb]
      exact hmake _ (hu.empty name hname)
    | some c =>
      simp only [hb]
      exact hmake _ (hu.derived c b name hname (hall b c hb))

theorem lockFrom (hall : h.EveryClass P) (hu : ClassObject.Upheld named redefining P) (fuel : Nat)
    (r : Ref) : (h.lockFrom fuel r).EveryClass P := by
  induction fuel generalizing h r with
  | zero => exact hall
  | succ fuel ih =>
    unfold Heap.lockFrom
    split
    · exact hall
    · have hlocked := hall.modifyClass (r := r) fun _ _ hc => hu.locked _ hc
      split
      · exact hlocked
      · exact ih hlocked _

theorem newInstance (hall : h.EveryClass P) (hu : ClassObject.Upheld named redefining P)
    (cls : Ref) : (h.newInstance cls).2.EveryClass P := by
  have hmake (vs : List Value) : ((((h.lock cls).deepCopyAll vs).2.retainRef cls).allocateLinked
      (.instanceObject cls ((h.lock cls).deepCopyAll vs).1)).2.EveryClass P := by
    have hcopied := ((SameLayouts.deepCopyAll _ vs).trans (.retainRef _ cls)).everyClass
      (hall.lockFrom hu (cls.id + 1) cls)
    exact fun s c hc => hcopied s c (class?_allocateLinked _ Kind.noConfusion s hc)
  unfold Heap.newInstance
  cases hc : (h.lock cls).class? cls with
  | none =>
    simp only [hc]
    exact hmake []
  | some c =>
    simp only [hc]
    exact hmake _

theorem replaceEntry (hall : h.EveryClass P) (hu : ClassObject.Upheld named redefining P) (r : Ref)
    (c : ClassObject) (m : Member) (v : Value) : (h.replaceEntry r c m v).EveryClass P := by
  have hstored := hall.modifyClass (r := r) fun d _ hd =>
    hu.modifyEntry d m (fun (e : ClassMember) => { e with value := v }) (fun _ => rfl) hd
  exact (SameLayouts.release _ _).everyClass hstored

theorem classSet (hall : h.EveryClass P) (hu : ClassObject.Upheld named redefining P) (r : Ref)
    (name : String) (v : Value) : (h.classSet r name v).2.EveryClass P := by
  unfold Heap.classSet
  split
  · exact (SameLayouts.release h v).everyClass hall
  · split
    · exact hall.replaceEntry hu r _ _ v
    · exact (SameLayouts.release h v).everyClass hall

theorem setMemberAttributes (hall : h.EveryClass P) (hu : ClassObject.Upheld named redefining P)
    (r : Ref) (name : String) (v : Value) : (h.setMemberAttributes r name v).2.EveryClass P := by
  unfold Heap.setMemberAttributes
  split
  · exact (SameLayouts.release h v).everyClass hall
  · split
    · next m _ =>
      have hstored := hall.modifyClass (r := r) fun d _ hd =>
        hu.modifyEntry d m (fun (e : ClassMember) => { e with attributes := v }) (fun _ => rfl) hd
      exact (SameLayouts.release _ _).everyClass hstored
    · exact (SameLayouts.release h v).everyClass hall

end EveryClass

/-- A plain value is stored under the name of a method, in a class that takes fields. -/
def Redefines (h : Heap) (r : Ref) (key : Text) (v : Value) (isStatic : Bool) : Prop :=
  (v.isFunction || isStatic) = false ∧ ∃ c i, h.class? r = some c ∧
    c.member? key.chars = some (.method i) ∧ c.locked = false ∧
    c.members.length < ClassObject.maxMembers

theorem EveryClass.classNewSlot (hall : h.EveryClass P)
    (hu : ClassObject.Upheld named redefining P) {r : Ref} {key : Text} {v : Value} {isStatic : Bool}
    (hallowed : h.Redefines r key v isStatic → redefining) :
    (h.classNewSlot r key v isStatic).2.EveryClass P := by
  have hrefuse : ((h.release v).releaseRef key.ref).EveryClass P :=
    ((SameLayouts.release h v).trans (.releaseRef _ _)).everyClass hall
  unfold Heap.classNewSlot
  cases hc : h.class? r with
  | none => exact hrefuse
  | some c =>
    simp only
    split
    · exact hrefuse
    · next hopen =>
      split
      · exact (SameLayouts.releaseRef _ _).everyClass (hall.replaceEntry hu r c _ v)
      · next hfield =>
        split
        · exact hrefuse
        · next hroom =>
          split
          · next hplain =>
            -- a field: the name is new, or that of a method
            have hretain : SameLayouts h (if (c.member? key.chars).isSome then h
                else h.retainRef key.ref) := by
              split
              · exact .refl h
              · exact .retainRef h _
            refine (hretain.everyClass hall).modifyClass fun d hd hkept => ?_
            have hd' := hretain.class? hd
            rw [hc, Option.some.injEq] at hd'
            subst hd'
            have hshared : (v.isFunction || isStatic) = false := by simpa using hplain
            refine hu.addField c key v hfield
              (fun i hi => hallowed ⟨hshared, c, i, hc, hi, ?_, ?_⟩) hkept
            · simpa [hshared] using hopen
            · exact Nat.not_le.1 hroom
          · split
            · next m _ =>
              have hset := hall.modifyClass (r := r) fun _ _ hd => hu.setMeta _ m v hd
              exact ((SameLayouts.release _ _).trans (.releaseRef _ _)).everyClass hset
            · have hbound := Respects.asMethod (h := h) r c key.chars v
              split
              · exact (SameLayouts.releaseRef _ _).everyClass
                  ((hbound.everyClass hall).replaceEntry hu r c _ _)
              · next hmethod =>
                have hretain := hbound.trans (.retainRef _ key.ref)
                refine (hretain.everyClass hall).modifyClass fun d hd hkept => ?_
                have hd' := hretain.class? hd
                rw [hc, Option.some.injEq] at hd'
                subst hd'
                refine hu.addMethod c key _ ?_ hkept
                cases hm : c.member? key.chars with
                | none => rfl
                | some m =>
                  cases m with
                  | field i => exact absurd hm (hfield i)
                  | method i => exact absurd hm (hmethod i)

/-- A method is left behind when a plain value is stored under its name. -/
theorem Redefines.overtaken {r : Ref} {c : ClassObject} {key : Text} {v : Value} {isStatic : Bool}
    (hstore : h.Redefines r key v isStatic) (hc : h.class? r = some c) (htabled : c.Tabled ctor) :
    ∃ d, (h.classNewSlot r key v isStatic).2.class? r = some d ∧ d.Overtaken key.chars := by
  obtain ⟨hshared, c', i, hc', hi, hopen, hroom⟩ := hstore
  rw [hc, Option.some.injEq] at hc'
  subst hc'
  have hslot : (h.classNewSlot r key v isStatic).2 =
      h.modifyClass r fun (c : ClassObject) => c.addField key v := by
    simp only [Heap.classNewSlot, hc, hi, hshared, hopen, Bool.false_and, Bool.false_eq_true, if_false,
      if_neg (Nat.not_le.2 hroom), Bool.not_false, if_true, Option.isSome_some]
  refine ⟨c.addField key v, ?_, ?_, c.fields.length, ?_⟩
  · rw [hslot, class?_modifyClass, if_pos rfl, hc, Option.map_some]
  · exact List.mem_of_getElem? (htabled.found i _ hi)
  · rw [ClassObject.member?_addField, if_pos rfl]

/-! ## Histories -/

/-- One use of the classes of a heap, where all classes are made with one name for
the constructor, or of the heap beside them. Plain values are stored under the names
of methods only when that is allowed. -/
inductive TableStep (ctor : String) (redefining : Prop) : Heap → Heap → Prop
  | newClass {h : Heap} (base : Option Ref) :
    TableStep ctor redefining h (h.newClass base ctor).2
  | newSlot {h : Heap} (r : Ref) (key : Text) (v : Value) (isStatic : Bool) :
    (h.Redefines r key v isStatic → redefining) →
    TableStep ctor redefining h (h.classNewSlot r key v isStatic).2
  | assign {h : Heap} (r : Ref) (name : String) (v : Value) :
    TableStep ctor redefining h (h.classSet r name v).2
  | annotate {h : Heap} (r : Ref) (name : String) (v : Value) :
    TableStep ctor redefining h (h.setMemberAttributes r name v).2
  | instantiate {h : Heap} (r : Ref) : TableStep ctor redefining h (h.newInstance r).2
  | elsewhere {h h' : Heap} : SameLayouts h h' → TableStep ctor redefining h h'

abbrev TableRun (ctor : String) (redefining : Prop) : Heap → Heap → Prop :=
  Relation.ReflTransGen (TableStep ctor redefining)

theorem TableStep.kept (hstep : TableStep ctor redefining h h')
    (hall : h.EveryClass (ClassObject.Kept ctor redefining)) :
    h'.EveryClass (ClassObject.Kept ctor redefining) := by
  have hu := ClassObject.kept_upheld ctor redefining
  cases hstep with
  | newClass base => exact hall.newClass hu base rfl
  | newSlot r key v isStatic hallowed => exact hall.classNewSlot hu hallowed
  | assign r name v => exact hall.classSet hu r name v
  | annotate r name v => exact hall.setMemberAttributes hu r name v
  | instantiate r => exact hall.newInstance hu r
  | elsewhere hs => exact hs.everyClass hall

theorem TableRun.kept (hrun : TableRun ctor redefining h h')
    (hall : h.EveryClass (ClassObject.Kept ctor redefining)) :
    h'.EveryClass (ClassObject.Kept ctor redefining) := by
  induction hrun with
  | refl => exact hall
  | tail _ hstep ih => exact hstep.kept ih

/-- The tables of a class agree about all names but those that were overtaken, and no
name is in a history that stores no plain value under the name of a method. Each such
store overtakes the name. -/
theorem tables_agree {h₀ h : Heap} (hnone : ∀ r b, h₀.body? r = some b → Bare b)
    (hrun : TableRun ctor redefining h₀ h) {r : Ref} {c : ClassObject} (hc : h.class? r = some c) :
    c.CoherentBut c.Overtaken ∧ (c.Coherent ↔ ∀ name, ¬ c.Overtaken name) ∧
      (¬ redefining → c.Coherent) ∧
      ∀ key v isStatic, h.Redefines r key v isStatic →
        ∃ d, (h.classNewSlot r key v isStatic).2.class? r = some d ∧ d.Overtaken key.chars := by
  have hall₀ : h₀.EveryClass (ClassObject.Kept ctor redefining) :=
    fun s d hd => absurd rfl (hnone s _ (class?_eq_some.1 hd)).1
  have hkept := hrun.kept hall₀ r c hc
  have hiff := ClassObject.coherent_iff hkept.tabled
  refine ⟨hkept.tabled.coherentBut, hiff, fun hnever => ?_, fun key v isStatic hstore => ?_⟩
  · exact hiff.2 fun name h => hnever (hkept.overtaken name h)
  · exact hstore.overtaken hc hkept.tabled

/-- A class whose constructor is a static value. -/
def constructorName : Text × Heap := ({} : Heap).allocateText "init"

def constructedClass : Ref × Heap := constructorName.2.newClass none "init"

def constructed : Heap :=
  (constructedClass.2.classNewSlot constructedClass.1 constructorName.1 (.integer 1) true).2

theorem constructorName_bare (r : Ref) (b : Body) (hr : constructorName.2.body? r = some b) :
    Bare b := by
  simp only [constructorName, allocateText, body?, cell?_allocate] at hr
  split at hr
  · cases hr
    exact ⟨Kind.noConfusion, Kind.noConfusion⟩
  · cases hr

theorem constructed_run (redefining : Prop) :
    TableRun "init" redefining constructorName.2 constructed := by
  refine (Relation.ReflTransGen.single (.newClass none)).tail (.newSlot _ _ _ _ fun hstore => ?_)
  have hshared : (false || true) = false := hstore.1
  cases hshared

theorem tables_agree_constructed :
    ∃ c, constructed.class? constructedClass.1 = some c ∧ c.Coherent ∧
      c.memberNames = ["init"] ∧ c.constructor? = some (.integer 1) := by
  obtain ⟨c, hc, hnames, hctor⟩ : ∃ c, constructed.class? constructedClass.1 = some c ∧
      c.memberNames = ["init"] ∧ c.constructor? = some (.integer 1) := ⟨_, rfl, rfl, rfl⟩
  have hagree := tables_agree constructorName_bare (constructed_run False) hc
  exact ⟨c, hc, hagree.2.2.1 id, hnames, hctor⟩

/-- The same class with a field in place of the constructor. -/
def reconstructed : Heap :=
  (constructed.classNewSlot constructedClass.1 constructorName.1 (.integer 2) false).2

/-- The name of the constructor leads to a field and is listed twice, and the class
still has the constructor. -/
theorem constructor_outlives_name :
    TableRun "init" True constructorName.2 reconstructed ∧
    ∃ c, reconstructed.class? constructedClass.1 = some c ∧ c.memberNames = ["init", "init"] ∧
      c.member? "init" = some (.field 0) ∧ c.method? "init" = none ∧
      c.constructor? = some (.integer 1) ∧ ¬ c.Coherent := by
  refine ⟨(constructed_run True).tail (.newSlot _ _ _ _ fun _ => trivial), _, rfl, rfl, rfl, rfl, rfl,
    fun hcoherent => ?_⟩
  have htwice := hcoherent.once "init" id
  revert htwice
  decide

end Heap

end ScriptMachine
