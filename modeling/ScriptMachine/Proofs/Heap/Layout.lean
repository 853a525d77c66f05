import ScriptMachine.Proofs.Heap.Classes

/-!
# The layout of instances

A class that has had an instance, of its own or through a derived class, is
locked together with its ancestors. Its fields stay in number from then on, so an
instance has a value for every name that leads to a field.
-/

set_option autoImplicit false

namespace ScriptMachine

/-! ## Tables of one class -/

namespace ClassObject

/-- Names lead to fields that exist. -/
def FieldsFit (c : ClassObject) : Prop :=
  ∀ name i, c.member? name = some (.field i) → i < c.fields.length

/-- What may become of a class. -/
structure Becomes (c d : ClassObject) : Prop where
  base : d.base = c.base
  locked : c.locked = true → d.locked = true ∧ d.fields.length = c.fields.length
  fit : c.FieldsFit → d.FieldsFit

variable {c d : ClassObject}

theorem Becomes.refl (c : ClassObject) : c.Becomes c := ⟨rfl, fun h => ⟨h, rfl⟩, id⟩

theorem Becomes.trans {e : ClassObject} (h1 : c.Becomes d) (h2 : d.Becomes e) : c.Becomes e where
  base := h2.base.trans h1.base
  locked := fun hc => by
    obtain ⟨hd, hlen⟩ := h1.locked hc
    obtain ⟨he, hlen'⟩ := h2.locked hd
    exact ⟨he, hlen'.trans hlen⟩
  fit := h2.fit ∘ h1.fit

/-- Fields and names as before, and a lock that is not taken away. -/
theorem Becomes.of_same (hbase : d.base = c.base) (hlocked : c.locked = true → d.locked = true)
    (hfields : d.fields.length = c.fields.length) (hmembers : d.members = c.members) :
    c.Becomes d where
  base := hbase
  locked := fun h => ⟨hlocked h, hfields⟩
  fit := fun hf name i hi => by
    rw [hfields]
    refine hf name i ?_
    rwa [member?, ← hmembers]

theorem becomes_modifyEntry (c : ClassObject) (m : Member) (f : ClassMember → ClassMember) :
    c.Becomes (c.modifyEntry m f) := by
  cases m with
  | field i => exact .of_same rfl id (List.length_modify ..) rfl
  | method i => exact .of_same rfl id rfl rfl

theorem becomes_setMeta (c : ClassObject) (m : MetaMethod) (v : Value) : c.Becomes (c.setMeta m v) :=
  .of_same rfl id rfl rfl

theorem becomes_locked (c : ClassObject) : c.Becomes { c with locked := true } :=
  .of_same rfl (fun _ => rfl) rfl rfl

/-- Directing a name leaves the other names where they led. -/
theorem find_direct (members : List (Text × Member)) (key : Text) (m : Member) (name : String) :
    ((direct members key m).find? fun (e : Text × Member) => e.1.chars == name).map (·.2) =
      if key.chars = name then some m
      else (members.find? fun (e : Text × Member) => e.1.chars == name).map (·.2) := by
  induction members with
  | nil => by_cases h : key.chars = name <;> simp [direct, h]
  | cons e rest ih =>
    obtain ⟨k, old⟩ := e
    unfold direct
    by_cases hk : k.chars = key.chars
    · rw [if_pos hk]
      by_cases h : key.chars = name
      · simp [hk, h]
      · simp [hk, h]
    · rw [if_neg hk]
      by_cases hkn : k.chars = name
      · have hne : key.chars ≠ name := fun h => hk (hkn.trans h.symm)
        simp [hkn, hne]
      · simp only [List.find?_cons, beq_eq_false_iff_ne.2 hkn]
        exact ih

theorem member?_addField (c : ClassObject) (key : Text) (v : Value) (name : String) :
    (c.addField key v).member? name =
      if key.chars = name then some (.field c.fields.length) else c.member? name :=
  find_direct ..

theorem member?_addMethod (c : ClassObject) (key : Text) (v : Value) (name : String) :
    (c.addMethod key v).member? name =
      if key.chars = name then some (.method c.methods.length) else c.member? name :=
  find_direct ..

theorem becomes_addField (key : Text) (v : Value) (hc : c.locked = false) :
    c.Becomes (c.addField key v) where
  base := rfl
  locked := fun h => by simp [hc] at h
  fit := fun hf name i hi => by
    rw [member?_addField] at hi
    have hlen : (c.addField key v).fields.length = c.fields.length + 1 := by simp [addField]
    rw [hlen]
    split at hi
    · cases hi
      exact Nat.lt_succ_self _
    · exact Nat.lt_succ_of_lt (hf name i hi)

theorem becomes_addMethod (c : ClassObject) (key : Text) (v : Value) :
    c.Becomes (c.addMethod key v) where
  base := rfl
  locked := fun h => ⟨h, rfl⟩
  fit := fun hf name i hi => by
    rw [member?_addMethod] at hi
    split at hi
    · cases hi
    · exact hf name i hi

theorem fieldsFit_empty (name : String) : (ClassObject.empty name).FieldsFit :=
  fun _ _ h => by cases h

theorem FieldsFit.derived {b : ClassObject} (hb : b.FieldsFit) (base : Ref) (name : String) :
    (ClassObject.derived base b name).FieldsFit := hb

end ClassObject

namespace Heap

variable {l : Law} {own own' : Multiset Value} {h h' h'' : Heap}

/-! ## Layouts -/

/-- The object is neither a class nor an instance. -/
def Bare (b : Body) : Prop := b.kind ≠ .classObject ∧ b.kind ≠ .instanceObject

/-- Names lead to fields that exist, and an instance has a value for each field
of its class, which is locked. -/
structure LaidOut (h : Heap) : Prop where
  fit : ∀ r c, h.class? r = some c → c.FieldsFit
  known : ∀ i cls vs, h.instance? i = some (cls, vs) → cls.id < h.cells.size
  instances : ∀ i cls vs c, h.instance? i = some (cls, vs) → h.class? cls = some c →
    c.locked = true ∧ vs.length = c.fields.length

/-- The classes of the first heap that live on in the second have become what
they may, and layouts are kept. -/
structure Respects (h h' : Heap) : Prop where
  size : h.cells.size ≤ h'.cells.size
  classes : ∀ r d, r.id < h.cells.size → h'.class? r = some d → ∃ c, h.class? r = some c ∧ c.Becomes d
  laidOut : h.LaidOut → h'.LaidOut

namespace Respects

theorem refl (h : Heap) : Respects h h where
  size := Nat.le_refl _
  classes := fun _ d _ hd => ⟨d, hd, .refl d⟩
  laidOut := id

theorem trans (h1 : Respects h h') (h2 : Respects h' h'') : Respects h h'' where
  size := Nat.le_trans h1.size h2.size
  classes := fun r e hr he => by
    obtain ⟨d, hd, hde⟩ := h2.classes r e (Nat.lt_of_lt_of_le hr h1.size) he
    obtain ⟨c, hc, hcd⟩ := h1.classes r d hr hd
    exact ⟨c, hc, hcd.trans hde⟩
  laidOut := h2.laidOut ∘ h1.laidOut

end Respects

/-! ### Where no class and no instance changes -/

/-- Classes and instances are as they were, as far as they live. -/
structure SameLayouts (h h' : Heap) : Prop where
  size : h.cells.size ≤ h'.cells.size
  bodies : ∀ r b, h'.body? r = some b → h.body? r = some b ∨ Bare b

namespace SameLayouts

theorem refl (h : Heap) : SameLayouts h h := ⟨Nat.le_refl _, fun _ _ hb => .inl hb⟩

theorem trans (h1 : SameLayouts h h') (h2 : SameLayouts h' h'') : SameLayouts h h'' where
  size := Nat.le_trans h1.size h2.size
  bodies := fun r b hb => (h2.bodies r b hb).elim (h1.bodies r b) .inr

theorem of_trims (ht : Trims h h') : SameLayouts h h' where
  size := Nat.le_of_eq ht.size.symm
  bodies := fun _ _ hb => .inl (ht.body? hb)

theorem retainRef (h : Heap) (r : Ref) : SameLayouts h (h.retainRef r) where
  size := Nat.le_of_eq (size_modifyCell ..).symm
  bodies := fun s b hb => .inl (by rwa [body?_retainRef] at hb)

theorem retain (h : Heap) (v : Value) : SameLayouts h (h.retain v) := by
  unfold Heap.retain
  split
  · exact retainRef h _
  · exact refl h

theorem retainRefs (h : Heap) (rs : List Ref) : SameLayouts h (h.retainRefs rs) := by
  induction rs generalizing h with
  | nil => exact refl h
  | cons r rs ih => exact (retainRef h r).trans (ih _)

theorem releaseRef (h : Heap) (r : Ref) : SameLayouts h (h.releaseRef r) :=
  of_trims (trims_releaseRefs h [r])

theorem release (h : Heap) (v : Value) : SameLayouts h (h.release v) := by
  unfold Heap.release
  split
  · exact releaseRef h _
  · exact refl h

theorem allocateLinked {b : Body} (h : Heap) (hb : Bare b) : SameLayouts h (h.allocateLinked b).2 where
  size := (grows_allocateLinked h b).size ▸ Nat.le_succ _
  bodies := fun s d hd => by
    rw [body?_allocateLinked] at hd
    split at hd
    · cases hd
      exact .inr hb
    · exact .inl hd

theorem modifyBody {f : Body → Body} (h : Heap) (r : Ref) (hf : ∀ b, f b = b ∨ Bare (f b)) :
    SameLayouts h (h.modifyBody r f) where
  size := Nat.le_of_eq (size_modifyCell ..).symm
  bodies := fun s d hd => by
    cases hr : h.body? r with
    | none =>
      rw [modifyBody_same fun b hb => absurd (hr.symm.trans hb) (Option.some_ne_none b).symm] at hd
      exact .inl hd
    | some b =>
      rw [modifyBody_eq hr, body?_setBody hr] at hd
      split at hd
      · rename_i hs
        cases hd
        rcases hf b with heq | hbare
        · exact .inl (by rw [hs, hr, heq])
        · exact .inr hbare
      · exact .inl hd

theorem class? (hs : SameLayouts h h') {r : Ref} {c : ClassObject} (hc : h'.class? r = some c) :
    h.class? r = some c := by
  rw [class?_eq_some] at hc ⊢
  exact (hs.bodies r _ hc).resolve_right fun hb => hb.1 rfl

theorem instance? (hs : SameLayouts h h') {r cls : Ref} {vs : List Value}
    (hi : h'.instance? r = some (cls, vs)) : h.instance? r = some (cls, vs) := by
  rw [instance?_eq_some] at hi ⊢
  exact (hs.bodies r _ hi).resolve_right fun hb => hb.2 rfl

theorem respects (hs : SameLayouts h h') : Respects h h' where
  size := hs.size
  classes := fun _ d _ hd => ⟨d, hs.class? hd, .refl d⟩
  laidOut := fun hl =>
    { fit := fun r c hc => hl.fit r c (hs.class? hc)
      known := fun i cls vs hi => Nat.lt_of_lt_of_le (hl.known i cls vs (hs.instance? hi)) hs.size
      instances := fun i cls vs c hi hc => hl.instances i cls vs c (hs.instance? hi) (hs.class? hc) }

/-! #### Copying -/

theorem pushItem (h : Heap) (r : Ref) (v : Value) : SameLayouts h (h.pushItem r v) := by
  unfold Heap.pushItem modifyItems
  refine modifyBody h r fun b => ?_
  cases b with
  | array xs => exact .inr ⟨Kind.noConfusion, Kind.noConfusion⟩
  | content | weak | dict | closure | native | classObject | instanceObject | outer => exact .inl rfl

theorem dictInsert (h : Heap) (r : Ref) (key : Text) (v : Value) :
    SameLayouts h (h.dictInsert r key v) := by
  have hset : SameLayouts h (h.setBody r (.dict ((h.entries r).insert key v))) :=
    modifyBody (f := fun _ => _) h r fun b => .inr ⟨Kind.noConfusion, Kind.noConfusion⟩
  simp only [Heap.dictInsert]
  split
  · exact hset.trans ((releaseRef _ _).trans (release _ _))
  · exact hset

/-- Whatever a copier is given, it changes no class and no instance. -/
def OfCopier (copy : Copier) : Prop := ∀ v copies h, SameLayouts h (copy v copies h).2.2

theorem copyItems {copy : Copier} (hcopy : OfCopier copy) (into : Ref) (vs : List Value)
    (copies : Copies) (h : Heap) : SameLayouts h (copyItems copy into vs copies h).2 := by
  induction vs generalizing copies h with
  | nil => exact refl h
  | cons v vs ih => exact (hcopy v copies h).trans ((pushItem _ into _).trans (ih _ _))

theorem copyEntries {copy : Copier} (hcopy : OfCopier copy) (into : Ref) (es : List Entry)
    (copies : Copies) (h : Heap) : SameLayouts h (copyEntries copy into es copies h).2 := by
  induction es generalizing copies h with
  | nil => exact refl h
  | cons e es ih =>
    exact (hcopy e.2 copies h).trans ((retainRef _ _).trans ((dictInsert _ into _ _).trans (ih _ _)))

theorem copyWithin (fuel : Nat) : OfCopier (copyWithin fuel) := by
  induction fuel with
  | zero => exact fun v copies h => retain h v
  | succ fuel ih =>
    intro v copies h
    cases v with
    | array r =>
      simp only [Heap.copyWithin]
      split
      · exact retainRef h _
      · exact (allocateLinked h ⟨Kind.noConfusion, Kind.noConfusion⟩).trans (copyItems ih _ _ _ _)
    | dict r =>
      simp only [Heap.copyWithin]
      split
      · exact retainRef h _
      · exact (allocateLinked h ⟨Kind.noConfusion, Kind.noConfusion⟩).trans (copyEntries ih _ _ _ _)
    | null | integer | float | complex | bool | string | space | prototype | closure | native |
      classObject | instanceObject | weak | outer =>
      simp only [Heap.copyWithin]
      exact retain h _

theorem deepCopyAll (h : Heap) (vs : List Value) : SameLayouts h (h.deepCopyAll vs).2 := by
  induction vs generalizing h with
  | nil => exact refl h
  | cons v vs ih => exact (copyWithin _ v [] h).trans (ih _)

end SameLayouts

theorem length_deepCopyAll (h : Heap) (vs : List Value) :
    (h.deepCopyAll vs).1.length = vs.length := by
  induction vs generalizing h with
  | nil => rfl
  | cons v vs ih => exact congrArg (· + 1) (ih _)

/-! ### Where a class or an instance changes -/

theorem body?_retainRefs (h : Heap) (rs : List Ref) (s : Ref) :
    (h.retainRefs rs).body? s = h.body? s := by
  induction rs generalizing h with
  | nil => rfl
  | cons r rs ih => exact (ih _).trans (body?_retainRef h r s)

theorem class?_setBody {r : Ref} {c d : ClassObject} (hc : h.class? r = some c) (s : Ref) :
    (h.setBody r (.classObject d)).class? s = if s = r then some d else h.class? s := by
  simp only [Heap.class?, body?_setBody (class?_eq_some.1 hc)]
  by_cases hs : s = r <;> simp [hs]

theorem instance?_setBody_class {r : Ref} {c d : ClassObject} (hc : h.class? r = some c) (s : Ref) :
    (h.setBody r (.classObject d)).instance? s = h.instance? s := by
  have hbody := class?_eq_some.1 hc
  simp only [Heap.instance?, body?_setBody hbody]
  by_cases hs : s = r <;> simp [hs, hbody]

theorem class?_allocateLinked (h : Heap) {b : Body} (hb : b.kind ≠ .classObject) (s : Ref)
    {c : ClassObject} (hc : (h.allocateLinked b).2.class? s = some c) : h.class? s = some c := by
  rw [class?_eq_some, body?_allocateLinked] at hc
  split at hc
  · cases hc
    exact absurd rfl hb
  · exact class?_eq_some.2 hc

namespace Respects

theorem setClass {r : Ref} {c d : ClassObject} (hc : h.class? r = some c) (hd : c.Becomes d) :
    Respects h (h.setBody r (.classObject d)) where
  size := Nat.le_of_eq (size_modifyCell ..).symm
  classes := fun s e _ he => by
    rw [class?_setBody hc] at he
    split at he
    · rename_i hs
      cases he
      exact ⟨c, hs ▸ hc, hd⟩
    · exact ⟨e, he, .refl e⟩
  laidOut := fun hl => by
    refine ⟨fun s e he => ?_, fun i cls vs hi => ?_, fun i cls vs e hi he => ?_⟩
    · rw [class?_setBody hc] at he
      split at he
      · cases he
        exact hd.fit (hl.fit r c hc)
      · exact hl.fit s e he
    · rw [instance?_setBody_class hc] at hi
      exact Nat.lt_of_lt_of_eq (hl.known i cls vs hi) (size_modifyCell ..).symm
    · rw [instance?_setBody_class hc] at hi
      rw [class?_setBody hc] at he
      split at he
      · rename_i hs
        cases he
        obtain ⟨hlock, hlen⟩ := hl.instances i cls vs c hi (hs ▸ hc)
        obtain ⟨hlock', hlen'⟩ := hd.locked hlock
        exact ⟨hlock', hlen.trans hlen'.symm⟩
      · exact hl.instances i cls vs e hi he

theorem modifyClass {r : Ref} {f : ClassObject → ClassObject}
    (hf : ∀ c, h.class? r = some c → c.Becomes (f c)) : Respects h (h.modifyClass r f) := by
  cases hc : h.class? r with
  | some c => exact modifyClass_eq hc f ▸ setClass hc (hf c hc)
  | none =>
    have hsame : h.modifyClass r f = h := modifyBody_same fun b hb => by
      cases b with
      | classObject c => exact absurd (class?_eq_some.2 hb) (by simp [hc])
      | content | weak | array | dict | closure | native | instanceObject | outer => rfl
    rw [hsame]
    exact refl h

theorem setInstance {r cls : Ref} {vs ws : List Value} (hi : h.instance? r = some (cls, vs))
    (hlen : ws.length = vs.length) : Respects h (h.setBody r (.instanceObject cls ws)) := by
  have hbody := instance?_eq_some.1 hi
  have hclass : ∀ s c, (h.setBody r (.instanceObject cls ws)).class? s = some c →
      h.class? s = some c := by
    intro s c hc
    rw [class?_eq_some, body?_setBody hbody] at hc
    split at hc
    · cases hc
    · exact class?_eq_some.2 hc
  have hinst : ∀ s d us, (h.setBody r (.instanceObject cls ws)).instance? s = some (d, us) →
      ∃ us', h.instance? s = some (d, us') ∧ us.length = us'.length := by
    intro s d us hs
    rw [instance?_eq_some, body?_setBody hbody] at hs
    split at hs
    · rename_i heq
      cases hs
      exact ⟨vs, heq ▸ hi, hlen⟩
    · exact ⟨us, instance?_eq_some.2 hs, rfl⟩
  refine ⟨Nat.le_of_eq (size_modifyCell ..).symm, fun s d _ hd => ⟨d, hclass s d hd, .refl d⟩,
    fun hl => ⟨fun s c hc => hl.fit s c (hclass s c hc), fun s d us hs => ?_,
      fun s d us c hs hc => ?_⟩⟩
  · obtain ⟨us', hs', -⟩ := hinst s d us hs
    exact Nat.lt_of_lt_of_eq (hl.known s d us' hs') (size_modifyCell ..).symm
  · obtain ⟨us', hs', hlen'⟩ := hinst s d us hs
    obtain ⟨hlock, hfields⟩ := hl.instances s d us' c hs' (hclass d c hc)
    exact ⟨hlock, hlen'.trans hfields⟩

/-! ### New classes and instances -/

theorem allocateClass {c : ClassObject} (hfit : h.LaidOut → c.FieldsFit) :
    Respects h (h.allocateLinked (.classObject c)).2 := by
  have hclass : ∀ s d, (h.allocateLinked (.classObject c)).2.class? s = some d →
      s = ⟨h.cells.size⟩ ∧ d = c ∨ h.class? s = some d := by
    intro s d hd
    rw [class?_eq_some, body?_allocateLinked] at hd
    split at hd
    · rename_i hs
      cases hd
      exact .inl ⟨hs, rfl⟩
    · exact .inr (class?_eq_some.2 hd)
  have hinst : ∀ s cls vs, (h.allocateLinked (.classObject c)).2.instance? s = some (cls, vs) →
      h.instance? s = some (cls, vs) := by
    intro s cls vs hs
    rw [instance?_eq_some, body?_allocateLinked] at hs
    split at hs
    · cases hs
    · exact instance?_eq_some.2 hs
  have hsize := (grows_allocateLinked h (.classObject c)).size
  refine ⟨hsize ▸ Nat.le_succ _, fun s d hs hd => ?_, fun hl => ⟨fun s d hd => ?_,
    fun i cls vs hi => ?_, fun i cls vs d hi hd => ?_⟩⟩
  · rcases hclass s d hd with ⟨rfl, -⟩ | hd
    · exact absurd hs (Nat.lt_irrefl _)
    · exact ⟨d, hd, .refl d⟩
  · rcases hclass s d hd with ⟨-, rfl⟩ | hd
    · exact hfit hl
    · exact hl.fit s d hd
  · rw [hsize]
    exact Nat.lt_succ_of_lt (hl.known i cls vs (hinst i cls vs hi))
  · have hi' := hinst i cls vs hi
    rcases hclass cls d hd with ⟨rfl, -⟩ | hd
    · exact absurd (hl.known i _ vs hi') (Nat.lt_irrefl _)
    · exact hl.instances i cls vs d hi' hd

theorem newClass (h : Heap) (base : Option Ref) (name : String) :
    Respects h (h.newClass base name).2 := by
  have hmake : ∀ c : ClassObject, (∀ rs, (h.retainRefs rs).LaidOut → c.FieldsFit) →
      Respects h ((h.retainRefs (Body.classObject c).refs).allocateLinked (.classObject c)).2 :=
    fun c hc => (SameLayouts.retainRefs h _).respects.trans (allocateClass (hc _))
  unfold Heap.newClass
  cases base with
  | none => exact hmake _ fun _ _ => ClassObject.fieldsFit_empty name
  | some b =>
    cases hb : h.class? b with
    | none =>
      simp only [hb]
      exact hmake _ fun _ _ => ClassObject.fieldsFit_empty name
    | some c =>
      simp only [hb]
      refine hmake _ fun rs hl => (hl.fit b c ?_).derived b name
      rwa [Heap.class?, body?_retainRefs]

/-! ### Locking -/

theorem lockFrom (fuel : Nat) (r : Ref) : Respects h (h.lockFrom fuel r) := by
  induction fuel generalizing h r with
  | zero => exact refl h
  | succ fuel ih =>
    unfold Heap.lockFrom
    cases hc : h.class? r with
    | none => exact refl h
    | some c =>
      have hlock : Respects h (h.modifyClass r fun (c : ClassObject) => { c with locked := true }) :=
        modifyClass fun c _ => c.becomes_locked
      simp only
      split
      · exact hlock
      · exact hlock.trans (ih _)

end Respects

/-- Locking leaves all of a class but its lock. -/
theorem class?_lockFrom (fuel : Nat) (r : Ref) {s : Ref} {c : ClassObject}
    (hc : h.class? s = some c) : (h.lockFrom fuel r).class? s = some c ∨
      (h.lockFrom fuel r).class? s = some { c with locked := true } := by
  induction fuel generalizing h r c with
  | zero => exact .inl hc
  | succ fuel ih =>
    unfold Heap.lockFrom
    cases hr : h.class? r with
    | none => exact .inl hc
    | some d =>
      have hone : (h.setBody r (.classObject { d with locked := true })).class? s = some c ∨
          (h.setBody r (.classObject { d with locked := true })).class? s =
            some { c with locked := true } := by
        rw [class?_setBody hr]
        split
        · rename_i hs
          rw [hs, hr, Option.some.injEq] at hc
          exact .inr (by rw [hc])
        · exact .inl hc
      simp only [modifyClass_eq hr]
      split
      · exact hone
      · rename_i b _
        rcases hone with h1 | h1
        · exact ih b h1
        · exact (ih b h1).elim .inr .inr

theorem locked_lock {r : Ref} {c : ClassObject} (hc : (h.lock r).class? r = some c) :
    c.locked = true := by
  unfold lock Heap.lockFrom at hc
  cases hr : h.class? r with
  | none => simp [hr] at hc
  | some d =>
    have hone : (h.setBody r (.classObject { d with locked := true })).class? r =
        some { d with locked := true } := by rw [class?_setBody hr, if_pos rfl]
    simp only [hr, modifyClass_eq hr] at hc
    split at hc
    · rw [hone] at hc
      cases hc
      rfl
    · rename_i b _
      rcases class?_lockFrom r.id b hone with h1 | h1 <;>
        · rw [h1] at hc
          cases hc
          rfl

/-- The second class is the base of the first. -/
def Extends (h : Heap) (r b : Ref) : Prop := (h.class? r).bind (·.base) = some b

/-- The first class is the second, or has it among its ancestors. -/
def Derives (h : Heap) : Ref → Ref → Prop := Relation.ReflTransGen h.Extends

theorem Backs.base_older (hb : h.Backs l own) {r b : Ref} (he : h.Extends r b) : b.id < r.id := by
  obtain ⟨c, hc, hbase⟩ := Option.bind_eq_some_iff.1 he
  obtain ⟨out, hs, -⟩ := hb.sound
  obtain ⟨cell, hcell, hbody⟩ := cell?_of_body? (class?_eq_some.1 hc)
  refine hs.older r cell hcell b ?_
  rw [hbody]
  exact Option.mem_toList.2 hbase

theorem extends_setBody {r x y : Ref} {c d : ClassObject} (hc : h.class? r = some c)
    (hbase : d.base = c.base) : (h.setBody r (.classObject d)).Extends x y ↔ h.Extends x y := by
  rw [Extends, Extends, class?_setBody hc]
  by_cases hx : x = r <;> simp [hx, hc, hbase]

/-- Locking reaches all ancestors. -/
theorem lockFrom_ancestor (fuel : Nat) {r a : Ref} {c : ClassObject}
    (hold : ∀ x y, h.Extends x y → y.id < x.id) (hfuel : r.id < fuel) (hd : h.Derives r a)
    (hc : h.class? a = some c) :
    (h.lockFrom fuel r).class? a = some { c with locked := true } := by
  induction fuel generalizing h r c with
  | zero => exact absurd hfuel (Nat.not_lt_zero _)
  | succ fuel ih =>
    unfold Heap.lockFrom
    rcases Relation.ReflTransGen.cases_head hd with rfl | ⟨b, hrb, hba⟩
    · have hone : (h.setBody r (.classObject { c with locked := true })).class? r =
          some { c with locked := true } := by rw [class?_setBody hc, if_pos rfl]
      simp only [hc, modifyClass_eq hc]
      split
      · exact hone
      · exact (class?_lockFrom fuel _ hone).elim id id
    · obtain ⟨d, hr, hbase⟩ := Option.bind_eq_some_iff.1 hrb
      have hsame := fun x y => extends_setBody (x := x) (y := y) (d := { d with locked := true }) hr rfl
      have hold' : ∀ x y, (h.setBody r (.classObject { d with locked := true })).Extends x y →
          y.id < x.id := fun x y hxy => hold x y ((hsame x y).1 hxy)
      have hba' : (h.setBody r (.classObject { d with locked := true })).Derives b a :=
        Relation.ReflTransGen.mono (fun x y => (hsame x y).2) _ _ hba
      have hlt : b.id < fuel := by
        have := hold r b hrb
        omega
      simp only [hr, modifyClass_eq hr]
      split
      · rename_i hnone
        rw [hbase] at hnone
        cases hnone
      · rename_i b' hb'
        rw [hbase, Option.some.injEq] at hb'
        subst hb'
        by_cases har : a = r
        · rw [har, hr, Option.some.injEq] at hc
          subst hc
          exact ih (c := { d with locked := true }) hold' hlt hba'
            (by rw [class?_setBody hr, if_pos har])
        · exact ih hold' hlt hba' (by rwa [class?_setBody hr, if_neg har])

/-! ### Instances -/

namespace Respects

theorem allocateInstance {cls : Ref} {vs : List Value} (hcls : cls.id < h.cells.size)
    (hlen : ∀ c, h.class? cls = some c → c.locked = true ∧ vs.length = c.fields.length) :
    Respects h (h.allocateLinked (.instanceObject cls vs)).2 := by
  have hsize := (grows_allocateLinked h (.instanceObject cls vs)).size
  have hclass : ∀ s c, (h.allocateLinked (.instanceObject cls vs)).2.class? s = some c →
      h.class? s = some c := fun s c => class?_allocateLinked h Kind.noConfusion s
  have hinst : ∀ s d us, (h.allocateLinked (.instanceObject cls vs)).2.instance? s = some (d, us) →
      d = cls ∧ us = vs ∨ h.instance? s = some (d, us) := by
    intro s d us hs
    rw [instance?_eq_some, body?_allocateLinked] at hs
    split at hs
    · cases hs
      exact .inl ⟨rfl, rfl⟩
    · exact .inr (instance?_eq_some.2 hs)
  refine ⟨hsize ▸ Nat.le_succ _, fun s d _ hd => ⟨d, hclass s d hd, .refl d⟩,
    fun hl => ⟨fun s c hc => hl.fit s c (hclass s c hc), fun s d us hs => ?_,
      fun s d us c hs hc => ?_⟩⟩
  · rw [hsize]
    rcases hinst s d us hs with ⟨rfl, -⟩ | hs
    · exact Nat.lt_succ_of_lt hcls
    · exact Nat.lt_succ_of_lt (hl.known s d us hs)
  · rcases hinst s d us hs with ⟨rfl, rfl⟩ | hs
    · exact hlen c (hclass _ c hc)
    · exact hl.instances s d us c hs (hclass d c hc)

theorem newInstance {cls : Ref} (hcls : cls.id < h.cells.size) :
    Respects h (h.newInstance cls).2 := by
  have hlock : Respects h (h.lock cls) := lockFrom _ _
  have hmake : ∀ vs, (∀ c, (h.lock cls).class? cls = some c → vs.length = c.fields.length) →
      Respects h ((((h.lock cls).deepCopyAll vs).2.retainRef cls).allocateLinked
        (.instanceObject cls ((h.lock cls).deepCopyAll vs).1)).2 := by
    intro vs hvs
    have hcopy := (SameLayouts.deepCopyAll (h.lock cls) vs).trans (.retainRef _ cls)
    have hsize := Nat.lt_of_lt_of_le hcls (Nat.le_trans hlock.size hcopy.size)
    refine hlock.trans (hcopy.respects.trans (allocateInstance hsize fun c hc => ?_))
    have hc' := hcopy.class? hc
    exact ⟨locked_lock hc', (length_deepCopyAll _ vs).trans (hvs c hc')⟩
  unfold Heap.newInstance
  cases hc : (h.lock cls).class? cls with
  | none =>
    simp only [hc]
    exact hmake [] fun c h => by simp [hc] at h
  | some c =>
    simp only [hc]
    refine hmake _ fun d hd => ?_
    rw [hc, Option.some.injEq] at hd
    rw [List.length_map, hd]

/-! ### Members -/

theorem replaceEntry (r : Ref) (c : ClassObject) (m : Member) (v : Value) :
    Respects h (h.replaceEntry r c m v) :=
  (modifyClass fun c _ => c.becomes_modifyEntry m _).trans (SameLayouts.release _ _).respects

theorem asMethod (r : Ref) (c : ClassObject) (name : String) (v : Value) :
    SameLayouts h (h.asMethod r c name v).2 := by
  have hbind : ∀ (f : Ref) (fc : ClosureObject),
      SameLayouts h ((h.bindTo fc r).2.release (.closure f)) := fun f fc =>
    ((SameLayouts.retainRefs h _).trans
      (.allocateLinked _ ⟨Kind.noConfusion, Kind.noConfusion⟩)).trans (.release _ _)
  unfold Heap.asMethod
  split
  · split
    · split
      · exact .refl h
      · exact hbind _ _
    · exact .refl h
  · exact .refl h

theorem classNewSlot (r : Ref) (key : Text) (v : Value) (isStatic : Bool) :
    Respects h (h.classNewSlot r key v isStatic).2 := by
  have hrefuse : Respects h ((h.release v).releaseRef key.ref) :=
    ((SameLayouts.release h v).trans (.releaseRef _ _)).respects
  unfold Heap.classNewSlot
  cases hc : h.class? r with
  | none => exact hrefuse
  | some c =>
    simp only
    split
    · exact hrefuse
    · rename_i hopen
      split
      · exact (replaceEntry r c _ v).trans (SameLayouts.releaseRef _ _).respects
      · split
        · exact hrefuse
        · split
          · rename_i hfield
            have hlocked : c.locked = false := by simpa [hfield] using hopen
            have hretain : SameLayouts h (if (c.member? key.chars).isSome then h
                else h.retainRef key.ref) := by
              split
              · exact .refl h
              · exact .retainRef h _
            refine hretain.respects.trans (modifyClass fun d hd => ?_)
            refine ClassObject.becomes_addField key v ?_
            have hd' := hretain.class? hd
            rw [hc, Option.some.injEq] at hd'
            rw [← hd', hlocked]
          · split
            · exact (modifyClass fun c _ => c.becomes_setMeta _ v).trans
                ((SameLayouts.release _ _).trans (.releaseRef _ _)).respects
            · have hbound := (asMethod (h := h) r c key.chars v).respects
              split
              · exact hbound.trans ((replaceEntry r c _ _).trans (SameLayouts.releaseRef _ _).respects)
              · exact hbound.trans ((SameLayouts.retainRef _ key.ref).respects.trans
                  (modifyClass fun c _ => c.becomes_addMethod key _))

theorem classSet (r : Ref) (name : String) (v : Value) : Respects h (h.classSet r name v).2 := by
  unfold Heap.classSet
  split
  · exact (SameLayouts.release h v).respects
  · split
    · exact replaceEntry r _ _ v
    · exact (SameLayouts.release h v).respects

theorem setMemberAttributes (r : Ref) (name : String) (v : Value) :
    Respects h (h.setMemberAttributes r name v).2 := by
  unfold Heap.setMemberAttributes
  split
  · exact (SameLayouts.release h v).respects
  · split
    · exact (modifyClass fun c _ => c.becomes_modifyEntry _ _).trans (SameLayouts.release _ _).respects
    · exact (SameLayouts.release h v).respects

theorem instanceSet (i : Ref) (name : String) (v : Value) :
    Respects h (h.instanceSet i name v).2 := by
  unfold Heap.instanceSet
  split
  · exact (SameLayouts.release h v).respects
  · rename_i cls vs hi
    split
    · split
      · exact (setInstance hi (List.length_set ..)).trans (SameLayouts.release _ _).respects
      · exact (SameLayouts.release h v).respects
    · exact (SameLayouts.release h v).respects

end Respects

/-! ## Histories of classes -/

/-- One use of the classes of a heap, or of the heap beside them. What is passed
is taken over, and what is returned is owned. -/
inductive ClassStep (l : Law) : Heap × Multiset Value → Heap × Multiset Value → Prop
  | newClass {h : Heap} {own : Multiset Value} (base : Option Ref) (name : String) :
    (∀ b, base = some b → h.Has (.classObject b)) →
    ClassStep l (h, own) ((h.newClass base name).2, .classObject (h.newClass base name).1 ::ₘ own)
  | newSlot {h : Heap} {own : Multiset Value} (r : Ref) (key : Text) (v : Value) (isStatic : Bool) :
    .classObject r ∈ own →
    ClassStep l (h, v ::ₘ .string key ::ₘ own) ((h.classNewSlot r key v isStatic).2, own)
  | assign {h : Heap} {own : Multiset Value} (r : Ref) (name : String) (v : Value) :
    ClassStep l (h, v ::ₘ own) ((h.classSet r name v).2, own)
  | annotate {h : Heap} {own : Multiset Value} (r : Ref) (name : String) (v : Value) :
    ClassStep l (h, v ::ₘ own) ((h.setMemberAttributes r name v).2, own)
  | instantiate {h : Heap} {own : Multiset Value} (r : Ref) : h.Has (.classObject r) →
    ClassStep l (h, own) ((h.newInstance r).2, .instanceObject (h.newInstance r).1 ::ₘ own)
  | assignField {h : Heap} {own : Multiset Value} (i : Ref) (name : String) (v : Value) :
    ClassStep l (h, v ::ₘ own) ((h.instanceSet i name v).2, own)
  | elsewhere {h h' : Heap} {own own' : Multiset Value} : Moves l own' h h' → SameLayouts h h' →
    ClassStep l (h, own) (h', own')

abbrev ClassRun (l : Law) : Heap × Multiset Value → Heap × Multiset Value → Prop :=
  Relation.ReflTransGen (ClassStep l)

theorem Has.lt {v : Value} {r : Ref} (hv : h.Has v) (hr : v.ref? = some r) : r.id < h.cells.size := by
  obtain ⟨b, hb, -⟩ := hv r hr
  exact body?_lt hb

theorem ClassStep.spec {s t : Heap × Multiset Value} (hb : s.1.Backs l s.2) (hst : ClassStep l s t) :
    t.1.Backs l t.2 ∧ Respects s.1 t.1 := by
  cases hst with dsimp only at hb ⊢
  | newClass base name hbase => exact ⟨(hb.newClass hbase).backs, .newClass _ base name⟩
  | newSlot r key v isStatic hr => exact ⟨(hb.classNewSlot hr).backs, .classNewSlot r key v isStatic⟩
  | assign r name v => exact ⟨hb.classSet.backs, .classSet r name v⟩
  | annotate r name v => exact ⟨hb.setMemberAttributes.backs, .setMemberAttributes r name v⟩
  | instantiate r hr => exact ⟨(hb.newInstance hr).backs, .newInstance (hr.lt (by rfl))⟩
  | assignField i name v => exact ⟨hb.instanceSet.backs, .instanceSet i name v⟩
  | elsewhere hm hs => exact ⟨hm.backs, hs.respects⟩

/-- What every step preserves holds along a history. -/
theorem upheld_along {Step : Heap × Multiset Value → Heap × Multiset Value → Prop}
    {P : Heap × Multiset Value → Prop} {s t : Heap × Multiset Value}
    (hrun : Relation.ReflTransGen Step s t) (hs : P s) (hstep : ∀ u v, P u → Step u v → P v) :
    P t := by
  induction hrun with
  | refl => exact hs
  | tail _ huv ih => exact hstep _ _ ih huv

theorem ClassRun.spec (hb : h.Backs l own) (hrun : ClassRun l (h, own) (h', own')) :
    h'.Backs l own' ∧ Respects h h' :=
  upheld_along (P := fun t => t.1.Backs l t.2 ∧ Respects h t.1) hrun ⟨hb, .refl _⟩
    fun _ _ hu hstep => ⟨(hstep.spec hu.1).1, hu.2.trans (hstep.spec hu.1).2⟩

/-! ### What is known of a class that has had an instance -/

/-- The name is read and written on the instance. -/
def Accessible (h : Heap) (own : Multiset Value) (i : Ref) (name : String) : Prop :=
  (∃ v, h.instanceGet? i name = some v) ∧
    ∀ v own', own = v ::ₘ own' → .instanceObject i ∈ own' →
      (h.instanceSet i name v).1 = true ∧ (h.instanceSet i name v).2.instanceGet? i name = some v

/-- No field is added, and no class changes when it is tried. -/
def RefusesFields (h : Heap) (own : Multiset Value) (r : Ref) : Prop :=
  ∀ key v own', own = v ::ₘ .string key ::ₘ own' → v.isFunction = false →
    (h.classNewSlot r key v false).1 = .error (.locked key.chars) ∧
    (∀ s d, (h.classNewSlot r key v false).2.class? s = some d → h.class? s = some d) ∧
    ∀ s, .classObject s ∈ own' → (h.classNewSlot r key v false).2.class? s = h.class? s

/-- A function or a static value under a new name becomes a method, or defines
the metamethod of its name. -/
def TakesMethods (h : Heap) (own : Multiset Value) (r : Ref) : Prop :=
  ∀ key v isStatic own' c, own = v ::ₘ .string key ::ₘ own' → .classObject r ∈ own' →
    (v.isFunction || isStatic) = true → h.class? r = some c → c.member? key.chars = none →
    c.members.length < ClassObject.maxMembers →
    (h.classNewSlot r key v isStatic).1 = .ok () ∧
    ∃ d, (h.classNewSlot r key v isStatic).2.class? r = some d ∧
      ((d.method? key.chars).isSome = true ∨
        ∃ m, MetaMethod.ofName? key.chars = some m ∧ d = c.setMeta m v)

theorem SameLayouts.class?_eq (hs : SameLayouts h h') {r : Ref} (hr : h'.Has (.classObject r)) :
    h'.class? r = h.class? r := by
  obtain ⟨c, hc⟩ := hr.classObject
  rw [class?_eq_some.2 hc, hs.class? (class?_eq_some.2 hc)]

theorem Backs.refusesFields (hb : h.Backs l own) {r : Ref} {c : ClassObject}
    (hc : h.class? r = some c) (hlock : c.locked = true) : RefusesFields h own r := by
  rintro key v own' rfl hv
  have hsame : SameLayouts h ((h.release v).releaseRef key.ref) :=
    (SameLayouts.release h v).trans (.releaseRef _ _)
  have hm := hb.release
  have hm2 := hm.backs.releaseRef (v := .string key) rfl
  have hslot : h.classNewSlot r key v false =
      (.error (.locked key.chars), (h.release v).releaseRef key.ref) := by
    simp [Heap.classNewSlot, hc, hlock, hv]
  rw [hslot]
  exact ⟨rfl, fun s d => hsame.class?, fun s hs => hsame.class?_eq (hm2.backs.has hs)⟩

theorem method?_addMethod (c : ClassObject) (key : Text) (v : Value) :
    (c.addMethod key v).method? key.chars = some v := by
  have hlen : (c.addMethod key v).methods[c.methods.length]? = some ⟨key, v, .null⟩ :=
    List.getElem?_concat_length
  rw [ClassObject.method?, ClassObject.member?_addMethod, if_pos rfl]
  simp only [hlen, Option.map_some]

theorem Backs.takesMethods (hb : h.Backs l own) (r : Ref) : TakesMethods h own r := by
  rintro key v isStatic own' c rfl hr hshared hc hnone hlimit
  have hlive := (@Backs.classNewSlot _ _ _ r key v isStatic hb hr).backs.has hr
  cases hm : (if v.isFunction then MetaMethod.ofName? key.chars else none) with
  | some m =>
    have hslot : h.classNewSlot r key v isStatic =
        (.ok (), ((h.modifyClass r fun (c : ClassObject) => c.setMeta m v).release
          ((c.metas[m.index]?).getD .null)).releaseRef key.ref) := by
      simp only [Heap.classNewSlot, hc, hnone, hshared, hm, Bool.not_true, Bool.and_false,
        Bool.false_eq_true, if_false, if_neg (Nat.not_le.2 hlimit)]
    rw [hslot] at hlive ⊢
    have hset : (h.modifyClass r fun (c : ClassObject) => c.setMeta m v).class? r =
        some (c.setMeta m v) := by
      rw [modifyClass_eq hc, class?_setBody hc, if_pos rfl]
    refine ⟨rfl, c.setMeta m v, ?_, .inr ⟨m, ?_, rfl⟩⟩
    · exact (((SameLayouts.release _ _).trans (.releaseRef _ _)).class?_eq hlive).trans hset
    · split at hm
      · exact hm
      · cases hm
  | none =>
    have hslot : h.classNewSlot r key v isStatic =
        (.ok (), ((h.asMethod r c key.chars v).2.retainRef key.ref).modifyClass r
          fun (d : ClassObject) => d.addMethod key (h.asMethod r c key.chars v).1) := by
      simp only [Heap.classNewSlot, hc, hnone, hshared, hm, Bool.not_true, Bool.and_false,
        Bool.false_eq_true, if_false, if_neg (Nat.not_le.2 hlimit)]
    have hr' : Value.classObject r ∈ Value.string key ::ₘ own' := Multiset.mem_cons_of_mem hr
    have hc2 : ((h.asMethod r c key.chars v).2.retainRef key.ref).class? r = some c :=
      (class?_retainRef ..).trans (hb.asMethod hr' hc).2
    rw [hslot]
    refine ⟨rfl, c.addMethod key (h.asMethod r c key.chars v).1, ?_, .inl ?_⟩
    · rw [modifyClass_eq hc2, class?_setBody hc2, if_pos rfl]
    · rw [method?_addMethod, Option.isSome_some]

/-- A name that leads to a field is read and written on every instance. -/
theorem LaidOut.accessible (hl : h.LaidOut) (hb : h.Backs l own) {i cls : Ref} {vs : List Value}
    {c : ClassObject} (hi : h.instance? i = some (cls, vs)) (hc : h.class? cls = some c)
    {name : String} {k : Nat} (hk : c.member? name = some (.field k)) : Accessible h own i name := by
  obtain ⟨-, hlen⟩ := hl.instances i cls vs c hi hc
  have hlt : k < vs.length := hlen ▸ hl.fit cls c hc name k hk
  refine ⟨⟨vs[k], ?_⟩, ?_⟩
  · simp only [Heap.instanceGet?, hi, hc, hk, List.getElem?_eq_getElem hlt]
  · rintro v own' rfl hown
    have hset : h.instanceSet i name v =
        (true, (h.setBody i (.instanceObject cls (vs.set k v))).release vs[k]) := by
      simp only [Heap.instanceSet, hi, hc, Option.bind_some, hk, List.getElem?_eq_getElem hlt]
    have hb' := (@Backs.instanceSet _ _ _ i name v hb).backs
    rw [hset] at hb' ⊢
    refine ⟨rfl, ?_⟩
    have hstored : (h.setBody i (.instanceObject cls (vs.set k v))).body? i =
        some (.instanceObject cls (vs.set k v)) := by
      rw [body?_setBody (instance?_eq_some.1 hi), if_pos rfl]
    have hsame := SameLayouts.release (h.setBody i (.instanceObject cls (vs.set k v))) vs[k]
    -- the instance is owned, and keeps its class
    obtain ⟨cls', ws, hws⟩ := (hb'.has hown).instanceObject
    have hi' := hsame.instance? (instance?_eq_some.2 hws)
    rw [instance?_eq_some.2 hstored, Option.some.injEq, Prod.mk.injEq] at hi'
    obtain ⟨rfl, rfl⟩ := hi'
    have hcls := hb'.has_of_body hws (v := .classObject cls) List.mem_cons_self
    have hc' : (h.setBody i (.instanceObject cls (vs.set k v))).class? cls = some c := by
      rw [class?_eq_some, body?_setBody (instance?_eq_some.1 hi), if_neg]
      · exact class?_eq_some.1 hc
      · rintro rfl
        rw [class?_eq_some, instance?_eq_some.1 hi] at hc
        cases hc
    have hlast := (hsame.class?_eq hcls).trans hc'
    simp only [Heap.instanceGet?, instance?_eq_some.2 hws, hlast, hk, List.getElem?_set_self hlt]

/-- Making an instance locks the class and its ancestors. -/
theorem locked_newInstance (hb : h.Backs l own) {cls r : Ref} {c d : ClassObject}
    (hd : h.Derives cls r) (hc : h.class? r = some c) (hc' : (h.newInstance cls).2.class? r = some d) :
    d = { c with locked := true } := by
  have hlock : (h.lock cls).class? r = some { c with locked := true } :=
    lockFrom_ancestor _ (fun _ _ => hb.base_older) (Nat.lt_succ_self _) hd hc
  have hback : ∀ vs, ((((h.lock cls).deepCopyAll vs).2.retainRef cls).allocateLinked
      (.instanceObject cls ((h.lock cls).deepCopyAll vs).1)).2.class? r = some d →
      (h.lock cls).class? r = some d := fun vs hvs =>
    ((SameLayouts.deepCopyAll _ vs).trans (.retainRef _ cls)).class?
      (class?_allocateLinked _ Kind.noConfusion r hvs)
  have := hback _ hc'
  rw [hlock, Option.some.injEq] at this
  exact this.symm

/-- Locking fixes the layout of instances. Whatever happens to classes, every
instance has as many values as its class has fields, and each name that leads to
a field is read and written on it. Once a class has an instance, it and all that
it derives from stay locked with their fields in number, refuse fields and go on
taking methods. -/
theorem locking_fixes_layout (l : Law) {h₀ h : Heap} {own₀ own : Multiset Value}
    (hback : h₀.Backs l own₀) (hnone : ∀ r b, h₀.body? r = some b → Bare b)
    (hrun : ClassRun l (h₀, own₀) (h, own)) :
    (∀ i cls vs, h.instance? i = some (cls, vs) → ∃ c, h.class? cls = some c ∧
      vs.length = c.fields.length ∧
      ∀ name k, c.member? name = some (.field k) → Accessible h own i name) ∧
    ∀ cls r c, h.Has (.classObject cls) → h.Derives cls r → h.class? r = some c →
      ∀ h' own', ClassRun l
        ((h.newInstance cls).2, .instanceObject (h.newInstance cls).1 ::ₘ own) (h', own') →
      ∀ d, h'.class? r = some d → d.locked = true ∧ d.fields.length = c.fields.length ∧
        RefusesFields h' own' r ∧ TakesMethods h' own' r := by
  have hlaid₀ : h₀.LaidOut :=
    { fit := fun r c hc => absurd rfl (hnone r _ (class?_eq_some.1 hc)).1
      known := fun i cls vs hi => absurd rfl (hnone i _ (instance?_eq_some.1 hi)).2
      instances := fun i cls vs c hi => absurd rfl (hnone i _ (instance?_eq_some.1 hi)).2 }
  obtain ⟨hb, hresp⟩ := hrun.spec hback
  have hlaid := hresp.laidOut hlaid₀
  refine ⟨fun i cls vs hi => ?_, fun cls r c hcls hd hc h' own' hrun' d hd' => ?_⟩
  · have hhas := hb.has_of_body (instance?_eq_some.1 hi) (v := .classObject cls) List.mem_cons_self
    obtain ⟨c, hc⟩ := hhas.classObject
    have hc := class?_eq_some.2 hc
    exact ⟨c, hc, (hlaid.instances i cls vs c hi hc).2, fun name k hk => hlaid.accessible hb hi hc hk⟩
  · have hinst := hb.newInstance hcls
    obtain ⟨hb', hresp'⟩ := hrun'.spec hinst.backs
    have hlt : r.id < (h.newInstance cls).2.cells.size :=
      Nat.lt_of_lt_of_le (body?_lt (class?_eq_some.1 hc)) hinst.evolves.size
    obtain ⟨c', hc', hbecomes⟩ := hresp'.classes r d hlt hd'
    rw [locked_newInstance hb hd hc hc'] at hbecomes
    obtain ⟨hlocked, hlen⟩ := hbecomes.locked rfl
    exact ⟨hlocked, hlen, hb'.refusesFields hd' hlocked, hb'.takesMethods r⟩

/-- A name, a class with a field of that name, and a class derived from it. -/
def fieldName : Text × Heap := ({} : Heap).allocateText "f"

def baseClass : Ref × Heap := fieldName.2.newClass none "init"

def fieldedBase : Heap := (baseClass.2.classNewSlot baseClass.1 fieldName.1 (.integer 1) false).2

def derivedClass : Ref × Heap := fieldedBase.newClass (some baseClass.1) "init"

theorem fieldName_bare (r : Ref) (b : Body) (hr : fieldName.2.body? r = some b) : Bare b := by
  simp only [fieldName, allocateText, body?, cell?_allocate] at hr
  split at hr
  · cases hr
    exact ⟨Kind.noConfusion, Kind.noConfusion⟩
  · cases hr

theorem fieldName_backs (l : Law) :
    fieldName.2.Backs l (.integer 1 ::ₘ {.string fieldName.1}) :=
  ((Backs.empty l {}).allocateText "f").backs.own_plain rfl

theorem derivedClass_run (l : Law) :
    ClassRun l (fieldName.2, .integer 1 ::ₘ {.string fieldName.1})
        (derivedClass.2, .classObject derivedClass.1 ::ₘ {.classObject baseClass.1}) ∧
      derivedClass.2.Backs l (.classObject derivedClass.1 ::ₘ {.classObject baseClass.1}) := by
  have hbase : ClassStep l (fieldName.2, .integer 1 ::ₘ {.string fieldName.1})
      (baseClass.2, .classObject baseClass.1 ::ₘ .integer 1 ::ₘ {.string fieldName.1}) :=
    .newClass none "init" fun b hb => by cases hb
  have howned : (.classObject baseClass.1 ::ₘ .integer 1 ::ₘ {.string fieldName.1} : Multiset Value) =
      .integer 1 ::ₘ .string fieldName.1 ::ₘ {.classObject baseClass.1} :=
    (Multiset.cons_swap ..).trans (congrArg _ (Multiset.cons_swap _ _ 0))
  rw [howned] at hbase
  have hfield : ClassStep l
      (baseClass.2, .integer 1 ::ₘ .string fieldName.1 ::ₘ {.classObject baseClass.1})
      (fieldedBase, {.classObject baseClass.1}) :=
    .newSlot baseClass.1 fieldName.1 (.integer 1) false (Multiset.mem_singleton_self _)
  have hrun := (Relation.ReflTransGen.single hbase).tail hfield
  have hb : fieldedBase.Backs l {.classObject baseClass.1} :=
    (ClassRun.spec (fieldName_backs l) hrun).1
  have hderived : ClassStep l (fieldedBase, {.classObject baseClass.1})
      (derivedClass.2, .classObject derivedClass.1 ::ₘ {.classObject baseClass.1}) :=
    .newClass (some baseClass.1) "init" fun b hb' => by
      cases hb'
      exact hb.has (Multiset.mem_singleton_self _)
  exact ⟨hrun.tail hderived, (ClassRun.spec hb (.single hderived)).1⟩

theorem locking_fixes_layout_derivedClass :
    ∃ d, (derivedClass.2.newInstance derivedClass.1).2.class? baseClass.1 = some d ∧
      d.locked = true ∧ d.fields.length = 1 ∧
      RefusesFields (derivedClass.2.newInstance derivedClass.1).2
        (.instanceObject (derivedClass.2.newInstance derivedClass.1).1 ::ₘ
          .classObject derivedClass.1 ::ₘ {.classObject baseClass.1}) baseClass.1 := by
  let l : Law := ⟨fun _ _ => True, fun _ => True⟩
  obtain ⟨hrun, hb⟩ := derivedClass_run l
  have hcls : derivedClass.2.Has (.classObject derivedClass.1) := hb.has (Multiset.mem_cons_self _ _)
  have hextends : derivedClass.2.Extends derivedClass.1 baseClass.1 := rfl
  obtain ⟨c, hc, hfields⟩ : ∃ c, derivedClass.2.class? baseClass.1 = some c ∧ c.fields.length = 1 :=
    ⟨_, rfl, rfl⟩
  have hinst := hb.newInstance hcls
  have hlive : (derivedClass.2.newInstance derivedClass.1).2.Has (.classObject baseClass.1) :=
    hinst.backs.has (by simp)
  obtain ⟨d, hd⟩ := hlive.classObject
  have hd := class?_eq_some.2 hd
  obtain ⟨-, hlocks⟩ := locking_fixes_layout l (fieldName_backs l) fieldName_bare hrun
  obtain ⟨hlocked, hlen, hrefuses, -⟩ := hlocks derivedClass.1 baseClass.1 c hcls
    (.single hextends) hc _ _ .refl d hd
  exact ⟨d, hd, hlocked, hlen.trans hfields, hrefuses⟩

end Heap

end ScriptMachine
