import ScriptMachine.Proofs.Heap.Routing
import ScriptMachine.Proofs.Machine.Reachable

/-!
# The authors of methods

A script function that is stored in a class becomes a copy that belongs to the class,
unless it belongs there already or is what the base has under the name. So every method
belongs to its class or to an ancestor, however the classes came about, and a function
never changes its owner.
-/

set_option autoImplicit false

namespace ScriptMachine.Heap

open ClassObject

variable {l : Law} {own own' : Multiset Value} {h h' h'' : Heap} {r s f g : Ref}
variable {c d : ClassObject} {key : Text} {name : String} {v w : Value} {isStatic : Bool}

/-! ## Methods that stay -/

/-- The classes that are left were there before, with the same methods. -/
def SameMethods (h h' : Heap) : Prop :=
  ∀ r d, h'.class? r = some d →
    ∃ c, h.class? r = some c ∧ d.methods.map (·.value) = c.methods.map (·.value)

namespace SameMethods

theorem refl (h : Heap) : SameMethods h h := fun _ d hd => ⟨d, hd, rfl⟩

theorem trans (h1 : SameMethods h h') (h2 : SameMethods h' h'') : SameMethods h h'' := by
  intro r e he
  obtain ⟨d, hd, hde⟩ := h2 r e he
  obtain ⟨c, hc, hcd⟩ := h1 r d hd
  exact ⟨c, hc, hde.trans hcd⟩

theorem of_classes (hclass : ∀ r d, h'.class? r = some d → h.class? r = some d) :
    SameMethods h h' :=
  fun r d hd => ⟨d, hclass r d hd, rfl⟩

theorem of_layouts (hs : SameLayouts h h') : SameMethods h h' := of_classes fun _ _ => hs.class?

theorem modifyClass {t : ClassObject → ClassObject}
    (ht : ∀ c, (t c).methods.map (·.value) = c.methods.map (·.value)) :
    SameMethods h (h.modifyClass r t) := by
  intro s d hd
  rw [class?_modifyClass] at hd
  split at hd
  · next hs =>
    obtain ⟨c, hc, rfl⟩ := Option.map_eq_some_iff.1 hd
    exact ⟨c, hs ▸ hc, ht c⟩
  · exact ⟨d, hd, rfl⟩

theorem lockFrom (h : Heap) (fuel : Nat) (r : Ref) : SameMethods h (h.lockFrom fuel r) := by
  induction fuel generalizing h r with
  | zero => exact refl h
  | succ fuel ih =>
    unfold Heap.lockFrom
    split
    · exact refl h
    · have hlock : SameMethods h
          (h.modifyClass r fun (c : ClassObject) => { c with locked := true }) :=
        modifyClass fun _ => rfl
      split
      · exact hlock
      · exact hlock.trans (ih _ _)

theorem newInstance (h : Heap) (cls : Ref) : SameMethods h (h.newInstance cls).2 := by
  have hmake (vs : List Value) : SameMethods h ((((h.lock cls).deepCopyAll vs).2.retainRef
      cls).allocateLinked (.instanceObject cls ((h.lock cls).deepCopyAll vs).1)).2 :=
    (lockFrom h (cls.id + 1) cls).trans
      ((of_layouts ((SameLayouts.deepCopyAll _ vs).trans (.retainRef _ cls))).trans
        (of_classes fun s _ => class?_allocateLinked _ Kind.noConfusion s))
  unfold Heap.newInstance
  cases hc : (h.lock cls).class? cls with
  | none =>
    simp only [hc]
    exact hmake []
  | some c =>
    simp only [hc]
    exact hmake _

theorem setMemberAttributes (h : Heap) (r : Ref) (name : String) (v : Value) :
    SameMethods h (h.setMemberAttributes r name v).2 := by
  unfold Heap.setMemberAttributes
  split
  · exact of_layouts (.release h v)
  · split
    · next m _ =>
      refine (modifyClass fun c => ?_).trans (of_layouts (.release _ _))
      cases m with
      | field i => rfl
      | method i =>
        exact map_modify_same (f := fun (e : ClassMember) => { e with attributes := v })
          (fun _ => rfl) c.methods i
    · exact of_layouts (.release h v)

theorem setClassAttributes (h : Heap) (r : Ref) (v : Value) :
    SameMethods h (h.setClassAttributes r v) := by
  unfold Heap.setClassAttributes
  split
  · exact of_layouts (.release h v)
  · have hset : SameMethods h
        (h.modifyClass r fun (c : ClassObject) => { c with attributes := v }) :=
      modifyClass fun _ => rfl
    exact hset.trans (of_layouts (.release _ _))

end SameMethods

/-! ## Owners -/

/-- The script function belongs to the class or to one that the class derives from. -/
def OwnedAbove (h : Heap) (r f : Ref) : Prop :=
  ∃ fc o, h.closure? f = some fc ∧ fc.owner = some o ∧ h.Derives r o

/-- The script functions among the methods of every class belong to it or to an ancestor. -/
def Authored (h : Heap) : Prop :=
  ∀ r c, h.class? r = some c → ∀ e ∈ c.methods, ∀ f, e.value = .closure f → h.OwnedAbove r f

/-- A class that lives on has its ancestors. -/
theorem Moves.derives (hm : Moves l own' h h') {o : Ref} (hr : h'.Has (.classObject r))
    (hd : h.Derives r o) : h'.Derives r o := by
  induction hd using Relation.ReflTransGen.head_induction_on with
  | refl => exact .refl
  | @head r b hextends _ ih =>
    obtain ⟨c, hc, hbase⟩ := Option.bind_eq_some_iff.1 hextends
    obtain ⟨d, hd⟩ := hr.classObject
    obtain ⟨b', hb', hlater⟩ := hm.evolves.old r _ (body?_lt (class?_eq_some.1 hc)) hd
    rw [class?_eq_some.1 hc, Option.some.injEq] at hb'
    subst hb'
    have hbase' : d.base = some b := by
      cases hlater with
      | same => exact hbase
      | classObject heq => exact heq.trans hbase
    refine .head ?_ (ih (hm.backs.has_of_body hd ?_))
    · rw [Extends, class?_eq_some.2 hd]
      exact hbase'
    · simp [Body.values, hbase']

theorem Moves.ownedAbove (hm : Moves l own' h h') (hr : h'.Has (.classObject r))
    (hf : h'.Has (.closure f)) (howned : h.OwnedAbove r f) : h'.OwnedAbove r f := by
  obtain ⟨fc, o, hfc, howner, hd⟩ := howned
  exact ⟨fc, o, hm.evolves.drifts.keeps_closure hfc hf, howner, hm.derives hr hd⟩

theorem has_class (hc : h.class? r = some c) : h.Has (.classObject r) := by
  rintro _ ⟨⟩
  exact ⟨_, class?_eq_some.1 hc, rfl⟩

/-- What leaves the methods as they are leaves them with their owners. -/
theorem Authored.carried (ha : h.Authored) (hm : Moves l own' h h')
    (hc : h.class? r = some c) (hd : h'.class? r = some d) {e : ClassMember} (he : e ∈ d.methods)
    (hvalue : e.value ∈ c.methods.map (·.value)) (hf : e.value = .closure f) :
    h'.OwnedAbove r f := by
  obtain ⟨e', he', heq⟩ := List.mem_map.1 hvalue
  have hlive : h'.Has (.closure f) := hf ▸ hm.backs.has_method hd he
  exact hm.ownedAbove (has_class hd) hlive (ha r c hc e' he' f (heq.trans hf))

theorem Authored.sameMethods (ha : h.Authored) (hm : Moves l own' h h') (hs : SameMethods h h') :
    h'.Authored := by
  intro r d hd e he f hf
  obtain ⟨c, hc, hvalues⟩ := hs r d hd
  exact ha.carried hm hc hd he (hvalues ▸ List.mem_map_of_mem he) hf

/-! ## New classes -/

theorem class?_newClass {base : Option Ref} (hbase : ∀ b, base = some b → h.Has (.classObject b))
    (hd : (h.newClass base name).2.class? s = some d) :
    h.class? s = some d ∨ d.methods = [] ∨
      ∃ b bc, h.class? b = some bc ∧ d.base = some b ∧ d.methods = bc.methods := by
  have hmake : ∀ c : ClassObject, ((h.retainRefs (Body.classObject c).refs).allocateLinked
      (.classObject c)).2.class? s = some d → h.class? s = some d ∨ d = c := by
    intro c hd
    rw [class?_eq_some, body?_allocateLinked] at hd
    split at hd
    · cases hd
      exact .inr rfl
    · exact .inl ((SameLayouts.retainRefs h _).class? (class?_eq_some.2 hd))
  revert hd
  unfold Heap.newClass
  cases base with
  | none =>
    intro hd
    rcases hmake _ hd with hold | rfl
    · exact .inl hold
    · exact .inr (.inl rfl)
  | some b =>
    obtain ⟨bc, hb⟩ := (hbase b rfl).classObject
    have hb := class?_eq_some.2 hb
    simp only [hb]
    intro hd
    rcases hmake _ hd with hold | rfl
    · exact .inl hold
    · exact .inr (.inr ⟨b, bc, hb, rfl, rfl⟩)

/-- A derived class starts with the methods of its base, which belong to it or its
ancestors. -/
theorem Authored.newClass (ha : h.Authored) (hb : h.Backs l own) {base : Option Ref}
    (hbase : ∀ b, base = some b → h.Has (.classObject b)) (name : String) :
    (h.newClass base name).2.Authored := by
  have hm := @Backs.newClass _ _ _ base name hb hbase
  intro s d hd e he f hf
  rcases class?_newClass hbase hd with hold | hnone | ⟨b, bc, hbc, hdbase, hmethods⟩
  · exact ha.carried hm hold hd he (List.mem_map_of_mem he) hf
  · rw [hnone] at he
    cases he
  · have hlive : (h.newClass base name).2.Has (.classObject b) :=
      hm.backs.has_of_body (class?_eq_some.1 hd) (by simp [Body.values, hdbase])
    have hfunction : (h.newClass base name).2.Has (.closure f) := hf ▸ hm.backs.has_method hd he
    obtain ⟨fc, o, hfc, howner, hderives⟩ :=
      hm.ownedAbove hlive hfunction (ha b bc hbc e (hmethods ▸ he) f hf)
    refine ⟨fc, o, hfc, howner, .head ?_ hderives⟩
    rw [Extends, hd]
    exact hdbase

/-! ## New members -/

/-- Storing a member changes its class and no other, and not even that one when it is
refused. -/
theorem class?_classNewSlot (hd : (h.classNewSlot r key v isStatic).2.class? s = some d) :
    h.class? s = some d ∨ (s = r ∧ (h.classNewSlot r key v isStatic).1 = .ok ()) := by
  by_cases hs : s = r ∧ (h.classNewSlot r key v isStatic).1 = .ok ()
  · exact .inr hs
  refine .inl ?_
  have hrefuse : SameLayouts h ((h.release v).releaseRef key.ref) :=
    (SameLayouts.release h v).trans (.releaseRef _ _)
  -- a change of another class, before and after which references are counted
  have hother : ∀ {g g' : Heap} {t : ClassObject → ClassObject}, s ≠ r → SameLayouts h g →
      SameLayouts (g.modifyClass r t) g' → g'.class? s = some d → h.class? s = some d := by
    intro g g' t hne hg hg' hd
    have hmodified := hg'.class? hd
    rw [class?_modifyClass, if_neg hne] at hmodified
    exact hg.class? hmodified
  revert hd hs
  unfold Heap.classNewSlot
  cases hc : h.class? r with
  | none => exact fun hd _ => hrefuse.class? hd
  | some c =>
    simp only
    split
    · exact fun hd _ => hrefuse.class? hd
    · split
      · intro hd hs
        exact hother (fun heq => hs ⟨heq, rfl⟩) (.refl h)
          ((SameLayouts.release _ _).trans (.releaseRef _ _)) hd
      · split
        · exact fun hd _ => hrefuse.class? hd
        · split
          · intro hd hs
            refine hother (fun heq => hs ⟨heq, rfl⟩) ?_ (.refl _) hd
            split
            · exact .refl h
            · exact .retainRef h _
          · split
            · intro hd hs
              exact hother (fun heq => hs ⟨heq, rfl⟩) (.refl h)
                ((SameLayouts.release _ _).trans (.releaseRef _ _)) hd
            · have hbound := Respects.asMethod (h := h) r c key.chars v
              split
              · intro hd hs
                exact hother (fun heq => hs ⟨heq, rfl⟩) hbound
                  ((SameLayouts.release _ _).trans (.releaseRef _ _)) hd
              · intro hd hs
                exact hother (fun heq => hs ⟨heq, rfl⟩) (hbound.trans (.retainRef _ key.ref))
                  (.refl _) hd

/-- The methods of a class that took a member in are those it had, and perhaps what it
keeps of the new one. -/
theorem Enters.methods (hentry : Enters h h' r c key v isStatic d) {e : ClassMember}
    (he : e ∈ d.methods) : e.value ∈ c.methods.map (·.value) ∨
      (h'.Has e.value → Adopts h h' r c key.chars v e.value) := by
  cases hentry with
  | override _ => exact .inl (List.mem_map_of_mem he)
  | declare _ _ => exact .inl (List.mem_map_of_mem he)
  | define _ _ _ => exact .inl (List.mem_map_of_mem he)
  | @replace i w _ _ _ hadopts =>
    obtain ⟨j, hj⟩ := List.mem_iff_getElem?.1 he
    simp only [ClassObject.modifyEntry, List.getElem?_modify] at hj
    obtain ⟨e', he', rfl⟩ := Option.map_eq_some_iff.1 hj
    split
    · exact .inr hadopts
    · exact .inl (List.mem_map_of_mem (List.mem_of_getElem? he'))
  | add _ _ _ hadopts =>
    rcases List.mem_append.1 he with he | he
    · exact .inl (List.mem_map_of_mem he)
    · obtain rfl := List.mem_singleton.1 he
      exact .inr hadopts

/-- The base of the class has the function as its method of the name. -/
def Inherits (h : Heap) (c : ClassObject) (name : String) (f : Ref) : Prop :=
  ∃ b bc, c.base = some b ∧ h.class? b = some bc ∧ bc.method? name = some (.closure f)

theorem mem_of_method? (hv : c.method? name = some v) : ∃ e ∈ c.methods, e.value = v := by
  unfold ClassObject.method? at hv
  split at hv
  · obtain ⟨e, he, rfl⟩ := Option.map_eq_some_iff.1 hv
    exact ⟨e, List.mem_of_getElem? he, rfl⟩
  · cases hv

/-- Two values that live and name one object are one value when the object is a function. -/
theorem eq_closure_of_sameObject (hw : h.Has w) (hf : h.Has (.closure f))
    (hsame : w.sameObject (.closure f) = true) : w = .closure f := by
  obtain ⟨b, hb, hkind⟩ := hf f rfl
  have href : w.ref? = some f := by
    unfold Value.sameObject at hsame
    split at hsame
    · next r s hr hs =>
      cases hs
      rw [hr, beq_iff_eq.1 hsame]
    · cases hsame
  obtain ⟨b', hb', hkind'⟩ := hw f href
  rw [hb, Option.some.injEq] at hb'
  subst hb'
  rw [hkind] at hkind'
  cases w with
  | closure g => exact congrArg Value.closure (Option.some.inj href)
  | _ => cases hkind'

theorem Backs.isInherited_iff (hb : h.Backs l own) (hf : h.Has (.closure f)) :
    h.isInherited c name (.closure f) = true ↔ h.Inherits c name f := by
  unfold isInherited
  constructor
  · intro hinherited
    split at hinherited
    · next w hw =>
      obtain ⟨bc, hbc, hmethod⟩ := Option.bind_eq_some_iff.1 hw
      obtain ⟨b, hbase, hbc⟩ := Option.bind_eq_some_iff.1 hbc
      have hlive : h.Has w := by
        obtain ⟨e, he, rfl⟩ := mem_of_method? hmethod
        exact hb.has_method hbc he
      rw [eq_closure_of_sameObject hlive hf hinherited] at hmethod
      exact ⟨b, bc, hbase, hbc, hmethod⟩
    · cases hinherited
  · rintro ⟨b, bc, hbase, hbc, hmethod⟩
    simp only [hbase, Option.bind_some, hbc, hmethod]
    exact beq_self_eq_true f

/-- What a class keeps of a script function: the function itself when it is inherited or
belongs to the class, and else a new one with the same cells that belongs to the class. -/
structure Rebinds (h h' : Heap) (r : Ref) (c : ClassObject) (name : String) (f : Ref)
    (fc : ClosureObject) (w : Value) : Prop where
  itself : h.Inherits c name f ∨ fc.owner = some r → w = .closure f
  bound : ¬ (h.Inherits c name f ∨ fc.owner = some r) →
    ∃ g, w = .closure g ∧ h.body? g = none ∧ h'.closure? g = some { fc with owner := some r }

theorem Adopts.rebinds (ha : Adopts h h' r c name (.closure f) w) (hb : h.Backs l own)
    {fc : ClosureObject} (hf : h.closure? f = some fc) : Rebinds h h' r c name f fc w := by
  have hlive : h.Has (.closure f) := by
    rintro _ ⟨⟩
    exact ⟨_, closure?_eq_some.1 hf, rfl⟩
  have hiff := @Backs.isInherited_iff l own h f c name hb hlive
  cases ha with
  | itself hsame =>
    have hcase := hsame f fc rfl hf
    rw [hiff] at hcase
    exact ⟨fun _ => rfl, fun hnot => absurd hcase hnot⟩
  | @bound f g gc hgc hinherited howner hnew hbound =>
    rw [hf, Option.some.injEq] at hgc
    subst hgc
    refine ⟨fun hcase => ?_, fun _ => ⟨g, rfl, hnew, hbound⟩⟩
    rcases hcase with hin | hown
    · rw [hiff.2 hin] at hinherited
      cases hinherited
    · exact absurd hown howner

/-- What becomes of the methods of a class that takes a script function in. -/
structure TakesFunction (h h' : Heap) (r : Ref) (c d : ClassObject) (key : Text) (f : Ref)
    (fc : ClosureObject) : Prop where
  /-- Unless the name leads to a field or is that of a metamethod, it leads to a method now. -/
  stored : (∀ i, c.member? key.chars ≠ some (.field i)) → MetaMethod.ofName? key.chars = none →
    ∃ w, d.method? key.chars = some w ∧ Rebinds h h' r c key.chars f fc w
  /-- Methods that were not there before are what is kept of the function. -/
  entered : ∀ e ∈ d.methods, e.value ∈ c.methods.map (·.value) ∨
    Rebinds h h' r c key.chars f fc e.value

theorem Backs.takesFunction (hb : h.Backs l (.closure f ::ₘ .string key ::ₘ own))
    (hplaced : h.EveryClass Placed) (hr : .classObject r ∈ own) (hc : h.class? r = some c)
    (hok : (h.classNewSlot r key (.closure f) isStatic).1 = .ok ()) :
    ∃ d fc, (h.classNewSlot r key (.closure f) isStatic).2.class? r = some d ∧
      h.closure? f = some fc ∧
      TakesFunction h (h.classNewSlot r key (.closure f) isStatic).2 r c d key f fc := by
  obtain ⟨fc, hf⟩ := (hb.has (Multiset.mem_cons_self _ _)).closure
  have hf := closure?_eq_some.2 hf
  have hb' := (@Backs.classNewSlot _ _ _ r key (.closure f) isStatic hb hr).backs
  obtain ⟨d, hd, hentry⟩ := hb.newSlot_enters hr hc hok
  refine ⟨d, fc, hd, hf, fun hfield hname => ?_, fun e he => ?_⟩
  · obtain ⟨w, hw, hadopts⟩ := (hentry.routed (hplaced r c hc) hb' hd).method hfield rfl
      (not_defines_of_named fun _ => hname)
    exact ⟨w, hw, hadopts.rebinds hb hf⟩
  · exact (hentry.methods he).imp_right fun hadopts =>
      (hadopts (hb'.has_method hd he)).rebinds hb hf

/-- What is kept of a function belongs to the class or to one of its ancestors. -/
theorem Authored.adopted (ha : h.Authored) (hb : h.Backs l (v ::ₘ own)) (hm : Moves l own' h h')
    (hc : h.class? r = some c) (hr : h'.Has (.classObject r)) (hg : h'.Has (.closure g))
    (hadopts : Adopts h h' r c name v (.closure g)) : h'.OwnedAbove r g := by
  have hlive := hb.has (Multiset.mem_cons_self v own)
  cases hadopts with
  | itself hsame =>
    obtain ⟨gc, hgc⟩ := hlive.closure
    have hgc := closure?_eq_some.2 hgc
    refine hm.ownedAbove hr hg ?_
    rcases hsame g gc rfl hgc with hinherited | howner
    · obtain ⟨b, bc, hbase, hbc, hmethod⟩ := (hb.isInherited_iff hlive).1 hinherited
      obtain ⟨e, he, hvalue⟩ := mem_of_method? hmethod
      obtain ⟨fc, o, hfc, howner, hderives⟩ := ha b bc hbc e he g hvalue
      refine ⟨fc, o, hfc, howner, .head ?_ hderives⟩
      rw [Extends, hc]
      exact hbase
    · exact ⟨gc, r, hgc, howner, .refl⟩
  | bound _ _ _ _ hbound => exact ⟨_, r, hbound, rfl, .refl⟩

theorem Authored.classNewSlot (ha : h.Authored) (hb : h.Backs l (v ::ₘ .string key ::ₘ own))
    (hr : .classObject r ∈ own) (isStatic : Bool) :
    (h.classNewSlot r key v isStatic).2.Authored := by
  have hm := @Backs.classNewSlot _ _ _ r key v isStatic hb hr
  intro s d hd e he f hf
  rcases class?_classNewSlot hd with hold | ⟨rfl, hok⟩
  · exact ha.carried hm hold hd he (List.mem_map_of_mem he) hf
  · obtain ⟨c, hc⟩ := (hb.has (Multiset.mem_cons_of_mem (Multiset.mem_cons_of_mem hr))).classObject
    have hc := class?_eq_some.2 hc
    obtain ⟨d', hd', hentry⟩ := hb.newSlot_enters hr hc hok
    rw [hd, Option.some.injEq] at hd'
    subst hd'
    have hlive := hm.backs.has_method hd he
    rcases hentry.methods he with hvalue | hadopts
    · exact ha.carried hm hc hd he hvalue hf
    · rw [hf] at hlive hadopts
      exact ha.adopted hb hm hc (has_class hd) hlive (hadopts hlive)

/-! ## Histories -/

/-- One use of the classes of a heap that overwrites no member of a class, or of the heap
beside them. -/
inductive Authoring (l : Law) : Heap × Multiset Value → Heap × Multiset Value → Prop
  | newClass {h : Heap} {own : Multiset Value} (base : Option Ref) (name : String) :
    (∀ b, base = some b → h.Has (.classObject b)) →
    Authoring l (h, own) ((h.newClass base name).2, .classObject (h.newClass base name).1 ::ₘ own)
  | newSlot {h : Heap} {own : Multiset Value} (r : Ref) (key : Text) (v : Value) (isStatic : Bool) :
    .classObject r ∈ own →
    Authoring l (h, v ::ₘ .string key ::ₘ own) ((h.classNewSlot r key v isStatic).2, own)
  | annotate {h : Heap} {own : Multiset Value} (r : Ref) (name : String) (v : Value) :
    Authoring l (h, v ::ₘ own) ((h.setMemberAttributes r name v).2, own)
  | describe {h : Heap} {own : Multiset Value} (r : Ref) (v : Value) :
    Authoring l (h, v ::ₘ own) (h.setClassAttributes r v, own)
  | instantiate {h : Heap} {own : Multiset Value} (r : Ref) : h.Has (.classObject r) →
    Authoring l (h, own) ((h.newInstance r).2, .instanceObject (h.newInstance r).1 ::ₘ own)
  | assignField {h : Heap} {own : Multiset Value} (i : Ref) (name : String) (v : Value) :
    Authoring l (h, v ::ₘ own) ((h.instanceSet i name v).2, own)
  | elsewhere {h h' : Heap} {own own' : Multiset Value} : Moves l own' h h' → SameLayouts h h' →
    Authoring l (h, own) (h', own')

abbrev AuthoringRun (l : Law) : Heap × Multiset Value → Heap × Multiset Value → Prop :=
  Relation.ReflTransGen (Authoring l)

theorem Authoring.use {s t : Heap × Multiset Value} (hstep : Authoring l s t) : ClassUse l s t := by
  cases hstep with
  | newClass base name hbase => exact .step (.newClass base name hbase)
  | newSlot r key v isStatic hr => exact .step (.newSlot r key v isStatic hr)
  | annotate r name v => exact .step (.annotate r name v)
  | describe r v => exact .describe r v
  | instantiate r hr => exact .step (.instantiate r hr)
  | assignField i name v => exact .step (.assignField i name v)
  | elsewhere hm hs => exact .step (.elsewhere hm hs)

theorem Authoring.authored {s t : Heap × Multiset Value} (hb : s.1.Backs l s.2) (ha : s.1.Authored)
    (hstep : Authoring l s t) : t.1.Authored := by
  cases hstep with dsimp only at hb ha ⊢
  | newClass base name hbase => exact ha.newClass hb hbase name
  | newSlot r key v isStatic hr => exact ha.classNewSlot hb hr isStatic
  | annotate r name v =>
    exact ha.sameMethods hb.setMemberAttributes (.setMemberAttributes _ r name v)
  | describe r v => exact ha.sameMethods hb.setClassAttributes (.setClassAttributes _ r v)
  | instantiate r hr => exact ha.sameMethods (hb.newInstance hr) (.newInstance _ r)
  | assignField i name v =>
    exact ha.sameMethods hb.instanceSet (.of_classes fun _ _ => class?_instanceSet)
  | elsewhere hm hs => exact ha.sameMethods hm (.of_layouts hs)

/-! ## Functions stay as they are -/

/-- The script functions that live on are the same, their owners included. -/
def LeavesFunctions (h h' : Heap) : Prop :=
  ∀ f fc, h.closure? f = some fc → h'.Has (.closure f) → h'.closure? f = some fc

theorem Drifts.leavesFunctions (hd : Drifts h h') : LeavesFunctions h h' :=
  fun _ _ => hd.keeps_closure

theorem ClassUse.moves {s t : Heap × Multiset Value} (hb : s.1.Backs l s.2)
    (huse : ClassUse l s t) : Moves l t.2 s.1 t.1 := by
  cases huse with
  | step hstep =>
    cases hstep with dsimp only at hb ⊢
    | newClass base name hbase => exact hb.newClass hbase
    | newSlot r key v isStatic hr => exact hb.classNewSlot hr
    | assign r name v => exact hb.classSet
    | annotate r name v => exact hb.setMemberAttributes
    | instantiate r hr => exact hb.newInstance hr
    | assignField i name v => exact hb.instanceSet
    | elsewhere hm _ => exact hm
  | describe r v => exact Backs.setClassAttributes hb

theorem ClassUses.moves (hb : h.Backs l own) (hrun : ClassUses l (h, own) (h', own')) :
    Moves l own' h h' :=
  upheld_along (P := fun t => Moves l t.2 h t.1) hrun ⟨hb, .refl _⟩
    fun _ _ hu huse => hu.trans (huse.moves hu.backs)

theorem AuthoringRun.authored (hb : h.Backs l own) (ha : h.Authored)
    (hrun : AuthoringRun l (h, own) (h', own')) : h'.Authored :=
  (upheld_along (P := fun t => t.1.Backs l t.2 ∧ t.1.Authored) hrun ⟨hb, ha⟩
    fun _ _ hu hstep => ⟨(hstep.use.moves hu.1).backs, hstep.authored hu.1 hu.2⟩).2

end ScriptMachine.Heap

namespace ScriptMachine.Machine

/-- A run may be taken to have started with the heap that it has now. -/
theorem Above.rebase {t : Terms} {own : List Value} {m0 m : Machine} (hm : Above t m0 own m) :
    Above t (m0.withHeap m.heap) own m where
  toTidy := hm.toTidy
  config := hm.config
  root := hm.root
  delegates := hm.delegates
  nativeDepth := hm.nativeDepth
  drifts := .refl _
  slots := hm.slots
  opened := fun _ _ hr => .inl hr
  seated := hm.seated

end ScriptMachine.Machine

namespace ScriptMachine.Exec

variable {strict : Prop} {host own args : List Value} {t : Terms} {m : Machine} {callee : Value}

/-- What is done, or fails in the script, leaves all functions as they are. -/
def KeepsFunctions {α : Type} (m : Machine) : EStateM.Result Fault Machine α → Prop
  | .ok _ m' => m.heap.LeavesFunctions m'.heap
  | .error (.script _) m' => m.heap.LeavesFunctions m'.heap
  | .error _ _ => True

theorem Meets.keepsFunctions {α : Type} {act act' : Exec α} {Q : α → Machine → Prop}
    {F : ScriptError → Machine → Prop} (h : Meets t act act' Q F m)
    (hQ : ∀ a m', Q a m' → m.heap.Drifts m'.heap) (hF : ∀ e m', F e m' → m.heap.Drifts m'.heap) :
    KeepsFunctions m (act m) := by
  have h2 := h.2
  cases hact : act m with
  | ok a m' =>
    rw [hact] at h2
    exact (hQ a m' h2).leavesFunctions
  | error e m' =>
    rw [hact] at h2
    cases e with
    | script e => exact (hF e m' h2).leavesFunctions
    | outsideStack => trivial
    | outOfSteps => trivial

theorem call_keepsFunctions (hm : Reachable strict host (args ++ own) m)
    (hcallee : m.heap.Has callee) (steps : Nat) :
    KeepsFunctions m (callValue steps callee args m) ∧
      Throughout steps callee args m fun k m1 =>
        k = .fetch → ∀ steps', KeepsFunctions m1 (step (callValue steps') m1) := by
  refine ⟨(open_keeps steps hm.tidy hcallee).keepsFunctions (fun _ _ h => h.drifts)
    fun _ _ h => h.1.drifts, ?_⟩
  refine hm.throughout_fetch hcallee steps fun m0 own m1 hm1 hr steps' => ?_
  have hfaithful : Faithful (.open strict host) (callValue steps') (callValue steps') :=
    callValue_faithful (fun _ _ => trivial) steps'
  refine (step_meets hfaithful hm1.rebase hr fun _ _ _ => trivial).keepsFunctions
    (fun flow m2 h => ?_) fun e m2 h => h.drifts
  cases flow with
  | next => exact h.1.drifts
  | finished v => exact h.drifts

end ScriptMachine.Exec

namespace ScriptMachine.Heap

open ClassObject

variable {h : Heap} {own : Multiset Value}

/-- Classes that are made, derived and given members own their methods. A script function
among the methods of a class belongs to the class or to an ancestor. One that is stored
there stays the object it is if the base has it as its method of the name or it belongs to
the class already, and otherwise becomes a new one that belongs to the class and shares
all else. And no use of classes and no call changes a function that lives on, nor does an
instruction of the call, so that owners stay what they are. -/
theorem methods_authored (l : Law) {h₀ : Heap} {own₀ : Multiset Value} (hback : h₀.Backs l own₀)
    (hnone : ∀ r b, h₀.body? r = some b → Bare b)
    (hrun : AuthoringRun l (h₀, own₀) (h, own)) :
    h.Authored ∧
    (∀ r c key f isStatic own', own = .closure f ::ₘ .string key ::ₘ own' →
      .classObject r ∈ own' → h.class? r = some c →
      (h.classNewSlot r key (.closure f) isStatic).1 = .ok () →
      ∃ d fc, (h.classNewSlot r key (.closure f) isStatic).2.class? r = some d ∧
        h.closure? f = some fc ∧
        TakesFunction h (h.classNewSlot r key (.closure f) isStatic).2 r c d key f fc) ∧
    (∀ h' own', ClassUses l (h, own) (h', own') → h.LeavesFunctions h') ∧
    ∀ {strict : Prop} {host owned args : List Value} {m : Machine} {callee : Value},
      Exec.Reachable strict host (args ++ owned) m → m.heap.Has callee → ∀ steps,
        Exec.KeepsFunctions m (Exec.callValue steps callee args m) ∧
        Exec.Throughout steps callee args m fun k m1 =>
          k = .fetch → ∀ steps', Exec.KeepsFunctions m1 (Exec.step (Exec.callValue steps') m1) := by
  have hclassless : ∀ r c, h₀.class? r ≠ some c :=
    fun r c hc => (hnone r _ (class?_eq_some.1 hc)).1 rfl
  have hauthored : h.Authored :=
    hrun.authored hback fun r c hc => absurd hc (hclassless r c)
  have huses : ClassUses l (h₀, own₀) (h, own) := 
    Relation.ReflTransGen.mono (fun _ _ => Authoring.use) _ _ hrun
  obtain ⟨hb, hplaced⟩ := huses.spec hback fun r c hc => absurd hc (hclassless r c)
  refine ⟨hauthored, ?_, fun h' own' hlater => (hlater.moves hb).evolves.drifts.leavesFunctions,
    fun hm hcallee steps => Exec.call_keepsFunctions hm hcallee steps⟩
  rintro r c key f isStatic own' rfl hr hc hok
  exact hb.takesFunction hplaced hr hc hok

/-- A script function is stored in a class under a name, and a class is derived from it. -/
def looseFunction : Ref × Heap :=
  (fieldName.2.retain (.string fieldName.1)).newClosure { name := "g" } [] []

def ancestor : Ref × Heap :=
  (looseFunction.2.retain (.closure looseFunction.1)).newClass none "init"

def authoredAncestor : Heap :=
  (ancestor.2.classNewSlot ancestor.1 fieldName.1 (.closure looseFunction.1) false).2

def heir : Ref × Heap := authoredAncestor.newClass (some ancestor.1) "init"

/-- The heir when it is made, with the copy that belongs to its ancestor. -/
def heirClass : ClassObject :=
  { (ClassObject.empty "init").addMethod fieldName.1 (.closure ⟨3⟩) with base := some ancestor.1 }

theorem ancestor_run (l : Law) (hp : ∀ p n, l.closure p n) :
    AuthoringRun l (fieldName.2, {.string fieldName.1})
      (ancestor.2, .closure looseFunction.1 ::ₘ .string fieldName.1 ::ₘ .closure looseFunction.1 ::ₘ
        .string fieldName.1 ::ₘ {.classObject ancestor.1}) := by
  have hb : fieldName.2.Backs l {.string fieldName.1} :=
    (fieldName_backs l).mono (Multiset.le_cons_self _ _)
  have hname := hb.retain (hb.has (Multiset.mem_singleton_self _))
  have hloose : (fieldName.2.retain (.string fieldName.1)).Backs l
      ((([] : List Ref).map Value.outer ++ [] : List Value) +
        (.string fieldName.1 ::ₘ {.string fieldName.1} : Multiset Value)) := by
    simpa using hname.backs
  have hmake := hloose.newClosure (p := { name := "g" }) (hp _ _)
  have hshare := hmake.backs.retain (hmake.backs.has (Multiset.mem_cons_self _ _))
  have hrun : AuthoringRun l (fieldName.2, {.string fieldName.1}) (ancestor.2, _) :=
    (((Relation.ReflTransGen.single (.elsewhere hname (.retain _ _))).tail
      (.elsewhere hmake (.allocateLinked _ ⟨Kind.noConfusion, Kind.noConfusion⟩))).tail
      (.elsewhere hshare (.retain _ _))).tail (.newClass none "init" fun b hb => by cases hb)
  have howned : (.classObject ancestor.1 ::ₘ .closure looseFunction.1 ::ₘ
      .closure looseFunction.1 ::ₘ .string fieldName.1 ::ₘ {.string fieldName.1} : Multiset Value) =
      .closure looseFunction.1 ::ₘ .string fieldName.1 ::ₘ .closure looseFunction.1 ::ₘ
        .string fieldName.1 ::ₘ {.classObject ancestor.1} := by
    simp only [← Multiset.singleton_add]
    ac_rfl
  exact howned ▸ hrun

theorem heir_run (l : Law) (hp : ∀ p n, l.closure p n) :
    AuthoringRun l (fieldName.2, {.string fieldName.1})
      (heir.2, .closure looseFunction.1 ::ₘ .string fieldName.1 ::ₘ .classObject heir.1 ::ₘ
        {.classObject ancestor.1}) := by
  have hstore := (ancestor_run l hp).tail
    (.newSlot ancestor.1 fieldName.1 (.closure looseFunction.1) false (by simp))
  have hb : authoredAncestor.Backs l
      (.closure looseFunction.1 ::ₘ .string fieldName.1 ::ₘ {.classObject ancestor.1}) :=
    ((ClassUses.moves ((fieldName_backs l).mono (Multiset.le_cons_self _ _))
      (Relation.ReflTransGen.mono (fun _ _ => Authoring.use) _ _ hstore))).backs
  have hrun : AuthoringRun l (fieldName.2, {.string fieldName.1}) (heir.2, _) :=
    hstore.tail (.newClass (some ancestor.1) "init" fun b hbase => by
      cases hbase
      exact hb.has (by simp))
  have howned : (.classObject heir.1 ::ₘ .closure looseFunction.1 ::ₘ .string fieldName.1 ::ₘ
      {.classObject ancestor.1} : Multiset Value) =
      .closure looseFunction.1 ::ₘ .string fieldName.1 ::ₘ .classObject heir.1 ::ₘ
        {.classObject ancestor.1} := by
    simp only [← Multiset.singleton_add]
    ac_rfl
  exact howned ▸ hrun

/-- The heir has the function of its ancestor, and of the one that is stored anew it gets
a copy of its own. -/
theorem methods_authored_heir :
    heir.2.class? heir.1 = some heirClass ∧ heir.2.OwnedAbove heir.1 ⟨3⟩ ∧
    (∃ d g, (heir.2.classNewSlot heir.1 fieldName.1 (.closure looseFunction.1) false).2.class?
        heir.1 = some d ∧
      d.method? fieldName.1.chars = some (.closure g) ∧
      (heir.2.classNewSlot heir.1 fieldName.1 (.closure looseFunction.1) false).2.closure? g =
        some ⟨{ name := "g" }, [], [], some heir.1⟩) ∧
    ∀ steps, Exec.KeepsFunctions Exec.selfCallMachine
      (Exec.callValue steps (.closure Exec.selfCallClosure.1) [.closure Exec.selfCallClosure.1]
        Exec.selfCallMachine) := by
  let l : Law := ⟨fun _ _ => True, fun _ => True⟩
  have hback : fieldName.2.Backs l {.string fieldName.1} :=
    (fieldName_backs l).mono (Multiset.le_cons_self _ _)
  have hclass : heir.2.class? heir.1 = some heirClass := by with_unfolding_all rfl
  have hok : (heir.2.classNewSlot heir.1 fieldName.1 (.closure looseFunction.1) false).1 =
      .ok () := by with_unfolding_all rfl
  obtain ⟨hauthored, htakes, -, hcalls⟩ :=
    methods_authored l hback fieldName_bare (heir_run l fun _ _ => trivial)
  refine ⟨hclass, ?_, ?_, fun steps =>
    (hcalls (@Exec.selfCall_reachable False) Exec.selfCall_has steps).1⟩
  · exact hauthored _ _ hclass ⟨fieldName.1, .closure ⟨3⟩, .null⟩ (by simp [heirClass, addMethod])
      ⟨3⟩ rfl
  · obtain ⟨d, fc, hd, hf, hdoes⟩ := htakes heir.1 heirClass fieldName.1 looseFunction.1 false _
      rfl (by simp) hclass hok
    obtain ⟨w, hw, hrebinds⟩ := hdoes.stored (by rintro i ⟨⟩) (by decide)
    have hloose : heir.2.closure? looseFunction.1 = some ⟨{ name := "g" }, [], [], none⟩ := by
      with_unfolding_all rfl
    rw [hloose, Option.some.injEq] at hf
    subst hf
    have hother : ¬ heir.2.Inherits heirClass fieldName.1.chars looseFunction.1 := by
      rintro ⟨b, bc, hbase, hbc, hmethod⟩
      cases hbase
      have hancestor : heir.2.class? ancestor.1 =
          some ((ClassObject.empty "init").addMethod fieldName.1 (.closure ⟨3⟩)) := by
        with_unfolding_all rfl
      rw [hancestor, Option.some.injEq] at hbc
      rw [← hbc, method?_addMethod] at hmethod
      cases hmethod
    obtain ⟨g, rfl, -, hg⟩ := hrebinds.bound fun hcase => hcase.elim hother fun howner => by
      cases howner
    exact ⟨d, g, hd, hw, hg⟩

end ScriptMachine.Heap
