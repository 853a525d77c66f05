import ScriptMachine.Proofs.Heap.Routing
import ScriptMachine.Proofs.Machine.Creation

/-!
# Refused writes

A write to a member that fails before any metamethod is called lets go of what it was
given and changes no object. One write is made of two changes of which the second can
fail: a function that defines a metamethod is no member, so it cannot be given attributes.
-/

set_option autoImplicit false

namespace ScriptMachine

/-! ## What is left of a heap -/

namespace Heap

variable {l : Law} {own : Multiset Value} {h h' : Heap} {r : Ref} {v : Value}

/-- An object keeps another one alive. -/
def Leads (h : Heap) (x y : Ref) : Prop :=
  ∃ b v, h.body? x = some b ∧ v ∈ b.values ∧ v.ref? = some y

/-- What is owned, and what that leads to. -/
def Held (own : Multiset Value) (h : Heap) (y : Ref) : Prop :=
  ∃ v ∈ own, ∃ x, v.ref? = some x ∧ Relation.ReflTransGen h.Leads x y

/-- No object that is left has changed, and none is missing that is held. -/
structure Intact (own : Multiset Value) (h h' : Heap) : Prop where
  unchanged : ∀ r b, h'.body? r = some b → h.body? r = some b
  kept : ∀ r, h.Held own r → h'.body? r = h.body? r

/-- What is owned does not go when other things are let go, nor does what it leads to. -/
theorem Trims.intact (ht : Trims h h') (hb : h'.Backs l own) : Intact own h h' where
  unchanged := fun _ _ hbody => ht.body? hbody
  kept := by
    rintro r ⟨v, hv, x, hx, hpath⟩
    have hlives : ∃ b, h'.body? r = some b := by
      induction hpath with
      | refl =>
        obtain ⟨b, hbody, -⟩ := hb.has hv x hx
        exact ⟨b, hbody⟩
      | tail _ hlead ih =>
        obtain ⟨d, hd⟩ := ih
        obtain ⟨b, w, hbody, hw, hy⟩ := hlead
        rw [ht.body? hd, Option.some.injEq] at hbody
        obtain ⟨b', hbody', -⟩ := hb.has_of_body hd (hbody ▸ hw) _ hy
        exact ⟨b', hbody'⟩
    obtain ⟨b, hbody⟩ := hlives
    rw [hbody, ht.body? hbody]

/-! ### Writes that the heap refuses -/

theorem trims_dictSet {name : String} (hno : (h.dictSet r name v).1 = false) :
    Trims h (h.dictSet r name v).2 := by
  revert hno
  unfold dictSet
  dsimp only
  split
  · exact fun hno => by cases hno
  · exact fun _ => trims_release h v

theorem trims_classSet {name : String} (hno : (h.classSet r name v).1 = false) :
    Trims h (h.classSet r name v).2 := by
  revert hno
  unfold classSet
  split
  · exact fun _ => trims_release h v
  · split
    · exact fun hno => by cases hno
    · exact fun _ => trims_release h v

theorem trims_setItem {i : Int64} {e : SlotError} (hno : (h.setItem r i v).1 = .error e) :
    Trims h (h.setItem r i v).2 := by
  revert hno
  unfold setItem
  split
  · exact fun hno => by cases hno
  · exact fun _ => trims_release h v

theorem trims_instanceSet {name : String} (hno : (h.instanceSet r name v).1 = false) :
    Trims h (h.instanceSet r name v).2 := by
  revert hno
  unfold instanceSet
  split
  · exact fun _ => trims_release h v
  · split
    · split
      · exact fun hno => by cases hno
      · exact fun _ => trims_release h v
    · exact fun _ => trims_release h v

theorem trims_dictRemove {name : String} (hno : (h.dictRemove r name).1 = none) :
    Trims h (h.dictRemove r name).2 := by
  revert hno
  unfold dictRemove
  dsimp only
  split
  · exact fun hno => by cases hno
  · exact fun _ => .refl h

theorem trims_removeItem {i : Int64} {e : SlotError} (hno : (h.removeItem r i).1 = .error e) :
    Trims h (h.removeItem r i).2 := by
  revert hno
  unfold removeItem
  split
  · exact fun hno => by cases hno
  · exact fun _ => .refl h

theorem trims_classNewSlot {key : Text} {isStatic : Bool} {e : SlotError}
    (hno : (h.classNewSlot r key v isStatic).1 = .error e) :
    Trims h (h.classNewSlot r key v isStatic).2 := by
  have hrefuse : Trims h ((h.release v).releaseRef key.ref) :=
    (trims_release h v).trans (trims_releaseRefs _ _)
  revert hno
  unfold classNewSlot
  split
  · exact fun _ => hrefuse
  · dsimp only
    split
    · exact fun _ => hrefuse
    · split
      · exact fun hno => by cases hno
      · split
        · exact fun _ => hrefuse
        · split
          · exact fun hno => by cases hno
          · split
            · exact fun hno => by cases hno
            · split <;> exact fun hno => by cases hno

end Heap

/-! ## What is left of a machine -/

/-- Nothing but the heap has changed, and there things have been let go. -/
structure Machine.LetsGo (m m' : Machine) : Prop where
  machine : m' = m.withHeap m'.heap
  heap : Heap.Trims m.heap m'.heap

namespace Exec

open Machine (LetsGo)

variable {α β : Type} {t : Terms} {s : Scope} {own vs : List Value} {m m' n : Machine}
variable {act : Exec α} {f : α → Exec β} {call : Caller}

theorem letsGo_refl (m : Machine) : LetsGo m m := ⟨rfl, .refl _⟩

theorem letsGo_withHeap {h : Heap} (ht : Heap.Trims m.heap h) : LetsGo m (m.withHeap h) := ⟨rfl, ht⟩

theorem storingKey_ends (key : Value) (vs : List Value) (m : Machine) :
    (∃ k, key = .string k ∧ storingKey key vs m = .ok k m) ∨
      ∃ e, storingKey key vs m = .error (.script e) (m.withHeap (m.heap.releaseAll vs)) := by
  cases key with
  | string k => exact .inl ⟨k, rfl, rfl⟩
  | _ => exact .inr ⟨_, bind_ok m (releaseAll_eq m vs)⟩

/-- The action fails only where things have just been let go. -/
def Withdraws (act : Exec α) (m : Machine) : Prop :=
  ∀ e m', act m = .error (.script e) m' → LetsGo m m'

namespace Withdraws

theorem fail {e : ScriptError} : Withdraws (Exec.fail e : Exec α) m := fun _ _ h => by
  cases h
  exact letsGo_refl m

theorem of_ok {a : α} (h : act m = .ok a n) : Withdraws act m := fun _ _ he => by
  rw [h] at he
  cases he

/-- A part that only lets things go comes before. -/
theorem next {a : α} (h : act m = .ok a n) (hgo : LetsGo m n) (hf : Withdraws (f a) n) :
    Withdraws (act >>= f) m := fun e m' he => by
  rw [bind_ok m h] at he
  have hrest := hf e m' he
  refine ⟨?_, hgo.heap.trans hrest.heap⟩
  rw [hrest.machine, hgo.machine]
  rfl

theorem of_bind (h : Withdraws act m) (hf : ∀ a n, act m = .ok a n → ∀ e m', f a n ≠ .error e m') :
    Withdraws (act >>= f) m := fun e m' he => by
  cases hact : act m with
  | ok a n =>
    rw [bind_ok m hact] at he
    exact absurd he (hf a n hact _ _)
  | error e' n =>
    rw [bind_error m hact] at he
    cases he
    exact h e m' hact

theorem readHeap {g : Heap → α} (hf : Withdraws (f (g m.heap)) m) :
    Withdraws (Exec.readHeap g >>= f) m := hf

theorem release {v : Value} {f : Unit → Exec β} (hf : ∀ m', Withdraws (f ()) m') :
    Withdraws (Exec.release v >>= f) m :=
  next (release_eq m v) (letsGo_withHeap (Heap.trims_release _ _)) (hf _)

theorem storingKey {key : Value} {f : Text → Exec β} (vs : List Value)
    (hf : ∀ k, key = .string k → Withdraws (f k) m) : Withdraws (Exec.storingKey key vs >>= f) m := by
  rcases storingKey_ends key vs m with ⟨k, hkey, hok⟩ | ⟨e, hfail⟩
  · exact next hok (letsGo_refl m) (hf k hkey)
  · intro e' m' he
    rw [bind_error m hfail] at he
    cases he
    exact letsGo_withHeap (Heap.trims_releaseAll _ _)

theorem slotHeap {g : Heap → Except SlotError α × Heap}
    (hg : ∀ e, (g m.heap).1 = .error e → Heap.Trims m.heap (g m.heap).2) :
    Withdraws (Exec.slotHeap g) m := fun e m' he => by
  unfold Exec.slotHeap at he
  rw [bind_ok m (heap_eq m g)] at he
  cases hres : (g m.heap).1 with
  | ok a =>
    rw [hres] at he
    cases he
  | error e =>
    rw [hres] at he
    cases he
    exact letsGo_withHeap (hg e hres)

end Withdraws

/-! ## Calls that lead nowhere -/

/-- A way to call that never gets anywhere. -/
def stuck : Caller := fun _ _ => throw .outOfSteps

theorem callMeta_stuck (g : Value) (lent owned : List Value) (m : Machine) :
    ∃ n, callMeta stuck g lent owned m = .error .outOfSteps n := by
  have hinner (m : Machine) : ∃ n, (retainAll lent >>= fun _ => stuck g (lent ++ owned)) m =
      .error .outOfSteps n := by
    rw [bind_ok m (retainAll_eq m lent)]
    exact ⟨_, rfl⟩
  obtain ⟨n, hn⟩ := hinner (m.withHeap (m.heap.retainAll [g]))
  refine ⟨n.withHeap (n.heap.releaseAll [g]), ?_⟩
  unfold callMeta holding
  rw [bind_ok m (retainAll_eq m [g])]
  simp only [owning, hn, releaseAll_eq]
  rfl

theorem Withdraws.callMeta {g : Value} {lent owned : List Value} :
    Withdraws (callMeta stuck g lent owned) m := fun e m' he => by
  obtain ⟨n, hn⟩ := callMeta_stuck g lent owned m
  rw [hn] at he
  cases he

theorem stuck_faithful : Faithful t stuck stuck := fun _ _ _ _ _ _ _ => ⟨rfl, trivial⟩

theorem error_of_bind {g : α → β} {e : Fault} (h : (act >>= fun a => pure (g a)) m = .error e m') :
    act m = .error e m' := by
  cases hact : act m with
  | ok a n =>
    rw [bind_ok m hact] at h
    cases h
  | error e' n =>
    rw [bind_error m hact] at h
    cases h
    rfl

/-! ## The writes -/

theorem requireFound_withdraws {name : String} {g : Heap → Bool × Heap}
    (hg : (g m.heap).1 = false → Heap.Trims m.heap (g m.heap).2) :
    Withdraws (do requireFound name (← heap g)) m := by
  cases hres : (g m.heap).1 with
  | true =>
    refine Withdraws.of_ok (n := m.withHeap (g m.heap).2) (a := ()) ?_
    rw [bind_ok m (heap_eq m g), hres]
    rfl
  | false =>
    refine .next (heap_eq m g) (letsGo_withHeap (hg hres)) ?_
    rw [hres]
    exact .fail

theorem assignThrough_withdraws (obj key v : Value) : Withdraws (assignThrough stuck obj key v) m := by
  unfold assignThrough
  refine .readHeap ?_
  split
  · exact .of_bind .callMeta fun a n _ e m' he => by
      rw [release_eq] at he
      cases he
  · exact .release fun m' => .readHeap .fail

theorem setMember_withdraws (obj key v : Value) : Withdraws (setMember stuck obj key v) m := by
  unfold setMember
  split
  · exact .storingKey [v] fun k _ => requireFound_withdraws Heap.trims_dictSet
  · exact .storingKey [v] fun k _ => requireFound_withdraws Heap.trims_classSet
  · split
    · exact .slotHeap fun e => Heap.trims_setItem
    · exact .release fun m' => .fail
  · next r =>
    refine .next (retain_eq m v) (letsGo_withHeap (Heap.trims_retain _ _)) ?_
    dsimp only
    split
    · next k =>
      cases hres : ((m.heap.retain v).instanceSet r k.chars v).1 with
      | true =>
        refine Withdraws.of_ok (n := m.withHeap
          (((m.heap.retain v).instanceSet r k.chars v).2.release v)) (a := ()) ?_
        rw [bind_ok _ (heap_eq _ _), Machine.withHeap_heap, hres]
        exact release_eq _ v
      | false =>
        refine .next (heap_eq _ _) (letsGo_withHeap (Heap.trims_instanceSet hres)) ?_
        rw [Machine.withHeap_heap, hres]
        exact assignThrough_withdraws _ _ _
    · refine .release fun m' => ?_
      exact assignThrough_withdraws _ _ _
  · exact .release fun m' => .fail

theorem newSlot_withdraws {obj key v : Value} (hobj : ∀ r, obj ≠ .classObject r) :
    Withdraws (newSlot stuck obj key v) m := by
  unfold newSlot
  split
  · refine .storingKey [v] fun k _ => .next (retain_eq m key) (letsGo_withHeap
      (Heap.trims_retain _ _)) ?_
    exact .of_ok (updateHeap_eq _ _)
  · next r => exact absurd rfl (hobj r)
  · refine .readHeap ?_
    split
    · exact .of_bind .callMeta fun a n _ e m' he => by
        rw [release_eq] at he
        cases he
    · exact .release fun m' => .fail
  · exact .release fun m' => .fail

theorem deleteSlot_withdraws (obj key : Value) : Withdraws (deleteSlot stuck obj key) m := by
  unfold deleteSlot
  split
  · next r =>
    cases hk : key.keyText with
    | error e => exact fun e' m' he => by cases he; exact letsGo_refl m
    | ok k =>
      refine .next (a := k) rfl (letsGo_refl m) ?_
      cases hres : (m.heap.dictRemove r k.chars).1 with
      | some v =>
        refine Withdraws.of_ok (n := m.withHeap (m.heap.dictRemove r k.chars).2) (a := v) ?_
        rw [bind_ok m (heap_eq m _), hres]
        rfl
      | none =>
        refine .next (heap_eq m _) (letsGo_withHeap (Heap.trims_dictRemove hres)) ?_
        rw [hres]
        exact .fail
  · split
    · exact .slotHeap fun e => Heap.trims_removeItem
    · exact .fail
  · refine .readHeap ?_
    split
    · exact .callMeta
    · exact .fail
  · exact .fail

/-! ### The write that is made of two -/

/-- A function that is no member when it is stored, since it defines a metamethod, and
that is to get attributes. -/
structure Misroutes (h : Heap) (cls : Ref) (key : Text) (v attributes : Value) (c : ClassObject)
    (mm : MetaMethod) : Prop where
  target : h.class? cls = some c
  absent : c.member? key.chars = none
  function : v.isFunction = true
  named : MetaMethod.ofName? key.chars = some mm
  attributed : attributes.isNull = false
  room : c.members.length < ClassObject.maxMembers

variable {cls : Ref} {k : Text} {v attributes : Value} {c : ClassObject} {mm : MetaMethod}
variable {isStatic : Bool} {h : Heap}

theorem Misroutes.stored (hmis : Misroutes h cls k v attributes c mm) (isStatic : Bool) :
    (h.classNewSlot cls k v isStatic).1 = .ok () := by
  simp only [Heap.classNewSlot, hmis.target, hmis.absent, hmis.function, hmis.named, Bool.true_or,
    Bool.not_true, Bool.and_false, Bool.false_eq_true, if_false, if_true,
    if_neg (Nat.not_le.2 hmis.room)]

/-- A member that was stored without being found afterwards is a metamethod. -/
theorem misroutes_of_absent {l : Law} {held : Multiset Value} {d : ClassObject}
    (hb : h.Backs l (v ::ₘ .string k ::ₘ held)) (hcls : .classObject cls ∈ held)
    (hstored : (h.classNewSlot cls k v isStatic).1 = .ok ())
    (hd : (h.classNewSlot cls k v isStatic).2.class? cls = some d) (hlost : d.member? k.chars = none)
    (hattributes : attributes.isNull = false) :
    ∃ c mm, Misroutes h cls k v attributes c mm ∧ d = c.setMeta mm v := by
  obtain ⟨c, hc⟩ := (hb.has (Multiset.mem_cons_of_mem (Multiset.mem_cons_of_mem hcls))).classObject
  have hc := Heap.class?_eq_some.2 hc
  obtain ⟨d', hd', hentry⟩ := hb.newSlot_enters hcls hc hstored
  rw [hd, Option.some.injEq] at hd'
  subst hd'
  cases hentry with
  | override hi =>
    rw [ClassObject.member?_modifyEntry, hi] at hlost
    cases hlost
  | declare _ _ =>
    rw [ClassObject.member?_addField, if_pos rfl] at hlost
    cases hlost
  | @define mm _ hfunction hnamed =>
    refine ⟨c, mm, ⟨hc, hlost, hfunction, hnamed, hattributes, ?_⟩, rfl⟩
    by_contra hfull
    have hnone : c.member? k.chars = none := hlost
    simp only [Heap.classNewSlot, hc, hnone, hfunction, Bool.true_or, Bool.not_true, Bool.and_false,
      Bool.false_eq_true, if_false, if_pos (Nat.not_lt.1 hfull), reduceCtorEq] at hstored
  | replace hi _ _ _ =>
    rw [ClassObject.member?_modifyEntry, hi] at hlost
    cases hlost
  | add _ _ _ _ =>
    rw [ClassObject.member?_addMethod, if_pos rfl] at hlost
    cases hlost

theorem addMember_eq (cls : Ref) (k : Text) (v : Value) (isStatic : Bool) (m : Machine) :
    (do
      retain (.string k)
      slotHeap fun (h : Heap) => h.classNewSlot cls k v isStatic) m =
      ofSlot ((m.heap.retain (.string k)).classNewSlot cls k v isStatic).1
        (m.withHeap ((m.heap.retain (.string k)).classNewSlot cls k v isStatic).2) := by
  rw [bind_ok m (retain_eq m _), slotHeap, bind_ok _ (heap_eq _ _)]
  rfl

theorem class?_retain (h : Heap) (v : Value) (r : Ref) : (h.retain v).class? r = h.class? r := by
  unfold Heap.retain
  split
  · exact Heap.Backs.class?_retainRef ..
  · rfl

theorem Misroutes.retain (hmis : Misroutes h cls k v attributes c mm) (w : Value) :
    Misroutes (h.retain w) cls k v attributes c mm :=
  { hmis with target := (class?_retain h w cls).trans hmis.target }

theorem Misroutes.of_retain {w : Value} (hmis : Misroutes (h.retain w) cls k v attributes c mm) :
    Misroutes h cls k v attributes c mm :=
  { hmis with target := (class?_retain h w cls).symm.trans hmis.target }

theorem setMemberAttributes_absent (hc : h.class? cls = some c) (habsent : c.member? k.chars = none) :
    h.setMemberAttributes cls k.chars v = (.error (.missing k.chars), h.release v) := by
  simp only [Heap.setMemberAttributes, hc, habsent]

theorem setMemberAttributes_found {p : Member} (hc : h.class? cls = some c)
    (hfound : c.member? k.chars = some p) : (h.setMemberAttributes cls k.chars v).1 = .ok () := by
  simp only [Heap.setMemberAttributes, hc, hfound]

theorem readHeap_bind {g : Heap → α} (m : Machine) : (readHeap g >>= f) m = f (g m.heap) m := rfl

/-- What is owned when the name has been shared for the class to keep. -/
theorem backs_keyed (hm : m.Within t s (v :: attributes :: own)) (hk : .string k ∈ own) :
    (m.heap.retain (.string k)).Backs t.law (v ::ₘ .string k ::ₘ
      (((attributes :: own : List Value) : Multiset Value) +
        ((t.host : Multiset Value) + m.roots))) := by
  have hkeyed := hm.retain (hm.has (List.mem_cons_of_mem _ (List.mem_cons_of_mem _ hk)))
  have hb := (hkeyed.perm (List.Perm.swap (.string k) v _)).backs_cons
  rwa [coe_cons_add] at hb

theorem Misroutes.defined {l : Law} {held : Multiset Value}
    (hmis : Misroutes h cls k v attributes c mm) (isStatic : Bool)
    (hb : h.Backs l (v ::ₘ .string k ::ₘ held)) (hcls : .classObject cls ∈ held) :
    (h.classNewSlot cls k v isStatic).2.class? cls = some (c.setMeta mm v) := by
  obtain ⟨d, hd, hentry⟩ := hb.newSlot_enters hcls hmis.target (hmis.stored isStatic)
  rw [hd]
  cases hentry with
  | override hi =>
    rw [hmis.absent] at hi
    cases hi
  | declare _ hplain =>
    rw [hmis.function] at hplain
    cases hplain
  | define _ _ hnamed =>
    rw [hmis.named, Option.some.injEq] at hnamed
    rw [hnamed]
  | replace hi _ _ _ =>
    rw [hmis.absent] at hi
    cases hi
  | add _ _ hname _ =>
    have hnone := hname hmis.function
    rw [hmis.named] at hnone
    cases hnone

/-- The write fails after the metamethod has been defined. -/
theorem Misroutes.fails (hmis : Misroutes m.heap cls k v attributes c mm) (isStatic : Bool)
    (hmeta : m.heap.classMeta? cls .newMember = none) (hm : m.Within t s (v :: attributes :: own))
    (ho : .classObject cls ∈ own) (hk : .string k ∈ own) :
    ∃ h', (∀ call, newClassMember call cls (.string k) v attributes isStatic m =
        .error (.script (SlotError.missing k.chars).toScriptError) (m.withHeap h')) ∧
      h'.class? cls = some (c.setMeta mm v) := by
  have hb := backs_keyed hm hk
  have hcls : Value.classObject cls ∈ ((attributes :: own : List Value) : Multiset Value) +
      ((t.host : Multiset Value) + m.roots) := by simp [ho]
  have hmis' := hmis.retain (.string k)
  have hd := hmis'.defined isStatic hb hcls
  have hadd := addMember_eq cls k v isStatic m
  rw [hmis'.stored isStatic] at hadd
  refine ⟨((m.heap.retain (.string k)).classNewSlot cls k v isStatic).2.release attributes,
    fun call => ?_, ?_⟩
  · unfold newClassMember
    rw [readHeap_bind]
    simp only [hmeta]
    have hkey : storingKey (.string k) [v, attributes] m = .ok k m := rfl
    rw [bind_ok m hkey, bind_ok m (handing_ok hadd)]
    simp only [hmis.attributed, Bool.false_eq_true, if_false, slotHeap]
    rw [bind_ok _ (heap_eq _ _), Machine.withHeap_heap, setMemberAttributes_absent hd hmis.absent]
    rfl
  · have hnew := (@Heap.Backs.classNewSlot _ _ _ cls k v isStatic hb hcls).backs
    rw [coe_cons_add] at hnew
    have hlast := hnew.release.backs.has (Multiset.mem_add.2 (.inl ho))
    exact ((Heap.SameLayouts.release _ _).class?_eq hlast).trans hd

/-- A class that refuses a new member has not changed, or a function that defines a
metamethod was to get attributes: then it does define it. -/
theorem newClassMember_refused {key : Value} {e : ScriptError}
    (hm : m.Within t s (v :: attributes :: own)) (ho : .classObject cls ∈ own) (hk : key ∈ own)
    (hrun : newClassMember stuck cls key v attributes isStatic m = .error (.script e) m') :
    LetsGo m m' ∧ (∀ k c mm, key = .string k → ¬ Misroutes m.heap cls k v attributes c mm) ∨
      ∃ k c mm, key = .string k ∧ Misroutes m.heap cls k v attributes c mm ∧
        m' = m.withHeap m'.heap ∧ m'.heap.class? cls = some (c.setMeta mm v) := by
  have hwhole := hrun
  unfold newClassMember at hrun
  rw [readHeap_bind] at hrun
  cases hmeta : m.heap.classMeta? cls .newMember with
  | some g =>
    obtain ⟨n, hn⟩ := callMeta_stuck g [.classObject cls, key] [v, attributes, .bool isStatic] m
    simp only [hmeta, bind_error m hn] at hrun
    cases hrun
  | none =>
    simp only [hmeta] at hrun
    rcases storingKey_ends key [v, attributes] m with ⟨k, rfl, hok⟩ | ⟨e', hfail⟩
    · rw [bind_ok m hok] at hrun
      have hadd := addMember_eq cls k v isStatic m
      cases hres : ((m.heap.retain (.string k)).classNewSlot cls k v isStatic).1 with
      | error e₁ =>
        rw [hres] at hadd
        rw [bind_error m (handing_error hadd)] at hrun
        cases hrun
        refine .inl ⟨letsGo_withHeap ((Heap.trims_retain _ _).trans
          ((Heap.trims_classNewSlot hres).trans (Heap.trims_release _ _))), fun k' c mm hkey hmis => ?_⟩
        cases hkey
        rw [(hmis.retain (.string k)).stored isStatic] at hres
        cases hres
      | ok _ =>
        -- the member is stored, so it is for the attributes that the write fails
        rw [hres] at hadd
        have hb := backs_keyed hm hk
        have hcls : Value.classObject cls ∈ ((attributes :: own : List Value) : Multiset Value) +
            ((t.host : Multiset Value) + m.roots) := by simp [ho]
        obtain ⟨d, hd⟩ := ((@Heap.Backs.classNewSlot _ _ _ cls k v isStatic hb hcls).backs.has hcls).classObject
        have hd := Heap.class?_eq_some.2 hd
        rw [bind_ok m (handing_ok hadd)] at hrun
        cases hattributes : attributes.isNull with
        | true =>
          simp only [hattributes, if_true] at hrun
          cases hrun
        | false =>
          cases hlost : d.member? k.chars with
          | some p =>
            simp only [hattributes, Bool.false_eq_true, if_false, slotHeap] at hrun
            rw [bind_ok _ (heap_eq _ _), Machine.withHeap_heap, setMemberAttributes_found hd hlost]
              at hrun
            cases hrun
          | none =>
            obtain ⟨c, mm, hmis, -⟩ := misroutes_of_absent hb hcls hres hd hlost hattributes
            have hmis := hmis.of_retain
            obtain ⟨h', hfails, hdefined⟩ := hmis.fails isStatic hmeta hm ho hk
            rw [hfails stuck] at hwhole
            cases hwhole
            exact .inr ⟨k, c, mm, rfl, hmis, rfl, hdefined⟩
    · rw [bind_error m hfail] at hrun
      cases hrun
      refine .inl ⟨letsGo_withHeap (Heap.trims_releaseAll _ _), fun k c mm hkey => ?_⟩
      subst hkey
      cases hfail

end Exec

/-! ## Any write -/

/-- A write to a member of an object, or a member that is taken out. -/
inductive MemberWrite where
  | assign (obj key v : Value)
  | insert (obj key v : Value)
  | declare (cls : Ref) (key v attributes : Value) (isStatic : Bool)
  | remove (obj key : Value)

namespace MemberWrite

open Exec
open Machine (LetsGo)

/-- The values that the write takes over. -/
def given : MemberWrite → List Value
  | .assign _ _ v => [v]
  | .insert _ _ v => [v]
  | .declare _ _ v attributes _ => [v, attributes]
  | .remove _ _ => []

/-- The values that the write is lent. -/
def lent : MemberWrite → List Value
  | .assign obj key _ => [obj, key]
  | .insert obj key _ => [obj, key]
  | .declare cls key _ _ _ => [.classObject cls, key]
  | .remove obj key => [obj, key]

/-- The write, with the values that it gives back. -/
def run (call : Caller) : MemberWrite → Exec (List Value)
  | .assign obj key v => do
    setMember call obj key v
    return []
  | .insert obj key v => do
    newSlot call obj key v
    return []
  | .declare cls key v attributes isStatic => do
    newClassMember call cls key v attributes isStatic
    return []
  | .remove obj key => do return [← deleteSlot call obj key]

/-- No metamethod is called: the write goes the same way however calls are made. -/
def Alone (w : MemberWrite) (m : Machine) : Prop :=
  ∀ call call' : Caller, w.run call m = w.run call' m

variable {t : Terms} {own : List Value} {m m' : Machine} {w : MemberWrite} {e : ScriptError}
variable {call : Caller}

/-- The write stores a function that defines a metamethod and was to get attributes. -/
def Misroutes (w : MemberWrite) (h : Heap) (cls : Ref) (c : ClassObject) (mm : MetaMethod)
    (v : Value) : Prop :=
  ∃ key attributes isStatic, w = .declare cls (.string key) v attributes isStatic ∧
    Exec.Misroutes h cls key v attributes c mm

theorem run_stuck (hm : m.Tidy t (w.given ++ own)) (hlent : ∀ v ∈ w.lent, v ∈ own)
    (hrun : w.run stuck m = .error (.script e) m') :
    m'.Tidy t own ∧ (LetsGo m m' ∧ (∀ cls c mm v, ¬ w.Misroutes m.heap cls c mm v) ∨
      ∃ cls c mm v, w.Misroutes m.heap cls c mm v ∧ m' = m.withHeap m'.heap ∧
        m'.heap.class? cls = some (c.setMeta mm v)) := by
  have hwithin : m.Within t (.still m .nothing) (w.given ++ own) := .of_start hm
  have hno {w : MemberWrite} (hw : ∀ cls key v attributes isStatic,
      w ≠ .declare cls key v attributes isStatic) (h : Heap) (cls : Ref) (c : ClassObject)
      (mm : MetaMethod) (v : Value) : ¬ w.Misroutes h cls c mm v :=
    fun ⟨_, _, _, heq, _⟩ => hw _ _ _ _ _ heq
  cases w with
  | assign obj key v =>
    have hset := @error_of_bind _ _ _ _ (setMember stuck obj key v) _ _ hrun
    have hkeeps : Keeps t _ own (setMember stuck obj key v) _ _ m :=
      setMember_keeps stuck_faithful hwithin (hlent obj (by simp [lent])) (hlent key (by simp [lent]))
    exact ⟨(hkeeps.failed hset).1.toTidy,
      .inl ⟨setMember_withdraws obj key v e m' hset, hno (by simp) _⟩⟩
  | insert obj key v =>
    have hnew := @error_of_bind _ _ _ _ (newSlot stuck obj key v) _ _ hrun
    have hobj := hlent obj (by simp [lent])
    have hkey := hlent key (by simp [lent])
    have hkeeps : Keeps t _ own (newSlot stuck obj key v) _ _ m :=
      newSlot_keeps stuck_faithful hwithin hobj hkey
    refine ⟨(hkeeps.failed hnew).1.toTidy, .inl ⟨?_, hno (by simp) _⟩⟩
    by_cases hclass : ∃ r, obj = .classObject r
    · obtain ⟨r, rfl⟩ := hclass
      have hm' : m.Within t (.still m .nothing) (v :: .null :: own) :=
        (hwithin.own_plain (v := .null) rfl).perm (.swap _ _ _)
      rcases newClassMember_refused hm' hobj hkey hnew with ⟨hgo, -⟩ | ⟨k, c, mm, -, hmis, -⟩
      · exact hgo
      · have := hmis.attributed
        cases this
    · exact newSlot_withdraws (fun r hr => hclass ⟨r, hr⟩) e m' hnew
  | declare cls key v attributes isStatic =>
    have hdeclare := @error_of_bind _ _ _ _ (newClassMember stuck cls key v attributes isStatic) _ _ hrun
    have hcls := hlent (.classObject cls) (by simp [lent])
    have hkey := hlent key (by simp [lent])
    have hkeeps : Keeps t _ own (newClassMember stuck cls key v attributes isStatic) _ _ m :=
      newClassMember_keeps stuck_faithful hwithin hcls hkey
    refine ⟨(hkeeps.failed hdeclare).1.toTidy, ?_⟩
    rcases newClassMember_refused hwithin hcls hkey hdeclare with
      ⟨hgo, hnone⟩ | ⟨k, c, mm, rfl, hmis, hmachine, hclass⟩
    · refine .inl ⟨hgo, ?_⟩
      rintro _ c mm _ ⟨k, _, _, heq, hmis⟩
      cases heq
      exact hnone k c mm rfl hmis
    · exact .inr ⟨cls, c, mm, v, ⟨k, attributes, isStatic, rfl, hmis⟩, hmachine, hclass⟩
  | remove obj key =>
    have hdelete := @error_of_bind _ _ _ _ (deleteSlot stuck obj key) _ _ hrun
    have hkeeps : Keeps t _ own (deleteSlot stuck obj key) _ _ m :=
      deleteSlot_keeps stuck_faithful hwithin (hwithin.has (hlent obj (by simp [lent])))
        (hwithin.has (hlent key (by simp [lent])))
    exact ⟨(hkeeps.failed hdelete).1.toTidy,
      .inl ⟨deleteSlot_withdraws obj key e m' hdelete, hno (by simp) _⟩⟩

/-- A write that fails before it calls anything changes no object: what is left is as it
was, and so is all that anyone holds. Only where a function defines a metamethod and was to
get attributes, the metamethod is defined although the write fails. -/
theorem failed_write_changes_nothing (hm : m.Tidy t (w.given ++ own))
    (hlent : ∀ v ∈ w.lent, v ∈ own) (halone : w.Alone m)
    (hrun : w.run call m = .error (.script e) m') :
    m' = m.withHeap m'.heap ∧ m'.Tidy t own ∧
      ((∀ cls c mm v, ¬ w.Misroutes m.heap cls c mm v) →
        Heap.Intact ((own : Multiset Value) + ((t.host : Multiset Value) + m.roots)) m.heap m'.heap) ∧
      ∀ cls c mm v, w.Misroutes m.heap cls c mm v → m'.heap.class? cls = some (c.setMeta mm v) := by
  obtain ⟨htidy, hcases⟩ := run_stuck hm hlent ((halone stuck call).trans hrun)
  rcases hcases with ⟨hgo, hnone⟩ | ⟨cls, c, mm, v, hmis, hmachine, hclass⟩
  · have hroots : m'.roots = m.roots := by rw [hgo.machine, Machine.withHeap_roots]
    exact ⟨hgo.machine, htidy, fun _ => hgo.heap.intact (hroots ▸ htidy.backs),
      fun cls c mm v hmis => absurd hmis (hnone cls c mm v)⟩
  · refine ⟨hmachine, htidy, fun hnone => absurd hmis (hnone cls c mm v), ?_⟩
    rintro cls' c' mm' v' ⟨k', attributes', isStatic', heq', hmis'⟩
    obtain ⟨k, attributes, isStatic, heq, hmis⟩ := hmis
    rw [heq] at heq'
    cases heq'
    have hc := hmis.target.symm.trans hmis'.target
    have hmm := hmis.named.symm.trans hmis'.named
    rw [Option.some.injEq] at hc hmm
    rw [← hc, ← hmm, hclass]

theorem assign_absent {cls : Ref} {c : ClassObject} {k : Text} (hc : m.heap.class? cls = some c)
    (habsent : c.member? k.chars = none) (call : Caller) (v : Value) :
    (MemberWrite.assign (.classObject cls) (.string k) v).run call m =
      .error (.script (SlotError.missing k.chars).toScriptError)
        (m.withHeap (m.heap.release v)) := by
  have hset : m.heap.classSet cls k.chars v = (false, m.heap.release v) := by
    simp only [Heap.classSet, hc, habsent]
  have hrun : (heap (fun (h : Heap) => h.classSet cls k.chars v) >>= requireFound k.chars) m =
      .error (.script (SlotError.missing k.chars).toScriptError) (m.withHeap (m.heap.release v)) := by
    rw [bind_ok m (heap_eq m _), hset]
    rfl
  exact bind_error m hrun

/-! ### A machine with a class and a function -/

theorem class?_newClosure (h : Heap) (ctor : String) (p : Prototype) :
    ((h.newClass none ctor).2.newClosure p [] []).2.class? (h.newClass none ctor).1 =
      some (.empty ctor) := by
  have hmade : (h.newClass none ctor).2.body? (h.newClass none ctor).1 =
      some (.classObject (.empty ctor)) := by
    rw [Heap.newClass, Heap.body?_allocateLinked, if_pos rfl]
  exact Heap.class?_eq_some.2 ((Heap.spares_allocateLinked _ _).body hmade)

theorem tidy_newClosure (hm : m.Tidy t []) (ht : ¬ t.strict) (name ctor : String) (p : Prototype) :
    let key := m.heap.allocateText name
    let cls := key.2.newClass none ctor
    let f := cls.2.newClosure p [] []
    (m.withHeap f.2).Tidy t [.closure f.1, .classObject cls.1, .string key.1] := by
  intro key cls f
  have hname := hm.backs.allocateText name
  have hclass := @Heap.Backs.newClass _ _ _ none ctor hname.backs fun b hb => by cases hb
  have hb : cls.2.Backs t.law ((([] : List Ref).map Value.outer ++ [] : List Value) +
      (.classObject cls.1 ::ₘ .string key.1 ::ₘ ((t.host : Multiset Value) + m.roots) :
        Multiset Value)) := by
    simpa using hclass.backs
  have hfunction := hb.newClosure (p := p) (fun hstrict => absurd hstrict ht)
  refine hm.heap ⟨?_, hname.evolves.trans (hclass.evolves.trans hfunction.evolves)⟩
  simpa only [coe_cons_add, Multiset.coe_nil, Multiset.zero_add] using hfunction.backs

def additionName : Text × Heap := (Machine.create {}).heap.allocateText "_add"

def additionClass : Ref × Heap := additionName.2.newClass none "init"

def additionFunction : Ref × Heap := additionClass.2.newClosure { name := "f" } [] []

def additionHome : Machine := (Machine.create {}).withHeap additionFunction.2

def additionTerms : Terms := ⟨False, [], fun _ _ => True⟩

theorem additionHome_tidy : additionHome.Tidy additionTerms
    [.closure additionFunction.1, .classObject additionClass.1, .string additionName.1] :=
  tidy_newClosure (Machine.create_tidy rfl _) id "_add" "init" { name := "f" }

theorem additionHome_class :
    additionHome.heap.class? additionClass.1 = some (ClassObject.empty "init") := by
  rw [additionHome, Machine.withHeap_heap, additionFunction, additionClass]
  exact class?_newClosure additionName.2 "init" { name := "f" }

/-- A member is written that the class does not have. -/
def absentMember : MemberWrite :=
  .assign (.classObject additionClass.1) (.string additionName.1) (.closure additionFunction.1)

theorem absentMember_run (call : Caller) :
    absentMember.run call additionHome = .error (.script (SlotError.missing "_add").toScriptError)
      (additionHome.withHeap (additionHome.heap.release (.closure additionFunction.1))) :=
  assign_absent additionHome_class rfl call _

theorem failed_write_changes_nothing_absentMember :
    Heap.Intact ((([.classObject additionClass.1, .string additionName.1] : List Value) :
        Multiset Value) + ((additionTerms.host : Multiset Value) + additionHome.roots))
      additionHome.heap (additionHome.heap.release (.closure additionFunction.1)) :=
  (@failed_write_changes_nothing _ _ _ _ absentMember _ stuck additionHome_tidy (fun v hv => hv)
     (fun call call' => (absentMember_run call).trans (absentMember_run call').symm)
    (absentMember_run stuck)).2.2.1 fun cls c mm v ⟨_, _, _, heq, _⟩ => by cases heq

/-- A function of the name of a metamethod is declared with attributes. -/
def describedFunction : MemberWrite :=
  .declare additionClass.1 (.string additionName.1) (.closure additionFunction.1) (.integer 1) false

/-- The write fails since the function is no member, and it has defined the metamethod. -/
theorem failed_write_defines_metamethod :
    additionHome.Tidy additionTerms (describedFunction.given ++
      [.classObject additionClass.1, .string additionName.1]) ∧
    additionHome.heap.class? additionClass.1 = some (.empty "init") ∧
    (ClassObject.empty "init").meta? .add = none ∧
    ∃ m' d, (∀ call, describedFunction.run call additionHome =
        .error (.script (SlotError.missing "_add").toScriptError) m') ∧
      m'.heap.class? additionClass.1 = some d ∧
      d.meta? .add = some (.closure additionFunction.1) := by
  have hm : additionHome.Tidy additionTerms (describedFunction.given ++
      [.classObject additionClass.1, .string additionName.1]) :=
    (additionHome_tidy.own_plain (v := .integer 1) rfl).perm (.swap _ _ _)
  have hmis : Exec.Misroutes additionHome.heap additionClass.1 additionName.1
      (.closure additionFunction.1) (.integer 1) (.empty "init") .add :=
    ⟨additionHome_class, rfl, rfl, by decide, rfl, by decide⟩
  have hmeta : additionHome.heap.classMeta? additionClass.1 .newMember = none := by
    rw [Heap.classMeta?, additionHome_class]
    rfl
  have hwithin : additionHome.Within additionTerms (.still additionHome .nothing) _ := .of_start hm
  obtain ⟨h', hfails, hclass⟩ := hmis.fails false hmeta hwithin (by simp) (by simp)
  exact ⟨hm, additionHome_class, rfl, _, _, fun call => bind_error _ (hfails call), hclass, rfl⟩

end MemberWrite

end ScriptMachine
