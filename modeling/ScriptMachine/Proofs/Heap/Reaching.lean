import Mathlib.Data.List.Perm.Subperm
import Mathlib.Logic.Relation
import ScriptMachine.Proofs.Heap.Classes
import ScriptMachine.Proofs.Heap.Copying

/-!
# What containers reach

Arrays and dicts hold other arrays and dicts. An operation may let one container come
to hold another; those that store nothing in containers let none. A deep copy is made
of containers that hold no other than new ones.
-/

set_option autoImplicit false

namespace ScriptMachine

/-- The array or dict that a value is. -/
def Value.container? : Value → Option Ref
  | .array r => some r
  | .dict r => some r
  | _ => none

/-- What an array or a dict contains. -/
def Body.contents : Body → List Value
  | .array xs => xs.toList
  | .dict es => es.list.map (·.2)
  | _ => []

theorem Value.ref?_of_container? {v : Value} {r : Ref} (h : v.container? = some r) :
    v.ref? = some r := by
  cases v with
  | array _ | dict _ => exact h
  | _ => cases h

namespace Entry

theorem value_of_mem_insert {key : Text} {v : Value} {es : List Entry} {e : Entry}
    (h : e ∈ insert key v es) : e.2 = v ∨ ∃ f ∈ es, f.2 = e.2 := by
  induction es with
  | nil =>
    rw [insert, List.mem_singleton] at h
    exact .inl (by rw [h])
  | cons a rest ih =>
    obtain ⟨k, w⟩ := a
    simp only [insert] at h
    split at h
    · rcases List.mem_cons.1 h with rfl | h
      · exact .inl rfl
      · exact .inr ⟨e, List.mem_cons_of_mem _ h, rfl⟩
    · split at h
      · rcases List.mem_cons.1 h with rfl | h
        · exact .inl rfl
        · exact .inr ⟨e, h, rfl⟩
      · rcases List.mem_cons.1 h with rfl | h
        · exact .inr ⟨(k, w), List.mem_cons_self, rfl⟩
        · exact (ih h).imp id fun hold =>
            hold.imp fun f hf => ⟨List.mem_cons_of_mem _ hf.1, hf.2⟩

end Entry

namespace Heap

variable {l : Law} {own : Multiset Value} {h h' h'' : Heap} {v : Value} {r x y : Ref}

/-! ## Holding and reaching -/

/-- An array or dict has another among its contents. -/
def Holds (h : Heap) (x y : Ref) : Prop :=
  ∃ b v, h.body? x = some b ∧ v ∈ b.contents ∧ v.container? = some y

/-- A value is an array or dict, or leads to it through arrays and dicts. -/
def Reaches (h : Heap) (v : Value) (y : Ref) : Prop :=
  ∃ x, v.container? = some x ∧ Relation.ReflTransGen h.Holds x y

theorem Reaches.self (hv : v.container? = some x) : h.Reaches v x := ⟨x, hv, .refl⟩

theorem Reaches.held (hv : h.Reaches v x) (hxy : h.Holds x y) : h.Reaches v y :=
  hv.imp fun _ hx => ⟨hx.1, hx.2.tail hxy⟩

namespace Backs

theorem has_contents (hb : h.Backs l own) {b : Body} (hx : h.body? x = some b)
    (hv : v ∈ b.contents) : h.Has v := by
  refine hb.has_of_body hx ?_
  cases b with
  | array xs => exact hv
  | dict es =>
    obtain ⟨e, he, rfl⟩ := List.mem_map.1 hv
    exact List.mem_flatMap.2 ⟨e, he, by simp⟩
  | _ => cases hv

/-- What lives only leads to what lives. -/
theorem reaches_lt (hb : h.Backs l own) (hv : h.Has v) (hr : h.Reaches v y) :
    y.id < h.cells.size := by
  obtain ⟨x, hx, hpath⟩ := hr
  induction hpath with
  | refl =>
    obtain ⟨b, hbody, -⟩ := hv x (Value.ref?_of_container? hx)
    exact body?_lt hbody
  | tail _ hxy _ =>
    obtain ⟨b, w, hbody, hw, hy⟩ := hxy
    obtain ⟨d, hd, -⟩ := hb.has_contents hbody hw _ (Value.ref?_of_container? hy)
    exact body?_lt hd

end Backs

/-! ## What operations let containers hold -/

/-- No closure is made or changed, and what was there before comes to hold no more
than some edges. -/
structure Gains (edge : Ref → Ref → Prop) (h h' : Heap) : Prop where
  size : h.cells.size ≤ h'.cells.size
  closures : ∀ r c, h'.closure? r = some c → h.closure? r = some c
  holds : ∀ x y, x.id < h.cells.size → h'.Holds x y → h.Holds x y ∨ edge x y

/-- Nothing that was there before comes to hold more. -/
abbrev Calm : Heap → Heap → Prop := Gains fun _ _ => False

/-- A value may be stored in a container. -/
abbrev StoresIn (r : Ref) (v : Value) : Heap → Heap → Prop :=
  Gains fun x y => x = r ∧ v.container? = some y

theorem Calm.holds_older (hc : Calm h h') (hx : x.id < h.cells.size) (hxy : h'.Holds x y) :
    h.Holds x y := (hc.holds x y hx hxy).resolve_right id

namespace Gains

variable {edge : Ref → Ref → Prop}

theorem refl (h : Heap) : Gains edge h h := ⟨Nat.le_refl _, fun _ _ hc => hc, fun _ _ _ hxy => .inl hxy⟩

theorem trans (h1 : Gains edge h h') (h2 : Gains edge h' h'') : Gains edge h h'' where
  size := Nat.le_trans h1.size h2.size
  closures := fun r c hc => h1.closures r c (h2.closures r c hc)
  holds := fun x y hx hxy =>
    (h2.holds x y (Nat.lt_of_lt_of_le hx h1.size) hxy).elim (h1.holds x y hx) .inr

/-- What lives on or is new: it suffices to look at the objects. -/
theorem of_bodies (hsize : h.cells.size ≤ h'.cells.size)
    (hb : ∀ s b, h'.body? s = some b → h.body? s = some b ∨
      b.kind ≠ .closure ∧ (s.id < h.cells.size → ∀ v ∈ b.contents, ∀ y, v.container? = some y →
        h.Holds s y ∨ edge s y)) : Gains edge h h' where
  size := hsize
  closures := fun r c hc => by
    rw [closure?_eq_some] at hc ⊢
    exact (hb r _ hc).resolve_right fun hnew => hnew.1 rfl
  holds := fun x y hx hxy => by
    obtain ⟨b, v, hbody, hv, hy⟩ := hxy
    rcases hb x b hbody with hold | ⟨-, hnew⟩
    · exact .inl ⟨b, v, hold, hv, hy⟩
    · exact hnew hx v hv y hy

theorem of_same (hsize : h.cells.size ≤ h'.cells.size)
    (hb : ∀ s b, h'.body? s = some b → h.body? s = some b) : Gains edge h h' :=
  of_bodies hsize fun s b hs => .inl (hb s b hs)

theorem of_trims (ht : Trims h h') : Gains edge h h' :=
  of_same (Nat.le_of_eq ht.size.symm) fun _ _ hb => ht.body? hb

theorem retainRef (h : Heap) (r : Ref) : Gains edge h (h.retainRef r) :=
  of_same (Nat.le_of_eq (size_modifyCell ..).symm) fun s b hb => by rwa [body?_retainRef] at hb

theorem retain (h : Heap) (v : Value) : Gains edge h (h.retain v) := by
  unfold Heap.retain
  split
  · exact retainRef h _
  · exact refl h

theorem retainRefs (h : Heap) (rs : List Ref) : Gains edge h (h.retainRefs rs) := by
  induction rs generalizing h with
  | nil => exact refl h
  | cons r rs ih => exact (retainRef h r).trans (ih _)

theorem releaseRef (h : Heap) (r : Ref) : Gains edge h (h.releaseRef r) :=
  of_trims (trims_releaseRefs h [r])

theorem release (h : Heap) (v : Value) : Gains edge h (h.release v) := by
  unfold Heap.release
  split
  · exact releaseRef h _
  · exact refl h

/-- A new object that is no closure may hold anything. -/
theorem allocateLinked {b : Body} (h : Heap) (hb : b.kind ≠ .closure) :
    Gains edge h (h.allocateLinked b).2 := by
  refine of_bodies ((grows_allocateLinked h b).size ▸ Nat.le_succ _) fun s d hd => ?_
  rw [body?_allocateLinked] at hd
  split at hd
  · rename_i hs
    cases hd
    refine .inr ⟨hb, fun hlt => absurd hlt ?_⟩
    rw [hs]
    exact Nat.lt_irrefl _
  · exact .inl hd

theorem modifyBody {f : Body → Body} (h : Heap) (r : Ref)
    (hf : ∀ b, h.body? r = some b → f b = b ∨ (f b).kind ≠ .closure ∧
      ∀ v ∈ (f b).contents, v ∈ b.contents ∨ ∀ y, v.container? = some y → edge r y) :
    Gains edge h (h.modifyBody r f) := by
  refine of_bodies (Nat.le_of_eq (size_modifyCell ..).symm) fun s d hd => ?_
  cases hr : h.body? r with
  | none =>
    rw [modifyBody_same fun b hb => absurd (hr.symm.trans hb) (Option.some_ne_none b).symm] at hd
    exact .inl hd
  | some b =>
    rw [modifyBody_eq hr, body?_setBody hr] at hd
    split at hd
    · rename_i hs
      subst hs
      cases hd
      rcases hf b hr with heq | ⟨hkind, hcontents⟩
      · exact .inl (by rw [hr, heq])
      · refine .inr ⟨hkind, fun _ v hv y hy => ?_⟩
        exact (hcontents v hv).imp (fun hold => ⟨b, v, hr, hold, hy⟩) fun hedge => hedge y hy
    · exact .inl hd

theorem modifyClass (h : Heap) (r : Ref) (f : ClassObject → ClassObject) :
    Gains edge h (h.modifyClass r f) := by
  refine modifyBody h r fun b _ => ?_
  cases b with
  | classObject c => exact .inr ⟨Kind.noConfusion, fun v hv => by cases hv⟩
  | content | weak | array | dict | closure | native | instanceObject | outer => exact .inl rfl

/-! ### Storing in arrays and dicts -/

theorem pushItem (h : Heap) (r : Ref) (v : Value) : StoresIn r v h (h.pushItem r v) := by
  unfold Heap.pushItem modifyItems
  refine modifyBody h r fun b _ => ?_
  cases b with
  | array xs =>
    refine .inr ⟨Kind.noConfusion, fun w hw => ?_⟩
    rw [Body.contents, Array.toList_push, List.mem_append, List.mem_singleton] at hw
    rcases hw with hold | rfl
    · exact .inl hold
    · exact .inr fun y hy => ⟨rfl, hy⟩
  | content | weak | dict | closure | native | classObject | instanceObject | outer => exact .inl rfl

theorem setItem (h : Heap) (r : Ref) (index : Int64) (v : Value) :
    StoresIn r v h (h.setItem r index v).2 := by
  unfold Heap.setItem
  split
  · refine Gains.trans ?_ (release _ _)
    refine modifyBody h r fun b _ => ?_
    cases b with
    | array xs =>
      refine .inr ⟨Kind.noConfusion, fun w hw => ?_⟩
      rw [Body.contents, Array.toList_setIfInBounds] at hw
      rcases List.mem_or_eq_of_mem_set hw with hold | rfl
      · exact .inl hold
      · exact .inr fun y hy => ⟨rfl, hy⟩
    | content | weak | dict | closure | native | classObject | instanceObject | outer => exact .inl rfl
  · exact release h v

theorem setDict {es es' : Entries} (hr : h.body? r = some (.dict es))
    (hes : ∀ e ∈ es'.list, e.2 = v ∨ ∃ f ∈ es.list, f.2 = e.2) :
    StoresIn r v h (h.setBody r (.dict es')) := by
  rw [← modifyBody_eq (f := fun _ => .dict es') hr]
  refine modifyBody h r fun b hb => ?_
  rw [hr] at hb
  cases hb
  refine .inr ⟨Kind.noConfusion, fun w hw => ?_⟩
  obtain ⟨e, he, rfl⟩ := List.mem_map.1 hw
  rcases hes e he with rfl | ⟨f, hf, heq⟩
  · exact .inr fun y hy => ⟨rfl, hy⟩
  · exact .inl (List.mem_map.2 ⟨f, hf, heq⟩)

theorem dictInsert (h : Heap) (r : Ref) (key : Text) (v : Value) (hr : h.Has (.dict r)) :
    StoresIn r v h (h.dictInsert r key v) := by
  obtain ⟨es, hes⟩ := hr.dict
  have hset : StoresIn r v h (h.setBody r (.dict (es.insert key v))) :=
    setDict hes fun e he => Entry.value_of_mem_insert he
  simp only [Heap.dictInsert, Backs.entries_eq hes]
  split
  · exact hset.trans ((releaseRef _ _).trans (release _ _))
  · exact hset

theorem dictSet (h : Heap) (r : Ref) (key : String) (v : Value) :
    StoresIn r v h (h.dictSet r key v).2 := by
  unfold Heap.dictSet
  dsimp only
  split
  · rename_i old k hold hk
    refine Gains.trans ?_ (release _ _)
    have hr : h.body? r = some (.dict (h.entries r)) := by
      unfold Heap.entries at hold ⊢
      split at hold
      · rename_i heq
        rw [heq]
      · cases hold
    exact setDict hr fun e he => Entry.value_of_mem_insert he
  · exact release h v

end Gains

/-! ## Deep copies -/

/-- Objects were only added, and arrays and dicts among them hold no older ones. -/
structure Adds (h₀ h : Heap) : Prop where
  size : h₀.cells.size ≤ h.cells.size
  bodies : ∀ s b, h.body? s = some b → h₀.body? s = some b ∨
    h₀.cells.size ≤ s.id ∧ b.kind ≠ .closure ∧
      ∀ v ∈ b.contents, ∀ y, v.container? = some y → h₀.cells.size ≤ y.id

/-- Each copied object is an old one with one copy, which is new. -/
structure Known (h₀ : Heap) (copies : Copies) : Prop where
  once : (copies.map (·.1)).Nodup
  bounds : ∀ e ∈ copies, e.1.id < h₀.cells.size ∧ h₀.cells.size ≤ e.2.id

/-- What a copy of a value comes with: the heap and the copies are as they should be,
and the copy is new if it is an array or a dict. -/
structure Separated (h₀ : Heap) (copies : Copies) (made : Value × Copies × Heap) : Prop where
  adds : Adds h₀ made.2.2
  known : Known h₀ made.2.1
  grows : copies.length ≤ made.2.1.length
  new : ∀ y, made.1.container? = some y → h₀.cells.size ≤ y.id

/-- A copier that copies everything it is given, as long as there are more steps than
objects still to enter. -/
def Copier.Separates (h₀ : Heap) (steps : Nat) (copy : Copier) : Prop :=
  ∀ v copies h, Adds h₀ h → Known h₀ copies →
    (∀ y, v.container? = some y → y.id < h₀.cells.size) → h₀.cells.size < steps + copies.length →
    Separated h₀ copies (copy v copies h)

variable {h₀ : Heap}

theorem Known.length_le {copies : Copies} (hk : Known h₀ copies) :
    copies.length ≤ h₀.cells.size := by
  have hids : ((copies.map (·.1)).map Ref.id).Nodup := by
    refine hk.once.map_on fun a _ b _ hab => ?_
    cases a
    cases b
    exact congrArg Ref.mk hab
  have hsub : ((copies.map (·.1)).map Ref.id) ⊆ List.range h₀.cells.size := by
    intro i hi
    obtain ⟨r, hr, rfl⟩ := List.mem_map.1 hi
    obtain ⟨e, he, rfl⟩ := List.mem_map.1 hr
    exact List.mem_range.2 (hk.bounds e he).1
  simpa using (List.subperm_of_subset hids hsub).length_le

theorem Known.cons {copies : Copies} {r c : Ref} (hk : Known h₀ copies)
    (hlookup : copies.lookup r = none) (hr : r.id < h₀.cells.size) (hc : h₀.cells.size ≤ c.id) :
    Known h₀ ((r, c) :: copies) where
  once := by
    refine List.nodup_cons.2 ⟨fun hmem => ?_, hk.once⟩
    obtain ⟨e, he, heq⟩ := List.mem_map.1 hmem
    have hne := List.lookup_eq_none_iff.1 hlookup e he
    simp [heq] at hne
  bounds := fun e he => by
    rcases List.mem_cons.1 he with rfl | he
    · exact ⟨hr, hc⟩
    · exact hk.bounds e he

namespace Adds

theorem refl (h : Heap) : Adds h h := ⟨Nat.le_refl _, fun _ _ hb => .inl hb⟩

theorem trans (h1 : Adds h₀ h) (h2 : Adds h h') : Adds h₀ h' where
  size := Nat.le_trans h1.size h2.size
  bodies := fun s b hb => by
    rcases h2.bodies s b hb with hold | ⟨hs, hkind, hnew⟩
    · exact h1.bodies s b hold
    · exact .inr ⟨Nat.le_trans h1.size hs, hkind,
        fun v hv y hy => Nat.le_trans h1.size (hnew v hv y hy)⟩

theorem calm (ha : Adds h₀ h) : Calm h₀ h where
  size := ha.size
  closures := fun r c hc => by
    rw [closure?_eq_some] at hc ⊢
    exact (ha.bodies r _ hc).resolve_right fun hnew => hnew.2.1 rfl
  holds := fun x y hx hxy => by
    obtain ⟨b, v, hbody, hv, hy⟩ := hxy
    rcases ha.bodies x b hbody with hold | ⟨hnew, -⟩
    · exact .inl ⟨b, v, hold, hv, hy⟩
    · exact absurd hx (Nat.not_lt.2 hnew)

/-- What is new leads to what is new. -/
theorem holds_new (ha : Adds h₀ h) (hx : h₀.cells.size ≤ x.id) (hxy : h.Holds x y) :
    h₀.cells.size ≤ y.id := by
  obtain ⟨b, v, hbody, hv, hy⟩ := hxy
  rcases ha.bodies x b hbody with hold | ⟨-, -, hnew⟩
  · exact absurd (body?_lt hold) (Nat.not_lt.2 hx)
  · exact hnew v hv y hy

theorem reaches_new (ha : Adds h₀ h) (hv : ∀ y, v.container? = some y → h₀.cells.size ≤ y.id)
    (hr : h.Reaches v y) : h₀.cells.size ≤ y.id := by
  obtain ⟨x, hx, hpath⟩ := hr
  induction hpath with
  | refl => exact hv x hx
  | tail _ hxy ih => exact ha.holds_new ih hxy

theorem of_same (ha : Adds h₀ h) (hsize : h.cells.size ≤ h'.cells.size)
    (hb : ∀ s b, h'.body? s = some b → h.body? s = some b) : Adds h₀ h' :=
  ⟨Nat.le_trans ha.size hsize, fun s b hs => ha.bodies s b (hb s b hs)⟩

theorem of_trims (ha : Adds h₀ h) (ht : Trims h h') : Adds h₀ h' :=
  ha.of_same (Nat.le_of_eq ht.size.symm) fun _ _ hb => ht.body? hb

theorem retainRef (ha : Adds h₀ h) (r : Ref) : Adds h₀ (h.retainRef r) :=
  ha.of_same (Nat.le_of_eq (size_modifyCell ..).symm) fun s b hb => by rwa [body?_retainRef] at hb

theorem retain (ha : Adds h₀ h) (v : Value) : Adds h₀ (h.retain v) := by
  unfold Heap.retain
  split
  · exact ha.retainRef _
  · exact ha

theorem release (ha : Adds h₀ h) (v : Value) : Adds h₀ (h.release v) := by
  unfold Heap.release
  split
  · exact ha.of_trims (trims_releaseRefs h _)
  · exact ha

theorem allocateLinked {b : Body} (ha : Adds h₀ h) (hkind : b.kind ≠ .closure)
    (hb : b.contents = []) : Adds h₀ (h.allocateLinked b).2 where
  size := Nat.le_trans ha.size ((grows_allocateLinked h b).size ▸ Nat.le_succ _)
  bodies := fun s d hd => by
    rw [body?_allocateLinked] at hd
    split at hd
    · rename_i hs
      cases hd
      refine .inr ⟨?_, hkind, fun v hv => ?_⟩
      · rw [hs]
        exact ha.size
      · rw [hb] at hv
        cases hv
    · exact ha.bodies s d hd

theorem modifyBody {f : Body → Body} (ha : Adds h₀ h) (hr : h₀.cells.size ≤ r.id)
    (hf : ∀ b, h.body? r = some b → f b = b ∨ (f b).kind ≠ .closure ∧
      ∀ v ∈ (f b).contents, v ∈ b.contents ∨ ∀ y, v.container? = some y → h₀.cells.size ≤ y.id) :
    Adds h₀ (h.modifyBody r f) where
  size := Nat.le_trans ha.size (Nat.le_of_eq (size_modifyCell ..).symm)
  bodies := fun s d hd => by
    cases hbody : h.body? r with
    | none =>
      rw [modifyBody_same fun b hb => absurd (hbody.symm.trans hb) (Option.some_ne_none b).symm] at hd
      exact ha.bodies s d hd
    | some b =>
      rw [modifyBody_eq hbody, body?_setBody hbody] at hd
      split at hd
      · rename_i hs
        subst hs
        cases hd
        rcases hf b hbody with heq | ⟨hkind, hcontents⟩
        · exact ha.bodies s _ (by rw [hbody, heq])
        · refine .inr ⟨hr, hkind, fun v hv y hy => (hcontents v hv).elim (fun hold => ?_) (· y hy)⟩
          exact ha.holds_new hr ⟨b, v, hbody, hold, hy⟩
      · exact ha.bodies s d hd

theorem pushItem (ha : Adds h₀ h) (hr : h₀.cells.size ≤ r.id)
    (hv : ∀ y, v.container? = some y → h₀.cells.size ≤ y.id) : Adds h₀ (h.pushItem r v) := by
  unfold Heap.pushItem modifyItems
  refine ha.modifyBody hr fun b _ => ?_
  cases b with
  | array xs =>
    refine .inr ⟨Kind.noConfusion, fun w hw => ?_⟩
    rw [Body.contents, Array.toList_push, List.mem_append, List.mem_singleton] at hw
    rcases hw with hold | rfl
    · exact .inl hold
    · exact .inr hv
  | content | weak | dict | closure | native | classObject | instanceObject | outer => exact .inl rfl

theorem dictInsert (ha : Adds h₀ h) (hr : h₀.cells.size ≤ r.id) (key : Text)
    (hv : ∀ y, v.container? = some y → h₀.cells.size ≤ y.id) : Adds h₀ (h.dictInsert r key v) := by
  have hset : Adds h₀ (h.setBody r (.dict ((h.entries r).insert key v))) := by
    refine ha.modifyBody (f := fun _ => .dict ((h.entries r).insert key v)) hr fun b hb => ?_
    refine .inr ⟨Kind.noConfusion, fun w hw => ?_⟩
    obtain ⟨e, he, rfl⟩ := List.mem_map.1 hw
    rcases Entry.value_of_mem_insert he with heq | ⟨f, hf, heq⟩
    · exact .inr (heq ▸ hv)
    · left
      unfold Heap.entries at hf
      rw [hb] at hf
      cases b with
      | dict es => exact List.mem_map.2 ⟨f, hf, heq⟩
      | content | weak | array | closure | native | classObject | instanceObject | outer => cases hf
  simp only [Heap.dictInsert]
  split
  · exact (hset.of_trims (trims_releaseRefs _ _)).release _
  · exact hset

end Adds

section

variable {copy : Copier} {steps : Nat} {copies : Copies} {into : Ref}

/-- What is neither array nor dict stands for itself. -/
theorem Separated.shared (ha : Adds h₀ h) (hk : Known h₀ copies) (hv : v.container? = none) :
    Separated h₀ copies (v, copies, h.retain v) :=
  ⟨ha.retain v, hk, Nat.le_refl _, fun y hy => absurd (hv.symm.trans hy) (by simp)⟩

/-- An array or dict that has a copy is not copied again. -/
theorem Separated.met {r c : Ref} (ha : Adds h₀ h) (hk : Known h₀ copies)
    (hlookup : copies.lookup r = some c) (hv : v.container? = some c) :
    Separated h₀ copies (v, copies, h.retainRef c) := by
  refine ⟨ha.retainRef c, hk, Nat.le_refl _, fun y hy => ?_⟩
  cases hv.symm.trans hy
  exact (hk.bounds _ (mem_of_lookup hlookup)).2

theorem copyItems_separates (hcopy : copy.Separates h₀ steps) (hinto : h₀.cells.size ≤ into.id)
    (vs : List Value) (ha : Adds h₀ h) (hk : Known h₀ copies)
    (hvs : ∀ v ∈ vs, ∀ y, v.container? = some y → y.id < h₀.cells.size)
    (hsteps : h₀.cells.size < steps + copies.length) :
    Adds h₀ (copyItems copy into vs copies h).2 ∧ Known h₀ (copyItems copy into vs copies h).1 ∧
      copies.length ≤ (copyItems copy into vs copies h).1.length := by
  induction vs generalizing copies h with
  | nil => exact ⟨ha, hk, Nat.le_refl _⟩
  | cons v vs ih =>
    have hv := hcopy v copies h ha hk (hvs v List.mem_cons_self) hsteps
    have hgrows := hv.grows
    obtain ⟨ha', hk', hlen⟩ := ih (hv.adds.pushItem hinto hv.new) hv.known
      (fun w hw => hvs w (List.mem_cons_of_mem _ hw)) (by omega)
    exact ⟨ha', hk', Nat.le_trans hgrows hlen⟩

theorem copyEntries_separates (hcopy : copy.Separates h₀ steps) (hinto : h₀.cells.size ≤ into.id)
    (es : List Entry) (ha : Adds h₀ h) (hk : Known h₀ copies)
    (hes : ∀ e ∈ es, ∀ y, e.2.container? = some y → y.id < h₀.cells.size)
    (hsteps : h₀.cells.size < steps + copies.length) :
    Adds h₀ (copyEntries copy into es copies h).2 ∧ Known h₀ (copyEntries copy into es copies h).1 ∧
      copies.length ≤ (copyEntries copy into es copies h).1.length := by
  induction es generalizing copies h with
  | nil => exact ⟨ha, hk, Nat.le_refl _⟩
  | cons e es ih =>
    have hv := hcopy e.2 copies h ha hk (hes e List.mem_cons_self) hsteps
    have hgrows := hv.grows
    obtain ⟨ha', hk', hlen⟩ := ih ((hv.adds.retainRef e.1.ref).dictInsert hinto e.1 hv.new) hv.known
      (fun w hw => hes w (List.mem_cons_of_mem _ hw)) (by omega)
    exact ⟨ha', hk', Nat.le_trans hgrows hlen⟩

end

/-- Each step down enters an object that was not entered before, so the steps last as
long as there are more of them than objects. -/
theorem copyWithin_separates (hbounds : ∀ x y, h₀.Holds x y → y.id < h₀.cells.size) (steps : Nat) :
    Copier.Separates h₀ steps (copyWithin steps) := by
  induction steps with
  | zero =>
    intro v copies h _ hk _ hsteps
    have := hk.length_le
    omega
  | succ steps ih =>
    intro v copies h ha hk hv hsteps
    -- an old array or dict still has its old contents
    have hcontents : ∀ r b, v.container? = some r → h.body? r = some b →
        ∀ w ∈ b.contents, ∀ y, w.container? = some y → y.id < h₀.cells.size := by
      intro r b hr hb w hw y hy
      rcases ha.bodies r b hb with hold | ⟨hnew, -⟩
      · exact hbounds r y ⟨b, w, hold, hw, hy⟩
      · exact absurd (hv r hr) (Nat.not_lt.2 hnew)
    cases v with
    | array r =>
      simp only [copyWithin]
      cases hlookup : copies.lookup r with
      | some c => exact .met ha hk hlookup rfl
      | none =>
        have hitems : ∀ w ∈ (h.items r).toList, ∀ y, w.container? = some y →
            y.id < h₀.cells.size := by
          intro w hw
          unfold Heap.items at hw
          split at hw
          · exact hcontents r (.array _) rfl ‹_› w hw
          · cases hw
        have hnew : h₀.cells.size ≤ (h.allocateLinked (.array #[])).1.id := ha.size
        obtain ⟨ha', hk', hlen⟩ := copyItems_separates ih hnew (h.items r).toList
          (ha.allocateLinked (b := .array #[]) Kind.noConfusion rfl)
          (hk.cons hlookup (hv r rfl) hnew) hitems (by simp only [List.length_cons]; omega)
        exact ⟨ha', hk', Nat.le_trans (Nat.le_succ _) hlen, fun y hy => by cases hy; exact ha.size⟩
    | dict r =>
      simp only [copyWithin]
      cases hlookup : copies.lookup r with
      | some c => exact .met ha hk hlookup rfl
      | none =>
        have hentries : ∀ e ∈ (h.entries r).list, ∀ y, e.2.container? = some y →
            y.id < h₀.cells.size := by
          intro e he
          unfold Heap.entries at he
          split at he
          · exact hcontents r _ rfl ‹_› e.2 (List.mem_map.2 ⟨e, he, rfl⟩)
          · cases he
        have hnew : h₀.cells.size ≤ (h.allocateLinked (.dict .empty)).1.id := ha.size
        obtain ⟨ha', hk', hlen⟩ := copyEntries_separates ih hnew (h.entries r).list
          (ha.allocateLinked (b := .dict .empty) Kind.noConfusion rfl)
          (hk.cons hlookup (hv r rfl) hnew) hentries (by simp only [List.length_cons]; omega)
        exact ⟨ha', hk', Nat.le_trans (Nat.le_succ _) hlen, fun y hy => by cases hy; exact ha.size⟩
    | _ =>
      simp only [copyWithin]
      exact .shared ha hk rfl

namespace Backs

/-- The arrays and dicts of a deep copy are new, and they hold only new ones. -/
theorem adds_deepCopy (hb : h.Backs l own) (hv : h.Has v) :
    Adds h (h.deepCopy v).2 ∧
      ∀ y, (h.deepCopy v).1.container? = some y → h.cells.size ≤ y.id := by
  have hbounds : ∀ x y, h.Holds x y → y.id < h.cells.size := by
    rintro x y ⟨b, w, hbody, hw, hy⟩
    exact hb.reaches_lt (hb.has_contents hbody hw) (.self hy)
  have hnone : Known h [] := ⟨List.nodup_nil, fun e he => by cases he⟩
  have hcopy := copyWithin_separates hbounds (h.cells.size + 1) v [] h (.refl h) hnone
    (fun y hy => hb.reaches_lt hv (.self hy)) (by simp)
  exact ⟨hcopy.adds, hcopy.new⟩

theorem adds_deepCopyAll {vs : List Value} (hb : h.Backs l own) (hv : ∀ v ∈ vs, h.Has v) :
    Adds h (h.deepCopyAll vs).2 ∧
      ∀ w ∈ (h.deepCopyAll vs).1, ∀ y, w.container? = some y → h.cells.size ≤ y.id := by
  induction vs generalizing h own with
  | nil => exact ⟨.refl h, fun w hw => by cases hw⟩
  | cons v vs ih =>
    obtain ⟨hm, hs⟩ := hb.deepCopy (hv v List.mem_cons_self)
    obtain ⟨ha, hnew⟩ := hb.adds_deepCopy (hv v List.mem_cons_self)
    obtain ⟨ha', hnew'⟩ := ih hm.backs fun w hw => hs.has (hv w (List.mem_cons_of_mem _ hw))
    refine ⟨ha.trans ha', fun w hw y hy => ?_⟩
    rcases List.mem_cons.1 hw with rfl | hw
    · exact hnew y hy
    · exact Nat.le_trans ha.size (hnew' w hw y hy)

end Backs

end Heap

end ScriptMachine
