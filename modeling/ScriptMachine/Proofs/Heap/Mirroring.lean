import ScriptMachine.Proofs.Heap.Shedding

/-!
# Heaps that differ in what is gone

Two heaps mirror each other when they gave out the same identities and what lives in both
has the same contents. Letting go and collecting keep it so on either side. An operation
on both keeps it so, with the same answer, as long as what it names lives in both.
-/

set_option autoImplicit false

namespace ScriptMachine.Heap

variable {α : Type} {P : NativeObject → Prop} {l : Law} {h h' k k' : Heap}

/-- The object is no weak reference, and a native only one of a sort. -/
def Steadfast (P : NativeObject → Prop) : Body → Prop
  | .native n => P n
  | .weak _ => False
  | _ => True

/-- What lives in both heaps is the same. The first holds no weak references, and natives
of one sort only. -/
structure Mirrors (P : NativeObject → Prop) (h h' : Heap) : Prop where
  size : h'.cells.size = h.cells.size
  same : ∀ r b b', h.body? r = some b → h'.body? r = some b' → b' = b
  bodies : ∀ r b, h.body? r = some b → Steadfast P b

/-- The operation gives the same on both heaps, which mirror each other afterwards. -/
def Mirrored (P : NativeObject → Prop) (f : Heap → α × Heap) (h h' : Heap) : Prop :=
  (f h').1 = (f h).1 ∧ Mirrors P (f h).2 (f h').2

/-- The value names nothing, or an object that lives in both heaps. -/
def Shared (h h' : Heap) (v : Value) : Prop := h.Has v ∧ h'.Has v

theorem shared_plain {v : Value} (hv : v.ref? = none) : Shared h h' v :=
  ⟨has_of_none hv, has_of_none hv⟩

namespace Mirrors

theorem trims (hm : Mirrors P h h') (ht : Trims h k) (ht' : Trims h' k') : Mirrors P k k' where
  size := by rw [ht.size, ht'.size, hm.size]
  same := fun r b b' hb hb' => hm.same r b b' (ht.body? hb) (ht'.body? hb')
  bodies := fun r b hb => hm.bodies r b (ht.body? hb)

theorem retain (hm : Mirrors P h h') (v : Value) : Mirrors P (h.retain v) (h'.retain v) :=
  hm.trims (trims_retain h v) (trims_retain h' v)

theorem retainRef (hm : Mirrors P h h') (r : Ref) : Mirrors P (h.retainRef r) (h'.retainRef r) :=
  hm.retain (.array r)

theorem retainAll (hm : Mirrors P h h') (vs : List Value) :
    Mirrors P (h.retainAll vs) (h'.retainAll vs) :=
  hm.trims (trims_retainAll h vs) (trims_retainAll h' vs)

theorem release (hm : Mirrors P h h') (v w : Value) : Mirrors P (h.release v) (h'.release w) :=
  hm.trims (trims_release h v) (trims_release h' w)

theorem releaseRef (hm : Mirrors P h h') (r s : Ref) :
    Mirrors P (h.releaseRef r) (h'.releaseRef s) := hm.release (.array r) (.array s)

theorem releaseAll (hm : Mirrors P h h') (vs ws : List Value) :
    Mirrors P (h.releaseAll vs) (h'.releaseAll ws) :=
  hm.trims (trims_releaseAll h vs) (trims_releaseAll h' ws)

end Mirrors

/-! ## Making -/

theorem body?_allocate (h : Heap) (b : Body) (s : Ref) :
    (h.allocate b).2.body? s = if s = ⟨h.cells.size⟩ then some b else h.body? s := by
  simp only [body?, cell?_allocate]
  split <;> rfl

namespace Mirrors

/-- The same new object in both heaps. -/
theorem enter (hm : Mirrors P h h') {b : Body} (hb : Steadfast P b)
    (hsize : k'.cells.size = k.cells.size)
    (hk : ∀ s, k.body? s = if s = ⟨h.cells.size⟩ then some b else h.body? s)
    (hk' : ∀ s, k'.body? s = if s = ⟨h'.cells.size⟩ then some b else h'.body? s) :
    Mirrors P k k' := by
  refine ⟨hsize, fun r c c' hc hc' => ?_, fun r c hc => ?_⟩
  · rw [hk] at hc
    rw [hk', hm.size] at hc'
    split at hc
    · rename_i heq
      rw [if_pos heq] at hc'
      exact (Option.some.inj hc').symm.trans (Option.some.inj hc)
    · rename_i hne
      rw [if_neg hne] at hc'
      exact hm.same r c c' hc hc'
  · rw [hk] at hc
    split at hc
    · exact Option.some.inj hc ▸ hb
    · exact hm.bodies r c hc

theorem allocate (hm : Mirrors P h h') {b : Body} (hb : Steadfast P b) :
    Mirrored P (fun h => h.allocate b) h h' := by
  refine ⟨by simp only [allocate_fst, hm.size], ?_⟩
  refine hm.enter hb ?_ (body?_allocate h b) (body?_allocate h' b)
  rw [size_allocate, size_allocate, hm.size]

theorem allocateLinked (hm : Mirrors P h h') {b : Body} (hb : Steadfast P b) :
    Mirrored P (fun h => h.allocateLinked b) h h' := by
  have hfst : ∀ h : Heap, (h.allocateLinked b).1 = ⟨h.cells.size⟩ := fun _ => rfl
  refine ⟨by simp only [hfst, hm.size], ?_⟩
  refine hm.enter hb ?_ (body?_allocateLinked h b) (body?_allocateLinked h' b)
  rw [(grows_allocateLinked h b).size, (grows_allocateLinked h' b).size, hm.size]

theorem allocateText (hm : Mirrors P h h') (chars : String) :
    Mirrored P (fun h => h.allocateText chars) h h' := by
  obtain ⟨hr, hm'⟩ := hm.allocate (b := .content) trivial
  exact ⟨congrArg (Text.mk · chars) hr, hm'⟩

theorem newString (hm : Mirrors P h h') (chars : String) :
    Mirrored P (fun h => h.newString chars) h h' := by
  obtain ⟨ht, hm'⟩ := hm.allocateText chars
  exact ⟨congrArg Value.string ht, hm'⟩

theorem newArray (hm : Mirrors P h h') (items : Array Value) :
    Mirrored P (fun h => h.newArray items) h h' := by
  obtain ⟨hr, hm'⟩ := hm.allocateLinked (b := .array items) trivial
  exact ⟨congrArg Value.array hr, hm'⟩

theorem newDict (hm : Mirrors P h h') : Mirrored P Heap.newDict h h' :=
  hm.allocateLinked (b := .dict .empty) trivial

theorem newOuter (hm : Mirrors P h h') (s : OuterState) :
    Mirrored P (fun h => h.newOuter s) h h' :=
  hm.allocateLinked (b := .outer s) trivial

theorem newClosure (hm : Mirrors P h h') (p : Prototype) (outers : List Ref)
    (defaults : List Value) : Mirrored P (fun h => h.newClosure p outers defaults) h h' :=
  hm.allocateLinked (b := .closure ⟨p, outers, defaults, none⟩) trivial

theorem newNative (hm : Mirrors P h h') {f : NativeFunction}
    (hf : ∀ name docs : Text, P
      { name, docs, behaviour := f.behaviour, params := f.params, mask := f.mask,
        defaults := f.defaults }) : Mirrored P (fun h => h.newNative f) h h' := by
  obtain ⟨hname, hm1⟩ := hm.allocateText f.name
  obtain ⟨hdocs, hm2⟩ := hm1.allocateText f.docs
  have hm3 := hm2.retainAll (f.defaults.map (·.2))
  simp only at hname hdocs
  show Mirrored P (fun h => h.newNative f) h h'
  simp only [Mirrored, Heap.newNative, hname, hdocs]
  exact hm3.allocateLinked (hf _ _)

end Mirrors

/-! ## Writing -/

theorem body?_modifyBody (h : Heap) (r : Ref) (f : Body → Body) (s : Ref) :
    (h.modifyBody r f).body? s = if s = r then (h.body? r).map f else h.body? s := by
  simp only [modifyBody, body?, cell?_modifyCell]
  split
  · rw [Option.map_map, Option.map_map]
    rfl
  · rfl

namespace Mirrors

/-- An object changes in both heaps, as far as it lives, by the same rule. -/
theorem modifyBody (hm : Mirrors P h h') (r : Ref) {f : Body → Body}
    (hf : ∀ b, Steadfast P b → Steadfast P (f b)) :
    Mirrors P (h.modifyBody r f) (h'.modifyBody r f) := by
  refine ⟨?_, fun s b b' hb hb' => ?_, fun s b hb => ?_⟩
  · simp only [Heap.modifyBody, size_modifyCell, hm.size]
  · rw [body?_modifyBody] at hb hb'
    split at hb
    · rename_i heq
      rw [if_pos heq] at hb'
      obtain ⟨c, hc, rfl⟩ := Option.map_eq_some_iff.1 hb
      obtain ⟨c', hc', rfl⟩ := Option.map_eq_some_iff.1 hb'
      rw [hm.same r c c' hc hc']
    · rename_i hne
      rw [if_neg hne] at hb'
      exact hm.same s b b' hb hb'
  · rw [body?_modifyBody] at hb
    split at hb
    · obtain ⟨c, hc, rfl⟩ := Option.map_eq_some_iff.1 hb
      exact hf c (hm.bodies r c hc)
    · exact hm.bodies s b hb

theorem setBody (hm : Mirrors P h h') (r : Ref) {b : Body} (hb : Steadfast P b) :
    Mirrors P (h.setBody r b) (h'.setBody r b) :=
  hm.modifyBody (f := fun _ => b) r fun _ _ => hb

theorem modifyItems (hm : Mirrors P h h') (r : Ref) (f : Array Value → Array Value) :
    Mirrors P (h.modifyItems r f) (h'.modifyItems r f) :=
  hm.modifyBody r fun b hb => by cases b <;> exact hb

theorem modifyClass (hm : Mirrors P h h') (r : Ref) (f : ClassObject → ClassObject) :
    Mirrors P (h.modifyClass r f) (h'.modifyClass r f) :=
  hm.modifyBody r fun b hb => by cases b <;> exact hb

theorem pushItem (hm : Mirrors P h h') (r : Ref) (v : Value) :
    Mirrors P (h.pushItem r v) (h'.pushItem r v) := hm.modifyItems r _

theorem closeOuter (hm : Mirrors P h h') (r : Ref) (v : Value) :
    Mirrors P (h.closeOuter r v) (h'.closeOuter r v) :=
  (hm.setBody r (by trivial)).release _ _

theorem replaceEntry (hm : Mirrors P h h') (r : Ref) (c : ClassObject) (m : Member) (v : Value) :
    Mirrors P (h.replaceEntry r c m v) (h'.replaceEntry r c m v) :=
  (hm.modifyClass r _).release _ _

end Mirrors

/-! ## Reading -/

/-- Two heaps that mirror each other and keep their accounts. -/
structure Abreast (P : NativeObject → Prop) (l : Law) (h h' : Heap) : Prop
    extends Mirrors P h h' where
  left : ∃ own, h.Backs l own
  right : ∃ own, h'.Backs l own

namespace Abreast

theorem body?_eq (ha : Abreast P l h h') {v : Value} {r : Ref} (hv : Shared h h' v)
    (hr : v.ref? = some r) : h'.body? r = h.body? r := by
  obtain ⟨b, hb, -⟩ := hv.1 r hr
  obtain ⟨b', hb', -⟩ := hv.2 r hr
  rw [hb, hb', ha.same r b b' hb hb']

/-- What an object that lives in both keeps alive lives in both. -/
theorem within (ha : Abreast P l h h') {v w : Value} {r : Ref} {b : Body} (hv : Shared h h' v)
    (hr : v.ref? = some r) (hb : h.body? r = some b) (hw : w ∈ b.values) : Shared h h' w := by
  obtain ⟨own, hl⟩ := ha.left
  obtain ⟨own', hl'⟩ := ha.right
  exact ⟨hl.has_of_body hb hw, hl'.has_of_body (by rwa [ha.body?_eq hv hr]) hw⟩

section

variable {r : Ref}

theorem items_eq (ha : Abreast P l h h') (hv : Shared h h' (.array r)) :
    h'.items r = h.items r := by
  rw [items, items, ha.body?_eq hv rfl]

theorem itemAt_eq (ha : Abreast P l h h') (hv : Shared h h' (.array r)) (i : Int64) :
    h'.itemAt r i = h.itemAt r i := by
  rw [itemAt, itemAt, ha.items_eq hv]

theorem entries_eq (ha : Abreast P l h h') (hv : Shared h h' (.dict r)) :
    h'.entries r = h.entries r := by
  rw [entries, entries, ha.body?_eq hv rfl]

theorem dictGet?_eq (ha : Abreast P l h h') (hv : Shared h h' (.dict r)) (key : String) :
    h'.dictGet? r key = h.dictGet? r key := by
  rw [dictGet?, dictGet?, ha.entries_eq hv]

theorem closure?_eq (ha : Abreast P l h h') (hv : Shared h h' (.closure r)) :
    h'.closure? r = h.closure? r := by
  rw [closure?, closure?, ha.body?_eq hv rfl]

theorem native?_eq (ha : Abreast P l h h') (hv : Shared h h' (.native r)) :
    h'.native? r = h.native? r := by
  rw [native?, native?, ha.body?_eq hv rfl]

theorem class?_eq (ha : Abreast P l h h') (hv : Shared h h' (.classObject r)) :
    h'.class? r = h.class? r := by
  rw [class?, class?, ha.body?_eq hv rfl]

theorem instance?_eq (ha : Abreast P l h h') (hv : Shared h h' (.instanceObject r)) :
    h'.instance? r = h.instance? r := by
  rw [instance?, instance?, ha.body?_eq hv rfl]

theorem outerState?_eq (ha : Abreast P l h h') (hv : Shared h h' (.outer r)) :
    h'.outerState? r = h.outerState? r := by
  rw [outerState?, outerState?, ha.body?_eq hv rfl]

theorem stackIndex?_eq (ha : Abreast P l h h') (hv : Shared h h' (.outer r)) :
    h'.stackIndex? r = h.stackIndex? r := by
  rw [stackIndex?, stackIndex?, ha.outerState?_eq hv]

/-! ### Classes and instances -/

theorem base_shared (ha : Abreast P l h h') (hv : Shared h h' (.classObject r)) {c : ClassObject}
    (hc : h.class? r = some c) {b : Ref} (hb : c.base = some b) :
    Shared h h' (.classObject b) :=
  ha.within hv rfl (class?_eq_some.1 hc) (by simp [Body.values, hb])

theorem class_shared (ha : Abreast P l h h') (hv : Shared h h' (.instanceObject r))
    {cls : Ref} {vs : List Value} (hi : h.instance? r = some (cls, vs)) :
    Shared h h' (.classObject cls) :=
  ha.within hv rfl (instance?_eq_some.1 hi) (by simp [Body.values])

theorem classOf?_eq (ha : Abreast P l h h') (hv : Shared h h' (.instanceObject r)) :
    h'.classOf? r = h.classOf? r := by
  rw [classOf?, classOf?, ha.instance?_eq hv]
  cases hi : h.instance? r with
  | none => rfl
  | some i => exact ha.class?_eq (ha.class_shared hv hi)

theorem instanceGet?_eq (ha : Abreast P l h h') (hv : Shared h h' (.instanceObject r))
    (name : String) : h'.instanceGet? r name = h.instanceGet? r name := by
  rw [instanceGet?, instanceGet?, ha.instance?_eq hv]
  cases hi : h.instance? r with
  | none => rfl
  | some i => simp only [ha.class?_eq (ha.class_shared hv hi)]

theorem classMeta?_eq (ha : Abreast P l h h') (hv : Shared h h' (.classObject r))
    (m : MetaMethod) : h'.classMeta? r m = h.classMeta? r m := by
  rw [classMeta?, classMeta?, ha.class?_eq hv]

theorem isSubclassWithin_eq (ha : Abreast P l h h') (other : Ref) (fuel : Nat)
    (hv : Shared h h' (.classObject r)) :
    h'.isSubclassWithin other fuel r = h.isSubclassWithin other fuel r := by
  induction fuel generalizing r with
  | zero => rfl
  | succ fuel ih =>
    rw [isSubclassWithin, isSubclassWithin, ha.class?_eq hv]
    cases hc : h.class? r with
    | none => rfl
    | some c =>
      rw [Option.bind_some]
      cases hb : c.base with
      | none => rfl
      | some b => simp only [ih (ha.base_shared hv hc hb)]

theorem isInstanceOf_eq (ha : Abreast P l h h') (hv : Shared h h' (.instanceObject r))
    (cls : Ref) : h'.isInstanceOf r cls = h.isInstanceOf r cls := by
  rw [isInstanceOf, isInstanceOf, ha.instance?_eq hv]
  cases hi : h.instance? r with
  | none => rfl
  | some i => exact ha.isSubclassWithin_eq cls _ (ha.class_shared hv hi)

end

/-! ### Members and texts -/

theorem metaOf?_eq (ha : Abreast P l h h') {v : Value} (hv : Shared h h' v) (m : MetaMethod) :
    h'.metaOf? v m = h.metaOf? v m := by
  cases v with
  | instanceObject r =>
    rw [metaOf?, metaOf?, instanceMeta?, instanceMeta?, ha.classOf?_eq hv]
  | _ => rfl

theorem metaOf?_shared (ha : Abreast P l h h') {v f : Value} (hv : Shared h h' v) {m : MetaMethod}
    (hf : h.metaOf? v m = some f) : Shared h h' f := by
  obtain ⟨own, hl⟩ := ha.left
  obtain ⟨own', hl'⟩ := ha.right
  exact ⟨hl.has_metaOf hf, hl'.has_metaOf (by rwa [ha.metaOf?_eq hv])⟩

theorem classMeta?_shared (ha : Abreast P l h h') {r : Ref} {f : Value}
    (hv : Shared h h' (.classObject r)) {m : MetaMethod} (hf : h.classMeta? r m = some f) :
    Shared h h' f := by
  obtain ⟨own, hl⟩ := ha.left
  obtain ⟨own', hl'⟩ := ha.right
  exact ⟨hl.has_classMeta hf, hl'.has_classMeta (by rwa [ha.classMeta?_eq hv])⟩

theorem member?_eq (ha : Abreast P l h h') {obj : Value} (hv : Shared h h' obj) (key : Value) :
    h'.member? obj key = h.member? obj key := by
  cases obj with
  | dict r => cases key <;> simp only [member?, ha.dictGet?_eq hv]
  | array r => cases key <;> simp only [member?, ha.itemAt_eq hv]
  | instanceObject r => cases key <;> simp only [member?, ha.instanceGet?_eq hv]
  | classObject r => cases key <;> simp only [member?, ha.class?_eq hv]
  | _ => cases key <;> simp only [member?]

theorem hasMember_eq (ha : Abreast P l h h') {obj : Value} (hv : Shared h h' obj) (key : Value) :
    h'.hasMember obj key = h.hasMember obj key := by
  cases obj with
  | dict r => cases key <;> simp only [hasMember, ha.dictGet?_eq hv]
  | array r => cases key <;> simp only [hasMember, ha.items_eq hv]
  | instanceObject r => cases key <;> simp only [hasMember, ha.instanceGet?_eq hv]
  | classObject r => cases key <;> simp only [hasMember, ha.class?_eq hv]
  | _ => cases key <;> simp only [hasMember]

theorem display_eq (ha : Abreast P l h h') {v : Value} (hv : Shared h h' v) :
    h'.display v = h.display v := by
  cases v with
  | closure r =>
    show "(closure : " ++ h'.closureName r ++ ")" = "(closure : " ++ h.closureName r ++ ")"
    rw [closureName, closureName, ha.closure?_eq hv]
  | native r =>
    show "(native_closure : " ++ h'.nativeName r ++ ")" = "(native_closure : " ++ h.nativeName r ++ ")"
    rw [nativeName, nativeName, ha.native?_eq hv]
  | _ => rfl

end Abreast

end ScriptMachine.Heap
