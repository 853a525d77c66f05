import ScriptMachine.Proofs.Heap.Kindred

/-!
# Direct changes

A host may change an object past the machine: overwrite or add an item, an entry, a
member or a field, or take something out. Each change keeps the accounts, and on two heaps
that mirror each other comes to the same.
-/

set_option autoImplicit false

namespace ScriptMachine

/-- A place in an object for a value. -/
inductive Place where
  | item (index : Int64)
  /-- After the last item. -/
  | lastItem
  | entry (key : String)
  /-- An entry that need not be there. -/
  | newEntry (key : String)
  | member (name : String)
  /-- A member that need not be there. -/
  | newMember (name : String) (isStatic : Bool)
  | attributes
  | memberAttributes (name : String)
  | field (name : String)
  /-- The variable of a closed cell. -/
  | variable
  deriving DecidableEq

/-- What to take out of a container. -/
inductive Portion where
  | item (index : Int64)
  | lastItem
  | entry (key : String)
  | allItems
  deriving DecidableEq

namespace Heap

/-- Stores a value, whose reference is taken over; it is let go when the object has no
such place. -/
def store (h : Heap) (obj v : Value) (place : Place) : Except SlotError Bool × Heap :=
  match place, obj with
  | .item i, .array r => Prod.map (·.map fun _ => true) id (h.setItem r i v)
  | .lastItem, .array r => (.ok true, h.pushItem r v)
  | .entry key, .dict r => Prod.map .ok id (h.dictSet r key v)
  | .newEntry key, .dict r => (.ok true, h.dictInsertChars r key v)
  | .member name, .classObject r => Prod.map .ok id (h.classSet r name v)
  | .newMember name isStatic, .classObject r =>
    let (key, h) := h.allocateText name
    Prod.map (·.map fun _ => true) id (h.classNewSlot r key v isStatic)
  | .attributes, .classObject r => (.ok true, h.setClassAttributes r v)
  | .memberAttributes name, .classObject r =>
    Prod.map (·.map fun _ => true) id (h.setMemberAttributes r name v)
  | .field name, .instanceObject r => Prod.map .ok id (h.instanceSet r name v)
  | .variable, .outer r => Prod.map .ok id (h.setClosed r v)
  | _, _ => (.ok false, h.release v)

/-- Takes a value out, with its reference; all items are let go. -/
def takeOut (h : Heap) (obj : Value) (portion : Portion) : Except SlotError (Option Value) × Heap :=
  match portion, obj with
  | .item i, .array r => Prod.map (·.map some) id (h.removeItem r i)
  | .lastItem, .array r => Prod.map .ok id (h.popItem r)
  | .entry key, .dict r => Prod.map .ok id (h.dictRemove r key)
  | .allItems, .array r => (.ok none, h.clearItems r)
  | _, _ => (.ok none, h)

variable {α β : Type} {P : NativeObject → Prop} {l : Law} {h h' : Heap} {own own' : Multiset Value}
variable {r : Ref} {obj v : Value}

/-! ## The end of an array -/

namespace Backs

theorem popItem (hb : h.Backs l own) (hr : h.Has (.array r)) :
    Moves l (((h.popItem r).1.toList : Multiset Value) + own) h (h.popItem r).2 := by
  obtain ⟨xs, hxs⟩ := hr.array
  simp only [Heap.popItem, modifyItems, items, modifyBody_eq hxs, hxs]
  refine hb.setItems hxs (le_of_eq ?_)
  rw [Array.toList_pop, ← Array.getLast?_toList]
  cases hlast : xs.toList.getLast? with
  | none => simp [List.getLast?_eq_none_iff.1 hlast]
  | some v =>
    have hsplit : xs.toList.dropLast ++ [v] = xs.toList := List.dropLast_append_getLast? v hlast
    rw [← add_assoc, Option.toList_some, Multiset.coe_add, hsplit]

theorem clearItems (hb : h.Backs l own) (hr : h.Has (.array r)) : Moves l own h (h.clearItems r) := by
  obtain ⟨xs, hxs⟩ := hr.array
  have hempty : Moves l ((xs.toList : Multiset Value) + own) h (h.setBody r (.array #[])) :=
    hb.setItems hxs (by simp)
  rw [Heap.clearItems, items, hxs]
  exact hempty.trans hempty.backs.releaseAll

end Backs

namespace Abreast

theorem popItem (ha : Abreast P l h h') (hr : Shared h h' (.array r)) :
    Mirrored P (fun h => h.popItem r) h h' := by
  refine ⟨?_, ha.modifyItems r Array.pop⟩
  simp only [Heap.popItem, ha.items_eq hr]

theorem clearItems (ha : Abreast P l h h') (r : Ref) :
    Mirrors P (h.clearItems r) (h'.clearItems r) :=
  (ha.setBody r (by trivial)).releaseAll _ _

end Abreast

/-! ## Storing -/

theorem Mirrored.map {f : Heap → α × Heap} (hf : Mirrored P f h h') (g : α → β) :
    Mirrored P (fun h => Prod.map g id (f h)) h h' := ⟨congrArg g hf.1, hf.2⟩

theorem Backs.store (hb : h.Backs l (v ::ₘ own)) (ho : obj ∈ own) (place : Place) :
    Moves l own h (h.store obj v place).2 := by
  unfold Heap.store
  split
  · exact hb.setItem
  · exact hb.pushItem
  · exact hb.dictSet
  · exact hb.dictInsertChars ho
  · exact hb.classSet
  · rename_i name isStatic _
    have hkey := hb.allocateText name
    rw [Multiset.cons_swap] at hkey
    exact hkey.trans (hkey.backs.classNewSlot ho)
  · exact hb.setClassAttributes
  · exact hb.setMemberAttributes
  · exact hb.instanceSet
  · exact hb.setClosed
  · exact hb.release

/-- Storing comes to the same; the object and the value must be held. -/
theorem Mirrors.store (hm : Mirrors P h h') (hb : h.Backs l (v ::ₘ own))
    (hb' : h'.Backs l (v ::ₘ own')) (ho : obj ∈ own) (ho' : obj ∈ own') (place : Place) :
    Mirrored P (fun h => h.store obj v place) h h' := by
  have ha : Abreast P l h h' := ⟨hm, ⟨_, hb⟩, ⟨_, hb'⟩⟩
  have hobj : Shared h h' obj := ⟨hb.has (by simp [ho]), hb'.has (by simp [ho'])⟩
  unfold Heap.store
  split
  · exact (ha.setItem hobj _ v).map _
  · exact ⟨rfl, hm.pushItem _ v⟩
  · exact (ha.dictSet hobj _ v).map _
  · obtain ⟨es, hes⟩ := hobj.1.dict
    exact ⟨rfl, hm.dictInsertChars hes ((ha.body?_eq hobj rfl).trans hes) _ v⟩
  · exact (ha.classSet hobj _ v).map _
  · rename_i name isStatic r
    obtain ⟨hkey, hm1⟩ := hm.allocateText name
    have hb1 := (hb.allocateText name).backs
    have hb1' := (hb'.allocateText name).backs
    have hlive : ∀ w, w = v ∨ w = .classObject r →
        Shared (h.allocateText name).2 (h'.allocateText name).2 w := by
      rintro w (rfl | rfl)
      · exact ⟨hb1.has (by simp), hb1'.has (by simp)⟩
      · exact ⟨hb1.has (by simp [ho]), hb1'.has (by simp [ho'])⟩
    have ha1 : Abreast P l (h.allocateText name).2 (h'.allocateText name).2 :=
      ⟨hm1, ⟨_, hb1⟩, ⟨_, hb1'⟩⟩
    have hnew := (ha1.classNewSlot (hlive _ (.inr rfl)) (h.allocateText name).1 (hlive _ (.inl rfl))
      isStatic).map (·.map fun _ => true)
    simp only [Mirrored] at hkey hnew ⊢
    rwa [hkey]
  · exact ⟨rfl, ha.setClassAttributes hobj v⟩
  · exact (ha.setMemberAttributes hobj _ v).map _
  · exact (ha.instanceSet hobj _ v).map _
  · exact (ha.setClosed hobj v).map _
  · exact ⟨rfl, hm.release v v⟩

/-! ## Taking out -/

/-- The value that was taken out. -/
def taken : Except SlotError (Option Value) → List Value
  | .ok (some v) => [v]
  | _ => []

theorem Backs.takeOut (hb : h.Backs l own) (ho : h.Has obj) (portion : Portion) :
    Moves l ((taken (h.takeOut obj portion).1 : Multiset Value) + own) h (h.takeOut obj portion).2 := by
  unfold Heap.takeOut
  split
  · rename_i i r
    have hm : Moves l _ h (h.removeItem r i).2 := hb.removeItem
    generalize h.removeItem r i = x at hm ⊢
    obtain ⟨_ | v, k⟩ := x <;> exact hm
  · rename_i r
    have hm := hb.popItem ho
    generalize h.popItem r = x at hm ⊢
    obtain ⟨_ | v, k⟩ := x <;> exact hm
  · rename_i key r
    have hm : Moves l _ h (h.dictRemove r key).2 := hb.dictRemove
    generalize h.dictRemove r key = x at hm ⊢
    obtain ⟨_ | v, k⟩ := x <;> exact hm
  · have hm := hb.clearItems ho
    exact ⟨hm.backs.mono (by simp [taken]), hm.evolves⟩
  · exact (hb.mono (by simp [taken])).stay

theorem Abreast.takeOut (ha : Abreast P l h h') (ho : Shared h h' obj) (portion : Portion) :
    Mirrored P (fun h => h.takeOut obj portion) h h' := by
  unfold Heap.takeOut
  split
  · exact (ha.removeItem ho _).map _
  · exact (ha.popItem ho).map _
  · exact (ha.dictRemove ho _).map _
  · exact ⟨rfl, ha.clearItems _⟩
  · exact ⟨rfl, ha.toMirrors⟩

end Heap

end ScriptMachine
