import ScriptMachine.Heap.View
import ScriptMachine.Machine.OpenOuters
import ScriptMachine.Operators
import ScriptMachine.Proofs.Heap.Lockstep
import ScriptMachine.Proofs.Machine.Captures

/-!
# Classes, operators and views on two heaps at once

The operations that read a class or an instance before they write, what hosts see of a
value, and the list of open cells, on two heaps that mirror each other.
-/

set_option autoImplicit false

namespace ScriptMachine.Heap

variable {P : NativeObject → Prop} {l : Law} {h h' k k' : Heap}

namespace Mirrors

theorem retainRefs (hm : Mirrors P h h') (rs : List Ref) :
    Mirrors P (h.retainRefs rs) (h'.retainRefs rs) := by
  induction rs generalizing h h' with
  | nil => exact hm
  | cons r rs ih => exact ih (hm.retainRef r)

theorem dictInsertChars (hm : Mirrors P h h') {r : Ref} {es : Entries}
    (hr : h.body? r = some (.dict es)) (hr' : h'.body? r = some (.dict es)) (key : String)
    (v : Value) : Mirrors P (h.dictInsertChars r key v) (h'.dictInsertChars r key v) := by
  obtain ⟨ht, hm1⟩ := hm.allocateText key
  have hold : ∀ {k : Heap}, k.body? r = some (.dict es) →
      (k.allocateText key).2.body? r = some (.dict es) := by
    intro k hk
    refine (body?_allocate k .content r).trans ?_
    rw [if_neg, hk]
    rintro rfl
    exact Nat.lt_irrefl _ (body?_lt hk)
  simp only at ht
  simp only [Heap.dictInsertChars, ht]
  exact hm1.dictInsert (hold hr) (hold hr') _ v

end Mirrors

namespace Abreast

variable {r : Ref} {v : Value}

/-! ## Classes -/

theorem newClass (ha : Abreast P l h h') {base : Option Ref} (name : String)
    (hb : ∀ b, base = some b → Shared h h' (.classObject b)) :
    Mirrored P (fun h => h.newClass base name) h h' := by
  have hmake : ∀ c : ClassObject, Mirrored P
      (fun h => (h.retainRefs (Body.classObject c).refs).allocateLinked (.classObject c)) h h' :=
    fun c => (ha.retainRefs _).allocateLinked trivial
  cases base with
  | none => exact hmake _
  | some b =>
    simp only [Mirrored, Heap.newClass, ha.class?_eq (hb b rfl)]
    cases h.class? b with
    | none => exact hmake _
    | some c => exact hmake _

theorem lockFrom (ha : Abreast P l h h') (fuel : Nat) (hr : Shared h h' (.classObject r)) :
    Mirrors P (h.lockFrom fuel r) (h'.lockFrom fuel r) := by
  induction fuel generalizing h h' r with
  | zero => exact ha.toMirrors
  | succ fuel ih =>
    rw [Heap.lockFrom, Heap.lockFrom, ha.class?_eq hr]
    cases hc : h.class? r with
    | none => exact ha.toMirrors
    | some c =>
      have hm := ha.modifyClass r fun (c : ClassObject) => { c with locked := true }
      cases hb : c.base with
      | none => simpa only [hb] using hm
      | some b =>
        simp only [hb]
        have hbase := ha.base_shared hr hc hb
        -- locking one class lets nothing go
        have hkeep : ∀ {k : Heap}, (∃ own, k.Backs l own) → k.class? r = some c →
            (∃ own, (k.modifyClass r fun (c : ClassObject) => { c with locked := true }).Backs l own) ∧
              ∀ v, k.Has v →
                (k.modifyClass r fun (c : ClassObject) => { c with locked := true }).Has v := by
          rintro k ⟨own, hk⟩ hck
          rw [modifyClass_eq hck]
          have hset : Moves l own k (k.setBody r (.classObject { c with locked := true })) :=
            hk.setClass hck rfl le_rfl
          exact ⟨⟨own, hset.backs⟩, fun v hv => has_setBody (class?_eq_some.1 hck) (by rfl) hv⟩
        obtain ⟨hl, hkl⟩ := hkeep ha.left hc
        obtain ⟨hl', hkl'⟩ := hkeep ha.right ((ha.class?_eq hr).trans hc)
        exact ih ⟨hm, hl, hl'⟩ ⟨hkl _ hbase.1, hkl' _ hbase.2⟩

theorem newInstance (ha : Abreast P l h h') (hr : Shared h h' (.classObject r)) :
    Mirrored P (fun h => h.newInstance r) h h' := by
  obtain ⟨own, hl⟩ := ha.left
  obtain ⟨own', hl'⟩ := ha.right
  obtain ⟨hm, hkeep⟩ := hl.lockFrom (r.id + 1) r
  obtain ⟨hm', hkeep'⟩ := hl'.lockFrom (r.id + 1) r
  have hlock : Abreast P l (h.lock r) (h'.lock r) :=
    ⟨ha.lockFrom _ hr, ⟨_, hm.backs⟩, ⟨_, hm'.backs⟩⟩
  have hr1 : Shared (h.lock r) (h'.lock r) (.classObject r) := ⟨hkeep _ hr.1, hkeep' _ hr.2⟩
  have hmake : ∀ vs : List Value, (∀ v ∈ vs, Shared (h.lock r) (h'.lock r) v) →
      Mirrored P (fun h => ((h.lock r).deepCopyAll vs).2.retainRef r |>.allocateLinked
        (.instanceObject r ((h.lock r).deepCopyAll vs).1)) h h' := by
    intro vs hvs
    obtain ⟨heq, hms⟩ := hlock.deepCopyAll hvs
    simp only at heq
    simp only [Mirrored, heq]
    exact (hms.retainRef r).allocateLinked trivial
  simp only [Mirrored, Heap.newInstance, hlock.class?_eq hr1]
  cases hc : (h.lock r).class? r with
  | none => exact hmake [] fun v hv => by cases hv
  | some c =>
    refine hmake _ fun v hv => ?_
    obtain ⟨e, he, rfl⟩ := List.mem_map.1 hv
    exact ⟨hm.backs.has_field hc he, hm'.backs.has_field ((hlock.class?_eq hr1).trans hc) he⟩

theorem asMethod (ha : Abreast P l h h') {c : ClassObject} (hr : Shared h h' (.classObject r))
    (hc : h.class? r = some c) (name : String) (hv : Shared h h' v) :
    Mirrored P (fun h => h.asMethod r c name v) h h' := by
  cases v with
  | closure f =>
    have hinherited : h'.isInherited c name (.closure f) = h.isInherited c name (.closure f) := by
      simp only [isInherited]
      cases hb : c.base with
      | none => rfl
      | some b => simp only [Option.bind_some, ha.class?_eq (ha.base_shared hr hc hb)]
    simp only [Mirrored, Heap.asMethod, ha.closure?_eq hv, hinherited]
    cases h.closure? f with
    | none => exact ⟨rfl, ha.toMirrors⟩
    | some fc =>
      dsimp only
      split
      · exact ⟨rfl, ha.toMirrors⟩
      · obtain ⟨heq, hm⟩ := (ha.retainRefs
          (Body.closure { fc with owner := some r }).refs).allocateLinked
            (b := .closure { fc with owner := some r }) trivial
        exact ⟨congrArg Value.closure heq, hm.release (.closure f) (.closure f)⟩
  | _ => exact ⟨rfl, ha.toMirrors⟩

theorem classNewSlot (ha : Abreast P l h h') (hr : Shared h h' (.classObject r)) (key : Text)
    (hv : Shared h h' v) (isStatic : Bool) :
    Mirrored P (fun h => h.classNewSlot r key v isStatic) h h' := by
  simp only [Mirrored, Heap.classNewSlot, ha.class?_eq hr]
  cases hc : h.class? r with
  | none => exact ⟨rfl, (ha.release _ _).releaseRef _ _⟩
  | some c =>
    dsimp only
    split
    · exact ⟨rfl, (ha.release _ _).releaseRef _ _⟩
    · split
      · exact ⟨rfl, (ha.replaceEntry r c _ v).releaseRef _ _⟩
      · split
        · exact ⟨rfl, (ha.release _ _).releaseRef _ _⟩
        · split
          · split
            · exact ⟨rfl, ha.modifyClass r _⟩
            · exact ⟨rfl, (ha.retainRef _).modifyClass r _⟩
          · split
            · exact ⟨rfl, ((ha.modifyClass r _).release _ _).releaseRef _ _⟩
            · obtain ⟨heq, hm⟩ := ha.asMethod hr hc key.chars hv
              simp only at heq
              rw [heq]
              split
              · exact ⟨rfl, (hm.replaceEntry r c _ _).releaseRef _ _⟩
              · exact ⟨rfl, (hm.retainRef _).modifyClass r _⟩

theorem classSet (ha : Abreast P l h h') (hr : Shared h h' (.classObject r)) (name : String)
    (v : Value) : Mirrored P (fun h => h.classSet r name v) h h' := by
  simp only [Mirrored, Heap.classSet, ha.class?_eq hr]
  cases h.class? r with
  | none => exact ⟨rfl, ha.release v v⟩
  | some c =>
    dsimp only
    split
    · exact ⟨rfl, ha.replaceEntry r c _ v⟩
    · exact ⟨rfl, ha.release v v⟩

theorem setMemberAttributes (ha : Abreast P l h h') (hr : Shared h h' (.classObject r))
    (name : String) (v : Value) : Mirrored P (fun h => h.setMemberAttributes r name v) h h' := by
  simp only [Mirrored, Heap.setMemberAttributes, ha.class?_eq hr]
  cases h.class? r with
  | none => exact ⟨rfl, ha.release v v⟩
  | some c =>
    dsimp only
    split
    · exact ⟨rfl, (ha.modifyClass r _).release _ _⟩
    · exact ⟨rfl, ha.release v v⟩

theorem setClassAttributes (ha : Abreast P l h h') (hr : Shared h h' (.classObject r))
    (v : Value) : Mirrors P (h.setClassAttributes r v) (h'.setClassAttributes r v) := by
  rw [Heap.setClassAttributes, Heap.setClassAttributes, ha.class?_eq hr]
  cases h.class? r with
  | none => exact ha.release v v
  | some c => exact (ha.modifyClass r _).release _ _

/-! ## Instances -/

theorem instanceSet (ha : Abreast P l h h') (hr : Shared h h' (.instanceObject r)) (name : String)
    (v : Value) : Mirrored P (fun h => h.instanceSet r name v) h h' := by
  simp only [Mirrored, Heap.instanceSet, ha.instance?_eq hr]
  cases hi : h.instance? r with
  | none => exact ⟨rfl, ha.release v v⟩
  | some i =>
    simp only [ha.class?_eq (ha.class_shared hr hi)]
    split
    · split
      · exact ⟨rfl, (ha.setBody r (by trivial)).release _ _⟩
      · exact ⟨rfl, ha.release v v⟩
    · exact ⟨rfl, ha.release v v⟩

/-! ## Operators and attributes -/

theorem arith (ha : Abreast P l h h') (op : ArithOp) {a b : Value} (hva : Shared h h' a)
    (hvb : Shared h h' b) : Mirrored P (fun h => h.arith op a b) h h' := by
  have hjoin : ∀ s : String,
      (.ok (h'.newString s).1 : Except ScriptError Value) = .ok (h.newString s).1 ∧
        Mirrors P (h.newString s).2 (h'.newString s).2 := by
    intro s
    obtain ⟨heq, hm⟩ := ha.newString s
    exact ⟨congrArg Except.ok heq, hm⟩
  unfold Mirrored Heap.arith
  dsimp only
  rw [ha.display_eq hva, ha.display_eq hvb]
  split
  · exact hjoin _
  · exact hjoin _
  · rename_i x y
    rw [ha.items_eq hva, ha.items_eq hvb]
    obtain ⟨heq, hm⟩ := (ha.retainAll (h.items x ++ h.items y).toList).newArray
      (h.items x ++ h.items y)
    exact ⟨congrArg Except.ok heq, hm⟩
  · exact ⟨rfl, ha.toMirrors⟩

theorem nativeAttribute (ha : Abreast P l h h') (n : NativeObject) (a : NativeAttribute) :
    Mirrored P (fun h => h.nativeAttribute n a) h h' := by
  cases a with
  | name => exact ⟨rfl, ha.retainRef _⟩
  | docs => exact ⟨rfl, ha.retainRef _⟩
  | typeMask => exact ha.newString _
  | _ => exact ⟨rfl, ha.toMirrors⟩

/-! ## Views -/

theorem nativeName_eq (ha : Abreast P l h h') (hv : Shared h h' (.native r)) :
    h'.nativeName r = h.nativeName r := by
  rw [nativeName, nativeName, ha.native?_eq hv]

theorem not_shared_weak (ha : Abreast P l h h') : ¬ Shared h h' (.weak r) := by
  intro hv
  obtain ⟨b, hb, hk⟩ := hv.1 r rfl
  have hs := ha.bodies r b hb
  cases b <;> first | exact hs | cases hk

theorem fields_eq (ha : Abreast P l h h') (hv : Shared h h' (.instanceObject r)) :
    h'.instanceFields r = h.instanceFields r := by
  rw [instanceFields, instanceFields, ha.instance?_eq hv]
  cases hi : h.instance? r with
  | none => rfl
  | some i => simp only [ha.class?_eq (ha.class_shared hv hi)]

theorem field_shared (ha : Abreast P l h h') (hv : Shared h h' (.instanceObject r))
    {name : String} {w : Value} (hf : (name, some w) ∈ h.instanceFields r) : Shared h h' w := by
  unfold instanceFields at hf
  cases hi : h.instance? r with
  | none =>
    rw [hi] at hf
    cases hf
  | some i =>
    obtain ⟨cls, vs⟩ := i
    simp only [hi] at hf
    cases hc : h.class? cls with
    | none =>
      rw [hc] at hf
      cases hf
    | some c =>
      simp only [hc] at hf
      obtain ⟨k, hk, heq⟩ := List.mem_mapIdx.1 hf
      have hw : w ∈ vs := List.mem_of_getElem? (Prod.mk.inj heq).2
      exact ha.within hv rfl (instance?_eq_some.1 hi) (by simp [Body.values, hw])

/-- The same is seen of a value when the same is seen of what it holds. -/
theorem viewObject_eq (ha : Abreast P l h h') {see see' : Value → View}
    (hsee : ∀ w, Shared h h' w → see' w = see w) (hv : Shared h h' v) :
    h'.viewObject see' v = h.viewObject see v := by
  cases v with
  | array r =>
    obtain ⟨xs, hx⟩ := hv.1.array
    simp only [viewObject, ha.items_eq hv]
    congr 1
    exact List.map_congr_left fun w hw =>
      hsee w (ha.within hv rfl hx (by simpa [Heap.items, hx, Body.values] using hw))
  | dict r =>
    obtain ⟨es, hes⟩ := hv.1.dict
    simp only [viewObject, ha.entries_eq hv]
    congr 1
    refine List.map_congr_left fun e he => ?_
    rw [hsee e.2 (ha.within hv rfl hes ?_)]
    rw [Backs.entries_eq hes] at he
    exact List.mem_flatMap.2 ⟨e, he, by simp⟩
  | instanceObject r =>
    simp only [viewObject, ha.fields_eq hv]
    congr 1
    refine List.map_congr_left fun f hf => ?_
    obtain ⟨name, value⟩ := f
    cases value with
    | none => rfl
    | some w => rw [Option.map_some, Option.map_some, hsee w (ha.field_shared hv hf)]
  | closure r =>
    obtain ⟨c, hc⟩ := hv.1.closure
    simp only [viewObject, ha.closure?_eq hv, closure?_eq_some.2 hc]
    congr 1
    · refine List.map_congr_left fun o ho => hsee _ (ha.within hv rfl hc ?_)
      simp [Body.values, ho]
    · refine List.map_congr_left fun w hw => hsee w (ha.within hv rfl hc ?_)
      simp [Body.values, hw]
  | outer r =>
    obtain ⟨s, hs⟩ := hv.1.outer
    simp only [viewObject, ha.outerState?_eq hv, outerState?_eq_some.2 hs]
    cases s with
    | opened i => rfl
    | closed w => exact congrArg View.closed (hsee w (ha.within hv rfl hs (by simp [Body.values])))
  | native r => simp only [viewObject, ha.nativeName_eq hv]
  | classObject r => simp only [viewObject, ha.class?_eq hv]
  | weak r => exact absurd hv ha.not_shared_weak
  | _ => rfl

theorem viewWithin_eq (ha : Abreast P l h h') (fuel : Nat) (path : List Ref)
    (hv : Shared h h' v) : h'.viewWithin fuel path v = h.viewWithin fuel path v := by
  induction fuel generalizing path v with
  | zero => rfl
  | succ fuel ih =>
    rw [viewWithin, viewWithin]
    cases opensLevel v with
    | none => exact ha.viewObject_eq (fun w hw => ih path hw) hv
    | some r =>
      dsimp only
      cases path.findIdx? (· == r) with
      | none => exact ha.viewObject_eq (fun w hw => ih (r :: path) hw) hv
      | some i => rfl

/-- What can be seen of a value that lives in both is the same. -/
theorem view_eq (ha : Abreast P l h h') (hv : Shared h h' v) : h'.view v = h.view v := by
  rw [view, view, ha.size]
  exact ha.viewWithin_eq _ _ hv

end Abreast

end ScriptMachine.Heap

/-! ## Open cells -/

namespace ScriptMachine.OpenOuters

open Heap (Mirrors Abreast Shared)

variable {P : NativeObject → Prop} {l : Law} {h h' : Heap} {cells : Array Ref} {own : Multiset Value}

theorem slotOrder_eq (ha : Abreast P l h h') {c : Ref} (hc : Shared h h' (.outer c)) (slot : Nat) :
    slotOrder h' c slot = slotOrder h c slot := by
  rw [slotOrder, slotOrder, ha.stackIndex?_eq hc]

theorem find_eq (ha : Abreast P l h h') (hc : ∀ c ∈ cells.toList, Shared h h' (.outer c))
    (slot : Nat) : find h' cells slot = find h cells slot := by
  have hcell : ∀ {i : Nat} {c : Ref}, cells[i]? = some c → slotOrder h' c slot = slotOrder h c slot :=
    fun hi => slotOrder_eq ha (hc _ (Array.mem_def.1 (Array.mem_of_getElem? hi))) slot
  have habove : isAbove h' cells slot = isAbove h cells slot := by
    funext i
    rw [isAbove, isAbove]
    cases hi : cells[i]? with
    | none => rfl
    | some c => simp only [hcell hi]
  simp only [find, habove]
  cases hi : cells[Search.lastNotAbove (isAbove h cells slot) cells.size]? with
  | none => rfl
  | some c => simp only [hcell hi]

theorem capture_eq (ha : Abreast P l h h') (hc : ∀ c ∈ cells.toList, Shared h h' (.outer c))
    (slot : Nat) :
    (capture h' cells slot).1 = (capture h cells slot).1 ∧
      (capture h' cells slot).2.1 = (capture h cells slot).2.1 ∧
      Mirrors P (capture h cells slot).2.2 (capture h' cells slot).2.2 := by
  simp only [capture, find_eq ha hc]
  cases find h cells slot with
  | ok c => exact ⟨rfl, rfl, ha.retainRef c⟩
  | error i =>
    obtain ⟨heq, hm⟩ := ha.newOuter (.opened slot)
    simp only at heq
    simp only [heq]
    exact ⟨trivial, trivial, hm.retainRef _⟩

theorem closeWithin_eq {slot : Nat} {stack : Array Value} (fuel closed : Nat) (hm : Mirrors P h h')
    (ho : h.OpensIn cells.toList) (ho' : h'.OpensIn cells.toList)
    (hb : h.Backs l ((values cells : Multiset Value) + own))
    (hb' : h'.Backs l ((values cells : Multiset Value) + own)) (hs : ∀ v ∈ stack.toList, v ∈ own) :
    (closeWithin slot stack fuel h' cells closed).2.1 =
        (closeWithin slot stack fuel h cells closed).2.1 ∧
      Mirrors P (closeWithin slot stack fuel h cells closed).2.2
        (closeWithin slot stack fuel h' cells closed).2.2 := by
  induction fuel generalizing h h' cells closed with
  | zero => exact ⟨rfl, hm⟩
  | succ fuel ih =>
    rw [closeWithin, closeWithin]
    cases hback : cells.back? with
    | none => exact ⟨rfl, hm⟩
    | some c =>
      obtain ⟨rest, rfl⟩ := Array.back?_eq_some_iff.1 hback
      obtain ⟨i, hi⟩ := ho.opened c (by simp)
      have hcell : Shared h h' (.outer c) :=
        ⟨hb.has (mem_values (by simp)), hb'.has (mem_values (by simp))⟩
      have hi' : h'.stackIndex? c = some i :=
        (Abreast.stackIndex?_eq ⟨hm, ⟨_, hb⟩, ⟨_, hb'⟩⟩ hcell).trans hi
      simp only [hi, hi', Array.pop_push]
      split
      · exact ⟨rfl, hm⟩
      · obtain ⟨hb1, ho1, -⟩ := closeLast ho hb (has_slot hb hs i) hi
        obtain ⟨hb1', ho1', -⟩ := closeLast ho' hb' (has_slot hb' hs i) hi'
        exact ih (closed + 1) (((hm.retain _).closeOuter c _).releaseRef c c) ho1 ho1' hb1 hb1'

theorem read_eq (ha : Abreast P l h h') {cell : Ref} (hc : Shared h h' (.outer cell))
    (stack : Array Value) : read h' cell stack = read h cell stack := by
  rw [read, read, ha.outerState?_eq hc]

theorem write_eq (ha : Abreast P l h h') {cell : Ref} (hc : Shared h h' (.outer cell))
    (stack : Array Value) (v : Value) :
    (write h' cell stack v).1 = (write h cell stack v).1 ∧
      Mirrors P (write h cell stack v).2 (write h' cell stack v).2 := by
  rw [write, write, ha.stackIndex?_eq hc]
  cases h.stackIndex? cell with
  | none => exact ⟨rfl, (ha.setClosed hc v).2⟩
  | some i =>
    cases hi : stack[i]? with
    | none =>
      simp only [hi]
      exact ⟨trivial, ha.release v v⟩
    | some old =>
      simp only [hi]
      exact ⟨trivial, ha.release old old⟩

end ScriptMachine.OpenOuters
