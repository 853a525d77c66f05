import Mathlib.Data.Multiset.Filter
import ScriptMachine.Heap.Members
import ScriptMachine.Proofs.Heap.Allocation

/-!
# Kinds of objects

A value names an object of one kind. Objects keep their kind while they live,
and some keep more: functions never change, an instance keeps its class, and a
captured variable is closed for good.
-/

set_option autoImplicit false

namespace ScriptMachine

inductive Kind where
  | content
  | weak
  | array
  | dict
  | closure
  | native
  | classObject
  | instanceObject
  | outer
  deriving DecidableEq

/-- The kind of object that a value names. -/
def Value.kind : Value → Kind
  | array _ => .array
  | dict _ => .dict
  | closure _ => .closure
  | native _ => .native
  | classObject _ => .classObject
  | instanceObject _ => .instanceObject
  | weak _ => .weak
  | outer _ => .outer
  | null | integer _ | float _ | complex _ | bool _ | string _ | space _ _ | prototype _ _ => .content

/-- The references of some values to one object. -/
def refCount (own : Multiset Value) (r : Ref) : Nat := (own.filterMap Value.ref?).count r

section

variable (own own' : Multiset Value) (v : Value) (r : Ref)

@[simp] theorem refCount_zero : refCount 0 r = 0 := rfl

@[simp] theorem refCount_add : refCount (own + own') r = refCount own r + refCount own' r := by
  simp [refCount, Multiset.filterMap_add]

theorem refCount_coe (vs : List Value) : refCount vs r = (Body.valueRefs vs).count r := by
  simp [refCount, Body.valueRefs]

theorem refCount_mono {own own' : Multiset Value} (h : own ≤ own') (r : Ref) :
    refCount own r ≤ refCount own' r :=
  Multiset.count_le_of_le r (Multiset.filterMap_le_filterMap _ h)

theorem refCount_cons : refCount (v ::ₘ own) r = refCount {v} r + refCount own r := by
  rw [← Multiset.singleton_add, refCount_add]

theorem coe_cons_add (vs : List Value) :
    ((v :: vs : List Value) : Multiset Value) + own = v ::ₘ ((vs : Multiset Value) + own) := by
  rw [← Multiset.cons_coe, Multiset.cons_add]

theorem refCount_none {v : Value} (h : v.ref? = none) (r : Ref) : refCount {v} r = 0 := by
  rw [← Multiset.coe_singleton, refCount_coe]
  simp [Body.valueRefs, h]

theorem refCount_some {v : Value} {s : Ref} (h : v.ref? = some s) (r : Ref) :
    refCount {v} r = [s].count r := by
  rw [← Multiset.coe_singleton, refCount_coe]
  simp [Body.valueRefs, h]

theorem refCount_pos {own : Multiset Value} {v : Value} {r : Ref} (hv : v ∈ own)
    (hr : v.ref? = some r) : 0 < refCount own r :=
  Multiset.count_pos.2 ((Multiset.mem_filterMap _ _).2 ⟨v, hv, hr⟩)

end

/-! ## Contents as values -/

def ClassMember.values (m : ClassMember) : List Value := [.string m.key, m.value, m.attributes]

namespace Body

def kind : Body → Kind
  | content => .content
  | weak _ => .weak
  | array _ => .array
  | dict _ => .dict
  | closure _ => .closure
  | native _ => .native
  | classObject _ => .classObject
  | instanceObject _ _ => .instanceObject
  | outer _ => .outer

/-- What an object keeps alive, each object as a value that names it. -/
def values : Body → List Value
  | content | weak _ | outer (.opened _) => []
  | array items => items.toList
  | dict es => es.list.flatMap fun (e : Entry) => [.string e.1, e.2]
  | closure c => c.outers.map .outer ++ c.defaults ++ c.owner.toList.map .classObject
  | native n => .string n.name :: .string n.docs :: n.defaults.map (·.2)
  | classObject c =>
    c.base.toList.map .classObject ++ (c.members.map (fun (e : Text × Member) => .string e.1) ++
      c.methods.flatMap ClassMember.values ++ c.fields.flatMap ClassMember.values ++ c.metas ++
      [c.attributes])
  | instanceObject cls vs => .classObject cls :: vs
  | outer (.closed v) => [v]

/-- What an object names, also without keeping it alive. -/
def mentions : Body → List Value
  | weak v => [v]
  | b => b.values

theorem valueRefs_append (vs ws : List Value) :
    valueRefs (vs ++ ws) = valueRefs vs ++ valueRefs ws := by
  simp [valueRefs]

theorem valueRefs_cons (v : Value) (vs : List Value) :
    valueRefs (v :: vs) = v.ref?.toList ++ valueRefs vs := by
  cases h : v.ref? <;> simp [valueRefs, h]

theorem valueRefs_singleton (v : Value) : valueRefs [v] = v.ref?.toList := by
  rw [valueRefs_cons]
  simp [valueRefs]

theorem valueRefs_map {α : Type} (f : α → Value) (g : α → Ref) (h : ∀ a, (f a).ref? = some (g a))
    (xs : List α) : valueRefs (xs.map f) = xs.map g := by
  simp [valueRefs, List.filterMap_map, h]

theorem valueRefs_flatMap {α : Type} (f : α → List Value) (xs : List α) :
    valueRefs (xs.flatMap f) = xs.flatMap fun (a : α) => valueRefs (f a) := by
  simp [valueRefs, List.filterMap_flatMap]

theorem valueRefs_member (m : ClassMember) : valueRefs m.values = m.refs := by
  simp only [ClassMember.values, ClassMember.refs, valueRefs_cons]
  simp [Value.ref?, valueRefs]

theorem valueRefs_values (b : Body) : valueRefs b.values = b.refs := by
  cases b with
  | content | weak | array => rfl
  | dict es =>
    simp only [values, refs, fixedRefs, looseRefs, valueRefs_flatMap, List.nil_append]
    rfl
  | closure c =>
    simp only [values, refs, fixedRefs, looseRefs, valueRefs_append, List.nil_append]
    rw [valueRefs_map _ id (fun _ => rfl), valueRefs_map _ id (fun _ => rfl)]
    simp
  | native n =>
    simp only [values, refs, fixedRefs, looseRefs, valueRefs_cons]
    rfl
  | classObject c =>
    simp only [values, refs, fixedRefs, looseRefs, valueRefs_append, valueRefs_flatMap,
      valueRefs_member]
    rw [valueRefs_map _ id (fun _ => rfl),
      valueRefs_map _ (fun (e : Text × Member) => e.1.ref) (fun _ => rfl)]
    simp [valueRefs_singleton]
  | instanceObject cls vs =>
    simp only [values, refs, fixedRefs, looseRefs, valueRefs_cons]
    rfl
  | outer s =>
    cases s with
    | opened i => rfl
    | closed v =>
      simp only [values, refs, fixedRefs, looseRefs, valueRefs_singleton, List.nil_append]

theorem refCount_values (b : Body) (r : Ref) : refCount b.values r = b.refs.count r := by
  rw [refCount_coe, valueRefs_values]

theorem values_subset_mentions (b : Body) : b.values ⊆ b.mentions := by
  cases b <;> simp [mentions, values]

theorem mentions_eq {b : Body} (h : b.kind ≠ .weak) : b.mentions = b.values := by
  cases b <;> first | rfl | exact absurd rfl h

theorem isLeaf_of_kind {b c : Body} (h : b.kind = c.kind) : b.isLeaf = c.isLeaf := by
  cases b <;> cases c <;> first | rfl | cases h

/-! ## What may change while an object lives -/

/-- The second body may take the place of the first. -/
inductive Later : Body → Body → Prop
  | same (b : Body) : Later b b
  | array (xs ys : Array Value) : Later (.array xs) (.array ys)
  | dict (es fs : Entries) : Later (.dict es) (.dict fs)
  | classObject {c d : ClassObject} : d.base = c.base → Later (.classObject c) (.classObject d)
  | instanceObject (cls : Ref) (vs ws : List Value) :
    Later (.instanceObject cls vs) (.instanceObject cls ws)
  | outer (v w : Value) : Later (.outer (.closed v)) (.outer (.closed w))

namespace Later

variable {a b c : Body}

theorem trans (h1 : Later a b) (h2 : Later b c) : Later a c := by
  cases h1 with
  | same => exact h2
  | array =>
    cases h2 with
    | same | array => exact .array _ _
  | dict =>
    cases h2 with
    | same | dict => exact .dict _ _
  | classObject h =>
    cases h2 with
    | same => exact .classObject h
    | classObject h' => exact .classObject (h'.trans h)
  | instanceObject =>
    cases h2 with
    | same | instanceObject => exact .instanceObject _ _ _
  | outer =>
    cases h2 with
    | same | outer => exact .outer _ _

theorem kind_eq (h : Later a b) : b.kind = a.kind := by
  cases h <;> rfl

theorem fixedRefs_eq (h : Later a b) : b.fixedRefs = a.fixedRefs := by
  cases h with
  | classObject h => simp [fixedRefs, h]
  | same | array | dict | instanceObject | outer => rfl

end Later

end Body

namespace Heap

variable {h h' h'' : Heap}

/-- If the object that the value names lives, it is of the value's kind. -/
def Fits (h : Heap) (v : Value) : Prop :=
  ∀ r, v.ref? = some r → r.id < h.cells.size ∧ ∀ b, h.body? r = some b → b.kind = v.kind

/-- The object that the value names lives. -/
def Has (h : Heap) (v : Value) : Prop :=
  ∀ r, v.ref? = some r → ∃ b, h.body? r = some b ∧ b.kind = v.kind

theorem body?_lt {r : Ref} {b : Body} (hb : h.body? r = some b) : r.id < h.cells.size := by
  obtain ⟨c, hc, -⟩ := cell?_of_body? hb
  exact cell?_lt hc

theorem Has.fits {v : Value} (hv : h.Has v) : h.Fits v := by
  intro r hr
  obtain ⟨b, hb, hk⟩ := hv r hr
  refine ⟨body?_lt hb, fun c hc => ?_⟩
  rw [hb] at hc
  cases hc
  exact hk

theorem has_of_none {v : Value} (hv : v.ref? = none) : h.Has v := by
  intro r hr
  rw [hv] at hr
  cases hr

/-- How a heap may look after some operations: objects go, some that live on have
changed, and none that is new is a variable of the stack. -/
structure Evolves (h h' : Heap) : Prop where
  size : h.cells.size ≤ h'.cells.size
  old : ∀ r b', r.id < h.cells.size → h'.body? r = some b' → ∃ b, h.body? r = some b ∧ b.Later b'
  fresh : ∀ r i, h.cells.size ≤ r.id → h'.outerState? r ≠ some (.opened i)

namespace Evolves

theorem refl (h : Heap) : Evolves h h where
  size := Nat.le_refl _
  old := fun _ b _ hb => ⟨b, hb, .same b⟩
  fresh := by
    intro r i hr
    have hd : h.body? r = none := by simp [body?, cell?_of_size_le hr]
    simp [outerState?, hd]

theorem fits (he : Evolves h h') {v : Value} (hv : h.Fits v) : h'.Fits v := by
  intro r hr
  obtain ⟨hlt, hk⟩ := hv r hr
  refine ⟨Nat.lt_of_lt_of_le hlt he.size, fun b' hb' => ?_⟩
  obtain ⟨b, hb, hl⟩ := he.old r b' hlt hb'
  rw [hl.kind_eq, hk b hb]

theorem opened (he : Evolves h h') {r : Ref} {i : Nat}
    (hr : h'.outerState? r = some (.opened i)) : h.outerState? r = some (.opened i) := by
  by_cases hlt : r.id < h.cells.size
  · cases hb : h'.body? r with
    | none => simp [outerState?, hb] at hr
    | some b' =>
      obtain ⟨b, hb0, hl⟩ := he.old r b' hlt hb
      cases b' with
      | outer s =>
        simp only [outerState?, hb, Option.some.injEq] at hr
        subst hr
        cases hl
        simp [outerState?, hb0]
      | content | weak | array | dict | closure | native | classObject | instanceObject =>
        simp [outerState?, hb] at hr
  · exact absurd hr (he.fresh r i (by omega))

theorem trans (h1 : Evolves h h') (h2 : Evolves h' h'') : Evolves h h'' where
  size := Nat.le_trans h1.size h2.size
  old := by
    intro r b'' hr hb''
    obtain ⟨b', hb', hl'⟩ := h2.old r b'' (Nat.lt_of_lt_of_le hr h1.size) hb''
    obtain ⟨b, hb, hl⟩ := h1.old r b' hr hb'
    exact ⟨b, hb, hl.trans hl'⟩
  fresh := fun r i hr ho => h1.fresh r i hr (h2.opened ho)

/-- A variable of the stack that lives on is still one. -/
theorem opened_of_alive (he : Evolves h h') {r : Ref} {i : Nat} {b' : Body}
    (hr : h.outerState? r = some (.opened i)) (hb' : h'.body? r = some b') :
    h'.outerState? r = some (.opened i) := by
  cases hb : h.body? r with
  | none => simp [outerState?, hb] at hr
  | some b =>
    obtain ⟨b0, hb0, hl⟩ := he.old r b' (body?_lt hb) hb'
    rw [hb] at hb0
    cases hb0
    cases b with
    | outer s =>
      simp only [outerState?, hb, Option.some.injEq] at hr
      subst hr
      cases hl
      simp [outerState?, hb']
    | content | weak | array | dict | closure | native | classObject | instanceObject =>
      simp [outerState?, hb] at hr

theorem of_bodies (hsize : h'.cells.size = h.cells.size) (hbody : ∀ r, h'.body? r = h.body? r) :
    Evolves h h' where
  size := Nat.le_of_eq hsize.symm
  old := fun r b' _ hb' => ⟨b', by rwa [hbody] at hb', .same b'⟩
  fresh := by
    intro r i hr
    have hd : h.body? r = none := by simp [body?, cell?_of_size_le hr]
    simp [outerState?, hbody, hd]

theorem of_trims (ht : Trims h h') : Evolves h h' where
  size := Nat.le_of_eq ht.size.symm
  old := fun _ b' _ hb' => ⟨b', ht.body? hb', .same b'⟩
  fresh := by
    intro r i hr
    have hd : h'.body? r = none := by
      simp [body?, cell?_of_size_le (show h'.cells.size ≤ r.id by rw [ht.size]; exact hr)]
    simp [outerState?, hd]

end Evolves

end Heap

end ScriptMachine
