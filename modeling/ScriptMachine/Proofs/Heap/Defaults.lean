import ScriptMachine.Proofs.Heap.Layout
import ScriptMachine.Proofs.Heap.Reaching

/-!
# Default values of closures

A new closure stores deep copies of its default values, so no array and no dict that
they lead to is shared with another closure. A copy that is bound to a class stores
the values of the closure itself. Apart from that, two closures come to share an array
or a dict only when something that one leads to is stored in what the other leads to.
-/

set_option autoImplicit false

namespace ScriptMachine

namespace Heap

variable {l : Law} {own own' : Multiset Value} {h h' : Heap} {bridging : Prop}
variable {c d r x : Ref} {f g : ClosureObject} {v : Value}

/-! ## What default values lead to -/

/-- An array or a dict that the default values of a closure lead to. -/
def DefaultReaches (h : Heap) (f : ClosureObject) (x : Ref) : Prop :=
  ∃ v ∈ f.defaults, h.Reaches v x

/-- The closures are the same, or copies of one of which some are bound to a class. -/
structure Kin (c : Ref) (f : ClosureObject) (d : Ref) (g : ClosureObject) : Prop where
  defaults : f.defaults = g.defaults
  bound : c = d ∨ f.owner ≠ none ∨ g.owner ≠ none

/-- Only kindred closures lead to an array or a dict in common. -/
def Private (h : Heap) : Prop :=
  ∀ c d f g x, h.closure? c = some f → h.closure? d = some g → h.DefaultReaches f x →
    h.DefaultReaches g x → Kin c f d g

/-- A closure leads to the array or dict, and the value leads to what a closure leads
to that is not kindred. -/
def Bridges (h : Heap) (r : Ref) (v : Value) : Prop :=
  ∃ c d f g x, h.closure? c = some f ∧ h.closure? d = some g ∧ ¬ Kin c f d g ∧
    h.DefaultReaches f r ∧ h.Reaches v x ∧ h.DefaultReaches g x

/-- Default values lead to nothing that is still to be made. -/
def Settled (h : Heap) : Prop :=
  ∀ c f x, h.closure? c = some f → h.DefaultReaches f x → x.id < h.cells.size

/-- What the operations on a heap keep, as long as they do not bridge. -/
structure Apart (h : Heap) : Prop where
  kin : h.Private
  settled : h.Settled

theorem Backs.settled (hb : h.Backs l own) : h.Settled := by
  rintro c f x hc ⟨v, hv, hx⟩
  refine hb.reaches_lt (hb.has_of_body (closure?_eq_some.1 hc) ?_) hx
  simp [Body.values, hv]

/-! ## What operations let default values lead to -/

/-- Whatever a closure leads to after something was stored, it led to before, or it led
to where the value was stored. -/
theorem Gains.defaultReaches (hg : StoresIn r v h h') (hs : h.Settled)
    (hv : ∀ y, h.Reaches v y → y.id < h.cells.size) (hc : h.closure? c = some f)
    (hx : h'.DefaultReaches f x) :
    h.DefaultReaches f x ∨ h.DefaultReaches f r ∧ h.Reaches v x := by
  obtain ⟨u, hu, y, hy, hpath⟩ := hx
  induction hpath with
  | refl => exact .inl ⟨u, hu, .self hy⟩
  | @tail a b _ hab ih =>
    have hlt : a.id < h.cells.size := ih.elim (hs c f a hc) fun ih => hv a ih.2
    rcases hg.holds a b hlt hab with hold | ⟨rfl, hb⟩
    · exact ih.imp (fun ⟨w, hw, ha⟩ => ⟨w, hw, ha.held hold⟩) fun ih => ⟨ih.1, ih.2.held hold⟩
    · exact .inr ⟨ih.elim id And.left, .self hb⟩

theorem Calm.defaultReaches (hcalm : Calm h h') (hs : h.Settled) (hc : h.closure? c = some f)
    (hx : h'.DefaultReaches f x) : h.DefaultReaches f x := by
  obtain ⟨u, hu, y, hy, hpath⟩ := hx
  induction hpath with
  | refl => exact ⟨u, hu, .self hy⟩
  | tail _ hab ih =>
    obtain ⟨w, hw, ha⟩ := ih
    exact ⟨w, hw, ha.held (hcalm.holds_older (hs c f _ hc ⟨w, hw, ha⟩) hab)⟩

namespace Private

theorem of_calm (hp : h.Private) (hs : h.Settled) (hcalm : Calm h h') : h'.Private := by
  intro c d f g x hc hd hf hg
  have hc' := hcalm.closures c f hc
  have hd' := hcalm.closures d g hd
  exact hp c d f g x hc' hd' (hcalm.defaultReaches hs hc' hf) (hcalm.defaultReaches hs hd' hg)

theorem store (hp : h.Private) (hs : h.Settled) (hg : StoresIn r v h h')
    (hv : ∀ y, h.Reaches v y → y.id < h.cells.size) (hbridge : ¬ h.Bridges r v) : h'.Private := by
  intro c d f g x hc hd hf hg'
  have hc' := hg.closures c f hc
  have hd' := hg.closures d g hd
  by_contra hkin
  have hkin' : ¬ Kin d g c f := fun hk => hkin ⟨hk.defaults.symm, hk.bound.imp Eq.symm Or.symm⟩
  rcases hg.defaultReaches hs hv hc' hf with hfx | ⟨hfr, hvx⟩
  · rcases hg.defaultReaches hs hv hd' hg' with hgx | ⟨hgr, hvx⟩
    · exact hkin (hp c d f g x hc' hd' hfx hgx)
    · exact hbridge ⟨d, c, g, f, x, hd', hc', hkin', hgr, hvx, hfx⟩
  · rcases hg.defaultReaches hs hv hd' hg' with hgx | ⟨hgr, -⟩
    · exact hbridge ⟨c, d, f, g, x, hc', hd', hkin, hfr, hvx, hgx⟩
    · exact hkin (hp c d f g r hc' hd' hfr hgr)

end Private

theorem Settled.of_calm (hs : h.Settled) (hcalm : Calm h h') : h'.Settled := by
  intro c f x hc hx
  have hc' := hcalm.closures c f hc
  exact Nat.lt_of_lt_of_le (hs c f x hc' (hcalm.defaultReaches hs hc' hx)) hcalm.size

/-! ## New closures -/

/-- What is found in a heap after a closure was added to it. -/
theorem closure?_allocateLinked (h : Heap) (f g : ClosureObject) (d : Ref) :
    (h.allocateLinked (.closure f)).2.closure? d = some g ↔
      if d = (h.allocateLinked (.closure f)).1 then f = g else h.closure? d = some g := by
  rw [closure?_eq_some, body?_allocateLinked]
  split
  · simp
  · rw [closure?_eq_some]

theorem closure?_allocated (h : Heap) (f : ClosureObject) :
    (h.allocateLinked (.closure f)).2.closure? (h.allocateLinked (.closure f)).1 = some f :=
  (closure?_allocateLinked h f f _).2 (by rw [if_pos rfl])

theorem holds_allocateLinked (h : Heap) (f : ClosureObject) (x y : Ref) :
    (h.allocateLinked (.closure f)).2.Holds x y ↔ h.Holds x y := by
  unfold Holds
  simp only [body?_allocateLinked]
  split
  · rename_i hx
    constructor
    · rintro ⟨b, v, hb, hv, -⟩
      cases hb
      cases hv
    · rintro ⟨b, v, hb, -, -⟩
      have := body?_lt hb
      rw [hx] at this
      exact absurd this (Nat.lt_irrefl _)
  · rfl

theorem defaultReaches_allocateLinked (h : Heap) (f g : ClosureObject) (x : Ref) :
    (h.allocateLinked (.closure f)).2.DefaultReaches g x ↔ h.DefaultReaches g x := by
  have hsame : (h.allocateLinked (.closure f)).2.Holds = h.Holds := by
    funext x y
    exact propext (holds_allocateLinked h f x y)
  simp only [DefaultReaches, Reaches, hsame]

/-- A closure may be added when every closure that leads to what it leads to is kindred. -/
theorem Private.allocateClosure (hp : h.Private)
    (hkin : ∀ d g x, h.closure? d = some g → h.DefaultReaches f x → h.DefaultReaches g x →
      f.defaults = g.defaults ∧ f.owner ≠ none) :
    (h.allocateLinked (.closure f)).2.Private := by
  intro c d f' g' x hc hd hf' hg'
  rw [closure?_allocateLinked] at hc hd
  rw [defaultReaches_allocateLinked] at hf' hg'
  split at hc <;> split at hd
  · rename_i hc' hd'
    exact ⟨hc ▸ hd ▸ rfl, .inl (hc'.trans hd'.symm)⟩
  · subst hc
    obtain ⟨hsame, howner⟩ := hkin d g' x hd hf' hg'
    exact ⟨hsame, .inr (.inl howner)⟩
  · subst hd
    obtain ⟨hsame, howner⟩ := hkin c f' x hc hg' hf'
    exact ⟨hsame.symm, .inr (.inr howner)⟩
  · exact hp c d f' g' x hc hd hf' hg'

theorem Settled.allocateClosure (hs : h.Settled)
    (hf : ∀ x, h.DefaultReaches f x → x.id < h.cells.size) :
    (h.allocateLinked (.closure f)).2.Settled := by
  intro d g x hd hx
  rw [closure?_allocateLinked] at hd
  rw [defaultReaches_allocateLinked] at hx
  rw [(grows_allocateLinked h _).size]
  refine Nat.lt_succ_of_lt ?_
  split at hd
  · subst hd
    exact hf x hx
  · exact hs d g x hd hx

/-- What a closure of copied default values leads to is all new. -/
theorem Adds.defaultReaches_new {h₀ : Heap} (ha : Adds h₀ h)
    (hnew : ∀ w ∈ f.defaults, ∀ y, w.container? = some y → h₀.cells.size ≤ y.id)
    (hx : h.DefaultReaches f x) : h₀.cells.size ≤ x.id := by
  obtain ⟨w, hw, hx⟩ := hx
  exact ha.reaches_new (hnew w hw) hx

/-! ## Adopting methods -/

namespace Apart

theorem of_calm (ha : h.Apart) (hcalm : Calm h h') : h'.Apart :=
  ⟨ha.kin.of_calm ha.settled hcalm, ha.settled.of_calm hcalm⟩

/-- A closure of copied default values leads only to what is new. -/
theorem instantiate (ha : h.Apart) (hb : h.Backs l own) {vs : List Value}
    (hvs : ∀ v ∈ vs, h.Has v) (p : Prototype) (outers : List Ref) :
    ((h.deepCopyAll vs).2.newClosure p outers (h.deepCopyAll vs).1).2.Apart := by
  obtain ⟨hadds, hnew⟩ := hb.adds_deepCopyAll hvs
  have hcopies := (hb.deepCopyAll hvs).1.backs
  have ha' := ha.of_calm hadds.calm
  constructor
  · refine ha'.kin.allocateClosure fun d g x hd hf hg => ?_
    have hd' := hadds.calm.closures d g hd
    have hlt := ha.settled d g x hd' (hadds.calm.defaultReaches ha.settled hd' hg)
    exact absurd (hadds.defaultReaches_new hnew hf) (Nat.not_le.2 hlt)
  · refine ha'.settled.allocateClosure fun x hx => ?_
    obtain ⟨w, hw, hx⟩ := hx
    exact hcopies.reaches_lt (hcopies.has (Multiset.mem_add.2 (.inl hw))) hx

/-- A copy that is bound to a class is kindred to all that its original is kindred to. -/
theorem bindTo (ha : h.Apart) (hc : h.closure? c = some f) (owner : Ref) :
    (h.bindTo f owner).2.Apart := by
  have hcalm : Calm h (h.retainRefs (Body.closure { f with owner := some owner }).refs) :=
    .retainRefs h _
  have hlive : (h.retainRefs (Body.closure { f with owner := some owner }).refs).closure? c =
      some f := by
    rw [closure?_eq_some, body?_retainRefs]
    exact closure?_eq_some.1 hc
  have ha' := ha.of_calm hcalm
  constructor
  · refine ha'.kin.allocateClosure fun d g x hd hf hg => ⟨?_, Option.some_ne_none owner⟩
    exact (ha'.kin c d f g x hlive hd hf hg).defaults
  · exact ha'.settled.allocateClosure fun x hx => ha'.settled c f x hlive hx

theorem asMethod (ha : h.Apart) (r : Ref) (k : ClassObject) (name : String) (v : Value) :
    (h.asMethod r k name v).2.Apart := by
  unfold Heap.asMethod
  cases v with
  | closure c =>
    dsimp only
    split
    · split
      · exact ha
      · rename_i f hf _
        show ((h.bindTo f r).2.release (.closure c)).Apart
        exact (ha.bindTo hf r).of_calm (.release _ _)
    · exact ha
  | _ => exact ha

theorem replaceEntry (ha : h.Apart) (r : Ref) (k : ClassObject) (m : Member) (v : Value) :
    (h.replaceEntry r k m v).Apart :=
  (ha.of_calm (.modifyClass h r _)).of_calm (.release _ _)

theorem classNewSlot (ha : h.Apart) (r : Ref) (key : Text) (v : Value) (isStatic : Bool) :
    (h.classNewSlot r key v isStatic).2.Apart := by
  have hrefuse : ((h.release v).releaseRef key.ref).Apart :=
    (ha.of_calm (.release h v)).of_calm (.releaseRef _ _)
  unfold Heap.classNewSlot
  cases h.class? r with
  | none => exact hrefuse
  | some k =>
    dsimp only
    split
    · exact hrefuse
    · split
      · exact (ha.replaceEntry r k _ v).of_calm (.releaseRef _ _)
      · split
        · exact hrefuse
        · split
          · refine Apart.of_calm ?_ (.modifyClass _ r _)
            split
            · exact ha
            · exact ha.of_calm (.retainRef h _)
          · split
            · exact ((ha.of_calm (.modifyClass h r _)).of_calm (.release _ _)).of_calm
                (.releaseRef _ _)
            · have hm := ha.asMethod r k key.chars v
              split
              · exact (hm.replaceEntry r k _ _).of_calm (.releaseRef _ _)
              · exact (hm.of_calm (.retainRef _ _)).of_calm (.modifyClass _ r _)

end Apart

/-! ## Histories -/

/-- One use of a heap: a closure is made with copies of its default values or bound to
a class, also by a class that adopts it, something is stored in an array or a dict, or
nothing comes to hold more than it did. Stores bridge only when that is allowed. -/
inductive DefaultsStep (l : Law) (bridging : Prop) :
    Heap × Multiset Value → Heap × Multiset Value → Prop
  | instantiate {h : Heap} {own : Multiset Value} (p : Prototype) (outers : List Ref)
    (vs : List Value) : (∀ v ∈ vs, h.Has v) → l.closure p outers.length →
    DefaultsStep l bridging (h, (outers.map Value.outer : Multiset Value) + own)
      (((h.deepCopyAll vs).2.newClosure p outers (h.deepCopyAll vs).1).2,
        .closure ((h.deepCopyAll vs).2.newClosure p outers (h.deepCopyAll vs).1).1 ::ₘ own)
  | bind {h : Heap} {own : Multiset Value} (c owner : Ref) (f : ClosureObject) :
    h.closure? c = some f → h.Has (.classObject owner) →
    DefaultsStep l bridging (h, own) ((h.bindTo f owner).2, .closure (h.bindTo f owner).1 ::ₘ own)
  | adopt {h : Heap} {own : Multiset Value} (r : Ref) (key : Text) (v : Value) (isStatic : Bool) :
    .classObject r ∈ own →
    DefaultsStep l bridging (h, v ::ₘ .string key ::ₘ own) ((h.classNewSlot r key v isStatic).2, own)
  | push {h : Heap} {own : Multiset Value} (r : Ref) (v : Value) : (h.Bridges r v → bridging) →
    DefaultsStep l bridging (h, v ::ₘ own) (h.pushItem r v, own)
  | setItem {h : Heap} {own : Multiset Value} (r : Ref) (index : Int64) (v : Value) :
    (h.Bridges r v → bridging) →
    DefaultsStep l bridging (h, v ::ₘ own) ((h.setItem r index v).2, own)
  | insert {h : Heap} {own : Multiset Value} (r : Ref) (key : Text) (v : Value) :
    h.Has (.dict r) → (h.Bridges r v → bridging) →
    DefaultsStep l bridging (h, .string key ::ₘ v ::ₘ own) (h.dictInsert r key v, own)
  | setKey {h : Heap} {own : Multiset Value} (r : Ref) (key : String) (v : Value) :
    (h.Bridges r v → bridging) →
    DefaultsStep l bridging (h, v ::ₘ own) ((h.dictSet r key v).2, own)
  | elsewhere {h h' : Heap} {own own' : Multiset Value} : Moves l own' h h' → Calm h h' →
    DefaultsStep l bridging (h, own) (h', own')

abbrev DefaultsRun (l : Law) (bridging : Prop) :
    Heap × Multiset Value → Heap × Multiset Value → Prop :=
  Relation.ReflTransGen (DefaultsStep l bridging)

theorem Apart.store (ha : h.Apart) (hb : h.Backs l own) (hv : v ∈ own) (hg : StoresIn r v h h')
    (hb' : h'.Backs l own') (hbridge : h.Bridges r v → bridging) (hnever : ¬ bridging) : h'.Apart :=
  ⟨ha.kin.store ha.settled hg (fun _ => hb.reaches_lt (hb.has hv)) fun hb => hnever (hbridge hb),
    hb'.settled⟩

theorem DefaultsStep.spec {s t : Heap × Multiset Value} (hb : s.1.Backs l s.2)
    (hst : DefaultsStep l bridging s t) :
    t.1.Backs l t.2 ∧ (¬ bridging → s.1.Apart → t.1.Apart) := by
  cases hst with dsimp only at hb ⊢
  | @instantiate h own p outers vs hvs hp =>
    have hcopies := (hb.deepCopyAll hvs).1.backs
    have howned : (((h.deepCopyAll vs).1 : Multiset Value) +
        ((outers.map Value.outer : Multiset Value) + own)) =
        (outers.map Value.outer ++ (h.deepCopyAll vs).1 : List Value) + own := by
      rw [← Multiset.coe_add]
      ac_rfl
    rw [howned] at hcopies
    exact ⟨(hcopies.newClosure hp).backs, fun _ ha => ha.instantiate hb hvs p outers⟩
  | bind c owner f hc ho => exact ⟨(hb.bindTo hc ho).backs, fun _ ha => ha.bindTo hc owner⟩
  | adopt r key v isStatic hr =>
    exact ⟨(hb.classNewSlot hr).backs, fun _ ha => ha.classNewSlot r key v isStatic⟩
  | push r v hbridge =>
    have hb' := hb.pushItem (r := r).backs
    exact ⟨hb', fun hnever ha =>
      ha.store hb (Multiset.mem_cons_self _ _) (.pushItem _ r v) hb' hbridge hnever⟩
  | setItem r index v hbridge =>
    have hb' := hb.setItem (r := r) (i := index).backs
    exact ⟨hb', fun hnever ha =>
      ha.store hb (Multiset.mem_cons_self _ _) (.setItem _ r index v) hb' hbridge hnever⟩
  | insert r key v hr hbridge =>
    have hb' := (hb.dictInsert hr).backs
    exact ⟨hb', fun hnever ha =>
      ha.store hb (by simp) (.dictInsert _ r key v hr) hb' hbridge hnever⟩
  | setKey r key v hbridge =>
    have hb' : (Heap.dictSet _ r key v).2.Backs l _ := hb.dictSet.backs
    exact ⟨hb', fun hnever ha =>
      ha.store hb (Multiset.mem_cons_self _ _) (.dictSet _ r key v) hb' hbridge hnever⟩
  | elsewhere hm hcalm => exact ⟨hm.backs, fun _ ha => ha.of_calm hcalm⟩

theorem DefaultsRun.spec {s t : Heap × Multiset Value} (hb : s.1.Backs l s.2)
    (hrun : DefaultsRun l bridging s t) :
    t.1.Backs l t.2 ∧ (¬ bridging → s.1.Apart → t.1.Apart) := by
  induction hrun with
  | refl => exact ⟨hb, fun _ => id⟩
  | tail _ hstep ih =>
    obtain ⟨hb', hstays⟩ := hstep.spec ih.1
    exact ⟨hb', fun hnever ha => hstays hnever (ih.2 hnever ha)⟩

/-- Without a store that bridges, only kindred closures lead to an array or a dict in
common, and writing into what one leads to leaves alone what those lead to that are not
kindred. Whatever was stored before, a new closure leads only to what was made with it,
and a copy that is bound to a class leads to all that its original leads to. -/
theorem default_values_private {h₀ : Heap} {own₀ : Multiset Value} (hb : h₀.Backs l own₀)
    (hnone : ∀ r b, h₀.body? r = some b → b.kind ≠ .closure)
    (hrun : DefaultsRun l bridging (h₀, own₀) (h, own)) :
    (¬ bridging → h.Private ∧
      ∀ c d f g r x φ, h.closure? c = some f → h.closure? d = some g → ¬ Kin c f d g →
        h.DefaultReaches f r → h.DefaultReaches g x → (h.modifyBody r φ).body? x = h.body? x) ∧
    (∀ p outers vs, (∀ v ∈ vs, h.Has v) → ∃ f,
      ((h.deepCopyAll vs).2.newClosure p outers (h.deepCopyAll vs).1).2.closure?
        ((h.deepCopyAll vs).2.newClosure p outers (h.deepCopyAll vs).1).1 = some f ∧
      ∀ x, ((h.deepCopyAll vs).2.newClosure p outers (h.deepCopyAll vs).1).2.DefaultReaches f x →
        h.cells.size ≤ x.id) ∧
    (∀ c f owner, h.closure? c = some f → ∃ g,
      (h.bindTo f owner).2.closure? (h.bindTo f owner).1 = some g ∧
      ∀ x, h.DefaultReaches f x → (h.bindTo f owner).2.DefaultReaches g x) := by
  obtain ⟨hbacks, hstays⟩ := hrun.spec hb
  dsimp only at hbacks hstays
  have hapart₀ : h₀.Apart := by
    have hfree : ∀ c f, h₀.closure? c ≠ some f := fun c f hc =>
      hnone c _ (closure?_eq_some.1 hc) rfl
    exact ⟨fun c _ f _ _ hc => absurd hc (hfree c f), fun c f _ hc => absurd hc (hfree c f)⟩
  refine ⟨fun hnever => ?_, fun p outers vs hvs => ?_, fun c f owner hc => ?_⟩
  · have ha := hstays hnever hapart₀
    refine ⟨ha.kin, fun c d f g r x φ hc hd hkin hr hx => ?_⟩
    have hne : x ≠ r := fun heq => hkin (ha.kin c d f g r hc hd hr (heq ▸ hx))
    cases hbody : h.body? r with
    | none => rw [modifyBody_same fun b hb => absurd (hbody.symm.trans hb) (by simp)]
    | some b => rw [modifyBody_eq hbody, body?_setBody hbody, if_neg hne]
  · obtain ⟨ha, hnew⟩ := hbacks.adds_deepCopyAll hvs
    refine ⟨_, closure?_allocated _ _, fun x hx => ?_⟩
    exact ha.defaultReaches_new hnew ((defaultReaches_allocateLinked _ _ _ _).1 hx)
  · refine ⟨_, closure?_allocated _ _, fun x hx => ?_⟩
    refine (defaultReaches_allocateLinked _ _ _ _).2 ?_
    have hsame : (h.retainRefs (Body.closure { f with owner := some owner }).refs).Holds =
        h.Holds := by
      funext a b
      simp only [Holds, body?_retainRefs]
    obtain ⟨v, hv, y, hy, hpath⟩ := hx
    exact ⟨v, hv, y, hy, by rw [hsame]; exact hpath⟩

/-! ### Closures with an empty array for a default value -/

def emptyArray : Value × Heap := ({} : Heap).newArray #[]

/-- A closure whose default value is a copy of the array. -/
def withDefault (h : Heap) : Ref × Heap :=
  (h.deepCopyAll [emptyArray.1]).2.newClosure { name := "f" } [] (h.deepCopyAll [emptyArray.1]).1

def firstClosure : Ref × Heap := withDefault emptyArray.2

def secondClosure : Ref × Heap := withDefault firstClosure.2

theorem DefaultsStep.withDefault (hp : ∀ p n, l.closure p n) (hv : h.Has emptyArray.1) :
    DefaultsStep l bridging (h, own) ((withDefault h).2, .closure (withDefault h).1 ::ₘ own) := by
  have hstep : DefaultsStep l bridging (h, (([] : List Ref).map Value.outer : Multiset Value) + own)
      ((Heap.withDefault h).2, .closure (Heap.withDefault h).1 ::ₘ own) :=
    .instantiate _ [] [emptyArray.1] (by simpa using hv) (hp _ _)
  simpa using hstep

theorem firstClosure_run (hp : ∀ p n, l.closure p n) :
    DefaultsRun l bridging ({}, 0)
      (firstClosure.2, .closure firstClosure.1 ::ₘ emptyArray.1 ::ₘ 0) := by
  have hm : Moves l (emptyArray.1 ::ₘ 0) {} emptyArray.2 :=
    Backs.newArray (by simpa using Backs.empty l {})
  have harray : DefaultsStep l bridging ({}, 0) (emptyArray.2, emptyArray.1 ::ₘ 0) :=
    .elsewhere hm (.allocateLinked _ Kind.noConfusion)
  exact (Relation.ReflTransGen.single harray).tail
    (.withDefault hp (hm.backs.has (Multiset.mem_cons_self _ _)))

theorem secondClosure_run (hp : ∀ p n, l.closure p n) :
    DefaultsRun l bridging ({}, 0)
      (secondClosure.2, .closure secondClosure.1 ::ₘ .closure firstClosure.1 ::ₘ emptyArray.1 ::ₘ 0) := by
  have hrun : DefaultsRun l bridging ({}, 0) (firstClosure.2, _) := firstClosure_run hp
  have hb : firstClosure.2.Backs l (.closure firstClosure.1 ::ₘ emptyArray.1 ::ₘ 0) :=
    (hrun.spec (Backs.empty l {})).1
  exact hrun.tail (.withDefault hp (hb.has (by simp)))

/-- What is pushed to the default value of the one is not in that of the other. -/
theorem default_values_private_secondClosure :
    ∃ f g, secondClosure.2.closure? firstClosure.1 = some f ∧
      secondClosure.2.closure? secondClosure.1 = some g ∧ f.defaults = [.array ⟨1⟩] ∧
      g.defaults = [.array ⟨3⟩] ∧
      (secondClosure.2.pushItem ⟨1⟩ (.integer 1)).body? ⟨3⟩ = secondClosure.2.body? ⟨3⟩ := by
  let l : Law := ⟨fun _ _ => True, fun _ => True⟩
  have hrun : DefaultsRun l False ({}, 0) (secondClosure.2, _) :=
    secondClosure_run fun _ _ => trivial
  have hprivate := (default_values_private (Backs.empty l {}) (fun r b hb => by cases hb) hrun).1 id
  refine ⟨_, _, rfl, rfl, rfl, rfl, ?_⟩
  refine hprivate.2 firstClosure.1 secondClosure.1 _ _ _ _ _ rfl rfl (fun hkin => ?_)
    ⟨.array ⟨1⟩, List.mem_singleton_self _, .self rfl⟩
    ⟨.array ⟨3⟩, List.mem_singleton_self _, .self rfl⟩
  have := hkin.defaults
  cases this

def methodClass : Ref × Heap := firstClosure.2.newClass none "init"

def methodName : Text × Heap := methodClass.2.allocateText "m"

/-- A class that has adopted the closure. -/
def adopted : Heap :=
  ((methodName.2.retain (.closure firstClosure.1)).classNewSlot methodClass.1 methodName.1
    (.closure firstClosure.1) false).2

/-- The arrays and dicts that are default values of a closure. -/
def defaultContainers (h : Heap) (c : Ref) : Option (List Ref) :=
  (h.closure? c).map fun (f : ClosureObject) => f.defaults.filterMap Value.container?

theorem defaultReaches_of_containers (hc : h.defaultContainers c = some [x]) :
    ∃ f, h.closure? c = some f ∧ h.DefaultReaches f x := by
  obtain ⟨f, hf, hx⟩ := Option.map_eq_some_iff.1 hc
  have hmem : x ∈ f.defaults.filterMap Value.container? := by
    rw [hx]
    exact List.mem_singleton_self x
  obtain ⟨v, hv, hvx⟩ := List.mem_filterMap.1 hmem
  exact ⟨f, hf, v, hv, .self hvx⟩

/-- The closure and the method that the class made of it have the same array for their
default value, so a call of the one finds what a call of the other has put there. -/
theorem adopted_shares_defaults :
    ((adopted.class? methodClass.1).bind fun (c : ClassObject) => c.method? "m").bind Value.ref? =
        some ⟨5⟩ ∧ firstClosure.1 ≠ ⟨5⟩ ∧
      ∃ f g, adopted.closure? firstClosure.1 = some f ∧ adopted.closure? ⟨5⟩ = some g ∧
        adopted.DefaultReaches f ⟨1⟩ ∧ adopted.DefaultReaches g ⟨1⟩ := by
  obtain ⟨f, hf, hfx⟩ := defaultReaches_of_containers (h := adopted) (c := firstClosure.1)
    (x := ⟨1⟩) (by decide +kernel)
  obtain ⟨g, hg, hgx⟩ := defaultReaches_of_containers (h := adopted) (c := ⟨5⟩) (x := ⟨1⟩)
    (by decide +kernel)
  exact ⟨by decide +kernel, by decide, f, g, hf, hg, hfx, hgx⟩

end Heap

end ScriptMachine
