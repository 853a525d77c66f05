import ScriptMachine.Proofs.Heap.Collection
import ScriptMachine.Proofs.Heap.Kinds

/-!
# What a heap owes to the outside

A heap backs the values that someone outside owns when every reference among
them is counted and every value, there or in the heap, names an object of its
kind. Each operation moves ownership: what it stores it takes, what it hands out
it gives.
-/

set_option autoImplicit false

namespace ScriptMachine

/-- What is required of the functions of a heap. -/
structure Law where
  /-- Of a script function, with the number of variables it has captured. -/
  closure : Prototype → Nat → Prop
  native : NativeObject → Prop

def Law.Admits (l : Law) : Body → Prop
  | .closure c => l.closure c.prototype c.outers.length
  | .native n => l.native n
  | _ => True

theorem Law.Admits.later {l : Law} {a b : Body} (ha : l.Admits a) (h : a.Later b) : l.Admits b := by
  cases h <;> exact ha

namespace Heap

/-- Each object has at least the references that the values owned outside make,
and values fit the objects they name. -/
structure Backs (l : Law) (own : Multiset Value) (h : Heap) : Prop where
  sound : ∃ out, h.Sound out ∧ ∀ r, refCount own r ≤ out r
  fits : ∀ v ∈ own, h.Fits v
  bodies : ∀ r b, h.body? r = some b → (∀ v ∈ b.mentions, h.Fits v) ∧ l.Admits b
  handles : ∀ r c w, h.cell? r = some c → c.handle = some w → h.Fits (.weak w)

/-- The second heap follows from the first and backs what is owned by then. -/
structure Moves (l : Law) (own : Multiset Value) (h h' : Heap) : Prop where
  backs : h'.Backs l own
  evolves : Evolves h h'

variable {l : Law} {own own' : Multiset Value} {h h' h'' : Heap}

theorem Moves.trans (h1 : Moves l own h h') (h2 : Moves l own' h' h'') : Moves l own' h h'' :=
  ⟨h2.backs, h1.evolves.trans h2.evolves⟩

namespace Backs

theorem mono (hb : h.Backs l own) (hle : own' ≤ own) : h.Backs l own' where
  sound := by
    obtain ⟨out, hs, ho⟩ := hb.sound
    exact ⟨out, hs, fun r => Nat.le_trans (refCount_mono hle r) (ho r)⟩
  fits := fun v hv => hb.fits v (Multiset.mem_of_le hle hv)
  bodies := hb.bodies
  handles := hb.handles

theorem stay (hb : h.Backs l own) : Moves l own h h := ⟨hb, .refl h⟩

theorem has (hb : h.Backs l own) {v : Value} (hv : v ∈ own) : h.Has v := by
  intro r hr
  obtain ⟨out, hs, ho⟩ := hb.sound
  obtain ⟨c, hc⟩ := hs.alive_of_out (Nat.lt_of_lt_of_le (refCount_pos hv hr) (ho r))
  exact ⟨c.body, body?_of_cell? hc, (hb.fits v hv r hr).2 _ (body?_of_cell? hc)⟩

theorem has_of_body (hb : h.Backs l own) {r : Ref} {b : Body} (hr : h.body? r = some b) {v : Value}
    (hv : v ∈ b.values) : h.Has v := by
  intro s hs
  obtain ⟨out, hsound, -⟩ := hb.sound
  obtain ⟨c, hc, rfl⟩ := cell?_of_body? hr
  have hm : s ∈ h.refsOf r := by
    rw [refsOf_of_cell? hc, Cell.refs, ← Body.valueRefs_values]
    exact List.mem_append_right _ (List.mem_filterMap.2 ⟨v, hv, hs⟩)
  obtain ⟨d, hd⟩ := hsound.alive_of_held hm
  exact ⟨d.body, body?_of_cell? hd,
    ((hb.bodies r _ hr).1 v (Body.values_subset_mentions _ hv) s hs).2 _ (body?_of_cell? hd)⟩

/-- What is new in a later heap must fit and obey the law. -/
theorem renew (hb : h.Backs l own) {out : Ref → Nat} (hf : ∀ v, h.Fits v → h'.Fits v)
    (hs : h'.Sound out) (hout : ∀ r, refCount own' r ≤ out r) (hfits : ∀ v ∈ own', h'.Fits v)
    (hbodies : ∀ r b, h'.body? r = some b →
      h.body? r = some b ∨ (∀ v ∈ b.mentions, h'.Fits v) ∧ l.Admits b)
    (hhandles : ∀ r c' w, h'.cell? r = some c' → c'.handle = some w →
      (∃ c, h.cell? r = some c ∧ c.handle = some w) ∨ h'.Fits (.weak w)) : h'.Backs l own' := by
  refine ⟨⟨out, hs, hout⟩, hfits, ?_, ?_⟩
  · intro r b hr
    rcases hbodies r b hr with hr0 | hnew
    · exact ⟨fun v hv => hf v ((hb.bodies r b hr0).1 v hv), (hb.bodies r b hr0).2⟩
    · exact hnew
  · intro r c' w hc' hw
    rcases hhandles r c' w hc' hw with ⟨c, hc, hcw⟩ | hnew
    · exact hf _ (hb.handles r c w hc hcw)
    · exact hnew

/-! ## Sharing and letting go -/

theorem trims (hb : h.Backs l own) {out : Ref → Nat} (ht : Trims h h') (hs : h'.Sound out)
    (hout : ∀ r, refCount own' r ≤ out r) (hown : ∀ v ∈ own', v ∈ own) : Moves l own' h h' := by
  have he := Evolves.of_trims ht
  refine ⟨hb.renew (fun _ => he.fits) hs hout (fun v hv => he.fits (hb.fits v (hown v hv)))
    (fun r b hr => .inl (ht.body? hr)) fun r c' w hc' hw => .inl ?_, he⟩
  obtain ⟨c, hc, -, -, hh⟩ := ht.cell r c' hc'
  exact ⟨c, hc, hh ▸ hw⟩

theorem releaseRefs {vs : List Value} (hb : h.Backs l (vs + own)) :
    Moves l own h (h.releaseRefs (Body.valueRefs vs)) := by
  obtain ⟨out, hs, ho⟩ := hb.sound
  have hle : ∀ r, refCount own r + (Body.valueRefs vs).count r ≤ out r := by
    intro r
    have := ho r
    rw [refCount_add, refCount_coe] at this
    omega
  have hs' : h.Sound fun r => (out r - (Body.valueRefs vs).count r) + (Body.valueRefs vs).count r :=
    hs.congr fun r => by have := hle r; omega
  exact hb.trims (trims_releaseRefs _ _) hs'.releaseRefs (fun r => by have := hle r; omega)
    fun v hv => Multiset.mem_add.2 (.inr hv)

theorem release {v : Value} (hb : h.Backs l (v ::ₘ own)) : Moves l own h (h.release v) := by
  have hb' : h.Backs l (([v] : List Value) + own) := by simpa using hb
  have hm := hb'.releaseRefs
  cases hr : v.ref? with
  | none => simpa [Heap.release, hr, Body.valueRefs] using hm
  | some r => simpa [Heap.release, Heap.releaseRef, hr, Body.valueRefs] using hm

theorem releaseRef {v : Value} {r : Ref} (hb : h.Backs l (v ::ₘ own)) (hr : v.ref? = some r) :
    Moves l own h (h.releaseRef r) := by
  have := hb.release
  rwa [Heap.release, hr] at this

theorem releaseAll {vs : List Value} (hb : h.Backs l (vs + own)) :
    Moves l own h (h.releaseAll vs) := by
  induction vs generalizing h with
  | nil => exact (hb.mono (by simp)).stay
  | cons v vs ih =>
    have hv : h.Backs l (v ::ₘ (vs + own)) := by rwa [coe_cons_add] at hb
    exact hv.release.trans (ih hv.release.backs)

theorem retainRef {v : Value} {r : Ref} (hb : h.Backs l own) (hv : h.Has v) (hr : v.ref? = some r) :
    Moves l (v ::ₘ own) h (h.retainRef r) := by
  obtain ⟨b, hbr, -⟩ := hv r hr
  obtain ⟨c, hc, -⟩ := cell?_of_body? hbr
  obtain ⟨out, hs, ho⟩ := hb.sound
  have ht : Trims h (h.retainRef r) := by
    refine ⟨size_modifyCell .., fun s c' hs => ?_⟩
    simp only [Heap.retainRef, cell?_modifyCell] at hs
    split at hs
    · rename_i heq
      rw [hc, Option.map_some, Option.some.injEq] at hs
      subst hs heq
      exact ⟨c, hc, rfl, rfl, rfl⟩
    · exact ⟨c', hs, rfl, rfl, rfl⟩
  have he := Evolves.of_trims ht
  refine ⟨hb.renew (fun _ => he.fits) (hs.retainRef hc) (fun s => ?_) (fun w hw => he.fits ?_)
    (fun s d hd => .inl (ht.body? hd)) fun s c' w hc' hw => .inl ?_, he⟩
  · rw [refCount_cons, refCount_some hr]
    have := ho s
    omega
  · rcases Multiset.mem_cons.1 hw with rfl | hw
    · exact hv.fits
    · exact hb.fits w hw
  · obtain ⟨d, hd, -, -, hh⟩ := ht.cell s c' hc'
    exact ⟨d, hd, hh ▸ hw⟩

theorem own_plain (hb : h.Backs l own) {v : Value} (hr : v.ref? = none) : h.Backs l (v ::ₘ own) where
  sound := by
    obtain ⟨out, hs, ho⟩ := hb.sound
    exact ⟨out, hs, fun r => by rw [refCount_cons, refCount_none hr]; have := ho r; omega⟩
  fits := by
    intro w hw
    rcases Multiset.mem_cons.1 hw with rfl | hw
    · exact (has_of_none hr).fits
    · exact hb.fits w hw
  bodies := hb.bodies
  handles := hb.handles

theorem retain {v : Value} (hb : h.Backs l own) (hv : h.Has v) :
    Moves l (v ::ₘ own) h (h.retain v) := by
  cases hr : v.ref? with
  | none =>
    rw [Heap.retain, hr]
    exact (hb.own_plain hr).stay
  | some r =>
    rw [Heap.retain, hr]
    exact hb.retainRef hv hr

/-- What lives still does after something was shared. -/
theorem has_retain {v w : Value} (hv : h.Has v) : (h.retain w).Has v := by
  intro r hr
  obtain ⟨b, hb, hk⟩ := hv r hr
  refine ⟨b, ?_, hk⟩
  obtain ⟨c, hc, rfl⟩ := cell?_of_body? hb
  cases hw : w.ref? with
  | none => simpa [Heap.retain, hw] using hb
  | some s =>
    simp only [Heap.retain, hw, Heap.retainRef, Heap.body?, cell?_modifyCell]
    split
    · rename_i heq
      subst heq
      simp [hc]
    · simp [hc]

theorem retainAll {vs : List Value} (hb : h.Backs l own) (hv : ∀ v ∈ vs, h.Has v) :
    Moves l (vs + own) h (h.retainAll vs) := by
  induction vs generalizing h own with
  | nil => exact (hb.mono (by simp)).stay
  | cons v vs ih =>
    have hm := hb.retain (hv v List.mem_cons_self)
    have hrest := ih hm.backs fun w hw => has_retain (hv w (List.mem_cons_of_mem _ hw))
    refine hm.trans (Moves.mk (hrest.backs.mono (le_of_eq ?_)) hrest.evolves)
    rw [coe_cons_add, Multiset.add_cons]

/-! ## Storing -/

theorem cell?_setBody {r : Ref} {c : Cell} (hc : h.cell? r = some c) (b : Body) (s : Ref) :
    (h.setBody r b).cell? s = if s = r then some { c with body := b } else h.cell? s := by
  simp [Heap.setBody, hc]

theorem fits_setBody {r : Ref} {b b' : Body} (hr : h.body? r = some b) (hk : b'.kind = b.kind)
    {v : Value} (hv : h.Fits v) : (h.setBody r b').Fits v := by
  obtain ⟨c, hc, rfl⟩ := cell?_of_body? hr
  intro s hs
  obtain ⟨hlt, hf⟩ := hv s hs
  refine ⟨Nat.lt_of_lt_of_eq hlt (size_modifyCell ..).symm, fun d hd => ?_⟩
  simp only [body?, cell?_setBody hc] at hd
  split at hd
  · rename_i heq
    subst heq
    cases hd
    rw [hk]
    exact hf _ hr
  · exact hf d hd

/-- Another body takes the place of one; all values change hands openly. -/
theorem setBody_backs {r : Ref} {b b' : Body} (hb : h.Backs l own) (hr : h.body? r = some b)
    (hk : b'.kind = b.kind) (hfix : b'.fixedRefs = b.fixedRefs) (hl : l.Admits b')
    (hweak : b.kind ≠ .weak) (hle : (b'.values : Multiset Value) + own' ≤ b.values + own) :
    (h.setBody r b').Backs l own' := by
  obtain ⟨c, hc, rfl⟩ := cell?_of_body? hr
  obtain ⟨out, hs, ho⟩ := hb.sound
  have hcount : ∀ s, b'.refs.count s + refCount own' s ≤ c.body.refs.count s + refCount own s := by
    intro s
    have := refCount_mono hle s
    rwa [refCount_add, refCount_add, Body.refCount_values, Body.refCount_values] at this
  have hmem : ∀ v, v ∈ b'.values ∨ v ∈ own' → h.Fits v := by
    intro v hv
    have hv' : v ∈ (b'.values : Multiset Value) + own' := by simpa using hv
    rcases Multiset.mem_add.1 (Multiset.mem_of_le hle hv') with hm | hm
    · exact (hb.bodies r _ hr).1 v (Body.values_subset_mentions _ (by simpa using hm))
    · exact hb.fits v hm
  have hs' : (h.setBody r b').Sound fun s => out s + c.body.refs.count s - b'.refs.count s := by
    refine hs.setBody hc ?_ (Body.isLeaf_of_kind hk) fun s => ?_
    · rw [hfix]
      exact hs.older r c hc
    · have h1 := hcount s
      have h2 := ho s
      omega
  refine hb.renew (fun _ => fits_setBody hr hk) hs' (fun s => ?_)
    (fun v hv => fits_setBody hr hk (hmem v (.inr hv))) ?_ ?_
  · have h1 := hcount s
    have h2 := ho s
    omega
  · intro s d hd
    simp only [body?, cell?_setBody hc] at hd
    split at hd
    · cases hd
      refine .inr ⟨fun v hv => fits_setBody hr hk (hmem v (.inl ?_)), hl⟩
      rwa [Body.mentions_eq (by rw [hk]; exact hweak)] at hv
    · exact .inl hd
  · intro s d w hd hw
    rw [cell?_setBody hc] at hd
    split at hd
    · rename_i heq
      subst heq
      cases hd
      exact .inl ⟨c, hc, hw⟩
    · exact .inl ⟨d, hd, hw⟩

theorem evolves_setBody {r : Ref} {b b' : Body} (hr : h.body? r = some b) (hl : b.Later b') :
    Evolves h (h.setBody r b') := by
  obtain ⟨c, hc, rfl⟩ := cell?_of_body? hr
  refine ⟨Nat.le_of_eq (size_modifyCell ..).symm, fun s d _ hd => ?_, fun s i hs => ?_⟩
  · simp only [body?, cell?_setBody hc] at hd
    split at hd
    · rename_i heq
      subst heq
      cases hd
      exact ⟨c.body, hr, hl⟩
    · exact ⟨d, hd, .same d⟩
  · have hne : s ≠ r := by
      rintro rfl
      have := cell?_lt hc
      omega
    have hd : (h.setBody r b').body? s = none := by
      simp [body?, cell?_setBody hc, hne, cell?_of_size_le hs]
    simp [outerState?, hd]

/-- An object changes while it lives. -/
theorem setBody {r : Ref} {b b' : Body} (hb : h.Backs l own) (hr : h.body? r = some b)
    (hl : b.Later b') (hk : b.kind ≠ .weak)
    (hle : (b'.values : Multiset Value) + own' ≤ b.values + own) : Moves l own' h (h.setBody r b') :=
  ⟨hb.setBody_backs hr hl.kind_eq hl.fixedRefs_eq ((hb.bodies r _ hr).2.later hl) hk hle,
    evolves_setBody hr hl⟩

end Backs

end Heap

end ScriptMachine
