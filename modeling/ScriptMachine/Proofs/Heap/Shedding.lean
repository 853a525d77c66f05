import ScriptMachine.Proofs.Heap.Copying
import ScriptMachine.Proofs.Heap.Lookups

/-!
# What outlives a change

Letting go, collecting and making new objects leave the objects that survive as they
were.
-/

set_option autoImplicit false

namespace ScriptMachine.Heap

variable {l : Law} {own : Multiset Value} {h h' h'' : Heap}

/-! ## Counting -/

theorem trims_release (h : Heap) (v : Value) : Trims h (h.release v) := by
  unfold release
  cases v.ref? with
  | none => exact .refl h
  | some r => exact trims_releaseRefs _ _

theorem trims_releaseAll (h : Heap) (vs : List Value) : Trims h (h.releaseAll vs) := by
  induction vs generalizing h with
  | nil => exact .refl h
  | cons v vs ih => exact (trims_release h v).trans (ih (h.release v))

theorem trims_retain (h : Heap) (v : Value) : Trims h (h.retain v) := by
  unfold retain
  cases v.ref? with
  | none => exact .refl h
  | some r =>
    refine ⟨size_modifyCell .., fun s c' hc' => ?_⟩
    simp only [retainRef, cell?_modifyCell] at hc'
    split at hc'
    · rename_i heq
      obtain ⟨c, hc, rfl⟩ := Option.map_eq_some_iff.1 hc'
      exact ⟨c, heq ▸ hc, rfl, rfl, rfl⟩
    · exact ⟨c', hc', rfl, rfl, rfl⟩

theorem trims_retainAll (h : Heap) (vs : List Value) : Trims h (h.retainAll vs) := by
  induction vs generalizing h with
  | nil => exact .refl h
  | cons v vs ih => exact (trims_retain h v).trans (ih (h.retain v))

/-! ## Collecting -/

/-- A collection only takes objects away. -/
theorem Backs.trims_collect (hb : h.Backs l own) : Trims h h.collect.2 := by
  obtain ⟨out, hs, -⟩ := hb.sound
  obtain ⟨gs, -, hg, -, hs', hc, -⟩ := hs.collect (K := fun _ => False) (fun _ hf => hf.elim)
    (fun _ _ hf => hf)
  refine ⟨hc.size, fun r c' hc' => ?_⟩
  obtain ⟨c, hc0, hlink, hhandle, hbody⟩ := hc.cell r c' hc'
  have hn : r ∉ gs := by
    intro hm
    have := hs.garbage_dead hs' hg hc h.cells.size r ((hg r).1 hm) (by omega)
    rw [this] at hc'
    cases hc'
  rw [if_neg hn] at hbody
  exact ⟨c, hc0, hbody, hlink, hhandle⟩

theorem Backs.trims_maybeCollect (hb : h.Backs l own) : Trims h h.maybeCollect := by
  unfold Heap.maybeCollect
  split
  · exact hb.trims_collect
  · exact .refl h

/-! ## What is left -/

/-- What is left of the first heap is as it was; there may be new objects. -/
structure Sheds (h h' : Heap) : Prop where
  size : h.cells.size ≤ h'.cells.size
  body : ∀ r b, r.id < h.cells.size → h'.body? r = some b → h.body? r = some b

namespace Sheds

theorem of_trims (ht : Trims h h') : Sheds h h' :=
  ⟨Nat.le_of_eq ht.size.symm, fun _ _ _ hb => ht.body? hb⟩

theorem refl (h : Heap) : Sheds h h := .of_trims (.refl h)

theorem trans (h1 : Sheds h h') (h2 : Sheds h' h'') : Sheds h h'' where
  size := h1.size.trans h2.size
  body r b hr hb := h1.body r b hr (h2.body r b (hr.trans_le h1.size) hb)

theorem newArray (h : Heap) (items : Array Value) : Sheds h (h.newArray items).2 where
  size := by
    rw [Heap.newArray, (grows_allocateLinked h (.array items)).size]
    exact Nat.le_succ _
  body r b hr hb := by
    rw [Heap.newArray, body?_allocateLinked, if_neg] at hb
    · exact hb
    · rintro rfl
      exact Nat.lt_irrefl _ hr

end Sheds

theorem body?_newArray (h : Heap) (items : Array Value) :
    (h.newArray items).2.body? ⟨h.cells.size⟩ = some (.array items) := by
  rw [Heap.newArray, body?_allocateLinked]
  exact if_pos rfl

end ScriptMachine.Heap
