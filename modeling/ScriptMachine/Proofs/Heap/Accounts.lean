import Mathlib.Algebra.Order.BigOperators.Group.Finset
import ScriptMachine.Heap.Collector
import ScriptMachine.Proofs.Heap.Threading

/-!
# Accounts of the store

The count of an object is the number of references to it: those that living
objects hold and those from outside. A store is sound when its accounts are
right, its chain carries exactly the linked objects, and the references that
the collector never takes lead to older objects.
-/

set_option autoImplicit false

namespace ScriptMachine

/-- Objects of these kinds hold nothing and stay out of the chain. -/
def Body.isLeaf : Body → Bool
  | content | weak _ => true
  | _ => false

namespace Heap

/-! ## Cells after an operation -/

theorem cell?_lt {h : Heap} {r : Ref} {c : Cell} (hc : h.cell? r = some c) : r.id < h.cells.size := by
  unfold cell? at hc
  cases hx : h.cells[r.id]? with
  | none => simp [hx] at hc
  | some o => exact (Array.getElem?_eq_some_iff.1 hx).1

theorem cell?_of_size_le {h : Heap} {r : Ref} (hr : h.cells.size ≤ r.id) : h.cell? r = none := by
  simp [cell?, Array.getElem?_eq_none hr]

theorem body?_of_cell? {h : Heap} {r : Ref} {c : Cell} (hc : h.cell? r = some c) :
    h.body? r = some c.body := by
  simp [body?, hc]

theorem cell?_of_body? {h : Heap} {r : Ref} {b : Body} (hb : h.body? r = some b) :
    ∃ c, h.cell? r = some c ∧ c.body = b := by
  simpa [body?] using hb

theorem ref_ext {r s : Ref} (h : r.id = s.id) : r = s := by
  cases r
  cases s
  simpa using h

@[simp] theorem cell?_modifyCell (h : Heap) (r s : Ref) (f : Cell → Cell) :
    (h.modifyCell r f).cell? s = if s = r then (h.cell? r).map f else h.cell? s := by
  simp only [cell?, modifyCell, Array.getElem?_modify]
  by_cases hs : s = r
  · subst hs
    cases h.cells[s.id]? <;> simp
  · have hid : r.id ≠ s.id := fun heq => hs (ref_ext heq.symm)
    simp [hs, hid]

@[simp] theorem size_modifyCell (h : Heap) (r : Ref) (f : Cell → Cell) :
    (h.modifyCell r f).cells.size = h.cells.size := by
  simp [modifyCell]

@[simp] theorem chain_modifyCell (h : Heap) (r : Ref) (f : Cell → Cell) :
    (h.modifyCell r f).chain = h.chain := rfl

theorem cell?_setCell {h : Heap} {r : Ref} (hr : r.id < h.cells.size) (s : Ref) (c : Cell) :
    (h.setCell r c).cell? s = if s = r then some c else h.cell? s := by
  simp only [cell?, setCell, Array.getElem?_setIfInBounds]
  by_cases hs : s = r
  · subst hs
    simp [hr]
  · have hid : r.id ≠ s.id := fun heq => hs (ref_ext heq.symm)
    simp [hs, hid]

@[simp] theorem size_setCell (h : Heap) (r : Ref) (c : Cell) :
    (h.setCell r c).cells.size = h.cells.size := by
  simp [setCell]

@[simp] theorem cell?_remove (h : Heap) (r s : Ref) (c : Cell) :
    (h.remove r c).cell? s = if s = r then none else h.cell? s := by
  simp only [cell?, remove, Array.getElem?_setIfInBounds]
  by_cases hs : s = r
  · subst hs
    by_cases hl : s.id < h.cells.size <;> simp [hl]
  · have hid : r.id ≠ s.id := fun heq => hs (ref_ext heq.symm)
    simp [hs, hid]

@[simp] theorem size_remove (h : Heap) (r : Ref) (c : Cell) :
    (h.remove r c).cells.size = h.cells.size := by
  simp [remove]

@[simp] theorem allocate_fst (h : Heap) (b : Body) : (h.allocate b).1 = ⟨h.cells.size⟩ := rfl

@[simp] theorem size_allocate (h : Heap) (b : Body) :
    (h.allocate b).2.cells.size = h.cells.size + 1 := by
  simp [allocate]

@[simp] theorem cell?_allocate (h : Heap) (b : Body) (s : Ref) :
    (h.allocate b).2.cell? s =
      if s = ⟨h.cells.size⟩ then some { strong := 1, link := .fresh, handle := none, body := b }
      else h.cell? s := by
  simp only [cell?, allocate, Array.getElem?_push]
  by_cases hs : s = ⟨h.cells.size⟩
  · subst hs
    simp
  · have hid : s.id ≠ h.cells.size := fun heq => hs (ref_ext heq)
    simp [hs, hid]

theorem node?_eq_some {h : Heap} {r : Ref} {i : Nat} :
    h.node? r = some i ↔ ∃ c, h.cell? r = some c ∧ c.link = .linked i := by
  unfold node?
  cases hc : h.cell? r with
  | none => simp
  | some c =>
    obtain ⟨strong, link, handle, body⟩ := c
    cases link <;> simp

/-! ## References held by the living -/

def refsOf (h : Heap) (r : Ref) : List Ref :=
  match h.cell? r with
  | some c => c.refs
  | none => []

theorem refsOf_of_cell? {h : Heap} {r : Ref} {c : Cell} (hc : h.cell? r = some c) :
    h.refsOf r = c.refs := by
  simp [refsOf, hc]

theorem refsOf_of_dead {h : Heap} {r : Ref} (hc : h.cell? r = none) : h.refsOf r = [] := by
  simp [refsOf, hc]

/-- The number of references to an object that living objects hold. -/
def held (h : Heap) (r : Ref) : Nat :=
  ∑ i ∈ Finset.range h.cells.size, (h.refsOf ⟨i⟩).count r

theorem held_pos {h : Heap} {p r : Ref} (hr : r ∈ h.refsOf p) : 0 < h.held r := by
  have hp : p.id < h.cells.size := by
    by_contra hge
    rw [refsOf_of_dead (cell?_of_size_le (by omega))] at hr
    cases hr
  exact Finset.sum_pos' (fun _ _ => Nat.zero_le _)
    ⟨p.id, Finset.mem_range.2 hp, List.count_pos_iff.2 hr⟩

theorem exists_holder {h : Heap} {r : Ref} (hr : 0 < h.held r) : ∃ p, r ∈ h.refsOf p := by
  by_contra hno
  refine absurd (Finset.sum_eq_zero fun i _ => ?_) (Nat.ne_of_gt hr)
  exact List.count_eq_zero.2 fun hi => hno ⟨⟨i⟩, hi⟩

/-- A change of one cell moves the held references by what the cell holds. -/
theorem held_change {h h' : Heap} {r : Ref} (hsize : h'.cells.size = h.cells.size)
    (hr : r.id < h.cells.size) (hne : ∀ s, s ≠ r → h'.cell? s = h.cell? s) (s : Ref) :
    h'.held s + (h.refsOf r).count s = h.held s + (h'.refsOf r).count s := by
  have hm : r.id ∈ Finset.range h.cells.size := Finset.mem_range.2 hr
  have hrest : ∑ i ∈ (Finset.range h.cells.size).erase r.id, (h'.refsOf ⟨i⟩).count s =
      ∑ i ∈ (Finset.range h.cells.size).erase r.id, (h.refsOf ⟨i⟩).count s := by
    refine Finset.sum_congr rfl fun i hi => ?_
    have hir : (⟨i⟩ : Ref) ≠ r := fun heq => (Finset.mem_erase.1 hi).1 (congrArg Ref.id heq)
    simp only [refsOf, hne _ hir]
  have hnew : _ + (h'.refsOf r).count s = _ :=
    Finset.sum_erase_add _ (fun i => (h'.refsOf ⟨i⟩).count s) hm
  have hold : _ + (h.refsOf r).count s = _ :=
    Finset.sum_erase_add _ (fun i => (h.refsOf ⟨i⟩).count s) hm
  simp only [held, hsize]
  rw [hrest] at hnew
  omega

theorem held_allocate (h : Heap) (b : Body) (s : Ref) :
    (h.allocate b).2.held s = h.held s + b.refs.count s := by
  simp only [held, size_allocate, Finset.sum_range_succ]
  congr 1
  · refine Finset.sum_congr rfl fun i hi => ?_
    have hne : (⟨i⟩ : Ref) ≠ ⟨h.cells.size⟩ := by
      intro heq
      have := Finset.mem_range.1 hi
      simp at heq
      omega
    simp only [refsOf, cell?_allocate, if_neg hne]
  · simp [refsOf, Cell.refs]

theorem strongOf_of_cell? {h : Heap} {r : Ref} {c : Cell} (hc : h.cell? r = some c) :
    h.strongOf r = c.strong := by
  simp [strongOf, hc]

/-! ## Soundness -/

/-- The chain carries exactly the linked objects. -/
structure Chained (h : Heap) (xs : List (Nat × Ref)) : Prop where
  lists : h.chain.Lists xs
  live : h.chain.stats.live = xs.length
  linked : ∀ i r, (i, r) ∈ xs ↔ h.node? r = some i

/-- What is left of the list when a linked object is taken out. -/
theorem Chained.mem_without {h : Heap} {ys zs : List (Nat × Ref)} {i j : Nat} {r s : Ref}
    (hx : h.Chained (ys ++ (i, r) :: zs)) : (j, s) ∈ ys ++ zs ↔ s ≠ r ∧ h.node? s = some j := by
  have hr : h.node? r = some i := (hx.linked i r).1 (by simp)
  rw [hx.lists.mem_without, hx.linked]
  constructor
  · rintro ⟨hs, hji⟩
    refine ⟨?_, hs⟩
    rintro rfl
    exact hji (Option.some.inj (hs.symm.trans hr))
  · rintro ⟨hsr, hs⟩
    refine ⟨hs, ?_⟩
    rintro rfl
    exact hsr (hx.lists.node_unique ((hx.linked j s).2 hs) (by simp))

/-- A store whose outside holds `out r` references to each object. -/
structure Sound (out : Ref → Nat) (h : Heap) : Prop where
  accounts : ∀ r, h.strongOf r = out r + h.held r
  positive : ∀ r c, h.cell? r = some c → 0 < c.strong
  older : ∀ r c, h.cell? r = some c → ∀ s ∈ c.body.fixedRefs, s.id < r.id
  handles : ∀ r c w, h.cell? r = some c → c.handle = some w → (h.body? w).map Body.isLeaf = some true
  collectable : ∀ r i c, h.cell? r = some c → c.link = .linked i → c.body.isLeaf = false
  chained : ∃ xs, h.Chained xs

namespace Sound

variable {out : Ref → Nat} {h : Heap}

theorem alive_of_strong {r : Ref} (hr : 0 < h.strongOf r) : ∃ c, h.cell? r = some c := by
  cases hc : h.cell? r with
  | none => simp [strongOf, hc] at hr
  | some c => exact ⟨c, rfl⟩

theorem alive_of_out (hs : Sound out h) {r : Ref} (hr : 0 < out r) : ∃ c, h.cell? r = some c :=
  alive_of_strong (by rw [hs.accounts]; omega)

theorem alive_of_held (hs : Sound out h) {p r : Ref} (hr : r ∈ h.refsOf p) :
    ∃ c, h.cell? r = some c :=
  alive_of_strong (by have := held_pos hr; rw [hs.accounts]; omega)

theorem holder_or_out (hs : Sound out h) {r : Ref} {c : Cell} (hc : h.cell? r = some c) :
    0 < out r ∨ ∃ p, r ∈ h.refsOf p := by
  have h1 := hs.positive r c hc
  have h2 := hs.accounts r
  rw [strongOf_of_cell? hc] at h2
  rcases Nat.eq_zero_or_pos (out r) with h0 | h0
  · exact .inr (exists_holder (by omega))
  · exact .inl h0

end Sound

end Heap

end ScriptMachine
