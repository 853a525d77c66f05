import Mathlib.Algebra.BigOperators.Group.List.Basic
import Mathlib.Algebra.BigOperators.Group.Finset.Lemmas
import Mathlib.Data.Set.Card
import ScriptMachine.Proofs.Heap.Accounts

/-!
# Marking

The counts of a snapshot, less the references from within the chain, are the
references from outside it, and the worklist marks exactly the objects that can
be reached from those with one left over.
-/

set_option autoImplicit false

namespace ScriptMachine

/-! ## The worklist -/

namespace Snapshot

/-- A node that has been expanded. -/
def Marked (marked : Array Bool) (i : Nat) : Prop := marked[i]? = some true

instance (marked : Array Bool) : DecidablePred (Marked marked) := fun i =>
  inferInstanceAs (Decidable (marked[i]? = some true))

theorem marked_set {marked : Array Bool} {i : Nat} (hi : i < marked.size) (j : Nat) :
    Marked (marked.setIfInBounds i true) j ↔ j = i ∨ Marked marked j := by
  unfold Marked
  rw [Array.getElem?_setIfInBounds]
  by_cases hij : i = j
  · subst hij
    simp [hi]
  · simp [hij, Ne.symm hij]

theorem mark_sound (s : Snapshot) (P : Nat → Prop) (hP : ∀ i, P i → ∀ j ∈ s.edgesOf i, P j)
    (fuel : Nat) (work : List Nat) (marked : Array Bool) (hw : ∀ i ∈ work, P i)
    (hm : ∀ i, Marked marked i → P i) : ∀ i, Marked (s.mark fuel work marked) i → P i := by
  induction fuel generalizing work marked with
  | zero => simpa only [mark] using hm
  | succ fuel ih =>
    cases work with
    | nil => simpa only [mark] using hm
    | cons i work =>
      simp only [mark]
      have hrest : ∀ j ∈ work, P j := fun j hj => hw j (List.mem_cons_of_mem _ hj)
      have hi : P i := hw i List.mem_cons_self
      split
      · exact ih work marked hrest hm
      · rename_i hun
        have hlt : i < marked.size := by
          by_contra hge
          simp [Array.getElem?_eq_none (Nat.le_of_not_lt hge)] at hun
        refine ih _ _ ?_ ?_
        · intro j hj
          rcases List.mem_append.1 hj with hj | hj
          · exact hP i hi j hj
          · exact hrest j hj
        · intro j hj
          rcases (marked_set hlt j).1 hj with rfl | hj
          · exact hi
          · exact hm j hj

/-- The references of nodes that are still to be expanded. -/
def pending (s : Snapshot) (marked : Array Bool) : Nat :=
  ∑ i ∈ s.nodes.toFinset.filter (fun i => ¬ Marked marked i), (s.edgesOf i).length

theorem pending_set {s : Snapshot} {marked : Array Bool} {i : Nat} (hi : i ∈ s.nodes)
    (hlt : i < marked.size) (hun : ¬ Marked marked i) :
    s.pending (marked.setIfInBounds i true) + (s.edgesOf i).length = s.pending marked := by
  have hset : s.nodes.toFinset.filter (fun j => ¬ Marked (marked.setIfInBounds i true) j) =
      (s.nodes.toFinset.filter (fun j => ¬ Marked marked j)).erase i := by
    ext j
    simp only [Finset.mem_filter, Finset.mem_erase, marked_set hlt, not_or]
    tauto
  unfold pending
  rw [hset]
  exact Finset.sum_erase_add _ _ (Finset.mem_filter.2 ⟨List.mem_toFinset.2 hi, hun⟩)

/-- A node that has been expanded or waits for it. -/
def Noticed (marked : Array Bool) (work : List Nat) (i : Nat) : Prop :=
  Marked marked i ∨ i ∈ work

theorem Noticed.of_marked {marked : Array Bool} {work : List Nat} {i j : Nat}
    (hi : Marked marked i) (hj : Noticed marked (i :: work) j) : Noticed marked work j := by
  rcases hj with h | h
  · exact .inl h
  · rcases List.mem_cons.1 h with rfl | h
    · exact .inl hi
    · exact .inr h

theorem Noticed.expanded {marked : Array Bool} {work : List Nat} {i j : Nat} (more : List Nat)
    (hi : i < marked.size) (hj : Noticed marked (i :: work) j) :
    Noticed (marked.setIfInBounds i true) (more ++ work) j := by
  rw [Noticed, marked_set hi]
  rcases hj with h | h
  · exact .inl (.inr h)
  · rcases List.mem_cons.1 h with rfl | h
    · exact .inl (.inl rfl)
    · exact .inr (List.mem_append_right _ h)

theorem mark_of_marked (s : Snapshot) (fuel : Nat) {marked : Array Bool} {i : Nat} (work : List Nat)
    (hi : Marked marked i) : s.mark (fuel + 1) (i :: work) marked = s.mark fuel work marked := by
  simp only [mark]
  rw [if_pos (by rw [hi]; rfl)]

theorem mark_of_unmarked (s : Snapshot) (fuel : Nat) {marked : Array Bool} {i : Nat}
    (work : List Nat) (hlt : i < marked.size) (hi : ¬ Marked marked i) :
    s.mark (fuel + 1) (i :: work) marked =
      s.mark fuel (s.edgesOf i ++ work) (marked.setIfInBounds i true) := by
  simp only [mark]
  rw [if_neg]
  unfold Marked at hi
  simp only [Array.getElem?_eq_getElem hlt, Option.getD_some] at hi ⊢
  simpa using hi

/-- With enough steps the work list runs empty, and what is marked then is
closed under references. -/
theorem mark_complete (s : Snapshot) (fuel : Nat) (work : List Nat) (marked : Array Bool)
    (hin : ∀ i ∈ s.nodes, i < marked.size) (hedge : ∀ i, ∀ j ∈ s.edgesOf i, j ∈ s.nodes)
    (hw : ∀ i ∈ work, i ∈ s.nodes) (hfuel : work.length + s.pending marked ≤ fuel)
    (hclosed : ∀ i, Marked marked i → ∀ j ∈ s.edgesOf i, Noticed marked work j) :
    (∀ i, Noticed marked work i → Marked (s.mark fuel work marked) i) ∧
      ∀ i, Marked (s.mark fuel work marked) i →
        ∀ j ∈ s.edgesOf i, Marked (s.mark fuel work marked) j := by
  have hdone : ∀ i, Noticed marked [] i → Marked marked i := fun i hi =>
    hi.resolve_right List.not_mem_nil
  induction fuel generalizing work marked with
  | zero =>
    have hnil : work = [] := List.length_eq_zero_iff.1 (by omega)
    subst hnil
    simp only [mark]
    exact ⟨hdone, fun i hi j hj => hdone j (hclosed i hi j hj)⟩
  | succ fuel ih =>
    cases work with
    | nil =>
      simp only [mark]
      exact ⟨hdone, fun i hi j hj => hdone j (hclosed i hi j hj)⟩
    | cons i work =>
      have hi : i ∈ s.nodes := hw i List.mem_cons_self
      have hlt : i < marked.size := hin i hi
      have hrest : ∀ j ∈ work, j ∈ s.nodes := fun j hj => hw j (List.mem_cons_of_mem _ hj)
      simp only [List.length_cons] at hfuel
      by_cases hm : Marked marked i
      · rw [mark_of_marked s fuel work hm]
        obtain ⟨hkeep, hend⟩ := ih work marked hin hrest (by omega)
          (fun j hj k hk => (hclosed j hj k hk).of_marked hm) hdone
        exact ⟨fun j hj => hkeep j (hj.of_marked hm), hend⟩
      · rw [mark_of_unmarked s fuel work hlt hm]
        have hp := pending_set hi hlt hm
        have hwork : ∀ j ∈ s.edgesOf i ++ work, j ∈ s.nodes := fun j hj =>
          (List.mem_append.1 hj).elim (hedge i j) (hrest j)
        obtain ⟨hkeep, hend⟩ := ih (s.edgesOf i ++ work) (marked.setIfInBounds i true)
          (by simpa using hin) hwork (by rw [List.length_append]; omega)
          (fun j hj k hk => by
            rcases (marked_set hlt j).1 hj with rfl | hj
            · exact .inr (List.mem_append_left _ hk)
            · exact (hclosed j hj k hk).expanded _ hlt)
          (fun j hj => hj.resolve_right List.not_mem_nil)
        exact ⟨fun j hj => hkeep j (hj.expanded _ hlt), hend⟩

theorem foldl_add_eq_sum (f : Nat → Nat) (l : List Nat) (n : Nat) :
    l.foldl (fun (n i : Nat) => n + f i) n = n + (l.map f).sum := by
  induction l generalizing n with
  | nil => simp
  | cons i l ih => simp [ih]; omega

theorem roots_length (s : Snapshot) : s.roots.length ≤ s.members.length := by
  have := List.length_filter_le (fun (i : Nat) => decide (0 < (s.external[i]?).getD 0)) s.nodes
  simpa [roots, nodes] using this

/-- The nodes are different ones and have their places, and references lead to nodes. -/
structure Closed (s : Snapshot) : Prop where
  distinct : s.nodes.Nodup
  inside : ∀ i ∈ s.nodes, i < s.edges.size
  target : ∀ i, ∀ j ∈ s.edgesOf i, j ∈ s.nodes

/-- The marked nodes are exactly those that a closed set with the roots has. -/
theorem Closed.reachable_iff {s : Snapshot} (hs : s.Closed) (P : Nat → Prop)
    (hroot : ∀ i ∈ s.roots, P i) (hstep : ∀ i, P i → ∀ j ∈ s.edgesOf i, P j)
    (hleast : ∀ M : Nat → Prop, (∀ i ∈ s.roots, M i) → (∀ i, M i → ∀ j ∈ s.edgesOf i, M j) →
      ∀ i, P i → M i) (i : Nat) : Marked s.reachable i ↔ P i := by
  have hblank : ∀ j, ¬ Marked (Array.replicate s.edges.size false) j := by
    intro j hj
    unfold Marked at hj
    rw [Array.getElem?_replicate] at hj
    split at hj <;> simp at hj
  have hall : s.pending (Array.replicate s.edges.size false) =
      (s.nodes.map fun (i : Nat) => (s.edgesOf i).length).sum := by
    have hfilter : s.nodes.toFinset.filter
        (fun i => ¬ Marked (Array.replicate s.edges.size false) i) = s.nodes.toFinset :=
      Finset.filter_true_of_mem fun j _ => hblank j
    rw [pending, hfilter, List.sum_toFinset _ hs.distinct]
  obtain ⟨hkeep, hclosed⟩ := mark_complete s s.markSteps s.roots (Array.replicate s.edges.size false)
    (by simpa using hs.inside) hs.target (fun j hj => (List.mem_filter.1 hj).1)
    (by
      have := roots_length s
      rw [hall, markSteps, foldl_add_eq_sum]
      omega)
    (fun j hj => absurd hj (hblank j))
  constructor
  · exact mark_sound s P hstep _ _ _ hroot (fun j hj => absurd hj (hblank j)) i
  · exact hleast _ (fun j hj => hkeep j (.inr hj)) hclosed i

end Snapshot

/-! ## Objects reached from outside -/

namespace Heap

/-- The object is in the chain. -/
def Registered (h : Heap) (r : Ref) : Prop := ∃ i, h.node? r = some i

/-- The number of references to an object that objects of the chain hold. -/
def heldWithin (h : Heap) (r : Ref) : Nat :=
  ∑ i ∈ (Finset.range h.cells.size).filter (fun i => (h.node? ⟨i⟩).isSome), (h.refsOf ⟨i⟩).count r

/-- The number of references to an object that no object of the chain holds. -/
def external (h : Heap) (r : Ref) : Nat := h.strongOf r - h.heldWithin r

/-- What can be reached within the chain from objects with external references. -/
inductive Reached (h : Heap) : Ref → Prop
  | root {r : Ref} : h.Registered r → 0 < h.external r → Reached h r
  | step {p r : Ref} : Reached h p → r ∈ h.refsOf p → h.Registered r → Reached h r

theorem Reached.registered {h : Heap} {r : Ref} (hr : h.Reached r) : h.Registered r := by
  cases hr with
  | root h1 _ => exact h1
  | step _ _ h1 => exact h1

variable {out : Ref → Nat} {h : Heap} {xs : List (Nat × Ref)}

namespace Chained

theorem registered_iff (hx : h.Chained xs) (r : Ref) : h.Registered r ↔ ∃ i, (i, r) ∈ xs := by
  simp only [Registered, hx.linked]

theorem refs_distinct (hx : h.Chained xs) : (xs.map (·.2)).Nodup := by
  have hd : xs.Nodup := List.Nodup.of_map _ hx.lists.distinct
  refine (List.nodup_map_iff_inj_on hd).2 ?_
  rintro ⟨i, r⟩ hi ⟨j, s⟩ hj heq
  cases heq
  have h1 := (hx.linked i r).1 hi
  rw [(hx.linked j r).1 hj] at h1
  cases h1
  rfl

theorem lt_size (hx : h.Chained xs) {i : Nat} {r : Ref} (hi : (i, r) ∈ xs) :
    r.id < h.cells.size := by
  obtain ⟨c, hc, -⟩ := node?_eq_some.1 ((hx.linked i r).1 hi)
  exact cell?_lt hc

theorem heldWithin_eq (hx : h.Chained xs) (r : Ref) :
    h.heldWithin r = (xs.map fun e => (h.refsOf e.2).count r).sum := by
  have hids : (xs.map (fun e => e.2.id)).Nodup := by
    have := hx.refs_distinct.map (f := Ref.id) fun r s heq => ref_ext heq
    rwa [List.map_map] at this
  have hset : (Finset.range h.cells.size).filter (fun i => (h.node? ⟨i⟩).isSome) =
      (xs.map (fun e => e.2.id)).toFinset := by
    ext i
    simp only [Finset.mem_filter, Finset.mem_range, List.mem_toFinset, List.mem_map]
    constructor
    · rintro ⟨-, hi⟩
      obtain ⟨j, hj⟩ := Option.isSome_iff_exists.1 hi
      exact ⟨(j, ⟨i⟩), (hx.linked j ⟨i⟩).2 hj, rfl⟩
    · rintro ⟨⟨j, s⟩, he, rfl⟩
      exact ⟨hx.lt_size he, by rw [(hx.linked j s).1 he]; rfl⟩
  rw [heldWithin, hset, List.sum_toFinset _ hids, List.map_map]
  rfl

end Chained

theorem heldWithin_le (h : Heap) (r : Ref) : h.heldWithin r ≤ h.held r :=
  Finset.sum_le_sum_of_subset (Finset.filter_subset _ _)

/-! ## The snapshot of a chain -/

theorem foldl_set_of_ne {α : Type} (f : Ref → α) (a : Array α) {i : Nat}
    (hi : i ∉ xs.map (·.1)) :
    (xs.foldl (fun (a : Array α) (e : Nat × Ref) => a.setIfInBounds e.1 (f e.2)) a)[i]? =
      a[i]? := by
  induction xs generalizing a with
  | nil => rfl
  | cons e xs ih =>
    simp only [List.map_cons, List.mem_cons, not_or] at hi
    rw [List.foldl_cons, ih _ hi.2, Array.getElem?_setIfInBounds_ne (Ne.symm hi.1)]

theorem foldl_set_of_mem {α : Type} (f : Ref → α) (a : Array α) (hd : (xs.map (·.1)).Nodup)
    {i : Nat} {r : Ref} (hi : (i, r) ∈ xs) (hlt : i < a.size) :
    (xs.foldl (fun (a : Array α) (e : Nat × Ref) => a.setIfInBounds e.1 (f e.2)) a)[i]? =
      some (f r) := by
  induction xs generalizing a with
  | nil => cases hi
  | cons e xs ih =>
    rw [List.map_cons, List.nodup_cons] at hd
    rw [List.foldl_cons]
    rcases List.mem_cons.1 hi with rfl | hm
    · rw [foldl_set_of_ne f _ hd.1, Array.getElem?_setIfInBounds]
      simp [hlt]
    · exact ih _ hd.2 hm (by simpa using hlt)

theorem size_foldl_set {α : Type} (f : Ref → α) (a : Array α) :
    (xs.foldl (fun (a : Array α) (e : Nat × Ref) => a.setIfInBounds e.1 (f e.2)) a).size =
      a.size := by
  induction xs generalizing a with
  | nil => rfl
  | cons e xs ih => rw [List.foldl_cons, ih, Array.size_setIfInBounds]

theorem foldl_decrease (l : List Nat) (a : Array Nat) (k : Nat) :
    (l.foldl (fun (a : Array Nat) (j : Nat) => a.modify j (· - 1)) a)[k]? =
      (a[k]?).map (· - l.count k) := by
  induction l generalizing a with
  | nil => simp
  | cons j l ih =>
    rw [List.foldl_cons, ih, Array.getElem?_modify, List.count_cons]
    by_cases hj : j = k
    · subst hj
      simp only [if_true, Option.map_map, beq_self_eq_true]
      congr 1
      funext n
      simp only [Function.comp]
      omega
    · simp [hj]

/-- What is left over of a count when every reference from within is taken off. -/
theorem getElem?_external (s : Snapshot) (i : Nat) : s.external[i]? =
    (s.strong[i]?).map (· - (s.nodes.flatMap s.edgesOf).count i) := by
  rw [Snapshot.external, ← List.foldl_flatMap, foldl_decrease]

theorem size_edges (xs : List (Nat × Ref)) : (h.snapshotOf xs).edges.size = h.chain.nodes.size := by
  simp only [snapshotOf, size_foldl_set, Array.size_replicate]

theorem edgesOf_of_ne {i : Nat} (hi : i ∉ xs.map (·.1)) : (h.snapshotOf xs).edgesOf i = [] := by
  have : (h.snapshotOf xs).edges[i]? = (Array.replicate h.chain.nodes.size [])[i]? :=
    foldl_set_of_ne h.edgeNodes _ hi
  rw [Snapshot.edgesOf, this, Array.getElem?_replicate]
  split <;> rfl

/-- The members have nodes of their own, and all linked objects are among them. -/
structure Gathers (h : Heap) (xs : List (Nat × Ref)) : Prop where
  distinct : (xs.map (·.1)).Nodup
  inside : ∀ i r, (i, r) ∈ xs → i < h.chain.nodes.size
  linked : ∀ i r, h.node? r = some i → (i, r) ∈ xs

namespace Gathers

theorem strong_get (hm : h.Gathers xs) {i : Nat} {r : Ref} (hi : (i, r) ∈ xs) :
    (h.snapshotOf xs).strong[i]? = some (h.strongOf r) :=
  foldl_set_of_mem h.strongOf _ hm.distinct hi (by simpa using hm.inside i r hi)

theorem edgesOf_eq (hm : h.Gathers xs) {i : Nat} {r : Ref} (hi : (i, r) ∈ xs) :
    (h.snapshotOf xs).edgesOf i = h.edgeNodes r := by
  have : (h.snapshotOf xs).edges[i]? = some (h.edgeNodes r) :=
    foldl_set_of_mem h.edgeNodes _ hm.distinct hi (by simpa using hm.inside i r hi)
  simp [Snapshot.edgesOf, this]

theorem closed (hm : h.Gathers xs) : (h.snapshotOf xs).Closed where
  distinct := hm.distinct
  inside := by
    intro i hi
    obtain ⟨⟨j, r⟩, hr, rfl⟩ := List.mem_map.1 hi
    rw [size_edges]
    exact hm.inside j r hr
  target := by
    intro i j hj
    by_cases hi : i ∈ xs.map (·.1)
    · obtain ⟨⟨k, p⟩, hp, rfl⟩ := List.mem_map.1 hi
      rw [hm.edgesOf_eq hp, edgeNodes] at hj
      cases hb : h.body? p with
      | none => simp [hb] at hj
      | some b =>
        simp only [hb] at hj
        obtain ⟨r, -, hr⟩ := List.mem_filterMap.1 hj
        exact List.mem_map_of_mem (hm.linked j r hr)
    · rw [edgesOf_of_ne hi] at hj
      cases hj

end Gathers

namespace Chained

theorem gathers (hx : h.Chained xs) : h.Gathers xs where
  distinct := hx.lists.distinct
  inside := fun _ _ hi => hx.lists.lt_size hi
  linked := fun i r hr => (hx.linked i r).2 hr

/-- The references to a linked object are counted by the edges to its node. -/
theorem count_edgeNodes (hs : h.Sound out) (hx : h.Chained xs) {i : Nat} {r : Ref}
    (hi : (i, r) ∈ xs) (p : Ref) : (h.edgeNodes p).count i = (h.refsOf p).count r := by
  have hr := (hx.linked i r).1 hi
  cases hc : h.cell? p with
  | none => simp [edgeNodes, body?, refsOf, hc]
  | some c =>
    have hhandle : c.handle.toList.count r = 0 := by
      rw [List.count_eq_zero, Option.mem_toList]
      intro hw
      obtain ⟨d, hd, hl⟩ := node?_eq_some.1 hr
      have h1 := hs.handles p c r hc hw
      rw [body?_of_cell? hd] at h1
      simp [hs.collectable r i d hd hl] at h1
    have hcount : (c.body.refs.filterMap h.node?).count i = c.body.refs.count r := by
      rw [List.count_filterMap, List.count]
      refine List.countP_congr fun q _ => ?_
      constructor
      · intro hq
        have hq' : h.node? q = some i := by simpa using hq
        simpa using hx.lists.node_unique ((hx.linked i q).2 hq') hi
      · intro hq
        have : q = r := by simpa using hq
        simp [this, hr]
    simp only [edgeNodes, body?_of_cell? hc, refsOf_of_cell? hc, Cell.refs, List.count_append,
      hcount, hhandle]
    omega

theorem external_get (hs : h.Sound out) (hx : h.Chained xs) {i : Nat} {r : Ref}
    (hi : (i, r) ∈ xs) : ((h.snapshotOf xs).external[i]?).getD 0 = h.external r := by
  have hcount : ((h.snapshotOf xs).nodes.flatMap (h.snapshotOf xs).edgesOf).count i =
      h.heldWithin r := by
    rw [hx.heldWithin_eq, List.count_flatMap, Snapshot.nodes, List.map_map]
    congr 1
    refine List.map_congr_left fun e he => ?_
    simp only [Function.comp, hx.gathers.edgesOf_eq he, count_edgeNodes hs hx hi]
  rw [getElem?_external, hx.gathers.strong_get hi, hcount]
  rfl

theorem mem_edgeNodes (hs : h.Sound out) (hx : h.Chained xs) {i j : Nat} {p r : Ref}
    (hi : (i, r) ∈ xs) (hp : (j, p) ∈ xs) :
    i ∈ (h.snapshotOf xs).edgesOf j ↔ r ∈ h.refsOf p := by
  rw [hx.gathers.edgesOf_eq hp, ← List.count_pos_iff, ← List.count_pos_iff, count_edgeNodes hs hx hi]

theorem edge_target (hx : h.Chained xs) {i j : Nat} (hj : j ∈ (h.snapshotOf xs).edgesOf i) :
    ∃ r, (j, r) ∈ xs := by
  obtain ⟨⟨k, r⟩, hr, rfl⟩ := List.mem_map.1 (hx.gathers.closed.target i j hj)
  exact ⟨r, hr⟩

/-- A node is marked exactly when its object can be reached from outside. -/
theorem marked_iff (hs : h.Sound out) (hx : h.Chained xs) {i : Nat} {r : Ref}
    (hi : (i, r) ∈ xs) : Snapshot.Marked (h.snapshotOf xs).reachable i ↔ h.Reached r := by
  have hroots : ∀ j, j ∈ (h.snapshotOf xs).roots ↔ ∃ p, (j, p) ∈ xs ∧ 0 < h.external p := by
    intro j
    simp only [Snapshot.roots, List.mem_filter, decide_eq_true_eq]
    constructor
    · rintro ⟨hj, hpos⟩
      obtain ⟨⟨k, p⟩, he, rfl⟩ := List.mem_map.1 hj
      exact ⟨p, he, by rwa [external_get hs hx he] at hpos⟩
    · rintro ⟨p, he, hpos⟩
      exact ⟨List.mem_map_of_mem (f := (·.1)) he, by rwa [external_get hs hx he]⟩
  have hall := hx.gathers.closed.reachable_iff (fun j => ∃ p, (j, p) ∈ xs ∧ h.Reached p)
    (by
      intro j hj
      obtain ⟨p, hp, hpos⟩ := (hroots j).1 hj
      exact ⟨p, hp, .root ((hx.registered_iff p).2 ⟨j, hp⟩) hpos⟩)
    (by
      rintro j ⟨p, hp, hreach⟩ k hk
      obtain ⟨q, hq⟩ := hx.edge_target hk
      exact ⟨q, hq, .step hreach ((mem_edgeNodes hs hx hq hp).1 hk)
        ((hx.registered_iff q).2 ⟨k, hq⟩)⟩)
    (by
      rintro M hroot hstep j ⟨p, hp, hreach⟩
      induction hreach generalizing j with
      | root _ hpos => exact hroot j ((hroots j).2 ⟨_, hp, hpos⟩)
      | @step q p hq hmem _ ih =>
        obtain ⟨k, hk⟩ := (hx.registered_iff q).1 hq.registered
        exact hstep k (ih k hk) j ((mem_edgeNodes hs hx hp hk).2 hmem))
    i
  rw [hall]
  constructor
  · rintro ⟨p, hp, hreach⟩
    rwa [hx.lists.node_unique hi hp]
  · intro hreach
    exact ⟨r, hi, hreach⟩

theorem mem_garbage (hs : h.Sound out) (hx : h.Chained xs) (r : Ref) :
    r ∈ (h.snapshotOf xs).garbage ↔ h.Registered r ∧ ¬ h.Reached r := by
  have hmark : ∀ i s, (i, s) ∈ xs →
      ((!((h.snapshotOf xs).reachable[i]?).getD false) = true ↔ ¬ h.Reached s) := by
    intro i s hi
    rw [← marked_iff hs hx hi, Snapshot.Marked]
    cases hm : (h.snapshotOf xs).reachable[i]? with
    | none => simp
    | some b => cases b <;> simp
  simp only [Snapshot.garbage, List.mem_map, List.mem_filter]
  constructor
  · rintro ⟨⟨i, s⟩, ⟨hm, hun⟩, rfl⟩
    exact ⟨(hx.registered_iff s).2 ⟨i, hm⟩, (hmark i s hm).1 hun⟩
  · rintro ⟨hreg, hun⟩
    obtain ⟨i, hi⟩ := (hx.registered_iff r).1 hreg
    exact ⟨(i, r), ⟨hi, (hmark i r hi).2 hun⟩, rfl⟩

theorem garbage_distinct (hx : h.Chained xs) : (h.snapshotOf xs).garbage.Nodup :=
  hx.refs_distinct.sublist (List.filter_sublist.map _)

end Chained

end Heap

end ScriptMachine
