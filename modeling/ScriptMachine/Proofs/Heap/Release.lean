import ScriptMachine.Proofs.Heap.Accounts

/-!
# Keeping the accounts

Storing, sharing and letting go keep a store sound when the references that
change hands are counted. Letting go only takes objects away: whoever is still
referred to keeps contents, node and handle.
-/

set_option autoImplicit false

namespace ScriptMachine.Heap

/-! ## What letting go leaves -/

/-- The second store has lost objects and counts of the first and nothing else. -/
structure Trims (h h' : Heap) : Prop where
  size : h'.cells.size = h.cells.size
  cell : ∀ r c', h'.cell? r = some c' →
    ∃ c, h.cell? r = some c ∧ c'.body = c.body ∧ c'.link = c.link ∧ c'.handle = c.handle

namespace Trims

variable {h h' h'' : Heap}

theorem refl (h : Heap) : Trims h h where
  size := rfl
  cell := fun _ c' hc => ⟨c', hc, rfl, rfl, rfl⟩

theorem trans (h1 : Trims h h') (h2 : Trims h' h'') : Trims h h'' where
  size := h2.size.trans h1.size
  cell := by
    intro r c'' hc
    obtain ⟨c', hc', hb, hl, hh⟩ := h2.cell r c'' hc
    obtain ⟨c, hc0, hb0, hl0, hh0⟩ := h1.cell r c' hc'
    exact ⟨c, hc0, hb.trans hb0, hl.trans hl0, hh.trans hh0⟩

theorem body? (ht : Trims h h') {r : Ref} {b : Body} (hb : h'.body? r = some b) :
    h.body? r = some b := by
  obtain ⟨c', hc', rfl⟩ := cell?_of_body? hb
  obtain ⟨c, hc, heq, -, -⟩ := ht.cell r c' hc'
  rw [body?_of_cell? hc, heq]

theorem refsOf (ht : Trims h h') {r : Ref} {c' : Cell} (hc : h'.cell? r = some c') :
    h'.refsOf r = h.refsOf r := by
  obtain ⟨c, hc0, hb, -, hh⟩ := ht.cell r c' hc
  rw [refsOf_of_cell? hc, refsOf_of_cell? hc0, Cell.refs, Cell.refs, hb, hh]

end Trims

theorem trims_remove (h : Heap) (r : Ref) (c : Cell) : Trims h (h.remove r c) where
  size := size_remove h r c
  cell := by
    intro s c' hc
    rw [cell?_remove] at hc
    split at hc
    · cases hc
    · exact ⟨c', hc, rfl, rfl, rfl⟩

theorem trims_setStrong {h : Heap} {r : Ref} {c : Cell} (hc : h.cell? r = some c) (n : Nat) :
    Trims h (h.setCell r { c with strong := n }) where
  size := size_setCell h r _
  cell := by
    intro s c' hs
    rw [cell?_setCell (cell?_lt hc)] at hs
    split at hs
    · rename_i heq
      subst heq
      cases hs
      exact ⟨c, hc, rfl, rfl, rfl⟩
    · exact ⟨c', hs, rfl, rfl, rfl⟩

/-! ## The work of letting go, one reference at a time -/

theorem releaseRefs_dead {h : Heap} {r : Ref} (rest : List Ref) (hc : h.cell? r = none) :
    h.releaseRefs (r :: rest) = h.releaseRefs rest := by
  rw [releaseRefs]
  split
  · rfl
  · rename_i hc'
    rw [hc] at hc'
    cases hc'

theorem releaseRefs_last {h : Heap} {r : Ref} {c : Cell} (rest : List Ref)
    (hc : h.cell? r = some c) (hle : c.strong ≤ 1) :
    h.releaseRefs (r :: rest) = (h.remove r c).releaseRefs (c.refs ++ rest) := by
  rw [releaseRefs]
  split
  · rename_i hc'
    rw [hc] at hc'
    cases hc'
  · rename_i c' hc'
    rw [hc] at hc'
    cases hc'
    rw [if_pos hle]

theorem releaseRefs_shared {h : Heap} {r : Ref} {c : Cell} (rest : List Ref)
    (hc : h.cell? r = some c) (hgt : ¬ c.strong ≤ 1) :
    h.releaseRefs (r :: rest) =
      (h.setCell r { c with strong := c.strong - 1 }).releaseRefs rest := by
  rw [releaseRefs]
  split
  · rename_i hc'
    rw [hc] at hc'
    cases hc'
  · rename_i c' hc'
    rw [hc] at hc'
    cases hc'
    rw [if_neg hgt]

@[simp] theorem releaseRefs_nil (h : Heap) : h.releaseRefs [] = h := by
  rw [releaseRefs]

theorem trims_releaseRefs (h : Heap) (work : List Ref) : Trims h (h.releaseRefs work) := by
  induction h, work using releaseRefs.induct with
  | case1 h => rw [releaseRefs_nil]; exact .refl h
  | case2 h r rest hc ih => rw [releaseRefs_dead rest hc]; exact ih
  | case3 h r rest c hc hle ih =>
    rw [releaseRefs_last rest hc hle]
    exact (trims_remove h r c).trans ih
  | case4 h r rest c hc hgt ih =>
    rw [releaseRefs_shared rest hc hgt]
    exact (trims_setStrong hc _).trans ih

/-! ## One cell changes -/

theorem strongOf_change {h h' : Heap} {r : Ref} {c' : Cell}
    (hcell : ∀ s, h'.cell? s = if s = r then some c' else h.cell? s) (s : Ref) :
    h'.strongOf s = if s = r then c'.strong else h.strongOf s := by
  simp only [strongOf, hcell]
  by_cases hs : s = r <;> simp [hs]

theorem node?_change {h h' : Heap} {r : Ref} {c c' : Cell} (hc : h.cell? r = some c)
    (hcell : ∀ s, h'.cell? s = if s = r then some c' else h.cell? s) (hlink : c'.link = c.link)
    (s : Ref) : h'.node? s = h.node? s := by
  by_cases hs : s = r
  · subst hs
    obtain ⟨strong, link, handle, body⟩ := c
    obtain ⟨strong', link', handle', body'⟩ := c'
    cases hlink
    simp only [node?, hcell, if_true, hc]
    cases link <;> rfl
  · simp only [node?, hcell, if_neg hs]

theorem held_change_cell {h h' : Heap} {r : Ref} {c c' : Cell} (hc : h.cell? r = some c)
    (hsize : h'.cells.size = h.cells.size)
    (hcell : ∀ s, h'.cell? s = if s = r then some c' else h.cell? s) (s : Ref) :
    h'.held s + c.refs.count s = h.held s + c'.refs.count s := by
  have hr' : h'.cell? r = some c' := by simp [hcell]
  have := held_change hsize (cell?_lt hc) (fun s hs => by rw [hcell, if_neg hs]) s
  rwa [refsOf_of_cell? hc, refsOf_of_cell? hr'] at this

theorem isLeaf_change {h h' : Heap} {r : Ref} {c c' : Cell} (hc : h.cell? r = some c)
    (hcell : ∀ s, h'.cell? s = if s = r then some c' else h.cell? s)
    (hleaf : c'.body.isLeaf = c.body.isLeaf) (s : Ref) :
    (h'.body? s).map Body.isLeaf = (h.body? s).map Body.isLeaf := by
  simp only [body?, hcell]
  split
  · rename_i heq
    simp [heq, hc, hleaf]
  · rfl

theorem single_count (r s : Ref) : [r].count s = if s = r then 1 else 0 := by
  by_cases hs : s = r
  · subst hs
    simp
  · simp [hs, Ne.symm hs]

namespace Sound

variable {out out' : Ref → Nat} {h h' : Heap}

theorem congr (hs : Sound out h) (heq : ∀ r, out' r = out r) : Sound out' h where
  accounts := fun r => by rw [heq]; exact hs.accounts r
  positive := hs.positive
  older := hs.older
  handles := hs.handles
  collectable := hs.collectable
  chained := hs.chained

/-- A cell changes in place. What it held before and holds after, and the change
of its count, are made up for outside. -/
theorem update {r : Ref} {c : Cell} (c' : Cell) (hs : Sound out h) (hc : h.cell? r = some c)
    (hsize : h'.cells.size = h.cells.size) (hchain : h'.chain = h.chain)
    (hcell : ∀ s, h'.cell? s = if s = r then some c' else h.cell? s)
    (hlink : c'.link = c.link) (hpos : 0 < c'.strong)
    (hold : ∀ s ∈ c'.body.fixedRefs, s.id < r.id)
    (hhandle : ∀ w, c'.handle = some w → (h.body? w).map Body.isLeaf = some true)
    (hleaf : c'.body.isLeaf = c.body.isLeaf)
    (hout : ∀ s, out' s + c'.refs.count s + [r].count s * c.strong =
      out s + c.refs.count s + [r].count s * c'.strong) : Sound out' h' := by
  have hr' : h'.cell? r = some c' := by simp [hcell]
  constructor
  case accounts =>
    intro s
    have hacc := hs.accounts s
    have hheld := held_change_cell hc hsize hcell s
    have ho := hout s
    rw [strongOf_change hcell]
    rw [single_count] at ho
    by_cases hsr : s = r
    · subst hsr
      rw [strongOf_of_cell? hc] at hacc
      simp only [if_true, Nat.one_mul] at ho ⊢
      omega
    · simp only [if_neg hsr, Nat.zero_mul] at ho ⊢
      omega
  case positive =>
    intro s d hd
    rw [hcell] at hd
    split at hd
    · cases hd
      exact hpos
    · exact hs.positive s d hd
  case older =>
    intro s d hd
    rw [hcell] at hd
    split at hd
    · rename_i heq
      subst heq
      cases hd
      exact hold
    · exact hs.older s d hd
  case handles =>
    intro s d w hd hw
    rw [isLeaf_change hc hcell hleaf]
    rw [hcell] at hd
    split at hd
    · cases hd
      exact hhandle w hw
    · exact hs.handles s d w hd hw
  case collectable =>
    intro s i d hd hl
    rw [hcell] at hd
    split at hd
    · cases hd
      rw [hleaf]
      exact hs.collectable r i c hc (hlink ▸ hl)
    · exact hs.collectable s i d hd hl
  case chained =>
    obtain ⟨xs, hx⟩ := hs.chained
    refine ⟨xs, hchain ▸ hx.lists, hchain ▸ hx.live, fun i s => ?_⟩
    rw [hx.linked, node?_change hc hcell hlink]

/-! ## Sharing and storing -/

theorem retainRef {r : Ref} {c : Cell} (hs : Sound out h) (hc : h.cell? r = some c) :
    Sound (fun s => out s + [r].count s) (h.retainRef r) := by
  refine update { c with strong := c.strong + 1 } hs hc (size_modifyCell ..) rfl ?_ rfl
    (Nat.succ_pos _) (hs.older r c hc) (fun w => hs.handles r c w hc) rfl ?_
  · intro s
    simp [Heap.retainRef, hc]
  · intro s
    simp only [Cell.refs, Nat.mul_add]
    omega

/-- Another body takes the place of one; the references change hands. -/
theorem setBody {r : Ref} {c : Cell} {b : Body} (hs : Sound out h) (hc : h.cell? r = some c)
    (hold : ∀ s ∈ b.fixedRefs, s.id < r.id) (hleaf : b.isLeaf = c.body.isLeaf)
    (hout : ∀ s, out' s + b.refs.count s = out s + c.body.refs.count s) :
    Sound out' (h.setBody r b) := by
  refine update { c with body := b } hs hc (size_modifyCell ..) rfl ?_ rfl
    (hs.positive r c hc) hold (fun w => hs.handles r c w hc) hleaf ?_
  · intro s
    simp [Heap.setBody, hc]
  · intro s
    have := hout s
    simp only [Cell.refs, List.count_append]
    omega

theorem lend {r : Ref} {c : Cell} (hs : Sound (fun s => out s + [r].count s) h)
    (hc : h.cell? r = some c) (hgt : ¬ c.strong ≤ 1) :
    Sound out (h.setCell r { c with strong := c.strong - 1 }) := by
  refine update _ hs hc (size_setCell ..) rfl (fun s => cell?_setCell (cell?_lt hc) s _) rfl
    (by simp only; omega) (hs.older r c hc) (fun w => hs.handles r c w hc) rfl ?_
  intro s
  simp only [Cell.refs, single_count]
  split <;> omega

/-! ## Letting go -/

theorem chained_remove {r : Ref} {c : Cell} {xs : List (Nat × Ref)} (hx : h.Chained xs)
    (hc : h.cell? r = some c) : ∃ ys, (h.remove r c).Chained ys := by
  have hnode : ∀ s, (h.remove r c).node? s = if s = r then none else h.node? s := by
    intro s
    simp only [node?, cell?_remove]
    by_cases hsr : s = r <;> simp [hsr]
  cases hl : c.link with
  | linked i =>
    have hr : h.node? r = some i := node?_eq_some.2 ⟨c, hc, hl⟩
    obtain ⟨ys, zs, rfl⟩ := List.append_of_mem ((hx.linked i r).2 hr)
    obtain ⟨hlists, hstats⟩ := hx.lists.release
    have hchain : (h.remove r c).chain = h.chain.release i := by simp [remove, hl]
    refine ⟨ys ++ zs, hchain ▸ hlists, ?_, fun j s => ?_⟩
    · rw [hchain, hstats, hx.live]
      simp only [List.length_append, List.length_cons]
      omega
    · rw [hx.mem_without, hnode]
      by_cases hsr : s = r <;> simp [hsr]
  | fresh | detached =>
    have hchain : (h.remove r c).chain = h.chain := by simp [remove, hl]
    refine ⟨xs, hchain ▸ hx.lists, hchain ▸ hx.live, fun j s => ?_⟩
    rw [hx.linked, hnode]
    by_cases hsr : s = r
    · subst hsr
      simp [node?_eq_some, hc, hl]
    · rw [if_neg hsr]

theorem remove {r : Ref} {c : Cell} (hs : Sound (fun s => out s + [r].count s) h)
    (hc : h.cell? r = some c) (hle : c.strong ≤ 1) :
    Sound (fun s => out s + c.refs.count s) (h.remove r c) := by
  have hsize := size_remove h r c
  have hheld : ∀ s, (h.remove r c).held s + c.refs.count s = h.held s := by
    intro s
    have hdead : (h.remove r c).refsOf r = [] := refsOf_of_dead (by simp)
    have := held_change hsize (cell?_lt hc) (fun s hsr => by rw [cell?_remove, if_neg hsr]) s
    rw [refsOf_of_cell? hc, hdead] at this
    simpa using this
  have hr := hs.accounts r
  rw [strongOf_of_cell? hc] at hr
  simp only [List.count_singleton_self] at hr
  have hfree : ∀ p, r ∉ h.refsOf p := fun p hp => by have := held_pos hp; omega
  constructor
  case accounts =>
    intro s
    have hacc := hs.accounts s
    have := hheld s
    by_cases hsr : s = r
    · subst hsr
      have hdead : (h.remove s c).strongOf s = 0 := by simp [strongOf]
      omega
    · have hsame : (h.remove r c).strongOf s = h.strongOf s := by simp [strongOf, hsr]
      rw [single_count, if_neg hsr] at hacc
      omega
  case positive =>
    intro s d hd
    rw [cell?_remove] at hd
    split at hd
    · cases hd
    · exact hs.positive s d hd
  case older =>
    intro s d hd
    rw [cell?_remove] at hd
    split at hd
    · cases hd
    · exact hs.older s d hd
  case handles =>
    intro s d w hd hw
    rw [cell?_remove] at hd
    split at hd
    · cases hd
    · have hne : w ≠ r := by
        rintro rfl
        refine hfree s ?_
        simp [refsOf_of_cell? hd, Cell.refs, hw]
      have hwr := hs.handles s d w hd hw
      simpa [body?, hne] using hwr
  case collectable =>
    intro s i d hd
    rw [cell?_remove] at hd
    split at hd
    · cases hd
    · exact hs.collectable s i d hd
  case chained =>
    obtain ⟨xs, hx⟩ := hs.chained
    exact chained_remove hx hc

theorem releaseRefs {work : List Ref} (hs : Sound (fun s => out s + work.count s) h) :
    Sound out (h.releaseRefs work) := by
  induction h, work using releaseRefs.induct with
  | case1 h =>
    rw [releaseRefs_nil]
    exact hs.congr fun s => by simp
  | case2 h r rest hc ih =>
    have hr := hs.accounts r
    simp only [strongOf, hc, List.count_cons_self] at hr
    omega
  | case3 h r rest c hc hle ih =>
    rw [releaseRefs_last rest hc hle]
    have hs' : Sound (fun s => (out s + rest.count s) + [r].count s) h :=
      hs.congr fun s => by rw [List.count_cons, List.count_cons, List.count_nil]; omega
    exact ih ((hs'.remove hc hle).congr fun s => by rw [List.count_append]; omega)
  | case4 h r rest c hc hgt ih =>
    rw [releaseRefs_shared rest hc hgt]
    have hs' : Sound (fun s => (out s + rest.count s) + [r].count s) h :=
      hs.congr fun s => by rw [List.count_cons, List.count_cons, List.count_nil]; omega
    exact ih (hs'.lend hc hgt)

end Sound

end ScriptMachine.Heap
