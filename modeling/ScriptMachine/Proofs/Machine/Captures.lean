import ScriptMachine.Machine.OpenOuters
import ScriptMachine.Proofs.Heap.Classes
import ScriptMachine.Proofs.Search

/-!
# The list of open cells

The list holds every open cell, each for a slot of its own, by ascending slot.
Closing from a slot on keeps it so, and capturing a slot while no closed cell
stands before an open one. Where cells are closed through the list alone, it holds
open cells only.
-/

set_option autoImplicit false

namespace ScriptMachine

namespace Heap

variable {l : Law} {own : Multiset Value} {h h' h'' : Heap}

/-! ## Changes that close cells -/

/-- Like `Evolves`, but cells may be opened and closed. -/
structure Drifts (h h' : Heap) : Prop where
  size : h.cells.size ≤ h'.cells.size
  kind : ∀ r b', r.id < h.cells.size → h'.body? r = some b' → ∃ b, h.body? r = some b ∧ b'.kind = b.kind
  closure : ∀ r c, r.id < h.cells.size → h'.closure? r = some c → h.closure? r = some c

theorem Evolves.drifts (he : Evolves h h') : Drifts h h' where
  size := he.size
  kind := by
    intro r b' hr hb'
    obtain ⟨b, hb, hl⟩ := he.old r b' hr hb'
    exact ⟨b, hb, hl.kind_eq⟩
  closure := by
    intro r c hr hc
    obtain ⟨b, hb, hl⟩ := he.old r _ hr (closure?_eq_some.1 hc)
    cases hl
    exact closure?_eq_some.2 hb

namespace Drifts

theorem refl (h : Heap) : Drifts h h := (Evolves.refl h).drifts

theorem trans (h1 : Drifts h h') (h2 : Drifts h' h'') : Drifts h h'' where
  size := Nat.le_trans h1.size h2.size
  kind := by
    intro r b'' hr hb''
    obtain ⟨b', hb', hk'⟩ := h2.kind r b'' (Nat.lt_of_lt_of_le hr h1.size) hb''
    obtain ⟨b, hb, hk⟩ := h1.kind r b' hr hb'
    exact ⟨b, hb, hk'.trans hk⟩
  closure := fun r c hr hc => h1.closure r c hr (h2.closure r c (Nat.lt_of_lt_of_le hr h1.size) hc)

/-- A script function that lives on is the same. -/
theorem keeps_closure (hd : Drifts h h') {r : Ref} {c : ClosureObject} (hc : h.closure? r = some c)
    (hv : h'.Has (.closure r)) : h'.closure? r = some c := by
  obtain ⟨c', hc'⟩ := hv.closure
  have hr := body?_lt (closure?_eq_some.1 hc)
  have := hd.closure r c' hr (closure?_eq_some.2 hc')
  rw [hc, Option.some.injEq] at this
  rw [this]
  exact closure?_eq_some.2 hc'

end Drifts

theorem stackIndex?_eq_some {r : Ref} {i : Nat} :
    h.stackIndex? r = some i ↔ h.outerState? r = some (.opened i) := by
  unfold stackIndex?
  cases hs : h.outerState? r with
  | none => simp
  | some s => cases s <;> simp

theorem outerState?_eq_some {r : Ref} {s : OuterState} :
    h.outerState? r = some s ↔ h.body? r = some (.outer s) := by
  unfold outerState?
  cases h.body? r with
  | none => simp
  | some b => cases b <;> simp

/-- A cell that is there in the end was a cell before. -/
theorem Drifts.outerState? (hd : Drifts h h') {c : Ref} {s' : OuterState}
    (hc : c.id < h.cells.size) (hs' : h'.outerState? c = some s') :
    ∃ s, h.outerState? c = some s := by
  obtain ⟨b, hb, hkind⟩ := hd.kind c _ hc (outerState?_eq_some.1 hs')
  cases b with
  | outer s => exact ⟨s, outerState?_eq_some.2 hb⟩
  | content | weak | array | dict | closure | native | classObject | instanceObject => cases hkind

/-! ## The list -/

/-- The first cell belongs to a lower slot than the second. -/
def Below (h : Heap) (c d : Ref) : Prop :=
  ∀ i j, h.stackIndex? c = some i → h.stackIndex? d = some j → i < j

/-- The open cells are those of the list, by ascending slot. -/
structure OpensIn (cells : List Ref) (h : Heap) : Prop where
  opened : ∀ c ∈ cells, ∃ i, h.stackIndex? c = some i
  ascending : cells.Pairwise h.Below
  listed : ∀ c i, h.stackIndex? c = some i → c ∈ cells

/-- Every open cell is in the list, by ascending slot. Closed cells may stand
anywhere among them. -/
structure Lists (cells : List Ref) (h : Heap) : Prop where
  ascending : cells.Pairwise h.Below
  listed : ∀ c i, h.stackIndex? c = some i → c ∈ cells

/-- No closed cell of the list stands before an open one. -/
def InOrder (cells : List Ref) (h : Heap) : Prop :=
  cells.Pairwise fun c d => (h.stackIndex? d).isSome → (h.stackIndex? c).isSome

instance (cells : List Ref) (h : Heap) : Decidable (h.InOrder cells) :=
  inferInstanceAs (Decidable (List.Pairwise _ _))

namespace Lists

variable {cells : List Ref}

/-- No cell has been opened, nor moved to another slot. -/
theorem of_back (hl : h.Lists cells)
    (hback : ∀ c i, h'.stackIndex? c = some i → h.stackIndex? c = some i) : h'.Lists cells where
  ascending := hl.ascending.imp fun hlt i j hi hj => hlt i j (hback _ i hi) (hback _ j hj)
  listed := fun c i hc => hl.listed c i (hback c i hc)

theorem lt_of_lt {cells : Array Ref} (hl : h.Lists cells.toList) {i j : Nat} {c d : Ref} {a b : Nat}
    (hij : i < j) (hc : cells[i]? = some c) (hd : cells[j]? = some d) (ha : h.stackIndex? c = some a)
    (hb : h.stackIndex? d = some b) : a < b := by
  obtain ⟨hi, rfl⟩ := Array.getElem?_eq_some_iff.1 hc
  obtain ⟨hj, rfl⟩ := Array.getElem?_eq_some_iff.1 hd
  have := List.pairwise_iff_getElem.1 hl.ascending i j (by simpa using hi) (by simpa using hj) hij
  simp only [Array.getElem_toList] at this
  exact this a b ha hb

/-- A slot has one open cell. -/
theorem unique (hl : h.Lists cells) {c d : Ref} {i : Nat} (hc : h.stackIndex? c = some i)
    (hd : h.stackIndex? d = some i) : c = d := by
  have hl' : h.Lists cells.toArray.toList := hl
  obtain ⟨j, hj⟩ := List.mem_iff_getElem?.1 (hl.listed c i hc)
  obtain ⟨k, hk⟩ := List.mem_iff_getElem?.1 (hl.listed d i hd)
  have hj' : cells.toArray[j]? = some c := by rwa [List.getElem?_toArray]
  have hk' : cells.toArray[k]? = some d := by rwa [List.getElem?_toArray]
  rcases Nat.lt_trichotomy j k with hlt | rfl | hgt
  · exact absurd (hl'.lt_of_lt hlt hj' hk' hc hd) (Nat.lt_irrefl i)
  · exact Option.some.inj (hj.symm.trans hk)
  · exact absurd (hl'.lt_of_lt hgt hk' hj' hd hc) (Nat.lt_irrefl i)

theorem opensIn (hl : h.Lists cells) (ho : ∀ c ∈ cells, ∃ i, h.stackIndex? c = some i) :
    h.OpensIn cells :=
  ⟨ho, hl.ascending, hl.listed⟩

end Lists

/-- What stands before an open cell is open. -/
theorem InOrder.opened_of_lt {cells : Array Ref} (ho : h.InOrder cells.toList) {i j b : Nat}
    {c d : Ref} (hij : i < j) (hc : cells[i]? = some c) (hd : cells[j]? = some d)
    (hb : h.stackIndex? d = some b) : ∃ a, h.stackIndex? c = some a := by
  obtain ⟨hi, rfl⟩ := Array.getElem?_eq_some_iff.1 hc
  obtain ⟨hj, rfl⟩ := Array.getElem?_eq_some_iff.1 hd
  have := List.pairwise_iff_getElem.1 ho i j (by simpa using hi) (by simpa using hj) hij
  simp only [Array.getElem_toList] at this
  exact Option.isSome_iff_exists.1 (this (hb ▸ rfl))

namespace OpensIn

variable {cells : List Ref}

theorem lists (ho : h.OpensIn cells) : h.Lists cells := ⟨ho.ascending, ho.listed⟩

theorem inOrder (ho : h.OpensIn cells) : h.InOrder cells :=
  List.Pairwise.imp_of_mem (fun hc _ _ _ => Option.isSome_iff_exists.2 (ho.opened _ hc)) ho.ascending

/-- A later heap in which the cells live has the same open cells. -/
theorem evolve (ho : h.OpensIn cells) (he : Evolves h h') (hv : ∀ c ∈ cells, h'.Has (.outer c)) :
    h'.OpensIn cells := by
  refine (ho.lists.of_back fun c i hc =>
    stackIndex?_eq_some.2 (he.opened (stackIndex?_eq_some.1 hc))).opensIn fun c hc => ?_
  obtain ⟨i, hi⟩ := ho.opened c hc
  obtain ⟨s, hs⟩ := (hv c hc).outer
  exact ⟨i, stackIndex?_eq_some.2 (he.opened_of_alive (stackIndex?_eq_some.1 hi) hs)⟩

end OpensIn

/-- What closing cells does: a part of the list is left, whose cells are as they
were, and it still has every open one. -/
structure Shortens (cells cells' : List Ref) (h h' : Heap) : Prop where
  drifts : h.Drifts h'
  sublist : cells'.Sublist cells
  kept : ∀ c ∈ cells', h'.stackIndex? c = h.stackIndex? c
  back : ∀ c i, h'.stackIndex? c = some i → h.stackIndex? c = some i
  lists : h'.Lists cells'

namespace Shortens

variable {cells cells' cells'' : List Ref}

theorem refl (hl : h.Lists cells) : Shortens cells cells h h :=
  ⟨.refl h, .refl cells, fun _ _ => rfl, fun _ _ hc => hc, hl⟩

theorem trans (h1 : Shortens cells cells' h h') (h2 : Shortens cells' cells'' h' h'') :
    Shortens cells cells'' h h'' where
  drifts := h1.drifts.trans h2.drifts
  sublist := h2.sublist.trans h1.sublist
  kept := fun c hc => (h2.kept c hc).trans (h1.kept c (h2.sublist.subset hc))
  back := fun c i hc => h1.back c i (h2.back c i hc)
  lists := h2.lists

theorem opensIn (hs : Shortens cells cells' h h') (ho : h.OpensIn cells) : h'.OpensIn cells' :=
  hs.lists.opensIn fun c hc => by
    rw [hs.kept c hc]
    exact ho.opened c (hs.sublist.subset hc)

theorem inOrder (hs : Shortens cells cells' h h') (ho : h.InOrder cells) : h'.InOrder cells' := by
  refine (List.Pairwise.sublist hs.sublist ho).imp_of_mem fun {c d} hc hd hlt => ?_
  rw [hs.kept c hc, hs.kept d hd]
  exact hlt

end Shortens

/-! ## Closing one cell -/

/-- A living cell takes a value over and lets go of the one it had. No other cell
changes, except that it may die with that value. -/
theorem Backs.closeOuter {c : Ref} {v : Value} {st : OuterState} (hb : h.Backs l own)
    (hv : h.Has v) (hc : h.outerState? c = some st) :
    ((h.retain v).closeOuter c v).Backs l own ∧ h.Drifts ((h.retain v).closeOuter c v) ∧
      (∀ d i, ((h.retain v).closeOuter c v).stackIndex? d = some i →
        d ≠ c ∧ h.stackIndex? d = some i) ∧
      ∀ d i, d ≠ c → ((h.retain v).closeOuter c v).Has (.outer d) → h.stackIndex? d = some i →
        ((h.retain v).closeOuter c v).stackIndex? d = some i := by
  have h1 := hb.retain hv
  have hstate : (h.retain v).outerState? c = some st := by
    simp only [outerState?, body?_retain]
    exact hc
  have hbody := outerState?_eq_some.1 hstate
  cases st with
  | opened i =>
    have hclose : (h.retain v).closeOuter c v = (h.retain v).setBody c (.outer (.closed v)) := by
      simp only [Heap.closeOuter, hstate]
      rfl
    have hindex : ∀ d, ((h.retain v).setBody c (.outer (.closed v))).stackIndex? d =
        if d = c then none else h.stackIndex? d := by
      intro d
      by_cases hd : d = c
      · simp only [stackIndex?, outerState?, body?_setBody hbody, if_pos hd]
      · simp only [stackIndex?, outerState?, body?_setBody hbody, if_neg hd, body?_retain]
    rw [hclose]
    refine ⟨h1.backs.setBody_backs hbody rfl rfl trivial Kind.noConfusion
        (le_of_eq (by simp [Body.values])),
      h1.evolves.drifts.trans ⟨Nat.le_of_eq (size_modifyCell ..).symm, fun r b' _ hb' => ?_,
        fun r d _ hd => ?_⟩, fun d j hd => ?_, fun d j hne _ hd => ?_⟩
    · rw [body?_setBody hbody] at hb'
      split at hb'
      · rename_i heq
        cases hb'
        exact ⟨.outer (.opened i), heq ▸ hbody, rfl⟩
      · exact ⟨b', hb', rfl⟩
    · rw [closure?_eq_some, body?_setBody hbody] at hd
      split at hd
      · cases hd
      · exact closure?_eq_some.2 hd
    · rw [hindex] at hd
      split at hd
      · cases hd
      · rename_i hne
        exact ⟨hne, hd⟩
    · rw [hindex, if_neg hne, hd]
  | closed w =>
    have hclose : ((h.retain v).setClosed c v).2 = (h.retain v).closeOuter c v := by
      simp only [Heap.setClosed, hstate]
    have h2 := h1.trans (h1.backs.setClosed (r := c))
    rw [hclose] at h2
    have hback : ∀ d i, ((h.retain v).closeOuter c v).stackIndex? d = some i →
        h.stackIndex? d = some i := fun d i hd =>
      stackIndex?_eq_some.2 (h2.evolves.opened (stackIndex?_eq_some.1 hd))
    refine ⟨h2.backs, h2.evolves.drifts, fun d i hd => ⟨?_, hback d i hd⟩, fun d i _ hlive hd => ?_⟩
    · rintro rfl
      have := stackIndex?_eq_some.1 (hback d i hd)
      rw [hc] at this
      cases this
    · obtain ⟨s, hs⟩ := hlive.outer
      exact stackIndex?_eq_some.2 (h2.evolves.opened_of_alive (stackIndex?_eq_some.1 hd) hs)

end Heap

namespace OpenOuters

variable {l : Law} {own : Multiset Value} {h : Heap} {cells : Array Ref} {slot : Nat}

theorem slotOrder_of_opened {c : Ref} {i : Nat} (hc : h.stackIndex? c = some i) :
    slotOrder h c slot = compare i slot := by
  simp [slotOrder, hc]

theorem slotOrder_of_closed {c : Ref} (hc : h.stackIndex? c = none) :
    slotOrder h c slot = .gt := by
  simp [slotOrder, hc]

/-- A closed cell lies above every slot. -/
theorem isAbove_iff {j : Nat} {c : Ref} (hc : cells[j]? = some c) :
    isAbove h cells slot j = true ↔ ∀ i, h.stackIndex? c = some i → slot < i := by
  cases hi : h.stackIndex? c with
  | none => simp [isAbove, hc, slotOrder_of_closed hi]
  | some i => simp [isAbove, hc, slotOrder_of_opened hi, Nat.compare_eq_gt]

/-- In a list in order, what comes after a cell above the slot is above it. -/
theorem isAbove_mono (slot : Nat) (hl : h.Lists cells.toList) (ho : h.InOrder cells.toList)
    (i j : Nat) (hij : i ≤ j) (hj : j < cells.size) (hi : isAbove h cells slot i = true) :
    isAbove h cells slot j = true := by
  rcases Nat.lt_or_eq_of_le hij with hlt | rfl
  · have hc : cells[i]? = some cells[i] := Array.getElem?_eq_getElem (by omega)
    have hd : cells[j]? = some cells[j] := Array.getElem?_eq_getElem hj
    refine (isAbove_iff hd).2 fun b hb => ?_
    obtain ⟨a, ha⟩ := ho.opened_of_lt hlt hc hd hb
    exact Nat.lt_trans ((isAbove_iff hc).1 hi a ha) (hl.lt_of_lt hlt hc hd ha hb)
  · exact hi

/-- A cell for the slot belongs at the place: the cells before it are open for lower
slots, and those from there on that are open are open for higher ones. -/
structure BelongsAt (h : Heap) (cells : Array Ref) (slot k : Nat) : Prop where
  le : k ≤ cells.size
  before : ∀ j c, j < k → cells[j]? = some c → ∃ i, h.stackIndex? c = some i ∧ i < slot
  after : ∀ j c i, k ≤ j → cells[j]? = some c → h.stackIndex? c = some i → slot < i

/-- The cell belongs first when all open ones are above it. -/
theorem BelongsAt.first
    (h0 : ∀ j c i, 0 ≤ j → cells[j]? = some c → h.stackIndex? c = some i → slot < i) :
    BelongsAt h cells slot 0 :=
  ⟨Nat.zero_le _, fun j _ hj => absurd hj (Nat.not_lt_zero j), h0⟩

/-- The cell belongs right behind one that is open for a lower slot. -/
theorem BelongsAt.behind {k a : Nat} {c : Ref} (hl : h.Lists cells.toList)
    (ho : h.InOrder cells.toList) (hk : cells[k]? = some c) (ha : h.stackIndex? c = some a)
    (hlt : a < slot)
    (hafter : ∀ j c i, k < j → cells[j]? = some c → h.stackIndex? c = some i → slot < i) :
    BelongsAt h cells slot (k + 1) := by
  refine ⟨(Array.getElem?_eq_some_iff.1 hk).1, fun j d hj hd => ?_, hafter⟩
  rcases Nat.lt_or_eq_of_le (Nat.le_of_lt_succ hj) with hj | rfl
  · obtain ⟨i, hi⟩ := ho.opened_of_lt hj hd hk ha
    exact ⟨i, hi, Nat.lt_trans (hl.lt_of_lt hj hd hk hi ha) hlt⟩
  · rw [hk, Option.some.injEq] at hd
    exact ⟨a, hd ▸ ha, hlt⟩

/-- The place of a slot in a list in order: its cell, or where one belongs. -/
theorem find_inOrder (slot : Nat) (hl : h.Lists cells.toList) (ho : h.InOrder cells.toList) :
    (∃ c, find h cells slot = .ok c ∧ c ∈ cells.toList ∧ h.stackIndex? c = some slot) ∨
      ∃ k, find h cells slot = .error k ∧ BelongsAt h cells slot k := by
  by_cases hempty : cells.size = 0
  · have hnone : ∀ k : Nat, cells[k]? = none := fun k => Array.getElem?_eq_none (by omega)
    refine .inr ⟨0, by simp [find, hnone], .first fun j c i _ hc => ?_⟩
    rw [hnone] at hc
    cases hc
  obtain ⟨hlt, hlow, hhigh⟩ :=
    Search.lastNotAbove_spec (isAbove_mono slot hl ho) (n := cells.size) (by omega)
  unfold find
  generalize Search.lastNotAbove (isAbove h cells slot) cells.size = k at hlt hlow hhigh ⊢
  have hk : cells[k]? = some cells[k] := Array.getElem?_eq_getElem hlt
  have hafter : ∀ j c i, k < j → cells[j]? = some c → h.stackIndex? c = some i → slot < i := by
    intro j c i hj hc hi
    obtain ⟨hjn, -⟩ := Array.getElem?_eq_some_iff.1 hc
    exact (isAbove_iff hc).1 (hhigh j hj hjn) i hi
  -- where the candidate lies above, it is the first, and so do all
  have hfirst : isAbove h cells slot k = true → k = 0 ∧ BelongsAt h cells slot 0 := by
    intro habove
    have hzero : k = 0 := by
      by_contra hne
      rw [hlow (by omega)] at habove
      cases habove
    subst hzero
    refine ⟨rfl, .first fun j c i hj hc hi => ?_⟩
    rcases Nat.lt_or_eq_of_le hj with hj | rfl
    · exact hafter j c i hj hc hi
    · exact (isAbove_iff hc).1 habove i hi
  cases ha : h.stackIndex? cells[k] with
  | none =>
    obtain ⟨rfl, hall⟩ := hfirst ((isAbove_iff hk).2 fun i hi => by rw [ha] at hi; cases hi)
    simp only [hk, slotOrder_of_closed ha]
    exact .inr ⟨0, rfl, hall⟩
  | some a =>
    simp only [hk, slotOrder_of_opened ha]
    rcases Nat.lt_trichotomy a slot with hlt | rfl | hgt
    · rw [Nat.compare_eq_lt.2 hlt]
      exact .inr ⟨k + 1, rfl, .behind hl ho hk ha hlt hafter⟩
    · rw [Nat.compare_eq_eq.2 rfl]
      exact .inl ⟨_, rfl, Array.mem_def.1 (Array.mem_of_getElem? hk), ha⟩
    · rw [Nat.compare_eq_gt.2 hgt]
      obtain ⟨rfl, hall⟩ := hfirst ((isAbove_iff hk).2 fun i hi => by
        rw [ha, Option.some.injEq] at hi
        omega)
      exact .inr ⟨0, rfl, hall⟩

/-- The place of a slot in the list: its cell, or where one belongs. -/
theorem find_spec (slot : Nat) (ho : h.OpensIn cells.toList) :
    (∃ c, find h cells slot = .ok c ∧ c ∈ cells.toList ∧ h.stackIndex? c = some slot) ∨
      ∃ k, find h cells slot = .error k ∧ k ≤ cells.size ∧
        (∀ j c i, j < k → cells[j]? = some c → h.stackIndex? c = some i → i < slot) ∧
        ∀ j c i, k ≤ j → cells[j]? = some c → h.stackIndex? c = some i → slot < i := by
  rcases find_inOrder slot ho.lists ho.inOrder with hc | ⟨k, hf, hk⟩
  · exact .inl hc
  · refine .inr ⟨k, hf, hk.le, fun j c i hj hc hi => ?_, hk.after⟩
    obtain ⟨a, ha, hlt⟩ := hk.before j c hj hc
    rw [hi, Option.some.injEq] at ha
    exact ha ▸ hlt

/-! ## Capturing -/

theorem pairwise_insertIdx {R : Ref → Ref → Prop} {xs : List Ref} {k : Nat} {a : Ref}
    (h : xs.Pairwise R) (hk : k ≤ xs.length) (hb : ∀ j c, j < k → xs[j]? = some c → R c a)
    (ha : ∀ j c, k ≤ j → xs[j]? = some c → R a c) : (xs.insertIdx k a).Pairwise R := by
  induction xs generalizing k with
  | nil =>
    have : k = 0 := by simpa using hk
    subst this
    exact List.pairwise_singleton _ _
  | cons x xs ih =>
    obtain ⟨hx, hr⟩ := List.pairwise_cons.1 h
    cases k with
    | zero =>
      rw [List.insertIdx_zero]
      refine List.pairwise_cons.2 ⟨fun c hc => ?_, h⟩
      obtain ⟨j, hj⟩ := List.mem_iff_getElem?.1 hc
      exact ha j c (Nat.zero_le j) hj
    | succ k =>
      have hlen : k ≤ xs.length := by simpa using hk
      rw [List.insertIdx_succ_cons]
      refine List.pairwise_cons.2 ⟨fun c hc => ?_, ih hr hlen (fun j c hj hc =>
        hb (j + 1) c (by omega) (by simpa using hc)) fun j c hj hc =>
          ha (j + 1) c (by omega) (by simpa using hc)⟩
      rcases List.mem_cons.1 ((List.perm_insertIdx a xs hlen).subset hc) with rfl | hc
      · exact hb 0 x (by omega) rfl
      · exact hx c hc

/-- The cells as values, each with its reference. -/
def values (cells : Array Ref) : List Value := cells.toList.map .outer

theorem mem_values {c : Ref} (hc : c ∈ cells.toList) :
    Value.outer c ∈ (values cells : Multiset Value) + own :=
  Multiset.mem_add.2 (.inl (Multiset.mem_coe.2 (List.mem_map_of_mem hc)))

/-- The heap with a new cell for a slot, twice referred to. -/
def withCell (h : Heap) (slot : Nat) : Heap :=
  (h.newOuter (.opened slot)).2.retainRef (h.newOuter (.opened slot)).1

theorem body?_withCell (h : Heap) (slot : Nat) (s : Ref) :
    (withCell h slot).body? s =
      if s = ⟨h.cells.size⟩ then some (.outer (.opened slot)) else h.body? s := by
  rw [withCell, Heap.body?_retainRef]
  exact Heap.body?_allocateLinked h _ s

theorem size_withCell (h : Heap) (slot : Nat) :
    (withCell h slot).cells.size = h.cells.size + 1 :=
  (Heap.size_modifyCell ..).trans (Heap.grows_allocateLinked h (.outer (.opened slot))).size

theorem stackIndex?_withCell (h : Heap) (slot : Nat) (s : Ref) :
    (withCell h slot).stackIndex? s =
      if s = ⟨h.cells.size⟩ then some slot else h.stackIndex? s := by
  by_cases hs : s = ⟨h.cells.size⟩
  · simp only [Heap.stackIndex?, Heap.outerState?, body?_withCell, if_pos hs]
  · simp only [Heap.stackIndex?, Heap.outerState?, body?_withCell, if_neg hs]

theorem drifts_withCell (h : Heap) (slot : Nat) : h.Drifts (withCell h slot) := by
  have hold : ∀ r : Ref, r.id < h.cells.size → (withCell h slot).body? r = h.body? r := by
    intro r hr
    rw [body?_withCell, if_neg]
    rintro rfl
    exact Nat.lt_irrefl _ hr
  refine ⟨?_, fun r b' hr hb' => ⟨b', hold r hr ▸ hb', rfl⟩, fun r c hr hc => ?_⟩
  · rw [size_withCell]
    exact Nat.le_succ _
  · rw [Heap.closure?_eq_some, hold r hr] at hc
    exact Heap.closure?_eq_some.2 hc

/-- What capturing a slot does: a cell of the list is open for it, and the others
are as they were. -/
structure Opens (slot : Nat) (c : Ref) (cells cells' : List Ref) (h h' : Heap) : Prop where
  drifts : h.Drifts h'
  index : ∀ d, h'.stackIndex? d = if d = c then some slot else h.stackIndex? d
  origin : h.stackIndex? c = some slot ∨ h.cells.size ≤ c.id
  alive : c.id < h'.cells.size
  members : ∀ d ∈ cells', d = c ∨ d ∈ cells
  lists : h'.Lists cells'
  inOrder : h'.InOrder cells'

/-- The cell of the slot is found. -/
theorem Opens.found {c : Ref} (hl : h.Lists cells.toList) (ho : h.InOrder cells.toList)
    (hd : h.Drifts (h.retainRef c)) (hc : h.stackIndex? c = some slot) :
    Opens slot c cells.toList cells.toList h (h.retainRef c) := by
  have hindex : ∀ d, (h.retainRef c).stackIndex? d = h.stackIndex? d := fun d => by
    simp only [Heap.stackIndex?, Heap.outerState?, Heap.body?_retainRef]
  refine ⟨hd, fun d => ?_, .inl hc, ?_, fun d hd => .inr hd,
    hl.of_back fun d i hd => by rwa [hindex] at hd, ho.imp fun hlt => ?_⟩
  · rw [hindex]
    split
    · rename_i heq
      rw [heq, hc]
    · rfl
  · refine Nat.lt_of_lt_of_eq ?_ (Heap.size_modifyCell ..).symm
    exact Heap.body?_lt (Heap.outerState?_eq_some.1 (Heap.stackIndex?_eq_some.1 hc))
  · rw [hindex, hindex]
    exact hlt

/-- A new cell is put where one belongs. -/
theorem Opens.made {k : Nat} (hl : h.Lists cells.toList) (ho : h.InOrder cells.toList)
    (hlive : ∀ d ∈ cells.toList, d.id < h.cells.size) (hk : BelongsAt h cells slot k) :
    Opens slot ⟨h.cells.size⟩ cells.toList (cells.toList.insertIdx k ⟨h.cells.size⟩) h
      (withCell h slot) := by
  have hnew : (withCell h slot).stackIndex? ⟨h.cells.size⟩ = some slot := by
    rw [stackIndex?_withCell, if_pos rfl]
  have hold : ∀ d ∈ cells.toList, (withCell h slot).stackIndex? d = h.stackIndex? d := by
    intro d hd
    rw [stackIndex?_withCell, if_neg]
    rintro rfl
    exact Nat.lt_irrefl _ (hlive _ hd)
  have hlen : k ≤ cells.toList.length := hk.le
  have hperm := List.perm_insertIdx (⟨h.cells.size⟩ : Ref) cells.toList hlen
  refine ⟨drifts_withCell h slot, stackIndex?_withCell h slot, .inr (Nat.le_refl _),
    size_withCell h slot ▸ Nat.lt_succ_self _, fun d hd => List.mem_cons.1 (hperm.subset hd),
    ⟨?_, fun c i hc => ?_⟩, ?_⟩
  · refine pairwise_insertIdx ?_ hlen ?_ ?_
    · refine hl.ascending.imp_of_mem fun {c d} hc hd hlt i j hi hj => ?_
      rw [hold c hc] at hi
      rw [hold d hd] at hj
      exact hlt i j hi hj
    · intro j c hj hc i i' hi hi'
      obtain ⟨a, ha, hlt⟩ := hk.before j c hj (by simpa using hc)
      rw [hold c (List.mem_of_getElem? hc), ha, Option.some.injEq] at hi
      rw [hnew, Option.some.injEq] at hi'
      omega
    · intro j c hj hc i i' hi hi'
      rw [hnew, Option.some.injEq] at hi
      rw [hold c (List.mem_of_getElem? hc)] at hi'
      have := hk.after j c i' hj (by simpa using hc) hi'
      omega
  · rw [stackIndex?_withCell] at hc
    split at hc
    · rename_i heq
      exact hperm.symm.subset (heq ▸ List.mem_cons_self)
    · exact hperm.symm.subset (List.mem_cons_of_mem _ (hl.listed c i hc))
  · refine pairwise_insertIdx ?_ hlen ?_ ?_
    · refine List.Pairwise.imp_of_mem (fun {c d} hc hd hlt => ?_) ho
      rw [hold c hc, hold d hd]
      exact hlt
    · intro j c hj hc _
      obtain ⟨a, ha, -⟩ := hk.before j c hj (by simpa using hc)
      rw [hold c (List.mem_of_getElem? hc), ha]
      rfl
    · intro j c hj hc _
      rw [hnew]
      rfl

/-- The new cell has an owner in the list and one outside. -/
theorem backs_withCell {k : Nat} (hk : k ≤ cells.size)
    (hb : h.Backs l ((values cells : Multiset Value) + own)) :
    (withCell h slot).Backs l (.outer ⟨h.cells.size⟩ ::ₘ
      ((values (cells.insertIdxIfInBounds k ⟨h.cells.size⟩) : Multiset Value) + own)) := by
  have hb0 : h.Backs l (((Body.outer (.opened slot)).values : Multiset Value) +
      ((values cells : Multiset Value) + own)) := hb.mono (by simp [Body.values])
  have hb1 := hb0.allocateLinked_backs (v := .outer ⟨h.cells.size⟩) rfl trivial rfl rfl
  have hm := hb1.retainRef (v := .outer ⟨h.cells.size⟩) (hb1.has (Multiset.mem_cons_self _ _)) rfl
  have hperm := List.perm_insertIdx (⟨h.cells.size⟩ : Ref) cells.toList (i := k) (by simpa using hk)
  refine hm.backs.mono (le_of_eq ?_)
  rw [values, Array.insertIdxIfInBounds, dif_pos hk, Array.toList_insertIdx,
    Multiset.coe_eq_coe.2 (hperm.map Value.outer), List.map_cons, coe_cons_add]
  rfl

theorem capture_inOrder (slot : Nat) (hl : h.Lists cells.toList) (ho : h.InOrder cells.toList)
    (hb : h.Backs l ((values cells : Multiset Value) + own)) :
    (capture h cells slot).2.2.Backs l (.outer (capture h cells slot).1 ::ₘ
        ((values (capture h cells slot).2.1 : Multiset Value) + own)) ∧
      Opens slot (capture h cells slot).1 cells.toList (capture h cells slot).2.1.toList h
        (capture h cells slot).2.2 := by
  rcases find_inOrder slot hl ho with ⟨c, hf, hc, hs⟩ | ⟨k, hf, hk⟩
  · have hm := hb.retainRef (v := .outer c) (hb.has (mem_values hc)) rfl
    simp only [capture, hf]
    exact ⟨hm.backs, .found hl ho hm.evolves.drifts hs⟩
  · have hlive : ∀ d ∈ cells.toList, d.id < h.cells.size := by
      intro d hd
      obtain ⟨s, hs⟩ := (hb.has (mem_values hd)).outer
      exact Heap.body?_lt hs
    have hmade := Opens.made hl ho hlive hk
    rw [← Array.toList_insertIdx hk.le] at hmade
    simp only [capture, hf]
    refine ⟨backs_withCell hk.le hb, ?_⟩
    rw [Array.insertIdxIfInBounds, dif_pos hk.le]
    exact hmade

/-- Capturing leaves the objects that there are as they were. -/
theorem body?_capture (slot : Nat) {d : Ref} (hd : d.id < h.cells.size) :
    (capture h cells slot).2.2.body? d = h.body? d := by
  unfold capture
  split
  · exact Heap.body?_retainRef ..
  · refine (body?_withCell h slot d).trans (if_neg ?_)
    rintro rfl
    exact Nat.lt_irrefl _ hd

theorem capture_spec (slot : Nat) (ho : h.OpensIn cells.toList)
    (hb : h.Backs l ((values cells : Multiset Value) + own)) :
    (capture h cells slot).2.2.Backs l (.outer (capture h cells slot).1 ::ₘ
        ((values (capture h cells slot).2.1 : Multiset Value) + own)) ∧
      (capture h cells slot).2.2.OpensIn (capture h cells slot).2.1.toList ∧
      h.Drifts (capture h cells slot).2.2 ∧
      ∀ r i, (capture h cells slot).2.2.outerState? r = some (.opened i) →
        h.outerState? r = some (.opened i) ∨ i = slot := by
  obtain ⟨hback, hc⟩ := capture_inOrder slot ho.lists ho.inOrder hb
  refine ⟨hback, hc.lists.opensIn fun d hd => ?_, hc.drifts, fun r i hr => ?_⟩
  · rw [hc.index]
    split
    · exact ⟨slot, rfl⟩
    · rename_i hne
      exact ho.opened d ((hc.members d hd).resolve_left hne)
  · rw [← Heap.stackIndex?_eq_some, hc.index] at hr
    split at hr
    · exact .inr (Option.some.inj hr).symm
    · exact .inl (Heap.stackIndex?_eq_some.1 hr)

/-! ## Closing -/

theorem coe_values_push (cells : Array Ref) (c : Ref) (own : Multiset Value) :
    (values (cells.push c) : Multiset Value) + own =
      .outer c ::ₘ ((values cells : Multiset Value) + own) := by
  rw [values, Array.toList_push, List.map_append, ← Multiset.coe_add, List.map_singleton,
    Multiset.coe_singleton, add_assoc, add_left_comm, Multiset.singleton_add, values]

/-- What a slot of the stack holds lives, and so does the null beyond its end. -/
theorem has_slot {stack : Array Value} (hb : h.Backs l ((values cells : Multiset Value) + own))
    (hs : ∀ v ∈ stack.toList, v ∈ own) (i : Nat) : h.Has ((stack[i]?).getD .null) := by
  cases hget : stack[i]? with
  | none => exact Heap.has_of_none rfl
  | some v =>
    have hm := hs v (Array.mem_def.1 (Array.mem_of_getElem? hget))
    exact hb.has (Multiset.mem_add.2 (.inr hm))

/-- The last cell leaves the list, which need not have it as it is not open. -/
theorem dropLast {h' : Heap} {c : Ref} (hl : h.Lists (cells.push c).toList)
    (hb : h'.Backs l ((values (cells.push c) : Multiset Value) + own)) (hd : h.Drifts h')
    (hback : ∀ d i, h'.stackIndex? d = some i → d ≠ c ∧ h.stackIndex? d = some i)
    (hkept : ∀ d i, d ≠ c → h'.Has (.outer d) → h.stackIndex? d = some i →
      h'.stackIndex? d = some i)
    (hne : ∀ i, h.stackIndex? c = some i → c ∉ cells.toList) :
    (h'.releaseRef c).Backs l ((values cells : Multiset Value) + own) ∧
      Heap.Shortens (cells.push c).toList cells.toList h (h'.releaseRef c) := by
  rw [coe_values_push] at hb
  have hm := hb.releaseRef (v := .outer c) rfl
  have hback' : ∀ d i, (h'.releaseRef c).stackIndex? d = some i →
      d ≠ c ∧ h.stackIndex? d = some i := fun d i hi =>
    hback d i (Heap.stackIndex?_eq_some.2 (hm.evolves.opened (Heap.stackIndex?_eq_some.1 hi)))
  rw [Array.toList_push] at hl ⊢
  refine ⟨hm.backs, hd.trans hm.evolves.drifts, List.sublist_append_left _ _, fun d hd => ?_,
    fun d i hi => (hback' d i hi).2,
    (List.pairwise_append.1 hl.ascending).1.imp fun hlt i j hi hj =>
      hlt i j (hback' _ i hi).2 (hback' _ j hj).2,
    fun d i hi => ?_⟩
  · cases hi : h.stackIndex? d with
    | none =>
      cases hi' : (h'.releaseRef c).stackIndex? d with
      | none => rfl
      | some j => rw [(hback' d j hi').2] at hi; cases hi
    | some i =>
      have hdc : d ≠ c := by
        rintro rfl
        exact hne i hi hd
      have hlive := hm.backs.has (mem_values hd)
      obtain ⟨s, hs⟩ := hlive.outer
      have h1 := hkept d i hdc (hb.has (Multiset.mem_cons_of_mem (mem_values hd))) hi
      exact Heap.stackIndex?_eq_some.2
        (hm.evolves.opened_of_alive (Heap.stackIndex?_eq_some.1 h1) hs)
  · obtain ⟨hdc, hi⟩ := hback' d i hi
    rcases List.mem_append.1 (hl.listed d i hi) with hm | hm
    · exact hm
    · exact absurd (List.mem_singleton.1 hm) hdc

/-- The last cell of the list takes a value over and is let go. -/
theorem shutLast {c : Ref} {i : Nat} {v : Value} (hl : h.Lists (cells.push c).toList)
    (hb : h.Backs l ((values (cells.push c) : Multiset Value) + own)) (hv : h.Has v)
    (hi : h.stackIndex? c = some i) :
    (((h.retain v).closeOuter c v).releaseRef c).Backs l ((values cells : Multiset Value) + own) ∧
      Heap.Shortens (cells.push c).toList cells.toList h
        (((h.retain v).closeOuter c v).releaseRef c) := by
  obtain ⟨hb1, hd1, hback, hkept⟩ := hb.closeOuter hv (Heap.stackIndex?_eq_some.1 hi)
  refine dropLast hl hb1 hd1 hback hkept fun j hj hm => ?_
  have := hl.ascending
  rw [Array.toList_push] at this
  exact Nat.lt_irrefl _ ((List.pairwise_append.1 this).2.2 c hm c (by simp) j j hj hj)

/-- The last cell of the list takes the value of its slot over and is let go. -/
theorem closeLast {c : Ref} {i : Nat} {v : Value} (ho : h.OpensIn (cells.push c).toList)
    (hb : h.Backs l ((values (cells.push c) : Multiset Value) + own)) (hv : h.Has v)
    (hi : h.stackIndex? c = some i) :
    (((h.retain v).closeOuter c v).releaseRef c).Backs l ((values cells : Multiset Value) + own) ∧
      (((h.retain v).closeOuter c v).releaseRef c).OpensIn cells.toList ∧
      h.Drifts (((h.retain v).closeOuter c v).releaseRef c) ∧
      ∀ d j, (((h.retain v).closeOuter c v).releaseRef c).outerState? d = some (.opened j) →
        h.outerState? d = some (.opened j) ∧ d ∈ cells.toList := by
  obtain ⟨hback, hs⟩ := shutLast ho.lists hb hv hi
  refine ⟨hback, hs.opensIn ho, hs.drifts, fun d j hd => ?_⟩
  rw [← Heap.stackIndex?_eq_some] at hd
  exact ⟨Heap.stackIndex?_eq_some.1 (hs.back d j hd), hs.lists.listed d j hd⟩

/-- Closing from a slot on closes just the open cells of the slots from there on,
wherever closed cells stand in the list. -/
theorem closeWithin_lists (slot : Nat) (stack : Array Value) (fuel closed : Nat) (hfuel : cells.size ≤ fuel)
    (hl : h.Lists cells.toList) (hb : h.Backs l ((values cells : Multiset Value) + own))
    (hs : ∀ v ∈ stack.toList, v ∈ own) :
    (closeWithin slot stack fuel h cells closed).2.2.Backs l
        ((values (closeWithin slot stack fuel h cells closed).2.1 : Multiset Value) + own) ∧
      Heap.Shortens cells.toList (closeWithin slot stack fuel h cells closed).2.1.toList h
        (closeWithin slot stack fuel h cells closed).2.2 ∧
      ∀ c i, (closeWithin slot stack fuel h cells closed).2.2.stackIndex? c = some i →
        i < slot := by
  induction fuel generalizing h cells closed with
  | zero =>
    have hempty : cells = #[] := Array.size_eq_zero_iff.1 (by omega)
    subst hempty
    refine ⟨hb, .refl hl, fun c i hc => ?_⟩
    cases hl.listed c i hc
  | succ fuel ih =>
    unfold closeWithin
    cases hback : cells.back? with
    | none =>
      have hempty : cells = #[] := Array.back?_eq_none_iff.1 hback
      subst hempty
      refine ⟨hb, .refl hl, fun c i hc => ?_⟩
      cases hl.listed c i hc
    | some c =>
      obtain ⟨rest, rfl⟩ := Array.back?_eq_some_iff.1 hback
      have hfuel1 : rest.size ≤ fuel := by
        rw [Array.size_push] at hfuel
        omega
      cases hi : h.stackIndex? c with
      | none =>
        simp only [hi, Array.pop_push]
        have hne : ∀ d i, h.stackIndex? d = some i → d ≠ c := by
          rintro d i hd rfl
          rw [hi] at hd
          cases hd
        obtain ⟨hb1, hs1⟩ := dropLast hl hb (.refl h) (fun d i hd => ⟨hne d i hd, hd⟩)
          (fun _ _ _ _ hd => hd) fun i h' => by rw [hi] at h'; cases h'
        obtain ⟨hb2, hs2, hlow⟩ := ih closed hfuel1 hs1.lists hb1
        exact ⟨hb2, hs1.trans hs2, hlow⟩
      | some i =>
        simp only [hi, Array.pop_push]
        split
        · rename_i hlt
          refine ⟨hb, .refl hl, fun d j hj => ?_⟩
          rw [Array.toList_push] at hl
          rcases List.mem_append.1 (hl.listed d j hj) with hm | hm
          · have := (List.pairwise_append.1 hl.ascending).2.2 d hm c (by simp) j i hj hi
            omega
          · rw [List.mem_singleton.1 hm, hi, Option.some.injEq] at hj
            omega
        · obtain ⟨hb1, hs1⟩ := shutLast hl hb (has_slot hb hs i) hi
          obtain ⟨hb2, hs2, hlow⟩ := ih (closed + 1) hfuel1 hs1.lists hb1
          exact ⟨hb2, hs1.trans hs2, hlow⟩

theorem closeWithin_spec {stack : Array Value} (fuel closed : Nat) (hfuel : cells.size ≤ fuel)
    (ho : h.OpensIn cells.toList) (hb : h.Backs l ((values cells : Multiset Value) + own))
    (hs : ∀ v ∈ stack.toList, v ∈ own) :
    (closeWithin slot stack fuel h cells closed).2.2.Backs l
        ((values (closeWithin slot stack fuel h cells closed).2.1 : Multiset Value) + own) ∧
      (closeWithin slot stack fuel h cells closed).2.2.OpensIn
        (closeWithin slot stack fuel h cells closed).2.1.toList ∧
      h.Drifts (closeWithin slot stack fuel h cells closed).2.2 ∧
      ∀ c i, (closeWithin slot stack fuel h cells closed).2.2.outerState? c = some (.opened i) →
        h.outerState? c = some (.opened i) ∧ i < slot := by
  obtain ⟨hback, hc, hlow⟩ := closeWithin_lists slot stack fuel closed hfuel ho.lists hb hs
  refine ⟨hback, hc.opensIn ho, hc.drifts, fun c i hi => ?_⟩
  rw [← Heap.stackIndex?_eq_some] at hi
  exact ⟨Heap.stackIndex?_eq_some.1 (hc.back c i hi), hlow c i hi⟩

end OpenOuters

end ScriptMachine
