import Mathlib.Data.Set.Card
import ScriptMachine.Proofs.Heap.Release

/-!
# The upkeep of the chain

Objects enter the chain, leave it, die and are collected in any order, and some
die while the chain cannot be changed and leave their nodes behind. Whatever
happens, list, free nodes, objects and statistics stay in step.
-/

set_option autoImplicit false

namespace ScriptMachine

namespace Chain

/-! ## What a chain promises -/

def objectAt (c : Chain) (i : Nat) : Option Ref := (c.nodes[i]?).bind (·.object)

def nextOf (c : Chain) (i : Nat) : Option Nat := (c.nodes[i]?).bind (·.next)

def prevOf (c : Chain) (i : Nat) : Option Nat := (c.nodes[i]?).bind (·.prev)

/-- The node carries an object, living or not. -/
def Filled (c : Chain) (i : Nat) : Prop := ∃ r, c.objectAt i = some r

/-- Going on from a cursor visits these nodes and comes to an end. -/
def Visits (c : Chain) : Option Nat → List Nat → Prop
  | cursor, [] => cursor = none
  | cursor, i :: rest => cursor = some i ∧ c.Visits (c.nextOf i) rest

/-- The list leads forth and back through the filled nodes, and the others are
free. -/
structure Intact (c : Chain) : Prop where
  order : ∃ is, c.Visits c.head is ∧ is.Nodup ∧ (∀ i, i ∈ is ↔ c.Filled i) ∧
    c.stats.live = is.length
  first : ∀ i, c.Filled i → (c.prevOf i = none ↔ c.head = some i)
  inverse : ∀ i j, c.Filled i → c.Filled j → (c.nextOf i = some j ↔ c.prevOf j = some i)
  free_distinct : c.free.Nodup
  free_iff : ∀ i, i ∈ c.free ↔ i < c.nodes.size ∧ ¬ c.Filled i

/-! ## Paths as visits -/

theorem threads_visits {c : Chain} {p cur last : Option Nat} {xs : List (Nat × Ref)}
    (h : Threads c.nodes p cur xs last none) : c.Visits cur (xs.map (·.1)) := by
  induction xs generalizing p cur with
  | nil => exact h.2
  | cons e xs ih =>
    obtain ⟨i, r⟩ := e
    obtain ⟨hcur, next, hn, hr⟩ := h
    refine ⟨hcur, ?_⟩
    have hnext : c.nextOf i = next := by simp [nextOf, hn]
    rw [hnext]
    exact ih hr

/-- A node of a path knows the node before it, which knows it in turn. -/
theorem threads_before {nodes : Array ChainNode} {p cur q d : Option Nat} {ys : List (Nat × Ref)}
    (h : Threads nodes p cur ys q d) :
    (q = p ∧ d = cur) ∨ ∃ k s prev, q = some k ∧ nodes[k]? = some ⟨prev, d, some s⟩ := by
  induction ys generalizing p cur with
  | nil => exact .inl ⟨h.1.symm, h.2.symm⟩
  | cons e ys ih =>
    obtain ⟨i, r⟩ := e
    obtain ⟨-, next, hn, hr⟩ := h
    rcases ih hr with ⟨rfl, rfl⟩ | hlater
    · exact .inr ⟨i, r, p, rfl, hn⟩
    · exact .inr hlater

namespace Lists

variable {c : Chain} {xs : List (Nat × Ref)}

theorem objectAt_iff (h : Lists c xs) (i : Nat) (r : Ref) :
    (i, r) ∈ xs ↔ c.objectAt i = some r := h.object_iff i r

theorem filled_iff (h : Lists c xs) (i : Nat) : i ∈ xs.map (·.1) ↔ c.Filled i := by
  constructor
  · intro hi
    obtain ⟨e, he, rfl⟩ := List.mem_map.1 hi
    exact ⟨e.2, (h.objectAt_iff _ _).1 he⟩
  · rintro ⟨r, hr⟩
    exact List.mem_map_of_mem ((h.objectAt_iff i r).2 hr)

/-- The node of an entry, between what comes before it and what comes after. -/
theorem node_of_mem (h : Lists c xs) {i : Nat} {r : Ref} (hi : (i, r) ∈ xs) :
    ((c.prevOf i = none ∧ c.head = some i) ∨
      ∃ k, c.Filled k ∧ c.prevOf i = some k ∧ c.nextOf k = some i) ∧
    (c.nextOf i = none ∨ ∃ j, c.nextOf i = some j ∧ c.prevOf j = some i) := by
  obtain ⟨ys, zs, rfl⟩ := List.append_of_mem hi
  obtain ⟨last, hp⟩ := h.path
  rw [threads_append] at hp
  obtain ⟨q, d, hy, rfl, next, hn, hz⟩ := hp
  have hprev : c.prevOf i = q := by simp [prevOf, hn]
  have hnext : c.nextOf i = next := by simp [nextOf, hn]
  constructor
  · rcases threads_before hy with ⟨rfl, hhead⟩ | ⟨k, s, prev, rfl, hk⟩
    · exact .inl ⟨hprev, hhead.symm⟩
    · exact .inr ⟨k, ⟨s, by simp [objectAt, hk]⟩, hprev, by simp [nextOf, hk]⟩
  · cases zs with
    | nil => exact .inl (by rw [hnext, hz.2])
    | cons e zs =>
      obtain ⟨j, s⟩ := e
      obtain ⟨rfl, after, hj, -⟩ := hz
      exact .inr ⟨j, hnext, by simp [prevOf, hj]⟩

theorem intact (h : Lists c xs) (hlive : c.stats.live = xs.length) : c.Intact where
  order := by
    obtain ⟨last, hp⟩ := h.path
    exact ⟨xs.map (·.1), threads_visits hp, h.distinct, h.filled_iff, by simpa using hlive⟩
  first := by
    rintro i ⟨r, hr⟩
    obtain ⟨hbefore, -⟩ := h.node_of_mem ((h.objectAt_iff i r).2 hr)
    constructor
    · intro hnone
      rcases hbefore with ⟨-, hhead⟩ | ⟨k, -, hk, -⟩
      · exact hhead
      · rw [hnone] at hk
        cases hk
    · intro hhead
      obtain ⟨last, hp⟩ := h.path
      cases xs with
      | nil =>
        rw [hp.2] at hhead
        cases hhead
      | cons e xs =>
        obtain ⟨j, s⟩ := e
        obtain ⟨hj, next, hn, -⟩ := hp
        rw [hhead] at hj
        cases hj
        simp [prevOf, hn]
  inverse := by
    rintro i j ⟨r, hr⟩ ⟨s, hs⟩
    obtain ⟨-, hafter⟩ := h.node_of_mem ((h.objectAt_iff i r).2 hr)
    obtain ⟨hbefore, -⟩ := h.node_of_mem ((h.objectAt_iff j s).2 hs)
    constructor
    · intro hnext
      rcases hafter with hnone | ⟨j', hj', hprev⟩
      · rw [hnone] at hnext
        cases hnext
      · rw [hnext] at hj'
        cases hj'
        exact hprev
    · intro hprev
      rcases hbefore with ⟨hnone, -⟩ | ⟨k, -, hk, hnext⟩
      · rw [hnone] at hprev
        cases hprev
      · rw [hprev] at hk
        cases hk
        exact hnext
  free_distinct := h.free_distinct
  free_iff := by
    intro i
    constructor
    · intro hi
      refine ⟨(Array.getElem?_eq_some_iff.1 (h.free_empty i hi)).1, ?_⟩
      rintro ⟨r, hr⟩
      exact h.not_free ((h.objectAt_iff i r).2 hr) hi
    · rintro ⟨hlt, hempty⟩
      rcases h.covered i hlt with hf | hx
      · exact hf
      · exact absurd ((h.filled_iff i).1 hx) hempty

/-- Releasing several entries takes out just these and counts them. -/
theorem releaseAll (ds : List (Nat × Ref)) (h : Lists c xs) (hd : (ds.map (·.1)).Nodup)
    (hx : ∀ e ∈ ds, e ∈ xs) (hlive : c.stats.live = xs.length) :
    ∃ ys, Lists (ds.foldl (fun (c : Chain) (e : Nat × Ref) => c.release e.1) c) ys ∧
      (∀ e, e ∈ ys ↔ e ∈ xs ∧ e ∉ ds) ∧ ys.length + ds.length = xs.length ∧
      (ds.foldl (fun (c : Chain) (e : Nat × Ref) => c.release e.1) c).stats =
        { c.stats with live := ys.length, freed := c.stats.freed + ds.length } := by
  induction ds generalizing c xs with
  | nil => exact ⟨xs, h, by simp, rfl, by simp [← hlive]⟩
  | cons e ds ih =>
    obtain ⟨i, r⟩ := e
    obtain ⟨hi, hds⟩ := List.nodup_cons.1 hd
    obtain ⟨us, vs, rfl⟩ := List.append_of_mem (hx (i, r) List.mem_cons_self)
    obtain ⟨hlists, hstats⟩ := h.release
    have hother : ∀ e ∈ ds, e.1 ≠ i := by
      rintro e he rfl
      exact hi (List.mem_map.2 ⟨e, he, rfl⟩)
    obtain ⟨ys, hys, hmem, hlength, hrest⟩ := ih hlists hds
      (fun e he => h.mem_without.2 ⟨hx e (List.mem_cons_of_mem _ he), hother e he⟩)
      (by simp [hstats, hlive])
    refine ⟨ys, hys, fun e => ?_, ?_, ?_⟩
    · rw [hmem, h.mem_without, List.mem_cons, not_or]
      constructor
      · rintro ⟨⟨he, hne⟩, hout⟩
        refine ⟨he, ?_, hout⟩
        rintro rfl
        exact hne rfl
      · rintro ⟨he, hne, hout⟩
        refine ⟨⟨he, fun hei => hne ?_⟩, hout⟩
        subst hei
        exact Prod.ext rfl (h.node_unique he (by simp))
    · simp only [List.length_append, List.length_cons] at hlength ⊢
      omega
    · simp only [List.foldl_cons, hrest, hstats, List.length_cons]
      congr 1
      omega

end Lists

end Chain

namespace Heap

/-! ## Heaps whose chain is kept up -/

/-- The chain carries these entries, those of all linked objects among them, and
the statistics add up with the number of objects that were taken out. -/
structure Upheld (h : Heap) (xs : List (Nat × Ref)) (gone : Nat) : Prop where
  lists : h.chain.Lists xs
  live : h.chain.stats.live = xs.length
  linked : ∀ i r, h.node? r = some i → (i, r) ∈ xs
  own : ∀ i r c, (i, r) ∈ xs → h.cell? r = some c → c.link = .linked i
  old : ∀ e ∈ xs, e.2.id < h.cells.size
  accounts : h.chain.stats.allocated = h.chain.stats.live + h.chain.stats.freed + gone

/-- Takes the dead nodes out of the chain. -/
def prune (h : Heap) : Heap := { h with chain := (h.chain.snapshot h.isAlive).2 }

/-- An object goes while the chain cannot be changed: its node stays behind. -/
def vanish (h : Heap) (r : Ref) : Heap := { h with cells := h.cells.setIfInBounds r.id none }

theorem cell?_vanish (h : Heap) (r s : Ref) :
    (h.vanish r).cell? s = if s = r then none else h.cell? s :=
  cell?_remove h r s ⟨0, .fresh, none, .content⟩

@[simp] theorem size_vanish (h : Heap) (r : Ref) : (h.vanish r).cells.size = h.cells.size := by
  simp [vanish]

/-- The nodes whose objects are no more. -/
def deadNodes (h : Heap) : Set Nat := {i | ∃ r, h.chain.objectAt i = some r ∧ h.cell? r = none}

namespace Upheld

variable {h h' : Heap} {xs : List (Nat × Ref)} {gone : Nat}

theorem empty (config : CollectConfig) : ({ chain := { config } } : Heap).Upheld [] 0 where
  lists := .empty config
  live := rfl
  linked := by
    intro i r hr
    obtain ⟨c, hc, -⟩ := node?_eq_some.1 hr
    simp [cell?] at hc
  own := by intro i r c hr; cases hr
  old := by intro e he; cases he
  accounts := rfl

/-- Operations on objects that leave chain and links alone. -/
theorem of_cells (hu : h.Upheld xs gone) (hchain : h'.chain = h.chain)
    (hsize : h.cells.size ≤ h'.cells.size)
    (hold : ∀ r c', h'.cell? r = some c' → r.id < h.cells.size →
      ∃ c, h.cell? r = some c ∧ c'.link = c.link)
    (hnew : ∀ r c', h'.cell? r = some c' → h.cells.size ≤ r.id → ∀ i, c'.link ≠ .linked i) :
    h'.Upheld xs gone where
  lists := hchain ▸ hu.lists
  live := hchain ▸ hu.live
  linked := by
    intro i r hr
    obtain ⟨c', hc', hl⟩ := node?_eq_some.1 hr
    rcases Nat.lt_or_ge r.id h.cells.size with hlt | hge
    · obtain ⟨c, hc, hcl⟩ := hold r c' hc' hlt
      exact hu.linked i r (node?_eq_some.2 ⟨c, hc, hcl ▸ hl⟩)
    · exact absurd hl (hnew r c' hc' hge i)
  own := by
    intro i r c' hr hc'
    obtain ⟨c, hc, hcl⟩ := hold r c' hc' (hu.old _ hr)
    rw [hcl]
    exact hu.own i r c hr hc
  old := fun e he => Nat.lt_of_lt_of_le (hu.old e he) hsize
  accounts := hchain ▸ hu.accounts

theorem modifyCell (hu : h.Upheld xs gone) (r : Ref) {f : Cell → Cell}
    (hf : ∀ c, (f c).link = c.link) : (h.modifyCell r f).Upheld xs gone := by
  refine hu.of_cells rfl (by simp) (fun s c' hc' _ => ?_) fun s c' hc' hge => ?_
  · rw [cell?_modifyCell] at hc'
    by_cases hs : s = r
    · subst hs
      obtain ⟨c, hc, rfl⟩ := Option.map_eq_some_iff.1 (by simpa using hc')
      exact ⟨c, hc, hf c⟩
    · exact ⟨c', by simpa [hs] using hc', rfl⟩
  · have hlt := cell?_lt hc'
    rw [size_modifyCell] at hlt
    omega

theorem retainRefs (hu : h.Upheld xs gone) (rs : List Ref) :
    (h.retainRefs rs).Upheld xs gone := by
  induction rs generalizing h with
  | nil => exact hu
  | cons r rs ih => exact ih (hu.modifyCell r fun _ => rfl)

theorem setCell (hu : h.Upheld xs gone) {r : Ref} {c d : Cell} (hc : h.cell? r = some c)
    (hl : d.link = c.link) : (h.setCell r d).Upheld xs gone := by
  refine hu.of_cells rfl (by simp) (fun s c' hc' _ => ?_) fun s c' hc' hge => ?_
  · rw [cell?_setCell (cell?_lt hc)] at hc'
    by_cases hs : s = r
    · subst hs
      simp only [if_true, Option.some.injEq] at hc'
      exact ⟨c, hc, hc' ▸ hl⟩
    · exact ⟨c', by simpa [hs] using hc', rfl⟩
  · have hlt := cell?_lt hc'
    rw [size_setCell] at hlt
    omega

theorem allocate (hu : h.Upheld xs gone) (b : Body) : (h.allocate b).2.Upheld xs gone := by
  refine hu.of_cells rfl (by simp) (fun s c' hc' hlt => ?_) fun s c' hc' hge i hi => ?_
  · have hne : s ≠ ⟨h.cells.size⟩ := by rintro rfl; simp at hlt
    exact ⟨c', by simpa [hne] using hc', rfl⟩
  · by_cases hs : s = ⟨h.cells.size⟩
    · simp only [cell?_allocate, hs, if_true, Option.some.injEq] at hc'
      subst hc'
      cases hi
    · have hlt := cell?_lt (show h.cell? s = some c' by simpa [hs] using hc')
      omega

theorem vanish (hu : h.Upheld xs gone) (r : Ref) : (h.vanish r).Upheld xs gone := by
  refine hu.of_cells rfl (by simp) (fun s c' hc' _ => ?_) fun s c' hc' hge => ?_
  · rw [cell?_vanish] at hc'
    split at hc'
    · cases hc'
    · exact ⟨c', hc', rfl⟩
  · have hlt := cell?_lt hc'
    rw [size_vanish] at hlt
    omega

/-! ### Dying -/

theorem remove (hu : h.Upheld xs gone) {r : Ref} {c : Cell} (hc : h.cell? r = some c) :
    ∃ ys, (h.remove r c).Upheld ys gone := by
  cases hl : c.link with
  | fresh | detached =>
    have heq : h.remove r c = h.vanish r := by simp [Heap.remove, Heap.vanish, hl]
    exact ⟨xs, heq ▸ hu.vanish r⟩
  | linked i =>
    have hv := hu.vanish r
    obtain ⟨ys, zs, rfl⟩ := List.append_of_mem (hu.linked i r (node?_eq_some.2 ⟨c, hc, hl⟩))
    obtain ⟨hlists, hstats⟩ := hu.lists.release
    have heq : h.remove r c = { h.vanish r with chain := h.chain.release i } := by
      simp [Heap.remove, Heap.vanish, hl]
    have hlive := hu.live
    have haccounts := hu.accounts
    simp only [List.length_append, List.length_cons] at hlive
    rw [heq]
    refine ⟨ys ++ zs, hlists, ?_, fun j s hs => ?_, fun j s d hs hd => ?_, fun e he => ?_, ?_⟩
    · simp only [hstats, List.length_append]
      omega
    · have hmem := hv.linked j s hs
      refine hu.lists.mem_without.2 ⟨hmem, ?_⟩
      rintro rfl
      -- the node of the dead object belongs to nobody else
      have hsr : s = r := hu.lists.node_unique hmem (by simp)
      obtain ⟨d, hd, -⟩ := node?_eq_some.1 hs
      have hnone : cell? { h.vanish r with chain := h.chain.release j } r = none :=
        (cell?_vanish h r r).trans (if_pos rfl)
      rw [hsr, hnone] at hd
      cases hd
    · exact hv.own j s d (hu.lists.mem_without.1 hs).1 hd
    · exact hv.old e (hu.lists.mem_without.1 he).1
    · simp only [hstats]
      omega

theorem releaseRefs (hu : h.Upheld xs gone) (work : List Ref) :
    ∃ ys, (h.releaseRefs work).Upheld ys gone := by
  induction h, work using Heap.releaseRefs.induct generalizing xs with
  | case1 h => exact ⟨xs, by rwa [releaseRefs_nil]⟩
  | case2 h r rest hc ih =>
    rw [releaseRefs_dead rest hc]
    exact ih hu
  | case3 h r rest c hc hle ih =>
    rw [releaseRefs_last rest hc hle]
    obtain ⟨ys, hy⟩ := hu.remove hc
    exact ih hy
  | case4 h r rest c hc hgt ih =>
    rw [releaseRefs_shared rest hc hgt]
    exact ih (hu.setCell hc rfl)

/-! ### Entering and leaving the chain -/

theorem stats_insert (c : Chain) (r : Ref) : (c.insert r).2.stats =
    { c.stats with live := c.stats.live + 1, allocated := c.stats.allocated + 1 } := by
  unfold Chain.insert
  split <;> rfl

theorem register (hu : h.Upheld xs gone) (r : Ref) : ∃ ys, (h.register r).2.Upheld ys gone := by
  unfold Heap.register
  cases hc : h.cell? r with
  | none => exact ⟨xs, hu⟩
  | some c =>
    obtain ⟨hlists, hfresh⟩ := hu.lists.insert r
    cases hl : c.link with
    | linked i => exact ⟨xs, by simpa [hl] using hu⟩
    | fresh =>
      simp only [hl]
      refine ⟨((h.chain.insert r).1, r) :: xs, hlists, ?_, fun i s hs => ?_, fun i s d hs hd => ?_,
        fun e he => ?_, ?_⟩
      · simp [stats_insert, hu.live]
      · obtain ⟨d, hd, hdl⟩ := node?_eq_some.1 hs
        rw [cell?_modifyCell] at hd
        by_cases hsr : s = r
        · subst hsr
          rw [if_pos rfl, show cell? { h with chain := (h.chain.insert s).2 } s = _ from hc] at hd
          cases hd
          cases hdl
          exact List.mem_cons_self
        · rw [if_neg hsr] at hd
          exact List.mem_cons_of_mem _ (hu.linked i s (node?_eq_some.2 ⟨d, hd, hdl⟩))
      · rw [cell?_modifyCell] at hd
        by_cases hsr : s = r
        · subst hsr
          rw [if_pos rfl, show cell? { h with chain := (h.chain.insert s).2 } s = _ from hc] at hd
          cases hd
          rcases List.mem_cons.1 hs with heq | hmem
          · cases heq
            rfl
          · rw [hu.own i s c hmem hc] at hl
            cases hl
        · rw [if_neg hsr] at hd
          rcases List.mem_cons.1 hs with heq | hmem
          · cases heq
            exact absurd rfl hsr
          · exact hu.own i s d hmem hd
      · rw [size_modifyCell]
        rcases List.mem_cons.1 he with rfl | hmem
        · exact cell?_lt hc
        · exact hu.old e hmem
      · have haccounts := hu.accounts
        simp only [chain_modifyCell, stats_insert]
        omega
    | detached =>
      -- the node goes back at once, and so do the counts
      have hfront : (h.chain.insert r).2.Lists ([] ++ ((h.chain.insert r).1, r) :: xs) := hlists
      obtain ⟨chain, hunlink, hback, hstats, -, -⟩ := hfront.unlink
      rw [stats_insert] at hstats
      simp only [hl, hunlink, Option.getD_some]
      exact ⟨xs, ⟨hback.path, hback.distinct, hback.free_distinct, hback.free_empty, hback.covered⟩,
        by simp [hstats, hu.live], hu.linked, hu.own, hu.old, by simp [hstats, hu.accounts]⟩

theorem unregister (hu : h.Upheld xs gone) (r : Ref) :
    ∃ ys, (h.unregister r).2.Upheld ys (gone + (h.unregister r).1.toNat) := by
  unfold Heap.unregister
  cases hc : h.cell? r with
  | none => exact ⟨xs, hu⟩
  | some c =>
    cases hl : c.link with
    | fresh | detached => exact ⟨xs, by simpa [hl] using hu⟩
    | linked i =>
      obtain ⟨ys, zs, rfl⟩ := List.append_of_mem (hu.linked i r (node?_eq_some.2 ⟨c, hc, hl⟩))
      obtain ⟨chain, hunlink, hlists, hstats, -, -⟩ := hu.lists.unlink
      have hlive := hu.live
      have haccounts := hu.accounts
      simp only [List.length_append, List.length_cons] at hlive
      simp only [hl, hunlink]
      refine ⟨ys ++ zs, ⟨hlists.path, hlists.distinct, hlists.free_distinct, hlists.free_empty,
        hlists.covered⟩, ?_, fun j s hs => ?_, fun j s d hs hd => ?_, fun e he => ?_, ?_⟩
      · simp only [chain_modifyCell, hstats, List.length_append]
        omega
      · obtain ⟨d, hd, hdl⟩ := node?_eq_some.1 hs
        rw [cell?_modifyCell] at hd
        by_cases hsr : s = r
        · subst hsr
          rw [if_pos rfl] at hd
          obtain ⟨d', -, rfl⟩ := Option.map_eq_some_iff.1 hd
          cases hdl
        · rw [if_neg hsr] at hd
          have hmem := hu.linked j s (node?_eq_some.2 ⟨d, hd, hdl⟩)
          refine hu.lists.mem_without.2 ⟨hmem, ?_⟩
          rintro rfl
          exact hsr (hu.lists.node_unique hmem (by simp))
      · obtain ⟨hmem, hne⟩ := hu.lists.mem_without.1 hs
        rw [cell?_modifyCell] at hd
        by_cases hsr : s = r
        · subst hsr
          have hown := hu.own j s c hmem hc
          rw [hl] at hown
          cases hown
          exact absurd rfl hne
        · rw [if_neg hsr] at hd
          exact hu.own j s d hmem hd
      · rw [size_modifyCell]
        exact hu.old e (hu.lists.mem_without.1 he).1
      · simp only [chain_modifyCell, hstats, Bool.toNat_true]
        omega

/-! ### Taking stock -/

theorem dead_iff (hu : h.Upheld xs gone) (i : Nat) :
    i ∈ h.deadNodes ↔ ∃ r, (i, r) ∈ xs ∧ h.isAlive r = false := by
  simp [deadNodes, hu.lists.objectAt_iff, isAlive]

/-- A snapshot takes out the nodes of the dead and counts them. -/
theorem prune (hu : h.Upheld xs gone) : ∃ ys, h.prune.Upheld ys gone ∧
    (∀ i r, (i, r) ∈ ys ↔ (i, r) ∈ xs ∧ h.isAlive r = true) ∧
    h.prune.chain.stats.freed = h.chain.stats.freed + h.deadNodes.ncard ∧
    h.prune.chain.stats.live + h.deadNodes.ncard = h.chain.stats.live := by
  let dead := xs.filter fun (e : Nat × Ref) => !h.isAlive e.2
  have hdistinct : (dead.map (·.1)).Nodup := hu.lists.distinct.sublist (List.filter_sublist.map _)
  have hchain : h.prune.chain =
      dead.foldl (fun (c : Chain) (e : Nat × Ref) => c.release e.1) h.chain := by
    simp only [Heap.prune, Chain.snapshot, hu.lists.toList_eq]
    rfl
  obtain ⟨ys, hlists, hmem, hlength, hstats⟩ := hu.lists.releaseAll dead hdistinct
    (fun e he => List.mem_of_mem_filter he) hu.live
  rw [← hchain] at hlists hstats
  have hlive : ∀ i r, (i, r) ∈ ys ↔ (i, r) ∈ xs ∧ h.isAlive r = true := by
    intro i r
    simp only [hmem, dead, List.mem_filter, Bool.not_eq_true', not_and, Bool.not_eq_false]
    exact ⟨fun he => ⟨he.1, he.2 he.1⟩, fun he => ⟨he.1, fun _ => he.2⟩⟩
  have hcard : h.deadNodes.ncard = dead.length := by
    have hset : h.deadNodes = ((dead.map (·.1)).toFinset : Set Nat) := by
      ext i
      rw [hu.dead_iff]
      simp [dead]
    rw [hset, Set.ncard_coe_finset, List.toFinset_card_of_nodup hdistinct, List.length_map]
  have haccounts := hu.accounts
  have hcount := hu.live
  refine ⟨ys, ⟨hlists, by rw [hstats], fun i r hr => ?_, fun i r c hr hc => ?_, fun e he => ?_, ?_⟩,
    hlive, by rw [hstats, hcard], by rw [hstats, hcard, hcount]; exact hlength⟩
  · obtain ⟨c, hc, hl⟩ := node?_eq_some.1 hr
    refine (hlive i r).2 ⟨hu.linked i r (node?_eq_some.2 ⟨c, hc, hl⟩), ?_⟩
    simp [isAlive, show h.cell? r = some c from hc]
  · exact hu.own i r c ((hlive i r).1 hr).1 hc
  · exact hu.old e ((hlive e.1 e.2).1 he).1
  · rw [hstats]
    simp only
    omega

theorem clear (hu : h.Upheld xs gone) (r : Ref) : ∃ ys, (h.clear r).Upheld ys gone := by
  unfold Heap.clear
  cases h.body? r with
  | none => exact ⟨xs, hu⟩
  | some b =>
    have hset : (h.setBody r b.cleared).Upheld xs gone := hu.modifyCell r fun _ => rfl
    exact hset.releaseRefs b.looseRefs

theorem freeAll (hu : h.Upheld xs gone) (rs : List Ref) : ∃ ys, (h.freeAll rs).Upheld ys gone := by
  have hclear : ∀ (rs : List Ref) {h : Heap} {xs : List (Nat × Ref)}, h.Upheld xs gone →
      ∃ ys, (rs.foldl Heap.clear h).Upheld ys gone := by
    intro rs
    induction rs with
    | nil => exact fun {h xs} hu => ⟨xs, hu⟩
    | cons r rs ih =>
      intro h xs hu
      obtain ⟨ys, hy⟩ := hu.clear r
      exact ih hy
  obtain ⟨ys, hy⟩ := hclear rs (hu.retainRefs rs)
  exact hy.releaseRefs rs

theorem collect (hu : h.Upheld xs gone) : ∃ ys, h.collect.2.Upheld ys gone := by
  obtain ⟨ys, hy, -⟩ := hu.prune
  obtain ⟨zs, hz⟩ := hy.freeAll
    ((h.prune.snapshotOf (h.chain.snapshot h.isAlive).1).garbage)
  exact ⟨zs, ⟨hz.lists.path, hz.lists.distinct, hz.lists.free_distinct, hz.lists.free_empty,
    hz.lists.covered⟩, hz.live, hz.linked, hz.own, hz.old, hz.accounts⟩

end Upheld

/-! ## Histories -/

/-- What can happen to the objects of a heap and to its chain. -/
inductive Event where
  | make (b : Body)
  | change (r : Ref) (b : Body)
  | share (r : Ref)
  /-- A reference is dropped; with the last one the object goes, and what it held. -/
  | drop (r : Ref)
  | vanish (r : Ref)
  | register (r : Ref)
  | unregister (r : Ref)
  | snapshot
  | collect

/-- What an event makes of a heap, with the number of objects taken out so far. -/
def Event.apply : Event → Heap × Nat → Heap × Nat
  | make b, (h, gone) => ((h.allocate b).2, gone)
  | change r b, (h, gone) => (h.setBody r b, gone)
  | share r, (h, gone) => (h.retainRef r, gone)
  | drop r, (h, gone) => (h.releaseRef r, gone)
  | vanish r, (h, gone) => (h.vanish r, gone)
  | register r, (h, gone) => ((h.register r).2, gone)
  | unregister r, (h, gone) => ((h.unregister r).2, gone + (h.unregister r).1.toNat)
  | snapshot, (h, gone) => (h.prune, gone)
  | collect, (h, gone) => (h.collect.2, gone)

def history (s : Heap × Nat) (events : List Event) : Heap × Nat :=
  events.foldl (fun (s : Heap × Nat) (e : Event) => e.apply s) s

theorem Upheld.event {h : Heap} {xs : List (Nat × Ref)} {gone : Nat} (hu : h.Upheld xs gone)
    (e : Event) : ∃ ys, (e.apply (h, gone)).1.Upheld ys (e.apply (h, gone)).2 := by
  cases e with
  | make b => exact ⟨xs, hu.allocate b⟩
  | change r b => exact ⟨xs, hu.modifyCell r fun _ => rfl⟩
  | share r => exact ⟨xs, hu.modifyCell r fun _ => rfl⟩
  | drop r => exact hu.releaseRefs [r]
  | vanish r => exact ⟨xs, hu.vanish r⟩
  | register r => exact hu.register r
  | unregister r => exact hu.unregister r
  | snapshot =>
    obtain ⟨ys, hy, -⟩ := hu.prune
    exact ⟨ys, hy⟩
  | collect => exact hu.collect

theorem Upheld.history {s : Heap × Nat} {xs : List (Nat × Ref)} (hu : s.1.Upheld xs s.2)
    (events : List Event) : ∃ ys, (history s events).1.Upheld ys (history s events).2 := by
  induction events generalizing s xs with
  | nil => exact ⟨xs, hu⟩
  | cons e events ih =>
    obtain ⟨ys, hy⟩ := hu.event e
    exact ih hy

/-- The chain is intact, linked objects and nodes name each other, and the
statistics add up: had a count been lowered at zero, the sum would be off. A
snapshot takes out just the nodes of the dead and counts them as freed. -/
structure InStep (h : Heap) (gone : Nat) : Prop where
  intact : h.chain.Intact
  own_node : ∀ r i, h.node? r = some i → h.chain.objectAt i = some r
  one_node : ∀ r s i, h.node? r = some i → h.node? s = some i → r = s
  sum : h.chain.stats.allocated = h.chain.stats.live + h.chain.stats.freed + gone
  pruned : ∀ i r, h.prune.chain.objectAt i = some r ↔
    h.chain.objectAt i = some r ∧ h.isAlive r = true
  pruned_freed : h.prune.chain.stats.freed = h.chain.stats.freed + h.deadNodes.ncard
  pruned_live : h.prune.chain.stats.live + h.deadNodes.ncard = h.chain.stats.live

theorem Upheld.inStep {h : Heap} {xs : List (Nat × Ref)} {gone : Nat} (hu : h.Upheld xs gone) :
    h.InStep gone := by
  obtain ⟨ys, hy, hmem, hfreed, hlive⟩ := hu.prune
  have hown : ∀ r i, h.node? r = some i → h.chain.objectAt i = some r :=
    fun r i hr => (hu.lists.objectAt_iff i r).1 (hu.linked i r hr)
  refine ⟨hu.lists.intact hu.live, hown, fun r s i hr hs => ?_, hu.accounts, fun i r => ?_, hfreed,
    hlive⟩
  · have hobject := hown r i hr
    rw [hown s i hs] at hobject
    exact (Option.some.inj hobject).symm
  · rw [← hy.lists.objectAt_iff, ← hu.lists.objectAt_iff, hmem]

/-- Whatever happens to a new heap, its chain stays in step with its objects. -/
theorem history_inStep (config : CollectConfig) (events : List Event) :
    (history ({ chain := { config } }, 0) events).1.InStep
      (history ({ chain := { config } }, 0) events).2 := by
  obtain ⟨xs, hu⟩ := (Upheld.empty config).history (s := ({ chain := { config } }, 0)) events
  exact hu.inStep

/-- The node of an object that went unnoticed is found, freed and used again. -/
example :
    let h := (history ({}, 0) [.make (.array #[]), .make (.array #[]), .register ⟨0⟩, .vanish ⟨0⟩,
      .snapshot, .register ⟨1⟩]).1
    h.chain.stats = { live := 1, allocated := 2, freed := 1 } ∧ h.node? ⟨1⟩ = some 0 := by
  decide

end Heap

end ScriptMachine
