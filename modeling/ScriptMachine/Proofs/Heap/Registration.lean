import ScriptMachine.Proofs.Heap.Marking
import ScriptMachine.Proofs.Heap.Upkeep

/-!
# Refused registrations

An object that is in the chain is not entered again, and neither is one that was taken out
before. The second refusal comes late: a node was filled already and is given back. Objects,
entries and statistics are then as before, now and ever after, but the insertion stays
counted until the next collection, which may be due one insertion early.
-/

set_option autoImplicit false

namespace ScriptMachine

namespace Chain

/-! ## Chains with the same entries -/

/-- Insertions take the same nodes. The second chain may have an empty node more, where the
first would make a new one. -/
def SameSupply (c c' : Chain) : Prop :=
  (c'.nodes.size = c.nodes.size ∧ c'.free = c.free) ∨
    (c'.nodes.size = c.nodes.size + 1 ∧ c'.free = c.free ++ [c.nodes.size])

/-- The same objects are in the same nodes, but the second chain counts some insertions more
since the last collection. -/
structure Ahead (extra : Nat) (c c' : Chain) : Prop where
  lists : ∃ xs, c.Lists xs ∧ c'.Lists xs
  supply : SameSupply c c'
  stats : c'.stats = c.stats
  config : c'.config = c.config
  since : c'.since = c.since + extra

/-- A collection is not due but would be if some insertions more were counted. -/
def Near (c : Chain) (extra : Nat) : Prop :=
  c.config.auto = true ∧ c.since < c.config.threshold ∧ c.config.threshold ≤ c.since + extra

variable {c c' d : Chain} {xs : List (Nat × Ref)} {extra i : Nat}

theorem not_near_zero : ¬ c.Near 0 := fun hn => Nat.not_le_of_lt hn.2.1 hn.2.2

/-- What a list says of a chain concerns its nodes and the ends of its lists only. -/
theorem Lists.congr (h : c.Lists xs) (hnodes : c'.nodes = c.nodes) (hhead : c'.head = c.head)
    (hfree : c'.free = c.free) : c'.Lists xs where
  path := by rw [hnodes, hhead]; exact h.path
  distinct := h.distinct
  free_distinct := by rw [hfree]; exact h.free_distinct
  free_empty := by rw [hnodes, hfree]; exact h.free_empty
  covered := by rw [hnodes, hfree]; exact h.covered

theorem size_linkFront (c : Chain) (i : Nat) : (c.linkFront i).nodes.size = c.nodes.size := by
  unfold linkFront
  cases c.head <;> simp [setPrev]

/-- An insertion takes the node freed last, or makes one. -/
theorem insert_supply (c : Chain) (r : Ref) :
    (c.insert r).1 = c.free.headD c.nodes.size ∧ (c.insert r).2.free = c.free.tail ∧
      (c.insert r).2.nodes.size = if c.free = [] then c.nodes.size + 1 else c.nodes.size := by
  unfold insert
  split
  · rename_i i rest hfree
    exact ⟨by rw [hfree]; rfl, by rw [hfree]; rfl, by simp [size_linkFront, hfree]⟩
  · rename_i hfree
    exact ⟨by rw [hfree]; rfl, by rw [hfree]; rfl, by simp [size_linkFront, hfree]⟩

theorem insert_counts (c : Chain) (r : Ref) :
    (c.insert r).2.since = c.since + 1 ∧ (c.insert r).2.config = c.config := by
  unfold insert
  split <;> exact ⟨rfl, rfl⟩

theorem unlink_supply (h : c.unlink i = some d) :
    d.free = i :: c.free ∧ d.nodes.size = c.nodes.size := by
  unfold unlink at h
  split at h
  · cases h
  · split at h
    · cases h
    · cases h
      refine ⟨rfl, ?_⟩
      dsimp only
      split <;> split <;> simp [setPrev, setNext]

theorem Lists.unlink_eq_none (h : c.Lists xs) (hi : ∀ r, (i, r) ∉ xs) : c.unlink i = none := by
  unfold Chain.unlink
  cases hn : c.nodes[i]? with
  | none => rfl
  | some node =>
    cases ho : node.object with
    | none => simp only [ho]
    | some r => exact absurd ((h.object_iff i r).2 (by simp [hn, ho])) (hi r)

namespace SameSupply

theorem insert (h : SameSupply c c') (r : Ref) :
    (c'.insert r).1 = (c.insert r).1 ∧ SameSupply (c.insert r).2 (c'.insert r).2 := by
  obtain ⟨hplace, hfree, hsize⟩ := insert_supply c r
  obtain ⟨hplace', hfree', hsize'⟩ := insert_supply c' r
  unfold SameSupply
  rw [hplace, hplace', hfree, hfree', hsize, hsize']
  rcases h with ⟨hs, hf⟩ | ⟨hs, hf⟩ <;> rw [hs, hf]
  · exact ⟨rfl, .inl ⟨rfl, rfl⟩⟩
  · cases c.free with
    | nil => exact ⟨rfl, .inl ⟨rfl, rfl⟩⟩
    | cons i rest => exact ⟨rfl, .inr ⟨rfl, rfl⟩⟩

theorem unlink {d' : Chain} (h : SameSupply c c') (hd : c.unlink i = some d)
    (hd' : c'.unlink i = some d') : SameSupply d d' := by
  obtain ⟨hfree, hsize⟩ := unlink_supply hd
  obtain ⟨hfree', hsize'⟩ := unlink_supply hd'
  unfold SameSupply
  rw [hfree, hfree', hsize, hsize']
  rcases h with ⟨hs, hf⟩ | ⟨hs, hf⟩ <;> rw [hs, hf]
  · exact .inl ⟨rfl, rfl⟩
  · exact .inr ⟨rfl, rfl⟩

end SameSupply

namespace Ahead

theorem of_lists (ha : Ahead extra c c') (hx : c.Lists xs) : c'.Lists xs := by
  obtain ⟨ys, hy, hy'⟩ := ha.lists
  rw [← hx.toList_eq, hy.toList_eq]
  exact hy'

theorem toList_eq (ha : Ahead extra c c') : c'.toList = c.toList := by
  obtain ⟨xs, hx, hx'⟩ := ha.lists
  rw [hx.toList_eq, hx'.toList_eq]

theorem refl (hx : c.Lists xs) : Ahead 0 c c := ⟨⟨xs, hx, hx⟩, .inl ⟨rfl, rfl⟩, rfl, rfl, rfl⟩

/-- The same change of the statistics. -/
theorem account (ha : Ahead extra c c') (f : CollectStats → CollectStats) :
    Ahead extra { c with stats := f c.stats } { c' with stats := f c'.stats } where
  lists := by
    obtain ⟨xs, hx, hx'⟩ := ha.lists
    exact ⟨xs, hx.congr rfl rfl rfl, hx'.congr rfl rfl rfl⟩
  supply := ha.supply
  stats := congrArg f ha.stats
  config := ha.config
  since := ha.since

theorem insert (ha : Ahead extra c c') (r : Ref) :
    (c'.insert r).1 = (c.insert r).1 ∧ Ahead extra (c.insert r).2 (c'.insert r).2 := by
  obtain ⟨xs, hx, hx'⟩ := ha.lists
  obtain ⟨hplace, hsupply⟩ := ha.supply.insert r
  obtain ⟨hsince, hconfig⟩ := insert_counts c r
  obtain ⟨hsince', hconfig'⟩ := insert_counts c' r
  refine ⟨hplace, ⟨_, (hx.insert r).1, hplace ▸ (hx'.insert r).1⟩, hsupply, ?_, ?_, ?_⟩
  · rw [Heap.Upheld.stats_insert, Heap.Upheld.stats_insert, ha.stats]
  · rw [hconfig, hconfig', ha.config]
  · rw [hsince, hsince', ha.since, Nat.add_right_comm]

theorem unlink (ha : Ahead extra c c') (i : Nat) :
    Option.Rel (Ahead extra) (c.unlink i) (c'.unlink i) := by
  obtain ⟨xs, hx, hx'⟩ := ha.lists
  by_cases hi : ∃ r, (i, r) ∈ xs
  · obtain ⟨r, hr⟩ := hi
    obtain ⟨ys, zs, rfl⟩ := List.append_of_mem hr
    obtain ⟨d, hd, hlists, hstats, hconfig, hsince⟩ := hx.unlink
    obtain ⟨d', hd', hlists', hstats', hconfig', hsince'⟩ := hx'.unlink
    rw [hd, hd']
    exact .some ⟨⟨_, hlists, hlists'⟩, ha.supply.unlink hd hd', by rw [hstats, hstats', ha.stats],
      by rw [hconfig, hconfig', ha.config], by rw [hsince, hsince', ha.since]⟩
  · rw [not_exists] at hi
    rw [hx.unlink_eq_none hi, hx'.unlink_eq_none hi]
    exact .none

theorem release (ha : Ahead extra c c') (i : Nat) : Ahead extra (c.release i) (c'.release i) := by
  have hrel := ha.unlink i
  unfold Chain.release
  generalize c.unlink i = o, c'.unlink i = o' at hrel
  cases hrel with
  | none => exact ha
  | some hd => exact hd.account fun s => { s with live := s.live - 1, freed := s.freed + 1 }

theorem snapshot (ha : Ahead extra c c') (alive : Ref → Bool) :
    (c'.snapshot alive).1 = (c.snapshot alive).1 ∧
      Ahead extra (c.snapshot alive).2 (c'.snapshot alive).2 := by
  have hreleases : ∀ (ds : List (Nat × Ref)) {c c' : Chain}, Ahead extra c c' →
      Ahead extra (ds.foldl (fun (c : Chain) (e : Nat × Ref) => c.release e.1) c)
        (ds.foldl (fun (c : Chain) (e : Nat × Ref) => c.release e.1) c') := by
    intro ds
    induction ds with
    | nil => exact fun ha => ha
    | cons e ds ih => exact fun ha => ih (ha.release e.1)
  unfold Chain.snapshot
  rw [ha.toList_eq]
  exact ⟨rfl, hreleases _ ha⟩

/-- A collection begins the count anew. -/
theorem recordCollection (ha : Ahead extra c c') (freed : Nat) :
    Ahead 0 (c.recordCollection freed) (c'.recordCollection freed) where
  lists := by
    obtain ⟨xs, hx, hx'⟩ := ha.lists
    exact ⟨xs, hx.congr rfl rfl rfl, hx'.congr rfl rfl rfl⟩
  supply := ha.supply
  stats := congrArg (fun s : CollectStats =>
    { s with collections := s.collections + 1, last := freed }) ha.stats
  config := ha.config
  since := rfl

theorem configure (ha : Ahead extra c c') (config : CollectConfig) :
    Ahead extra { c with config } { c' with config } where
  lists := by
    obtain ⟨xs, hx, hx'⟩ := ha.lists
    exact ⟨xs, hx.congr rfl rfl rfl, hx'.congr rfl rfl rfl⟩
  supply := ha.supply
  stats := ha.stats
  config := rfl
  since := ha.since

theorem isDue_iff (ha : Ahead extra c c') : c'.isDue = true ↔ c.isDue = true ∨ c.Near extra := by
  rw [isDue, isDue, Near, ha.config, ha.since]
  cases c.config.auto with
  | false => simp
  | true =>
    simp only [Bool.true_and, decide_eq_true_eq, true_and]
    omega

end Ahead

/-- An insertion that is taken back at once leaves the entries and the supply of nodes. What
it changes is the statistics and the count since the last collection. -/
theorem insert_unlink (hx : c.Lists xs) (r : Ref) :
    ∃ d, (c.insert r).2.unlink (c.insert r).1 = some d ∧ d.Lists xs ∧ SameSupply c d ∧
      d.stats = { c.stats with live := c.stats.live + 1, allocated := c.stats.allocated + 1 } ∧
      d.config = c.config ∧ d.since = c.since + 1 := by
  have hfront : (c.insert r).2.Lists ([] ++ ((c.insert r).1, r) :: xs) := (hx.insert r).1
  obtain ⟨d, hd, hlists, hstats, hconfig, hsince⟩ := hfront.unlink
  obtain ⟨hplace, hfree, hsize⟩ := insert_supply c r
  obtain ⟨hfree', hsize'⟩ := unlink_supply hd
  obtain ⟨hcount, hkept⟩ := insert_counts c r
  refine ⟨d, hd, hlists, ?_, by rw [hstats, Heap.Upheld.stats_insert], by rw [hconfig, hkept],
    by rw [hsince, hcount]⟩
  unfold SameSupply
  rw [hfree', hsize', hplace, hfree, hsize]
  cases c.free with
  | nil => exact .inr ⟨rfl, rfl⟩
  | cons i rest => exact .inl ⟨rfl, rfl⟩

end Chain

/-! ## What a collection finds -/

namespace Snapshot

/-- The node is in every set that has the roots and where references lead. -/
def Led (s : Snapshot) (i : Nat) : Prop :=
  ∀ M : Nat → Prop, (∀ j ∈ s.roots, M j) → (∀ j, M j → ∀ k ∈ s.edgesOf j, M k) → M i

variable {s s' : Snapshot}

theorem Closed.marked_iff (hs : s.Closed) (i : Nat) : Marked s.reachable i ↔ s.Led i :=
  hs.reachable_iff s.Led (fun j hj _ hroot _ => hroot j hj)
    (fun j hj k hk M hroot hstep => hstep j (hj M hroot hstep) k hk)
    (fun M hroot hstep _ hj => hj M hroot hstep) i

/-- Room for nodes that are none of the members makes no difference. -/
theorem garbage_eq (hs : s.Closed) (hs' : s'.Closed) (hmembers : s'.members = s.members)
    (hstrong : ∀ i ∈ s.nodes, s'.strong[i]? = s.strong[i]?) (hedges : s'.edgesOf = s.edgesOf) :
    s'.garbage = s.garbage := by
  have hnodes : s'.nodes = s.nodes := by rw [nodes, nodes, hmembers]
  have hroots : s'.roots = s.roots := by
    unfold roots
    rw [hnodes]
    refine List.filter_congr fun i hi => ?_
    rw [Heap.getElem?_external, Heap.getElem?_external, hnodes, hedges, hstrong i hi]
  have hmarked : ∀ i, Marked s'.reachable i ↔ Marked s.reachable i := by
    intro i
    rw [hs'.marked_iff, hs.marked_iff, Led, Led, hroots, hedges]
  have hgetD : ∀ (marked : Array Bool) (i : Nat),
      (marked[i]?).getD false = true ↔ Marked marked i := by
    intro marked i
    unfold Marked
    cases marked[i]? <;> simp
  simp only [garbage, hmembers]
  congr 1
  refine List.filter_congr fun e _ => ?_
  rw [Bool.not_eq_eq_eq_not, Bool.not_not, Bool.eq_iff_iff, hgetD, hgetD, hmarked]

end Snapshot

namespace Heap

variable {h h' k k' : Heap} {members : List (Nat × Ref)} {extra : Nat}

/-- The garbage depends on the objects and not on the number of nodes. -/
theorem Gathers.garbage_eq (hm : h.Gathers members) (hm' : h'.Gathers members)
    (hcells : h'.cells = h.cells) :
    (h'.snapshotOf members).garbage = (h.snapshotOf members).garbage := by
  have hcell : h'.cell? = h.cell? := by
    funext r
    simp only [cell?, hcells]
  have hnode : h'.node? = h.node? := by
    funext r
    simp only [node?, hcell]
  have hedge : h'.edgeNodes = h.edgeNodes := by
    funext r
    simp only [edgeNodes, body?, hcell, hnode]
  refine Snapshot.garbage_eq hm.closed hm'.closed rfl (fun i hi => ?_) (funext fun i => ?_)
  · obtain ⟨⟨i, r⟩, he, rfl⟩ := List.mem_map.1 hi
    rw [hm.strong_get he, hm'.strong_get he, strongOf, strongOf, hcell]
  · by_cases hi : i ∈ members.map (·.1)
    · obtain ⟨⟨i, r⟩, he, rfl⟩ := List.mem_map.1 hi
      rw [hm.edgesOf_eq he, hm'.edgesOf_eq he, hedge]
    · rw [edgesOf_of_ne hi, edgesOf_of_ne hi]

/-! ## Heaps with the same objects -/

/-- Objects and entries are the same, but the second heap counts some insertions more. -/
structure Ahead (extra : Nat) (h h' : Heap) : Prop where
  cells : h'.cells = h.cells
  chain : h.chain.Ahead extra h'.chain
  upheld : ∃ xs gone, h.Upheld xs gone

namespace Ahead

theorem cell?_eq (ha : Ahead extra h h') (r : Ref) : h'.cell? r = h.cell? r := by
  rw [cell?, cell?, ha.cells]

theorem body?_eq (ha : Ahead extra h h') (r : Ref) : h'.body? r = h.body? r := by
  rw [body?, body?, ha.cell?_eq]

theorem isAlive_eq (ha : Ahead extra h h') : h'.isAlive = h.isAlive := by
  funext r
  rw [isAlive, isAlive, ha.cell?_eq]

/-- The second heap is kept up as well as the first. -/
theorem upheld_right {xs : List (Nat × Ref)} {gone : Nat} (ha : Ahead extra h h')
    (hu : h.Upheld xs gone) : h'.Upheld xs gone where
  lists := ha.chain.of_lists hu.lists
  live := ha.chain.stats ▸ hu.live
  linked := by
    intro i r hr
    rw [node?, ha.cell?_eq] at hr
    exact hu.linked i r hr
  own := by
    intro i r c hr hc
    rw [ha.cell?_eq] at hc
    exact hu.own i r c hr hc
  old := by
    rw [ha.cells]
    exact hu.old
  accounts := ha.chain.stats ▸ hu.accounts

/-! ### Objects -/

theorem of_cells (ha : Ahead extra h h') (hu : ∃ xs gone, k.Upheld xs gone)
    (hcells : k'.cells = k.cells) (hchain : k.chain = h.chain) (hchain' : k'.chain = h'.chain) :
    Ahead extra k k' :=
  ⟨hcells, by rw [hchain, hchain']; exact ha.chain, hu⟩

theorem modifyCell (ha : Ahead extra h h') (r : Ref) {f : Cell → Cell}
    (hf : ∀ c, (f c).link = c.link) : Ahead extra (h.modifyCell r f) (h'.modifyCell r f) := by
  obtain ⟨xs, gone, hu⟩ := ha.upheld
  exact ha.of_cells ⟨xs, gone, hu.modifyCell r hf⟩
    (by rw [Heap.modifyCell, Heap.modifyCell, ha.cells]) rfl rfl

theorem retainRefs (ha : Ahead extra h h') (rs : List Ref) :
    Ahead extra (h.retainRefs rs) (h'.retainRefs rs) := by
  induction rs generalizing h h' with
  | nil => exact ha
  | cons r rs ih => exact ih (ha.modifyCell r fun _ => rfl)

theorem allocate (ha : Ahead extra h h') (b : Body) :
    Ahead extra (h.allocate b).2 (h'.allocate b).2 := by
  obtain ⟨xs, gone, hu⟩ := ha.upheld
  exact ha.of_cells ⟨xs, gone, hu.allocate b⟩ (by simp only [Heap.allocate, ha.cells]) rfl rfl

theorem vanish (ha : Ahead extra h h') (r : Ref) : Ahead extra (h.vanish r) (h'.vanish r) := by
  obtain ⟨xs, gone, hu⟩ := ha.upheld
  exact ha.of_cells ⟨xs, gone, hu.vanish r⟩ (by rw [Heap.vanish, Heap.vanish, ha.cells]) rfl rfl

theorem remove (ha : Ahead extra h h') {r : Ref} {c : Cell} (hc : h.cell? r = some c) :
    Ahead extra (h.remove r c) (h'.remove r c) := by
  obtain ⟨xs, gone, hu⟩ := ha.upheld
  obtain ⟨ys, hy⟩ := hu.remove hc
  refine ⟨by rw [Heap.remove, Heap.remove, ha.cells], ?_, ys, gone, hy⟩
  unfold Heap.remove
  cases c.link with
  | fresh | detached => exact ha.chain
  | linked i => exact ha.chain.release i

theorem releaseRefs (ha : Ahead extra h h') (work : List Ref) :
    Ahead extra (h.releaseRefs work) (h'.releaseRefs work) := by
  induction h, work using Heap.releaseRefs.induct generalizing h' with
  | case1 h => rwa [releaseRefs_nil, releaseRefs_nil]
  | case2 h r rest hc ih =>
    rw [releaseRefs_dead rest hc, releaseRefs_dead rest ((ha.cell?_eq r).trans hc)]
    exact ih ha
  | case3 h r rest c hc hle ih =>
    rw [releaseRefs_last rest hc hle, releaseRefs_last rest ((ha.cell?_eq r).trans hc) hle]
    exact ih (ha.remove hc)
  | case4 h r rest c hc hgt ih =>
    rw [releaseRefs_shared rest hc hgt, releaseRefs_shared rest ((ha.cell?_eq r).trans hc) hgt]
    obtain ⟨xs, gone, hu⟩ := ha.upheld
    refine ih (ha.of_cells ⟨xs, gone, ?_⟩ (by rw [setCell, setCell, ha.cells]) rfl rfl)
    exact hu.setCell hc rfl

/-! ### Entries -/

theorem register (ha : Ahead extra h h') (r : Ref) :
    (h'.register r).1 = (h.register r).1 ∧ Ahead extra (h.register r).2 (h'.register r).2 := by
  obtain ⟨xs, gone, hu⟩ := ha.upheld
  obtain ⟨ys, hy⟩ := hu.register r
  obtain ⟨hplace, hinsert⟩ := ha.chain.insert r
  suffices hsame : (h'.register r).1 = (h.register r).1 ∧
      (h'.register r).2.cells = (h.register r).2.cells ∧
      (h.register r).2.chain.Ahead extra (h'.register r).2.chain from
    ⟨hsame.1, hsame.2.1, hsame.2.2, ys, gone, hy⟩
  unfold Heap.register
  rw [ha.cell?_eq]
  cases h.cell? r with
  | none => exact ⟨rfl, ha.cells, ha.chain⟩
  | some c =>
    dsimp only
    cases c.link with
    | linked i => exact ⟨rfl, ha.cells, ha.chain⟩
    | fresh => exact ⟨rfl, by simp only [Heap.modifyCell, hplace, ha.cells], hinsert⟩
    | detached =>
      refine ⟨rfl, ha.cells, ?_⟩
      dsimp only
      rw [hplace]
      have hrel := hinsert.unlink (h.chain.insert r).1
      generalize (h.chain.insert r).2.unlink _ = o, (h'.chain.insert r).2.unlink _ = o' at hrel
      let counts := fun (s : CollectStats) =>
        { s with live := s.live - 1, allocated := s.allocated - 1 }
      cases hrel with
      | none => exact hinsert.account counts
      | some hd => exact hd.account counts

theorem unregister (ha : Ahead extra h h') (r : Ref) :
    (h'.unregister r).1 = (h.unregister r).1 ∧
      Ahead extra (h.unregister r).2 (h'.unregister r).2 := by
  obtain ⟨xs, gone, hu⟩ := ha.upheld
  obtain ⟨ys, hy⟩ := hu.unregister r
  suffices hsame : (h'.unregister r).1 = (h.unregister r).1 ∧
      (h'.unregister r).2.cells = (h.unregister r).2.cells ∧
      (h.unregister r).2.chain.Ahead extra (h'.unregister r).2.chain from
    ⟨hsame.1, hsame.2.1, hsame.2.2, ys, _, hy⟩
  unfold Heap.unregister
  rw [ha.cell?_eq]
  cases h.cell? r with
  | none => exact ⟨rfl, ha.cells, ha.chain⟩
  | some c =>
    dsimp only
    cases c.link with
    | fresh | detached => exact ⟨rfl, ha.cells, ha.chain⟩
    | linked i =>
      dsimp only
      have hrel := ha.chain.unlink i
      generalize h.chain.unlink i = o, h'.chain.unlink i = o' at hrel
      cases hrel with
      | none => exact ⟨rfl, ha.cells, ha.chain⟩
      | some hd =>
        exact ⟨rfl, by simp only [Heap.modifyCell, ha.cells],
          hd.account fun s => { s with live := s.live - 1 }⟩

/-! ### Collections -/

theorem prune (ha : Ahead extra h h') : Ahead extra h.prune h'.prune := by
  obtain ⟨xs, gone, hu⟩ := ha.upheld
  obtain ⟨ys, hy, -⟩ := hu.prune
  refine ⟨ha.cells, ?_, ys, gone, hy⟩
  rw [Heap.prune, Heap.prune, ha.isAlive_eq]
  exact (ha.chain.snapshot h.isAlive).2

theorem clear (ha : Ahead extra h h') (r : Ref) : Ahead extra (h.clear r) (h'.clear r) := by
  unfold Heap.clear
  rw [ha.body?_eq]
  cases h.body? r with
  | none => exact ha
  | some b =>
    have hset : Ahead extra (h.setBody r b.cleared) (h'.setBody r b.cleared) :=
      ha.modifyCell r fun _ => rfl
    exact hset.releaseRefs b.looseRefs

theorem freeAll (ha : Ahead extra h h') (rs : List Ref) :
    Ahead extra (h.freeAll rs) (h'.freeAll rs) := by
  have hclears : ∀ (rs : List Ref) {h h' : Heap}, Ahead extra h h' →
      Ahead extra (rs.foldl Heap.clear h) (rs.foldl Heap.clear h') := by
    intro rs
    induction rs with
    | nil => exact fun ha => ha
    | cons r rs ih => exact fun ha => ih (ha.clear r)
  exact (hclears rs (ha.retainRefs rs)).releaseRefs rs

end Ahead

theorem Upheld.gathers {xs : List (Nat × Ref)} {gone : Nat} (hu : h.Upheld xs gone) :
    h.prune.Gathers (h.chain.snapshot h.isAlive).1 := by
  obtain ⟨ys, hy, hmem, -⟩ := hu.prune
  have hmembers : (h.chain.snapshot h.isAlive).1 =
      xs.filter fun (e : Nat × Ref) => h.isAlive e.2 := by
    rw [Chain.snapshot, hu.lists.toList_eq]
  have hiff : ∀ i r, (i, r) ∈ (h.chain.snapshot h.isAlive).1 ↔ (i, r) ∈ ys := by
    intro i r
    rw [hmembers, List.mem_filter, hmem]
  refine ⟨?_, fun i r hr => hy.lists.lt_size ((hiff i r).1 hr), fun i r hr => ?_⟩
  · rw [hmembers]
    exact hu.lists.distinct.sublist (List.filter_sublist.map _)
  · exact (hiff i r).2 (hy.linked i r hr)

/-- A collection frees the same objects, and both chains then begin to count anew. -/
theorem Ahead.collect (ha : Ahead extra h h') : Ahead 0 h.collect.2 h'.collect.2 := by
  obtain ⟨xs, gone, hu⟩ := ha.upheld
  obtain ⟨ys, hy⟩ := hu.collect
  have hgathers := (ha.upheld_right hu).gathers
  have hmembers : (h'.chain.snapshot h'.isAlive).1 = (h.chain.snapshot h.isAlive).1 := by
    rw [ha.isAlive_eq]
    exact (ha.chain.snapshot h.isAlive).1
  rw [hmembers] at hgathers
  have hgarbage := hu.gathers.garbage_eq hgathers ha.cells
  have hfreed := ha.prune.freeAll (h.prune.snapshotOf (h.chain.snapshot h.isAlive).1).garbage
  have hcollect : ∀ k : Heap, k.collect.2 =
      let garbage := (k.prune.snapshotOf (k.chain.snapshot k.isAlive).1).garbage
      { k.prune.freeAll garbage with
        chain := (k.prune.freeAll garbage).chain.recordCollection garbage.length } :=
    fun _ => rfl
  refine ⟨?_, ?_, ys, gone, hy⟩
  · rw [hcollect, hcollect, hmembers, hgarbage]
    exact hfreed.cells
  · rw [hcollect, hcollect, hmembers, hgarbage]
    exact hfreed.chain.recordCollection _

/-! ## Uses of a heap -/

/-- What happens to a heap from outside: an event, other settings, or a moment at which a
collection takes place if one is due. -/
inductive Use where
  | event (e : Event)
  | configure (config : CollectConfig)
  | safePoint

namespace Use

def apply (h : Heap) : Use → Heap
  | event e => (e.apply (h, 0)).1
  | configure config => { h with chain := { h.chain with config } }
  | safePoint => h.maybeCollect

/-- The use is a collection. -/
def collects (h : Heap) : Use → Bool
  | event .collect => true
  | safePoint => h.chain.isDue
  | _ => false

end Use

/-- The heap after some uses. -/
def used (h : Heap) (us : List Use) : Heap := us.foldl Use.apply h

/-- One of the uses is a collection. -/
def collects (h : Heap) : List Use → Bool
  | [] => false
  | u :: us => u.collects h || (u.apply h).collects us

theorem Upheld.use {xs : List (Nat × Ref)} {gone : Nat} (hu : h.Upheld xs gone) (u : Use) :
    ∃ ys gone, (u.apply h).Upheld ys gone := by
  cases u with
  | event e =>
    have happly : ∀ gone, (e.apply (h, gone)).1 = (e.apply (h, 0)).1 := fun _ => by cases e <;> rfl
    obtain ⟨ys, hy⟩ := hu.event e
    exact ⟨ys, _, happly gone ▸ hy⟩
  | configure config =>
    exact ⟨xs, gone, hu.lists.congr rfl rfl rfl, hu.live, hu.linked, hu.own, hu.old, hu.accounts⟩
  | safePoint =>
    obtain ⟨ys, hy⟩ := hu.collect
    simp only [Use.apply, maybeCollect]
    split
    · exact ⟨ys, gone, hy⟩
    · exact ⟨xs, gone, hu⟩

theorem Upheld.used {xs : List (Nat × Ref)} {gone : Nat} (hu : h.Upheld xs gone)
    (us : List Use) : ∃ ys gone, (h.used us).Upheld ys gone := by
  induction us generalizing h xs gone with
  | nil => exact ⟨xs, gone, hu⟩
  | cons u us ih =>
    obtain ⟨ys, n, hy⟩ := hu.use u
    exact ih hy

namespace Ahead

/-- The same use of both heaps. Only at a safe point can the difference tell. -/
theorem use (ha : Ahead extra h h') (u : Use)
    (hnear : u = .safePoint → ¬ h.chain.Near extra) :
    Ahead (if u.collects h then 0 else extra) (u.apply h) (u.apply h') := by
  cases u with
  | event e =>
    cases e with
    | make b => exact ha.allocate b
    | change r b => exact ha.modifyCell r fun _ => rfl
    | share r => exact ha.modifyCell r fun _ => rfl
    | drop r => exact ha.releaseRefs [r]
    | vanish r => exact ha.vanish r
    | register r => exact (ha.register r).2
    | unregister r => exact (ha.unregister r).2
    | snapshot => exact ha.prune
    | collect => exact ha.collect
  | configure config =>
    obtain ⟨xs, gone, hu⟩ := ha.upheld
    exact ⟨ha.cells, ha.chain.configure config, hu.use (.configure config)⟩
  | safePoint =>
    have hdue : h'.chain.isDue = h.chain.isDue := by
      rw [Bool.eq_iff_iff, ha.chain.isDue_iff, or_iff_left (hnear rfl)]
    unfold Use.apply Use.collects Heap.maybeCollect
    rw [hdue]
    cases h.chain.isDue with
    | false => exact ha
    | true => exact ha.collect

theorem used (ha : Ahead extra h h') (us : List Use)
    (hnear : ∀ n, us[n]? = some .safePoint →
      ¬ (h.used (us.take n)).chain.Near (if h.collects (us.take n) then 0 else extra)) :
    Ahead (if h.collects us then 0 else extra) (h.used us) (h'.used us) := by
  induction us generalizing h h' extra with
  | nil => exact ha
  | cons u us ih =>
    have hcarry : ∀ us : List Use, (if h.collects (u :: us) then 0 else extra) =
        if (u.apply h).collects us then 0 else if u.collects h then 0 else extra := by
      intro us
      rw [collects]
      cases u.collects h <;> cases (u.apply h).collects us <;> rfl
    rw [hcarry]
    refine ih (ha.use u fun hu => hnear 0 (congrArg some hu)) fun n hn => ?_
    rw [← hcarry]
    exact hnear (n + 1) hn

end Ahead

/-! ## After a refusal -/

/-- The object was taken out of the chain before. -/
def Detached (h : Heap) (r : Ref) : Prop := ∃ c, h.cell? r = some c ∧ c.link = .detached

theorem register_refused {xs : List (Nat × Ref)} {gone : Nat} (hu : h.Upheld xs gone) {r : Ref}
    (hr : (h.register r).1 = false) :
    (h.Detached r ∧ Ahead 1 h (h.register r).2) ∨
      (¬ h.Detached r ∧ Ahead 0 h (h.register r).2) := by
  have hrefl : Ahead 0 h h := ⟨rfl, .refl hu.lists, xs, gone, hu⟩
  cases hc : h.cell? r with
  | none =>
    have hsame : (h.register r).2 = h := by simp only [register, hc]
    rw [hsame]
    refine .inr ⟨fun ⟨c, hc', _⟩ => ?_, hrefl⟩
    rw [hc] at hc'
    cases hc'
  | some c =>
    cases hl : c.link with
    | fresh => simp [register, hc, hl] at hr
    | linked i =>
      have hsame : (h.register r).2 = h := by simp only [register, hc, hl]
      rw [hsame]
      refine .inr ⟨fun ⟨d, hd, hdl⟩ => ?_, hrefl⟩
      rw [hc] at hd
      cases hd
      rw [hl] at hdl
      cases hdl
    | detached =>
      obtain ⟨d, hd, hlists, hsupply, hstats, hconfig, hsince⟩ := Chain.insert_unlink hu.lists r
      have hchain : (h.register r).2 =
          { h with chain := { d with stats := h.chain.stats } } := by
        simp only [register, hc, hl, hd, Option.getD_some, hstats, Nat.add_sub_cancel]
      rw [hchain]
      refine .inl ⟨⟨c, hc, hl⟩, rfl, ?_, xs, gone, hu⟩
      exact ⟨⟨xs, hu.lists, hlists.congr rfl rfl rfl⟩, hsupply, rfl, hconfig, hsince⟩

/-- A refused insertion makes a collection due: the object was taken out of the chain before,
nothing was collected since, and the threshold is one insertion away. -/
structure DueEarly (h : Heap) (r : Ref) (us : List Use) : Prop where
  detached : h.Detached r
  uncollected : h.collects us = false
  auto : (h.used us).chain.config.auto = true
  missing : (h.used us).chain.since + 1 = (h.used us).chain.config.threshold

/-- After these uses all is as if an object had not been registered before them, but for the
one insertion that is counted. -/
structure Unaffected (h : Heap) (r : Ref) (us : List Use) : Prop where
  objects : ((h.register r).2.used us).cells = (h.used us).cells
  entries : ((h.register r).2.used us).chain.toList = (h.used us).chain.toList
  stats : ((h.register r).2.used us).chain.stats = (h.used us).chain.stats
  config : ((h.register r).2.used us).chain.config = (h.used us).chain.config
  due : ((h.register r).2.used us).chain.isDue = true ↔
    (h.used us).chain.isDue = true ∨ h.DueEarly r us

theorem DueEarly.near_iff (r : Ref) (us : List Use) (hd : h.Detached r) :
    (h.used us).chain.Near (if h.collects us then 0 else 1) ↔ h.DueEarly r us := by
  cases hcollects : h.collects us with
  | true =>
    refine ⟨fun hn => absurd hn Chain.not_near_zero, fun he => ?_⟩
    rw [he.uncollected] at hcollects
    cases hcollects
  | false =>
    exact ⟨fun hn => ⟨hd, hcollects, hn.1, Nat.le_antisymm hn.2.1 hn.2.2⟩,
      fun he => ⟨he.auto, Nat.le_of_eq he.missing, Nat.le_of_eq he.missing.symm⟩⟩

/-- A refused registration changes neither objects nor entries nor statistics, now or ever
after, unless a safe point comes just when the refused insertion makes a collection due. -/
theorem refused_registration (config : CollectConfig) (before : List Use) (r : Ref)
    (later : List Use)
    (hrefused : ((used { chain := { config } } before).register r).1 = false)
    (hdue : ∀ n, later[n]? = some .safePoint →
      ¬ (used { chain := { config } } before).DueEarly r (later.take n)) :
    (used { chain := { config } } before).Unaffected r later := by
  obtain ⟨xs, gone, hu⟩ := (Upheld.empty config).used before
  generalize used { chain := { config } } before = h at hrefused hdue hu
  -- what is counted too much, as long as nothing is collected
  obtain ⟨extra, ha, hnear⟩ : ∃ extra, Ahead extra h (h.register r).2 ∧ ∀ us : List Use,
      (h.used us).chain.Near (if h.collects us then 0 else extra) ↔ h.DueEarly r us := by
    rcases register_refused hu hrefused with ⟨hd, ha⟩ | ⟨hd, ha⟩
    · exact ⟨1, ha, fun us => DueEarly.near_iff r us hd⟩
    · refine ⟨0, ha, fun us => ⟨fun hn => ?_, fun he => absurd he.detached hd⟩⟩
      rw [ite_self] at hn
      exact absurd hn Chain.not_near_zero
  have hlater := ha.used later fun n hn => (hnear _).not.2 (hdue n hn)
  exact ⟨hlater.cells, hlater.chain.toList_eq, hlater.chain.stats, hlater.chain.config,
    hlater.chain.isDue_iff.trans (or_congr_right (hnear later))⟩

/-- An array that was taken out of the chain is refused, and after the next insertion the
collection is due early. -/
theorem refused_registration_detachedArray :
    ((used { chain := { config := { threshold := 3 } } } [.event (.make (.array #[])),
      .event (.register ⟨0⟩), .event (.unregister ⟨0⟩)]).register ⟨0⟩).1 = false ∧
    (used { chain := { config := { threshold := 3 } } } [.event (.make (.array #[])),
      .event (.register ⟨0⟩), .event (.unregister ⟨0⟩)]).Unaffected ⟨0⟩
        [.safePoint, .event (.make (.array #[])), .event (.register ⟨1⟩)] := by
  refine ⟨by decide, refused_registration _ _ _ _ (by decide) fun n hn hd => ?_⟩
  have hmissing := hd.missing
  rcases n with _ | _ | _ | n
  · revert hmissing
    decide
  all_goals cases hn

/-- The refused insertion is counted: a collection is due where it was not. -/
theorem refused_registration_counted :
    let h := used { chain := { config := { threshold := 2 } } } [.event (.make (.array #[])),
      .event (.register ⟨0⟩), .event (.unregister ⟨0⟩)]
    (h.register ⟨0⟩).1 = false ∧ h.chain.isDue = false ∧
      (h.register ⟨0⟩).2.chain.isDue = true := by decide

end Heap

end ScriptMachine
