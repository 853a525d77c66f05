import ScriptMachine.Proofs.Heap.Allocation
import ScriptMachine.Proofs.Heap.Clearing
import ScriptMachine.Proofs.Heap.Marking

/-!
# What a collection does

A collection frees the objects of the chain that cannot be reached from outside
it, and no others. The references it does not cut lead to older objects, so
what is cleared cannot keep itself alive. Objects outside the chain count as
outside, also when only garbage keeps them; what they refer to is safe unless
they go with it.
-/

set_option autoImplicit false

namespace ScriptMachine.Heap

variable {out : Ref → Nat} {h h' : Heap} {xs : List (Nat × Ref)}

/-- An object of the chain that nothing outside can reach. -/
def Garbage (h : Heap) (r : Ref) : Prop := h.Registered r ∧ ¬ h.Reached r

/-- An object outside the chain that hangs from garbage, directly or through
others outside the chain. -/
inductive Hangs (h : Heap) : Ref → Prop
  | base {g u : Ref} : h.Garbage g → u ∈ h.refsOf g → ¬ h.Registered u → Hangs h u
  | step {u v : Ref} : Hangs h u → v ∈ h.refsOf u → ¬ h.Registered v → Hangs h v

/-- What hangs from garbage refers to no object of the chain. -/
def Sealed (h : Heap) : Prop := ∀ u r, h.Hangs u → r ∈ h.refsOf u → ¬ h.Registered r

theorem Hangs.not_registered {u : Ref} (hu : h.Hangs u) : ¬ h.Registered u := by
  cases hu with
  | base _ _ hn => exact hn
  | step _ _ hn => exact hn

/-! ## External references -/

theorem held_eq (h : Heap) (r : Ref) :
    h.held r = h.heldWithin r +
      ∑ i ∈ (Finset.range h.cells.size).filter (fun i => ¬ (h.node? ⟨i⟩).isSome),
        (h.refsOf ⟨i⟩).count r :=
  (Finset.sum_filter_add_sum_filter_not _ _ _).symm

theorem registered_iff_isSome (h : Heap) (r : Ref) : h.Registered r ↔ (h.node? r).isSome :=
  Option.isSome_iff_exists.symm

theorem heldWithin_lt_iff (h : Heap) (r : Ref) :
    h.heldWithin r < h.held r ↔ ∃ p, ¬ h.Registered p ∧ r ∈ h.refsOf p := by
  rw [held_eq]
  constructor
  · intro hlt
    by_contra hno
    have hzero : ∑ i ∈ (Finset.range h.cells.size).filter (fun i => ¬ (h.node? ⟨i⟩).isSome),
        (h.refsOf ⟨i⟩).count r = 0 := by
      refine Finset.sum_eq_zero fun i hi => List.count_eq_zero.2 fun hm => hno ⟨⟨i⟩, ?_, hm⟩
      rw [registered_iff_isSome]
      exact (Finset.mem_filter.1 hi).2
    omega
  · rintro ⟨p, hp, hm⟩
    have hlt : p.id < h.cells.size := by
      by_contra hge
      rw [refsOf_of_dead (cell?_of_size_le (by omega))] at hm
      cases hm
    have hpos : 0 < ∑ i ∈ (Finset.range h.cells.size).filter (fun i => ¬ (h.node? ⟨i⟩).isSome),
        (h.refsOf ⟨i⟩).count r :=
      Finset.sum_pos' (fun _ _ => Nat.zero_le _) ⟨p.id, Finset.mem_filter.2
        ⟨Finset.mem_range.2 hlt, by rwa [registered_iff_isSome] at hp⟩, List.count_pos_iff.2 hm⟩
    omega

theorem Chained.snapshot_eq (hx : h.Chained xs) :
    h.chain.snapshot h.isAlive = (xs, h.chain) := by
  refine hx.lists.snapshot_eq _ ?_
  rintro ⟨i, r⟩ hi
  obtain ⟨c, hc, -⟩ := node?_eq_some.1 ((hx.linked i r).1 hi)
  simp [isAlive, hc]

namespace Sound

theorem external_pos_iff (hs : h.Sound out) (r : Ref) :
    0 < h.external r ↔ 0 < out r ∨ ∃ p, ¬ h.Registered p ∧ r ∈ h.refsOf p := by
  have hacc := hs.accounts r
  have hle := heldWithin_le h r
  rw [external, ← heldWithin_lt_iff]
  omega

/-- Only garbage refers to garbage. -/
theorem garbage_holder (hs : h.Sound out) {r p : Ref} (hr : h.Garbage r) (hp : r ∈ h.refsOf p) :
    h.Garbage p := by
  have hext : ¬ 0 < h.external r := fun hpos => hr.2 (.root hr.1 hpos)
  rw [hs.external_pos_iff] at hext
  push Not at hext
  have hreg : h.Registered p := by
    by_contra hno
    exact hext.2 p hno hp
  exact ⟨hreg, fun hreach => hr.2 (.step hreach hp hr.1)⟩

theorem garbage_out (hs : h.Sound out) {r : Ref} (hr : h.Garbage r) : out r = 0 := by
  have hext : ¬ 0 < h.external r := fun hpos => hr.2 (.root hr.1 hpos)
  rw [hs.external_pos_iff] at hext
  omega

/-! ## Freeing -/

/-- Once everything is cleared and let go, no garbage is left: the youngest that
lived on would have a reference that was taken. -/
theorem garbage_dead (hs : h.Sound out) (hs' : h'.Sound out) {gs : List Ref}
    (hg : ∀ r, r ∈ gs ↔ h.Garbage r) (hc : Clears gs h h') (n : Nat) :
    ∀ r, h.Garbage r → h.cells.size ≤ r.id + n → h'.cell? r = none := by
  induction n with
  | zero =>
    intro r _ hn
    exact cell?_of_size_le (by rw [hc.size]; omega)
  | succ n ih =>
    intro r hr hn
    by_contra hlive
    obtain ⟨c', hc'⟩ := Option.ne_none_iff_exists'.1 hlive
    rcases hs'.holder_or_out hc' with ho | ⟨p, hp⟩
    · have := hs.garbage_out hr
      omega
    · have hpg : h.Garbage p := hs.garbage_holder hr (hc.refsOf_subset hp)
      obtain ⟨c, hc0, hcase⟩ := hc.refsOf_cleared ((hg p).2 hpg) hp
      obtain ⟨i, hi⟩ := hr.1
      obtain ⟨d, hd, hl⟩ := node?_eq_some.1 hi
      rcases hcase with hh | hf
      · have hleaf := hs.handles p c r hc0 hh
        rw [body?_of_cell? hd, Option.map_some, hs.collectable r i d hd hl] at hleaf
        cases hleaf
      · have hlt := hs.older p c hc0 r hf
        have hdead := ih p hpg (by omega)
        rw [refsOf_of_dead hdead] at hp
        cases hp

/-- Every living object that is no garbage and does not hang from it is kept by
someone outside or of its kind. -/
theorem rooted (hs : h.Sound out) (hseal : h.Sealed) :
    Rooted (fun z => (∃ c, h.cell? z = some c) ∧ ¬ h.Garbage z ∧ ¬ h.Hangs z) out h := by
  have hkeep : ∀ p z, ¬ h.Garbage p → ¬ h.Hangs p → z ∈ h.refsOf p → 0 < out z ∨
      ∃ p, ((∃ c, h.cell? p = some c) ∧ ¬ h.Garbage p ∧ ¬ h.Hangs p) ∧ z ∈ h.refsOf p := by
    intro p z hg hd hz
    cases hp : h.cell? p with
    | none =>
      rw [refsOf_of_dead hp] at hz
      cases hz
    | some c => exact .inr ⟨p, ⟨⟨c, hp⟩, hg, hd⟩, hz⟩
  rintro z ⟨⟨c, hc⟩, hng, hnd⟩
  refine ⟨⟨c, hc⟩, ?_⟩
  by_cases hreg : h.Registered z
  · have hreach : h.Reached z := by
      by_contra hno
      exact hng ⟨hreg, hno⟩
    cases hreach with
    | root _ hpos =>
      rcases (hs.external_pos_iff z).1 hpos with ho | ⟨p, hp, hm⟩
      · exact .inl ho
      · exact hkeep p z (fun hg => hp hg.1) (fun hd => hseal p z hd hm hreg) hm
    | step hp hm _ =>
      exact hkeep _ z (fun hg => hg.2 hp) (fun hd => hd.not_registered hp.registered) hm
  · rcases hs.holder_or_out hc with ho | ⟨p, hm⟩
    · exact .inl ho
    · exact hkeep p z (fun hg => hnd (.base hg hm hreg)) (fun hd => hnd (.step hd hm hreg)) hm

/-- Clearing a list of objects one after the other, all held meanwhile. -/
theorem foldl_clear {gs : List Ref} (done : List Ref) {h0 : Heap} {K : Ref → Prop}
    (hs : h.Sound fun s => out s + (done ++ gs).count s) (hc : Clears done h0 h)
    (hk : Rooted K out h) (hg : ∀ r ∈ gs, ¬ K r) (hd : (done ++ gs).Nodup) :
    (gs.foldl Heap.clear h).Sound (fun s => out s + (done ++ gs).count s) ∧
      Clears (done ++ gs) h0 (gs.foldl Heap.clear h) ∧ Rooted K out (gs.foldl Heap.clear h) := by
  induction gs generalizing h done with
  | nil =>
    rw [List.append_nil] at hs ⊢
    exact ⟨hs, hc, hk⟩
  | cons r gs ih =>
    have hsplit : done ++ r :: gs = (done ++ [r]) ++ gs := by simp
    obtain ⟨c, hr⟩ := hs.alive_of_out (r := r) (by
      have : 0 < (done ++ r :: gs).count r := List.count_pos_iff.2 (by simp)
      omega)
    have hn : r ∉ done := by
      intro hm
      exact (List.nodup_append.1 hd).2.2 r hm r List.mem_cons_self rfl
    have hs' := hs.clear r
    rw [hsplit] at hs' hd ⊢
    exact ih _ hs' (hc.clear hr hn) (hk.clear hs (hg r List.mem_cons_self))
      (fun s hm => hg s (List.mem_cons_of_mem _ hm)) hd

theorem freeAll (gs : List Ref) {K : Ref → Prop} (hs : h.Sound out)
    (ha : ∀ r ∈ gs, ∃ c, h.cell? r = some c) (hk : Rooted K out h) (hg : ∀ r ∈ gs, ¬ K r)
    (hd : gs.Nodup) :
    (h.freeAll gs).Sound out ∧ Clears gs h (h.freeAll gs) ∧ Rooted K out (h.freeAll gs) := by
  obtain ⟨hs1, hc1, ha1⟩ := hs.retainRefs ha
  have hk1 : Rooted K out (h.retainRefs gs) := by
    refine hk.congr fun z hz c hc => ?_
    obtain ⟨c', hc'⟩ := ha1 z c hc
    have := hc1.refsOf_kept hc' List.not_mem_nil
    rw [refsOf_of_cell? hc', refsOf_of_cell? hc] at this
    exact ⟨c', hc', this⟩
  obtain ⟨hs2, hc2, hk2⟩ := foldl_clear [] hs1 hc1 hk1 hg hd
  refine ⟨hs2.releaseRefs, hc2.trim (trims_releaseRefs _ _), hk2.releaseRefs hs2⟩

theorem withChain (hs : h.Sound out) {chain : Chain}
    (hlists : ∀ xs, h.chain.Lists xs → chain.Lists xs)
    (hlive : chain.stats.live = h.chain.stats.live) : ({ h with chain } : Heap).Sound out where
  accounts := hs.accounts
  positive := hs.positive
  older := hs.older
  handles := hs.handles
  collectable := hs.collectable
  chained := by
    obtain ⟨xs, hx⟩ := hs.chained
    exact ⟨xs, hlists xs hx.lists, hlive.trans hx.live, hx.linked⟩

/-- A collection frees the garbage, keeps the accounts and whatever holds itself
up without garbage. -/
theorem collect (hs : h.Sound out) {K : Ref → Prop} (hk : Rooted K out h)
    (hg : ∀ r, h.Garbage r → ¬ K r) :
    ∃ gs, gs.Nodup ∧ (∀ r, r ∈ gs ↔ h.Garbage r) ∧ h.collect.1 = gs.length ∧
      h.collect.2.Sound out ∧ Clears gs h h.collect.2 ∧ Rooted K out h.collect.2 := by
  obtain ⟨xs, hx⟩ := hs.chained
  have hmem := Chained.mem_garbage hs hx
  refine ⟨(h.snapshotOf xs).garbage, hx.garbage_distinct, hmem, ?_⟩
  have hcollect : h.collect = ((h.snapshotOf xs).garbage.length,
      { h.freeAll (h.snapshotOf xs).garbage with
        chain := (h.freeAll (h.snapshotOf xs).garbage).chain.recordCollection
          (h.snapshotOf xs).garbage.length }) := by
    simp only [Heap.collect, hx.snapshot_eq]
  obtain ⟨hs', hc', hk'⟩ := hs.freeAll (h.snapshotOf xs).garbage
    (by
      intro r hr
      obtain ⟨i, hi⟩ := ((hmem r).1 hr).1
      obtain ⟨c, hc, -⟩ := node?_eq_some.1 hi
      exact ⟨c, hc⟩)
    hk (fun r hr => hg r ((hmem r).1 hr)) hx.garbage_distinct
  rw [hcollect]
  refine ⟨rfl, hs'.withChain ?_ rfl, ⟨hc'.size, hc'.cell⟩, hk'.congr fun z _ c hc => ⟨c, hc, rfl⟩⟩
  intro ys hy
  exact ⟨hy.path, hy.distinct, hy.free_distinct, hy.free_empty, hy.covered⟩

end Sound

/-! ## Exactness -/

/-- The object is gone, from the chain too, and weak references to it read null. -/
structure Freed (h : Heap) (r : Ref) : Prop where
  dead : h.cell? r = none
  unlinked : ∀ e ∈ h.chain.toList, e.2 ≠ r
  weak : ∀ w v, h.body? w = some (.weak v) → v.ref? = some r → h.target w = .null

theorem Sound.freed (hs : h.Sound out) {r : Ref} (hr : h.cell? r = none) : h.Freed r where
  dead := hr
  unlinked := by
    obtain ⟨xs, hx⟩ := hs.chained
    rintro ⟨i, s⟩ hi rfl
    rw [hx.lists.toList_eq] at hi
    obtain ⟨c, hc, -⟩ := node?_eq_some.1 ((hx.linked i s).1 hi)
    rw [hr] at hc
    cases hc
  weak := by
    intro w v hw hv
    simp [target, hw, hv, isAlive, hr]

theorem Chained.live_eq (hx : h.Chained xs) :
    h.chain.stats.live = {r | h.Registered r}.ncard := by
  have hset : {r | h.Registered r} = ((xs.map (·.2)).toFinset : Set Ref) := by
    ext r
    simp only [Set.mem_ofPred_eq, hx.registered_iff, List.coe_toFinset, List.mem_map]
    constructor
    · rintro ⟨i, hi⟩
      exact ⟨(i, r), hi, rfl⟩
    · rintro ⟨⟨i, s⟩, hi, rfl⟩
      exact ⟨i, hi⟩
  rw [hset, Set.ncard_coe_finset, List.toFinset_card_of_nodup hx.refs_distinct, List.length_map,
    hx.live]

namespace Clears

variable {gs : List Ref}

theorem body?_kept (hc : Clears gs h h') {r : Ref} {c' : Cell} (hr : h'.cell? r = some c')
    (hn : r ∉ gs) : h'.body? r = h.body? r := by
  obtain ⟨c, hc0, -, -, hb⟩ := hc.cell r c' hr
  rw [if_neg hn] at hb
  rw [body?_of_cell? hr, body?_of_cell? hc0, hb]

/-- Once the garbage is gone, what is left in the chain was reached before. -/
theorem registered_reached (hc : Clears gs h h') (hg : ∀ r, h.Garbage r → h'.cell? r = none)
    {r : Ref} (hr : h'.Registered r) : h.Reached r := by
  obtain ⟨i, hi⟩ := hr
  by_contra hno
  obtain ⟨c, hc', -⟩ := node?_eq_some.1 hi
  rw [hg r ⟨⟨i, hc.node? hi⟩, hno⟩] at hc'
  cases hc'

end Clears

/-- What was reached from outside before a collection is reached after it. -/
theorem Sound.reached_after (hs : h.Sound out) (hs' : h'.Sound out) {gs : List Ref}
    (hg : ∀ r, r ∈ gs ↔ h.Garbage r) (hc : Clears gs h h') (hseal : h.Sealed)
    (halive : ∀ r c, h.cell? r = some c → ¬ h.Garbage r → ¬ h.Hangs r → ∃ c', h'.cell? r = some c')
    {r : Ref} (hr : h.Reached r) : h'.Reached r ∧ h'.body? r = h.body? r ∧ h'.node? r = h.node? r := by
  have hkept : ∀ {p q : Ref}, q ∈ h.refsOf p → ¬ h.Garbage p → ¬ h.Hangs p →
      q ∈ h'.refsOf p ∧ h'.node? p = h.node? p := by
    intro p q hq hp hd
    cases hcp : h.cell? p with
    | none =>
      rw [refsOf_of_dead hcp] at hq
      cases hq
    | some c =>
      obtain ⟨c', hc'⟩ := halive p c hcp hp hd
      rw [hc.refsOf_kept hc' (fun hm => hp ((hg p).1 hm))]
      exact ⟨hq, hc.node?_of_alive hc'⟩
  have hsame : ∀ {p : Ref}, h.Reached p → h'.body? p = h.body? p ∧ h'.node? p = h.node? p := by
    intro p hp
    obtain ⟨i, hi⟩ := hp.registered
    obtain ⟨c, hcp, -⟩ := node?_eq_some.1 hi
    obtain ⟨c', hc'⟩ := halive p c hcp (fun hg => hg.2 hp) (fun hd => hd.not_registered hp.registered)
    exact ⟨hc.body?_kept hc' (fun hm => ((hg p).1 hm).2 hp), hc.node?_of_alive hc'⟩
  refine ⟨?_, hsame hr⟩
  induction hr with
  | @root r hreg hpos =>
    refine .root ?_ ((hs'.external_pos_iff r).2 (((hs.external_pos_iff r).1 hpos).imp id ?_))
    · rw [Registered, (hsame (.root hreg hpos)).2]
      exact hreg
    · rintro ⟨p, hp, hm⟩
      obtain ⟨hm', hn⟩ := hkept hm (fun hg => hp hg.1) (fun hd => hseal p r hd hm hreg)
      exact ⟨p, by rwa [Registered, hn], hm'⟩
  | @step p r hp hm hreg ih =>
    refine .step ih (hkept hm (fun hg => hg.2 hp) fun hd => hd.not_registered hp.registered).1 ?_
    rw [Registered, (hsame (.step hp hm hreg)).2]
    exact hreg

/-- A collection frees exactly the objects of the chain that nothing outside it
can reach. When nothing that hangs from them refers back into the chain, all
other objects of the chain keep their contents and their nodes, and the next
collection finds nothing to do. -/
theorem collect_exact (h : Heap) (out : Ref → Nat) (hs : h.Sound out) :
    h.collect.1 = {r | h.Registered r ∧ ¬ h.Reached r}.ncard ∧
    (∀ r, h.Registered r → ¬ h.Reached r → h.collect.2.Freed r) ∧
    (h.Sealed →
      (∀ r, h.Reached r → h.collect.2.body? r = h.body? r ∧ h.collect.2.node? r = h.node? r) ∧
      (∀ r, h.collect.2.Registered r ↔ h.Reached r) ∧
      h.collect.2.chain.stats.live = {r | h.Reached r}.ncard ∧
      h.collect.2.collect.1 = 0) := by
  have hfreed : ∀ {gs : List Ref} {h' : Heap}, (∀ r, r ∈ gs ↔ h.Garbage r) → h'.Sound out →
      Clears gs h h' → ∀ r, h.Garbage r → h'.cell? r = none := fun hg hs' hc r hr =>
    hs.garbage_dead hs' hg hc h.cells.size r hr (by omega)
  refine ⟨?_, ?_, fun hseal => ?_⟩
  · obtain ⟨gs, hd, hg, hn, -⟩ := hs.collect (K := fun _ => False) (fun _ hf => hf.elim)
      (fun _ _ hf => hf)
    have hset : {r | h.Registered r ∧ ¬ h.Reached r} = (gs.toFinset : Set Ref) := by
      ext r
      simp [hg, Garbage]
    rw [hn, hset, Set.ncard_coe_finset, List.toFinset_card_of_nodup hd]
  · intro r hr hun
    obtain ⟨gs, -, hg, -, hs', hc, -⟩ := hs.collect (K := fun _ => False) (fun _ hf => hf.elim)
      (fun _ _ hf => hf)
    exact hs'.freed (hfreed hg hs' hc r ⟨hr, hun⟩)
  · obtain ⟨gs, -, hg, -, hs', hc, hk⟩ := hs.collect (hs.rooted hseal) (fun r hr hk => hk.2.1 hr)
    have hdead := hfreed hg hs' hc
    have halive : ∀ r c, h.cell? r = some c → ¬ h.Garbage r → ¬ h.Hangs r →
        ∃ c', h.collect.2.cell? r = some c' := fun r c hr h1 h2 => (hk r ⟨⟨c, hr⟩, h1, h2⟩).1
    have hafter := fun (r : Ref) (hr : h.Reached r) => hs.reached_after hs' hg hc hseal halive hr
    have hreg : ∀ r, h.collect.2.Registered r ↔ h.Reached r := by
      intro r
      refine ⟨hc.registered_reached hdead, fun hr => ?_⟩
      exact (hafter r hr).1.registered
    refine ⟨fun r hr => (hafter r hr).2, hreg, ?_, ?_⟩
    · obtain ⟨xs, hx⟩ := hs'.chained
      rw [hx.live_eq]
      simp only [hreg]
    · obtain ⟨gs', -, hg', hn', -⟩ := hs'.collect (K := fun _ => False) (fun _ hf => hf.elim)
        (fun _ _ hf => hf)
      rw [hn', List.length_eq_zero_iff, List.eq_nil_iff_forall_not_mem]
      intro r hr
      have hgr := (hg' r).1 hr
      exact hgr.2 (hafter r ((hreg r).1 hgr.1)).1

/-! ## Two small stores -/

/-- An array that holds itself, and another that someone outside holds. -/
def cyclicHeap : Heap :=
  let (a, h) := ({} : Heap).allocateLinked (.array #[])
  ((h.setBody a (.array #[.array a])).allocateLinked (.array #[])).2

theorem cyclicHeap_sound : cyclicHeap.Sound fun s => [(⟨1⟩ : Ref)].count s := by
  have h0 : ({} : Heap).Sound fun s => 0 + (Body.array #[]).refs.count s :=
    (Sound.empty {}).congr fun s => rfl
  have h1 := h0.allocateLinked rfl
  have hc : ∃ c, (({} : Heap).allocateLinked (.array #[])).2.cell? ⟨0⟩ = some c ∧
      c.body = .array #[] := ⟨_, rfl, rfl⟩
  obtain ⟨c, hc, hb⟩ := hc
  have h2 : ((({} : Heap).allocateLinked (.array #[])).2.setBody ⟨0⟩ (.array #[.array ⟨0⟩])).Sound
      fun s => 0 + (Body.array #[]).refs.count s :=
    h1.setBody hc (by simp [Body.fixedRefs]) (by rw [hb]; rfl) (fun s => by rw [hb]; rfl)
  exact (h2.allocateLinked rfl).congr fun s => (Nat.zero_add _).symm

theorem cyclicHeap_refs (p r : Ref) (hr : r ∈ cyclicHeap.refsOf p) : p = ⟨0⟩ ∧ r = ⟨0⟩ := by
  obtain ⟨n⟩ := p
  match n with
  | 0 => exact ⟨rfl, List.mem_singleton.1 hr⟩
  | 1 => cases hr
  | n + 2 =>
    have hdead : cyclicHeap.cell? ⟨n + 2⟩ = none := cell?_of_size_le (Nat.le_add_left 2 n)
    rw [refsOf_of_dead hdead] at hr
    cases hr

theorem cyclicHeap_reached (r : Ref) (hr : cyclicHeap.Reached r) : r = ⟨1⟩ := by
  induction hr with
  | @root r hreg hpos =>
    rcases (cyclicHeap_sound.external_pos_iff r).1 hpos with ho | ⟨p, hp, hm⟩
    · exact List.mem_singleton.1 (List.count_pos_iff.1 ho)
    · obtain ⟨rfl, -⟩ := cyclicHeap_refs p r hm
      exact absurd ⟨0, by decide⟩ hp
  | step _ hm _ ih =>
    obtain ⟨rfl, -⟩ := cyclicHeap_refs _ _ hm
    cases ih

theorem cyclicHeap_sealed : cyclicHeap.Sealed := by
  have hreg : cyclicHeap.Registered ⟨0⟩ := ⟨0, by decide⟩
  intro u r hu _
  exfalso
  cases hu with
  | base _ hg hn =>
    obtain ⟨-, rfl⟩ := cyclicHeap_refs _ _ hg
    exact hn hreg
  | step _ hm hn =>
    obtain ⟨-, rfl⟩ := cyclicHeap_refs _ _ hm
    exact hn hreg

theorem collect_exact_cyclic :
    cyclicHeap.collect.2.Freed ⟨0⟩ ∧ cyclicHeap.collect.2.Registered ⟨1⟩ ∧
      cyclicHeap.collect.2.collect.1 = 0 := by
  have hreg : ∀ n, n < 2 → cyclicHeap.Registered ⟨n⟩ := by
    intro n hn
    match n with
    | 0 => exact ⟨0, by decide⟩
    | 1 => exact ⟨1, by decide⟩
  obtain ⟨-, hfreed, hkept⟩ := collect_exact cyclicHeap _ cyclicHeap_sound
  obtain ⟨-, hiff, -, hnext⟩ := hkept cyclicHeap_sealed
  refine ⟨hfreed _ (hreg 0 (by decide)) fun hr => ?_, (hiff _).2 (.root (hreg 1 (by decide)) ?_), hnext⟩
  · cases cyclicHeap_reached _ hr
  · exact (cyclicHeap_sound.external_pos_iff _).2 (.inl (by decide))

/-- An array, held by one that was taken out of the chain, held by a third that
also holds itself. -/
def hangingHeap : Heap :=
  let (x, h) := ({} : Heap).allocateLinked (.array #[])
  let (u, h) := h.allocateLinked (.array #[.array x])
  let (a, h) := (h.unregister u).2.allocateLinked (.array #[.array u])
  h.setBody a (.array #[.array u, .array a])

theorem hangingHeap_sound : hangingHeap.Sound fun _ => 0 := by
  have h0 : ({} : Heap).Sound fun s => 0 + (Body.array #[]).refs.count s :=
    (Sound.empty {}).congr fun s => rfl
  have h1 := h0.allocateLinked rfl
  have h2 : (({} : Heap).allocateLinked (.array #[])).2.Sound
      fun s => 0 + (Body.array #[.array ⟨0⟩]).refs.count s := h1.congr fun s => rfl
  have h3 := (h2.allocateLinked rfl).unregister ⟨1⟩
  have h4 : Sound (fun s => 0 + (Body.array #[.array ⟨1⟩]).refs.count s) _ := h3.congr fun s => rfl
  have hc : ∃ c, (((((({} : Heap).allocateLinked (.array #[])).2.allocateLinked
      (.array #[.array ⟨0⟩])).2.unregister ⟨1⟩).2.allocateLinked (.array #[.array ⟨1⟩])).2.cell? ⟨2⟩ =
        some c ∧ c.body = .array #[.array ⟨1⟩]) := ⟨_, rfl, rfl⟩
  obtain ⟨c, hc, hb⟩ := hc
  refine (h4.allocateLinked rfl).setBody hc (by simp [Body.fixedRefs]) (by rw [hb]; rfl) fun s => ?_
  rw [hb]
  show 0 + [(⟨1⟩ : Ref), ⟨2⟩].count s = 0 + [(⟨2⟩ : Ref)].count s + [(⟨1⟩ : Ref)].count s
  rw [List.count_cons, List.count_cons, List.count_cons]
  simp only [List.count_nil]
  omega

/-- The first array is reached from outside the chain, and still it goes with
what held it there. -/
theorem collect_loses_hanging :
    hangingHeap.Sound (fun _ => 0) ∧ hangingHeap.Reached ⟨0⟩ ∧
      hangingHeap.collect.2.cell? ⟨0⟩ = none := by
  refine ⟨hangingHeap_sound, .root ⟨0, by decide⟩ ?_, ?_⟩
  · refine (hangingHeap_sound.external_pos_iff _).2 (.inr ⟨⟨1⟩, ?_, by decide⟩)
    rintro ⟨i, hi⟩
    cases hi
  · have hnone : (hangingHeap.collect.2.cell? ⟨0⟩).isSome = false := by decide +kernel
    simpa using hnone

end ScriptMachine.Heap
