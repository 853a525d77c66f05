import ScriptMachine.Proofs.Heap.Release

/-!
# New objects and their nodes

An object starts with the reference of its maker and what its body holds. It
enters the chain once, and taking it out leaves all accounts as they are.
-/

set_option autoImplicit false

namespace ScriptMachine

/-- The node of an object with this link. -/
def Link.index? : Link → Option Nat
  | linked i => some i
  | fresh | detached => none

namespace Heap.Sound

variable {out : Ref → Nat} {h : Heap}

theorem empty (config : CollectConfig) : ({ chain := { config } } : Heap).Sound fun _ => 0 where
  accounts := fun r => by simp [strongOf, cell?, held]
  positive := fun r c hc => by simp [cell?] at hc
  older := fun r c hc => by simp [cell?] at hc
  handles := fun r c w hc => by simp [cell?] at hc
  collectable := fun r i c hc => by simp [cell?] at hc
  chained := ⟨[], .empty config, rfl, fun i r => by simp [node?, cell?]⟩

/-! ## Making -/

theorem allocate {b : Body} (hs : h.Sound fun s => out s + b.refs.count s) :
    (h.allocate b).2.Sound fun s => out s + [(h.allocate b).1].count s := by
  have hdead : h.cell? ⟨h.cells.size⟩ = none := cell?_of_size_le (Nat.le_refl _)
  have hne : ∀ {s : Ref} {c : Cell}, h.cell? s = some c → s ≠ ⟨h.cells.size⟩ := by
    rintro s c hc rfl
    rw [hdead] at hc
    cases hc
  constructor
  case accounts =>
    intro s
    have hacc := hs.accounts s
    rw [allocate_fst, single_count, held_allocate]
    by_cases hn : s = ⟨h.cells.size⟩
    · subst hn
      have hzero : h.strongOf ⟨h.cells.size⟩ = 0 := by simp [strongOf, hdead]
      have hone : (h.allocate b).2.strongOf ⟨h.cells.size⟩ = 1 := by simp [strongOf]
      rw [if_pos rfl]
      omega
    · have hsame : (h.allocate b).2.strongOf s = h.strongOf s := by simp [strongOf, hn]
      rw [if_neg hn]
      omega
  case positive =>
    intro s c hc
    rw [cell?_allocate] at hc
    split at hc
    · cases hc
      exact Nat.one_pos
    · exact hs.positive s c hc
  case older =>
    intro s c hc t ht
    rw [cell?_allocate] at hc
    split at hc
    · rename_i heq
      cases hc
      have hmem : t ∈ b.refs := List.mem_append_left _ ht
      obtain ⟨d, hd⟩ := hs.alive_of_out (r := t) (by
        have := List.count_pos_iff.2 hmem
        omega)
      have := cell?_lt hd
      rwa [heq]
    · exact hs.older s c hc t ht
  case handles =>
    intro s c w hc hw
    rw [cell?_allocate] at hc
    split at hc
    · cases hc
      cases hw
    · have hleaf := hs.handles s c w hc hw
      cases hb : h.body? w with
      | none => simp [hb] at hleaf
      | some d =>
        obtain ⟨e, he, -⟩ := cell?_of_body? hb
        rwa [body?, cell?_allocate, if_neg (hne he)]
  case collectable =>
    intro s i c hc hl
    rw [cell?_allocate] at hc
    split at hc
    · cases hc
      cases hl
    · exact hs.collectable s i c hc hl
  case chained =>
    obtain ⟨xs, hx⟩ := hs.chained
    refine ⟨xs, hx.lists, hx.live, fun i s => ?_⟩
    rw [hx.linked]
    by_cases hn : s = ⟨h.cells.size⟩
    · subst hn
      simp [node?, hdead]
    · simp [node?, hn]

/-! ## Entering and leaving the chain -/

theorem node?_relink {r : Ref} {c : Cell} {l : Link} {chain : Chain} (hc : h.cell? r = some c)
    (s : Ref) : (({ h with chain } : Heap).modifyCell r
      fun (c : Cell) => { c with link := l }).node? s =
        if s = r then l.index? else h.node? s := by
  have hr : ({ h with chain } : Heap).cell? r = some c := hc
  simp only [node?, cell?_modifyCell, hr]
  by_cases hs : s = r
  · subst hs
    cases l <;> simp [Link.index?]
  · simp only [if_neg hs]
    rfl

/-- An object gets another link, and the chain follows. -/
theorem relink {r : Ref} {c : Cell} {l : Link} {chain : Chain} {ys : List (Nat × Ref)}
    (hs : h.Sound out) (hc : h.cell? r = some c)
    (hleaf : ∀ i, l = .linked i → c.body.isLeaf = false) (hlists : chain.Lists ys)
    (hlive : chain.stats.live = ys.length)
    (hnode : ∀ i s, (i, s) ∈ ys ↔
      (if s = r then l.index? else h.node? s) = some i) :
    (({ h with chain } : Heap).modifyCell r fun (c : Cell) => { c with link := l }).Sound out := by
  have hcell : ∀ s, (({ h with chain } : Heap).modifyCell r
      fun (c : Cell) => { c with link := l }).cell? s =
        if s = r then some { c with link := l } else h.cell? s := by
    intro s
    have hr : ({ h with chain } : Heap).cell? r = some c := hc
    rw [cell?_modifyCell, hr]
    rfl
  have hsize := size_modifyCell ({ h with chain } : Heap) r fun (c : Cell) => { c with link := l }
  have hheld := held_change_cell hc hsize hcell
  constructor
  case accounts =>
    intro s
    have hacc := hs.accounts s
    have := hheld s
    have hrefs : ({ c with link := l } : Cell).refs = c.refs := rfl
    rw [hrefs] at this
    rw [strongOf_change hcell]
    by_cases hsr : s = r
    · subst hsr
      rw [strongOf_of_cell? hc] at hacc
      rw [if_pos rfl]
      show c.strong = _
      omega
    · rw [if_neg hsr]
      omega
  case positive =>
    intro s d hd
    rw [hcell] at hd
    split at hd
    · cases hd
      exact hs.positive r c hc
    · exact hs.positive s d hd
  case older =>
    intro s d hd
    rw [hcell] at hd
    split at hd
    · rename_i heq
      cases hd
      exact heq ▸ hs.older r c hc
    · exact hs.older s d hd
  case handles =>
    intro s d w hd hw
    rw [isLeaf_change hc hcell rfl]
    rw [hcell] at hd
    split at hd
    · cases hd
      exact hs.handles r c w hc hw
    · exact hs.handles s d w hd hw
  case collectable =>
    intro s i d hd hl
    rw [hcell] at hd
    split at hd
    · cases hd
      exact hleaf i hl
    · exact hs.collectable s i d hd hl
  case chained =>
    refine ⟨ys, hlists, hlive, fun i s => ?_⟩
    rw [node?_relink hc, hnode]

theorem node?_of_unlinked {r : Ref} {c : Cell} (hc : h.cell? r = some c)
    (hl : ∀ i, c.link ≠ .linked i) : h.node? r = none := by
  cases hn : h.node? r with
  | none => rfl
  | some i =>
    obtain ⟨d, hd, hld⟩ := node?_eq_some.1 hn
    rw [hc] at hd
    cases hd
    exact absurd hld (hl i)

theorem register_fresh {r : Ref} {c : Cell} (hs : h.Sound out) (hc : h.cell? r = some c)
    (hl : c.link = .fresh) (hleaf : c.body.isLeaf = false) :
    (h.register r).1 = true ∧ (h.register r).2.Sound out ∧
      (h.register r).2 = ({ h with chain := (h.chain.insert r).2 } : Heap).modifyCell r
        fun (c : Cell) => { c with link := .linked (h.chain.insert r).1 } := by
  have heq : h.register r = (true, ({ h with chain := (h.chain.insert r).2 } : Heap).modifyCell r
      fun (c : Cell) => { c with link := .linked (h.chain.insert r).1 }) := by
    simp [register, hc, hl]
  rw [heq]
  refine ⟨rfl, ?_, rfl⟩
  obtain ⟨xs, hx⟩ := hs.chained
  obtain ⟨hlists, -⟩ := hx.lists.insert r
  have hnone := node?_of_unlinked hc (fun i hi => by rw [hl] at hi; cases hi)
  refine hs.relink hc (fun _ _ => hleaf) hlists ?_ ?_
  · have hstats : (h.chain.insert r).2.stats.live = h.chain.stats.live + 1 := by
      simp only [Chain.insert]
      split <;> rfl
    rw [hstats, hx.live, List.length_cons]
  · intro i s
    simp only [List.mem_cons, Prod.mk.injEq]
    by_cases hsr : s = r
    · subst hsr
      simp [hx.linked, hnone, eq_comm, Link.index?]
    · simp [hsr, hx.linked]

theorem allocateLinked {b : Body} (hs : h.Sound fun s => out s + b.refs.count s)
    (hleaf : b.isLeaf = false) :
    (h.allocateLinked b).2.Sound fun s => out s + [(h.allocateLinked b).1].count s := by
  have hnew : (h.allocate b).2.cell? (h.allocate b).1 =
      some { strong := 1, link := .fresh, handle := none, body := b } := by simp
  exact (hs.allocate.register_fresh hnew rfl hleaf).2.1

/-- An object that is taken out of the chain lives on with all its references. -/
theorem unregister (hs : h.Sound out) (r : Ref) : (h.unregister r).2.Sound out := by
  unfold Heap.unregister
  cases hc : h.cell? r with
  | none => exact hs
  | some c =>
    cases hl : c.link with
    | fresh | detached => simpa [hl] using hs
    | linked i =>
      obtain ⟨xs, hx⟩ := hs.chained
      have hr : h.node? r = some i := node?_eq_some.2 ⟨c, hc, hl⟩
      obtain ⟨ys, zs, rfl⟩ := List.append_of_mem ((hx.linked i r).2 hr)
      obtain ⟨chain, hu, hlists, hstats, -, -⟩ := hx.lists.unlink
      simp only [hl, hu]
      refine hs.relink hc (fun _ hi => by cases hi)
        ⟨hlists.path, hlists.distinct, hlists.free_distinct, hlists.free_empty, hlists.covered⟩ ?_ ?_
      · show chain.stats.live - 1 = _
        rw [hstats, hx.live]
        simp only [List.length_append, List.length_cons]
        omega
      · intro j s
        rw [hx.mem_without]
        by_cases hsr : s = r <;> simp [hsr, Link.index?]

end Heap.Sound

end ScriptMachine
