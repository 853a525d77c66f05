import ScriptMachine.Proofs.Heap.Release

/-!
# Clearing

Clearing takes the loose references of an object and lets them go. It keeps the
accounts, and a set of objects that keeps itself alive is not touched by it.
-/

set_option autoImplicit false

namespace ScriptMachine

/-! ## Clearing -/

namespace Body

@[simp] theorem cleared_fixedRefs (b : Body) : b.cleared.fixedRefs = b.fixedRefs := by
  cases b <;> rfl

@[simp] theorem cleared_looseRefs (b : Body) : b.cleared.looseRefs = [] := by
  cases b <;> rfl

@[simp] theorem cleared_isLeaf (b : Body) : b.cleared.isLeaf = b.isLeaf := by
  cases b <;> rfl

theorem cleared_refs (b : Body) : b.cleared.refs = b.fixedRefs := by
  simp [refs]

end Body

namespace Heap

variable {out : Ref → Nat} {h h' : Heap}

/-- The second store has lost objects of the first, and some of those that are
left are cleared. -/
structure Clears (done : List Ref) (h h' : Heap) : Prop where
  size : h'.cells.size = h.cells.size
  cell : ∀ r c', h'.cell? r = some c' →
    ∃ c, h.cell? r = some c ∧ c'.link = c.link ∧ c'.handle = c.handle ∧
      c'.body = if r ∈ done then c.body.cleared else c.body

namespace Clears

variable {done : List Ref}

theorem trim (hc : Clears done h h') {h'' : Heap} (ht : Trims h' h'') : Clears done h h'' where
  size := ht.size.trans hc.size
  cell := by
    intro r c'' hr
    obtain ⟨c', hr', hb, hl, hh⟩ := ht.cell r c'' hr
    obtain ⟨c, hr0, hl0, hh0, hb0⟩ := hc.cell r c' hr'
    exact ⟨c, hr0, hl.trans hl0, hh.trans hh0, hb.trans hb0⟩

theorem clear (hc : Clears done h h') {r : Ref} {c : Cell} (hr : h'.cell? r = some c)
    (hn : r ∉ done) : Clears (done ++ [r]) h (h'.clear r) := by
  have hset : Clears (done ++ [r]) h (h'.setBody r c.body.cleared) := by
    constructor
    · rw [← hc.size]
      exact size_modifyCell ..
    · intro s c' hs
      simp only [setBody, cell?_modifyCell] at hs
      split at hs
      · rename_i heq
        subst heq
        obtain ⟨c0, hs0, hl, hh, hb⟩ := hc.cell s c hr
        rw [hr, Option.map_some, Option.some.injEq] at hs
        subst hs
        rw [if_neg hn] at hb
        exact ⟨c0, hs0, hl, hh, by simp [hb]⟩
      · rename_i hne
        obtain ⟨c0, hs0, hl, hh, hb⟩ := hc.cell s c' hs
        refine ⟨c0, hs0, hl, hh, ?_⟩
        rw [hb]
        simp [hne]
  rw [Heap.clear, body?_of_cell? hr]
  exact hset.trim (trims_releaseRefs _ _)

theorem node? (hc : Clears done h h') {r : Ref} {i : Nat} (hr : h'.node? r = some i) :
    h.node? r = some i := by
  obtain ⟨c', hc', hl⟩ := node?_eq_some.1 hr
  obtain ⟨c, hc0, hl0, -⟩ := hc.cell r c' hc'
  exact node?_eq_some.2 ⟨c, hc0, by rw [← hl0, hl]⟩

theorem node?_of_alive (hc : Clears done h h') {r : Ref} {c' : Cell} (hr : h'.cell? r = some c') :
    h'.node? r = h.node? r := by
  obtain ⟨c, hc0, hl, -⟩ := hc.cell r c' hr
  obtain ⟨strong, link, handle, body⟩ := c
  obtain ⟨strong', link', handle', body'⟩ := c'
  cases hl
  simp only [Heap.node?, hr, hc0]
  cases link <;> rfl

theorem refsOf_kept (hc : Clears done h h') {r : Ref} {c' : Cell} (hr : h'.cell? r = some c')
    (hn : r ∉ done) : h'.refsOf r = h.refsOf r := by
  obtain ⟨c, hc0, -, hh, hb⟩ := hc.cell r c' hr
  rw [if_neg hn] at hb
  rw [refsOf_of_cell? hr, refsOf_of_cell? hc0, Cell.refs, Cell.refs, hb, hh]

theorem refsOf_cleared (hc : Clears done h h') {r s : Ref} (hn : r ∈ done)
    (hs : s ∈ h'.refsOf r) :
    ∃ c, h.cell? r = some c ∧ (c.handle = some s ∨ s ∈ c.body.fixedRefs) := by
  cases hr : h'.cell? r with
  | none =>
    rw [refsOf_of_dead hr] at hs
    cases hs
  | some c' =>
    obtain ⟨c, hc0, -, hh, hb⟩ := hc.cell r c' hr
    rw [if_pos hn] at hb
    rw [refsOf_of_cell? hr, Cell.refs, hb, hh, Body.cleared_refs] at hs
    refine ⟨c, hc0, ?_⟩
    rcases List.mem_append.1 hs with hs | hs
    · exact .inl (Option.mem_toList.1 hs)
    · exact .inr hs

theorem refsOf_subset (hc : Clears done h h') {r s : Ref} (hs : s ∈ h'.refsOf r) :
    s ∈ h.refsOf r := by
  by_cases hn : r ∈ done
  · obtain ⟨c, hc0, hcase⟩ := hc.refsOf_cleared hn hs
    rw [refsOf_of_cell? hc0, Cell.refs]
    rcases hcase with hh | hf
    · exact List.mem_append_left _ (Option.mem_toList.2 hh)
    · exact List.mem_append_right _ (List.mem_append_left _ hf)
  · cases hr : h'.cell? r with
    | none =>
      rw [refsOf_of_dead hr] at hs
      cases hs
    | some c' => rwa [hc.refsOf_kept hr hn] at hs

end Clears

namespace Sound

theorem clear (hs : h.Sound out) (r : Ref) : (h.clear r).Sound out := by
  unfold Heap.clear
  cases hb : h.body? r with
  | none => exact hs
  | some b =>
    obtain ⟨c, hc, rfl⟩ := cell?_of_body? hb
    apply Sound.releaseRefs
    refine hs.setBody hc ?_ (by simp) ?_
    · simpa using hs.older r c hc
    · intro s
      rw [Body.cleared_refs, Body.refs, List.count_append]
      omega

theorem retainRefs {rs : List Ref} (hs : h.Sound out) (ha : ∀ r ∈ rs, ∃ c, h.cell? r = some c) :
    (h.retainRefs rs).Sound (fun s => out s + rs.count s) ∧ Clears [] h (h.retainRefs rs) ∧
      ∀ r c, h.cell? r = some c → ∃ c', (h.retainRefs rs).cell? r = some c' := by
  induction rs generalizing out h with
  | nil =>
    refine ⟨hs.congr fun s => by simp, ⟨rfl, fun r c hc => ⟨c, hc, rfl, rfl, by simp⟩⟩, ?_⟩
    exact fun r c hc => ⟨c, hc⟩
  | cons r rs ih =>
    obtain ⟨c, hc⟩ := ha r List.mem_cons_self
    have hstep : ∀ s d, h.cell? s = some d → ∃ d', (h.retainRef r).cell? s = some d' := by
      intro s d hd
      simp only [Heap.retainRef, cell?_modifyCell]
      split
      · exact ⟨_, by rw [hc]; rfl⟩
      · exact ⟨d, hd⟩
    obtain ⟨h1, h2, h3⟩ := ih (hs.retainRef hc) (fun s hm => by
      obtain ⟨d, hd⟩ := ha s (List.mem_cons_of_mem _ hm)
      exact hstep s d hd)
    refine ⟨h1.congr fun s => by rw [List.count_cons, List.count_cons, List.count_nil]; omega, ?_, ?_⟩
    · constructor
      · exact h2.size.trans (size_modifyCell ..)
      · intro s d' hd'
        obtain ⟨d, hd, hl, hh, hb⟩ := h2.cell s d' hd'
        simp only [Heap.retainRef, cell?_modifyCell] at hd
        split at hd
        · rename_i heq
          rw [hc, Option.map_some, Option.some.injEq] at hd
          subst hd
          exact ⟨c, heq ▸ hc, hl, hh, by simpa using hb⟩
        · exact ⟨d, hd, hl, hh, by simpa using hb⟩
    · intro s d hd
      obtain ⟨d', hd'⟩ := hstep s d hd
      exact h3 s d' hd'

end Sound

/-! ## What keeps a set of objects alive -/

/-- Every object of the set lives, and someone outside or in the set refers to
it. -/
def Rooted (K : Ref → Prop) (out : Ref → Nat) (h : Heap) : Prop :=
  ∀ z, K z → (∃ c, h.cell? z = some c) ∧ (0 < out z ∨ ∃ p, K p ∧ z ∈ h.refsOf p)

namespace Rooted

variable {K : Ref → Prop}

theorem congr (hk : Rooted K out h)
    (hcell : ∀ z, K z → ∀ c, h.cell? z = some c → ∃ c', h'.cell? z = some c' ∧ c'.refs = c.refs) :
    Rooted K out h' := by
  have hrefs : ∀ p, K p → h'.refsOf p = h.refsOf p := by
    intro p hp
    obtain ⟨⟨c, hc⟩, -⟩ := hk p hp
    obtain ⟨c', hc', hr⟩ := hcell p hp c hc
    rw [refsOf_of_cell? hc', refsOf_of_cell? hc, hr]
  intro z hz
  obtain ⟨⟨c, hc⟩, hcase⟩ := hk z hz
  obtain ⟨c', hc', -⟩ := hcell z hz c hc
  refine ⟨⟨c', hc'⟩, hcase.imp id ?_⟩
  rintro ⟨p, hp, hm⟩
  exact ⟨p, hp, by rwa [hrefs p hp]⟩

/-- The last reference to an object is none that the set needs. -/
theorem not_last {work : List Ref} (hk : Rooted K out h)
    (hs : h.Sound fun s => out s + work.count s) {r : Ref} {c : Cell} (hr : r ∈ work)
    (hc : h.cell? r = some c) (hle : c.strong ≤ 1) : ¬ K r := by
  intro hkr
  have hacc := hs.accounts r
  rw [strongOf_of_cell? hc] at hacc
  have hw : 0 < work.count r := List.count_pos_iff.2 hr
  rcases (hk r hkr).2 with ho | ⟨p, -, hp⟩
  · omega
  · have := held_pos hp
    omega

theorem releaseRefs {work : List Ref} (hk : Rooted K out h)
    (hs : h.Sound fun s => out s + work.count s) : Rooted K out (h.releaseRefs work) := by
  induction h, work using releaseRefs.induct with
  | case1 h => rwa [releaseRefs_nil]
  | case2 h r rest hc ih =>
    have hr := hs.accounts r
    simp only [strongOf, hc, List.count_cons_self] at hr
    omega
  | case3 h r rest c hc hle ih =>
    rw [releaseRefs_last rest hc hle]
    have hnot := hk.not_last hs List.mem_cons_self hc hle
    have hs' : h.Sound (fun s => (out s + rest.count s) + [r].count s) :=
      hs.congr fun s => by rw [List.count_cons, List.count_cons, List.count_nil]; omega
    refine ih (hk.congr fun z hz d hd => ⟨d, ?_, rfl⟩)
      ((hs'.remove hc hle).congr fun s => by rw [List.count_append]; omega)
    rw [cell?_remove, if_neg (by rintro rfl; exact hnot hz), hd]
  | case4 h r rest c hc hgt ih =>
    rw [releaseRefs_shared rest hc hgt]
    have hs' : h.Sound (fun s => (out s + rest.count s) + [r].count s) :=
      hs.congr fun s => by rw [List.count_cons, List.count_cons, List.count_nil]; omega
    refine ih (hk.congr fun z hz d hd => ?_) (hs'.lend hc hgt)
    rw [cell?_setCell (cell?_lt hc)]
    by_cases hzr : z = r
    · subst hzr
      rw [hc] at hd
      cases hd
      exact ⟨_, if_pos rfl, rfl⟩
    · exact ⟨d, by rw [if_neg hzr, hd], rfl⟩

theorem clear {r : Ref} (hk : Rooted K out h) {out' : Ref → Nat}
    (hs : h.Sound fun s => out s + out' s) (hr : ¬ K r) : Rooted K out (h.clear r) := by
  unfold Heap.clear
  cases hb : h.body? r with
  | none => exact hk
  | some b =>
    obtain ⟨c, hc, rfl⟩ := cell?_of_body? hb
    have hset : Rooted K out (h.setBody r c.body.cleared) := by
      refine hk.congr fun z hz d hd => ⟨d, ?_, rfl⟩
      simp only [setBody, cell?_modifyCell]
      rw [if_neg (by rintro rfl; exact hr hz), hd]
    have hs' : (h.setBody r c.body.cleared).Sound
        (fun s => (out s + out' s) + c.body.looseRefs.count s) := by
      refine hs.setBody hc (by simpa using hs.older r c hc) (by simp) ?_
      intro s
      rw [Body.cleared_refs, Body.refs, List.count_append]
      omega
    -- the references of the work list are counted apart from the rest
    have hsub : Rooted K (fun s => out s + out' s) (h.setBody r c.body.cleared) := by
      intro z hz
      obtain ⟨ha, hcase⟩ := hset z hz
      exact ⟨ha, hcase.imp (fun (ho : 0 < out z) => by show 0 < out z + out' z; omega) id⟩
    have hdone := hsub.releaseRefs hs'
    intro z hz
    refine ⟨(hdone z hz).1, ?_⟩
    rcases (hset z hz).2 with ho | ⟨p, hp, hm⟩
    · exact .inl ho
    · obtain ⟨c', hc'⟩ := (hdone p hp).1
      exact .inr ⟨p, hp, by rwa [(trims_releaseRefs _ _).refsOf hc']⟩

end Rooted

end Heap

end ScriptMachine
