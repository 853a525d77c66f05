import ScriptMachine.Proofs.Heap.Backing

/-!
# New objects, weak references and collections

Who makes an object owns it; what its body holds is taken over. A collection
takes nothing from those who own something outside.
-/

set_option autoImplicit false

namespace ScriptMachine.Heap

variable {l : Law} {own : Multiset Value} {h h' : Heap}

/-! ## New objects -/

/-- The second heap has one object more, and the others are as they were. -/
structure Grows (b : Body) (h h' : Heap) : Prop where
  size : h'.cells.size = h.cells.size + 1
  new : ∀ c', h'.cell? ⟨h.cells.size⟩ = some c' → c'.body = b ∧ c'.handle = none
  old : ∀ r c', r ≠ ⟨h.cells.size⟩ → h'.cell? r = some c' →
    ∃ c, h.cell? r = some c ∧ c'.body = c.body ∧ c'.handle = c.handle

theorem grows_allocate (h : Heap) (b : Body) : Grows b h (h.allocate b).2 where
  size := size_allocate h b
  new := by
    intro c' hc
    rw [cell?_allocate, if_pos rfl, Option.some.injEq] at hc
    subst hc
    exact ⟨rfl, rfl⟩
  old := by
    intro r c' hr hc
    rw [cell?_allocate, if_neg hr] at hc
    exact ⟨c', hc, rfl, rfl⟩

theorem cell?_register (h : Heap) (r s : Ref) {c' : Cell} (hc : (h.register r).2.cell? s = some c') :
    ∃ c, h.cell? s = some c ∧ c'.body = c.body ∧ c'.handle = c.handle := by
  unfold register at hc
  cases hr : h.cell? r with
  | none => exact ⟨c', by simpa [hr] using hc, rfl, rfl⟩
  | some c =>
    cases hl : c.link with
    | linked | detached =>
      simp only [hr, hl] at hc
      exact ⟨c', hc, rfl, rfl⟩
    | fresh =>
      simp only [hr, hl, cell?_modifyCell] at hc
      split at hc
      · rename_i heq
        subst heq
        cases hs : ({ h with chain := (h.chain.insert s).2 } : Heap).cell? s with
        | none => simp [hs] at hc
        | some d =>
          simp only [hs, Option.map_some, Option.some.injEq] at hc
          subst hc
          exact ⟨d, hs, rfl, rfl⟩
      · exact ⟨c', hc, rfl, rfl⟩

theorem size_register (h : Heap) (r : Ref) : (h.register r).2.cells.size = h.cells.size := by
  unfold register
  cases hr : h.cell? r with
  | none => rfl
  | some c =>
    obtain ⟨strong, link, handle, body⟩ := c
    cases link <;> simp

theorem grows_allocateLinked (h : Heap) (b : Body) : Grows b h (h.allocateLinked b).2 := by
  have hg := grows_allocate h b
  refine ⟨(size_register _ _).trans hg.size, fun c' hc => ?_, fun r c' hr hc => ?_⟩
  · obtain ⟨c, hc0, hbody, hh⟩ := cell?_register _ _ _ hc
    obtain ⟨h1, h2⟩ := hg.new c hc0
    exact ⟨hbody.trans h1, hh.trans h2⟩
  · obtain ⟨c, hc0, hbody, hh⟩ := cell?_register _ _ _ hc
    obtain ⟨d, hd, h1, h2⟩ := hg.old r c hr hc0
    exact ⟨d, hd, hbody.trans h1, hh.trans h2⟩

namespace Grows

variable {b : Body}

theorem body?_old (hg : Grows b h h') {r : Ref} {d : Body} (hr : r ≠ ⟨h.cells.size⟩)
    (hd : h'.body? r = some d) : h.body? r = some d := by
  obtain ⟨c', hc', rfl⟩ := cell?_of_body? hd
  obtain ⟨c, hc, hb, -⟩ := hg.old r c' hr hc'
  rw [hb]
  exact body?_of_cell? hc

theorem body?_new (hg : Grows b h h') {d : Body} (hd : h'.body? ⟨h.cells.size⟩ = some d) : d = b := by
  obtain ⟨c', hc', rfl⟩ := cell?_of_body? hd
  exact (hg.new c' hc').1

theorem fits (hg : Grows b h h') {v : Value} (hv : h.Fits v) : h'.Fits v := by
  intro r hr
  obtain ⟨hlt, hk⟩ := hv r hr
  refine ⟨by rw [hg.size]; omega, fun d hd => hk d (hg.body?_old ?_ hd)⟩
  rintro rfl
  exact Nat.lt_irrefl _ hlt

theorem fits_new (hg : Grows b h h') {v : Value} (hv : v.ref? = some ⟨h.cells.size⟩)
    (hk : v.kind = b.kind) : h'.Fits v := by
  intro r hr
  rw [hv, Option.some.injEq] at hr
  subst hr
  exact ⟨by rw [hg.size]; exact Nat.lt_succ_self _, fun d hd => by rw [hg.body?_new hd, hk]⟩

theorem evolves (hg : Grows b h h') (hn : ∀ i, b ≠ .outer (.opened i)) : Evolves h h' where
  size := by rw [hg.size]; omega
  old := by
    intro r d hr hd
    refine ⟨d, hg.body?_old ?_ hd, .same d⟩
    rintro rfl
    exact Nat.lt_irrefl _ hr
  fresh := by
    intro r i hr ho
    by_cases hnew : r = ⟨h.cells.size⟩
    · subst hnew
      cases hd : h'.body? ⟨h.cells.size⟩ with
      | none => simp [outerState?, hd] at ho
      | some d =>
        have hdb := hg.body?_new hd
        subst hdb
        cases d with
        | outer s =>
          simp only [outerState?, hd, Option.some.injEq] at ho
          subst ho
          exact hn i rfl
        | content | weak | array | dict | closure | native | classObject | instanceObject =>
          simp [outerState?, hd] at ho
    · have hdead : h'.body? r = none := by
        have hid : r.id ≠ h.cells.size := fun heq => hnew (ref_ext heq)
        simp [body?, cell?_of_size_le (show h'.cells.size ≤ r.id by rw [hg.size]; omega)]
      simp [outerState?, hdead] at ho

theorem backs (hg : Grows b h h') (hb : h.Backs l (b.values + own)) {out : Ref → Nat}
    (hs : h'.Sound out) {v : Value} (hout : ∀ r, refCount (v ::ₘ own) r ≤ out r)
    (hv : v.ref? = some ⟨h.cells.size⟩) (hk : v.kind = b.kind)
    (hm : ∀ w ∈ b.mentions, h.Fits w) (hl : l.Admits b) : h'.Backs l (v ::ₘ own) := by
  refine hb.renew (fun _ => hg.fits) hs hout ?_ ?_ ?_
  · intro w hw
    rcases Multiset.mem_cons.1 hw with rfl | hw
    · exact hg.fits_new hv hk
    · exact hg.fits (hb.fits w (Multiset.mem_add.2 (.inr hw)))
  · intro r d hd
    by_cases hnew : r = ⟨h.cells.size⟩
    · subst hnew
      have hdb := hg.body?_new hd
      subst hdb
      exact .inr ⟨fun w hw => hg.fits (hm w hw), hl⟩
    · exact .inl (hg.body?_old hnew hd)
  · intro r c' w hc' hw
    by_cases hnew : r = ⟨h.cells.size⟩
    · subst hnew
      rw [(hg.new c' hc').2] at hw
      cases hw
    · obtain ⟨c, hc, -, hh⟩ := hg.old r c' hnew hc'
      exact .inl ⟨c, hc, hh ▸ hw⟩

end Grows

namespace Backs

theorem empty (l : Law) (config : CollectConfig) : ({ chain := { config } } : Heap).Backs l 0 where
  sound := ⟨_, .empty config, fun _ => Nat.le_refl _⟩
  fits := fun v hv => absurd hv (Multiset.notMem_zero v)
  bodies := fun r b hb => by cases hb
  handles := fun r c w hc => by cases hc

/-- The counts once the body of a new object has taken what is to be its own. -/
theorem spare {b : Body} (hb : h.Backs l (b.values + own)) :
    ∃ out : Ref → Nat, h.Sound (fun r => out r + b.refs.count r) ∧ ∀ r, refCount own r ≤ out r := by
  obtain ⟨out, hs, ho⟩ := hb.sound
  have hle : ∀ r, b.refs.count r + refCount own r ≤ out r := by
    intro r
    have := ho r
    rwa [refCount_add, Body.refCount_values] at this
  refine ⟨fun r => out r - b.refs.count r, hs.congr fun r => ?_, fun r => ?_⟩
  · have := hle r
    show out r - b.refs.count r + b.refs.count r = out r
    omega
  · have := hle r
    show refCount own r ≤ out r - b.refs.count r
    omega

theorem mentions_fit {b : Body} (hb : h.Backs l (b.values + own)) (hk : b.kind ≠ .weak) :
    ∀ v ∈ b.mentions, h.Fits v := by
  intro v hv
  rw [Body.mentions_eq hk] at hv
  exact hb.fits v (Multiset.mem_add.2 (.inl (Multiset.mem_coe.2 hv)))

theorem allocate {b : Body} {v : Value} (hb : h.Backs l (b.values + own))
    (hm : ∀ w ∈ b.mentions, h.Fits w) (hl : l.Admits b) (hv : v.ref? = some (h.allocate b).1)
    (hk : v.kind = b.kind) (hn : ∀ i, b ≠ .outer (.opened i)) :
    Moves l (v ::ₘ own) h (h.allocate b).2 := by
  obtain ⟨out, hs, ho⟩ := hb.spare
  have hg := grows_allocate h b
  refine ⟨hg.backs hb hs.allocate (fun r => ?_) hv hk hm hl, hg.evolves hn⟩
  rw [refCount_cons, refCount_some hv]
  have := ho r
  omega

theorem allocateLinked_backs {b : Body} {v : Value} (hb : h.Backs l (b.values + own))
    (hleaf : b.isLeaf = false) (hl : l.Admits b) (hv : v.ref? = some (h.allocateLinked b).1)
    (hk : v.kind = b.kind) : (h.allocateLinked b).2.Backs l (v ::ₘ own) := by
  obtain ⟨out, hs, ho⟩ := hb.spare
  have hweak : b.kind ≠ .weak := by
    cases b <;> first | cases hleaf; done | exact Kind.noConfusion
  refine (grows_allocateLinked h b).backs hb (hs.allocateLinked hleaf) (fun r => ?_) hv hk
    (hb.mentions_fit hweak) hl
  rw [refCount_cons, refCount_some hv]
  have := ho r
  omega

theorem allocateLinked {b : Body} {v : Value} (hb : h.Backs l (b.values + own))
    (hleaf : b.isLeaf = false) (hl : l.Admits b) (hv : v.ref? = some (h.allocateLinked b).1)
    (hk : v.kind = b.kind) (hn : ∀ i, b ≠ .outer (.opened i)) :
    Moves l (v ::ₘ own) h (h.allocateLinked b).2 :=
  ⟨hb.allocateLinked_backs hleaf hl hv hk, (grows_allocateLinked h b).evolves hn⟩

theorem allocateText (hb : h.Backs l own) (chars : String) :
    Moves l (.string (h.allocateText chars).1 ::ₘ own) h (h.allocateText chars).2 := by
  have hb' : h.Backs l ((Body.content.values : Multiset Value) + own) := hb.mono (by simp [Body.values])
  exact hb'.allocate (fun w hw => by cases hw) trivial rfl rfl (fun i hi => by cases hi)

theorem newString (hb : h.Backs l own) (chars : String) :
    Moves l ((h.newString chars).1 ::ₘ own) h (h.newString chars).2 :=
  hb.allocateText chars

/-! ## Weak references -/

/-- An object keeps the weak reference that was made for it. -/
theorem setHandle {r w : Ref} {c : Cell} (hb : h.Backs l (.weak w ::ₘ own)) (hc : h.cell? r = some c)
    (hnone : c.handle = none) (hleaf : (h.body? w).map Body.isLeaf = some true) :
    Moves l own h (h.modifyCell r fun (c : Cell) => { c with handle := some w }) := by
  obtain ⟨out, hs, ho⟩ := hb.sound
  have hcount : ∀ s, [w].count s + refCount own s ≤ out s := by
    intro s
    have := ho s
    rwa [refCount_cons, refCount_some rfl] at this
  have hcell : ∀ s, (h.modifyCell r fun (c : Cell) => { c with handle := some w }).cell? s =
      if s = r then some { c with handle := some w } else h.cell? s := by
    intro s
    simp [hc]
  have hbody : ∀ s, (h.modifyCell r fun (c : Cell) => { c with handle := some w }).body? s =
      h.body? s := by
    intro s
    simp only [body?, hcell]
    split
    · rename_i heq
      simp [heq, hc]
    · rfl
  have he := Evolves.of_bodies (size_modifyCell ..) hbody
  have hs' : (h.modifyCell r fun (c : Cell) => { c with handle := some w }).Sound
      fun s => out s - [w].count s := by
    refine hs.update _ hc (size_modifyCell ..) rfl hcell rfl (hs.positive r c hc)
      (hs.older r c hc) (by rintro _ ⟨⟩; exact hleaf) rfl fun s => ?_
    have := hcount s
    simp only [Cell.refs, hnone, Option.toList, List.count_append, List.count_nil]
    omega
  refine ⟨hb.renew (fun _ => he.fits) hs' (fun s => by have := hcount s; omega)
    (fun v hv => he.fits (hb.fits v (Multiset.mem_cons_of_mem hv)))
    (fun s b hsb => .inl (by rwa [hbody] at hsb)) ?_, he⟩
  intro s c' u hc' hu
  rw [hcell] at hc'
  split at hc'
  · cases hc'
    cases hu
    exact .inr (he.fits (hb.fits _ (Multiset.mem_cons_self _ _)))
  · exact .inl ⟨c', hc', hu⟩

theorem weaken {v : Value} (hb : h.Backs l own) (hv : h.Has v) :
    Moves l ((h.weaken v).1 ::ₘ own) h (h.weaken v).2 := by
  unfold Heap.weaken
  cases hr : v.ref? with
  | none => exact (hb.own_plain hr).stay
  | some r =>
    by_cases hh : hasHandle v
    · obtain ⟨b, hbr, -⟩ := hv r hr
      obtain ⟨c, hc, rfl⟩ := cell?_of_body? hbr
      simp only [hh, if_true, hc]
      obtain ⟨out, hs, ho⟩ := hb.sound
      cases hw : c.handle with
      | some w =>
        have hhas : h.Has (.weak w) := by
          rintro _ ⟨⟩
          have hm : w ∈ h.refsOf r := by simp [refsOf_of_cell? hc, Cell.refs, hw]
          obtain ⟨d, hd⟩ := hs.alive_of_held hm
          exact ⟨d.body, body?_of_cell? hd, (hb.handles r c w hc hw w rfl).2 _ (body?_of_cell? hd)⟩
        exact hb.retainRef hhas rfl
      | none =>
        have hb' : h.Backs l (((Body.weak v).values : Multiset Value) + own) :=
          hb.mono (by simp [Body.values])
        have hm := hb'.allocate (v := .weak ⟨h.cells.size⟩) (fun w hw => ?_) trivial rfl rfl
          (fun i hi => by cases hi)
        · have hne : r ≠ ⟨h.cells.size⟩ := by
            rintro rfl
            exact Nat.lt_irrefl _ (cell?_lt hc)
          have hc1 : (h.allocate (.weak v)).2.cell? r = some c := by
            rw [cell?_allocate, if_neg hne, hc]
          have hset := hm.backs.setHandle hc1 hw (by simp [body?, Body.isLeaf])
          refine hm.trans (hset.trans (hset.backs.retainRef (v := .weak ⟨h.cells.size⟩) ?_ rfl))
          rintro _ ⟨⟩
          exact ⟨.weak v, by simp [body?, Ne.symm hne], rfl⟩
        · rw [show w = v by simpa [Body.mentions] using hw]
          exact hv.fits
    · simp only [hh]
      exact hb.retainRef hv hr

/-! ## Collections -/

theorem collect (hb : h.Backs l own) : Moves l own h h.collect.2 := by
  obtain ⟨out, hs, ho⟩ := hb.sound
  obtain ⟨gs, -, hg, -, hs', hc, -⟩ := hs.collect (K := fun _ => False) (fun _ hf => hf.elim)
    (fun _ _ hf => hf)
  have hbody : ∀ r b, h.collect.2.body? r = some b → h.body? r = some b := by
    intro r b hr
    obtain ⟨c', hc', rfl⟩ := cell?_of_body? hr
    have hn : r ∉ gs := by
      intro hm
      have := hs.garbage_dead hs' hg hc h.cells.size r ((hg r).1 hm) (by omega)
      rw [this] at hc'
      cases hc'
    rw [← hc.body?_kept hc' hn]
    exact hr
  have he : Evolves h h.collect.2 := by
    refine ⟨Nat.le_of_eq hc.size.symm, fun r b _ hr => ⟨b, hbody r b hr, .same b⟩, fun r i hr => ?_⟩
    have hd : h.collect.2.body? r = none := by
      simp [body?, cell?_of_size_le (show h.collect.2.cells.size ≤ r.id by rw [hc.size]; exact hr)]
    simp [outerState?, hd]
  refine ⟨hb.renew (fun _ => he.fits) hs' ho (fun v hv => he.fits (hb.fits v hv))
    (fun r b hr => .inl (hbody r b hr)) (fun r c' w hc' hw => .inl ?_), he⟩
  obtain ⟨c, hc0, -, hh, -⟩ := hc.cell r c' hc'
  exact ⟨c, hc0, hh ▸ hw⟩

theorem maybeCollect (hb : h.Backs l own) : Moves l own h h.maybeCollect := by
  unfold Heap.maybeCollect
  split
  · exact hb.collect
  · exact hb.stay

end Backs

end ScriptMachine.Heap
