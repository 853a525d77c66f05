import ScriptMachine.Proofs.Heap.Mirroring

/-!
# Operations on two heaps at once

What an operation on an object answers and leaves is the same for two heaps that mirror
each other, when the object lives in both. Walks into what the object holds, to compare
or to copy it, meet only what lives in both.
-/

set_option autoImplicit false

namespace ScriptMachine.Heap

variable {P : NativeObject → Prop} {l : Law} {h h' k k' : Heap}

namespace Abreast

variable {r : Ref} {v : Value} {name : String}

/-! ## Containers -/

theorem setItem (ha : Abreast P l h h') (hr : Shared h h' (.array r)) (i : Int64) (v : Value) :
    Mirrored P (fun h => h.setItem r i v) h h' := by
  simp only [Mirrored, Heap.setItem, ha.itemAt_eq hr]
  cases h.itemAt r i with
  | ok old => exact ⟨rfl, (ha.modifyItems r _).release old old⟩
  | error e => exact ⟨rfl, ha.release v v⟩

theorem removeItem (ha : Abreast P l h h') (hr : Shared h h' (.array r)) (i : Int64) :
    Mirrored P (fun h => h.removeItem r i) h h' := by
  simp only [Mirrored, Heap.removeItem, ha.itemAt_eq hr]
  cases h.itemAt r i with
  | ok v => exact ⟨rfl, ha.modifyItems r _⟩
  | error e => exact ⟨rfl, ha.toMirrors⟩

theorem dictSet (ha : Abreast P l h h') (hr : Shared h h' (.dict r)) (key : String) (v : Value) :
    Mirrored P (fun h => h.dictSet r key v) h h' := by
  simp only [Mirrored, Heap.dictSet, ha.entries_eq hr]
  split
  · exact ⟨rfl, (ha.setBody r (by trivial)).release _ _⟩
  · exact ⟨rfl, ha.release v v⟩

theorem dictRemove (ha : Abreast P l h h') (hr : Shared h h' (.dict r)) (key : String) :
    Mirrored P (fun h => h.dictRemove r key) h h' := by
  simp only [Mirrored, Heap.dictRemove, ha.entries_eq hr]
  split
  · exact ⟨rfl, (ha.setBody r (by trivial)).releaseRef _ _⟩
  · exact ⟨rfl, ha.toMirrors⟩

theorem setClosed (ha : Abreast P l h h') (hr : Shared h h' (.outer r)) (v : Value) :
    Mirrored P (fun h => h.setClosed r v) h h' := by
  simp only [Mirrored, Heap.setClosed, ha.outerState?_eq hr]
  split
  · exact ⟨rfl, ha.closeOuter r v⟩
  · exact ⟨rfl, ha.release v v⟩

end Abreast

/-- A key enters a dict that lives in both. -/
theorem Mirrors.dictInsert (hm : Mirrors P h h') {r : Ref} {es : Entries}
    (hr : h.body? r = some (.dict es)) (hr' : h'.body? r = some (.dict es)) (key : Text) (v : Value) :
    Mirrors P (h.dictInsert r key v) (h'.dictInsert r key v) := by
  have hset := hm.setBody r (b := .dict (es.insert key v)) trivial
  simp only [Heap.dictInsert, Backs.entries_eq hr, Backs.entries_eq hr']
  cases es.find? key.chars with
  | none => exact hset
  | some old => exact (hset.releaseRef _ _).release _ _

theorem Abreast.dictInsert (ha : Abreast P l h h') {r : Ref} (hr : Shared h h' (.dict r))
    (key : Text) (v : Value) : Mirrors P (h.dictInsert r key v) (h'.dictInsert r key v) := by
  obtain ⟨es, hes⟩ := hr.1.dict
  exact ha.toMirrors.dictInsert hes ((ha.body?_eq hr rfl).trans hes) key v

/-! ## Equality -/

theorem all_congr_mem {α : Type} {xs : List α} {p q : α → Bool} (h : ∀ a ∈ xs, p a = q a) :
    xs.all p = xs.all q := by
  rw [Bool.eq_iff_iff, List.all_eq_true, List.all_eq_true]
  exact forall₂_congr fun a ha => by rw [h a ha]

theorem Abreast.deepEqualWithin_eq (ha : Abreast P l h h') (fuel : Nat) (visiting : List (Ref × Ref))
    {a b : Value} (hva : Shared h h' a) (hvb : Shared h h' b) :
    h'.deepEqualWithin fuel visiting a b = h.deepEqualWithin fuel visiting a b := by
  induction fuel generalizing visiting a b with
  | zero => cases a <;> cases b <;> rfl
  | succ fuel ih =>
    cases a with
    | array x =>
      cases b with
      | array y =>
        obtain ⟨xs, hx⟩ := hva.1.array
        obtain ⟨ys, hy⟩ := hvb.1.array
        have hpair : ∀ p ∈ xs.toList.zip ys.toList, ∀ vs,
            h'.deepEqualWithin fuel vs p.1 p.2 = h.deepEqualWithin fuel vs p.1 p.2 :=
          fun p hp vs => ih vs (ha.within hva rfl hx (List.of_mem_zip hp).1)
            (ha.within hvb rfl hy (List.of_mem_zip hp).2)
        simp only [deepEqualWithin, ha.items_eq hva, ha.items_eq hvb]
        simp only [items, hx, hy]
        split
        · rfl
        · congr 1
          exact all_congr_mem fun p hp => hpair p hp _
      | _ => rfl
    | dict x =>
      cases b with
      | dict y =>
        obtain ⟨es, hx⟩ := hva.1.dict
        obtain ⟨fs, hy⟩ := hvb.1.dict
        have hpair : ∀ p ∈ es.list.zip fs.list, ∀ vs,
            h'.deepEqualWithin fuel vs p.1.2 p.2.2 = h.deepEqualWithin fuel vs p.1.2 p.2.2 := by
          intro p hp vs
          refine ih vs (ha.within hva rfl hx ?_) (ha.within hvb rfl hy ?_)
          · exact List.mem_flatMap.2 ⟨p.1, (List.of_mem_zip hp).1, by simp⟩
          · exact List.mem_flatMap.2 ⟨p.2, (List.of_mem_zip hp).2, by simp⟩
        simp only [deepEqualWithin, ha.entries_eq hva, ha.entries_eq hvb]
        simp only [entries, hx, hy]
        split
        · rfl
        · congr 1
          exact all_congr_mem fun p hp => by rw [hpair p hp]
      | _ => rfl
    | _ => cases b <;> rfl

theorem Abreast.deepEqual_eq (ha : Abreast P l h h') {a b : Value} (hva : Shared h h' a)
    (hvb : Shared h h' b) : h'.deepEqual a b = h.deepEqual a b := by
  rw [deepEqual, deepEqual, ha.size]
  exact ha.deepEqualWithin_eq _ _ hva hvb

/-! ## Copying -/

/-- A copier does the same with every value that lives in both heaps. -/
def Copier.Steady (P : NativeObject → Prop) (l : Law) (copy : Copier) : Prop :=
  ∀ v copies h h', Abreast P l h h' → Shared h h' v → CopiesLive copies h → CopiesLive copies h' →
    (copy v copies h').1 = (copy v copies h).1 ∧ (copy v copies h').2.1 = (copy v copies h).2.1 ∧
      Mirrors P (copy v copies h).2.2 (copy v copies h').2.2

theorem copyItems_steady {copy : Copier} (hcopy : copy.Good l) (hsteady : copy.Steady P l)
    (into : Ref) (vs : List Value) (copies : Copies) {xs : Array Value} (ha : Abreast P l h h')
    (hv : ∀ v ∈ vs, Shared h h' v) (hc : CopiesLive copies h) (hc' : CopiesLive copies h')
    (hi : h.body? into = some (.array xs)) (hi' : h'.body? into = some (.array xs)) :
    (copyItems copy into vs copies h').1 = (copyItems copy into vs copies h).1 ∧
      Mirrors P (copyItems copy into vs copies h).2 (copyItems copy into vs copies h').2 := by
  induction vs generalizing h h' copies xs with
  | nil => exact ⟨rfl, ha.toMirrors⟩
  | cons v vs ih =>
    have hv0 := hv v List.mem_cons_self
    obtain ⟨⟨_, hl⟩, ⟨_, hl'⟩⟩ := And.intro ha.left ha.right
    obtain ⟨heq, hcopies, hm⟩ := hsteady v copies h h' ha hv0 hc hc'
    obtain ⟨hf, hbody⟩ := hcopy.pushed hl hv0.1 hc hi
    obtain ⟨hf', hbody'⟩ := hcopy.pushed hl' hv0.2 hc' hi'
    simp only [copyItems]
    rw [heq] at hf' hbody' ⊢
    rw [hcopies] at hf' ⊢
    exact ih _ ⟨hm.pushItem _ _, ⟨_, hf.moves.backs⟩, ⟨_, hf'.moves.backs⟩⟩
      (fun w hw => ⟨hf.has w (hv w (List.mem_cons_of_mem _ hw)).1,
        hf'.has w (hv w (List.mem_cons_of_mem _ hw)).2⟩) hf.live hf'.live hbody hbody'

theorem copyEntries_steady {copy : Copier} (hcopy : copy.Good l) (hsteady : copy.Steady P l)
    (into : Ref) (rest : List Entry) (copies : Copies) {es : Entries} (ha : Abreast P l h h')
    (hv : ∀ v ∈ Entry.values rest, Shared h h' v) (hc : CopiesLive copies h)
    (hc' : CopiesLive copies h') (hi : h.body? into = some (.dict es))
    (hi' : h'.body? into = some (.dict es)) (hasc : Ascending rest)
    (hlt : ∀ e ∈ es.list, ∀ f ∈ rest, e.1.chars < f.1.chars) :
    (copyEntries copy into rest copies h').1 = (copyEntries copy into rest copies h).1 ∧
      Mirrors P (copyEntries copy into rest copies h).2 (copyEntries copy into rest copies h').2 := by
  induction rest generalizing h h' copies es with
  | nil => exact ⟨rfl, ha.toMirrors⟩
  | cons e rest ih =>
    obtain ⟨k, v⟩ := e
    obtain ⟨hk, hrest⟩ := List.pairwise_cons.1 hasc
    have hkey : Shared h h' (.string k) := hv _ (by simp)
    have hval : Shared h h' v := hv v (by simp)
    have habove : ∀ e ∈ es.list, e.1.chars < k.chars :=
      fun e he => hlt e he (k, v) List.mem_cons_self
    obtain ⟨⟨own, hl⟩, ⟨own', hl'⟩⟩ := And.intro ha.left ha.right
    obtain ⟨heq, hcopies, hm⟩ := hsteady v copies h h' ha hval hc hc'
    obtain ⟨hf, hbody⟩ := hcopy.inserted hl hkey.1 hval.1 hc hi habove
    obtain ⟨hf', hbody'⟩ := hcopy.inserted hl' hkey.2 hval.2 hc' hi' habove
    have hs := (hcopy v copies h own hl hval.1 hc).2.1
    have hs' := (hcopy v copies h' own' hl' hval.2 hc').2.1
    have hm1 : Mirrors P
        (((copy v copies h).2.2.retainRef k.ref).dictInsert into k (copy v copies h).1)
        (((copy v copies h').2.2.retainRef k.ref).dictInsert into k (copy v copies h).1) :=
      (hm.retainRef k.ref).dictInsert
        ((spares_retainRef _ _).body (hs.body hi)) ((spares_retainRef _ _).body (hs'.body hi')) k _
    simp only [copyEntries]
    rw [heq] at hf' hbody' ⊢
    rw [hcopies] at hf' ⊢
    refine ih _ ⟨hm1, ⟨_, hf.moves.backs⟩, ⟨_, hf'.moves.backs⟩⟩ (fun w hw => ?_) hf.live hf'.live
      hbody hbody' hrest
      (below_insert _ habove hk fun e he f hf => hlt e he f (List.mem_cons_of_mem _ hf))
    have hw' : w ∈ Entry.values ((k, v) :: rest) := by simp [hw]
    exact ⟨hf.has w (hv w hw').1, hf'.has w (hv w hw').2⟩

theorem copyWithin_steady (fuel : Nat) : (copyWithin fuel).Steady P l := by
  induction fuel with
  | zero =>
    intro v copies h h' ha hv hc hc'
    exact ⟨by simp only [copyWithin], by simp only [copyWithin], by
      simpa only [copyWithin] using ha.retain v⟩
  | succ fuel ih =>
    intro v copies h h' ha hv hc hc'
    cases v with
    | array r =>
      simp only [copyWithin]
      cases copies.lookup r with
      | some c => exact ⟨rfl, rfl, ha.retainRef c⟩
      | none =>
        obtain ⟨hc0, hm⟩ := ha.allocateLinked (b := .array #[]) trivial
        have hempty : ∀ {k : Heap}, (∃ own, k.Backs l own) →
            ∃ own, (k.allocateLinked (.array #[])).2.Backs l own := by
          rintro k ⟨own, hk⟩
          have hk' : k.Backs l (((#[] : Array Value).toList : Multiset Value) + own) := by simpa
          exact ⟨_, hk'.newArray.backs⟩
        have hs := spares_allocateLinked h (.array #[])
        have hs' := spares_allocateLinked h' (.array #[])
        have hlive := hc.started hs (.inl ⟨hs.has hv.1, has_new rfl rfl⟩)
        have hlive' : CopiesLive ((r, (h'.allocateLinked (.array #[])).1) :: copies) _ :=
          hc'.started hs' (.inl ⟨hs'.has hv.2, has_new rfl rfl⟩)
        have hi' := body?_allocateLinked_self h' (.array #[])
        obtain ⟨xs, hx⟩ := hv.1.array
        have hitems : ∀ w ∈ (h.items r).toList, Shared h h' w := fun w hw =>
          ha.within hv rfl hx (by simpa [Heap.items, hx, Body.values] using hw)
        simp only at hc0
        rw [ha.items_eq hv, hc0]
        rw [hc0] at hlive' hi'
        obtain ⟨hcopies, hm2⟩ := copyItems_steady (copyWithin_good l fuel) ih _ (h.items r).toList
          ((r, (h.allocateLinked (.array #[])).1) :: copies) ⟨hm, hempty ha.left, hempty ha.right⟩
          (fun w hw => ⟨hs.has (hitems w hw).1, hs'.has (hitems w hw).2⟩) hlive hlive'
          (body?_allocateLinked_self h _) hi'
        exact ⟨rfl, hcopies, hm2⟩
    | dict r =>
      simp only [copyWithin]
      cases copies.lookup r with
      | some c => exact ⟨rfl, rfl, ha.retainRef c⟩
      | none =>
        obtain ⟨hc0, hm⟩ := ha.allocateLinked (b := .dict .empty) trivial
        have hempty : ∀ {k : Heap}, (∃ own, k.Backs l own) →
            ∃ own, (k.allocateLinked (.dict .empty)).2.Backs l own := by
          rintro k ⟨own, hk⟩
          exact ⟨_, hk.newDict.backs⟩
        have hs := spares_allocateLinked h (.dict .empty)
        have hs' := spares_allocateLinked h' (.dict .empty)
        have hlive := hc.started hs (.inr ⟨hs.has hv.1, has_new rfl rfl⟩)
        have hlive' : CopiesLive ((r, (h'.allocateLinked (.dict .empty)).1) :: copies) _ :=
          hc'.started hs' (.inr ⟨hs'.has hv.2, has_new rfl rfl⟩)
        have hi' := body?_allocateLinked_self h' (.dict .empty)
        obtain ⟨es, hes⟩ := hv.1.dict
        have hvalues : ∀ w ∈ Entry.values (h.entries r).list, Shared h h' w := fun w hw =>
          ha.within hv rfl hes (by rwa [Backs.entries_eq hes] at hw)
        simp only at hc0
        rw [ha.entries_eq hv, hc0]
        rw [hc0] at hlive' hi'
        obtain ⟨hcopies, hm2⟩ := copyEntries_steady (copyWithin_good l fuel) ih _ (h.entries r).list
          ((r, (h.allocateLinked (.dict .empty)).1) :: copies)
          ⟨hm, hempty ha.left, hempty ha.right⟩
          (fun w hw => ⟨hs.has (hvalues w hw).1, hs'.has (hvalues w hw).2⟩) hlive hlive'
          (body?_allocateLinked_self h _) hi' (h.entries r).ascending fun e he => by cases he
        exact ⟨rfl, hcopies, hm2⟩
    | _ => exact ⟨by simp only [copyWithin], by simp only [copyWithin], by
      simpa only [copyWithin] using ha.retain _⟩

namespace Abreast

theorem deepCopy (ha : Abreast P l h h') {v : Value} (hv : Shared h h' v) :
    Mirrored P (fun h => h.deepCopy v) h h' := by
  obtain ⟨heq, -, hm⟩ := copyWithin_steady (h.cells.size + 1) v [] h h' ha hv
    (fun e he => by cases he) fun e he => by cases he
  simp only [Mirrored, Heap.deepCopy, ha.size]
  exact ⟨heq, hm⟩

/-- Both heaps are abreast again once a value has been copied, and nothing has gone. -/
theorem copied (ha : Abreast P l h h') {v : Value} (hv : Shared h h' v) :
    Abreast P l (h.deepCopy v).2 (h'.deepCopy v).2 ∧
      ∀ w, Shared h h' w → Shared (h.deepCopy v).2 (h'.deepCopy v).2 w := by
  obtain ⟨own, hl⟩ := ha.left
  obtain ⟨own', hl'⟩ := ha.right
  obtain ⟨hm, hs⟩ := hl.deepCopy hv.1
  obtain ⟨hm', hs'⟩ := hl'.deepCopy hv.2
  exact ⟨⟨(ha.deepCopy hv).2, ⟨_, hm.backs⟩, ⟨_, hm'.backs⟩⟩, fun w hw => ⟨hs.has hw.1, hs'.has hw.2⟩⟩

theorem deepCopyAll (ha : Abreast P l h h') {vs : List Value} (hv : ∀ v ∈ vs, Shared h h' v) :
    Mirrored P (fun h => h.deepCopyAll vs) h h' := by
  induction vs generalizing h h' with
  | nil => exact ⟨rfl, ha.toMirrors⟩
  | cons v vs ih =>
    have hv0 := hv v List.mem_cons_self
    obtain ⟨heq, -⟩ := ha.deepCopy hv0
    obtain ⟨ha1, hkeep⟩ := ha.copied hv0
    obtain ⟨heqs, hms⟩ := ih ha1 fun w hw => hkeep w (hv w (List.mem_cons_of_mem _ hw))
    simp only at heq heqs
    simp only [Mirrored, Heap.deepCopyAll, heq, heqs]
    exact ⟨trivial, hms⟩

end Abreast

end ScriptMachine.Heap
