import ScriptMachine.Proofs.Heap.Storing

/-!
# Copying

A copy is made of new arrays and dicts. What was there before keeps its
contents, so a copy can be filled while the rest is copied.
-/

set_option autoImplicit false

namespace ScriptMachine.Heap

variable {l : Law} {own : Multiset Value} {h h' h'' : Heap}

/-- What lived in the first heap lives in the second with the same contents,
apart from one object. -/
def SparesBut (except : Option Ref) (h h' : Heap) : Prop :=
  ∀ r b, some r ≠ except → h.body? r = some b → h'.body? r = some b

abbrev Spares (h h' : Heap) : Prop := SparesBut none h h'

namespace SparesBut

variable {except : Option Ref}

theorem refl (h : Heap) : SparesBut except h h := fun _ _ _ hb => hb

theorem trans (h1 : SparesBut except h h') (h2 : SparesBut except h' h'') :
    SparesBut except h h'' :=
  fun r b hr hb => h2 r b hr (h1 r b hr hb)

theorem weaken (hs : Spares h h') : SparesBut except h h' :=
  fun r b _ hb => hs r b (fun hn => by cases hn) hb

end SparesBut

theorem Spares.body (hs : Spares h h') {r : Ref} {b : Body} (hb : h.body? r = some b) :
    h'.body? r = some b := hs r b (fun hn => by cases hn) hb

theorem Spares.has (hs : Spares h h') {v : Value} (hv : h.Has v) : h'.Has v := by
  intro r hr
  obtain ⟨b, hb, hk⟩ := hv r hr
  exact ⟨b, hs.body hb, hk⟩

theorem body?_retainRef (h : Heap) (r s : Ref) : (h.retainRef r).body? s = h.body? s := by
  simp only [retainRef, body?, cell?_modifyCell]
  split
  · rename_i heq
    subst heq
    cases h.cell? s <;> rfl
  · rfl

theorem spares_retainRef (h : Heap) (r : Ref) : Spares h (h.retainRef r) := by
  intro s b _ hb
  rwa [body?_retainRef]

theorem body?_retain (h : Heap) (v : Value) (s : Ref) : (h.retain v).body? s = h.body? s := by
  unfold retain
  split
  · exact body?_retainRef ..
  · rfl

theorem spares_retain (h : Heap) (v : Value) : Spares h (h.retain v) := by
  intro s b _ hb
  rwa [body?_retain]

theorem spares_retainAll (h : Heap) (vs : List Value) : Spares h (h.retainAll vs) := by
  induction vs generalizing h with
  | nil => exact .refl h
  | cons v vs ih => exact (spares_retain h v).trans (ih (h.retain v))

theorem body?_setBody {r : Ref} {b b' : Body} (hr : h.body? r = some b) (s : Ref) :
    (h.setBody r b').body? s = if s = r then some b' else h.body? s := by
  obtain ⟨c, hc, -⟩ := cell?_of_body? hr
  simp only [setBody, body?, cell?_modifyCell, hc]
  split <;> rfl

theorem sparesBut_setBody {r : Ref} {b b' : Body} (hr : h.body? r = some b) :
    SparesBut (some r) h (h.setBody r b') := by
  intro s d hs hd
  rw [body?_setBody hr, if_neg (fun heq => hs (by rw [heq])), hd]

theorem body?_allocateLinked (h : Heap) (b : Body) (s : Ref) :
    (h.allocateLinked b).2.body? s = if s = (h.allocateLinked b).1 then some b else h.body? s := by
  have hnew : (h.allocate b).2.cell? ⟨h.cells.size⟩ =
      some { strong := 1, link := .fresh, handle := none, body := b } := by simp
  have hreg : (h.allocateLinked b).2 = ({ (h.allocate b).2 with
      chain := ((h.allocate b).2.chain.insert ⟨h.cells.size⟩).2 } : Heap).modifyCell ⟨h.cells.size⟩
        fun (c : Cell) => { c with
          link := .linked ((h.allocate b).2.chain.insert ⟨h.cells.size⟩).1 } := by
    simp only [allocateLinked, register, allocate_fst, hnew]
  have hcell : ∀ t chain, ({ (h.allocate b).2 with chain } : Heap).cell? t =
      (h.allocate b).2.cell? t := fun _ _ => rfl
  rw [hreg]
  simp only [body?, cell?_modifyCell, hcell, hnew]
  show _ = if s = ⟨h.cells.size⟩ then _ else _
  split
  · rfl
  · rename_i hne
    rw [cell?_allocate, if_neg hne]

theorem body?_allocateLinked_self (h : Heap) (b : Body) :
    (h.allocateLinked b).2.body? (h.allocateLinked b).1 = some b := by
  rw [body?_allocateLinked, if_pos rfl]

theorem spares_allocateLinked (h : Heap) (b : Body) : Spares h (h.allocateLinked b).2 := by
  intro s d _ hd
  rw [body?_allocateLinked, if_neg, hd]
  rintro rfl
  exact Nat.lt_irrefl _ (body?_lt hd)

/-! ## Copies made so far -/

/-- Both objects live and are arrays, or both are dicts. -/
def Copied (h : Heap) (r c : Ref) : Prop :=
  h.Has (.array r) ∧ h.Has (.array c) ∨ h.Has (.dict r) ∧ h.Has (.dict c)

def CopiesLive (copies : Copies) (h : Heap) : Prop := ∀ e ∈ copies, Copied h e.1 e.2

theorem CopiesLive.evolve {copies : Copies} (hc : CopiesLive copies h)
    (hv : ∀ v, h.Has v → h'.Has v) : CopiesLive copies h' :=
  fun e he => (hc e he).imp (fun p => ⟨hv _ p.1, hv _ p.2⟩) fun p => ⟨hv _ p.1, hv _ p.2⟩

theorem CopiesLive.started {copies : Copies} {r c : Ref} (hc : CopiesLive copies h)
    (hs : Spares h h') (hrc : Copied h' r c) : CopiesLive ((r, c) :: copies) h' := by
  intro e he
  rcases List.mem_cons.1 he with rfl | he
  · exact hrc
  · exact hc.evolve (fun w hw => hs.has hw) e he

theorem mem_of_lookup {copies : Copies} {r c : Ref} (hl : copies.lookup r = some c) :
    (r, c) ∈ copies := by
  induction copies with
  | nil => cases hl
  | cons e rest ih =>
    obtain ⟨s, d⟩ := e
    rw [List.lookup_cons] at hl
    split at hl
    · rename_i heq
      cases hl
      have : r = s := by simpa using heq
      subst this
      exact List.mem_cons_self
    · exact List.mem_cons_of_mem _ (ih hl)

theorem Copied.array {r c : Ref} (hc : Copied h r c) (hr : h.Has (.array r)) : h.Has (.array c) := by
  rcases hc with hc | hc
  · exact hc.2
  · obtain ⟨xs, hx⟩ := hr.array
    obtain ⟨es, he⟩ := hc.1.dict
    rw [hx] at he
    cases he

theorem Copied.dict {r c : Ref} (hc : Copied h r c) (hr : h.Has (.dict r)) : h.Has (.dict c) := by
  rcases hc with hc | hc
  · obtain ⟨xs, hx⟩ := hc.1.array
    obtain ⟨es, he⟩ := hr.dict
    rw [hx] at he
    cases he
  · exact hc.2

theorem has_new {b : Body} {v : Value} (hv : v.ref? = some ⟨h.cells.size⟩)
    (hk : b.kind = v.kind) : (h.allocateLinked b).2.Has v := by
  intro r hr
  rw [hv] at hr
  cases hr
  exact ⟨b, body?_allocateLinked_self h b, hk⟩

/-- What a copier does with every value that lives. -/
def Copier.Good (l : Law) (copy : Copier) : Prop :=
  ∀ v copies h own, h.Backs l own → h.Has v → CopiesLive copies h →
    Moves l ((copy v copies h).1 ::ₘ own) h (copy v copies h).2.2 ∧
      Spares h (copy v copies h).2.2 ∧ CopiesLive (copy v copies h).2.1 (copy v copies h).2.2

/-! ## Filling a copy -/

theorem has_setBody {r : Ref} {b b' : Body} (hr : h.body? r = some b) (hk : b'.kind = b.kind)
    {v : Value} (hv : h.Has v) : (h.setBody r b').Has v := by
  intro s hs
  obtain ⟨d, hd, hkd⟩ := hv s hs
  rw [body?_setBody hr]
  split
  · rename_i heq
    subst heq
    rw [hr] at hd
    cases hd
    exact ⟨b', rfl, hk.trans hkd⟩
  · exact ⟨d, hd, hkd⟩

theorem pushItem_eq {r : Ref} {xs : Array Value} (hr : h.body? r = some (.array xs)) (v : Value) :
    h.pushItem r v = h.setBody r (.array (xs.push v)) := by
  rw [Heap.pushItem, modifyItems, modifyBody_eq hr]

theorem dictInsert_of_above {r : Ref} {es : Entries} {k : Text} (hr : h.body? r = some (.dict es))
    (habove : ∀ e ∈ es.list, e.1.chars < k.chars) (v : Value) :
    h.dictInsert r k v = h.setBody r (.dict (es.insert k v)) := by
  simp only [Heap.dictInsert, Backs.entries_eq hr, Entries.find?, Entry.find?_of_above habove]

/-- Entries that are put in by ascending keys stay below the keys still to come. -/
theorem below_insert {es : Entries} {k : Text} {rest : List Entry} (v : Value)
    (habove : ∀ e ∈ es.list, e.1.chars < k.chars) (hk : ∀ f ∈ rest, k.chars < f.1.chars)
    (hlt : ∀ e ∈ es.list, ∀ f ∈ rest, e.1.chars < f.1.chars) :
    ∀ e ∈ (es.insert k v).list, ∀ f ∈ rest, e.1.chars < f.1.chars := by
  intro e he f hf
  simp only [Entries.insert, Entry.insert_of_above habove] at he
  rcases List.mem_append.1 he with he | he
  · exact hlt e he f hf
  · rw [List.mem_singleton.1 he]
    exact hk f hf

/-- What becomes of a heap when a value has been copied and put into an object. -/
structure Filled (l : Law) (own : Multiset Value) (into : Ref) (copies : Copies) (h k : Heap) :
    Prop where
  moves : Moves l own h k
  spares : SparesBut (some into) h k
  has : ∀ v, h.Has v → k.Has v
  live : CopiesLive copies k

section

variable {copy : Copier} {into : Ref} {v : Value} {copies : Copies}

theorem Copier.Good.pushed (hcopy : copy.Good l) {xs : Array Value} (hb : h.Backs l own)
    (hv : h.Has v) (hc : CopiesLive copies h) (hi : h.body? into = some (.array xs)) :
    Filled l own into (copy v copies h).2.1 h
        ((copy v copies h).2.2.pushItem into (copy v copies h).1) ∧
      ((copy v copies h).2.2.pushItem into (copy v copies h).1).body? into =
        some (.array (xs.push (copy v copies h).1)) := by
  obtain ⟨hm, hs, hc1⟩ := hcopy v copies h own hb hv hc
  have hi1 := hs.body hi
  have hm2 := hm.backs.pushItem (r := into)
  rw [pushItem_eq hi1] at hm2 ⊢
  have hkeep : ∀ w, (copy v copies h).2.2.Has w →
      ((copy v copies h).2.2.setBody into (.array (xs.push (copy v copies h).1))).Has w :=
    fun _ => has_setBody hi1 (by rfl)
  refine ⟨⟨hm.trans hm2, ?_, fun w hw => hkeep w (hs.has hw), hc1.evolve hkeep⟩, ?_⟩
  · exact (SparesBut.weaken hs).trans (sparesBut_setBody hi1)
  · rw [body?_setBody hi1, if_pos rfl]

theorem Copier.Good.inserted (hcopy : copy.Good l) {k : Text} {es : Entries} (hb : h.Backs l own)
    (hk : h.Has (.string k)) (hv : h.Has v) (hc : CopiesLive copies h)
    (hi : h.body? into = some (.dict es)) (habove : ∀ e ∈ es.list, e.1.chars < k.chars) :
    Filled l own into (copy v copies h).2.1 h
        (((copy v copies h).2.2.retainRef k.ref).dictInsert into k (copy v copies h).1) ∧
      (((copy v copies h).2.2.retainRef k.ref).dictInsert into k (copy v copies h).1).body? into =
        some (.dict (es.insert k (copy v copies h).1)) := by
  obtain ⟨hm, hs, hc1⟩ := hcopy v copies h own hb hv hc
  have hm1 := hm.backs.retainRef (v := .string k) (hs.has hk) rfl
  have hs1 := spares_retainRef (copy v copies h).2.2 k.ref
  have hi1 := hs1.body (hs.body hi)
  have hm2 := hm1.backs.dictInsert (r := into) fun _ hr => ⟨_, by cases hr; exact hi1, rfl⟩
  rw [dictInsert_of_above hi1 habove] at hm2 ⊢
  have hkeep : ∀ w, (copy v copies h).2.2.Has w → (((copy v copies h).2.2.retainRef k.ref).setBody
      into (.dict (es.insert k (copy v copies h).1))).Has w :=
    fun _ hw => has_setBody hi1 (by rfl) (hs1.has hw)
  refine ⟨⟨hm.trans (hm1.trans hm2), ?_, fun w hw => hkeep w (hs.has hw), hc1.evolve hkeep⟩, ?_⟩
  · exact (SparesBut.weaken (hs.trans hs1)).trans (sparesBut_setBody hi1)
  · rw [body?_setBody hi1, if_pos rfl]

end

theorem copyItems_good {copy : Copier} (hcopy : copy.Good l) (into : Ref) (vs : List Value)
    (copies : Copies) {xs : Array Value} (hb : h.Backs l own) (hv : ∀ v ∈ vs, h.Has v)
    (hc : CopiesLive copies h) (hi : h.body? into = some (.array xs)) :
    Moves l own h (copyItems copy into vs copies h).2 ∧
      SparesBut (some into) h (copyItems copy into vs copies h).2 ∧
      CopiesLive (copyItems copy into vs copies h).1 (copyItems copy into vs copies h).2 := by
  induction vs generalizing h copies xs with
  | nil => exact ⟨hb.stay, .refl h, hc⟩
  | cons v vs ih =>
    obtain ⟨hf, hbody⟩ := hcopy.pushed hb (hv v List.mem_cons_self) hc hi
    obtain ⟨hm, hs, hlive⟩ := ih (copy v copies h).2.1 hf.moves.backs
      (fun w hw => hf.has w (hv w (List.mem_cons_of_mem _ hw))) hf.live hbody
    exact ⟨hf.moves.trans hm, hf.spares.trans hs, hlive⟩

theorem copyEntries_good {copy : Copier} (hcopy : copy.Good l) (into : Ref) (rest : List Entry)
    (copies : Copies) {es : Entries} (hb : h.Backs l own) (hv : ∀ v ∈ Entry.values rest, h.Has v)
    (hc : CopiesLive copies h) (hi : h.body? into = some (.dict es)) (ha : Ascending rest)
    (hlt : ∀ e ∈ es.list, ∀ f ∈ rest, e.1.chars < f.1.chars) :
    Moves l own h (copyEntries copy into rest copies h).2 ∧
      SparesBut (some into) h (copyEntries copy into rest copies h).2 ∧
      CopiesLive (copyEntries copy into rest copies h).1 (copyEntries copy into rest copies h).2 := by
  induction rest generalizing h copies es with
  | nil => exact ⟨hb.stay, .refl h, hc⟩
  | cons e rest ih =>
    obtain ⟨k, v⟩ := e
    obtain ⟨hk, hr⟩ := List.pairwise_cons.1 ha
    -- the keys come in ascending order, so none is there already
    have habove : ∀ e ∈ es.list, e.1.chars < k.chars := fun e he => hlt e he (k, v) List.mem_cons_self
    obtain ⟨hf, hbody⟩ := hcopy.inserted hb (hv _ (by simp)) (hv v (by simp)) hc hi habove
    obtain ⟨hm, hs, hlive⟩ := ih (copy v copies h).2.1 hf.moves.backs
      (fun w hw => hf.has w (hv w (by simp [hw]))) hf.live hbody hr
      (below_insert _ habove hk fun e he f hf => hlt e he f (List.mem_cons_of_mem _ hf))
    exact ⟨hf.moves.trans hm, hf.spares.trans hs, hlive⟩

/-! ## Copying -/

theorem spares_but_new {r : Ref} (hr : h.cells.size ≤ r.id) (hs : Spares h h')
    (hs' : SparesBut (some r) h' h'') : Spares h h'' := by
  intro s d _ hd
  refine hs' s d ?_ (hs.body hd)
  rintro ⟨⟩
  have := body?_lt hd
  omega

/-- A value that is no container, or that has a copy already, is only retained. -/
theorem retain_good {v : Value} {copies : Copies} (hb : h.Backs l own) (hv : h.Has v)
    (hc : CopiesLive copies h) :
    Moves l (v ::ₘ own) h (h.retain v) ∧ Spares h (h.retain v) ∧ CopiesLive copies (h.retain v) :=
  ⟨hb.retain hv, spares_retain h v, hc.evolve fun _ hw => (spares_retain h v).has hw⟩

theorem copyWithin_good (l : Law) (fuel : Nat) : Copier.Good l (copyWithin fuel) := by
  induction fuel with
  | zero =>
    intro v copies h own hb hv hc
    simp only [copyWithin]
    exact retain_good hb hv hc
  | succ fuel ih =>
    intro v copies h own hb hv hc
    cases v with
    | array r =>
      simp only [copyWithin]
      cases hlk : copies.lookup r with
      | some c => exact retain_good hb ((hc _ (mem_of_lookup hlk)).array hv) hc
      | none =>
        have hm : Moves l _ h (h.allocateLinked (.array #[])).2 :=
          (hb.mono (by simp) : h.Backs l (((#[] : Array Value).toList : Multiset Value) + own)).newArray
        have hs := spares_allocateLinked h (.array #[])
        obtain ⟨xs, hx⟩ := hv.array
        obtain ⟨hm2, hs2, hc2⟩ := copyItems_good ih (h.allocateLinked (.array #[])).1
          (h.items r).toList ((r, (h.allocateLinked (.array #[])).1) :: copies) hm.backs
          (fun w hw => hs.has (hb.has_of_body hx (by simpa [Heap.items, hx, Body.values] using hw)))
          (hc.started hs (.inl ⟨hs.has hv, has_new rfl rfl⟩))
          (body?_allocateLinked_self h _)
        exact ⟨hm.trans hm2, spares_but_new (Nat.le_refl _) hs hs2, hc2⟩
    | dict r =>
      simp only [copyWithin]
      cases hlk : copies.lookup r with
      | some c => exact retain_good hb ((hc _ (mem_of_lookup hlk)).dict hv) hc
      | none =>
        have hm := hb.newDict
        have hs := spares_allocateLinked h (.dict .empty)
        obtain ⟨es, hes⟩ := hv.dict
        obtain ⟨hm2, hs2, hc2⟩ := copyEntries_good ih (h.allocateLinked (.dict .empty)).1
          (h.entries r).list ((r, (h.allocateLinked (.dict .empty)).1) :: copies) hm.backs
          (fun w hw => hs.has (hb.has_of_body hes (by rwa [Backs.entries_eq hes] at hw)))
          (hc.started hs (.inr ⟨hs.has hv, has_new rfl rfl⟩))
          (body?_allocateLinked_self h (.dict .empty)) (h.entries r).ascending
          (fun e he => by cases he)
        exact ⟨hm.trans hm2, spares_but_new (Nat.le_refl _) hs hs2, hc2⟩
    | _ =>
      simp only [copyWithin]
      exact retain_good hb hv hc

namespace Backs

theorem deepCopy {v : Value} (hb : h.Backs l own) (hv : h.Has v) :
    Moves l ((h.deepCopy v).1 ::ₘ own) h (h.deepCopy v).2 ∧ Spares h (h.deepCopy v).2 := by
  obtain ⟨hm, hs, -⟩ := copyWithin_good l (h.cells.size + 1) v [] h own hb hv
    (fun e he => by cases he)
  exact ⟨hm, hs⟩

theorem deepCopyAll {vs : List Value} (hb : h.Backs l own) (hv : ∀ v ∈ vs, h.Has v) :
    Moves l (((h.deepCopyAll vs).1 : Multiset Value) + own) h (h.deepCopyAll vs).2 ∧
      Spares h (h.deepCopyAll vs).2 := by
  induction vs generalizing h own with
  | nil => exact ⟨(hb.mono (by simp [Heap.deepCopyAll])).stay, .refl h⟩
  | cons v vs ih =>
    obtain ⟨hm, hs⟩ := hb.deepCopy (hv v List.mem_cons_self)
    obtain ⟨hm2, hs2⟩ := ih hm.backs fun w hw => hs.has (hv w (List.mem_cons_of_mem _ hw))
    refine ⟨hm.trans ⟨hm2.backs.mono (le_of_eq ?_), hm2.evolves⟩, hs.trans hs2⟩
    simp only [Heap.deepCopyAll]
    rw [coe_cons_add, Multiset.add_cons]

end Backs

end ScriptMachine.Heap
