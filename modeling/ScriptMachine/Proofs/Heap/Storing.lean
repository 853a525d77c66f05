import ScriptMachine.Proofs.Heap.Making

/-!
# Storing in containers

Arrays, dicts and closed variables take over what is put into them and hand out
what is taken.
-/

set_option autoImplicit false

namespace ScriptMachine

/-! ## Lists as multisets -/

theorem coe_set {xs : List Value} {i : Nat} {v old : Value} (h : xs[i]? = some old) :
    old ::ₘ (xs.set i v : Multiset Value) = v ::ₘ (xs : Multiset Value) := by
  induction xs generalizing i with
  | nil => cases h
  | cons x xs ih =>
    cases i with
    | zero =>
      simp only [List.getElem?_cons_zero, Option.some.injEq] at h
      subst h
      simp only [List.set_cons_zero, ← Multiset.cons_coe]
      rw [Multiset.cons_swap]
    | succ i =>
      simp only [List.set_cons_succ, ← Multiset.cons_coe]
      rw [Multiset.cons_swap, ih (by simpa using h), Multiset.cons_swap]

theorem coe_eraseIdx {xs : List Value} {i : Nat} {v : Value} (h : xs[i]? = some v) :
    v ::ₘ (xs.eraseIdx i : Multiset Value) = xs := by
  induction xs generalizing i with
  | nil => cases h
  | cons x xs ih =>
    cases i with
    | zero =>
      simp only [List.getElem?_cons_zero, Option.some.injEq] at h
      subst h
      rfl
    | succ i =>
      simp only [List.eraseIdx_cons_succ, ← Multiset.cons_coe]
      rw [Multiset.cons_swap, ih (by simpa using h)]

theorem exchange_left {v old : Value} {a a' : Multiset Value} (h : old ::ₘ a' = v ::ₘ a)
    (b : Multiset Value) : old ::ₘ (a' + b) = v ::ₘ (a + b) := by
  rw [← Multiset.cons_add, h, Multiset.cons_add]

theorem exchange_right {v old : Value} {a a' : Multiset Value} (h : old ::ₘ a' = v ::ₘ a)
    (b : Multiset Value) : old ::ₘ (b + a') = v ::ₘ (b + a) := by
  rw [← Multiset.add_cons, h, Multiset.add_cons]

theorem exchange {v old : Value} {a a' : Multiset Value} (h : old ::ₘ a' = v ::ₘ a)
    (b : Multiset Value) : a' + old ::ₘ b = a + v ::ₘ b := by
  rw [Multiset.add_cons, Multiset.add_cons, ← Multiset.cons_add, ← Multiset.cons_add, h]

/-! ## Entries -/

namespace Entry

/-- The keys and values of entries. -/
def values (es : List Entry) : List Value := es.flatMap fun (e : Entry) => [.string e.1, e.2]

@[simp] theorem values_nil : values [] = [] := rfl

@[simp] theorem values_cons (k : Text) (v : Value) (es : List Entry) :
    values ((k, v) :: es) = .string k :: v :: values es := rfl

theorem find?_of_below {key : String} {es : List Entry}
    (h : ∀ e ∈ es, key < e.1.chars) : find? key es = none := by
  induction es with
  | nil => rfl
  | cons e rest ih =>
    obtain ⟨k, v⟩ := e
    have hk : key < k.chars := h (k, v) List.mem_cons_self
    have hne : k.chars ≠ key := fun heq => String.lt_irrefl _ (heq ▸ hk)
    rw [find?, if_neg hne]
    exact ih fun e he => h e (List.mem_cons_of_mem _ he)

theorem find?_of_above {key : String} {es : List Entry}
    (h : ∀ e ∈ es, e.1.chars < key) : find? key es = none := by
  induction es with
  | nil => rfl
  | cons e rest ih =>
    obtain ⟨k, v⟩ := e
    have hk : k.chars < key := h (k, v) List.mem_cons_self
    have hne : k.chars ≠ key := fun heq => String.lt_irrefl _ (heq ▸ hk)
    rw [find?, if_neg hne]
    exact ih fun e he => h e (List.mem_cons_of_mem _ he)

theorem insert_of_above {key : Text} {v : Value} {es : List Entry}
    (h : ∀ e ∈ es, e.1.chars < key.chars) : insert key v es = es ++ [(key, v)] := by
  induction es with
  | nil => rfl
  | cons e rest ih =>
    obtain ⟨k, w⟩ := e
    have hk : k.chars < key.chars := h (k, w) List.mem_cons_self
    have hne : k.chars ≠ key.chars := fun heq => String.lt_irrefl _ (heq ▸ hk)
    have hng : ¬ key.chars < k.chars := fun hlt => String.lt_irrefl _ (String.lt_trans hk hlt)
    rw [insert, if_neg hne, if_neg hng, ih fun e he => h e (List.mem_cons_of_mem _ he)]
    rfl

/-- A new key enters with its value. -/
theorem values_insert_missing {key : Text} {v : Value} {es : List Entry}
    (h : find? key.chars es = none) :
    (values (insert key v es) : Multiset Value) = .string key ::ₘ v ::ₘ values es := by
  induction es with
  | nil => rfl
  | cons e rest ih =>
    obtain ⟨k, w⟩ := e
    rw [find?] at h
    split at h
    · cases h
    · rename_i hne
      rw [insert, if_neg hne]
      split
      · rfl
      · simp only [values_cons, ← Multiset.cons_coe, ih h, ← Multiset.singleton_add]
        ac_rfl

/-- Under a key that is there the new value replaces the old. -/
theorem values_insert_found {key : Text} {v old : Value} {es : List Entry} (ha : Ascending es)
    (h : find? key.chars es = some old) :
    old ::ₘ (values (insert key v es) : Multiset Value) = v ::ₘ values es := by
  induction es with
  | nil => cases h
  | cons e rest ih =>
    obtain ⟨k, w⟩ := e
    obtain ⟨hk, hr⟩ := List.pairwise_cons.1 ha
    rw [find?] at h
    split at h
    · rename_i heq
      cases h
      rw [insert, if_pos heq]
      simp only [values_cons, ← Multiset.cons_coe, ← Multiset.singleton_add]
      ac_rfl
    · rename_i hne
      have hng : ¬ key.chars < k.chars := by
        intro hlt
        rw [find?_of_below fun e he => String.lt_trans hlt (hk e he)] at h
        cases h
      rw [insert, if_neg hne, if_neg hng]
      simp only [values_cons, ← Multiset.cons_coe]
      rw [Multiset.cons_swap old, Multiset.cons_swap old, ih hr h]
      simp only [← Multiset.singleton_add]
      ac_rfl

theorem values_erase {key : String} {v : Value} {k : Text} {es : List Entry}
    (h : find? key es = some v)
    (hk : (es.find? fun (e : Entry) => e.1.chars == key).map (·.1) = some k) :
    .string k ::ₘ v ::ₘ (values (erase key es) : Multiset Value) = values es := by
  induction es with
  | nil => cases h
  | cons e rest ih =>
    obtain ⟨k', w⟩ := e
    rw [find?] at h
    split at h
    · rename_i heq
      cases h
      simp only [List.find?_cons, heq, beq_self_eq_true, Option.map_some, Option.some.injEq] at hk
      subst hk
      rw [erase, if_pos heq]
      rfl
    · rename_i hne
      have hb : (k'.chars == key) = false := by simpa using hne
      simp only [List.find?_cons, hb] at hk
      rw [erase, if_neg hne]
      simp only [values_cons, ← Multiset.cons_coe, ← ih h hk, ← Multiset.singleton_add]
      ac_rfl

end Entry

namespace Heap

variable {l : Law} {own : Multiset Value} {h h' : Heap}

/-! ## Objects by their kind -/

theorem Has.array {r : Ref} (hv : h.Has (.array r)) : ∃ xs, h.body? r = some (.array xs) := by
  obtain ⟨b, hb, hk⟩ := hv r rfl
  cases b <;> first | exact ⟨_, hb⟩ | cases hk

theorem Has.dict {r : Ref} (hv : h.Has (.dict r)) : ∃ es, h.body? r = some (.dict es) := by
  obtain ⟨b, hb, hk⟩ := hv r rfl
  cases b <;> first | exact ⟨_, hb⟩ | cases hk

theorem Has.classObject {r : Ref} (hv : h.Has (.classObject r)) :
    ∃ c, h.body? r = some (.classObject c) := by
  obtain ⟨b, hb, hk⟩ := hv r rfl
  cases b <;> first | exact ⟨_, hb⟩ | cases hk

theorem Has.instanceObject {r : Ref} (hv : h.Has (.instanceObject r)) :
    ∃ cls vs, h.body? r = some (.instanceObject cls vs) := by
  obtain ⟨b, hb, hk⟩ := hv r rfl
  cases b <;> first | exact ⟨_, _, hb⟩ | cases hk

theorem Has.closure {r : Ref} (hv : h.Has (.closure r)) : ∃ c, h.body? r = some (.closure c) := by
  obtain ⟨b, hb, hk⟩ := hv r rfl
  cases b <;> first | exact ⟨_, hb⟩ | cases hk

theorem Has.native {r : Ref} (hv : h.Has (.native r)) : ∃ n, h.body? r = some (.native n) := by
  obtain ⟨b, hb, hk⟩ := hv r rfl
  cases b <;> first | exact ⟨_, hb⟩ | cases hk

theorem Has.outer {r : Ref} (hv : h.Has (.outer r)) : ∃ s, h.body? r = some (.outer s) := by
  obtain ⟨b, hb, hk⟩ := hv r rfl
  cases b <;> first | exact ⟨_, hb⟩ | cases hk

theorem modifyBody_eq {r : Ref} {b : Body} (hb : h.body? r = some b) (f : Body → Body) :
    h.modifyBody r f = h.setBody r (f b) := by
  obtain ⟨c, hc, rfl⟩ := cell?_of_body? hb
  unfold modifyBody setBody modifyCell
  congr 1
  refine Array.ext_getElem? fun i => ?_
  simp only [Array.getElem?_modify]
  split
  · rename_i heq
    subst heq
    unfold cell? at hc
    cases hx : h.cells[r.id]? with
    | none => simp
    | some o =>
      rw [hx] at hc
      cases o with
      | none => simp at hc
      | some d =>
        simp only [Option.join_some, Option.some.injEq] at hc
        subst hc
        rfl
  · rfl

theorem modifyBody_same {r : Ref} {f : Body → Body} (hf : ∀ b, h.body? r = some b → f b = b) :
    h.modifyBody r f = h := by
  have hcells : h.cells.modify r.id (Option.map fun (c : Cell) => { c with body := f c.body }) =
      h.cells := by
    refine Array.ext_getElem? fun i => ?_
    rw [Array.getElem?_modify]
    split
    · rename_i heq
      subst heq
      cases hx : h.cells[r.id]? with
      | none => rfl
      | some o =>
        cases o with
        | none => rfl
        | some c =>
          have hbody : h.body? r = some c.body := by simp [body?, cell?, hx]
          simp [hf c.body hbody]
    · rfl
  show { h with cells := _ } = h
  rw [hcells]

namespace Backs

/-! ## Arrays -/

theorem newArray {items : Array Value} (hb : h.Backs l ((items.toList : Multiset Value) + own)) :
    Moves l ((h.newArray items).1 ::ₘ own) h (h.newArray items).2 :=
  hb.allocateLinked (b := .array items) rfl trivial rfl rfl (fun i hi => by cases hi)

theorem setItems {r : Ref} {xs ys : Array Value} {own' : Multiset Value} (hb : h.Backs l own)
    (hr : h.body? r = some (.array xs))
    (hle : (ys.toList : Multiset Value) + own' ≤ xs.toList + own) :
    Moves l own' h (h.setBody r (.array ys)) :=
  hb.setBody hr (.array xs ys) Kind.noConfusion hle

theorem pushItem {r : Ref} {v : Value} (hb : h.Backs l (v ::ₘ own)) :
    Moves l own h (h.pushItem r v) := by
  rw [Heap.pushItem, modifyItems]
  by_cases hx : ∃ xs, h.body? r = some (.array xs)
  · obtain ⟨xs, hx⟩ := hx
    rw [modifyBody_eq hx]
    refine hb.setItems hx (le_of_eq ?_)
    rw [Array.toList_push, ← Multiset.coe_add, Multiset.add_cons, Multiset.coe_singleton, add_assoc,
      Multiset.singleton_add, Multiset.add_cons]
  · rw [modifyBody_same]
    · exact (hb.mono (Multiset.le_cons_self _ _)).stay
    · intro b hb'
      cases b with
      | array xs => exact absurd ⟨xs, hb'⟩ hx
      | _ => rfl

theorem itemAt_mem {r : Ref} {i : Int64} {v : Value} (hv : h.itemAt r i = .ok v) :
    ∃ xs, h.body? r = some (.array xs) ∧ i.toInt.toNat < xs.size ∧ xs[i.toInt.toNat]? = some v := by
  unfold itemAt at hv
  cases hb : h.body? r with
  | none => simp [Heap.items, hb, position?] at hv
  | some b =>
    cases b with
    | array xs =>
      simp only [Heap.items, hb, position?] at hv
      split at hv
      · rename_i w hw
        cases hv
        split at hw
        · rename_i hlt
          exact ⟨xs, rfl, hlt.2, hw⟩
        · cases hw
      · cases hv
    | content | weak | dict | closure | native | classObject | instanceObject | outer =>
      simp [Heap.items, hb, position?] at hv

theorem setItem {r : Ref} {i : Int64} {v : Value} (hb : h.Backs l (v ::ₘ own)) :
    Moves l own h (h.setItem r i v).2 := by
  unfold Heap.setItem
  split
  · rename_i old hold
    obtain ⟨xs, hx, hlt, hget⟩ := itemAt_mem hold
    simp only [modifyItems, modifyBody_eq hx]
    have hm : Moves l (old ::ₘ own) h (h.setBody r (.array (xs.setIfInBounds i.toInt.toNat v))) := by
      refine hb.setItems hx (le_of_eq ?_)
      have hx : xs.toList[i.toInt.toNat]? = some old := by rw [Array.getElem?_toList, hget]
      rw [Array.toList_setIfInBounds]
      exact exchange (coe_set hx) own
    exact hm.trans hm.backs.release
  · exact hb.release

theorem removeItem {r : Ref} {i : Int64} (hb : h.Backs l own) :
    Moves l (((h.removeItem r i).1.toOption.toList : Multiset Value) + own) h (h.removeItem r i).2 := by
  unfold Heap.removeItem
  split
  · rename_i v hv
    obtain ⟨xs, hx, hlt, hget⟩ := itemAt_mem hv
    simp only [modifyItems, modifyBody_eq hx]
    refine hb.setItems hx (le_of_eq ?_)
    have hx : xs.toList[i.toInt.toNat]? = some v := by rw [Array.getElem?_toList, hget]
    have := coe_eraseIdx hx
    rw [Array.toList_eraseIdxIfInBounds, ← this]
    simp only [Except.toOption, Option.toList, Multiset.coe_singleton, ← Multiset.singleton_add]
    ac_rfl
  · exact (hb.mono (by simp [Except.toOption])).stay

/-! ## Dicts -/

theorem newDict (hb : h.Backs l own) : Moves l (.dict h.newDict.1 ::ₘ own) h h.newDict.2 := by
  have hb' : h.Backs l (((Body.dict .empty).values : Multiset Value) + own) :=
    hb.mono (by simp [Body.values, Entries.empty])
  exact hb'.allocateLinked rfl trivial rfl rfl (fun i hi => by cases hi)

theorem entries_eq {r : Ref} {es : Entries} (hr : h.body? r = some (.dict es)) : h.entries r = es := by
  rw [entries, hr]

theorem setEntries {r : Ref} {es fs : Entries} {own' : Multiset Value} (hb : h.Backs l own)
    (hr : h.body? r = some (.dict es))
    (hle : (Entry.values fs.list : Multiset Value) + own' ≤ Entry.values es.list + own) :
    Moves l own' h (h.setBody r (.dict fs)) :=
  hb.setBody hr (.dict es fs) Kind.noConfusion hle

theorem dictInsert {r : Ref} {key : Text} {v : Value} (hb : h.Backs l (.string key ::ₘ v ::ₘ own))
    (hr : h.Has (.dict r)) : Moves l own h (h.dictInsert r key v) := by
  obtain ⟨es, hes⟩ := hr.dict
  simp only [Heap.dictInsert, entries_eq hes]
  cases hf : es.find? key.chars with
  | none =>
    refine hb.setEntries hes (le_of_eq ?_)
    simp only [Entries.insert, Entry.values_insert_missing hf]
    simp only [Multiset.cons_add, Multiset.add_cons]
  | some old =>
    have hm : Moves l (.string key ::ₘ old ::ₘ own) h (h.setBody r (.dict (es.insert key v))) := by
      refine hb.setEntries hes (le_of_eq ?_)
      rw [Multiset.cons_swap _ old, Multiset.cons_swap _ v]
      exact exchange (Entry.values_insert_found es.ascending hf) _
    have hk := hm.backs.releaseRef (v := .string key) rfl
    exact hm.trans (hk.trans hk.backs.release)

theorem key?_chars {es : Entries} {key : String} {k : Text} (hk : es.key? key = some k) :
    k.chars = key := by
  unfold Entries.key? at hk
  obtain ⟨e, he, rfl⟩ := Option.map_eq_some_iff.1 hk
  simpa using List.find?_some he

theorem dictSet {r : Ref} {key : String} {v : Value} (hb : h.Backs l (v ::ₘ own)) :
    Moves l own h (h.dictSet r key v).2 := by
  unfold Heap.dictSet
  cases hbr : h.body? r with
  | none => simpa [entries, hbr, Entries.find?, Entries.empty, Entry.find?] using hb.release
  | some b =>
    cases b with
    | dict es =>
      simp only [entries_eq hbr]
      split
      · rename_i old k hf hk
        have hm : Moves l (old ::ₘ own) h (h.setBody r (.dict (es.insert k v))) := by
          refine hb.setEntries hbr (le_of_eq ?_)
          have hf' : Entry.find? k.chars es.list = some old := by
            rw [key?_chars hk]
            exact hf
          exact exchange (Entry.values_insert_found es.ascending hf') own
        exact hm.trans hm.backs.release
      · exact hb.release
    | content | weak | array | closure | native | classObject | instanceObject | outer =>
      simpa [entries, hbr, Entries.find?, Entries.empty, Entry.find?] using hb.release

theorem dictRemove {r : Ref} {key : String} (hb : h.Backs l own) :
    Moves l (((h.dictRemove r key).1.toList : Multiset Value) + own) h (h.dictRemove r key).2 := by
  unfold Heap.dictRemove
  cases hbr : h.body? r with
  | none =>
    simpa [entries, hbr, Entries.find?, Entries.empty, Entry.find?] using hb.stay
  | some b =>
    cases b with
    | dict es =>
      simp only [entries_eq hbr]
      split
      · rename_i v k hf hk
        have hm : Moves l (.string k ::ₘ v ::ₘ own) h (h.setBody r (.dict (es.erase key))) := by
          refine hb.setEntries hbr (le_of_eq ?_)
          have := Entry.values_erase hf hk
          simp only [Entries.erase, Multiset.add_cons, ← Multiset.cons_add, this]
        have hrel := hm.backs.releaseRef (v := .string k) rfl
        refine hm.trans ⟨hrel.backs.mono (by simp), hrel.evolves⟩
      · exact (hb.mono (by simp)).stay
    | content | weak | array | closure | native | classObject | instanceObject | outer =>
      simpa [entries, hbr, Entries.find?, Entries.empty, Entry.find?] using hb.stay

theorem dictInsertChars {r : Ref} {key : String} {v : Value} (hb : h.Backs l (v ::ₘ own))
    (hr : .dict r ∈ own) : Moves l own h (h.dictInsertChars r key v) := by
  have hm := hb.allocateText key
  exact hm.trans (hm.backs.dictInsert (hm.backs.has (by simp [hr])))

/-! ## Closed variables -/

theorem setClosed {r : Ref} {v : Value} (hb : h.Backs l (v ::ₘ own)) :
    Moves l own h (h.setClosed r v).2 := by
  unfold Heap.setClosed
  split
  · rename_i w hw
    unfold outerState? at hw
    split at hw
    · rename_i s hbr
      cases hw
      simp only [Heap.closeOuter, outerState?, hbr]
      have hm : Moves l (w ::ₘ own) h (h.setBody r (.outer (.closed v))) := by
        refine hb.setBody hbr (.outer w v) Kind.noConfusion (le_of_eq ?_)
        simp only [Body.values, Multiset.coe_singleton, Multiset.singleton_add, Multiset.add_cons]
        rw [Multiset.cons_swap]
      exact hm.trans hm.backs.release
    · cases hw
  · exact hb.release

end Backs

end Heap

end ScriptMachine
