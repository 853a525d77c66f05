import ScriptMachine.Proofs.Heap.Lookups

/-!
# Going on from a key

The entry after a key is the least of those above it, whether the key itself is
there or not.
-/

set_option autoImplicit false

namespace ScriptMachine

namespace Entry

variable {key : String} {es : List Entry}

theorem find?_eq_some (ha : Ascending es) {v : Value} :
    find? key es = some v ↔ ∃ e ∈ es, e.1.chars = key ∧ e.2 = v := by
  induction es with
  | nil => simp [find?]
  | cons a rest ih =>
    obtain ⟨k, w⟩ := a
    obtain ⟨hk, hrest⟩ := List.pairwise_cons.1 ha
    rw [find?]
    split
    · rename_i heq
      -- the keys behind are greater
      have hother : ¬ ∃ e ∈ rest, e.1.chars = key ∧ e.2 = v := by
        rintro ⟨e, he, hekey, -⟩
        exact String.ne_of_lt (hk e he) (heq.trans hekey.symm)
      simp [heq, hother]
    · rename_i hne
      simp [hne, ih hrest]

theorem after?_eq_none : after? key es = none ↔ ∀ e ∈ es, ¬ key < e.1.chars := by
  induction es with
  | nil => simp [after?]
  | cons a rest ih =>
    obtain ⟨k, w⟩ := a
    rw [after?]
    split <;> simp_all

theorem after?_least (ha : Ascending es) {e : Entry} (he : after? key es = some e) :
    key < e.1.chars ∧ ∀ d ∈ es, key < d.1.chars → ¬ d.1.chars < e.1.chars := by
  induction es with
  | nil => cases he
  | cons a rest ih =>
    obtain ⟨k, w⟩ := a
    obtain ⟨hk, hrest⟩ := List.pairwise_cons.1 ha
    rw [after?] at he
    split at he
    · rename_i hlt
      cases he
      refine ⟨hlt, fun d hd _ => ?_⟩
      rcases List.mem_cons.1 hd with rfl | hd
      · exact String.lt_irrefl _
      · exact String.lt_asymm (hk d hd)
    · rename_i hge
      obtain ⟨habove, hleast⟩ := ih hrest he
      refine ⟨habove, fun d hd hdk => ?_⟩
      rcases List.mem_cons.1 hd with rfl | hd
      · exact absurd hdk hge
      · exact hleast d hd hdk

end Entry

namespace Entries

variable {es : Entries} {cursor : Option String}

/-- A walk that stands at the cursor has the key before it. -/
def Beyond (cursor : Option String) (key : String) : Prop := ∀ c, cursor = some c → c < key

theorem beyond_none (key : String) : Beyond none key := fun _ hc => by cases hc

theorem beyond_some {c key : String} : Beyond (some c) key ↔ c < key :=
  ⟨fun h => h c rfl, fun h _ hd => Option.some.inj hd ▸ h⟩

theorem find?_eq_some {key : String} {v : Value} :
    es.find? key = some v ↔ ∃ e ∈ es.list, e.1.chars = key ∧ e.2 = v :=
  Entry.find?_eq_some es.ascending

theorem contains_iff {key : String} : es.contains key ↔ ∃ e ∈ es.list, e.1.chars = key := by
  unfold contains
  rw [Option.isSome_iff_exists]
  simp only [find?_eq_some]
  exact ⟨fun ⟨_, e, he, hk, _⟩ => ⟨e, he, hk⟩, fun ⟨e, he, hk⟩ => ⟨e.2, e, he, hk, rfl⟩⟩

theorem next?_eq_none :
    es.next? cursor = none ↔ ∀ key, es.contains key → ¬ Beyond cursor key := by
  have hkeys : (∀ key, es.contains key → ¬ Beyond cursor key) ↔
      ∀ e ∈ es.list, ¬ Beyond cursor e.1.chars :=
    ⟨fun h e he => h _ (contains_iff.2 ⟨e, he, rfl⟩), fun h key hk => by
      obtain ⟨e, he, rfl⟩ := contains_iff.1 hk
      exact h e he⟩
  rw [hkeys]
  cases cursor with
  | none =>
    simp only [next?, List.head?_eq_none_iff, beyond_none, not_true_eq_false]
    exact List.eq_nil_iff_forall_not_mem
  | some c =>
    simp only [beyond_some]
    exact Entry.after?_eq_none

/-- The next entry is there, lies before the walk, and no other does so earlier. -/
theorem next?_least {e : Entry} (he : es.next? cursor = some e) :
    Beyond cursor e.1.chars ∧ es.find? e.1.chars = some e.2 ∧
      ∀ key, es.contains key → Beyond cursor key → ¬ key < e.1.chars := by
  have hfound : es.find? e.1.chars = some e.2 := find?_eq_some.2 ⟨e, next?_mem he, rfl, rfl⟩
  cases cursor with
  | none =>
    refine ⟨beyond_none _, hfound, fun key hkey _ => ?_⟩
    obtain ⟨d, hd, rfl⟩ := contains_iff.1 hkey
    obtain ⟨rest, hlist⟩ := List.head?_eq_some_iff.1 he
    rw [hlist] at hd
    have ha := es.ascending
    rw [hlist] at ha
    rcases List.mem_cons.1 hd with rfl | hd
    · exact String.lt_irrefl _
    · exact String.lt_asymm ((List.pairwise_cons.1 ha).1 d hd)
  | some c =>
    obtain ⟨habove, hleast⟩ := Entry.after?_least es.ascending he
    refine ⟨beyond_some.2 habove, hfound, fun key hkey hb => ?_⟩
    obtain ⟨d, hd, rfl⟩ := contains_iff.1 hkey
    exact hleast d hd (beyond_some.1 hb)

end Entries

end ScriptMachine
