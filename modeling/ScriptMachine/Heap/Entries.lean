import ScriptMachine.Value

/-!
# Entries of a dict

Entries are kept in ascending order of their keys, by code points, so that a
walk can go on from any key, also one that is no longer there.
-/

set_option autoImplicit false

namespace ScriptMachine

abbrev Entry : Type := Text × Value

/-- Every key lies below the keys after it. -/
def Ascending (es : List Entry) : Prop :=
  es.Pairwise fun (a b : Entry) => a.1.chars < b.1.chars

namespace Entry

def find? (key : String) : List Entry → Option Value
  | [] => none
  | (k, v) :: rest => if k.chars = key then some v else find? key rest

/-- Overwrites the value under a key, keeping the key object that is there, or
enters the key at its place. -/
def insert (key : Text) (v : Value) : List Entry → List Entry
  | [] => [(key, v)]
  | (k, w) :: rest =>
    if k.chars = key.chars then (k, v) :: rest
    else if key.chars < k.chars then (key, v) :: (k, w) :: rest
    else (k, w) :: insert key v rest

def erase (key : String) : List Entry → List Entry
  | [] => []
  | (k, v) :: rest => if k.chars = key then rest else (k, v) :: erase key rest

/-- The first entry above a key. -/
def after? (key : String) : List Entry → Option Entry
  | [] => none
  | (k, v) :: rest => if key < k.chars then some (k, v) else after? key rest

theorem mem_insert {key : Text} {v : Value} {es : List Entry} {e : Entry}
    (h : e ∈ insert key v es) : e.1.chars = key.chars ∨ e ∈ es := by
  induction es with
  | nil => simp [insert] at h; simp [h]
  | cons a rest ih =>
    obtain ⟨k, w⟩ := a
    simp only [insert] at h
    split at h
    · rename_i hk
      rcases List.mem_cons.1 h with rfl | h
      · exact .inl hk
      · exact .inr (List.mem_cons_of_mem _ h)
    · split at h
      · rcases List.mem_cons.1 h with rfl | h
        · exact .inl rfl
        · exact .inr h
      · rcases List.mem_cons.1 h with rfl | h
        · exact .inr List.mem_cons_self
        · exact (ih h).imp id (List.mem_cons_of_mem _)

theorem ascending_insert {key : Text} {v : Value} {es : List Entry}
    (h : Ascending es) : Ascending (insert key v es) := by
  induction es with
  | nil => exact List.pairwise_singleton _ _
  | cons a rest ih =>
    obtain ⟨k, w⟩ := a
    obtain ⟨hk, hr⟩ := List.pairwise_cons.1 h
    simp only [insert]
    split
    · exact List.pairwise_cons.2 ⟨hk, hr⟩
    · rename_i hne
      split
      · rename_i hlt
        refine List.pairwise_cons.2 ⟨?_, h⟩
        intro e he
        rcases List.mem_cons.1 he with rfl | he
        · exact hlt
        · exact String.lt_trans hlt (hk e he)
      · rename_i hge
        refine List.pairwise_cons.2 ⟨?_, ih hr⟩
        intro e he
        rcases mem_insert he with heq | he
        · show k.chars < e.1.chars
          rw [heq]
          exact (Std.lt_trichotomy k.chars key.chars).resolve_right
            (fun o => o.elim hne hge)
        · exact hk e he

theorem erase_sublist (key : String) (es : List Entry) : (erase key es).Sublist es := by
  induction es with
  | nil => exact .slnil
  | cons a rest ih =>
    obtain ⟨k, w⟩ := a
    simp only [erase]
    split
    · exact List.sublist_cons_self _ _
    · exact ih.cons_cons _

end Entry

/-- The entries of a dict in their order. -/
structure Entries where
  list : List Entry
  ascending : Ascending list

namespace Entries

def empty : Entries := ⟨[], List.Pairwise.nil⟩

instance : Inhabited Entries := ⟨empty⟩

def size (es : Entries) : Nat := es.list.length

def find? (es : Entries) (key : String) : Option Value := Entry.find? key es.list

def contains (es : Entries) (key : String) : Bool := (es.find? key).isSome

/-- The key object under a key. -/
def key? (es : Entries) (key : String) : Option Text :=
  (es.list.find? fun (e : Entry) => e.1.chars == key).map (·.1)

def insert (es : Entries) (key : Text) (v : Value) : Entries :=
  ⟨Entry.insert key v es.list, Entry.ascending_insert es.ascending⟩

def erase (es : Entries) (key : String) : Entries :=
  ⟨Entry.erase key es.list, es.ascending.sublist (Entry.erase_sublist key es.list)⟩

/-- The first entry above a key, or the first of all. -/
def next? (es : Entries) : Option String → Option Entry
  | none => es.list.head?
  | some key => Entry.after? key es.list

def keys (es : Entries) : List Text := es.list.map (·.1)

end Entries

end ScriptMachine
