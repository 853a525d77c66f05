import ScriptMachine.Proofs.Builder.Parts

/-!
# The table of literals

A function keeps each of its constants once. The table only grows, and the index beside it
leads from what tells constants apart to their places, so that a constant has the place of
its first request for good. A full table still answers for what is in it.
-/

set_option autoImplicit false

namespace ScriptMachine

/-! ## Literals that share a place -/

/-- The table has one place for both: floats are the same by their bits, so a zero is
another than its negative, and not a number is itself. -/
inductive Literal.Alike : Literal → Literal → Prop
  | null : Alike .null .null
  | integer (n : Int64) : Alike (.integer n) (.integer n)
  | float {x y : Float} (hx : x.toBits = y.toBits) : Alike (.float x) (.float y)
  | complex {x y z w : Float} (hre : x.toBits = z.toBits) (him : y.toBits = w.toBits) :
    Alike (.complex x y) (.complex z w)
  | bool (b : Bool) : Alike (.bool b) (.bool b)
  | string (s : String) : Alike (.string s) (.string s)
  | space (s : Space) : Alike (.space s) (.space s)

example : (Literal.float 0.0).key ≠ (Literal.float (-0.0)).key ∧
    (Literal.integer 1).key ≠ (Literal.float 1.0).key ∧
    (Literal.float (0.0 / 0.0)).key = (Literal.float (0.0 / 0.0)).key := by
  decide

namespace Draft

variable {nested : Bool} {d d' : Draft} {l : Literal} {i : Nat}

/-! ## The index -/

/-- The index leads from each key to the entry that has it, and nowhere else. -/
structure Indexed (d : Draft) : Prop where
  index : ∀ (k : LiteralKey) (i : Nat),
    d.literalIndex[k]? = some i ↔ ∃ l, d.literals[i]? = some l ∧ l.key = k
  limit : d.literals.size ≤ maxLiterals

/-- No entry is like the literal. -/
def Lacks (d : Draft) (l : Literal) : Prop :=
  ∀ (i : Nat) (m : Literal), d.literals[i]? = some m → m.key ≠ l.key

/-- The draft with a further entry. -/
def enter (d : Draft) (l : Literal) : Draft :=
  { d with
    literals := d.literals.push l
    literalIndex := d.literalIndex.insert l.key d.literals.size }

namespace Indexed

theorem start (name source : String) : Indexed { name, source } where
  index := by simp
  limit := Nat.zero_le _

/-- An entry with the key of another is that entry. -/
theorem unique (hd : d.Indexed) {j : Nat} {m : Literal} (hl : d.literals[i]? = some l)
    (hm : d.literals[j]? = some m) (hkey : l.key = m.key) : i = j := by
  have hi := (hd.index m.key i).2 ⟨l, hl, hkey⟩
  rw [(hd.index m.key j).2 ⟨m, hm, rfl⟩] at hi
  exact (Option.some.inj hi).symm

/-- A request finds the entry that is there, or makes one, or is refused for want of room. -/
theorem literal_cases (hd : d.Indexed) (l : Literal) :
    (∃ (i : Nat) (m : Literal), d.literals[i]? = some m ∧ m.key = l.key ∧
        d.literal l = (.ok i, d)) ∨
      (d.Lacks l ∧ d.literals.size < maxLiterals ∧
        d.literal l = (.ok d.literals.size, d.enter l)) ∨
      (d.Lacks l ∧ d.literals.size = maxLiterals ∧
        d.literal l = (.error .tooManyLiterals, d)) := by
  unfold Draft.literal
  cases hi : d.literalIndex[l.key]? with
  | some i =>
    obtain ⟨m, hm, hkey⟩ := (hd.index l.key i).1 hi
    exact .inl ⟨i, m, hm, hkey, rfl⟩
  | none =>
    have hlacks : d.Lacks l := by
      intro j m hm hkey
      have hj := (hd.index l.key j).2 ⟨m, hm, hkey⟩
      rw [hi] at hj
      cases hj
    dsimp only
    split
    · rename_i hfull
      exact .inr (.inr ⟨hlacks, Nat.le_antisymm hd.limit hfull, rfl⟩)
    · rename_i hroom
      exact .inr (.inl ⟨hlacks, Nat.lt_of_not_le hroom, rfl⟩)

theorem enter (hd : d.Indexed) (hnew : d.Lacks l) (hroom : d.literals.size < maxLiterals) :
    (d.enter l).Indexed where
  index := by
    intro k i
    have hrow : (d.enter l).literals[i]? = if i = d.literals.size then some l else d.literals[i]? :=
      Array.getElem?_push
    have hplace : (d.enter l).literalIndex[k]? =
        if l.key = k then some d.literals.size else d.literalIndex[k]? := by
      simp only [Draft.enter, Std.HashMap.getElem?_insert, beq_iff_eq]
    rw [hrow, hplace]
    by_cases hk : l.key = k
    · subst hk
      rw [if_pos rfl, Option.some.injEq]
      split
      · rename_i hi
        exact iff_of_true hi.symm ⟨l, rfl, rfl⟩
      · rename_i hi
        exact iff_of_false (Ne.symm hi) fun ⟨m, hm, hkey⟩ => hnew i m hm hkey
    · rw [if_neg hk, hd.index]
      split
      · rename_i hi
        have hbeyond : d.literals[i]? = none := Array.getElem?_eq_none (Nat.le_of_eq hi.symm)
        refine iff_of_false ?_ ?_
        · rintro ⟨m, hm, -⟩
          rw [hbeyond] at hm
          cases hm
        · rintro ⟨m, hm, hkey⟩
          cases hm
          exact hk hkey
      · rfl
  limit := by
    rw [Draft.enter, Array.size_push]
    exact hroom

/-! ## Operations -/

theorem of_table (hd : d.Indexed) (hl : d'.literals = d.literals)
    (hi : d'.literalIndex = d.literalIndex) : d'.Indexed where
  index := by rw [hl, hi]; exact hd.index
  limit := hl ▸ hd.limit

theorem literal (hd : d.Indexed) (l : Literal) : (d.literal l).2.Indexed := by
  rcases hd.literal_cases l with ⟨i, m, -, -, heq⟩ | ⟨hnew, hroom, heq⟩ | ⟨-, -, heq⟩ <;> rw [heq]
  · exact hd
  · exact hd.enter hnew hroom
  · exact hd

theorem step (hd : d.Indexed) (o : Op) : (d.step nested o).Indexed := by
  by_cases hp : o.part = .literals
  · cases o with
    | literal l => exact hd.literal l
    | _ => cases hp
  · obtain ⟨hl, hi⟩ := (confined_step nested d o).literals hp
    exact hd.of_table hl hi

theorem run (hd : d.Indexed) (ops : List Op) : (d.run nested ops).Indexed := by
  induction ops generalizing d with
  | nil => exact hd
  | cons o ops ih => exact ih (hd.step o)

end Indexed

/-! ## Entries stay -/

/-- The answer to a request names an entry for the literal. -/
theorem Indexed.answered (hd : d.Indexed) (h : (d.literal l).1 = .ok i) :
    ∃ m, (d.literal l).2.literals[i]? = some m ∧ m.key = l.key := by
  rcases hd.literal_cases l with ⟨j, m, hm, hkey, heq⟩ | ⟨-, -, heq⟩ | ⟨-, -, heq⟩ <;>
    rw [heq] at h ⊢ <;> cases h
  · exact ⟨m, hm, hkey⟩
  · exact ⟨l, Array.getElem?_push_size, rfl⟩

/-- A request for what has an entry answers with its place. -/
theorem Indexed.found (hd : d.Indexed) {m : Literal} (hm : d.literals[i]? = some m)
    (hkey : m.key = l.key) : d.literal l = (.ok i, d) := by
  rcases hd.literal_cases l with ⟨j, n, hn, hnkey, heq⟩ | ⟨hnew, -, -⟩ | ⟨hnew, -, -⟩
  · rw [hd.unique hm hn (hkey.trans hnkey.symm), heq]
  · exact absurd hkey (hnew i m hm)
  · exact absurd hkey (hnew i m hm)

end Draft

end ScriptMachine
