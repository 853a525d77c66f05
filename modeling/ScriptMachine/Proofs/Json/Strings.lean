import ScriptMachine.Json.Reading
import ScriptMachine.Json.Writing

/-!
# Stored text reads back

A character of a stored string stands for itself, as a named escape, or as a
numbered one when it is a control. The reader takes each of the three spellings
back to the character it came from, so it takes the body of a string back to the
string and stops behind the closing quote.
-/

set_option autoImplicit false

namespace ScriptMachine.Json
open Quoting

theorem toList_stored (s : String) :
    (stored s).toList = '"' :: (s.toList.flatMap fun (c : Char) => (storedChar c).toList) ++ ['"'] := by
  simp [stored, List.flatMap_map]

/-! ## One character -/

/-- The four digits of a control character. -/
theorem control_digits : ∀ n : Fin 32,
    (hexPadded 4 n.1).toList = ['0', '0', if n.1 < 16 then '0' else '1', Nat.digitChar (n.1 % 16)] ∧
      hexDigit? (Nat.digitChar (n.1 % 16)) = some (n.1 % 16) := by
  decide

theorem unit?_control {n : Nat} (h : n < 0x20) (rest : List Char) :
    unit? ((hexPadded 4 n).toList ++ rest) = some (n, rest) := by
  have hdigits : (hexPadded 4 n).toList =
      ['0', '0', if n < 16 then '0' else '1', Nat.digitChar (n % 16)] := (control_digits ⟨n, h⟩).1
  have hlast : hexDigit? (Nat.digitChar (n % 16)) = some (n % 16) := (control_digits ⟨n, h⟩).2
  have h0 : hexDigit? '0' = some 0 := by decide
  have h1 : hexDigit? '1' = some 1 := by decide
  rw [hdigits]
  by_cases hn : n < 16
  · have hm : n % 16 = n := Nat.mod_eq_of_lt hn
    rw [hm] at hlast
    simp [unit?, hn, h0, hm, hlast]
  · have hm : 16 + n % 16 = n := by omega
    simp [unit?, hn, h0, h1, hlast, hm]

/-- The three spellings of a character. -/
theorem storedChar_cases (c : Char) :
    (∃ e, e ≠ 'u' ∧ simpleEscape? e = some c ∧ (storedChar c).toList = ['\\', e]) ∨
    (c.toNat < 0x20 ∧ (storedChar c).toList = '\\' :: 'u' :: (hexPadded 4 c.toNat).toList) ∨
    (c ≠ '"' ∧ c ≠ '\\' ∧ ¬ c.toNat < 0x20 ∧ (storedChar c).toList = [c]) := by
  unfold storedChar
  split
  · next h => subst h; exact .inl ⟨'"', by decide, rfl, rfl⟩
  split
  · next h => subst h; exact .inl ⟨'\\', by decide, rfl, rfl⟩
  split
  · next h => subst h; exact .inl ⟨'b', by decide, rfl, rfl⟩
  split
  · next h => subst h; exact .inl ⟨'f', by decide, rfl, rfl⟩
  split
  · next h => subst h; exact .inl ⟨'n', by decide, rfl, rfl⟩
  split
  · next h => subst h; exact .inl ⟨'r', by decide, rfl, rfl⟩
  split
  · next h => subst h; exact .inl ⟨'t', by decide, rfl, rfl⟩
  split
  · next h => exact .inr (.inl ⟨h, by simp⟩)
  · next hquote hslash _ _ _ _ _ hlow => exact .inr (.inr ⟨hquote, hslash, hlow, by simp⟩)

/-- A character reads back from its spelling, whatever follows. -/
theorem pieces?_storedChar (fuel : Nat) (c : Char) (rest : List Char) :
    pieces? (fuel + 1) ((storedChar c).toList ++ rest) =
      (pieces? fuel rest).map fun (p : List Piece × List Char) => (.char c :: p.1, p.2) := by
  rcases storedChar_cases c with ⟨e, hu, he, hspell⟩ | ⟨hlow, hspell⟩ | ⟨hquote, hslash, hlow, hspell⟩
  · rw [hspell]
    cases h : pieces? fuel rest <;> simp [pieces?, he, h]
  · have hunit : Piece.ofUnit c.toNat = .char c := by
      have : ¬ (0xD800 ≤ c.toNat ∧ c.toNat ≤ 0xDFFF) := by omega
      simp [Piece.ofUnit, this]
    rw [hspell]
    cases h : pieces? fuel rest <;> simp [pieces?, unit?_control hlow, hunit, h]
  · rw [hspell]
    cases h : pieces? fuel rest <;> simp [pieces?, hquote, hslash, hlow, h]

/-! ## A whole string -/

theorem storedChar_ne_nil (c : Char) : 0 < (storedChar c).toList.length := by
  rcases storedChar_cases c with ⟨e, -, -, hspell⟩ | ⟨-, hspell⟩ | ⟨-, -, -, hspell⟩ <;>
    simp [hspell]

theorem length_le_body (cs : List Char) :
    cs.length ≤ (cs.flatMap fun (c : Char) => (storedChar c).toList).length := by
  induction cs with
  | nil => simp
  | cons c cs ih =>
    have := storedChar_ne_nil c
    simp only [List.length_cons, List.flatMap_cons, List.length_append]
    omega

theorem pieces?_body {fuel : Nat} (cs rest : List Char) (h : cs.length < fuel) :
    pieces? fuel ((cs.flatMap fun (c : Char) => (storedChar c).toList) ++ '"' :: rest) =
      some (cs.map .char, rest) := by
  induction cs generalizing fuel with
  | nil =>
    obtain ⟨n, rfl⟩ := Nat.exists_eq_succ_of_ne_zero (Nat.ne_of_gt h)
    simp [pieces?]
  | cons c cs ih =>
    obtain ⟨n, rfl⟩ := Nat.exists_eq_succ_of_ne_zero (Nat.ne_zero_of_lt h)
    rw [List.flatMap_cons, List.append_assoc, pieces?_storedChar, ih (by simpa using h)]
    simp

theorem joinPieces_map_char (cs : List Char) : joinPieces (cs.map .char) = some cs := by
  induction cs with
  | nil => rfl
  | cons c cs ih => simp [joinPieces, ih]

/-- The reader takes a stored string, from behind its opening quote, back to the
string. -/
theorem string?_stored (s : String) (rest : List Char) :
    string? ((s.toList.flatMap fun (c : Char) => (storedChar c).toList) ++ '"' :: rest) =
      some (some s, rest) := by
  have hfuel := length_le_body s.toList
  rw [string?, pieces?_body s.toList rest (by simp only [List.length_append]; omega)]
  simp only [Option.map_some, joinPieces_map_char, String.ofList_toList]

end ScriptMachine.Json
