import ScriptMachine.Bytecode.Stored

/-!
# Stored numbers read back

A number is written in the grammar of the reader: a sign, a whole part without
leading zeros, and perhaps a fraction and an exponent. The reader takes such a
spelling in full wherever no more of a number follows, and an integer keeps its
value.
-/

set_option autoImplicit false

namespace ScriptMachine.Json

/-! ## Spellings -/

/-- One digit or more. -/
def Digits (ds : List Char) : Prop := ds ≠ [] ∧ ∀ c ∈ ds, c.isDigit = true

/-- A whole part: digits, and no zero in front of others. -/
def Whole (ds : List Char) : Prop := Digits ds ∧ (ds.head? = some '0' → ds.length = 1)

def Fraction (cs : List Char) : Prop := cs = [] ∨ ∃ ds, cs = '.' :: ds ∧ Digits ds

def Exponent (cs : List Char) : Prop :=
  cs = [] ∨ ∃ sign ds, cs = 'e' :: sign :: ds ∧ (sign = '+' ∨ sign = '-') ∧ Digits ds

/-- The spellings that the writer uses. -/
def Numeral (cs : List Char) : Prop :=
  ∃ sign whole fraction exponent, cs = sign ++ (whole ++ (fraction ++ exponent)) ∧
    (sign = [] ∨ sign = ['-']) ∧ Whole whole ∧ Fraction fraction ∧ Exponent exponent

/-- What follows takes no part in a number in front of it. -/
def Ends (rest : List Char) : Prop :=
  ∀ c more, rest = c :: more → c.isDigit = false ∧ c ≠ '.' ∧ c ≠ 'e' ∧ c ≠ 'E'

theorem ends_nil : Ends [] := fun _ _ h => nomatch h

theorem ends_cons {c : Char} {more : List Char}
    (h : c.isDigit = false ∧ c ≠ '.' ∧ c ≠ 'e' ∧ c ≠ 'E') : Ends (c :: more) := by
  rintro _ _ ⟨⟩
  exact h

/-! ## Reading a spelling -/

/-- A run of digits stops where another character stands. -/
theorem digits?_append {ds rest : List Char} (hds : Digits ds)
    (hrest : ∀ c more, rest = c :: more → c.isDigit = false) :
    digits? (ds ++ rest) = some (ds, rest) := by
  have htake : (ds ++ rest).takeWhile Char.isDigit = ds := by
    rw [List.takeWhile_append_of_pos hds.2]
    cases rest with
    | nil => simp
    | cons c more => simp [hrest c more rfl]
  have hdrop : (ds ++ rest).dropWhile Char.isDigit = rest := by
    rw [List.dropWhile_append_of_pos hds.2]
    cases rest with
    | nil => simp
    | cons c more => simp [hrest c more rfl]
  unfold digits?
  rw [htake, hdrop]
  cases ds with
  | nil => exact absurd rfl hds.1
  | cons d more => rfl

theorem wholePart?_append {ds rest : List Char} (hds : Whole ds)
    (hrest : ∀ c more, rest = c :: more → c.isDigit = false) :
    wholePart? (ds ++ rest) = some (ds, rest) := by
  have hzero : ¬ (ds.head? = some '0' ∧ ds.length ≠ 1) := fun ⟨h0, h1⟩ => h1 (hds.2 h0)
  simp [wholePart?, digits?_append hds.1 hrest, hzero]

theorem fraction?_append {cs rest : List Char} (hcs : Fraction cs)
    (hrest : ∀ c more, rest = c :: more → c.isDigit = false ∧ c ≠ '.') :
    fraction? (cs ++ rest) = some (cs, rest) := by
  rcases hcs with rfl | ⟨ds, rfl, hds⟩
  · cases rest with
    | nil => rfl
    | cons c more => simp [fraction?, (hrest c more rfl).2]
  · simp [fraction?, digits?_append hds fun c more h => (hrest c more h).1]

theorem exponent?_append {cs rest : List Char} (hcs : Exponent cs) (hrest : Ends rest) :
    exponent? (cs ++ rest) = some (cs, rest) := by
  rcases hcs with rfl | ⟨sign, ds, rfl, hsign, hds⟩
  · cases rest with
    | nil => rfl
    | cons c more =>
      obtain ⟨-, -, he, hE⟩ := hrest c more rfl
      simp [exponent?, he, hE]
  · simp [exponent?, hsign, digits?_append hds fun c more h => (hrest c more h).1]

theorem Exponent.follows {cs rest : List Char} (hcs : Exponent cs) (hrest : Ends rest) :
    ∀ c more, cs ++ rest = c :: more → c.isDigit = false ∧ c ≠ '.' := by
  rcases hcs with rfl | ⟨sign, ds, rfl, -, -⟩
  · intro c more h
    obtain ⟨hdigit, hpoint, -, -⟩ := hrest c more h
    exact ⟨hdigit, hpoint⟩
  · rintro _ _ ⟨⟩
    decide

theorem Fraction.follows {cs rest : List Char} (hcs : Fraction cs)
    (hrest : ∀ c more, rest = c :: more → c.isDigit = false ∧ c ≠ '.') :
    ∀ c more, cs ++ rest = c :: more → c.isDigit = false := by
  rcases hcs with rfl | ⟨ds, rfl, -⟩
  · exact fun c more h => (hrest c more h).1
  · rintro _ _ ⟨⟩
    decide

theorem Digits.head {ds : List Char} (h : Digits ds) :
    ∃ d more, ds = d :: more ∧ d.isDigit = true := by
  cases ds with
  | nil => exact absurd rfl h.1
  | cons d more => exact ⟨d, more, rfl, h.2 d List.mem_cons_self⟩

/-- The reader takes a written number in full and leaves what follows. -/
theorem number?_append {cs rest : List Char} (hcs : Numeral cs) (hrest : Ends rest) :
    number? (cs ++ rest) = some (String.ofList cs, rest) := by
  obtain ⟨sign, whole, fraction, exponent, rfl, hsign, hwhole, hfraction, hexponent⟩ := hcs
  have hafter := hexponent.follows hrest
  have hw := wholePart?_append hwhole (hfraction.follows hafter)
  have hf := fraction?_append hfraction hafter
  have he := exponent?_append hexponent hrest
  rcases hsign with rfl | rfl
  · obtain ⟨d, more, rfl, hd⟩ := hwhole.1.head
    have hminus : d ≠ '-' := by rintro rfl; exact absurd hd (by decide)
    rw [List.cons_append] at hw
    simp [number?, hminus, hw, hf, he, String.append_assoc]
  · simp [number?, hw, hf, he]

/-! ## Integers -/

theorem digits_toDigits (n : Nat) : Digits (Nat.toDigits 10 n) :=
  ⟨Nat.toDigits_ne_nil, fun _ hc => Nat.isDigit_of_mem_toDigits (by decide) (by decide) hc⟩

/-- The digits of a positive number do not begin with zero. -/
theorem head_toDigits {n : Nat} (hn : n ≠ 0) : (Nat.toDigits 10 n).head? ≠ some '0' := by
  induction n using Nat.strongRecOn with
  | ind n ih =>
    rw [Nat.toDigits_eq_if (by decide)]
    split
    · simp [hn]
    · have hq : n / 10 ≠ 0 := by omega
      rw [List.head?_append]
      obtain ⟨d, more, hds, -⟩ := (digits_toDigits (n / 10)).head
      have := ih (n / 10) (by omega) hq
      rw [hds] at this ⊢
      simpa using this

theorem whole_toDigits (n : Nat) : Whole (Nat.toDigits 10 n) := by
  refine ⟨digits_toDigits n, fun h => ?_⟩
  by_cases hn : n = 0
  · subst hn
    rfl
  · exact absurd h (head_toDigits hn)

theorem le_ofDigitChars (ds : List Char) (acc : Nat) : acc ≤ Nat.ofDigitChars 10 ds acc := by
  rw [Nat.ofDigitChars_eq_ofDigitChars_zero]
  have hpow : 0 < 10 ^ ds.length := Nat.pow_pos (by decide)
  exact Nat.le_trans (Nat.le_mul_of_pos_left acc hpow) (Nat.le_add_right _ _)

/-- Digits are gathered in full while their value fits a word. -/
theorem gather_digits {ds : List Char} (hds : ∀ c ∈ ds, c.isDigit = true) {acc taken : Nat}
    (hfit : Nat.ofDigitChars 10 ds acc ≤ maxWord) :
    gather acc taken ds = (Nat.ofDigitChars 10 ds acc, taken + ds.length, []) := by
  induction ds generalizing acc taken with
  | nil => simp [gather]
  | cons d ds ih =>
    have hd : d.isDigit = true := hds d List.mem_cons_self
    have hnext : acc * 10 + digitValue d = 10 * acc + (d.toNat - '0'.toNat) := by
      rw [digitValue, Nat.mul_comm]
    rw [Nat.ofDigitChars_cons, ← hnext] at hfit ⊢
    have hstep : acc * 10 + digitValue d ≤ maxWord := Nat.le_trans (le_ofDigitChars ds _) hfit
    rw [gather, if_pos (by simp [hd, hstep]), ih (fun c hc => hds c (List.mem_cons_of_mem _ hc)) hfit]
    simp
    omega

theorem gather_toDigits {n : Nat} (h : n ≤ maxWord) :
    gather 0 0 (Nat.toDigits 10 n) = (n, (Nat.toDigits 10 n).length, []) := by
  have hvalue : Nat.ofDigitChars 10 (Nat.toDigits 10 n) 0 = n :=
    Nat.ofDigitChars_toDigits (by decide) (by decide)
  rw [gather_digits (digits_toDigits n).2 (by rwa [hvalue]), hvalue, Nat.zero_add]

/-- A natural number that fits a word keeps its value. -/
theorem ofLexeme?_digitText {n : Nat} (h : n ≤ maxWord) :
    Number.ofLexeme? (Decimal.digitText n) = some (.natural n) := by
  obtain ⟨d, more, hds, hd⟩ := (digits_toDigits n).head
  have hminus : d ≠ '-' := by rintro rfl; exact absurd hd (by decide)
  have hg := gather_toDigits h
  rw [hds] at hg
  simp [Number.ofLexeme?, Decimal.digitText, hds, hminus, hg]

/-- So does a negative one whose magnitude is at most `2^63`. -/
theorem ofLexeme?_negative {n : Nat} (hpos : n ≠ 0) (h : n ≤ Nat.pow 2 63) :
    Number.ofLexeme? ("-" ++ Decimal.digitText n) = some (.negative n) := by
  have hg := gather_toDigits (n := n) (Nat.le_trans h (by decide))
  have hsmall : ¬ (n = 0 ∨ Nat.pow 2 63 < n) := by
    rintro (h0 | h1)
    · exact hpos h0
    · exact Nat.not_lt.2 h h1
  simp [Number.ofLexeme?, Decimal.digitText, hg]
  simpa using hsmall

end ScriptMachine.Json
