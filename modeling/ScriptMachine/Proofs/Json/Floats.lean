import ScriptMachine.Proofs.Json.Numbers

/-!
# Spelling floats

The text of a finite value is a number in the grammar of the reader: its digits
do not begin with zero, and the point stands between digits.
-/

set_option autoImplicit false

namespace ScriptMachine.Decimal
open Binary Json

/-! ## Digits of a magnitude -/

theorem strip_digits_ne_zero (fuel : Nat) {d : Scientific} (h : d.digits ≠ 0) :
    (d.strip fuel).digits ≠ 0 := by
  induction fuel generalizing d with
  | zero => exact h
  | succ n ih =>
    unfold Scientific.strip
    split
    · next hc =>
      simp only [Bool.and_eq_true, beq_iff_eq] at hc
      exact ih (d := ⟨d.digits / 10, d.exponent + 1⟩) (by show d.digits / 10 ≠ 0; omega)
    · exact h

theorem onGrid_digits_ne_zero {tie : Tie} {x : Magnitude} {g : Int} {d : Scientific}
    (h : onGrid tie x g = some d) : d.digits ≠ 0 := by
  unfold onGrid at h
  simp only at h
  split at h
  · next hlow _ =>
    simp only [Bool.and_eq_true, bne_iff_ne] at hlow
    cases h
    exact hlow.1
  · cases h
    exact Nat.succ_ne_zero _
  · cases h
  · next hlow _ =>
    simp only [Bool.and_eq_true, bne_iff_ne] at hlow
    have hhigh : gridFloor x g + 1 ≠ 0 := Nat.succ_ne_zero _
    split at h
    · cases h; exact hlow.1
    · cases h; exact hhigh
    · split at h
      · cases h; exact hhigh
      · cases h
        split
        · exact hlow.1
        · exact hhigh

theorem exact_digits_ne_zero {x : Magnitude} (h : x.m ≠ 0) : (exact x).digits ≠ 0 := by
  unfold Decimal.exact
  split
  · exact Nat.mul_ne_zero h (Nat.ne_of_gt (Nat.pow_pos (by decide)))
  · exact Nat.mul_ne_zero h (Nat.ne_of_gt (Nat.pow_pos (by decide)))

/-- A magnitude other than zero has a digit other than zero. -/
theorem shortest_digits_ne_zero (tie : Tie) {x : Magnitude} (h : x.m ≠ 0) :
    (shortest tie x).digits ≠ 0 := by
  unfold shortest
  apply strip_digits_ne_zero
  cases hfound : (List.range 17).findSome? fun (i : Nat) => onGrid tie x (scaleOf x - (i + 1)) with
  | none => exact exact_digits_ne_zero h
  | some d =>
    obtain ⟨i, -, hgrid⟩ := List.exists_of_findSome?_eq_some hfound
    exact onGrid_digits_ne_zero hgrid

/-! ## The two notations -/

/-- A number without a sign. -/
def Unsigned (cs : List Char) : Prop :=
  ∃ whole fraction exponent, cs = whole ++ (fraction ++ exponent) ∧
    Whole whole ∧ Fraction fraction ∧ Exponent exponent

theorem digits_append {ds es : List Char} (hds : Digits ds) (hes : ∀ c ∈ es, c.isDigit = true) :
    Digits (ds ++ es) := by
  refine ⟨by simp [hds.1], fun c hc => ?_⟩
  rcases List.mem_append.1 hc with hc | hc
  · exact hds.2 c hc
  · exact hes c hc

theorem isDigit_zeros {n : Nat} {c : Char} (hc : c ∈ List.replicate n '0') : c.isDigit = true := by
  rw [(List.mem_replicate.1 hc).2]
  decide

theorem whole_of_head {ds : List Char} (hds : Digits ds) (hhead : ds.head? ≠ some '0') : Whole ds :=
  ⟨hds, fun h => absurd h hhead⟩

theorem whole_zero : Whole ['0'] :=
  ⟨⟨by simp, fun c hc => List.mem_singleton.1 hc ▸ (by decide)⟩, fun _ => rfl⟩

theorem unsigned_positional {ds : List Char} (hds : Digits ds) (hhead : ds.head? ≠ some '0')
    (exponent : Int) : Unsigned (positional true ds exponent).toList := by
  unfold positional
  simp only
  split
  · refine ⟨ds ++ List.replicate exponent.toNat '0', ['.', '0'], [], by simp [zeros], ?_,
      .inr ⟨['0'], rfl, whole_zero.1⟩, .inl rfl⟩
    apply whole_of_head (digits_append hds fun c hc => isDigit_zeros hc)
    obtain ⟨d, more, rfl, -⟩ := hds.head
    simpa using hhead
  split
  · next hneg hpoint =>
    -- The point falls inside the digits: some stand before it and some behind.
    obtain ⟨k, hk⟩ : ∃ k : Nat, (ds.length : Int) + exponent = k := ⟨_, (Int.toNat_of_nonneg (by omega)).symm⟩
    have hlt : k < ds.length := by omega
    have hpos : 0 < k := by omega
    rw [hk, Int.toNat_natCast]
    refine ⟨ds.take k, '.' :: ds.drop k, [], by simp, ?_, .inr ⟨ds.drop k, rfl, ?_, ?_⟩, .inl rfl⟩
    · apply whole_of_head
      · refine ⟨?_, fun c hc => hds.2 c (List.mem_of_mem_take hc)⟩
        simp only [ne_eq, List.take_eq_nil_iff, not_or]
        exact ⟨by omega, hds.1⟩
      · rw [List.head?_take, if_neg (by omega)]
        exact hhead
    · simp only [ne_eq, List.drop_eq_nil_iff]
      omega
    · exact fun c hc => hds.2 c (List.mem_of_mem_drop hc)
  · refine ⟨['0'], '.' :: (List.replicate (-(ds.length + exponent)).toNat '0' ++ ds), [],
      by simp [zeros], whole_zero, .inr ⟨_, rfl, by simp [hds.1], fun c hc => ?_⟩, .inl rfl⟩
    rcases List.mem_append.1 hc with hc | hc
    · exact isDigit_zeros hc
    · exact hds.2 c hc

theorem unsigned_scientific {ds : List Char} (hds : Digits ds) (hhead : ds.head? ≠ some '0')
    (leading : Int) : Unsigned (scientific stored ds leading).toList := by
  obtain ⟨d, more, rfl, hd⟩ := hds.head
  have hexp : Exponent ('e' :: (if leading < 0 then '-' else '+') :: Nat.toDigits 10 leading.natAbs) := by
    refine .inr ⟨_, _, rfl, ?_, digits_toDigits _⟩
    split <;> simp
  have hwhole : Whole [d] := ⟨⟨by simp, by simpa using hd⟩, fun _ => rfl⟩
  cases more with
  | nil =>
    refine ⟨[d], [], _, ?_, hwhole, .inl rfl, hexp⟩
    simp [scientific, stored, digitText, apply_ite String.toList]
    split <;> rfl
  | cons e more =>
    refine ⟨[d], '.' :: e :: more, _, ?_, hwhole,
      .inr ⟨_, rfl, by simp, fun c hc => hds.2 c (List.mem_cons_of_mem _ hc)⟩, hexp⟩
    simp [scientific, stored, digitText, apply_ite String.toList]
    split <;> rfl

/-- The text of a magnitude is a number without a sign. -/
theorem unsigned_magnitude (x : Magnitude) : Unsigned (stored.magnitude x).toList := by
  unfold Layout.magnitude
  split
  · exact ⟨['0'], ['.', '0'], [], rfl, whole_zero, .inr ⟨['0'], rfl, whole_zero.1⟩, .inl rfl⟩
  · next hm =>
    have hne : (shortest stored.tie x).digits ≠ 0 := shortest_digits_ne_zero _ (by simpa using hm)
    generalize shortest stored.tie x = d at hne
    have hds := digits_toDigits d.digits
    have hhead := head_toDigits hne
    have hboth (plain : Bool) (leading : Int) : Unsigned (if plain = true then
        positional stored.pointZero (Nat.toDigits 10 d.digits) d.exponent
        else scientific stored (Nat.toDigits 10 d.digits) leading).toList := by
      cases plain
      · exact unsigned_scientific hds hhead leading
      · exact unsigned_positional hds hhead d.exponent
    exact hboth _ _

/-- A finite value is spelled as a number. -/
theorem numeral_render {x : Float} (h : isFinite x = true) : Numeral (stored.render x).toList := by
  obtain ⟨hnan, hinf⟩ := Bool.or_eq_false_iff.1 (Bool.not_eq_eq_eq_not.1 h)
  obtain ⟨whole, fraction, exponent, heq, hwhole, hfraction, hexponent⟩ :=
    unsigned_magnitude (Magnitude.ofFloat x)
  refine ⟨if signBit x then ['-'] else [], whole, fraction, exponent, ?_, ?_, hwhole, hfraction,
    hexponent⟩
  · rw [← heq]
    rw [Layout.render, if_neg (ne_true_of_eq_false hnan),
      if_neg (c := x.isInf = true) (ne_true_of_eq_false hinf)]
    cases hsign : signBit x <;> simp
  · split <;> simp

theorem numeral_digitText (n : Nat) : Numeral (digitText n).toList :=
  ⟨[], Nat.toDigits 10 n, [], [], by simp [digitText], .inl rfl, whole_toDigits n, .inl rfl, .inl rfl⟩

theorem numeral_integer (n : Int64) : Numeral (integer n).toList := by
  refine ⟨if n.toInt < 0 then ['-'] else [], Nat.toDigits 10 n.toInt.natAbs, [], [], ?_, ?_,
    whole_toDigits _, .inl rfl, .inl rfl⟩
  · simp [integer, digitText, apply_ite String.toList]
  · split <;> simp

end ScriptMachine.Decimal
