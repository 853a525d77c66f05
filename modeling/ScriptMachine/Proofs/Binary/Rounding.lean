import Mathlib
import ScriptMachine.Decimal.Layout

/-!
# Finite results

When operations on finite binary64 values have finite results. A value is bounded
by the exponent of its last place: rounding a mantissa and packing it keep a bound
on the exponent, and a value under such a bound is finite. Negating a value keeps
the bound, and dividing by a value of at least one keeps it up to a margin; a
product is finite unless it is infinite, so it is never a NaN.
-/

set_option autoImplicit false

namespace ScriptMachine.Binary
open Float.Model

/-- A finite value whose unit in the last place is at most `2^b`. -/
def FiniteUnder (b : Int) : UnpackedFloat → Prop
  | .zero _ => True
  | .finite _ m e _ => m < 2 ^ 53 ∧ e ≤ b
  | _ => False

theorem FiniteUnder.mono {b c : Int} {f : UnpackedFloat} (h : FiniteUnder b f) (hbc : b ≤ c) :
    FiniteUnder c f := by
  cases f with
  | zero => trivial
  | finite s m e hm => exact ⟨h.1, Int.le_trans h.2 hbc⟩
  | infinity s => exact h
  | notANumber => exact h

theorem unpack_low (s : UnpackedFloat.Sign) (mantissa : BitVec 52) {b : Int} (hb : -1074 ≤ b) :
    FiniteUnder b (UnpackedFloat.unpack Format.binary64
      (UnpackedFloat.packComponents Format.binary64 s 0#11 mantissa)) := by
  unfold UnpackedFloat.unpack
  simp only [UnpackedFloat.unpackExponent_packComponents, UnpackedFloat.unpackMantissa_packComponents]
  rw [if_neg (by decide), if_pos trivial]
  split
  · trivial
  · refine ⟨by have := mantissa.isLt; omega, ?_⟩
    simp [Format.exponentBias]
    omega

theorem unpack_normal (s : UnpackedFloat.Sign) {k : Nat} (mantissa : BitVec 52) {b : Int}
    (hb : -1074 ≤ b) (hk : k < 2047) (hkb : (k : Int) - 1075 ≤ b) :
    FiniteUnder b (UnpackedFloat.unpack Format.binary64
      (UnpackedFloat.packComponents Format.binary64 s (BitVec.ofNat 11 k) mantissa)) := by
  by_cases h0 : BitVec.ofNat 11 k = 0#11
  · rw [h0]
    exact unpack_low s mantissa hb
  · have hfull : BitVec.ofNat 11 k ≠ -1#11 := by
      intro h
      have := congrArg BitVec.toNat h
      simp at this
      omega
    unfold UnpackedFloat.unpack
    simp only [UnpackedFloat.unpackExponent_packComponents,
      UnpackedFloat.unpackMantissa_packComponents]
    rw [if_neg hfull, if_neg h0]
    refine ⟨(1#1 ++ mantissa).isLt, ?_⟩
    simp [Format.exponentBias]
    omega

/-- Packing keeps a value finite whose exponent is in range. -/
theorem unpack_pack {b : Int} (hb : -1074 ≤ b) (hmax : b ≤ 971) (s : UnpackedFloat.Sign) (m : Nat)
    {e : Int} (hm : 0 < m) (he : e ≤ b) :
    FiniteUnder b (UnpackedFloat.unpack Format.binary64
      (UnpackedFloat.pack Format.binary64 (.finite s m e hm))) := by
  unfold UnpackedFloat.pack
  simp only
  rw [if_neg (by simp [Format.exponentBias]; omega)]
  split
  · apply unpack_normal s _ hb
    · simp [Format.exponentBias]; omega
    · simp [Format.exponentBias]; omega
  · exact unpack_low s _ hb


/-- A value that is not packed as an infinity is packed as a finite one. -/
theorem unpack_pack_total (s : UnpackedFloat.Sign) (m : Nat) (e : Int) (hm : 0 < m) :
    UnpackedFloat.unpack Format.binary64 (UnpackedFloat.pack Format.binary64 (.finite s m e hm)) =
        .infinity s ∨
      FiniteUnder 971 (UnpackedFloat.unpack Format.binary64
        (UnpackedFloat.pack Format.binary64 (.finite s m e hm))) := by
  by_cases he : e ≤ 971
  · exact .inr (unpack_pack (by decide) (by decide) s m hm he)
  · left
    unfold UnpackedFloat.pack
    simp only
    rw [if_pos (by simp [Format.exponentBias]; omega)]
    cases s <;> rfl

/-! ## Rounding -/

/-- The result of rounding, before it is packed. -/
def RoundedUnder (b : Int) : UnpackedFloat → Prop
  | .zero _ => True
  | .finite _ _ e _ => e ≤ b
  | _ => False

theorem shiftRight_mantissa (em : UnpackedFloat.ExtendedMantissa) (n : Nat) :
    (em >>> n).mantissa = em.mantissa / 2 ^ n := by
  show (n.repeat UnpackedFloat.ExtendedMantissa.shiftRightOne em).mantissa = _
  induction n with
  | zero => simp [Nat.repeat]
  | succ n ih =>
    rw [Nat.repeat, UnpackedFloat.ExtendedMantissa.shiftRightOne, ih, Nat.div_div_eq_div_mul,
      Nat.pow_succ]

theorem roundedMantissa_le (em : UnpackedFloat.ExtendedMantissa) :
    em.roundedMantissa ≤ em.mantissa + 1 := by
  unfold UnpackedFloat.ExtendedMantissa.roundedMantissa
    UnpackedFloat.Accuracy.roundToNearestEven
  split <;> omega

theorem totalExponent_le {m w : Nat} (e : Int) (h : m < 2 ^ w) :
    totalExponent m e ≤ max w 1 + e := by
  unfold totalExponent
  by_cases hm : m = 0
  · have hlog : Nat.log2 m = 0 := by simp [hm]
    omega
  · have := (Nat.log2_lt hm).2 h
    omega

theorem div_two_pow_lt {m w : Nat} (k : Nat) (h : m < 2 ^ w) : m / 2 ^ k < 2 ^ (w - k) := by
  rw [Nat.div_lt_iff_lt_mul (Nat.two_pow_pos k), ← Nat.pow_add]
  exact Nat.lt_of_lt_of_le h (Nat.pow_le_pow_right (by decide) (by omega))

theorem le_roundedMantissa (em : UnpackedFloat.ExtendedMantissa) :
    em.mantissa ≤ em.roundedMantissa := by
  unfold UnpackedFloat.ExtendedMantissa.roundedMantissa
    UnpackedFloat.Accuracy.roundToNearestEven
  split <;> omega

theorem ofMantissaAndAccuracy_mantissa (m : Nat) (acc : UnpackedFloat.Accuracy) :
    (UnpackedFloat.ExtendedMantissa.ofMantissaAndAccuracy m acc).mantissa = m := by
  unfold UnpackedFloat.ExtendedMantissa.ofMantissaAndAccuracy
  split <;> rfl

/-- A mantissa that loses places and is rounded. -/
theorem roundedMantissa_lt {m w : Nat} (acc : UnpackedFloat.Accuracy) (k : Nat) (h : m < 2 ^ w) :
    ((UnpackedFloat.ExtendedMantissa.ofMantissaAndAccuracy m acc) >>> k).roundedMantissa <
      2 ^ (w - k + 1) := by
  have hround := roundedMantissa_le ((UnpackedFloat.ExtendedMantissa.ofMantissaAndAccuracy m acc) >>> k)
  rw [shiftRight_mantissa, ofMantissaAndAccuracy_mantissa] at hround
  have hdiv := div_two_pow_lt k h
  have hone : 1 ≤ 2 ^ (w - k) := Nat.one_le_two_pow
  rw [Nat.pow_succ]
  omega

/-- Rounding a mantissa of `w` places leaves at most 53 of them, or one less when
it is rounded up to the next place. -/
theorem roundWithAccuracy_under {b : Int} {w : Nat} (s : UnpackedFloat.Sign) {m : Nat} {e : Int}
    (acc : UnpackedFloat.Accuracy) (hm : m < 2 ^ w) (he : e ≤ b) (hw : w + e - 52 ≤ b)
    (hb : -1074 ≤ b) :
    RoundedUnder b (UnpackedFloat.roundWithAccuracy Format.binary64 s m e acc) := by
  unfold UnpackedFloat.roundWithAccuracy UnpackedFloat.shiftToTargetExponent
    UnpackedFloat.shiftToExponent
  simp only
  have htarget (t : Int) : Format.binary64.targetExponent t = max (t - 53) (-1074) := rfl
  rw [htarget, htarget]
  have hfirst := totalExponent_le e hm
  generalize hk : (max (totalExponent m e - 53) (-1074) - e).toNat = k
  have hsecond := totalExponent_le (e + k) (roundedMantissa_lt acc k hm)
  split
  · trivial
  · show _ ≤ b
    omega

/-- The leading 53 places of a mantissa. -/
theorem leading_places {m : Nat} (h : 2 ^ 52 ≤ m) :
    2 ^ 52 ≤ m / 2 ^ (m.log2 - 52) ∧ m / 2 ^ (m.log2 - 52) < 2 ^ 53 := by
  have hne : m ≠ 0 := by omega
  have hlog : 52 ≤ m.log2 := (Nat.le_log2 hne).2 h
  constructor
  · rw [Nat.le_div_iff_mul_le (Nat.two_pow_pos _), ← Nat.pow_add, Nat.add_sub_of_le hlog]
    exact Nat.log2_self_le hne
  · rw [Nat.div_lt_iff_lt_mul (Nat.two_pow_pos _), ← Nat.pow_add]
    have : 53 + (m.log2 - 52) = m.log2 + 1 := by omega
    rw [this]
    exact Nat.lt_log2_self

/-- Rounding a mantissa of 53 places or more leaves 53 places. -/
theorem roundWithAccuracy_places (s : UnpackedFloat.Sign) {m : Nat} {e : Int}
    (acc : UnpackedFloat.Accuracy) (hm : 2 ^ 52 ≤ m) (he : -1074 ≤ e) :
    ∃ m' e' hm', UnpackedFloat.roundWithAccuracy Format.binary64 s m e acc = .finite s m' e' hm' ∧
      2 ^ 52 ≤ m' ∧ m' < 2 ^ 53 ∧ e ≤ e' := by
  have hlog : 52 ≤ m.log2 := (Nat.le_log2 (by omega)).2 hm
  have htarget (t : Int) : Format.binary64.targetExponent t = max (t - 53) (-1074) := rfl
  unfold UnpackedFloat.roundWithAccuracy UnpackedFloat.shiftToTargetExponent
    UnpackedFloat.shiftToExponent
  simp only
  rw [htarget, htarget]
  have hshift : (max (totalExponent m e - 53) (-1074) - e).toNat = m.log2 - 52 := by
    unfold totalExponent
    omega
  rw [hshift]
  obtain ⟨hlow, hhigh⟩ := leading_places hm
  generalize hr : ((UnpackedFloat.ExtendedMantissa.ofMantissaAndAccuracy m acc) >>>
    (m.log2 - 52)).roundedMantissa = r
  have hge := le_roundedMantissa
    ((UnpackedFloat.ExtendedMantissa.ofMantissaAndAccuracy m acc) >>> (m.log2 - 52))
  have hle := roundedMantissa_le
    ((UnpackedFloat.ExtendedMantissa.ofMantissaAndAccuracy m acc) >>> (m.log2 - 52))
  rw [hr, shiftRight_mantissa, ofMantissaAndAccuracy_mantissa] at hge hle
  have hplaces : 2 ^ 52 ≤ r := by omega
  have hlog' : 52 ≤ r.log2 := (Nat.le_log2 (by omega)).2 hplaces
  have hagain : (max (totalExponent r (e + (m.log2 - 52 : Nat)) - 53) (-1074) -
      (e + (m.log2 - 52 : Nat))).toNat = r.log2 - 52 := by
    unfold totalExponent
    omega
  rw [hagain]
  obtain ⟨hlow', hhigh'⟩ := leading_places hplaces
  rw [shiftRight_mantissa, ofMantissaAndAccuracy_mantissa]
  rw [dif_neg (by omega)]
  exact ⟨_, _, Nat.lt_of_lt_of_le (by decide) hlow', rfl, hlow', hhigh', by omega⟩

/-- A rounded value packs as a finite one when its exponent is in range. -/
theorem unpack_pack_rounded {b : Int} {f : UnpackedFloat} (h : RoundedUnder b f) (hb : -1074 ≤ b)
    (hmax : b ≤ 971) :
    FiniteUnder b (UnpackedFloat.unpack Format.binary64 (UnpackedFloat.pack Format.binary64 f)) := by
  cases f with
  | zero s => exact unpack_low s 0#52 hb
  | finite s m e hm => exact unpack_pack hb hmax s m hm h
  | infinity s => exact h.elim
  | notANumber => exact h.elim

/-! ## Operations on floats -/

/-- The value is finite and its unit in the last place is at most `2^b`. -/
def Tame (b : Int) (x : Float) : Prop := FiniteUnder b x.toModel.unpack

variable {b : Int} {x y : Float}

theorem Tame.mono {c : Int} (h : Tame b x) (hbc : b ≤ c) : Tame c x := FiniteUnder.mono h hbc

theorem Tame.cases (h : Tame b x) :
    (∃ s, x.toModel.unpack = .zero s) ∨
      ∃ s m e hm, x.toModel.unpack = .finite s m e hm ∧ m < 2 ^ 53 ∧ e ≤ b := by
  unfold Tame at h
  cases hu : x.toModel.unpack with
  | zero s => exact .inl ⟨s, rfl⟩
  | finite s m e hm =>
    rw [hu] at h
    exact .inr ⟨s, m, e, hm, rfl, h⟩
  | infinity s =>
    rw [hu] at h
    exact h.elim
  | notANumber =>
    rw [hu] at h
    exact h.elim

theorem isInf_eq (x : Float) : x.isInf = x.toModel.unpack.isInf := rfl

theorem isNaN_eq (x : Float) : x.isNaN = x.toModel.unpack.isNaN := rfl

theorem Tame.isFinite (h : Tame b x) : Decimal.isFinite x = true := by
  rw [Decimal.isFinite, isNaN_eq, isInf_eq]
  rcases h.cases with ⟨s, hu⟩ | ⟨s, m, e, hm, hu, -⟩ <;> rw [hu] <;> rfl

/-- A natural number of `w` places is rounded to at most 53 of them. -/
theorem round_under {b : Int} {w : Nat} (s : UnpackedFloat.Sign) {m : Nat} (hm : m < 2 ^ w)
    (hw : (w : Int) - 52 ≤ b) (hb : 0 ≤ b) :
    RoundedUnder b (UnpackedFloat.round Format.binary64 s m 0) := by
  unfold UnpackedFloat.round UnpackedFloat.decreaseExponent
  simp only
  generalize (0 - Format.binary64.targetExponent (totalExponent m 0)).toNat = k
  have hshift : m <<< k < 2 ^ (w + k) := by
    rw [Nat.shiftLeft_eq, Nat.pow_add]
    exact Nat.mul_lt_mul_of_pos_right hm (Nat.two_pow_pos k)
  exact roundWithAccuracy_under s .exact hshift (by omega) (by omega) (by omega)

theorem tame_ofWord (n : UInt64) : Tame 12 n.toFloat := by
  show FiniteUnder 12 (UnpackedFloat.unpack Format.binary64 (UnpackedFloat.pack Format.binary64
    (UnpackedFloat.normalize Format.binary64 n.toNat 0 .positive)))
  apply unpack_pack_rounded _ (by decide) (by decide)
  have hn := n.toNat_lt
  unfold UnpackedFloat.normalize
  split
  · exact round_under (w := 64) _ (by omega) (by decide) (by decide)
  · trivial
  · exact round_under (w := 64) _ (by simpa using hn) (by decide) (by decide)

theorem Tame.neg (h : Tame b x) (hb : -1074 ≤ b) (hmax : b ≤ 971) : Tame b (-x) := by
  show FiniteUnder b (UnpackedFloat.unpack Format.binary64 (UnpackedFloat.pack Format.binary64
    x.toModel.unpack.neg))
  apply unpack_pack_rounded _ hb hmax
  rcases h.cases with ⟨s, hu⟩ | ⟨s, m, e, hm, hu, -, he⟩ <;> rw [hu]
  · trivial
  · exact he

theorem roundWithAccuracy_cases (s : UnpackedFloat.Sign) (m : Nat) (e : Int)
    (acc : UnpackedFloat.Accuracy) :
    UnpackedFloat.roundWithAccuracy Format.binary64 s m e acc = .zero s ∨
      ∃ m' e' hm, UnpackedFloat.roundWithAccuracy Format.binary64 s m e acc = .finite s m' e' hm := by
  unfold UnpackedFloat.roundWithAccuracy
  simp only
  split
  · exact .inl rfl
  · next h => exact .inr ⟨_, _, Nat.pos_of_ne_zero h, rfl⟩

/-- A product of finite values is no NaN: it is finite unless it is infinite. -/
theorem tame_mul (hx : Tame 971 x) (hy : Tame 971 y) (h : (x * y).isInf = false) :
    Tame 971 (x * y) := by
  have hmul : (x * y).toModel.unpack = UnpackedFloat.unpack Format.binary64
      (UnpackedFloat.pack Format.binary64
        (UnpackedFloat.mul Format.binary64 x.toModel.unpack y.toModel.unpack)) := rfl
  have hzero (s : UnpackedFloat.Sign) : FiniteUnder 971 (UnpackedFloat.unpack Format.binary64
      (UnpackedFloat.pack Format.binary64 (.zero s))) :=
    unpack_pack_rounded (f := .zero s) trivial (by decide) (by decide)
  rw [isInf_eq, hmul] at h
  rw [Tame, hmul]
  rcases hx.cases with ⟨s, hux⟩ | ⟨s, m, e, hm, hux, -⟩ <;>
    rcases hy.cases with ⟨t, huy⟩ | ⟨t, n, f, hn, huy, -⟩ <;> rw [hux, huy] at h ⊢
  · exact hzero _
  · exact hzero _
  · exact hzero _
  · simp only [UnpackedFloat.mul] at h ⊢
    rcases roundWithAccuracy_cases (s * t) (m * n) (e + f) .exact with hr | ⟨m', e', hm', hr⟩
    · rw [hr]
      exact hzero _
    · rw [hr] at h ⊢
      rcases unpack_pack_total (s * t) m' e' hm' with hp | hp
      · rw [hp] at h
        cases h
      · exact hp

/-- Dividing by at least one keeps a value finite; the bound gives way by what
the quotient may have in excess before it is rounded. -/
theorem Tame.div (hx : Tame b x) (hb : 0 ≤ b) (hmax : b ≤ 900)
    (hy : ∃ s m e hm, y.toModel.unpack = .finite s m e hm ∧ -53 ≤ e) : Tame (b + 54) (x / y) := by
  obtain ⟨t, n, f, hn, huy, hf⟩ := hy
  show FiniteUnder (b + 54) (UnpackedFloat.unpack Format.binary64
    (UnpackedFloat.pack Format.binary64
      (UnpackedFloat.div Format.binary64 x.toModel.unpack y.toModel.unpack)))
  apply unpack_pack_rounded _ (by omega) (by omega)
  rw [huy]
  rcases hx.cases with ⟨s, hux⟩ | ⟨s, m, e, hm, hux, hplaces, he⟩ <;> rw [hux]
  · trivial
  · simp only [UnpackedFloat.div, UnpackedFloat.divCore]
    generalize hg : min (e - f) (Format.binary64.targetExponent
      (totalExponent m e - totalExponent n f)) = g
    have hle : g ≤ e - f := by omega
    have hshift : m <<< (e - f - g).toNat / n < 2 ^ (53 + (e - f - g).toNat) := by
      apply Nat.lt_of_le_of_lt (Nat.div_le_self _ _)
      rw [Nat.shiftLeft_eq, Nat.pow_add]
      exact Nat.mul_lt_mul_of_pos_right hplaces (Nat.two_pow_pos _)
    exact roundWithAccuracy_under (s / t) _ hshift (by omega) (by omega) (by omega)

end ScriptMachine.Binary
