import ScriptMachine.Json.Number
import ScriptMachine.Proofs.Binary.Rounding

/-!
# Read numbers are finite

A spelling means a natural number, a negative one, or a finite float: the word that
is gathered from its digits is scaled by powers of ten that are finite and at least
one, and a product that overflows is no number.
-/

set_option autoImplicit false

namespace ScriptMachine.Json
open Binary Float.Model

/-- The value is finite and its unit in the last place is at least `2^-53`, as that
of one and of all greater values is. -/
def isCoarse : UnpackedFloat → Bool
  | .finite _ m e _ => m < 2 ^ 53 && -53 ≤ e && e ≤ 971
  | _ => false

theorem coarse_cases {x : Float} (h : isCoarse x.toModel.unpack = true) :
    Tame 971 x ∧ ∃ s m e hm, x.toModel.unpack = .finite s m e hm ∧ -53 ≤ e := by
  unfold isCoarse at h
  split at h
  · next s m e hm hu =>
    simp only [Bool.and_eq_true, decide_eq_true_eq] at h
    obtain ⟨⟨hplaces, hlow⟩, hhigh⟩ := h
    refine ⟨?_, s, m, e, hm, hu, hlow⟩
    rw [Tame, hu]
    exact ⟨hplaces, hhigh⟩
  · cases h

/-- A mantissa of 53 places keeps its exponent when it is packed. -/
theorem isCoarse_pack (s : UnpackedFloat.Sign) {m : Nat} {e : Int} (hm : 0 < m)
    (hlow : 2 ^ 52 ≤ m) (hhigh : m < 2 ^ 53) (he : -53 ≤ e) (hmax : e ≤ 971) :
    isCoarse (UnpackedFloat.unpack Format.binary64
      (UnpackedFloat.pack Format.binary64 (.finite s m e hm))) = true := by
  have hlog : m.log2 = 52 := by
    have h1 := (Nat.le_log2 (n := m) (k := 52) (by omega)).2 hlow
    have h2 := (Nat.log2_lt (n := m) (k := 53) (by omega)).2 hhigh
    omega
  unfold UnpackedFloat.pack
  simp only
  rw [if_neg (by simp [Format.exponentBias]; omega), if_pos (by rw [hlog]; rfl)]
  have hk : (e + Format.binary64.exponentBias + (52 : Nat)).toNat = (e + 1075).toNat := by
    simp [Format.exponentBias]
    omega
  rw [hk]
  have h0 : BitVec.ofNat 11 (e + 1075).toNat ≠ 0#11 := by
    intro h
    have := congrArg BitVec.toNat h
    simp at this
    omega
  have hfull : BitVec.ofNat 11 (e + 1075).toNat ≠ -1#11 := by
    intro h
    have := congrArg BitVec.toNat h
    simp at this
    omega
  unfold UnpackedFloat.unpack
  simp only [UnpackedFloat.unpackExponent_packComponents, UnpackedFloat.unpackMantissa_packComponents]
  rw [if_neg hfull, if_neg h0]
  have he' : ((BitVec.ofNat 11 (e + 1075).toNat).toNat : Int) -
      (Format.binary64.exponentBias + (52 : Nat)) = e := by
    simp [Format.exponentBias]
    omega
  simp only [isCoarse, Bool.and_eq_true, decide_eq_true_eq, he']
  exact ⟨⟨(1#1 ++ BitVec.ofNat 52 m).isLt, he⟩, hmax⟩

theorem powers_small : ∀ k < 23, isCoarse (Float.ofScientific 1 false k).toModel.unpack = true := by
  decide +kernel

theorem power_greatest : isCoarse (Float.ofScientific 1 false 308).toModel.unpack = true := by
  decide +kernel

theorem unpack_power {k : Nat} (hlow : 23 ≤ k) (hhigh : k ≤ 308) :
    (Float.ofScientific 1 false k).toModel.unpack = UnpackedFloat.unpack Format.binary64
      (UnpackedFloat.pack Format.binary64 (UnpackedFloat.roundWithAccuracy Format.binary64 .positive
        (1 <<< 53 * 10 ^ k) (-53) .exact)) := by
  unfold Float.ofScientific
  rw [dif_neg (by omega)]
  show UnpackedFloat.unpack Format.binary64 (UnpackedFloat.pack Format.binary64
    (UnpackedFloat.ofScientific Format.binary64 1 (k : Int))) = _
  unfold UnpackedFloat.ofScientific
  rw [dif_neg (by decide), if_neg (by simp; omega), if_neg (by simp; omega), if_pos (by omega)]
  rfl

/-- The powers of ten that one scaling step uses. -/
theorem power_coarse {k : Nat} (h : k ≤ 308) :
    isCoarse (Float.ofScientific 1 false k).toModel.unpack = true := by
  by_cases hsmall : k < 23
  · exact powers_small k hsmall
  by_cases hgreatest : k = 308
  · rw [hgreatest]
    exact power_greatest
  · rw [unpack_power (by omega) h]
    have hlow : 2 ^ 52 ≤ 1 <<< 53 * 10 ^ k :=
      Nat.le_trans (by decide) (Nat.le_mul_of_pos_right _ (Nat.pow_pos (by decide)))
    -- The exponents are kept as variables, so that no power is computed in the open.
    obtain ⟨w, j, hw, hj, hpower⟩ : ∃ w j : Nat, w ≤ 1020 ∧ 307 ≤ j ∧ 10 ^ j < 2 ^ w :=
      ⟨1020, 307, Nat.le_refl _, Nat.le_refl _, by decide +kernel⟩
    have hhigh : 1 <<< 53 * 10 ^ k < 2 ^ (53 + w) := by
      rw [Nat.pow_add]
      have hk : 10 ^ k ≤ 10 ^ j := Nat.pow_le_pow_right (by decide) (by omega)
      exact Nat.mul_lt_mul_of_pos_left (Nat.lt_of_le_of_lt hk hpower) (by decide)
    obtain ⟨m', e', hm', heq, hplaces, hplaces', he⟩ :=
      roundWithAccuracy_places .positive .exact hlow (e := -53) (by decide)
    have hunder := roundWithAccuracy_under (b := 971) .positive .exact hhigh (e := -53)
      (by decide) (by omega) (by decide)
    rw [heq] at hunder ⊢
    exact isCoarse_pack _ hm' hplaces hplaces' he hunder

/-- Scaling a word gives a finite value or none. -/
theorem tame_scale {fuel : Nat} {b : Int} {x y : Float} {e : Int} (hx : Tame b x) (hb : 0 ≤ b)
    (hmax : b + 54 * fuel ≤ 900) (h : scale fuel x e = some y) : Tame 971 y := by
  induction fuel generalizing b x e with
  | zero =>
    rw [scale] at h
    cases h
    exact hx.mono (by omega)
  | succ n ih =>
    rw [scale] at h
    split at h
    · next hsmall =>
      obtain ⟨hpower, hcoarse⟩ := coarse_cases (power_coarse (k := e.natAbs) hsmall)
      simp only at h
      split at h
      · split at h
        · cases h
        · next hinf =>
          cases h
          exact tame_mul (hx.mono (by omega)) hpower (by simpa using hinf)
      · cases h
        exact (hx.div hb (by omega) hcoarse).mono (by omega)
    split at h
    · cases h
      exact hx.mono (by omega)
    split at h
    · cases h
    · obtain ⟨-, hcoarse⟩ := coarse_cases (power_coarse (k := 308) (by decide))
      exact ih (hx.div hb (by omega) hcoarse) (by omega) (by push_cast at hmax ⊢; omega) h

theorem tame_signed {x : Float} (negative : Bool) (h : Tame 971 x) : Tame 971 (signed negative x) := by
  unfold signed
  split
  · exact h.neg (by decide) (by decide)
  · exact h

theorem tame_zero : Tame 971 0.0 := by
  have hzero : (match (0.0 : Float).toModel.unpack with | .zero _ => true | _ => false) = true := by
    decide +kernel
  unfold Tame
  split at hzero
  · next hu =>
    rw [hu]
    trivial
  · cases hzero

theorem tame_withExponent {negative : Bool} {significand : Nat} {e : Int} {cs : List Char} {x : Float}
    (h : withExponent negative significand e cs = some (.float x)) : Tame 971 x := by
  have hfinish {e : Int} (h : ((scale 8 (UInt64.ofNat significand).toFloat e).map
      fun (x : Float) => Number.float (signed negative x)) = some (.float x)) : Tame 971 x := by
    obtain ⟨y, hy, heq⟩ := Option.map_eq_some_iff.1 h
    cases heq
    exact tame_signed _ (tame_scale (tame_ofWord _) (by decide) (by decide) hy)
  have htail (down : Bool) (ds : List Char)
      (h : (if ds.foldl (fun (acc : Nat) (c : Char) => acc * 10 + digitValue c) 0 ≥ Nat.pow 2 31 then
        if (significand != 0 && !down) = true then none else some (.float (signed negative 0.0))
        else ((scale 8 (UInt64.ofNat significand).toFloat
          (if down = true then e - (ds.foldl (fun (acc : Nat) (c : Char) => acc * 10 + digitValue c) 0 : Nat)
            else e + (ds.foldl (fun (acc : Nat) (c : Char) => acc * 10 + digitValue c) 0 : Nat))).map
          fun (x : Float) => Number.float (signed negative x))) = some (.float x)) : Tame 971 x := by
    split at h
    · split at h
      · exact absurd h (by simp)
      · rw [Option.some.injEq, Number.float.injEq] at h
        rw [← h]
        exact tame_signed _ tame_zero
    · exact hfinish h
  unfold withExponent at h
  split at h
  · exact hfinish h
  · exact htail _ _ h

/-- Every float that a spelling means is finite. -/
theorem tame_ofLexeme? {lexeme : String} {x : Float} (h : Number.ofLexeme? lexeme = some (.float x)) :
    Tame 971 x := by
  have hword (minus : Bool) (s : Nat) (h : (if (!minus) = true then some (Number.natural s)
      else if s = 0 ∨ Nat.pow 2 63 < s then some (.float (-(UInt64.ofNat s).toFloat))
      else some (.negative s)) = some (.float x)) : Tame 971 x := by
    split at h
    · exact absurd h (by simp)
    split at h
    · rw [Option.some.injEq, Number.float.injEq] at h
      rw [← h]
      exact ((tame_ofWord _).neg (by decide) (by decide)).mono (by decide)
    · exact absurd h (by simp)
  have hfraction (minus : Bool) (s : Nat) (e : Int) (cs : List Char)
      (h : withFraction minus s e cs = some (.float x)) : Tame 971 x := by
    unfold withFraction at h
    split at h
    · exact tame_withExponent h
    · exact tame_withExponent h
  unfold Number.ofLexeme? at h
  simp only at h
  split at h
  · exact hword _ _ h
  · exact hfraction _ _ _ _ h

end ScriptMachine.Json
