import Mathlib.Algebra.Group.Int.Defs
import Mathlib.Data.Int.ModEq
import Mathlib.Tactic.Ring
import ScriptMachine.Operators

/-!
# Integer arithmetic

Sums, differences and products wrap at 64 bits, and quotients are cut off toward zero. A
power is exact whenever it fits: what is computed on the way are lower powers of the same
number, and none of these leaves the range before the power itself does.
-/

set_option autoImplicit false

namespace ScriptMachine

namespace Operator

/-! ## Numbers that fit -/

/-- The number has 64 bits. -/
def Narrow (n : Int) : Prop := -2 ^ 63 ≤ n ∧ n < 2 ^ 63

instance : DecidablePred Narrow := fun n =>
  inferInstanceAs (Decidable (-2 ^ 63 ≤ n ∧ n < 2 ^ 63))

/-- The integer that is the number, if it fits. -/
def narrow? (n : Int) : Option Int64 := if Narrow n then some (Int64.ofInt n) else none

variable {n : Int} {a b : Int64}

theorem narrow_toInt (a : Int64) : Narrow a.toInt := ⟨a.le_toInt, a.toInt_lt⟩

theorem narrow?_eq_some_iff : narrow? n = some a ↔ a.toInt = n := by
  unfold narrow?
  split
  · rename_i h
    rw [Option.some.injEq, ← Int64.toInt_inj, Int64.toInt_ofInt_of_le h.1 h.2, eq_comm]
  · rename_i h
    refine iff_of_false (fun heq => by cases heq) ?_
    rintro rfl
    exact h (narrow_toInt a)

theorem narrow?_of_not_narrow (h : ¬ Narrow n) : narrow? n = none := if_neg h

theorem narrow?_toInt (a : Int64) : narrow? a.toInt = some a := narrow?_eq_some_iff.2 rfl

theorem exists_narrow? (h : Narrow n) : ∃ a, narrow? n = some a ∧ a.toInt = n :=
  ⟨_, if_pos h, Int64.toInt_ofInt_of_le h.1 h.2⟩

theorem checkedMul_eq (a b : Int64) : checkedMul a b = narrow? (a.toInt * b.toInt) := by
  have hmin : Int64.minValue.toInt = -2 ^ 63 := rfl
  have hmax : Int64.maxValue.toInt = 2 ^ 63 - 1 := rfl
  unfold checkedMul narrow?
  simp only [Narrow, hmin, hmax, Int.le_sub_one_iff]
  rfl

/-! ## Powers -/

/-- With a power all lower powers fit. -/
theorem narrow_of_narrow_pow {m e : Nat} (hme : m ≤ e) (h : Narrow (n ^ e)) : Narrow (n ^ m) := by
  rcases hme.eq_or_lt with rfl | hlt
  · exact h
  · have hsmall : (n ^ m).natAbs < 2 ^ 63 := by
      rw [Int.natAbs_pow]
      rcases Nat.lt_or_ge 1 n.natAbs with hn | hn
      · have hpow : (n ^ e).natAbs ≤ 2 ^ 63 := by
          unfold Narrow at h
          omega
        rw [Int.natAbs_pow] at hpow
        exact Nat.lt_of_lt_of_le (Nat.pow_lt_pow_right hn hlt) hpow
      · have hone : n.natAbs ^ m ≤ 1 := by
          simpa using Nat.pow_le_pow_left hn m
        omega
    unfold Narrow
    omega

/-- A factor of the power that is a lower power itself is multiplied up exactly, unless the
power does not fit. -/
theorem checkedMul_powers {k m e : Nat} (ha : a.toInt = n ^ k) (hb : b.toInt = n ^ m)
    (hle : k + m ≤ e) :
    (∃ c, checkedMul a b = some c ∧ c.toInt = n ^ (k + m)) ∨
      (checkedMul a b = none ∧ ¬ Narrow (n ^ e)) := by
  rw [checkedMul_eq, ha, hb, ← pow_add]
  by_cases h : Narrow (n ^ (k + m))
  · exact .inl (exists_narrow? h)
  · exact .inr ⟨narrow?_of_not_narrow h, fun he => h (narrow_of_narrow_pow hle he)⟩

/-- What the loop accumulates is a power of the number, like the square that it keeps: with
them it gets to the power that both make up together. -/
theorem multiplySquares_eq (fuel : Nat) {acc base : Int64} {e k m : Nat}
    (hacc : acc.toInt = n ^ k) (hbase : base.toInt = n ^ m) (hfuel : e < 2 ^ fuel) :
    multiplySquares fuel acc base e = narrow? (n ^ (k + m * (2 * (e / 2)))) := by
  induction fuel generalizing acc base e k m with
  | zero =>
    have he : e = 0 := by omega
    simp only [multiplySquares, he, Nat.zero_div, Nat.mul_zero, Nat.add_zero, ← hacc,
      narrow?_toInt]
  | succ fuel ih =>
    have hhalf : e / 2 < 2 ^ fuel := by omega
    simp only [multiplySquares]
    split
    · have he : e / 2 = 0 := by omega
      simp only [he, Nat.mul_zero, Nat.add_zero, ← hacc, narrow?_toInt]
    · have htwice : m * 2 ≤ m * (2 * (e / 2)) := Nat.mul_le_mul_left m (by omega)
      have hsquare : m + m ≤ k + m * (2 * (e / 2)) := by omega
      rcases checkedMul_powers hbase hbase hsquare with ⟨square, hs, hsq⟩ | ⟨hs, hover⟩
      · simp only [hs]
        split
        · rename_i hodd
          have hprod : k + (m + m) ≤ k + m * (2 * (e / 2)) := by omega
          rcases checkedMul_powers hacc hsq hprod with ⟨prod, hp, hpr⟩ | ⟨hp, hover⟩
          · simp only [hp]
            rw [ih hpr hsq hhalf]
            have hbit : 2 * (e / 2 / 2) + 1 = e / 2 := by omega
            congr 2
            calc k + (m + m) + (m + m) * (2 * (e / 2 / 2))
                = k + m * (2 * (2 * (e / 2 / 2) + 1)) := by ring
              _ = k + m * (2 * (e / 2)) := by rw [hbit]
          · simp only [hp, narrow?_of_not_narrow hover]
        · rename_i heven
          rw [ih hacc hsq hhalf]
          have hbit : 2 * (e / 2 / 2) = e / 2 := by omega
          rw [hbit]
          congr 2
          ring
      · simp only [hs, narrow?_of_not_narrow hover]

/-- Squaring until the exponent is odd keeps the power, and stops early only if it does not
fit. -/
theorem squareEven_cases (fuel : Nat) {base : Int64} {e : Nat} (he : 0 < e)
    (hfuel : e < 2 ^ fuel) :
    (∃ square m, squareEven fuel base e = some (square, m) ∧ m % 2 = 1 ∧ m ≤ e ∧
        square.toInt ^ m = base.toInt ^ e) ∨
      (squareEven fuel base e = none ∧ ¬ Narrow (base.toInt ^ e)) := by
  induction fuel generalizing base e with
  | zero => omega
  | succ fuel ih =>
    simp only [squareEven]
    split
    · rename_i heven
      have hbase : base.toInt = base.toInt ^ 1 := (pow_one _).symm
      have htwice : 1 + 1 ≤ e := by omega
      rcases checkedMul_powers hbase hbase htwice with ⟨square, hs, hsq⟩ | ⟨hs, hover⟩
      · have hpow : square.toInt ^ (e / 2) = base.toInt ^ e := by
          have hhalf : (1 + 1) * (e / 2) = e := by omega
          rw [hsq, ← pow_mul, hhalf]
        simp only [hs]
        rcases @ih square (e / 2) (by omega) (by omega) with
          ⟨last, m, heq, hodd, hle, hlast⟩ | ⟨heq, hover⟩
        · exact .inl ⟨last, m, heq, hodd, by omega, hlast.trans hpow⟩
        · exact .inr ⟨heq, hpow ▸ hover⟩
      · simp only [hs]
        exact .inr ⟨trivial, hover⟩
    · exact .inl ⟨base, e, rfl, by omega, le_rfl, rfl⟩

/-- Squaring finds the power just when it fits. -/
theorem checkedPow_eq (a : Int64) {e : Nat} (he : e < 2 ^ 64) :
    checkedPow a e = narrow? (a.toInt ^ e) := by
  unfold checkedPow
  split
  · rename_i hzero
    rw [hzero, pow_zero]
    exact (narrow?_toInt 1).symm
  · rename_i hpos
    rcases @squareEven_cases 64 a e (Nat.pos_of_ne_zero hpos) he with
      ⟨square, m, heq, hodd, hle, hpow⟩ | ⟨heq, hover⟩
    · have hone : square.toInt = square.toInt ^ 1 := (pow_one _).symm
      have hbits : 1 + 1 * (2 * (m / 2)) = m := by omega
      simp only [heq]
      rw [multiplySquares_eq 64 hone hone (by omega), hbits, hpow]
    · simp only [heq, narrow?_of_not_narrow hover]

/-- A power is an integer just when the exponent is not negative and the power fits. -/
theorem integer_exp_cases (a b : Int64) :
    (0 ≤ b.toInt ∧ Narrow (a.toInt ^ b.toInt.toNat) ∧
        ∃ p, integer .exp a b = .ok (.integer p) ∧ p.toInt = a.toInt ^ b.toInt.toNat) ∨
      (¬ (0 ≤ b.toInt ∧ Narrow (a.toInt ^ b.toInt.toNat)) ∧
        integer .exp a b = .ok (.float (Float.pow a.toFloat b.toFloat))) := by
  have hsign : 0 ≤ b ↔ 0 ≤ b.toInt := by rw [Int64.le_iff_toInt_le, Int64.toInt_zero]
  by_cases hb : 0 ≤ b.toInt
  · have hexp : b.toInt.toNat < 2 ^ 64 := by
      have hlt := b.toInt_lt
      omega
    simp only [integer, if_pos (hsign.2 hb), checkedPow_eq a hexp]
    by_cases hfits : Narrow (a.toInt ^ b.toInt.toNat)
    · obtain ⟨p, hp, hpn⟩ := exists_narrow? hfits
      exact .inl ⟨hb, hfits, p, by rw [hp], hpn⟩
    · exact .inr ⟨fun h => hfits h.2, by rw [narrow?_of_not_narrow hfits]⟩
  · exact .inr ⟨fun h => hb h.1, by simp only [integer, if_neg (mt hsign.1 hb)]⟩

/-! ## Quotients and remainders -/

/-- Quotient and remainder make up the dividend, and the remainder is small and on its
side. The one quotient that does not fit wraps. -/
structure Divided (a b q r : Int64) : Prop where
  sum : a.toInt ≡ q.toInt * b.toInt + r.toInt [ZMOD 2 ^ 64]
  exact : ¬ (a = Int64.minValue ∧ b = -1) → a.toInt = q.toInt * b.toInt + r.toInt
  wraps : a = Int64.minValue ∧ b = -1 → q = Int64.minValue ∧ r = 0
  small : |r.toInt| < |b.toInt|
  side : r = 0 ∨ r.toInt.sign = a.toInt.sign

theorem toInt_div_of_fits (h : ¬ (a = Int64.minValue ∧ b = -1)) :
    (a / b).toInt = a.toInt.tdiv b.toInt := by
  by_cases ha : a = Int64.minValue
  · exact Int64.toInt_div_of_ne_right a b fun hb => h ⟨ha, hb⟩
  · exact Int64.toInt_div_of_ne_left a b ha

theorem divided (a : Int64) (hb : b ≠ 0) : Divided a b (a / b) (a % b) where
  sum := by
    have hwrap : a.toInt.tdiv b.toInt ≡ (a.toInt.tdiv b.toInt).bmod (2 ^ 64) [ZMOD 2 ^ 64] :=
      Int.bmod_emod.symm
    rw [Int64.toInt_div, Int64.toInt_mod]
    calc a.toInt = a.toInt.tdiv b.toInt * b.toInt + a.toInt.tmod b.toInt :=
          (Int.tdiv_mul_add_tmod _ _).symm
      _ ≡ (a.toInt.tdiv b.toInt).bmod (2 ^ 64) * b.toInt + a.toInt.tmod b.toInt [ZMOD 2 ^ 64] :=
          (hwrap.mul_right _).add_right _
  exact := fun h => by
    rw [toInt_div_of_fits h, Int64.toInt_mod, Int.tdiv_mul_add_tmod]
  wraps := by
    rintro ⟨rfl, rfl⟩
    decide
  small := by
    have hb0 : b.toInt ≠ 0 := fun h => hb (Int64.toInt_inj.1 h)
    rw [Int64.toInt_mod, Int.abs_eq_natAbs, Int.abs_eq_natAbs, Int.natAbs_tmod]
    exact Int.ofNat_lt.2 (Nat.mod_lt _ (Int.natAbs_pos.2 hb0))
  side := by
    have hsign := Int.sign_tmod a.toInt b.toInt
    rw [← Int64.toInt_mod] at hsign
    split at hsign
    · exact .inl (Int64.toInt_inj.1 (Int.sign_eq_zero_iff_zero.1 hsign))
    · exact .inr hsign

end Operator

namespace Heap

open Operator

/-- Integer arithmetic is exact up to wrapping. Sums, differences and products are those of
the numbers, brought into the range; a division fails just for the divisor zero; and a power
is an integer, the exact one, just when its exponent is not negative and it fits. -/
theorem integer_arithmetic (h : Heap) (a b : Int64) :
    (∃ n, h.arith .add (.integer a) (.integer b) = (.ok (.integer n), h) ∧
      n.toInt = (a.toInt + b.toInt).bmod (2 ^ 64)) ∧
    (∃ n, h.arith .sub (.integer a) (.integer b) = (.ok (.integer n), h) ∧
      n.toInt = (a.toInt - b.toInt).bmod (2 ^ 64)) ∧
    (∃ n, h.arith .mul (.integer a) (.integer b) = (.ok (.integer n), h) ∧
      n.toInt = (a.toInt * b.toInt).bmod (2 ^ 64)) ∧
    (b = 0 ∧
        h.arith .div (.integer a) (.integer b) =
          (.error (.arithmetic "integer division by zero"), h) ∧
        h.arith .mod (.integer a) (.integer b) =
          (.error (.arithmetic "integer division by zero"), h) ∨
      b ≠ 0 ∧ ∃ q r, h.arith .div (.integer a) (.integer b) = (.ok (.integer q), h) ∧
        h.arith .mod (.integer a) (.integer b) = (.ok (.integer r), h) ∧ Divided a b q r) ∧
    (0 ≤ b.toInt ∧ Narrow (a.toInt ^ b.toInt.toNat) ∧
        (∃ n, h.arith .exp (.integer a) (.integer b) = (.ok (.integer n), h) ∧
          n.toInt = a.toInt ^ b.toInt.toNat) ∨
      ¬ (0 ≤ b.toInt ∧ Narrow (a.toInt ^ b.toInt.toNat)) ∧
        ∃ x, h.arith .exp (.integer a) (.integer b) = (.ok (.float x), h)) := by
  have harith : ∀ op, h.arith op (.integer a) (.integer b) = (integer op a b, h) := by
    intro op
    cases op <;> rfl
  simp only [harith]
  refine ⟨⟨_, rfl, a.toInt_add b⟩, ⟨_, rfl, a.toInt_sub b⟩, ⟨_, rfl, a.toInt_mul b⟩, ?_, ?_⟩
  · by_cases hb : b = 0
    · exact .inl ⟨hb, by simp only [integer, if_pos hb], by simp only [integer, if_pos hb]⟩
    · exact .inr ⟨hb, a / b, a % b, by simp only [integer, if_neg hb],
        by simp only [integer, if_neg hb], divided a hb⟩
  · rcases integer_exp_cases a b with ⟨hb, hfits, p, heq, hp⟩ | ⟨hnot, heq⟩
    · exact .inl ⟨hb, hfits, p, by rw [heq], hp⟩
    · exact .inr ⟨hnot, _, by rw [heq]⟩

/-- A power that is just the least integer is found. -/
example : Operator.checkedPow (-8) 21 = some Int64.minValue := by decide

end Heap

end ScriptMachine
