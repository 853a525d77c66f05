import Mathlib
import ScriptMachine.Decimal.Layout

/-!
# Comparing floats

The order of two floats turns around with them, and a float is equal to itself unless it
is no number.
-/

set_option autoImplicit false

namespace ScriptMachine.Binary

open Float.Model

theorem compare_swap (f g : UnpackedFloat) :
    g.compare f = (f.compare g).map Ordering.swap := by
  cases f with
  | notANumber => cases g <;> rfl
  | infinity s =>
    cases g with
    | infinity t => cases s <;> cases t <;> rfl
    | finite t n d hd => cases s <;> cases t <;> rfl
    | _ => cases s <;> rfl
  | zero s =>
    cases g with
    | infinity t => cases t <;> rfl
    | finite t n d hd => cases t <;> rfl
    | _ => rfl
  | finite s m e hm =>
    cases g with
    | finite t n d hd =>
      have hexponent : compare d e = (compare e d).swap := Std.OrientedCmp.eq_swap
      have hmantissa : compare n m = (compare m n).swap := Std.OrientedCmp.eq_swap
      have hswap : (compare d e).then (compare n m) = ((compare e d).then (compare m n)).swap := by
        rw [Ordering.swap_then, hexponent, hmantissa]
      cases s <;> cases t <;> simp [UnpackedFloat.compare, hswap]
    | notANumber => rfl
    | infinity t => cases s <;> cases t <;> rfl
    | zero t => cases s <;> rfl

theorem beq_comm (x y : Float) : (x == y) = (y == x) := by
  show x.toModel.unpack.beq y.toModel.unpack = y.toModel.unpack.beq x.toModel.unpack
  rw [UnpackedFloat.beq, UnpackedFloat.beq, compare_swap]
  rcases UnpackedFloat.compare _ _ with - | ⟨- | - | -⟩ <;> rfl

theorem beq_self {x : Float} (h : x.isNaN = false) : (x == x) = true := by
  change x.toModel.unpack.isNaN = false at h
  show x.toModel.unpack.beq x.toModel.unpack = true
  cases hu : x.toModel.unpack with
  | notANumber => rw [hu] at h; cases h
  | infinity s => cases s <;> rfl
  | zero s => rfl
  | finite s m e hm =>
    cases s <;> simp [UnpackedFloat.beq, UnpackedFloat.compare, Std.ReflCmp.compare_self]

end ScriptMachine.Binary
