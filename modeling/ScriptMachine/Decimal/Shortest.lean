import ScriptMachine.Binary.Magnitude

/-!
# Shortest decimals

The fewest decimal digits that read back as a given binary64 value, chosen by
exact arithmetic on naturals. A tie between two candidates of one length is a
choice of the caller.
-/

set_option autoImplicit false

namespace ScriptMachine.Decimal
open ScriptMachine.Binary

/-- The value `digits * 10^exponent`. -/
structure Scientific where
  digits : Nat
  exponent : Int
  deriving Repr, DecidableEq

inductive Tie where
  | toEven
  | up
  deriving Repr, DecidableEq

/-- Compares `a * 10^i` with `n * 2^j`. -/
def compareScaled (a : Nat) (i : Int) (n : Nat) (j : Int) : Ordering :=
  compare (a * Nat.pow 10 i.toNat * Nat.pow 2 (-j).toNat)
    (n * Nat.pow 2 j.toNat * Nat.pow 10 (-i).toNat)

/-- The decimal lies among the reals that round to the value, ties to even. -/
def readsBack (x : Magnitude) (d : Scientific) : Bool :=
  let lo := if x.narrowBelow then 4 * x.m - 1 else 4 * x.m - 2
  let hi := 4 * x.m + 2
  let closed := x.m % 2 == 0
  let below := compareScaled d.digits d.exponent lo (x.q - 2)
  let above := compareScaled d.digits d.exponent hi (x.q - 2)
  (below == .gt || (closed && below == .eq)) && (above == .lt || (closed && above == .eq))

/-- The number of powers of ten, counted from `10^k`, needed to exceed the value. -/
def raiseScale (x : Magnitude) : Nat → Int → Int
  | 0, k => k
  | fuel + 1, k => if compareScaled 1 k x.m x.q == .gt then k else raiseScale x fuel (k + 1)

/-- The least `k` with `m * 2^q < 10^k`: an estimate from below by the binary
logarithm, then at most a few exact steps. -/
def scaleOf (x : Magnitude) : Int :=
  let log2 : Int := x.m.log2 + x.q
  raiseScale x 8 (Int.fdiv (log2 * 30103) 100000 - 2)

/-- The two grid points around the value, `⌊value / 10^g⌋` and the next. -/
def gridFloor (x : Magnitude) (g : Int) : Nat :=
  (x.m * Nat.pow 2 x.q.toNat * Nat.pow 10 (-g).toNat) /
    (Nat.pow 2 (-x.q).toNat * Nat.pow 10 g.toNat)

/-- The neighbour of the value on the grid of step `10^g` that reads back; of
two the nearer, and on an exact tie the caller's. -/
def onGrid (tie : Tie) (x : Magnitude) (g : Int) : Option Scientific :=
  let n := gridFloor x g
  let low : Scientific := ⟨n, g⟩
  let high : Scientific := ⟨n + 1, g⟩
  match n != 0 && readsBack x low, readsBack x high with
  | true, false => some low
  | false, true => some high
  | false, false => none
  | true, true =>
    match compareScaled (2 * n + 1) g (2 * x.m) x.q with
    | .gt => some low
    | .lt => some high
    | .eq =>
      match tie with
      | .up => some high
      | .toEven => some (if n % 2 == 0 then low else high)

/-- Moves trailing zeros of the digits into the exponent. -/
def Scientific.strip : Nat → Scientific → Scientific
  | 0, d => d
  | fuel + 1, d =>
    if d.digits != 0 && d.digits % 10 == 0 then
      Scientific.strip fuel ⟨d.digits / 10, d.exponent + 1⟩
    else d

/-- The exact decimal expansion of a magnitude. -/
def exact (x : Magnitude) : Scientific :=
  if x.q ≥ 0 then ⟨x.m * Nat.pow 2 x.q.toNat, 0⟩ else ⟨x.m * Nat.pow 5 (-x.q).toNat, x.q⟩

/-- The first of the grids with one, two, … seventeen digits that holds a
decimal reading back; the exact value stands in for an empty search. -/
def shortest (tie : Tie) (x : Magnitude) : Scientific :=
  let k := scaleOf x
  let found := (List.range 17).findSome? fun (i : Nat) => onGrid tie x (k - (i + 1))
  (found.getD (exact x)).strip 400

end ScriptMachine.Decimal
