/-!
# Search by halving

The search asks whether an element lies above the sought place and keeps the
last candidate that does not. In an ascending sequence that is the last element
that is not above.
-/

set_option autoImplicit false

namespace ScriptMachine.Search

/-- Halves the range of `size` elements from `base` on; `above` is asked about
the middle of each. -/
def halve (above : Nat → Bool) : Nat → Nat → Nat → Nat
  | 0, base, _ => base
  | fuel + 1, base, size =>
    if size ≤ 1 then base
    else
      let half := size / 2
      let mid := base + half
      halve above fuel (if above mid then base else mid) (size - half)

/-- The candidate in a sequence of `size` elements; 0 when all lie above. -/
def lastNotAbove (above : Nat → Bool) (size : Nat) : Nat := halve above size 0 size

end ScriptMachine.Search
