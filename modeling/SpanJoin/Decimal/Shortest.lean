import SpanJoin.Binary64
import SpanJoin.Decimal.Integer

/-!
# The shortest decimal that reads back

Every real number between the midpoints to its two neighbours rounds to a floating-point number `v`;
the midpoints themselves do if the significand of `v` is even. `shortest` looks for the coarsest
decimal grid, that is the least number of digits, with a point in this interval. If a grid has one,
then one of the two grid points next to `v` is one; of two the nearer is taken, and the upper one if
they are equally near. All comparisons are between natural numbers.
-/

namespace SpanJoin.Decimal

/-- The decimal number `coefficient · 10 ^ exponent`. -/
structure Scaled where
  coefficient : Nat
  exponent : Int
  deriving DecidableEq

/-- The decimal order of magnitude of `m · 2 ^ q`: the `p` with `10 ^ p ≤ m · 2 ^ q < 10 ^ (p + 1)`.
Under a negative `q` it is read off `m · 5 ^ (-q)`, which is the number shifted by `-q` places. -/
def magnitude (m : Nat) (q : Int) : Int :=
  let shift := (-q).toNat
  ((digits (m * Nat.pow 2 q.toNat * Nat.pow 5 shift)).length : Int) - 1 - shift

/-- The grid point with step `10 ^ k` nearest to `m · 2 ^ q`, if one of the two grid points next to
it lies in the interval of the real numbers that round to `m · 2 ^ q`.

The unit is a quarter of `2 ^ q`, so that both midpoints are whole; the lower one is nearer where
the numbers below `m · 2 ^ q` are twice as dense. -/
def onGrid? (m : Nat) (q k : Int) : Option Scaled :=
  let unit := Nat.pow 2 (q - 2).toNat * Nat.pow 10 (-k).toNat
  let step := Nat.pow 10 k.toNat * Nat.pow 2 (2 - q).toNat
  let value := 4 * m * unit
  let low := (if m = Nat.pow 2 52 ∧ q ≠ -1074 then 4 * m - 1 else 4 * m - 2) * unit
  let high := (4 * m + 2) * unit
  let inside (d : Nat) : Bool :=
    if m % 2 = 0 then decide (low ≤ d * step ∧ d * step ≤ high)
    else decide (low < d * step ∧ d * step < high)
  let d := value / step
  match inside d, inside (d + 1) with
  | true, false => some ⟨d, k⟩
  | false, true => some ⟨d + 1, k⟩
  | true, true => some ⟨if value - d * step < (d + 1) * step - value then d else d + 1, k⟩
  | false, false => none

/-- The decimal with the fewest digits that rounds to `m · 2 ^ q`; seventeen digits are always
enough. -/
def shortest (m : Nat) (q : Int) : Scaled :=
  if m = 0 then ⟨0, 0⟩
  else ((List.range 17).findSome? fun (n : Nat) => onGrid? m q (magnitude m q - n)).getD
    ⟨m * Nat.pow 2 q.toNat * Nat.pow 5 (-q).toNat, min q 0⟩

end SpanJoin.Decimal
