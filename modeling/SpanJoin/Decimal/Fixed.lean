import SpanJoin.Decimal.Shortest

/-!
# Decimals with a fixed number of places

`ofFloatFixed` rounds the exact value of a number to a given number of places, an exact half to the
even neighbour, and writes all places.
-/

namespace SpanJoin.Decimal

/-- The natural number nearest to `num / den`, of two equally near ones the even one. -/
def roundDiv (num den : Nat) : Nat :=
  let d := num / den
  let r := num % den
  if den < 2 * r || (den = 2 * r && d % 2 = 1) then d + 1 else d

/-- A number with exactly `places` places after the point. -/
def ofFloatFixed (places : Nat) (x : Float) : String :=
  match Binary64.parts? x with
  | some e =>
    let n := roundDiv (e.significand * Nat.pow 2 e.exponent.toNat * Nat.pow 10 places)
      (Nat.pow 2 (-e.exponent).toNat)
    let ds := digits n
    let padded := List.replicate (places + 1 - ds.length) '0' ++ ds
    let whole := padded.take (padded.length - places)
    let fraction := padded.drop (padded.length - places)
    let text := if places = 0 then whole else whole ++ '.' :: fraction
    String.ofList (if e.negative then '-' :: text else text)
  | none => if x.isNaN then "NaN" else if x < 0 then "-inf" else "inf"

end SpanJoin.Decimal
