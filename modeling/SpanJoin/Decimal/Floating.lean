import SpanJoin.Decimal.Shortest

/-!
# Floating-point numbers in decimal

`ofFloat` writes a number with the fewest digits that read back, always in positional notation: no
exponent, however many zeros that takes, and no fraction for a whole number. `spellFloat` writes the
same digits so that no number looks like an integer: `1.0`, and `1e16` where positional notation is
long. Negative zero keeps its sign. The special values are written `NaN`, `inf` and `-inf`.

`toFloat?` reads a number: an optional sign, then either `inf`, `infinity` or `nan` in any case, or
digits with an optional point among them, at least one digit in all, and an optional exponent. The
nearest number is the result; one too large becomes infinite.
-/

namespace SpanJoin.Decimal

/-! ## Writing -/

/-- The digits without the zeros at their end. -/
def dropZeros (ds : List Char) : List Char := (ds.reverse.dropWhile (· = '0')).reverse

/-- The digits of `coefficient · 10 ^ exponent` in positional notation, without zeros at the end of
the fraction. -/
def positional (x : Scaled) : List Char :=
  let ds := digits x.coefficient
  if 0 ≤ x.exponent then
    if x.coefficient = 0 then ds else ds ++ List.replicate x.exponent.toNat '0'
  else
    let places := (-x.exponent).toNat
    let padded := List.replicate (places + 1 - ds.length) '0' ++ ds
    let whole := padded.take (padded.length - places)
    let fraction := dropZeros (padded.drop (padded.length - places))
    if fraction.isEmpty then whole else whole ++ '.' :: fraction

/-- The power of ten at the first digit. -/
def Scaled.order (x : Scaled) : Int := x.exponent + (digits x.coefficient).length - 1

/-- The digits of `coefficient · 10 ^ exponent` in scientific notation: one before the point, no
zeros at the end, and the power of ten. -/
def scientific (x : Scaled) : List Char :=
  let ds := digits x.coefficient
  let fraction := dropZeros (ds.drop 1)
  let leading := if fraction.isEmpty then ds.take 1 else ds.take 1 ++ '.' :: fraction
  leading ++ 'e' :: (toString x.order).toList

/-- The digits of `coefficient · 10 ^ exponent` with a point or a power of ten in any case. A number
below `10 ^ -4` or from `10 ^ 16` on is in scientific notation. -/
def marked (x : Scaled) : List Char :=
  if x.coefficient ≠ 0 ∧ (x.order < -4 ∨ 16 ≤ x.order) then scientific x
  else
    let ds := positional x
    if ds.contains '.' then ds else ds ++ ['.', '0']

/-- No number is written so as an integer is. -/
theorem point_or_power_mem_marked (x : Scaled) : '.' ∈ marked x ∨ 'e' ∈ marked x := by
  unfold marked
  split
  · simp [scientific]
  · by_cases h : '.' ∈ positional x <;> simp [h]

/-- A number with its sign, the shortest decimal that reads back being written by `form`. -/
def written (form : Scaled → List Char) (x : Float) : String :=
  match Binary64.parts? x with
  | some e =>
    let ds := form (shortest e.significand e.exponent)
    String.ofList (if e.negative then '-' :: ds else ds)
  | none => if x.isNaN then "NaN" else if x < 0 then "-inf" else "inf"

/-- A number in positional notation, with the fewest digits that read back. -/
def ofFloat (x : Float) : String := written positional x

/-- A number with the fewest digits that read back, and told from an integer. -/
def spellFloat (x : Float) : String := written marked x

example : spellFloat 9223372036854775808 = "9.223372036854776e18" := by rfl

/-! ## Reading -/

/-- The number nearest to `coefficient · 10 ^ exponent`. The two bounds only spare the work for
numbers beyond the largest and below half of the least positive one. -/
def nearestFloat (coefficient : Nat) (exponent : Int) : Float :=
  let order := (digits coefficient).length + exponent
  if coefficient = 0 then 0
  else if 309 < order then Binary64.infinity
  else if order < -323 then 0
  else Float.ofScientific coefficient (decide (exponent < 0)) exponent.natAbs

/-- The exponent at the end of a number: nothing at all, or the letter `e`, an optional sign and
digits. -/
def exponent? : List Char → Option Int
  | [] => some 0
  | c :: r =>
    let (negative, ds) := splitSign r
    if (c = 'e' || c = 'E') && !ds.isEmpty && ds.all Char.isDigit then
      some (if negative then -(ofDigits ds : Int) else (ofDigits ds : Int))
    else none

/-- Splits the fraction digits off, if a point comes first. -/
def splitFraction : List Char → List Char × List Char
  | '.' :: r => (r.takeWhile Char.isDigit, r.dropWhile Char.isDigit)
  | r => ([], r)

/-- The number that unsigned digits denote. -/
def numeral? (cs : List Char) : Option Float :=
  let whole := cs.takeWhile Char.isDigit
  let (fraction, rest) := splitFraction (cs.dropWhile Char.isDigit)
  if whole.isEmpty && fraction.isEmpty then none
  else
    (exponent? rest).map fun e => nearestFloat (ofDigits (whole ++ fraction)) (e - fraction.length)

/-- The magnitude that an unsigned text denotes, as a number or by name. -/
def unsigned? (cs : List Char) : Option Float :=
  let name := String.ofList (cs.map Char.toLower)
  if name = "inf" || name = "infinity" then some Binary64.infinity
  else if name = "nan" then some Binary64.nan
  else numeral? cs

/-- The number that a text denotes. -/
def toFloat? (cs : List Char) : Option Float :=
  let (negative, r) := splitSign cs
  (unsigned? r).map fun x => if negative then -x else x

end SpanJoin.Decimal
