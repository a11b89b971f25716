/-!
# Integers in decimal

`ofInt64` writes a signed 64-bit integer and `toInt64?` reads one. The reader takes an optional sign
of either kind followed by at least one digit, and refuses a number outside the signed 64-bit range;
leading zeros are allowed.
-/

namespace SpanJoin.Decimal

/-- The decimal digits of `n`, most significant first; zero has one digit. -/
def digits (n : Nat) : List Char := Nat.toDigits 10 n

/-- The value of a digit character. -/
def digitValue (c : Char) : Nat := c.toNat - '0'.toNat

/-- The number that a list of digits denotes, most significant first. -/
def ofDigits (ds : List Char) : Nat := ds.foldl (fun n c => 10 * n + digitValue c) 0

/-- Splits a leading sign off; `true` says that it was a minus. -/
def splitSign : List Char → Bool × List Char
  | '-' :: r => (true, r)
  | '+' :: r => (false, r)
  | r => (false, r)

/-- An integer in decimal, with a minus sign if it is negative. -/
def ofInt64 (n : Int64) : String :=
  let ds := digits n.toInt.natAbs
  String.ofList (if n.toInt < 0 then '-' :: ds else ds)

/-- The integer that a text denotes: an optional sign, then digits, in the signed 64-bit range. -/
def toInt64? (cs : List Char) : Option Int64 :=
  let (negative, ds) := splitSign cs
  let n : Int := if negative then -(ofDigits ds : Int) else (ofDigits ds : Int)
  if !ds.isEmpty && ds.all Char.isDigit && decide (Int64.minValue.toInt ≤ n)
      && decide (n ≤ Int64.maxValue.toInt) then
    some (Int64.ofInt n)
  else none

end SpanJoin.Decimal
