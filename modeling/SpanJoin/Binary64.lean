/-!
# The exact value of a floating-point number

A finite binary64 number is `(-1)^negative · significand · 2^exponent` with natural `significand`
below `2^53`. `parts?` reads the three parts off the bits; whole numbers are cut out of it
(`Parts.truncate`) without any rounding, and integers are turned into the nearest number
(`ofInt64`).
-/

namespace SpanJoin.Binary64

/-- The parts of a finite number. -/
structure Parts where
  /-- Is the sign bit set? -/
  negative : Bool
  /-- The magnitude, in units of `2 ^ exponent`. -/
  significand : Nat
  /-- The power of two of the unit. -/
  exponent : Int
  deriving DecidableEq

/-- The parts of a number, unless it is infinite or not a number. A biased exponent of zero marks
the numbers without the implicit leading bit. -/
def parts? (x : Float) : Option Parts :=
  let bits := x.toBits.toNat
  let negative : Bool := decide (bits / Nat.pow 2 63 = 1)
  let biased : Nat := bits / Nat.pow 2 52 % Nat.pow 2 11
  let fraction : Nat := bits % Nat.pow 2 52
  if biased = 2047 then none
  else if biased = 0 then some ⟨negative, fraction, -1074⟩
  else some ⟨negative, Nat.pow 2 52 + fraction, (biased : Int) - 1075⟩

/-- The integer next to the number in the direction of zero. -/
def Parts.truncate (x : Parts) : Int :=
  let magnitude := x.significand * Nat.pow 2 x.exponent.toNat / Nat.pow 2 (-x.exponent).toNat
  if x.negative then -(magnitude : Int) else (magnitude : Int)

/-- The integer of the signed 64-bit range that is nearest to `n`. -/
def clampInt64 (n : Int) : Int64 :=
  if n < Int64.minValue.toInt then Int64.minValue
  else if Int64.maxValue.toInt < n then Int64.maxValue
  else Int64.ofInt n

/-- The number nearest to an integer, of two equally near ones the even one. -/
def ofInt64 (n : Int64) : Float := Float.ofInt n.toInt

/-- Positive infinity. -/
def infinity : Float := Float.ofBits 0x7ff0000000000000

/-- The value that is not a number. -/
def nan : Float := Float.ofBits 0x7ff8000000000000

end SpanJoin.Binary64
