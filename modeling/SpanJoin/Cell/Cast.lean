import SpanJoin.DataError

/-!
# Casting cells

`Cell.cast` turns a cell into one of another kind. A missing cell becomes `null` whatever the
target. Numbers become truth values by being nonzero, floating-point numbers become integers by
dropping the fraction, and texts are read without the white space around them. Every cell has a
text. What cannot be read, and an infinite number as an integer, is refused.
-/

namespace SpanJoin

namespace Cell

/-- The integer that a floating-point number becomes: its fraction is dropped, and beyond the signed
64-bit range the nearest end of the range is taken. Only finite numbers become integers. -/
def wholePart? (x : Float) : Option Int64 :=
  (Binary64.parts? x).map fun p => Binary64.clampInt64 p.truncate

/-- The truth value that a text means; capital letters do not matter. -/
def truth? (s : String) : Option Bool :=
  match Text.lower (Text.trim s) with
  | "true" => some true
  | "false" => some false
  | _ => none

/-- A cell that has a value, as one of the target kind. -/
def convert? : Cell → Kind → Option Cell
  | null, _ => some null
  | c, .varchar => some (text c.display)
  | bool b, .boolean => some (bool b)
  | bool b, .int64 => some (int (if b then 1 else 0))
  | bool b, .float64 => some (float (if b then 1 else 0))
  | int n, .boolean => some (bool (n != 0))
  | int n, .int64 => some (int n)
  | int n, .float64 => some (float (Binary64.ofInt64 n))
  | float x, .boolean => some (bool (x != 0))
  | float x, .int64 => (wholePart? x).map int
  | float x, .float64 => some (float x)
  | text s, .boolean => (truth? s).map bool
  | text s, .int64 => (Decimal.toInt64? (Text.trimChars s.toList)).map int
  | text s, .float64 => (Decimal.toFloat? (Text.trimChars s.toList)).map float

/-- A cell as one of the target kind. Missing cells stay missing. -/
def cast (c : Cell) (target : Kind) : Except DataError Cell :=
  if c.isMissing then .ok null
  else
    match c.convert? target with
    | some d => .ok d
    | none => .error (.castFailed c target)

end Cell

end SpanJoin
