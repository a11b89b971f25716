import SpanJoin.Decimal.Floating
import SpanJoin.Text.Quoted

/-!
# Cells

A `Cell` is the value at one place of a column: a truth value, a signed 64-bit integer, a binary64
number or a text, or `null` where there is none. A number that is not a number counts as missing
too, though it has the kind `float64`.

`=` on cells is identity, by which the two zeros differ. `==` is equality of values, by which
numbers are compared as such: the two zeros agree and what is not a number differs from itself. An
integer is never `==` to a floating-point number.
-/

namespace SpanJoin

/-- The kinds of value a cell can hold. -/
inductive Kind where
  | boolean
  | int64
  | float64
  | varchar
  deriving DecidableEq

namespace Kind

/-- The name of a kind in messages. -/
def name : Kind → String
  | boolean => "Boolean"
  | int64 => "Int64"
  | float64 => "Float64"
  | varchar => "Varchar"

/-- The kind that a type name means; capital letters do not matter. -/
def ofName? (s : String) : Option Kind :=
  match Text.lower s with
  | "bool" | "boolean" => some boolean
  | "int" | "int64" | "integer" => some int64
  | "float" | "float64" | "double" => some float64
  | "str" | "string" | "varchar" => some varchar
  | _ => none

end Kind

/-- The value at one place of a column. -/
inductive Cell where
  | null
  | bool (b : Bool)
  | int (n : Int64)
  | float (x : Float)
  | text (s : String)
  deriving DecidableEq, Inhabited

namespace Cell

/-- The kind of a cell; `null` has none. -/
def kind? : Cell → Option Kind
  | null => none
  | bool _ => some .boolean
  | int _ => some .int64
  | float _ => some .float64
  | text _ => some .varchar

/-- Is there no value: `null`, or what is not a number? -/
def isMissing : Cell → Bool
  | null => true
  | float x => x.isNaN
  | _ => false

/-- The numeric reading of a cell: an integer is rounded to the nearest number. -/
def number? : Cell → Option Float
  | int n => some (Binary64.ofInt64 n)
  | float x => some x
  | _ => none

/-- Equality of values. -/
def equal : Cell → Cell → Bool
  | null, null => true
  | bool a, bool b => a == b
  | int a, int b => a == b
  | float x, float y => x == y
  | text s, text t => s == t
  | _, _ => false

/-- `==` on cells is equality of values, not identity. -/
instance : BEq Cell := ⟨equal⟩

/-- The text of a cell. -/
def display : Cell → String
  | null => "NULL"
  | bool b => if b then "true" else "false"
  | int n => Decimal.ofInt64 n
  | float x => Decimal.ofFloat x
  | text s => s

/-- The text of a cell with its kind, texts being quoted: the form in which an error shows it. -/
def spelled : Cell → String
  | null => "Null"
  | bool b => "Boolean(" ++ (bool b).display ++ ")"
  | int n => "Int64(" ++ (int n).display ++ ")"
  | float x => "Float64(" ++ Decimal.spellFloat x ++ ")"
  | text s => "String(" ++ Text.quote s ++ ")"

/-- The integers `0`, `1`, …, `n - 1` as cells: the labels of rows that were given none. -/
def counting (n : Nat) : List Cell := (List.range n).map fun i => int (Int64.ofNat i)

end Cell

end SpanJoin
