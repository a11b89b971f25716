import SpanJoin.Cell.Basic

/-!
# Literals

A literal of an expression tree is a scalar or a range of rows. As a floating-point literal, what is
not a number has no identity and is refused by `Literal.ofFloat`; such a literal can still occur in
a tree that was not built by the checking functions.
-/

namespace SpanJoin

/-- How a range addresses rows. -/
inductive RangeKind where
  /-- By label, both ends included. -/
  | label
  /-- By position, the end excluded; negative bounds count from the end. -/
  | position
  deriving DecidableEq

/-- A range of rows, open where a bound is absent. -/
structure RowRange where
  kind : RangeKind
  start : Option Int64
  stop : Option Int64
  deriving DecidableEq

/-- The bounds with a colon between them; an absent bound is left out. -/
def RowRange.display (r : RowRange) : String :=
  let bound (b : Option Int64) : String := (b.map Decimal.ofInt64).getD ""
  bound r.start ++ ":" ++ bound r.stop

/-- A constant in an expression tree. -/
inductive Literal where
  | int (n : Int64)
  | float (x : Float)
  | bool (b : Bool)
  | text (s : String)
  | range (r : RowRange)
  deriving DecidableEq

namespace Literal

/-- Is the literal what is not a number? -/
def isNaN : Literal → Bool
  | float x => x.isNaN
  | _ => false

/-- Is the literal a range? -/
def isRange : Literal → Bool
  | range _ => true
  | _ => false

/-- The cell that a scalar literal stands for. -/
def cell? : Literal → Option Cell
  | int n => some (.int n)
  | float x => some (.float x)
  | bool b => some (.bool b)
  | text s => some (.text s)
  | range _ => none

/-- The text of a literal. -/
def display : Literal → String
  | int n => (Cell.int n).display
  | float x => (Cell.float x).display
  | bool b => (Cell.bool b).display
  | text s => s
  | range r => r.display

/-- Equality of values: floating-point literals are compared as numbers. -/
def equal : Literal → Literal → Bool
  | int a, int b => a == b
  | float x, float y => x == y
  | bool a, bool b => a == b
  | text s, text t => s == t
  | range r, range s => r == s
  | _, _ => false

end Literal

end SpanJoin
