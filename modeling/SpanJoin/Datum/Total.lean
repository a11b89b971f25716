import SpanJoin.Tree.Operator

/-!
# Totals

`total` adds up the cells that are not missing. Truth values count as 0 or 1, and no cells add up to
the integer 0. Integers are added with wrap-around at 64 bits and apart from the floating-point
numbers; a single one of these makes the total a floating-point number.
-/

namespace SpanJoin

/-- The running sums of a total. -/
structure Sums where
  ints : Int64
  floats : Float
  /-- Was there a floating-point number? -/
  isFloat : Bool

namespace Sums

/-- No cells yet. -/
def zero : Sums := ⟨0, 0, false⟩

/-- One more cell; texts cannot be added. -/
def add (s : Sums) (c : Cell) : Except TreeError Sums :=
  if c.isMissing then .ok s
  else
    match c with
    | .bool b => .ok { s with ints := s.ints + if b then 1 else 0 }
    | .int n => .ok { s with ints := s.ints + n }
    | .float x => .ok { s with floats := s.floats + x, isFloat := true }
    | c => .error (.invalidOperands (.action .sum) c.kind? none)

/-- The total that the running sums stand for. -/
def cell (s : Sums) : Cell :=
  if s.isFloat then .float (s.floats + Binary64.ofInt64 s.ints) else .int s.ints

end Sums

/-- The total of the cells that are not missing. -/
def total (cells : List Cell) : Except TreeError Cell :=
  (cells.foldlM Sums.add Sums.zero).map Sums.cell

end SpanJoin
