import SpanJoin.Tree.Construct

/-!
# Building trees

A function for each kind of node. Those with a fixed number of children check nothing: their
arguments are in the right places by construction, as long as nodes are given where nodes are asked
for. `hstack` and `execute` take any number of children and check that there is one.
-/

namespace SpanJoin

/-- A floating-point literal; what is not a number has no identity and is refused. -/
def Literal.ofFloat (x : Float) : Except TreeError Literal :=
  if x.isNaN then .error .nanLiteral else .ok (.float x)

namespace Tree

/-- A text literal. -/
def ofText (s : String) : Tree := .literal (.text s)

/-! ## The row and its matches -/

/-- A column of the left row. -/
def leftColumn (name : String) : Tree := .node .leftColumn [ofText name]

/-- A column of the matched right rows. -/
def rightColumn (name : String) : Tree := .node .rightColumn [ofText name]

/-- The length of the left interval. -/
def lengthOfLeft : Tree := .node .lengthOfLeft []

/-- The lengths of the right intervals. -/
def lengthOfRight : Tree := .node .lengthOfRight []

/-- The overlaps of the left interval with the right ones. -/
def lengthOfOverlap : Tree := .node .lengthOfOverlap []

/-- The length of the left interval over each overlap. -/
def fractionOfLeft : Tree := .node .fractionOfLeft []

/-- The length of each right interval over its overlap. -/
def fractionOfRight : Tree := .node .fractionOfRight []

/-! ## Operators -/

/-- An operator with two operands. -/
def binary (op : BinaryOp) (left right : Tree) : Tree := .node (.binary op) [left, right]

/-- An operator with one operand. -/
def unary (op : UnaryOp) (operand : Tree) : Tree := .node (.unary op) [operand]

/-! ## Series and frames -/

/-- The rows of `value` where `mask` is true. -/
def filter (value mask : Tree) : Tree := .node .filter [value, mask]

/-- The same value under a column name. -/
def nameAs (value : Tree) (name : String) : Tree := .node .nameAs [value, ofText name]

/-- The series `value` with the grouping keys `key`. -/
def groupBy (value key : Tree) : Tree := .node .groupBy [value, key]

/-- The total of a series, of each group, or of each column. -/
def sum (value : Tree) : Tree := .node .sum [value]

/-- The label of the greatest cell. -/
def indexOfMax (value : Tree) : Tree := .node .indexOfMax [value]

/-- The cell under a label. -/
def atIndex (value key : Tree) : Tree := .node .atIndex [value, key]

/-- A cast to the kind of that name. -/
def castTo (value : Tree) (kind : String) : Tree := .node .castTo [value, ofText kind]

/-- The rows with labels from `start` to `stop`, both included. -/
def sliceLabel (value : Tree) (start stop : Option Int64) : Tree :=
  .node .sliceLabel [value, .literal (.range ⟨.label, start, stop⟩)]

/-- The rows at positions from `start` up to but not including `stop`. -/
def sliceInteger (value : Tree) (start stop : Option Int64) : Tree :=
  .node .sliceInteger [value, .literal (.range ⟨.position, start, stop⟩)]

/-- Columns side by side. -/
def hstack (columns : List Tree) : Except TreeError Tree := make .hstack columns

/-! ## Bindings -/

/-- Binds a name to a value. -/
def declare (name : String) (value : Tree) : Tree := .node .declare [ofText name, value]

/-- Reads a bound name. -/
def refer (name : String) : Tree := .node .refer [ofText name]

/-- Statements in order; the last one is the result. -/
def execute (statements : List Tree) : Except TreeError Tree := make .execute statements

/-- A node has no truth value, whatever it may evaluate to. -/
def truthValue (_ : Tree) : Except TreeError Bool := .error .booleanCoercion

end Tree

end SpanJoin
