import SpanJoin.Tree.Literal

/-!
# Actions

The action of a node says what the node computes. Each action has a name, which derived column names
are made of, and an arity: the slots that its children have to fit.
-/

namespace SpanJoin

/-- The operators with two operands. -/
inductive BinaryOp where
  | add
  | sub
  | mul
  | div
  | gt
  | lt
  | eq
  | and
  | or
  deriving DecidableEq

/-- The sign of an operator. -/
def BinaryOp.symbol : BinaryOp → String
  | add => "+"
  | sub => "-"
  | mul => "*"
  | div => "/"
  | gt => ">"
  | lt => "<"
  | eq => "=="
  | and => "and"
  | or => "or"

/-- The operators with one operand. -/
inductive UnaryOp where
  | not
  | neg
  | isna
  deriving DecidableEq

/-- The sign of an operator. -/
def UnaryOp.symbol : UnaryOp → String
  | not => "not"
  | neg => "neg"
  | isna => "isna"

/-- What a node computes. -/
inductive Action where
  /-- A cell of the left row. -/
  | leftColumn
  /-- A column of the matched right rows. -/
  | rightColumn
  | binary (op : BinaryOp)
  | unary (op : UnaryOp)
  /-- The total of a series, of each group, or of each column. -/
  | sum
  /-- The rows where a mask is true. -/
  | filter
  /-- The rows whose labels lie in a range. -/
  | sliceLabel
  /-- The rows whose positions lie in a range. -/
  | sliceInteger
  /-- A cast to a named kind. -/
  | castTo
  /-- The label of the greatest cell. -/
  | indexOfMax
  /-- The cell under a label. -/
  | atIndex
  /-- A name for the result; the result itself stays. -/
  | nameAs
  /-- Columns side by side. -/
  | hstack
  /-- A series with a grouping key for every row. -/
  | groupBy
  /-- Binds a name. -/
  | declare
  /-- Reads a bound name. -/
  | refer
  /-- Statements in order; the last one is the result. -/
  | execute
  /-- The length of the left interval. -/
  | lengthOfLeft
  /-- The lengths of the right intervals. -/
  | lengthOfRight
  /-- The overlaps of the left interval with the right ones. -/
  | lengthOfOverlap
  /-- The length of the left interval over each overlap. -/
  | fractionOfLeft
  /-- The length of each right interval over its overlap. -/
  | fractionOfRight
  deriving DecidableEq

/-- What may stand in the place of a child. -/
inductive Slot where
  /-- A node. -/
  | node
  /-- A node or a scalar literal. -/
  | any
  /-- A text literal. -/
  | text
  /-- A range literal of one kind. -/
  | range (kind : RangeKind)
  deriving DecidableEq

/-- The description of a slot in messages. -/
def Slot.describe : Slot → String
  | node => "an expression node"
  | any => "an expression node or scalar literal"
  | text => "a text literal"
  | range .label => "a label range literal"
  | range .position => "a position range literal"

/-- Which children an action accepts. -/
inductive Arity where
  /-- One child for each slot. -/
  | fixed (slots : List Slot)
  /-- One child or more, all in the same kind of slot. -/
  | variadic (slot : Slot)
  deriving DecidableEq

namespace Action

/-- The name of an action, as derived column names show it. -/
def name : Action → String
  | leftColumn => "left_column"
  | rightColumn => "right_column"
  | binary op => op.symbol
  | unary op => op.symbol
  | sum => "sum"
  | filter => "filter"
  | sliceLabel => "slice_label"
  | sliceInteger => "slice_integer"
  | castTo => "astype"
  | indexOfMax => "index_of_max"
  | atIndex => "at_index"
  | nameAs => "alias"
  | hstack => "hstack"
  | groupBy => "groupby"
  | declare => "declare"
  | refer => "refer"
  | execute => "execute"
  | lengthOfLeft => "length_of_left"
  | lengthOfRight => "length_of_right"
  | lengthOfOverlap => "length_of_overlap"
  | fractionOfLeft => "fraction_of_left"
  | fractionOfRight => "fraction_of_right"

/-- All actions. -/
def all : List Action :=
  [BinaryOp.add, .sub, .mul, .div, .gt, .lt, .eq, .and, .or].map binary
    ++ [UnaryOp.not, .neg, .isna].map unary
    ++ [leftColumn, rightColumn, sum, filter, sliceLabel, sliceInteger, castTo, indexOfMax, atIndex,
      nameAs, hstack, groupBy, declare, refer, execute, lengthOfLeft, lengthOfRight,
      lengthOfOverlap, fractionOfLeft, fractionOfRight]

theorem mem_all (a : Action) : a ∈ all := by
  cases a with
  | binary op => cases op <;> decide
  | unary op => cases op <;> decide
  | _ => decide

/-- The action of a name. -/
def ofName? (s : String) : Option Action := all.find? fun a => a.name == s

/-- No two actions share a name. -/
theorem ofName?_name (a : Action) : ofName? a.name = some a := by
  cases a with
  | binary op => cases op <;> rfl
  | unary op => cases op <;> rfl
  | _ => rfl

/-- Which children an action accepts. -/
def arity : Action → Arity
  | leftColumn | rightColumn | refer => .fixed [.text]
  | binary _ => .fixed [.any, .any]
  | unary _ => .fixed [.any]
  | sum | indexOfMax => .fixed [.node]
  | filter | groupBy => .fixed [.node, .node]
  | sliceLabel => .fixed [.node, .range .label]
  | sliceInteger => .fixed [.node, .range .position]
  | castTo | nameAs => .fixed [.node, .text]
  | atIndex => .fixed [.node, .any]
  | declare => .fixed [.text, .any]
  | hstack => .variadic .node
  | execute => .variadic .any
  | lengthOfLeft | lengthOfRight | lengthOfOverlap | fractionOfLeft | fractionOfRight => .fixed []

/-- Does the action read a column by name? The child of such a node is a name and not a subtree. -/
def isColumnReference : Action → Bool
  | leftColumn | rightColumn => true
  | _ => false

/-- Does the action make or read bindings, or put statements in order? -/
def usesBindings : Action → Bool
  | declare | refer | execute => true
  | _ => false

end Action

end SpanJoin
