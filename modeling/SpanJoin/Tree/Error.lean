import SpanJoin.Datum.Basic
import SpanJoin.Tree.Action

/-!
# Errors of trees

The causes for which building, naming or evaluating a tree fails, and the wording of each.
-/

namespace SpanJoin

/-- What combined cells that do not go together. -/
inductive Operation where
  | action (a : Action)
  /-- The overlap of two intervals. -/
  | overlap
  deriving DecidableEq

/-- The name of an operation in messages. -/
def Operation.name : Operation → String
  | action a => a.name
  | overlap => "overlap"

/-- How many children were expected. -/
inductive Count where
  | exactly (n : Nat)
  | atLeastOne
  deriving DecidableEq

/-- The description of a count in messages. -/
def Count.describe : Count → String
  | exactly n => toString n
  | atLeastOne => "at least 1"

/-- Which shape of operand was expected. -/
inductive Shape where
  | scalarOrSeries
  | series
  | twoSeries
  | summable
  | seriesOrFrame
  | rangeLiteral
  | scalarKey
  | seriesOrFrames
  deriving DecidableEq

/-- The description of a shape in messages. -/
def Shape.describe : Shape → String
  | scalarOrSeries => "a scalar or series"
  | series => "a series"
  | twoSeries => "two series"
  | summable => "a series, grouped series or frame"
  | seriesOrFrame => "a series or frame"
  | rangeLiteral => "a range literal"
  | scalarKey => "a scalar key"
  | seriesOrFrames => "series or frames"

/-- Why a tree is refused, has no name or has no value. -/
inductive TreeError where
  /-- A literal that is not a number has no identity. -/
  | nanLiteral
  /-- A node was taken for a truth value. -/
  | booleanCoercion
  | invalidArity (action : Action) (expected : Count) (actual : Nat)
  | invalidChild (action : Action) (position : Nat) (expected : Slot)
  /-- Only nodes with at most two children have a derived name. -/
  | unnameable (action : Action) (arity : Nat)
  | invalidOperands (operation : Operation) (left right : Option Kind)
  /-- Two series with different row labels. -/
  | misaligned (action : Action)
  | maskShape (found : Datum)
  /-- A mask with a cell that is not a truth value. -/
  | maskCell (found : Cell)
  | maskMisaligned (rows maskRows : Nat)
  | wrongShape (action : Action) (expected : Shape) (found : Datum)
  | undeclared (name : String)
  | data (cause : DataError)
  deriving DecidableEq

namespace TreeError

/-- The spelling of a kind that may be absent. -/
def spellKind : Option Kind → String
  | some kind => "Some(" ++ kind.name ++ ")"
  | none => "None"

/-- The wording of an error. -/
def message : TreeError → String
  | nanLiteral => "Literal NaN is not hashable"
  | booleanCoercion =>
    "an expression node has no truth value; compose symbolic booleans with "
      ++ "Expression::logical_and, Expression::logical_or and Expression::logical_not, "
      ++ "which build a tree instead of evaluating one"
  | invalidArity action expected actual =>
    "Action " ++ action.name ++ " expects " ++ expected.describe ++ " children, got "
      ++ toString actual
  | invalidChild action position expected =>
    "Child " ++ toString position ++ " of " ++ action.name ++ " must be " ++ expected.describe
  | unnameable action arity =>
    "Cannot derive an output name for " ++ action.name ++ " with " ++ toString arity ++ " children"
  | invalidOperands operation left right =>
    "Invalid operand types for operator " ++ operation.name ++ ": left=" ++ spellKind left
      ++ ", right=" ++ spellKind right
  | misaligned action => "Operands of " ++ action.name ++ " are not aligned by row"
  | maskShape found => "Filter mask must be a boolean vector, got " ++ found.describe
  | maskCell found =>
    "Filter mask must be a boolean vector, got series containing " ++ found.display
  | maskMisaligned rows maskRows =>
    "Filter mask is not aligned to its series (" ++ toString rows ++ " rows vs "
      ++ toString maskRows ++ " mask rows)"
  | wrongShape action expected found =>
    action.name ++ " expects " ++ expected.describe ++ ", got " ++ found.describe
  | undeclared name => "Reference to undeclared name: " ++ name
  | data cause => cause.message

end TreeError

end SpanJoin
