import SpanJoin.Tree.Action

/-!
# Constructor names

The tag of an action is the name of its constructor, with the name of the operator in it for the
actions that have one. Persisted trees and outlines of trees show tags, where messages and derived
column names show `Action.name`.
-/

namespace SpanJoin

/-- The constructor name of an operator with two operands. -/
def BinaryOp.tag : BinaryOp → String
  | add => "Add"
  | sub => "Sub"
  | mul => "Mul"
  | div => "Div"
  | gt => "Gt"
  | lt => "Lt"
  | eq => "Eq"
  | and => "And"
  | or => "Or"

/-- The constructor name of an operator with one operand. -/
def UnaryOp.tag : UnaryOp → String
  | not => "Not"
  | neg => "Neg"
  | isna => "IsNa"

namespace Action

/-- The constructor name of an action, and that of the operator in it. -/
def tag : Action → String × Option String
  | leftColumn => ("LeftColumn", none)
  | rightColumn => ("RightColumn", none)
  | binary op => ("Binary", some op.tag)
  | unary op => ("Unary", some op.tag)
  | sum => ("Sum", none)
  | filter => ("Filter", none)
  | sliceLabel => ("SliceLabel", none)
  | sliceInteger => ("SliceInteger", none)
  | castTo => ("AsType", none)
  | indexOfMax => ("IndexOfMax", none)
  | atIndex => ("AtIndex", none)
  | nameAs => ("Alias", none)
  | hstack => ("HStack", none)
  | groupBy => ("GroupBy", none)
  | declare => ("Declare", none)
  | refer => ("Refer", none)
  | execute => ("Execute", none)
  | lengthOfLeft => ("LengthOfLeft", none)
  | lengthOfRight => ("LengthOfRight", none)
  | lengthOfOverlap => ("LengthOfOverlap", none)
  | fractionOfLeft => ("FractionOfLeft", none)
  | fractionOfRight => ("FractionOfRight", none)

/-- No two actions share a tag. -/
theorem tag_injective {a b : Action} (h : a.tag = b.tag) : a = b := by
  have found (c : Action) : all.find? (fun d => d.tag == c.tag) = some c := by
    cases c with
    | binary op => cases op <;> rfl
    | unary op => cases op <;> rfl
    | _ => rfl
  exact Option.some.inj ((found a).symm.trans (h ▸ found b))

end Action

end SpanJoin
