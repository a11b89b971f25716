import SpanJoin.Tree.Basic
import SpanJoin.Tree.Tag

/-!
# Outlines of trees

The outline of a tree spells out every constructor and field, as a reader of plans wants it who
looks for the exact tree and not for a formula.
-/

namespace SpanJoin

/-- The outline of an optional integer. -/
def outlineBound : Option Int64 → String
  | some n => "Some(" ++ Decimal.ofInt64 n ++ ")"
  | none => "None"

/-- The outline of a range. -/
def RowRange.outline (r : RowRange) : String :=
  let kind := match r.kind with
    | .label => "Label"
    | .position => "Position"
  "RangeLiteral \x7b kind: " ++ kind ++ ", start: " ++ outlineBound r.start ++ ", end: "
    ++ outlineBound r.stop ++ " \x7d"

/-- The outline of a literal. -/
def Literal.outline : Literal → String
  | int n => "Int(" ++ Decimal.ofInt64 n ++ ")"
  | float x => "Float(" ++ Decimal.spellFloat x ++ ")"
  | bool b => "Bool(" ++ (Cell.bool b).display ++ ")"
  | text s => "Text(" ++ Text.quote s ++ ")"
  | range r => "Range(" ++ r.outline ++ ")"

/-- The outline of an action. -/
def Action.outline (a : Action) : String :=
  match a.tag with
  | (tag, none) => tag
  | (tag, some operator) => tag ++ "(" ++ operator ++ ")"

namespace Tree

mutual

/-- The outline of a tree. -/
def outline : Tree → String
  | .literal l => "Literal(" ++ l.outline ++ ")"
  | .node action cs =>
    "Node(Expression \x7b action: " ++ action.outline ++ ", children: ["
      ++ ", ".intercalate (outlineEach cs) ++ "] \x7d)"

/-- The outlines of the trees in a list. -/
def outlineEach : List Tree → List String
  | [] => []
  | c :: cs => c.outline :: outlineEach cs

end

end Tree

end SpanJoin
