import SpanJoin.Outcome
import SpanJoin.Tree.Basic
import SpanJoin.Tree.Error

/-!
# Derived names

The name of a column is derived from the tree that computes it: a column reference has the name of
its column, a node that gives a name has that name, a filter has the name of what it filters, and
any other node has its action's name followed by the names of its children in parentheses. That
stops at two children.
-/

namespace SpanJoin.Tree

/-- The name derived from a tree. -/
def outputName : Tree → Outcome TreeError String
  | .literal l => .ok l.display
  | .node .leftColumn (c :: _) => c.outputName
  | .node .leftColumn [] => .error .outOfRange
  | .node .rightColumn (c :: _) => c.outputName
  | .node .rightColumn [] => .error .outOfRange
  | .node .nameAs (_ :: c :: _) => c.outputName
  | .node .nameAs _ => .error .outOfRange
  | .node .filter (c :: _) => c.outputName
  | .node .filter [] => .error .outOfRange
  | .node a [] => .ok a.name
  | .node a [c] =>
    match c.outputName with
    | .ok n => .ok (a.name ++ "(" ++ n ++ ")")
    | .error e => .error e
  | .node a [c, d] =>
    match c.outputName with
    | .error e => .error e
    | .ok m =>
      match d.outputName with
      | .ok n => .ok (a.name ++ "(" ++ m ++ "," ++ n ++ ")")
      | .error e => .error e
  | .node a cs => .error (.error (.unnameable a cs.length))

end SpanJoin.Tree
