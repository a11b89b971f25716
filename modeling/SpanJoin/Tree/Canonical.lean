import SpanJoin.Tree.Basic
import SpanJoin.Tree.Error

/-!
# Canonical trees

The canonical form of a tree is the tree with negative zeros made positive. A tree with a literal
that is not a number has none. Two trees with canonical forms are taken for the same subtree exactly
if these forms are identical.
-/

namespace SpanJoin

/-- The canonical form of a literal. -/
def Literal.canonical : Literal → Except TreeError Literal
  | .float x =>
    if x.isNaN then .error .nanLiteral
    else if x == 0 then .ok (.float 0)
    else .ok (.float x)
  | l => .ok l

namespace Tree

mutual

/-- The canonical form of a tree. -/
def canonical : Tree → Except TreeError Tree
  | .literal l =>
    match l.canonical with
    | .ok k => .ok (.literal k)
    | .error e => .error e
  | .node a cs =>
    match canonicalEach cs with
    | .ok ks => .ok (.node a ks)
    | .error e => .error e

/-- The canonical forms of the trees in a list. -/
def canonicalEach : List Tree → Except TreeError (List Tree)
  | [] => .ok []
  | c :: cs =>
    match c.canonical with
    | .error e => .error e
    | .ok k =>
      match canonicalEach cs with
      | .ok ks => .ok (k :: ks)
      | .error e => .error e

end

end Tree

end SpanJoin
