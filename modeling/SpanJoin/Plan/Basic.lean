import SpanJoin.Eval.Basic
import SpanJoin.Tree.Build

/-!
# Plans

A plan is a list of named trees, the declarations, and a root that may refer to them. There are
three ways to read a plan: to evaluate the declarations in order and then the root (`Plan.eval`), to
write it as one tree that declares the names and then gives the root (`Plan.toTree`), and to put the
declared trees in the place of the references to them (`Plan.expand`).
-/

namespace SpanJoin

/-- Named trees and a root that may refer to them. -/
structure Plan where
  declarations : List (String × Tree)
  root : Tree
  deriving DecidableEq

namespace Tree

mutual

/-- The tree with references replaced. `body` gives, for a name that is to be replaced, the tree to
put there, if there is one; there is no answer if one is lacking. -/
def graft (body : String → Option (Option Tree)) : Tree → Option Tree
  | .literal l => some (.literal l)
  | .node action cs =>
    match (if action = .refer then (cs.head?.bind text?).bind body else none) with
    | some replacement => replacement
    | none => (graftEach body cs).map (.node action)

/-- The trees of a list with references replaced. -/
def graftEach (body : String → Option (Option Tree)) : List Tree → Option (List Tree)
  | [] => some []
  | c :: cs =>
    match c.graft body, graftEach body cs with
    | some d, some ds => some (d :: ds)
    | _, _ => none

end

end Tree

namespace Plan

/-- The tree declared first under a name. -/
def declaration? (p : Plan) (name : String) : Option Tree := p.declarations.lookup name

/-! ## Expansion -/

/-- The tree with references to declarations replaced by the declared trees, in these again, and so
on for at most `depth` levels; `none` if that is not enough. -/
def expandWithin (p : Plan) : Nat → Tree → Option Tree
  | 0 => Tree.graft fun name => (p.declaration? name).map fun _ => none
  | depth + 1 => Tree.graft fun name => (p.declaration? name).map (p.expandWithin depth)

/-- The tree with all references to declarations replaced by the declared trees, all the way down.
Replacements nested deeper than there are declarations go in a circle; there is no answer then. -/
def expand (p : Plan) (t : Tree) : Option Tree := p.expandWithin p.declarations.length t

/-! ## One tree -/

/-- The plan as one tree: the declarations as statements before the root. A plan without
declarations whose root has no node below it is the root. -/
def toTree (p : Plan) : Except TreeError Tree :=
  if p.declarations.isEmpty && p.root.isLeaf then .ok p.root
  else Tree.execute ((p.declarations.map fun d => Tree.declare d.1 d.2) ++ [p.root])

/-! ## Evaluation -/

/-- The environment with the declarations evaluated and bound in order. -/
def bindEach (c : Context) : List (String × Tree) → Environment → Evaluated Unit
  | [], env => (.ok (), env)
  | d :: rest, env =>
    match d.2.evalIn c env with
    | (.ok value, env) => bindEach c rest (env.bind d.1 value)
    | (.error e, env) => (.error e, env)

/-- The value of the root after the declarations, starting without bindings. -/
def eval (c : Context) (p : Plan) : Outcome TreeError Datum :=
  match bindEach c p.declarations .empty with
  | (.ok _, env) => (p.root.evalIn c env).1
  | (.error e, _) => .error e

end Plan

end SpanJoin
