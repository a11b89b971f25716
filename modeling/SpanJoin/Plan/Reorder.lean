import SpanJoin.Plan.Basic

/-!
# Declarations brought into order

`Plan.settle` exchanges declarations until none refers to a later one. A pass looks at every two of
them and exchanges the two if the earlier one refers to the later one. Passes follow each other
until one exchanges nothing. Declarations that refer to each other in a circle never come to rest,
so there is a limit to the passes.
-/

namespace SpanJoin

/-- Why a tree has no plan. -/
inductive PlanError where
  /-- A tree cannot be taken apart. -/
  | tree (cause : TreeError)
  /-- The declarations were still changing places after so many passes. -/
  | circularDeclaration (passes : Nat)
  deriving DecidableEq

/-- The wording of an error. -/
def PlanError.message : PlanError → String
  | tree cause => cause.message
  | circularDeclaration passes =>
    "Declaration order did not settle after " ++ toString passes ++ " passes"

namespace Plan

/-- Does the declaration at the first position refer to the one at the second? -/
def refersAt (ds : List (String × Tree)) (i j : Nat) : Bool :=
  match ds[i]?, ds[j]? with
  | some d, some e => d.2.contains (.refer e.1)
  | _, _ => false

/-- The declarations with the two at the given positions in each other's place. -/
def exchange (ds : List (String × Tree)) (i j : Nat) : List (String × Tree) :=
  match ds[i]?, ds[j]? with
  | some d, some e => (ds.set i e).set j d
  | _, _ => ds

/-- The declarations after a look at pairs of positions, one after the other, and whether any two
changed places. -/
def exchangeEach : List (Nat × Nat) → List (String × Tree) → List (String × Tree) × Bool
  | [], ds => (ds, false)
  | (i, j) :: rest, ds =>
    if refersAt ds i j then ((exchangeEach rest (exchange ds i j)).1, true)
    else exchangeEach rest ds

/-- Every two positions below `n`, the lower one first. -/
def positionPairs (n : Nat) : List (Nat × Nat) :=
  (List.range n).flatMap fun i => (List.range' (i + 1) (n - (i + 1))).map fun j => (i, j)

/-- How many passes there are at most. -/
def maxPasses : Nat := 50

/-- The declarations after a pass that exchanged nothing, which is to come among the next ones. -/
def settleWithin : Nat → List (String × Tree) → Except PlanError (List (String × Tree))
  | 0, _ => .error (.circularDeclaration maxPasses)
  | passes + 1, ds =>
    match exchangeEach (positionPairs ds.length) ds with
    | (ds, false) => .ok ds
    | (ds, true) => settleWithin passes ds

/-- The declarations in an order in which none refers to a later one. -/
def settle (ds : List (String × Tree)) : Except PlanError (List (String × Tree)) :=
  settleWithin maxPasses ds

end Plan

end SpanJoin
