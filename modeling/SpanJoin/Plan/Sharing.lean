import SpanJoin.Collection.Sort
import SpanJoin.Collection.Upsert
import SpanJoin.Plan.Reorder
import SpanJoin.Tree.Canonical

/-!
# Sharing of repeated subtrees

`Tree.share` compiles a tree into a plan in which every subtree that occurs more than once is
declared once and referred to wherever it occurred. Subtrees are told apart by their canonical
forms. They are numbered in the order in which a walk level by level first meets them. Their
declarations are sorted by height and then brought into order, so that a declaration refers to
earlier ones only. A subtree that makes or reads bindings is never moved. The name of a side-by-side
column is derived from its tree, so a column whose tree changes is given the name that it had.
-/

namespace SpanJoin

namespace Tree

/-! ## Occurrences -/

/-- The nodes at a depth with their paths, from left to right. Children of column references are
names and not subtrees. -/
def nodesAt : Nat → Tree → List (Path × Tree)
  | _, .literal _ => []
  | 0, t => [([], t)]
  | depth + 1, .node action cs =>
    if action.isColumnReference then []
    else cs.zipIdx.flatMap fun (c, i) => (nodesAt depth c).map fun (path, t) => (i :: path, t)

/-- All nodes with their paths, level by level. -/
def nodes (t : Tree) : List (Path × Tree) :=
  (List.range t.height).flatMap fun depth => nodesAt depth t

end Tree

/-- A subtree with the paths at which it occurs, the first one apart. -/
structure Occurrence where
  /-- The canonical form, which tells subtrees apart. -/
  key : Tree
  subtree : Tree
  first : Path
  others : List Path

namespace Occurrence

/-- The occurrences with one more: at the subtree of the same key, or as a new subtree at the end.
-/
def add (key subtree : Tree) (path : Path) (found : List Occurrence) : List Occurrence :=
  upsert (fun o => o.key = key) (fun o => { o with others := o.others ++ [path] })
    ⟨key, subtree, path, []⟩ found

/-- The occurrences after some more nodes. Nodes that make or read bindings are left out. -/
def collect : List Occurrence → List (Path × Tree) → Except TreeError (List Occurrence)
  | found, [] => .ok found
  | found, (path, t) :: rest =>
    if t.usesBindings then collect found rest
    else
      match t.canonical with
      | .ok key => collect (add key t path found) rest
      | .error e => .error e

/-- All paths at which the subtree occurs. -/
def paths (o : Occurrence) : List Path := o.first :: o.others

end Occurrence

/-- The name of the declaration with number `n`. -/
def subtreeName (n : Nat) : String := "subtree_" ++ toString n

/-- The repeated subtrees with the names of their declarations. -/
def nameRepeated (found : List Occurrence) : List (String × Occurrence) :=
  (found.filter fun o => !o.others.isEmpty).zipIdx.map fun (o, n) => (subtreeName n, o)

/-- The name of the declaration that takes the place of the subtree at a path. -/
def nameAt? (repeated : List (String × Occurrence)) (path : Path) : Option String :=
  (repeated.find? fun r => r.2.paths.contains path).map Prod.fst

namespace Tree

/-! ## References in place of subtrees -/

/-- A side-by-side column under the name of the tree that it had before. A column without a name
keeps its tree. -/
def keepName (before after : Tree) : Outcome TreeError Tree :=
  if after.equal before then .ok after
  else
    match before.outputName, after with
    | .ok name, .node action cs => .ok (nameAs (.node action cs) name)
    | .error .outOfRange, _ => .error .outOfRange
    | _, _ => .ok before

mutual

/-- The tree with the outermost named subtrees below its root replaced by references. `names` gives
the names by path. -/
def abbreviate (names : Path → Option String) : Tree → Outcome TreeError Tree
  | .literal l => .ok (.literal l)
  | .node action cs => (abbreviateEach action names 0 cs).map (.node action)

/-- The children of a node from position `i` on, with named subtrees replaced by references. -/
def abbreviateEach (action : Action) (names : Path → Option String) (i : Nat) :
    List Tree → Outcome TreeError (List Tree)
  | [] => .ok []
  | c :: cs => do
    let d ←
      match names [i] with
      | some name => .ok (refer name)
      | none => c.abbreviate fun path => names (i :: path)
    let d ← if action = .hstack then keepName c d else .ok d
    let ds ← abbreviateEach action names (i + 1) cs
    return d :: ds

end

/-- The declaration of a repeated subtree: its name, and the subtree with what is repeated in it
replaced. -/
def declarationOf (repeated : List (String × Occurrence)) (r : String × Occurrence) :
    Outcome TreeError (String × Tree) := do
  let body ← r.2.subtree.abbreviate fun path => nameAt? repeated (r.2.first ++ path)
  return (r.1, body)

/-- Is the first subtree not higher than the second? -/
def heightLE (r s : String × Occurrence) : Bool := r.2.subtree.height ≤ s.2.subtree.height

/-- The plan of a tree in which every repeated subtree is declared once. A tree without a node below
its root is left as it is. -/
def share (t : Tree) : Outcome PlanError Plan :=
  if t.isLeaf then .ok ⟨[], t⟩
  else do
    let found ← (Outcome.ofExcept (Occurrence.collect [] t.nodes)).mapError .tree
    let repeated := nameRepeated found
    let declarations ← ((sortBy heightLE repeated).mapM (declarationOf repeated)).mapError .tree
    let declarations ← Outcome.ofExcept (Plan.settle declarations)
    let root ← (t.abbreviate (nameAt? repeated)).mapError .tree
    return ⟨declarations, root⟩

end Tree

end SpanJoin
