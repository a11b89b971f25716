import SpanJoin.Tree.Basic

/-!
# The columns that a tree reads

`Tree.columns?` collects the names that occur in the column references of a tree, for the left and
for the right table. It does not look below a column reference. A column reference without a child
has no name to give, and there is no answer then; one whose first child is no text names no column.
-/

namespace SpanJoin

/-- A text at its place in an ascending list without repetitions. -/
def insertName (name : String) : List String → List String
  | [] => [name]
  | n :: rest =>
    if name < n then name :: n :: rest
    else if name = n then n :: rest
    else n :: insertName name rest

/-- The columns that are read from the two tables, each list ascending without repetitions. -/
structure ColumnNames where
  left : List String
  right : List String
  deriving DecidableEq

namespace ColumnNames

/-- No columns. -/
def empty : ColumnNames := ⟨[], []⟩

/-- One more column of the left table, if the child of the reference names one. -/
def addLeft (ns : ColumnNames) (child : Tree) : ColumnNames :=
  match child.text? with
  | some name => { ns with left := insertName name ns.left }
  | none => ns

/-- One more column of the right table, if the child of the reference names one. -/
def addRight (ns : ColumnNames) (child : Tree) : ColumnNames :=
  match child.text? with
  | some name => { ns with right := insertName name ns.right }
  | none => ns

end ColumnNames

namespace Tree

mutual

/-- The columns collected so far together with those of a tree. -/
def addColumns? : Tree → ColumnNames → Option ColumnNames
  | .literal _, ns => some ns
  | .node .leftColumn cs, ns => cs.head?.map ns.addLeft
  | .node .rightColumn cs, ns => cs.head?.map ns.addRight
  | .node _ cs, ns => addColumnsEach? cs ns

/-- The columns collected so far together with those of the trees in a list. -/
def addColumnsEach? : List Tree → ColumnNames → Option ColumnNames
  | [], ns => some ns
  | c :: cs, ns =>
    match c.addColumns? ns with
    | some ns => addColumnsEach? cs ns
    | none => none

end

/-- The columns that a tree reads. -/
def columns? (t : Tree) : Option ColumnNames := t.addColumns? .empty

end Tree

end SpanJoin
