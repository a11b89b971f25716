import SpanJoin.Cell.Order
import SpanJoin.Tree.Error

/-!
# Columns side by side

Series under names are put side by side in one frame. The rows of the frame are the labels of all
parts, each once (`Cell.sameLabel`), in order of first appearance; a part without a label has `null`
there.
-/

namespace SpanJoin

/-- A series under the name of the column that it becomes. -/
structure Part where
  name : String
  series : Series
  deriving DecidableEq

namespace Part

/-- The labels found so far with one more, unless it is among them. -/
def addLabel (labels : List Cell) (label : Cell) : List Cell :=
  if labels.any fun l => l.sameLabel label then labels else labels ++ [label]

/-- The labels of all parts, each once, in order of first appearance. -/
def labels (parts : List Part) : List Cell :=
  (parts.flatMap fun p => p.series.index).foldl addLabel []

/-- The column of a part over the given row labels. -/
def column (index : List Cell) (p : Part) : Outcome TreeError Column :=
  (index.mapM p.series.get?).map fun cells => ⟨p.name, cells.map fun cell => cell.getD .null⟩

/-- The frame with the parts as columns. -/
def stack (parts : List Part) : Outcome TreeError Datum := do
  let index := labels parts
  let columns ← parts.mapM (column index)
  let t ← Outcome.ofExcept ((Table.ofIndex index columns).mapError .data)
  return .frame t

/-- The columns of a frame as parts. -/
def ofTable (t : Table) : Except TreeError (List Part) :=
  (t.columns.mapM fun (c : Column) => do
    let s ← Series.ofIndex t.index c.cells
    return (⟨c.name, s⟩ : Part)).mapError .data

end Part

end SpanJoin
