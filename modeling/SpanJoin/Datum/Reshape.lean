import SpanJoin.Cell.Cast
import SpanJoin.Datum.Total
import SpanJoin.Datum.Group

/-!
# Reductions and selections of data

Totals, filters, slices, casts and look-ups by label: the actions of a tree that act on whole series
and frames once their operands are evaluated.
-/

namespace SpanJoin

namespace Datum

/-- The total of one group: of the cells at its positions. -/
def groupTotal (cells : List Cell) (g : KeyedRows) : Outcome TreeError Cell := do
  let chosen ← Outcome.ofOption (g.positions.mapM fun p => cells[p]?)
  Outcome.ofExcept (total chosen)

/-- The total of a series as a scalar, of a grouped series by key, or of a frame by column. -/
def sum : Datum → Outcome TreeError Datum
  | series s => Outcome.ofExcept ((total s.cells).map scalar)
  | grouped g => do
    let groups := g.groups
    let totals ← groups.mapM (groupTotal g.series.cells)
    let s ← Outcome.ofExcept ((Series.ofIndex (groups.map KeyedRows.key) totals).mapError .data)
    return series { s with name := g.series.name }
  | frame t => do
    let totals ← Outcome.ofExcept (t.columns.mapM fun c => total c.cells)
    let s ← Outcome.ofExcept
      ((Series.ofIndex (t.columns.map fun c => .text c.name) totals).mapError .data)
    return series s
  | d => .error (.error (.wrongShape .sum .summable d))

/-- The positions where a mask is true. -/
def truePositions (mask : List Cell) : List Nat :=
  (mask.zipIdx.filter fun row => decide (row.1 = .bool true)).map Prod.snd

/-- Is the cell a truth value? -/
def isTruthValue : Cell → Bool
  | .bool _ => true
  | _ => false

/-- The rows at the given positions of a series or frame. -/
def takeRows (action : Action) (positions : List Nat) : Datum → Outcome TreeError Datum
  | series s => (Outcome.ofOption (s.take? positions)).map series
  | frame t => (Outcome.ofOption (t.take? positions)).map frame
  | d => .error (.error (.wrongShape action .seriesOrFrame d))

/-- The row labels of a series or frame. -/
def index? : Datum → Option (List Cell)
  | series s => some s.index
  | frame t => some t.index
  | _ => none

/-- The number of rows of a series or frame. -/
def rowCount : Datum → Nat
  | series s => s.size
  | frame t => t.rows
  | _ => 0

/-- The rows of a value where a mask is true. The mask must be a series of truth values, with the
labels of the value. -/
def filter (value mask : Datum) : Outcome TreeError Datum :=
  match mask with
  | series m =>
    match m.cells.find? fun c => !isTruthValue c with
    | some bad => .error (.error (.maskCell bad))
    | none =>
      match value.index? with
      | none => .error (.error (.wrongShape .filter .seriesOrFrame value))
      | some index =>
        if index == m.index then value.takeRows .filter (truePositions m.cells)
        else .error (.error (.maskMisaligned value.rowCount m.size))
  | other => .error (.error (.maskShape other))

/-- The positions that a range selects among rows with the given labels. -/
def selected (r : RowRange) (index : List Cell) : List Nat :=
  match r.kind with
  | .label => labelRange index r.start r.stop
  | .position => positionRange index.length r.start r.stop

/-- The rows of a value that lie in a range. -/
def slice (action : Action) (value bounds : Datum) : Outcome TreeError Datum :=
  match bounds with
  | range r => value.takeRows action (selected r (value.index?.getD []))
  | other => .error (.error (.wrongShape action .rangeLiteral other))

/-- A scalar or the cells of a series, cast to one kind. -/
def cast (target : Kind) : Datum → Except TreeError Datum
  | scalar c => ((c.cast target).mapError .data).map scalar
  | series s => do
    let cells ← (s.cells.mapM fun (c : Cell) => c.cast target).mapError .data
    let t ← (s.withCells cells).mapError .data
    return series t
  | d => .error (.wrongShape .castTo .scalarOrSeries d)

/-- The label of the first greatest cell of a series; `null` if there is none. -/
def indexOfMax : Datum → Outcome TreeError Datum
  | series s => s.labelOfMax?.map fun label => scalar (label.getD .null)
  | d => .error (.error (.wrongShape .indexOfMax .series d))

/-- The cell of a series under a label; `null` if the label is missing or no row has it. -/
def atIndex (value key : Datum) : Outcome TreeError Datum :=
  match key with
  | scalar k =>
    match value with
    | series s =>
      if k.isMissing then .ok (scalar .null)
      else (s.get? k).map fun cell => scalar (cell.getD .null)
    | d => .error (.error (.wrongShape .atIndex .series d))
  | other => .error (.error (.wrongShape .atIndex .scalarKey other))

/-- A series with the cells of another one as grouping keys. -/
def groupBy : Datum → Datum → Except TreeError Datum
  | series s, series k => (GroupedSeries.ofSeries s k).map grouped
  | series _, other => .error (.wrongShape .groupBy .twoSeries other)
  | other, _ => .error (.wrongShape .groupBy .twoSeries other)

end Datum

end SpanJoin
