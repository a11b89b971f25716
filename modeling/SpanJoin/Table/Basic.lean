import SpanJoin.Outcome
import SpanJoin.Series

/-!
# Tables

A `Table` is a list of named columns over one list of row labels. `Table.ofIndex` builds one after
checking that no two columns share a name and that every column is as long as the index; the other
operations keep both.
-/

namespace SpanJoin

/-- A named column of cells. -/
structure Column where
  name : String
  cells : List Cell
  deriving DecidableEq

/-- Named columns over one list of row labels. -/
structure Table where
  index : List Cell
  columns : List Column
  deriving DecidableEq

namespace Table

/-! ## Reading -/

/-- The number of rows. -/
def rows (t : Table) : Nat := t.index.length

/-- Are there no rows? -/
def isEmpty (t : Table) : Bool := t.index.isEmpty

/-- The names of the columns, in order. -/
def names (t : Table) : List String := t.columns.map Column.name

/-- Is there a column of that name? -/
def hasColumn (t : Table) (name : String) : Bool := t.columns.any fun c => c.name == name

/-- The cells of a column. -/
def column (t : Table) (name : String) : Except DataError (List Cell) :=
  match t.columns.find? fun c => c.name == name with
  | some c => .ok c.cells
  | none => .error (.columnNotFound name)

/-- A column as a series that carries the row labels and the column's name. -/
def series (t : Table) (name : String) : Except DataError Series := do
  let cells ← t.column name
  let s ← Series.ofIndex t.index cells
  return s.named name

/-! ## Building -/

/-- The first fault among columns over `rows` rows, `seen` being the names before them: a name that
was there before, or a column of another length. -/
def checkColumns (rows : Nat) : List String → List Column → Except DataError Unit
  | _, [] => .ok ()
  | seen, c :: rest =>
    if seen.contains c.name then .error (.duplicateColumn c.name)
    else if c.cells.length ≠ rows then
      .error (.lengthMismatch (.column c.name) rows c.cells.length)
    else checkColumns rows (seen ++ [c.name]) rest

/-- A table over the given row labels. -/
def ofIndex (index : List Cell) (columns : List Column) : Except DataError Table :=
  (checkColumns index.length [] columns).map fun _ => ⟨index, columns⟩

/-- A table with its rows labelled by position; the first column says how many there are. -/
def ofColumns (columns : List Column) : Except DataError Table :=
  ofIndex (Cell.counting ((columns.head?.map fun c => c.cells.length).getD 0)) columns

/-! ## Reshaping -/

/-- The columns of those names, in that order; a name that comes again is passed over. `kept` are
the columns chosen so far. -/
def choose (t : Table) : List Column → List String → Except DataError (List Column)
  | kept, [] => .ok kept
  | kept, name :: rest =>
    if kept.any fun c => c.name == name then t.choose kept rest
    else
      match t.column name with
      | .ok cells => t.choose (kept ++ [⟨name, cells⟩]) rest
      | .error e => .error e

/-- The table with the columns of those names only, in that order. -/
def project (t : Table) (names : List String) : Except DataError Table :=
  (t.choose [] names).map fun columns => { t with columns }

/-- The same rows, labelled by position. -/
def resetIndex (t : Table) : Table := { t with index := Cell.counting t.rows }

/-- The table with one more column at the end. -/
def withColumn (t : Table) (name : String) (cells : List Cell) : Except DataError Table :=
  if t.hasColumn name then .error (.duplicateColumn name)
  else if cells.length ≠ t.rows then
    .error (.lengthMismatch (.column name) t.rows cells.length)
  else .ok { t with columns := t.columns ++ [⟨name, cells⟩] }

/-- The rows at the given positions, in that order, with their labels; `none` if a position does not
exist. -/
def take? (t : Table) (positions : List Nat) : Option Table := do
  let index ← positions.mapM fun p => t.index[p]?
  let columns ← t.columns.mapM fun c => do
    let cells ← positions.mapM fun p => c.cells[p]?
    return ({ c with cells } : Column)
  return ⟨index, columns⟩

/-- The columns of two tables with equally many rows side by side, under the labels of the first. -/
def hstack (t u : Table) : Except DataError Table :=
  if u.rows ≠ t.rows then .error (.lengthMismatch .stackedTable t.rows u.rows)
  else ofIndex t.index (t.columns ++ u.columns)

/-! ## Rows -/

/-- One row of a table. -/
structure Row where
  table : Table
  position : Nat

/-- The row at a position. -/
def row (t : Table) (position : Nat) : Except DataError Row :=
  if position < t.rows then .ok ⟨t, position⟩
  else .error (.rowOutOfBounds position t.rows)

/-- The cell of a row in the column of that name. -/
def Row.get (r : Row) (name : String) : Outcome DataError Cell := do
  let cells ← Outcome.ofExcept (r.table.column name)
  Outcome.ofOption cells[r.position]?

end Table

end SpanJoin
