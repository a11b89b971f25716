import SpanJoin.Cell.Order
import SpanJoin.DataError
import SpanJoin.Outcome

/-!
# Series

A `Series` is a column of cells with one label per cell, and perhaps a name. Labels need not be
distinct; the first match counts. The rows that a range selects are given by their positions:
`labelRange` by the order of the labels, both ends included, and `positionRange` by counting, the
end excluded and negative bounds counting from the end.
-/

namespace SpanJoin

/-- A column of cells with one label per cell. -/
structure Series where
  name : Option String
  index : List Cell
  cells : List Cell
  deriving DecidableEq

namespace Series

/-- A series without a name over the given labels, of which there must be as many as cells. -/
def ofIndex (index cells : List Cell) : Except DataError Series :=
  if index.length = cells.length then .ok ⟨none, index, cells⟩
  else .error (.lengthMismatch .seriesIndex cells.length index.length)

/-- A series labelled by position. -/
def ofCells (cells : List Cell) : Series := ⟨none, Cell.counting cells.length, cells⟩

/-- The same series under a name. -/
def named (s : Series) (name : String) : Series := { s with name := some name }

/-- The number of cells. -/
def size (s : Series) : Nat := s.cells.length

/-- Are there no cells? -/
def isEmpty (s : Series) : Bool := s.cells.isEmpty

/-- Do two series carry equal labels in the same order? -/
def alignedWith (s t : Series) : Bool := s.index == t.index

/-- The cell at the first label that matches, if one does. A label that has no cell leads to a
missing position. -/
def get? {ε : Type} (s : Series) (label : Cell) : Outcome ε (Option Cell) :=
  match s.index.findIdx? fun l => l.sameLabel label with
  | some p => (Outcome.ofOption s.cells[p]?).map some
  | none => .ok none

/-- The same labels and name over other cells. -/
def withCells (s : Series) (cells : List Cell) : Except DataError Series :=
  (ofIndex s.index cells).map fun t => { t with name := s.name }

/-- The rows at the given positions, in that order; `none` if a position does not exist. -/
def take? (s : Series) (positions : List Nat) : Option Series := do
  let index ← positions.mapM fun p => s.index[p]?
  let cells ← positions.mapM fun p => s.cells[p]?
  return ⟨s.name, index, cells⟩

/-- The better of the best cell so far and the next one, both with their positions: a missing cell
never is, and another cell only if it is greater than the best. -/
def greaterCell (best : Option (Cell × Nat)) (next : Cell × Nat) : Option (Cell × Nat) :=
  if next.1.isMissing then best
  else
    match best with
    | none => some next
    | some b => if next.1.compare? b.1 == some .gt then some next else some b

/-- The label of the first greatest cell among those that are not missing, if there is one. A cell
that has no label leads to a missing position. -/
def labelOfMax? {ε : Type} (s : Series) : Outcome ε (Option Cell) :=
  match s.cells.zipIdx.foldl greaterCell none with
  | some best => (Outcome.ofOption s.index[best.2]?).map some
  | none => .ok none

end Series

/-! ## Ranges of rows -/

/-- Is the label at or after the bound? A label that does not compare with it is not. -/
def Cell.reaches (label : Cell) (bound : Int64) : Bool :=
  match label.compare? (.int bound) with
  | some .gt | some .eq => true
  | _ => false

/-- Is the label at or before the bound? A label that does not compare with it is not. -/
def Cell.within (label : Cell) (bound : Int64) : Bool :=
  match label.compare? (.int bound) with
  | some .lt | some .eq => true
  | _ => false

/-- The positions of the labels from `start` to `stop`, both included; an absent bound excludes
nothing. -/
def labelRange (index : List Cell) (start stop : Option Int64) : List Nat :=
  (List.range index.length).filter fun p =>
    match index[p]? with
    | some label => start.all label.reaches && stop.all label.within
    | none => false

/-- The position that a bound means among `n` rows: a negative one counts from the end, and one
outside the rows means their nearest end. -/
def resolveBound (n : Nat) (bound : Int64) : Nat :=
  if bound.toInt < 0 then ((n : Int) + bound.toInt).toNat else min bound.toInt.toNat n

/-- The positions from `start` up to but not including `stop` among `n` rows. -/
def positionRange (n : Nat) (start stop : Option Int64) : List Nat :=
  let first := (start.map (resolveBound n)).getD 0
  let last := (stop.map (resolveBound n)).getD n
  List.range' first (last - first)

end SpanJoin
