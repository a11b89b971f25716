import SpanJoin.Cell.Basic

/-!
# Errors of cells, series and tables

The causes for which building or reshaping data is refused, and the wording of each.
-/

namespace SpanJoin

/-- What has the wrong number of rows. -/
inductive Extent where
  | seriesIndex
  | column (name : String)
  | stackedTable
  deriving DecidableEq

/-- The name of an extent in messages. -/
def Extent.name : Extent → String
  | seriesIndex => "series index"
  | column name => "column " ++ name
  | stackedTable => "hstack"

/-- Why data is refused. -/
inductive DataError where
  | columnNotFound (name : String)
  | duplicateColumn (name : String)
  | lengthMismatch (extent : Extent) (expected actual : Nat)
  | rowOutOfBounds (position rows : Nat)
  | castFailed (cell : Cell) (target : Kind)
  | unknownKind (name : String)
  deriving DecidableEq

/-- The wording of an error. -/
def DataError.message : DataError → String
  | columnNotFound name => "Column not found: " ++ name
  | duplicateColumn name => "Duplicate column: " ++ name
  | lengthMismatch extent expected actual =>
    "Length mismatch for " ++ extent.name ++ ": expected " ++ toString expected ++ " rows, got "
      ++ toString actual
  | rowOutOfBounds position rows =>
    "Row position " ++ toString position ++ " out of bounds for table with " ++ toString rows
      ++ " rows"
  | castFailed cell target => "Cannot cast " ++ cell.spelled ++ " to " ++ target.name
  | unknownKind name => "Unknown data type: " ++ name

/-- The kind that a type name means, or the error that there is none. -/
def Kind.parse (name : String) : Except DataError Kind :=
  match ofName? name with
  | some kind => .ok kind
  | none => .error (.unknownKind name)

end SpanJoin
