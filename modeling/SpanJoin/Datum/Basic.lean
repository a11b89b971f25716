import SpanJoin.Table.Basic
import SpanJoin.Tree.Literal

/-!
# Data

What evaluating a tree gives: a single cell, a series, a frame of several columns, a series with a
grouping key for every row, or a range of rows.
-/

namespace SpanJoin

/-- A series with one grouping key per row. -/
structure GroupedSeries where
  keys : List Cell
  series : Series
  deriving DecidableEq

/-- The value of a tree. -/
inductive Datum where
  | scalar (c : Cell)
  | series (s : Series)
  | frame (t : Table)
  | grouped (g : GroupedSeries)
  | range (r : RowRange)
  deriving DecidableEq

namespace Datum

/-- The shape of a datum in a few words. -/
def describe : Datum → String
  | scalar c => "scalar " ++ c.display
  | series s => "series of " ++ toString s.size ++ " rows"
  | frame t =>
    "frame of " ++ toString t.rows ++ " rows and " ++ toString t.columns.length ++ " columns"
  | grouped g => "grouped series of " ++ toString g.keys.length ++ " rows"
  | range r => "range " ++ r.display

/-- The text of a datum: a scalar and the rows of a series are shown in full, all else by its
shape. -/
def display : Datum → String
  | scalar c => c.display
  | series s =>
    "[" ++ ", ".intercalate
      ((s.index.zip s.cells).map fun row => row.1.display ++ ": " ++ row.2.display) ++ "]"
  | d => d.describe

end Datum

/-- The datum that a literal stands for. -/
def Literal.datum : Literal → Datum
  | int n => .scalar (.int n)
  | float x => .scalar (.float x)
  | bool b => .scalar (.bool b)
  | text s => .scalar (.text s)
  | range r => .range r

end SpanJoin
