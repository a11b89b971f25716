import SpanJoin.Cell.Order
import SpanJoin.Collection.Sort
import SpanJoin.Collection.Upsert
import SpanJoin.Tree.Error

/-!
# Grouped series

The groups of a grouped series are its rows by key: rows with a missing key belong to no group, keys
are matched as labels (`Cell.sameLabel`), and a group has the key of its first row. Groups come in
ascending order of their keys; between keys that do not compare, truth values come before numbers
and numbers before texts.
-/

namespace SpanJoin

/-- A grouping key with the positions of its rows. -/
structure KeyedRows where
  key : Cell
  positions : List Nat
  deriving DecidableEq

namespace KeyedRows

/-- The groups with one more row: it joins the first group whose key matches, or founds a group at
the end. -/
def add (key : Cell) (position : Nat) (groups : List KeyedRows) : List KeyedRows :=
  upsert (fun g => g.key.sameLabel key)
    (fun g => { g with positions := g.positions ++ [position] }) ⟨key, [position]⟩ groups

/-- The groups in order of their first rows. -/
def collect (keys : List Cell) : List KeyedRows :=
  keys.zipIdx.foldl (fun groups row => if row.1.isMissing then groups else add row.1 row.2 groups)
    []

/-- Is the key of the first group not above that of the second? -/
def keyLE (g h : KeyedRows) : Bool := g.key.orderKey h.key != .gt

end KeyedRows

namespace GroupedSeries

/-- A series with the cells of another one as keys; both must carry equal labels in the same
order. -/
def ofSeries (series keys : Series) : Except TreeError GroupedSeries :=
  if series.alignedWith keys then .ok ⟨keys.cells, series⟩ else .error (.misaligned .groupBy)

/-- The distinct keys in ascending order, each with the positions of its rows. -/
def groups (g : GroupedSeries) : List KeyedRows :=
  sortBy KeyedRows.keyLE (KeyedRows.collect g.keys)

end GroupedSeries

end SpanJoin
