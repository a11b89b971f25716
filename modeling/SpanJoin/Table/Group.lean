import SpanJoin.Collection.Upsert
import SpanJoin.Table.Basic

/-!
# Grouping rows by key

The key of a row is the list of its cells in the key columns. Rows with a missing cell in their key
belong to no group; all others are grouped by equality of keys (`==`), so the two zeros agree and an
integer never agrees with a floating-point number. Groups come in the order of their first rows.

`Key.hash` is by what a hash table tells keys apart before it compares them. Groups are looked for
by equality alone, which finds the same ones because equal keys have equal hashes.
-/

namespace SpanJoin

/-- The cells that identify a group of rows. -/
abbrev Key := List Cell

/-- The text of a key. -/
def Key.display (key : Key) : String := "(" ++ ", ".intercalate (key.map Cell.display) ++ ")"

/-- A value that goes into a hash. -/
inductive HashInput where
  | byte (n : UInt8)
  | bool (b : Bool)
  | int (n : Int64)
  | bits (n : UInt64)
  | text (s : String)
  deriving DecidableEq

/-- A hash function, which takes in one value after the other. -/
structure Hasher (σ : Type) where
  start : σ
  feed : σ → HashInput → σ
  finish : σ → UInt64

/-- What goes into a hash for a cell: its kind and its value, the two zeros being made one. -/
def Cell.hashInputs : Cell → List HashInput
  | .null => [.byte 0]
  | .bool b => [.byte 1, .bool b]
  | .int n => [.byte 2, .int n]
  | .float x => [.byte 3, .bits (if x == 0 then 0 else x).toBits]
  | .text s => [.byte 4, .text s]

/-- What goes into the hash of a key: its cells in turn. -/
def Key.hashInputs (key : Key) : List HashInput := key.flatMap Cell.hashInputs

/-- The hash of a key. -/
def Key.hash {σ : Type} (h : Hasher σ) (key : Key) : UInt64 :=
  h.finish (key.hashInputs.foldl h.feed h.start)

/-- Rows that share a key: the key of the first of them, and their positions. -/
structure Group where
  key : Key
  positions : List Nat
  deriving DecidableEq

/-- The groups with one more row: it joins the first group of an equal key, or founds a group at the
end. -/
def Group.add (key : Key) (position : Nat) (groups : List Group) : List Group :=
  upsert (fun g => g.key == key) (fun g => { g with positions := g.positions ++ [position] })
    ⟨key, [position]⟩ groups

namespace Table

/-- The key of the row at a position, the key columns being given. -/
def keyAt (columns : List (List Cell)) (position : Nat) : Outcome DataError Key :=
  Outcome.ofOption (columns.mapM fun cells => cells[position]?)

/-- The groups after the rows at the given positions. -/
def groupRows (columns : List (List Cell)) :
    List Group → List Nat → Outcome DataError (List Group)
  | groups, [] => .ok groups
  | groups, p :: rest =>
    match keyAt columns p with
    | .ok key =>
      groupRows columns (if key.any Cell.isMissing then groups else Group.add key p groups) rest
    | .error e => .error e

/-- The rows grouped by their cells in the columns of those names. -/
def groupBy (t : Table) (names : List String) : Outcome DataError (List Group) := do
  let columns ← Outcome.ofExcept (names.mapM t.column)
  groupRows columns [] (List.range t.rows)

end Table

end SpanJoin
