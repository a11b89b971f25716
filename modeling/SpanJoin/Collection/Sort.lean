/-!
# Sorting by insertion

`sortBy le` sorts a list by a relation. Elements go in from the last to the first, each in front of
the first element that it does not exceed, so that equal elements keep their order. This is
`List.insertionSort` for a relation that is computed, and has its theory from there.
-/

namespace SpanJoin

/-- The list with an element in front of the first one that it does not exceed. -/
def insertBy {α : Type} (le : α → α → Bool) (a : α) : List α → List α
  | [] => [a]
  | b :: rest => if le a b then a :: b :: rest else b :: insertBy le a rest

/-- The list in ascending order; equal elements keep their order. -/
def sortBy {α : Type} (le : α → α → Bool) : List α → List α
  | [] => []
  | a :: rest => insertBy le a (sortBy le rest)

end SpanJoin
