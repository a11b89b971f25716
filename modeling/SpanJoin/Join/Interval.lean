import SpanJoin.Tree.Operator

/-!
# Intervals

The length of an interval is its end less its start. The signed overlap of two intervals is the
lesser end less the greater start: positive if they have a stretch in common, and negative, the
width of the gap, if they are apart. A missing bound makes the overlap missing.
-/

namespace SpanJoin

/-- Of two bounds the one that stands in the given order to the other; the second one if they are
equal, and `null` if one is missing. -/
def pickBound (wanted : Ordering) (a b : Cell) : Except TreeError Cell :=
  if a.isMissing || b.isMissing then .ok .null
  else
    match a.compare? b with
    | some o => .ok (if o == wanted then a else b)
    | none => .error (.invalidOperands .overlap a.kind? b.kind?)

/-- The signed overlap of the interval from `start` to `stop` with another one. -/
def overlapWith (start stop : Cell) (other : Cell × Cell) : Except TreeError Cell := do
  let first ← pickBound .gt start other.1
  let last ← pickBound .lt stop other.2
  BinaryOp.sub.apply last first

/-- The signed overlaps of an interval with each of a list of intervals. -/
def signedOverlap (start stop : Cell) (starts stops : List Cell) : Except TreeError (List Cell) :=
  (starts.zip stops).mapM (overlapWith start stop)

/-- The length of an interval. -/
def intervalLength (start stop : Cell) : Except TreeError Cell := BinaryOp.sub.apply stop start

/-- The lengths of the intervals in the rows of a table, whose bounds are in the two columns. -/
def intervalLengths (t : Table) (start stop : String) : Except TreeError (List Cell) := do
  let starts ← (t.column start).mapError .data
  let stops ← (t.column stop).mapError .data
  (starts.zip stops).mapM fun bounds => intervalLength bounds.1 bounds.2

end SpanJoin
