import SpanJoin.Join.Config
import SpanJoin.Join.Interval
import SpanJoin.Plan.Sharing
import SpanJoin.Table.Group
import SpanJoin.Tree.Column

/-!
# The interval join

Every left row is matched with the right rows of an equal key. For each left row the derived columns
are evaluated in the context of the row, its matches, the lengths of all these intervals and their
overlaps; each must give a scalar. The result is the left table, relabelled by position, with one
more column for every tree. A left row with a missing key gets `null` in the derived columns, and
the policy says what becomes of a key that no right row shares.

The order of effects is fixed: first the trees are named, checked and compiled one by one, then the
tables are cut down to the columns that are needed, then the lengths are taken, then left keys are
matched in the order of their first rows, and then rows are evaluated group by group.
-/

namespace SpanJoin

/-- Why a join fails. -/
inductive JoinError where
  | data (cause : DataError)
  | compile (cause : PlanError)
  | tree (cause : TreeError)
  /-- A left key that no right row shares, where that is refused. -/
  | missingGroup (key : Key)
  /-- A derived column that is no scalar. -/
  | nonScalar (column : String) (found : Datum)
  | cancelled
  deriving DecidableEq

/-- The wording of an error. -/
def JoinError.message : JoinError → String
  | data cause => cause.message
  | compile cause => cause.message
  | tree cause => cause.message
  | missingGroup key => "No right rows share the key " ++ key.display
  | nonScalar column found =>
    "Column " ++ column ++ " must evaluate to a single value per row, got " ++ found.describe
  | cancelled => "Interval join cancelled"

/-- A derived column: its name, the columns that its tree reads, and its plan. -/
structure Derived where
  name : String
  reads : ColumnNames
  plan : Plan

/-- Right rows matched with the left rows of a group. -/
structure Matched where
  leftPositions : List Nat
  right : Table
  rightLengths : Series

namespace Join

/-! ## Preparation -/

/-- One derived column after those before it. Its name must differ from theirs and from the names of
the left columns. -/
def derive (left : Table) (before : List Derived) (t : Tree) : Outcome JoinError Derived := do
  let name ← t.outputName.mapError .tree
  if left.hasColumn name || before.any fun d => d.name == name then
    .error (.error (.data (.duplicateColumn name)))
  else
    let reads ← Outcome.ofOption t.columns?
    let plan ← t.share.mapError .compile
    return ⟨name, reads, plan⟩

/-- The derived columns of the trees, after those before them. -/
def deriveEach (left : Table) : List Derived → List Tree → Outcome JoinError (List Derived)
  | done, [] => .ok done
  | done, t :: ts =>
    match derive left done t with
    | .ok d => deriveEach left (done ++ [d]) ts
    | .error e => .error e

/-! ## Matching -/

/-- The right rows at the given positions, with their lengths. -/
def matchRows (right : Table) (rightLengths : List Cell) (leftPositions positions : List Nat) :
    Outcome JoinError Matched := do
  let rows ← Outcome.ofOption (right.take? positions)
  let lengths ← Outcome.ofOption (positions.mapM fun p => rightLengths[p]?)
  let series ← Outcome.ofExcept ((Series.ofIndex rows.index lengths).mapError .data)
  return ⟨leftPositions, rows, series⟩

/-- The matches of the left groups, in order. A group without matches is passed over, matched with
no rows or refused. -/
def matchGroups (policy : Unmatched) (right : Table) (rightLengths : List Cell)
    (rightGroups : List Group) : List Group → Outcome JoinError (List Matched)
  | [] => .ok []
  | g :: rest => do
    let positions ←
      match rightGroups.find? fun h => h.key == g.key, policy with
      | some h, _ => .ok (some h.positions)
      | none, .null => .ok none
      | none, .evaluateEmpty => .ok (some [])
      | none, .error => .error (.error (.missingGroup g.key))
    match positions with
    | none => matchGroups policy right rightLengths rightGroups rest
    | some positions => do
      let m ← matchRows right rightLengths g.positions positions
      let ms ← matchGroups policy right rightLengths rightGroups rest
      return m :: ms

/-! ## Rows -/

/-- The context of the left row at a position. -/
def contextOf (left : Table) (leftLengths : List Cell) (start stop : String) (m : Matched)
    (position : Nat) : Outcome JoinError Context := do
  let length ← Outcome.ofOption leftLengths[position]?
  let row ← Outcome.ofExcept ((left.row position).mapError .data)
  let first ← (row.get start).mapError .data
  let last ← (row.get stop).mapError .data
  let starts ← Outcome.ofExcept ((m.right.column start).mapError .data)
  let stops ← Outcome.ofExcept ((m.right.column stop).mapError .data)
  let overlaps ← Outcome.ofExcept ((signedOverlap first last starts stops).mapError .tree)
  let series ← Outcome.ofExcept ((Series.ofIndex m.right.index overlaps).mapError .data)
  return ⟨row, m.right, length, m.rightLengths, series⟩

/-- The cell of a derived column in a context. -/
def derivedCell (c : Context) (d : Derived) : Outcome JoinError Cell := do
  match ← (d.plan.eval c).mapError .tree with
  | .scalar cell => return cell
  | found => .error (.error (.nonScalar d.name found))

/-- The derived cells of the left row at a position. -/
def evaluateRow (config : JoinConfig) (left : Table) (leftLengths : List Cell)
    (start stop : String) (derived : List Derived) (m : Matched) (position : Nat) :
    Outcome JoinError (Nat × List Cell) := do
  if config.isCancelled then .error (.error .cancelled)
  else
    let c ← contextOf left leftLengths start stop m position
    let cells ← derived.mapM (derivedCell c)
    return (position, cells)

/-! ## The result -/

/-- The results, which are written to their rows by position. A position without a left row is a
missing one. -/
def placed (left : Table) (results : List (Nat × List Cell)) :
    Outcome JoinError (List (Nat × List Cell)) :=
  if results.all fun r => r.1 < left.rows then .ok results else .error .outOfRange

/-- The cell of the derived column with number `j` in the left row at a position: `null` if the row
was not evaluated. -/
def resultCell (results : List (Nat × List Cell)) (j position : Nat) : Cell :=
  ((results.lookup position).bind fun cells => cells[j]?).getD .null

/-- The left table, relabelled by position, with the derived columns. -/
def assemble (left : Table) (derived : List Derived) (results : List (Nat × List Cell)) :
    Except DataError Table := do
  let output := left.resetIndex
  let values ← derived.zipIdx.foldlM
    (fun t (d, j) => t.withColumn d.name ((List.range left.rows).map (resultCell results j)))
    (⟨output.index, []⟩ : Table)
  output.hstack values

end Join

/-- Joins two tables on equal keys. `interval` names the columns of the two bounds, which both
tables must have. -/
def join (config : JoinConfig) (left right : Table) (keys : List String)
    (interval : String × String) (columns : List Tree) : Outcome JoinError Table := do
  let (start, stop) := interval
  let derived ← Join.deriveEach left [] columns
  let base := keys ++ [start, stop]
  let leftData ← Outcome.ofExcept
    ((left.project (base ++ derived.flatMap fun d => d.reads.left)).mapError .data)
  let rightData ← Outcome.ofExcept
    ((right.project (base ++ derived.flatMap fun d => d.reads.right)).mapError .data)
  let leftData := leftData.resetIndex
  let rightData := rightData.resetIndex
  let leftLengths ← Outcome.ofExcept ((intervalLengths leftData start stop).mapError .tree)
  let rightLengths ← Outcome.ofExcept ((intervalLengths rightData start stop).mapError .tree)
  let leftGroups ← (leftData.groupBy keys).mapError .data
  let rightGroups ← (rightData.groupBy keys).mapError .data
  let matched ← Join.matchGroups config.unmatched rightData rightLengths rightGroups leftGroups
  let jobs := matched.flatMap fun m => m.leftPositions.map fun position => (m, position)
  let results ← jobs.mapM fun (m, position) =>
    Join.evaluateRow config leftData leftLengths start stop derived m position
  let results ← Join.placed left results
  Outcome.ofExcept ((Join.assemble left derived results).mapError .data)

end SpanJoin
