import SpanJoin.Datum.Broadcast
import SpanJoin.Datum.Reshape
import SpanJoin.Datum.Stack
import SpanJoin.Proofs.Outcome

/-!
# What operations on data report

Cells that do not go together are reported with the operation and with their kinds
(`BinaryOp.reports_apply`, `UnaryOp.reports_apply`, `reports_total`). Whatever an operation on data
reports, it is never that a name is not bound (`Fault.SparesNames`): operations read no names.
-/

namespace SpanJoin

open Outcome

/-- The error is not that a name is not bound. -/
def TreeError.SparesNames (e : TreeError) : Prop := ∀ name, e ≠ .undeclared name

/-- The fault is not that a name is not bound. -/
def Fault.SparesNames (e : Fault TreeError) : Prop := ∀ name, e ≠ .error (.undeclared name)

theorem Fault.sparesNames_error {e : TreeError} (h : e.SparesNames) :
    (Fault.error e).SparesNames := fun name he => h name (Fault.error.inj he)

theorem Fault.sparesNames_outOfRange : Fault.SparesNames .outOfRange := nofun

theorem TreeError.sparesNames_data (cause : DataError) : (data cause).SparesNames := nofun

/-! ## Cells -/

namespace BinaryOp

/-- The operator is reported with the kinds of its operands. -/
def IsInvalid (op : BinaryOp) (l r : Cell) (e : TreeError) : Prop :=
  e = .invalidOperands (.action (.binary op)) l.kind? r.kind?

variable (op : BinaryOp) (l r : Cell)

theorem reports_invalid : Reports (op.IsInvalid l r) (op.invalid l r) := reports_error.2 rfl

theorem reports_onNumbers (f : Float → Float → Float) :
    Reports (op.IsInvalid l r) (op.onNumbers f l r) := by
  unfold onNumbers
  split
  · exact reports_ok _
  · exact op.reports_invalid l r

theorem reports_arithmetic (onInts : Int64 → Int64 → Int64) (f : Float → Float → Float) :
    Reports (op.IsInvalid l r) (op.arithmetic onInts f l r) := by
  unfold arithmetic
  split
  · exact reports_ok _
  · exact reports_ok _
  · exact reports_ok _
  · exact op.reports_onNumbers _ _ f

theorem reports_ordered (wanted : Ordering) :
    Reports (op.IsInvalid l r) (op.ordered wanted l r) := by
  unfold ordered
  split
  · exact reports_ok _
  · split
    · exact reports_ok _
    · exact op.reports_invalid l r

theorem reports_connective (decisive : Bool) :
    Reports (op.IsInvalid l r) (op.connective decisive l r) := by
  unfold connective
  split
  · exact reports_ok _
  · exact reports_ok _
  · exact reports_ok _
  · exact reports_ok _
  · exact op.reports_invalid _ _

/-- An operator fails only for the kinds of its operands, and reports itself and these. -/
theorem reports_apply : Reports (op.IsInvalid l r) (op.apply l r) := by
  cases op with
  | add =>
    simp only [apply]
    split
    · exact reports_ok _
    · exact reports_arithmetic _ _ _ _ _
  | sub | mul => exact reports_arithmetic _ _ _ _ _
  | div =>
    simp only [apply]
    split
    · exact reports_ok _
    · exact reports_ok _
    · exact reports_onNumbers _ _ _ _
  | gt | lt => exact reports_ordered _ _ _ _
  | eq =>
    simp only [apply]
    split
    · exact reports_ok _
    · exact reports_ok _
  | and | or => exact reports_connective _ _ _ _

end BinaryOp

/-- The same for an operator with one operand. -/
theorem UnaryOp.reports_apply (op : UnaryOp) (c : Cell) :
    Reports (· = .invalidOperands (.action (.unary op)) c.kind? none) (op.apply c) := by
  unfold apply
  split
  · exact reports_ok _
  · exact reports_ok _
  · exact reports_error.2 rfl
  · exact reports_ok _
  · exact reports_ok _
  · exact reports_ok _
  · exact reports_error.2 rfl
  · exact reports_ok _

theorem Sums.reports_add (s : Sums) (c : Cell) :
    Reports (fun e => ∃ kind, e = .invalidOperands (.action .sum) kind none) (s.add c) := by
  unfold add
  split
  · exact reports_ok _
  · split
    · exact reports_ok _
    · exact reports_ok _
    · exact reports_ok _
    · exact reports_error.2 ⟨_, rfl⟩

/-- A total fails only for the kind of one of its cells. -/
theorem reports_total (cells : List Cell) :
    Reports (fun e => ∃ kind, e = .invalidOperands (.action .sum) kind none) (total cells) :=
  (Reports.foldlM Sums.reports_add cells .zero).map Sums.cell

/-! ## Data -/

section

variable {α : Type}

theorem BinaryOp.sparesNames_apply (op : BinaryOp) (l r : Cell) :
    Reports TreeError.SparesNames (op.apply l r) := by
  intro e he
  rw [op.reports_apply l r e he]
  nofun

theorem UnaryOp.sparesNames_apply (op : UnaryOp) (c : Cell) :
    Reports TreeError.SparesNames (op.apply c) := by
  intro e he
  rw [op.reports_apply c e he]
  nofun

theorem sparesNames_total (cells : List Cell) : Reports TreeError.SparesNames (total cells) := by
  intro e he
  obtain ⟨kind, rfl⟩ := reports_total cells e he
  nofun

/-- What a computation without positions reports, an outcome reports. -/
theorem Outcome.Reports.sparesNames {r : Except TreeError α}
    (h : Reports TreeError.SparesNames r) : Reports Fault.SparesNames (Outcome.ofExcept r) :=
  h.ofExcept fun _ => Fault.sparesNames_error

theorem sparesNames_mapErrorData (r : Except DataError α) :
    Reports TreeError.SparesNames (r.mapError .data) :=
  reports_exceptMapError TreeError.sparesNames_data

theorem sparesNames_compute {f : α → Except TreeError Cell}
    (h : ∀ a, Reports TreeError.SparesNames (f a)) (s : Series) (as : List α) :
    Reports TreeError.SparesNames (s.compute f as) :=
  (Reports.mapM h as).bind fun cells =>
    (sparesNames_mapErrorData (Series.ofIndex s.index cells)).bind fun _ => reports_ok _

end

namespace Datum

theorem sparesNames_binary (op : BinaryOp) (d e : Datum) :
    Reports TreeError.SparesNames (binary op d e) := by
  unfold binary
  split
  · exact (op.sparesNames_apply _ _).map scalar
  · exact sparesNames_compute (fun _ => op.sparesNames_apply _ _) _ _
  · exact sparesNames_compute (fun _ => op.sparesNames_apply _ _) _ _
  · split
    · exact sparesNames_compute (fun _ => op.sparesNames_apply _ _) _ _
    · exact reports_error.2 nofun
  · exact reports_error.2 nofun

theorem sparesNames_unary (op : UnaryOp) (d : Datum) :
    Reports TreeError.SparesNames (unary op d) := by
  unfold unary
  split
  · exact (op.sparesNames_apply _).map scalar
  · exact (Reports.mapM op.sparesNames_apply _).bind fun _ =>
      (sparesNames_mapErrorData _).bind fun _ => reports_ok _
  · exact reports_error.2 nofun

theorem sparesNames_cast (target : Kind) (d : Datum) :
    Reports TreeError.SparesNames (d.cast target) := by
  unfold cast
  split
  · exact (sparesNames_mapErrorData _).map scalar
  · exact (sparesNames_mapErrorData _).bind fun _ =>
      (sparesNames_mapErrorData _).bind fun _ => reports_ok _
  · exact reports_error.2 nofun

theorem sparesNames_groupBy (d e : Datum) : Reports TreeError.SparesNames (groupBy d e) := by
  unfold groupBy
  split
  · unfold GroupedSeries.ofSeries
    split
    · exact reports_ok _
    · exact reports_error.2 nofun
  · exact reports_error.2 nofun
  · exact reports_error.2 nofun

theorem sparesNames_groupTotal (cells : List Cell) (g : KeyedRows) :
    Reports Fault.SparesNames (groupTotal cells g) :=
  (reports_ofOption Fault.sparesNames_outOfRange).bind fun chosen =>
    (sparesNames_total chosen).sparesNames

theorem sparesNames_sum (d : Datum) : Reports Fault.SparesNames d.sum := by
  unfold sum
  split
  · exact ((sparesNames_total _).map scalar).sparesNames
  · exact (Reports.mapM (sparesNames_groupTotal _) _).bind fun _ =>
      (sparesNames_mapErrorData _).sparesNames.bind fun _ => reports_ok _
  · exact (Reports.mapM (fun _ => sparesNames_total _) _).sparesNames.bind fun _ =>
      (sparesNames_mapErrorData _).sparesNames.bind fun _ => reports_ok _
  · exact reports_error.2 nofun

theorem sparesNames_takeRows (action : Action) (positions : List Nat) (d : Datum) :
    Reports Fault.SparesNames (d.takeRows action positions) := by
  unfold takeRows
  split
  · exact (reports_ofOption Fault.sparesNames_outOfRange).map series
  · exact (reports_ofOption Fault.sparesNames_outOfRange).map frame
  · exact reports_error.2 nofun

theorem sparesNames_filter (d mask : Datum) : Reports Fault.SparesNames (d.filter mask) := by
  unfold filter
  split
  · split
    · exact reports_error.2 nofun
    · split
      · exact reports_error.2 nofun
      · split
        · exact sparesNames_takeRows _ _ d
        · exact reports_error.2 nofun
  · exact reports_error.2 nofun

theorem sparesNames_slice (action : Action) (d bounds : Datum) :
    Reports Fault.SparesNames (slice action d bounds) := by
  unfold slice
  split
  · exact sparesNames_takeRows _ _ d
  · exact reports_error.2 nofun

theorem sparesNames_get? (s : Series) (label : Cell) :
    Reports Fault.SparesNames (s.get? label : Outcome TreeError (Option Cell)) := by
  unfold Series.get?
  split
  · exact (reports_ofOption Fault.sparesNames_outOfRange).map some
  · exact reports_ok none

theorem sparesNames_indexOfMax (d : Datum) : Reports Fault.SparesNames d.indexOfMax := by
  unfold indexOfMax
  split
  · refine Reports.map ?_ _
    unfold Series.labelOfMax?
    split
    · exact (reports_ofOption Fault.sparesNames_outOfRange).map some
    · exact reports_ok none
  · exact reports_error.2 nofun

theorem sparesNames_atIndex (d key : Datum) : Reports Fault.SparesNames (d.atIndex key) := by
  unfold atIndex
  split
  · split
    · split
      · exact reports_ok _
      · exact (sparesNames_get? _ _).map _
    · exact reports_error.2 nofun
  · exact reports_error.2 nofun

end Datum

namespace Part

theorem sparesNames_stack (parts : List Part) : Reports Fault.SparesNames (stack parts) := by
  have column : ∀ p, Reports Fault.SparesNames (Part.column (labels parts) p) := fun p =>
    (Reports.mapM (Datum.sparesNames_get? p.series) _).map _
  exact (Reports.mapM column parts).bind fun _ =>
    (sparesNames_mapErrorData _).sparesNames.bind fun _ => reports_ok _

theorem sparesNames_ofTable (t : Table) : Reports TreeError.SparesNames (ofTable t) :=
  sparesNames_mapErrorData _

end Part

end SpanJoin
