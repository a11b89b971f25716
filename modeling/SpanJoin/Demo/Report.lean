import SpanJoin.Decimal.Fixed
import SpanJoin.Demo.Data
import SpanJoin.Demo.Options
import SpanJoin.Join.Basic
import SpanJoin.Tree.Outline

/-!
# The report of the demonstration

The demonstration shows its two tables, on request the plans of the derived columns, and the joined
table. A join that fails ends it there, with the cause on the error channel.
-/

namespace SpanJoin.Demo

/-- What the demonstration leaves: an exit status and the texts on the two output channels. -/
structure Report where
  status : Nat
  stdout : String
  stderr : String

/-! ## Tables -/

/-- The text of a cell in a printed table; floating-point numbers have two places. -/
def cellText : Cell → String
  | .float x => Decimal.ofFloatFixed 2 x
  | c => c.display

/-- A text filled up with blanks on the left. -/
def padLeft (width : Nat) (s : String) : String :=
  String.ofList (List.replicate (width - s.length) ' ') ++ s

/-- One line of a printed table. -/
def tableLine (widths : List Nat) (texts : List String) : String :=
  "   " ++ " | ".intercalate ((widths.zip texts).map fun c => padLeft c.1 c.2)

/-- The cell texts of one row. -/
def rowTexts (t : Table) (position : Nat) : List String :=
  t.columns.map fun c => cellText (c.cells[position]?.getD .null)

/-- The lines of a printed table: names, then rows, all columns aligned to the right. -/
def tableLines (t : Table) : List String :=
  let rows := (List.range t.rows).map (rowTexts t)
  let widths := t.names.zipIdx.map fun (name, j) =>
    rows.foldl (fun width row => max width (row[j]?.getD "").utf8ByteSize) name.utf8ByteSize
  tableLine widths t.names :: rows.map (tableLine widths)

/-! ## Plans -/

/-- The lines that show the plan of a tree. -/
def planLines (t : Tree) : List String :=
  match t.outputName, t.share with
  | .ok name, .ok plan =>
    ("📝 " ++ name ++ " (" ++ toString plan.declarations.length ++ " shared subtrees)")
      :: plan.declarations.map (fun d => "   " ++ d.1 ++ " = " ++ d.2.outline)
      ++ ["   => " ++ plan.root.outline]
  | _, _ => []

/-! ## The whole -/

/-- Lines as a text, every line ended. -/
def unlines (lines : List String) : String := String.join (lines.map fun line => line ++ "\n")

/-- The wording of a failure. -/
def failureText (context cause : String) : String :=
  "Error: " ++ context ++ "\n\nCaused by:\n    " ++ cause ++ "\n"

/-- The wording of the fault that stopped a join. -/
def faultText : Fault JoinError → String
  | .error cause => cause.message
  | .outOfRange => "position out of range"

/-- The report for the given options. -/
def report (o : Options) : Report :=
  let segments : Table := ⟨Cell.counting 5, segmentColumns⟩
  let observations : Table := ⟨Cell.counting 6, observationColumns⟩
  let opening :=
    "🛣️  Road segments:" :: tableLines segments ++ ["", "🚗 Speed observations:"]
      ++ tableLines observations ++ [""]
      ++ (if o.showPlans then derivedColumns.flatMap planLines ++ [""] else [])
  let config : JoinConfig := ⟨o.parallel, o.unmatched.getD .null, none⟩
  match join config segments observations ["road"] ("from", "to") derivedColumns with
  | .ok result => ⟨0, unlines (opening ++ "✅ Joined:" :: tableLines result), ""⟩
  | .error fault => ⟨1, unlines opening, failureText "Interval join failed" (faultText fault)⟩

/-- The report for the given arguments; arguments that are no options are refused with status 2. -/
def run (args : List String) : Report :=
  match Options.parse args with
  | some o => report o
  | none => ⟨2, "", "error: unexpected arguments\n"⟩

end SpanJoin.Demo
