import SpanJoin.Join.Config
import SpanJoin.Plan.Basic
import SpanJoin.Serial.Form
import SpanJoin.Tree.Tag

/-!
# Writing data as forms

Each type has its form: constructors by name, structures as records.
-/

namespace SpanJoin

/-- The form of an optional value. -/
def Form.optional {α : Type} (f : α → Form) : Option α → Form
  | some a => f a
  | none => .null

/-- The form of a kind. -/
def Kind.encode (k : Kind) : Form := .text k.name

/-- The form of a cell. -/
def Cell.encode : Cell → Form
  | null => .text "Null"
  | bool b => .tagged "Boolean" (.bool b)
  | int n => .tagged "Int64" (.int n.toInt)
  | float x => .tagged "Float64" (.real x)
  | text s => .tagged "String" (.text s)

/-- The form of a list of cells. -/
def encodeCells (cells : List Cell) : Form := .list (cells.map Cell.encode)

/-- The form of a series. -/
def Series.encode (s : Series) : Form :=
  .record [("name", .optional .text s.name), ("index", encodeCells s.index),
    ("values", encodeCells s.cells)]

/-- The form of a column. -/
def Column.encode (c : Column) : Form :=
  .record [("name", .text c.name), ("values", encodeCells c.cells)]

/-- The form of a table. -/
def Table.encode (t : Table) : Form :=
  .record [("index", encodeCells t.index), ("columns", .list (t.columns.map Column.encode))]

/-- The form of a range kind. -/
def RangeKind.encode : RangeKind → Form
  | label => .text "Label"
  | position => .text "Position"

/-- The form of a range. -/
def RowRange.encode (r : RowRange) : Form :=
  let bound (n : Int64) : Form := .int n.toInt
  .record [("kind", r.kind.encode), ("start", .optional bound r.start),
    ("end", .optional bound r.stop)]

/-- The form of a literal. -/
def Literal.encode : Literal → Form
  | int n => .tagged "Int" (.int n.toInt)
  | float x => .tagged "Float" (.real x)
  | bool b => .tagged "Bool" (.bool b)
  | text s => .tagged "Text" (.text s)
  | range r => .tagged "Range" r.encode

/-- The form of an action. -/
def Action.encode (a : Action) : Form :=
  match a.tag with
  | (tag, none) => .text tag
  | (tag, some operator) => .tagged tag (.text operator)

namespace Tree

mutual

/-- The form of a tree. -/
def encode : Tree → Form
  | .literal l => .tagged "Literal" l.encode
  | .node action cs =>
    .tagged "Node" (.record [("action", action.encode), ("children", .list (encodeEach cs))])

/-- The forms of the trees in a list. -/
def encodeEach : List Tree → List Form
  | [] => []
  | c :: cs => c.encode :: encodeEach cs

end

end Tree

/-- The form of a plan. -/
def Plan.encode (p : Plan) : Form :=
  .record
    [("declarations", .list (p.declarations.map fun d => .list [.text d.1, d.2.encode])),
      ("root", p.root.encode)]

/-- The form of a join configuration; the flag that stops a join is not persisted. -/
def JoinConfig.encode (config : JoinConfig) : Form :=
  .record [("parallel", .bool config.parallel), ("unmatched", .text config.unmatched.name)]

end SpanJoin
