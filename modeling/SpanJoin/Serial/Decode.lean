import SpanJoin.Serial.Encode

/-!
# Reading data from forms

What a form does not spell exactly is refused. Fields that a structure does not have are passed
over; absent optional fields are empty. An integer is accepted where a floating-point number is
wanted, never the other way round. Only the form is checked: tables with ragged columns, for
instance, are read as they stand.
-/

namespace SpanJoin

namespace Form

/-- A truth value. -/
def bool? : Form → Option Bool
  | bool b => some b
  | _ => none

/-- A text. -/
def text? : Form → Option String
  | text s => some s
  | _ => none

/-- An integer in the signed 64-bit range. -/
def int64? : Form → Option Int64
  | int n =>
    if Int64.minValue.toInt ≤ n ∧ n ≤ Int64.maxValue.toInt then some (Int64.ofInt n) else none
  | _ => none

/-- A floating-point number; an integer is rounded to the nearest one. -/
def real? : Form → Option Float
  | real x => some x
  | int n => some (Float.ofInt n)
  | _ => none

/-- An optional value: nothing, or a value. -/
def optional? {α : Type} (read : Form → Option α) : Form → Option (Option α)
  | null => some none
  | f => (read f).map some

/-- A list of values. -/
def list? {α : Type} (read : Form → Option α) : Form → Option (List α)
  | list items => items.mapM read
  | _ => none

end Form

/-- All kinds. -/
def Kind.all : List Kind := [.boolean, .int64, .float64, .varchar]

/-- Reads a kind. -/
def Kind.decode? (f : Form) : Option Kind := do
  let tag ← f.unit?
  Kind.all.find? fun k => k.name == tag

/-- Reads a cell. -/
def Cell.decode? (f : Form) : Option Cell :=
  match f.unit? with
  | some tag => if tag = "Null" then some .null else none
  | none =>
    match f.content? with
    | some ("Boolean", g) => g.bool?.map .bool
    | some ("Int64", g) => g.int64?.map .int
    | some ("Float64", g) => g.real?.map .float
    | some ("String", g) => g.text?.map .text
    | _ => none

/-- Reads a list of cells. -/
def decodeCells? (f : Form) : Option (List Cell) := f.list? Cell.decode?

/-- Reads a series. -/
def Series.decode? (f : Form) : Option Series := do
  match ← f.fields? ["name", "index", "values"] with
  | [name, index, values] =>
    return ⟨← name.optional? Form.text?, ← decodeCells? index, ← decodeCells? values⟩
  | _ => none

/-- Reads a column. -/
def Column.decode? (f : Form) : Option Column := do
  match ← f.fields? ["name", "values"] with
  | [name, values] => return ⟨← name.text?, ← decodeCells? values⟩
  | _ => none

/-- Reads a table. -/
def Table.decode? (f : Form) : Option Table := do
  match ← f.fields? ["index", "columns"] with
  | [index, columns] => return ⟨← decodeCells? index, ← columns.list? Column.decode?⟩
  | _ => none

/-- Reads a range kind. -/
def RangeKind.decode? (f : Form) : Option RangeKind :=
  match f.unit? with
  | some "Label" => some .label
  | some "Position" => some .position
  | _ => none

/-- Reads a range. -/
def RowRange.decode? (f : Form) : Option RowRange := do
  match ← f.fields? ["kind", "start", "end"] with
  | [kind, start, stop] =>
    return ⟨← RangeKind.decode? kind, ← start.optional? Form.int64?, ← stop.optional? Form.int64?⟩
  | _ => none

/-- Reads a literal. -/
def Literal.decode? (f : Form) : Option Literal :=
  match f.content? with
  | some ("Int", g) => g.int64?.map .int
  | some ("Float", g) => g.real?.map .float
  | some ("Bool", g) => g.bool?.map .bool
  | some ("Text", g) => g.text?.map .text
  | some ("Range", g) => (RowRange.decode? g).map .range
  | _ => none

/-- Reads an action. -/
def Action.decode? (f : Form) : Option Action := do
  let (tag, content) ← f.variant?
  match content with
  | none => all.find? fun a => a.tag == (tag, none)
  | some g => do
    let operator ← g.unit?
    all.find? fun a => a.tag == (tag, some operator)

namespace Tree

mutual

/-- Reads a tree. -/
def decode? : Form → Option Tree
  | .record [(tag, content)] =>
    if tag = "Literal" then (Literal.decode? content).map .literal
    else if tag = "Node" then decodeNode? content
    else none
  | _ => none

/-- Reads the content of a node: an action and children. -/
def decodeNode? : Form → Option Tree
  | .record fields =>
    match (fields.lookup "action").bind Action.decode?, decodeChildren? fields with
    | some action, some cs => some (.node action cs)
    | _, _ => none
  | .list [action, .list items] =>
    match Action.decode? action, decodeEach? items with
    | some action, some cs => some (.node action cs)
    | _, _ => none
  | _ => none

/-- Reads the children of a node among its fields. -/
def decodeChildren? : List (String × Form) → Option (List Tree)
  | [] => none
  | (name, .list items) :: rest =>
    if name = "children" then decodeEach? items else decodeChildren? rest
  | (name, _) :: rest => if name = "children" then none else decodeChildren? rest

/-- Reads the trees in a list. -/
def decodeEach? : List Form → Option (List Tree)
  | [] => some []
  | f :: fs =>
    match decode? f, decodeEach? fs with
    | some c, some cs => some (c :: cs)
    | _, _ => none

end

end Tree

/-- Reads a declaration: a name and a tree. -/
def decodeDeclaration? : Form → Option (String × Tree)
  | .list [name, body] => do return (← name.text?, ← Tree.decode? body)
  | _ => none

/-- Reads a plan. -/
def Plan.decode? (f : Form) : Option Plan := do
  match ← f.fields? ["declarations", "root"] with
  | [declarations, root] =>
    return ⟨← declarations.list? decodeDeclaration?, ← Tree.decode? root⟩
  | _ => none

/-- Reads a policy. -/
def Unmatched.decode? (f : Form) : Option Unmatched := do
  let tag ← f.unit?
  [Unmatched.null, .evaluateEmpty, .error].find? fun p => p.name == tag

/-- Reads a join configuration. Every field may be absent; in a list, the fields at the end may. -/
def JoinConfig.decode? (f : Form) : Option JoinConfig :=
  let read (parallel unmatched : Option Form) : Option JoinConfig := do
    let parallel ← match parallel with
      | some g => g.bool?
      | none => some false
    let unmatched ← match unmatched with
      | some g => Unmatched.decode? g
      | none => some .null
    return ⟨parallel, unmatched, none⟩
  match f with
  | .record fields => read (fields.lookup "parallel") (fields.lookup "unmatched")
  | .list items => if items.length ≤ 2 then read items[0]? items[1]? else none
  | _ => none

end SpanJoin
