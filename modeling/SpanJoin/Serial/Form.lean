/-!
# Serial forms

A `Form` is a piece of structured data such as a text format for documents can carry: nothing, truth
values, integers, floating-point numbers, texts, lists and records. Cells, series, tables, trees,
plans and configurations are persisted as forms.

Two conventions are shared by all of them. A constructor without content is written as its name, and
one with content as a record with the name as its only field (`Form.tagged`); read back, content
that is nothing counts as no content. A structure is written as a record; read back, its fields may
also stand in a list, in order.
-/

namespace SpanJoin

/-- Structured data. -/
inductive Form where
  | null
  | bool (b : Bool)
  | int (n : Int)
  | real (x : Float)
  | text (s : String)
  | list (items : List Form)
  | record (fields : List (String × Form))

namespace Form

/-- A constructor with content. -/
def tagged (tag : String) (content : Form) : Form := record [(tag, content)]

/-- The name of a constructor and its content, if it has any. -/
def variant? : Form → Option (String × Option Form)
  | text tag => some (tag, none)
  | record [(tag, null)] => some (tag, none)
  | record [(tag, content)] => some (tag, some content)
  | _ => none

/-- The name of a constructor without content. -/
def unit? (f : Form) : Option String :=
  match f.variant? with
  | some (tag, none) => some tag
  | _ => none

/-- The constructor of the given name and its content. -/
def content? (f : Form) : Option (String × Form) :=
  match f with
  | record [(tag, content)] => some (tag, content)
  | _ => none

/-- The fields of a structure by name, `null` standing for a field that is absent; a list is read as
the fields in order, which then must all be there. -/
def fields? (names : List String) : Form → Option (List Form)
  | record fields => some (names.map fun name => (fields.lookup name).getD null)
  | list items => if items.length = names.length then some items else none
  | _ => none

mutual

/-- The form as a text can carry it: there are numerals for finite numbers only, and nothing takes
the place of the others. -/
def carried : Form → Form
  | null => null
  | bool b => bool b
  | int n => int n
  | real x => if x.isFinite then real x else null
  | text s => text s
  | list items => list (carriedEach items)
  | record fields => record (carriedFields fields)

/-- The forms of a list as a text can carry them. -/
def carriedEach : List Form → List Form
  | [] => []
  | f :: fs => f.carried :: carriedEach fs

/-- The fields of a record as a text can carry them. -/
def carriedFields : List (String × Form) → List (String × Form)
  | [] => []
  | (name, f) :: fs => (name, f.carried) :: carriedFields fs

end

end Form

end SpanJoin
