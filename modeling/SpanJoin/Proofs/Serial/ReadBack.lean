import SpanJoin.Proofs.Int64
import SpanJoin.Proofs.Plan.Floats
import SpanJoin.Serial.Decode

/-!
# Reading back trees and plans

A tree is persisted as the text of its form, which can carry finite numbers only. Reading the text
gives the tree again if its floating-point literals are finite, and fails otherwise
(`decode?_carried`); so it is for the plan of the tree (`exists_share_readBack`). Building a tree
refuses what is not a number, but not the infinities: these are accepted and evaluated, and lost
when the tree is persisted (`infinity_not_readBack`).
-/

namespace SpanJoin

/-! ## Forms in texts -/

namespace Form

theorem carried_tagged (tag : String) (f : Form) : (tagged tag f).carried = tagged tag f.carried :=
  rfl

theorem carriedEach_eq_map (fs : List Form) : carriedEach fs = fs.map carried := by
  induction fs with
  | nil => rfl
  | cons f fs ih => rw [carriedEach, List.map_cons, ih]

theorem int64?_int (n : Int64) : (int n.toInt).int64? = some n := by
  rw [int64?, if_pos (inRange_iff.1 (inRange_toInt n)), Int64.ofInt_toInt]

/-- Bounds of ranges are read back; an absent one is written as nothing. -/
theorem optional?_int64 (bound : Option Int64) :
    (optional (fun n : Int64 => int n.toInt) bound).carried.optional? int64? = some bound := by
  cases bound with
  | none => rfl
  | some n => exact congrArg (Option.map some) (int64?_int n)

end Form

theorem RangeKind.decode?_carried (k : RangeKind) : decode? k.encode.carried = some k := by
  cases k <;> rfl

theorem RowRange.decode?_carried (r : RowRange) : decode? r.encode.carried = some r := by
  have fields : r.encode.carried.fields? ["kind", "start", "end"] = some [r.kind.encode.carried,
      (Form.optional (fun n : Int64 => .int n.toInt) r.start).carried,
      (Form.optional (fun n : Int64 => .int n.toInt) r.stop).carried] := rfl
  simp [decode?, fields, RangeKind.decode?_carried, Form.optional?_int64]

theorem Action.decode?_carried (a : Action) : decode? a.encode.carried = some a := by
  cases a with
  | binary op => cases op <;> rfl
  | unary op => cases op <;> rfl
  | _ => rfl

/-! ## Trees -/

namespace Tree

/-- All floating-point literals of the tree are finite. -/
def AllFinite (t : Tree) : Prop := ∀ x ∈ t.floats, x.isFinite = true

instance (t : Tree) : Decidable t.AllFinite := inferInstanceAs (Decidable (∀ x ∈ t.floats, _))

theorem allFinite_float {x : Float} : (literal (.float x)).AllFinite ↔ x.isFinite = true :=
  List.forall_mem_singleton

theorem allFinite_node {a : Action} {cs : List Tree} :
    (node a cs).AllFinite ↔ ∀ c ∈ cs, c.AllFinite := by
  simp only [AllFinite, floats, floatsEach_eq_flatMap, List.forall_mem_flatMap]

theorem decode?_carried_of_literal (l : Literal) :
    Literal.decode? l.encode.carried = if (literal l).AllFinite then some l else none := by
  cases l with
  | int n => exact congrArg (Option.map Literal.int) (Form.int64?_int n)
  | float x =>
    rw [Literal.encode, Form.carried_tagged, Form.carried]
    by_cases hx : x.isFinite = true
    · rw [if_pos hx, if_pos (allFinite_float.2 hx)]
      rfl
    · -- nothing stands where the number should be, and no number is read from it
      rw [if_neg hx, if_neg (mt allFinite_float.1 hx)]
      rfl
  | bool b => rfl
  | text s => rfl
  | range r => exact congrArg (Option.map Literal.range) (RowRange.decode?_carried r)

theorem encodeEach_eq_map (cs : List Tree) : encodeEach cs = cs.map encode := by
  induction cs with
  | nil => rfl
  | cons c cs ih => rw [encodeEach, List.map_cons, ih]

theorem carried_literal (l : Literal) :
    (literal l).encode.carried = .tagged "Literal" l.encode.carried := by
  rw [encode, Form.carried_tagged]

theorem carried_node (a : Action) (cs : List Tree) : (node a cs).encode.carried =
    .tagged "Node" (.record [("action", a.encode.carried),
      ("children", .list (cs.map fun c => c.encode.carried))]) := by
  rw [encode, encodeEach_eq_map, Form.carried_tagged]
  simp only [Form.carried, Form.carriedFields, Form.carriedEach_eq_map, List.map_map]
  rfl

theorem decodeEach?_eq_mapM (fs : List Form) : decodeEach? fs = fs.mapM decode? := by
  induction fs with
  | nil => rfl
  | cons f fs ih =>
    rw [decodeEach?, ih, List.mapM_cons]
    cases decode? f <;> cases fs.mapM decode? <;> rfl

theorem decodeChildren?_cons {name : String} (h : name ≠ "children") (f : Form)
    (fields : List (String × Form)) :
    decodeChildren? ((name, f) :: fields) = decodeChildren? fields := by
  cases f <;> simp [decodeChildren?, h]

/-- A node is read from the text of its action and from what its children are read from. -/
theorem decode?_node (a : Action) (fs : List Form) :
    decode? (.tagged "Node" (.record [("action", a.encode.carried), ("children", .list fs)])) =
      (fs.mapM decode?).map (node a) := by
  have action : (([("action", a.encode.carried), ("children", .list fs)] :
      List (String × Form)).lookup "action").bind Action.decode? = some a :=
    Action.decode?_carried a
  have children : decodeChildren? [("action", a.encode.carried), ("children", .list fs)] =
      fs.mapM decode? := by
    rw [decodeChildren?_cons (by decide), decodeChildren?, if_pos rfl, decodeEach?_eq_mapM]
  rw [Form.tagged, decode?, if_neg (by decide), if_pos rfl, decodeNode?, action, children]
  cases fs.mapM decode? <;> rfl

/-- A tree comes back exactly if its floating-point literals are finite. Otherwise nothing does. -/
theorem decode?_carried (t : Tree) :
    decode? t.encode.carried = if t.AllFinite then some t else none := by
  induction t using Tree.induction with
  | literal l =>
    rw [carried_literal, Form.tagged, decode?, if_pos rfl, decode?_carried_of_literal]
    split <;> rfl
  | node a cs ih =>
    rw [carried_node, decode?_node, List.mapM_map, Function.comp_def, mapM_eq_ite ih]
    simp only [allFinite_node]
    split <;> rfl

end Tree

/-! ## Plans -/

theorem decodeDeclaration?_carried (d : String × Tree) :
    decodeDeclaration? (.list [.text d.1, d.2.encode.carried]) =
      if d.2.AllFinite then some d else none := by
  have body : decodeDeclaration? (.list [.text d.1, d.2.encode.carried]) =
      (Tree.decode? d.2.encode.carried).map (d.1, ·) := by
    simp only [decodeDeclaration?, Form.text?]
    cases Tree.decode? d.2.encode.carried <;> rfl
  rw [body, Tree.decode?_carried]
  split <;> rfl

namespace Plan

/-- All floating-point literals of the plan are finite. -/
def AllFinite (p : Plan) : Prop := ∀ x ∈ p.floats, x.isFinite = true

instance (p : Plan) : Decidable p.AllFinite := inferInstanceAs (Decidable (∀ x ∈ p.floats, _))

theorem allFinite_iff {p : Plan} :
    p.AllFinite ↔ (∀ d ∈ p.declarations, d.2.AllFinite) ∧ p.root.AllFinite := by
  simp only [AllFinite, floats, List.forall_mem_append, List.forall_mem_flatMap, Tree.AllFinite]

/-- A plan comes back exactly if its floating-point literals are finite. -/
theorem decode?_carried (p : Plan) :
    decode? p.encode.carried = if p.AllFinite then some p else none := by
  have fields : p.encode.carried.fields? ["declarations", "root"] = some
      [.list (p.declarations.map fun d => .list [.text d.1, d.2.encode.carried]),
        p.root.encode.carried] := by
    simp only [encode, Form.carried, Form.carriedFields, Form.carriedEach_eq_map, List.map_map]
    rfl
  have declarations : (p.declarations.map fun d => .list [.text d.1, d.2.encode.carried]).mapM
      decodeDeclaration? =
        if ∀ d ∈ p.declarations, d.2.AllFinite then some p.declarations else none := by
    rw [List.mapM_map, Function.comp_def]
    exact mapM_eq_ite fun d _ => decodeDeclaration?_carried d
  simp only [decode?, fields, Option.bind_eq_bind, Option.bind_some, Form.list?, declarations,
    Tree.decode?_carried, allFinite_iff, ite_and]
  split_ifs <;> rfl

end Plan

namespace Tree

theorem IsZero.isFinite {x : Float} (h : IsZero x) : x.isFinite = true := by
  rcases h with rfl | rfl <;> rfl

/-- Sharing neither loses nor adds a literal that is not finite. -/
theorem allFinite_share {t : Tree} (ht : t.accepted = true) {p : Plan} (hp : t.share = .ok p) :
    p.AllFinite ↔ t.AllFinite := by
  have same {x : Float} (hx : ¬ x.isFinite = true) : x ∈ p.floats ↔ x ∈ t.floats :=
    mem_floats_share ht hp fun hz => hx hz.isFinite
  constructor
  · intro h x hx
    by_contra hn
    exact hn (h x ((same hn).2 hx))
  · intro h x hx
    by_contra hn
    exact hn (h x ((same hn).1 hx))

/-- **Persisting an accepted tree.** It is compiled, and both the tree and its plan are read back
unchanged if all floating-point literals of the tree are finite. If one is not, neither can be read
back. -/
theorem exists_share_readBack {t : Tree} (ht : t.accepted = true) :
    ∃ p, t.share = .ok p ∧ (p.AllFinite ↔ t.AllFinite) ∧
      decode? t.encode.carried = (if t.AllFinite then some t else none) ∧
      Plan.decode? p.encode.carried = if t.AllFinite then some p else none := by
  obtain ⟨rs, p, hp, -⟩ := exists_shares ht
  have finite := allFinite_share ht hp
  refine ⟨p, hp, finite, decode?_carried t, ?_⟩
  rw [Plan.decode?_carried, if_congr finite rfl rfl]

/-- A column of the left row by a number. -/
def scaled (x : Float) : Tree := binary .mul (leftColumn "A") (literal (.float x))

/-- Products by the two infinities are accepted and differ, but they are written alike, and what is
written is no tree. -/
theorem infinity_not_readBack :
    (scaled Binary64.infinity).accepted = true ∧ (scaled (-Binary64.infinity)).accepted = true ∧
      (scaled Binary64.infinity).equal (scaled (-Binary64.infinity)) = false ∧
      (scaled Binary64.infinity).encode.carried = (scaled (-Binary64.infinity)).encode.carried ∧
      decode? (scaled Binary64.infinity).encode.carried = none :=
  ⟨by decide, by decide, by decide, rfl, by rw [decode?_carried]; rfl⟩

end Tree

end SpanJoin
