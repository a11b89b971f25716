import SpanJoin.Proofs.Outcome
import SpanJoin.Proofs.Table.Columns

/-!
# Tables step by step

A table is reshaped in steps: columns are projected, appended or stacked beside it, rows are taken
by position, and labels are reset. The steps rebuild the columns and the index apart from each
other, and still never mix rows: after any number of steps, row `i` is one row `origin steps i` of
the table at the start, the same one in all columns that were never projected away, and with its
label as long as the labels were not reset (`run_keeps_rows`).

One step draws its rows from the table before it (`exists_step`), and what is drawn from rows that
were drawn is drawn from where these came from (`DrawnFrom.trans`).
-/

namespace SpanJoin.Table

variable {t u v other : Table} {name : String} {cells : List Cell}

/-! ## Tables that were built -/

/-- The table was built from columns, over row labels or with its rows labelled by position. -/
def Built (t : Table) : Prop :=
  (∃ index columns, ofIndex index columns = .ok t) ∨ ∃ columns, ofColumns columns = .ok t

/-- Building a table checks that it is well-formed, and checks nothing else. -/
theorem built_iff_wellFormed : t.Built ↔ t.WellFormed := by
  constructor
  · rintro (⟨index, columns, h⟩ | ⟨columns, h⟩)
    · exact (ofIndex_eq_ok_iff.1 h).2
    · exact (ofIndex_eq_ok_iff.1 h).2
  · intro ht
    exact .inl ⟨t.index, t.columns, ofIndex_eq_ok_iff.2 ⟨rfl, ht⟩⟩

/-! ## Steps -/

/-- One operation on a table. -/
inductive Step where
  | project (names : List String)
  | take (positions : List Nat)
  | resetIndex
  | withColumn (name : String) (cells : List Cell)
  | hstack (other : Table)
  deriving DecidableEq

namespace Step

/-- What the operation gives. -/
def apply (t : Table) : Step → Outcome DataError Table
  | project names => .ofExcept (t.project names)
  | take positions => .ofOption (t.take? positions)
  | resetIndex => .ok t.resetIndex
  | withColumn name cells => .ofExcept (t.withColumn name cells)
  | hstack other => .ofExcept (t.hstack other)

/-- Rows are taken only at positions that exist. -/
def InRange (t : Table) : Step → Prop
  | take positions => ∀ p ∈ positions, p < t.rows
  | _ => True

/-- The columns are projected, and one of that name is not among those that stay. -/
def Drops (t : Table) (name : String) : Step → Prop
  | project names => (t.project names).isOk = true ∧ name ∉ names
  | _ => False

/-- The row before the step that a row after the step is. -/
def source : Step → Nat → Option Nat
  | take positions, i => positions[i]?
  | _, i => some i

instance (t : Table) : DecidablePred (InRange t)
  | take positions => inferInstanceAs (Decidable (∀ p ∈ positions, p < t.rows))
  | project _ | resetIndex | withColumn _ _ | hstack _ => .isTrue trivial

instance (t : Table) (name : String) : DecidablePred (Drops t name)
  | project names => inferInstanceAs (Decidable ((t.project names).isOk = true ∧ name ∉ names))
  | take _ | resetIndex | withColumn _ _ | hstack _ => .isFalse id

end Step

/-- The table after a step. A step that reports an error leaves the table as it was. -/
def step (t : Table) (s : Step) : Outcome DataError Table :=
  match s.apply t with
  | .error (.error _) => .ok t
  | r => r

/-- The table after the steps, one after the other. -/
def run (t : Table) (steps : List Step) : Outcome DataError Table := steps.foldlM step t

/-- Every step has the property in the state in which it is taken. -/
def Throughout (P : Table → Step → Prop) : Table → List Step → Prop
  | _, [] => True
  | t, s :: rest => P t s ∧
      match t.step s with
      | .ok u => Throughout P u rest
      | .error _ => True

instance decidableThroughout {P : Table → Step → Prop} [∀ t, DecidablePred (P t)] :
    (t : Table) → (steps : List Step) → Decidable (Throughout P t steps)
  | _, [] => inferInstanceAs (Decidable True)
  | t, s :: rest =>
    have : Decidable (match t.step s with
        | .ok u => Throughout P u rest
        | .error _ => True) :=
      match t.step s with
      | .ok u => decidableThroughout u rest
      | .error _ => .isTrue trivial
    inferInstanceAs (Decidable (_ ∧ _))

/-- Rows are never taken at positions that do not exist. -/
def InRange (t : Table) (steps : List Step) : Prop := Throughout Step.InRange t steps

/-- A column of that name is never projected away. -/
def Keeps (t : Table) (steps : List Step) (name : String) : Prop :=
  Throughout (fun t s => ¬ s.Drops t name) t steps

/-- The row at the start that a row after the steps is: the positions that were taken, composed. -/
def origin : List Step → Nat → Option Nat
  | [], i => some i
  | s :: rest, i => (origin rest i).bind s.source

theorem throughout_cons {P : Table → Step → Prop} {s : Step} {rest : List Step}
    (h : t.step s = .ok u) : Throughout P t (s :: rest) ↔ P t s ∧ Throughout P u rest := by
  rw [Throughout, h]

theorem Throughout.of_append {P : Table → Step → Prop} {steps more : List Step}
    (h : Throughout P t (steps ++ more)) : Throughout P t steps := by
  induction steps generalizing t with
  | nil => exact trivial
  | cons s rest ih =>
    refine ⟨h.1, ?_⟩
    have h' := h.2
    split at h'
    · rename_i u hu
      exact ih h'
    · trivial

/-! ## Rows drawn from a table -/

/-- The rows of `u` are rows of `t`: row `i` is row `source i`, and there is one if there is the
other. In the columns `kept` it has the cells of that row, and if `labelled` holds, it has the
label. -/
structure DrawnFrom (u t : Table) (source : Nat → Option Nat) (kept : String → Prop)
    (labelled : Prop) : Prop where
  row : ∀ i, i < u.rows ↔ ∃ p < t.rows, source i = some p
  label : labelled → ∀ i p, source i = some p → u.index[i]? = t.index[p]?
  names : ∀ name ∈ t.names, kept name → name ∈ u.names
  cell : ∀ name ∈ t.names, kept name → ∀ i p, source i = some p → u.cell? name i = t.cell? name p

namespace DrawnFrom

variable {f g : Nat → Option Nat} {k k' : String → Prop} {l l' : Prop}

theorem trans (hv : v.DrawnFrom u g k' l') (hu : u.DrawnFrom t f k l) :
    v.DrawnFrom t (fun i => (g i).bind f) (fun name => k name ∧ k' name) (l ∧ l') where
  row i := by
    rw [hv.row]
    constructor
    · rintro ⟨p, hp, hg⟩
      obtain ⟨q, hq, hf⟩ := (hu.row p).1 hp
      exact ⟨q, hq, Option.bind_eq_some_iff.2 ⟨p, hg, hf⟩⟩
    · rintro ⟨q, hq, hi⟩
      obtain ⟨p, hg, hf⟩ := Option.bind_eq_some_iff.1 hi
      exact ⟨p, (hu.row p).2 ⟨q, hq, hf⟩, hg⟩
  label hl i q hi := by
    obtain ⟨p, hg, hf⟩ := Option.bind_eq_some_iff.1 hi
    rw [hv.label hl.2 i p hg, hu.label hl.1 p q hf]
  names name hn hk := hv.names name (hu.names name hn hk.1) hk.2
  cell name hn hk i q hi := by
    obtain ⟨p, hg, hf⟩ := Option.bind_eq_some_iff.1 hi
    rw [hv.cell name (hu.names name hn hk.1) hk.2 i p hg, hu.cell name hn hk.1 p q hf]

theorem imp (h : u.DrawnFrom t f k l) (kept : ∀ name, k' name → k name) (labels : l' → l) :
    u.DrawnFrom t f k' l' where
  row := h.row
  label hl := h.label (labels hl)
  names name hn hk := h.names name hn (kept name hk)
  cell name hn hk := h.cell name hn (kept name hk)

/-- Where no row moves, it is enough to look at whole columns and at the index. -/
theorem of_column_eq (rows : u.rows = t.rows) (labels : l → u.index = t.index)
    (columns : ∀ name ∈ t.names, k name → u.column name = t.column name) :
    u.DrawnFrom t some k l where
  row i := by simp [rows]
  label hl i p hi := by rw [labels hl, Option.some.inj hi]
  names name hn hk := by
    obtain ⟨cells, hc⟩ := exists_column_iff.2 hn
    exact exists_column_iff.1 ⟨cells, (columns name hn hk).trans hc⟩
  cell name hn hk i p hi := by rw [cell?, cell?, columns name hn hk, Option.some.inj hi]

end DrawnFrom

/-! ## One step -/

theorem drawnFrom_of_project {names : List String} (h : t.project names = .ok u) :
    u.DrawnFrom t some (· ∈ names) True := by
  have index : u.index = t.index := by
    obtain ⟨columns, -, rfl⟩ := Outcome.exceptMap_eq_ok.1 h
    rfl
  refine .of_column_eq (congrArg List.length index) (fun _ => index) fun name _ hn => ?_
  exact (cutTo_of_project h).column_eq hn

theorem drawnFrom_of_take? {positions : List Nat} (h : t.take? positions = some u) :
    u.DrawnFrom t (fun i => positions[i]?) (fun _ => True) True where
  row i := by
    constructor
    · intro hi
      obtain ⟨p, hp, ht⟩ := exists_getElem?_of_forall₂_right (take?_eq_some_iff.1 h).1
        (List.getElem?_eq_getElem hi)
      exact ⟨p, (List.getElem?_eq_some_iff.1 ht).1, hp⟩
    · rintro ⟨p, -, hp⟩
      rw [rows_take? h]
      exact (List.getElem?_eq_some_iff.1 hp).1
  label _ i p hi := by
    obtain ⟨x, hu, ht⟩ := exists_getElem?_of_forall₂ (take?_eq_some_iff.1 h).1 hi
    rw [hu, ht]
  names name hn _ := by rwa [names_take? h]
  cell name _ _ i p hi := cell?_take? h name hi

theorem drawnFrom_of_append (more : List Column) :
    ({ t with columns := t.columns ++ more } : Table).DrawnFrom t some (fun _ => True) True :=
  .of_column_eq rfl (fun _ => rfl) fun _ hn _ => column_append hn more

/-- What an operation gives is well-formed, and its rows come from the table before. -/
theorem Step.meets_apply (ht : t.WellFormed) {s : Step} (hs : s.InRange t) :
    (s.apply t).Meets True fun u => u.WellFormed ∧
      u.DrawnFrom t s.source (fun name => ¬ s.Drops t name) (s ≠ .resetIndex) := by
  cases s with
  | project names =>
    refine Outcome.meets_ofExcept.2 fun u h => ⟨ht.project h, ?_⟩
    refine (drawnFrom_of_project h).imp (fun name kept => ?_) fun _ => trivial
    by_contra hn
    exact kept ⟨by rw [h]; rfl, hn⟩
  | take positions =>
    obtain ⟨u, h⟩ := exists_take? ht hs
    refine Outcome.meets_ofOption ⟨u, h, ht.take? h, ?_⟩
    exact (drawnFrom_of_take? h).imp (fun _ _ => trivial) fun _ => trivial
  | resetIndex =>
    refine ⟨ht.resetIndex, .of_column_eq (rows_resetIndex t) (fun labelled => ?_) fun _ _ _ => rfl⟩
    exact absurd rfl labelled
  | withColumn name cells =>
    refine Outcome.meets_ofExcept.2 fun u h => ⟨ht.withColumn h, ?_⟩
    obtain ⟨-, -, rfl⟩ := withColumn_eq_ok_iff.1 h
    exact (drawnFrom_of_append _).imp (fun _ _ => trivial) fun _ => trivial
  | hstack other =>
    refine Outcome.meets_ofExcept.2 fun u h => ?_
    obtain ⟨-, rfl, hu⟩ := hstack_eq_ok_iff.1 h
    exact ⟨hu, (drawnFrom_of_append _).imp (fun _ _ => trivial) fun _ => trivial⟩

/-- Only a step that moves no row reports an error. -/
theorem Step.source_of_error {s : Step} {e : DataError} (h : s.apply t = .error (.error e)) :
    s.source = some := by
  cases s with
  | take positions =>
    rw [apply] at h
    cases ht : t.take? positions <;> simp [ht, Outcome.ofOption] at h
  | project _ | resetIndex | withColumn _ _ | hstack _ => rfl

/-- A step in range ends in a well-formed table with rows from the one before. -/
theorem exists_step (ht : t.WellFormed) {s : Step} (hs : s.InRange t) :
    ∃ u, t.step s = .ok u ∧ u.WellFormed ∧
      u.DrawnFrom t s.source (fun name => ¬ s.Drops t name) (s ≠ .resetIndex) := by
  have applied := Step.meets_apply ht hs
  rw [step]
  rcases h : s.apply t with (e | _) | u
  -- The table stays as it was; as no take reports an error, row `i` is still row `i`.
  · refine ⟨t, rfl, ht, ?_⟩
    rw [Step.source_of_error h]
    exact .of_column_eq rfl (fun _ => rfl) fun _ _ _ => rfl
  · exact absurd h (applied.ne_outOfRange trivial)
  · rw [h] at applied
    exact ⟨u, rfl, applied⟩

/-! ## Any number of steps -/

theorem exists_run (ht : t.WellFormed) {steps : List Step} (hs : t.InRange steps) :
    ∃ u, t.run steps = .ok u ∧ u.WellFormed ∧
      u.DrawnFrom t (origin steps) (t.Keeps steps) (.resetIndex ∉ steps) := by
  induction steps generalizing t with
  | nil => exact ⟨t, rfl, ht, .of_column_eq rfl (fun _ => rfl) fun _ _ _ => rfl⟩
  | cons s rest ih =>
    obtain ⟨u, hu, wu, du⟩ := exists_step ht hs.1
    obtain ⟨v, hv, wv, dv⟩ := ih wu ((throughout_cons hu).1 hs).2
    refine ⟨v, by rw [run, List.foldlM_cons, hu]; exact hv, wv, (dv.trans du).imp ?_ ?_⟩
    · exact fun name kept => (throughout_cons hu).1 kept
    · intro labelled
      exact ⟨fun e => labelled (e ▸ List.mem_cons_self), fun hm =>
        labelled (List.mem_cons_of_mem s hm)⟩

/-- No sequence of steps mixes rows. In every state of a run from a table that was built, the names
of the columns differ and every column is as long as the index. The rows are those that the takes
lead to: each has the cells of its row in the first table, in every column that was never projected
away, and its label if the labels were not reset. A stacked table is checked again, so nothing is
asked of it. -/
theorem run_keeps_rows (ht : t.Built) {steps done : List Step} (inRange : t.InRange steps)
    (h : done <+: steps) :
    ∃ u, t.run done = .ok u ∧ u.names.Nodup ∧ (∀ c ∈ u.columns, c.cells.length = u.rows) ∧
      (∀ i, i < u.rows ↔ ∃ p < t.rows, origin done i = some p) ∧
      ∀ i p, i < u.rows → origin done i = some p →
        (.resetIndex ∉ done → u.index[i]? = t.index[p]?) ∧
        ∀ name ∈ t.names, t.Keeps done name →
          ∃ x, u.cell? name i = some x ∧ t.cell? name p = some x := by
  have whole := built_iff_wellFormed.1 ht
  obtain ⟨more, rfl⟩ := h
  obtain ⟨u, hu, wellFormed, drawn⟩ := exists_run whole inRange.of_append
  refine ⟨u, hu, wellFormed.names, wellFormed.lengths, drawn.row, fun i p hi hp => ?_⟩
  refine ⟨fun labelled => drawn.label labelled i p hp, fun name hn kept => ?_⟩
  obtain ⟨x, hx⟩ := wellFormed.exists_cell? (drawn.names name hn kept) hi
  exact ⟨x, hx, by rw [← drawn.cell name hn kept i p hp, hx]⟩

/-- Three rows with labels of their own. -/
def threeRoads : Table :=
  ⟨[.text "a", .text "b", .text "c"],
    [⟨"id", [.int 1, .int 2, .int 3]⟩, ⟨"x", [.int 5, .int 6, .int 7]⟩]⟩

/-- The name "id" is taken, then free, then taken again, and the last projection is refused. -/
def reshaping : List Step :=
  [.withColumn "id" [.int 0, .int 0, .int 0], .project ["x", "x"], .take [2, 0, 2],
    .withColumn "id" [.int 7, .int 8, .int 9],
    .hstack ⟨Cell.counting 3, [⟨"y", [.null, .null, .null]⟩]⟩, .take [1, 0], .resetIndex,
    .project ["z"]]

example : threeRoads.run reshaping = .ok ⟨[.int 0, .int 1],
    [⟨"x", [.int 5, .int 7]⟩, ⟨"id", [.int 8, .int 7]⟩, ⟨"y", [.null, .null]⟩]⟩ := rfl

theorem run_keeps_rows_threeRoads : threeRoads.Built ∧ threeRoads.InRange reshaping ∧
    reshaping.take 6 <+: reshaping ∧ .resetIndex ∉ reshaping.take 6 ∧ "x" ∈ threeRoads.names ∧
    threeRoads.Keeps (reshaping.take 6) "x" ∧ origin (reshaping.take 6) 1 = some 2 ∧
    ∃ u, threeRoads.run (reshaping.take 6) = .ok u ∧ u.names.Nodup ∧
      (∀ c ∈ u.columns, c.cells.length = u.rows) ∧ 1 < u.rows ∧
      u.index[1]? = threeRoads.index[2]? ∧
      ∃ x, u.cell? "x" 1 = some x ∧ threeRoads.cell? "x" 2 = some x := by
  have built : threeRoads.Built := built_iff_wellFormed.2 ⟨by decide, by decide⟩
  have inRange : threeRoads.InRange reshaping := by
    unfold InRange
    decide
  have labelled : .resetIndex ∉ reshaping.take 6 := by decide
  have kept : threeRoads.Keeps (reshaping.take 6) "x" := by
    unfold Keeps
    decide
  have before := List.take_prefix 6 reshaping
  have named : "x" ∈ threeRoads.names := by decide
  obtain ⟨u, hu, nodup, lengths, rows, cells⟩ := run_keeps_rows built inRange before
  have row : 1 < u.rows := (rows 1).2 ⟨2, by decide, rfl⟩
  obtain ⟨label, cell⟩ := cells 1 2 row rfl
  exact ⟨built, inRange, before, labelled, named, kept, rfl, u, hu, nodup, lengths, row,
    label labelled, cell "x" named kept⟩

end SpanJoin.Table
