import Mathlib.Data.List.Nodup
import SpanJoin.Proofs.Collection.Pairwise
import SpanJoin.Table.Basic

/-!
# Columns of cut-down tables

What reading a column gives after a table has been cut down: the columns that were chosen are those
of the whole table (`cutTo_of_project`), and rows that were taken have the cells of these rows
(`column_take?`, `cell?_take?`). Columns that are appended leave the others as they are
(`column_append`). A table that was built by checking its columns is well-formed
(`ofIndex_eq_ok_iff`). Any of its columns can be chosen (`exists_project_iff`) and any of its rows
taken (`exists_take?`), and what comes out is well-formed again.
-/

namespace SpanJoin.Table

/-- No two columns share a name, and every column has a cell for every row. -/
structure WellFormed (t : Table) : Prop where
  names : t.names.Nodup
  lengths : ∀ c ∈ t.columns, c.cells.length = t.rows

theorem checkColumns_isOk_iff {rows : Nat} {seen : List String} {columns : List Column} :
    (∃ u, checkColumns rows seen columns = .ok u) ↔
      (columns.map Column.name).Nodup ∧ (∀ c ∈ columns, c.name ∉ seen) ∧
        ∀ c ∈ columns, c.cells.length = rows := by
  induction columns generalizing seen with
  | nil => simp [checkColumns]
  | cons c rest ih =>
    rw [checkColumns]
    by_cases hs : c.name ∈ seen
    · simp [hs]
    · by_cases hl : c.cells.length = rows
      · simp only [List.contains_eq_mem, hs, decide_false, Bool.false_eq_true, if_false, hl,
          ne_eq, not_true_eq_false, ih]
        simp only [List.map_cons, List.nodup_cons, List.mem_map, List.forall_mem_cons,
          List.mem_append, List.mem_singleton]
        grind
      · simp [hs, hl]

/-- A table is built exactly if its columns have different names and as many cells as the index has
labels. -/
theorem ofIndex_eq_ok_iff {index : List Cell} {columns : List Column} {t : Table} :
    ofIndex index columns = .ok t ↔ t = ⟨index, columns⟩ ∧ t.WellFormed := by
  have checked := @checkColumns_isOk_iff index.length [] columns
  rw [ofIndex]
  cases h : checkColumns index.length [] columns with
  | ok u =>
    have hw := checked.1 ⟨u, h⟩
    constructor
    · intro e
      obtain rfl : ⟨index, columns⟩ = t := Except.ok.inj e
      exact ⟨rfl, hw.1, hw.2.2⟩
    · rintro ⟨rfl, -⟩
      rfl
  | error e =>
    refine ⟨nofun, ?_⟩
    rintro ⟨rfl, hw⟩
    obtain ⟨u, hu⟩ := checked.2 ⟨hw.names, by simp, hw.lengths⟩
    rw [h] at hu
    cases hu

/-! ## Reading cells -/

/-- The first column of a name, if there is one. -/
theorem exists_find?_name {columns : List Column} {name : String}
    (hn : name ∈ columns.map Column.name) :
    ∃ c ∈ columns, c.name = name ∧ columns.find? (fun c => c.name == name) = some c := by
  obtain ⟨c, hc, e⟩ := List.mem_map.1 hn
  obtain ⟨d, hd⟩ : ∃ d, columns.find? (fun c => c.name == name) = some d :=
    Option.isSome_iff_exists.1 (List.find?_isSome.2 ⟨c, hc, beq_iff_eq.2 e⟩)
  exact ⟨d, List.mem_of_find?_eq_some hd, by simpa using List.find?_some hd, hd⟩

/-- A column of that name is there or is not. -/
theorem exists_column_iff {t : Table} {name : String} :
    (∃ cells, t.column name = .ok cells) ↔ name ∈ t.names := by
  rw [column]
  cases h : t.columns.find? fun c => c.name == name with
  | some c =>
    have hn : c.name = name := by simpa using List.find?_some h
    simp only [Except.ok.injEq, exists_eq', true_iff]
    exact hn ▸ List.mem_map_of_mem (List.mem_of_find?_eq_some h)
  | none =>
    simp only [reduceCtorEq, exists_false, false_iff]
    intro hn
    obtain ⟨c, hc, e⟩ := List.mem_map.1 hn
    exact List.find?_eq_none.1 h c hc (by simp [e])

/-- In a well-formed table the name of a column leads to this column. -/
theorem WellFormed.column_of_mem {t : Table} (ht : t.WellFormed) {c : Column}
    (hc : c ∈ t.columns) : t.column c.name = .ok c.cells := by
  obtain ⟨d, hm, hn, hd⟩ := exists_find?_name (List.mem_map_of_mem hc)
  obtain rfl : d = c := List.inj_on_of_nodup_map ht.names hm hc hn
  rw [column, hd]

/-- A column of a well-formed table has a cell for every row. -/
theorem WellFormed.length_column {t : Table} (ht : t.WellFormed) {name : String}
    {cells : List Cell} (h : t.column name = .ok cells) : cells.length = t.rows := by
  rw [column] at h
  split at h
  · rename_i c hc
    obtain rfl := Except.ok.inj h
    exact ht.lengths c (List.mem_of_find?_eq_some hc)
  · cases h

/-- The cell of a row in the column of that name, if there are both. -/
def cell? (t : Table) (name : String) (position : Nat) : Option Cell :=
  (t.column name).toOption.bind fun cells => cells[position]?

theorem WellFormed.exists_cell? {t : Table} (ht : t.WellFormed) {name : String}
    (hn : name ∈ t.names) {position : Nat} (hp : position < t.rows) :
    ∃ x, t.cell? name position = some x := by
  obtain ⟨cells, hc⟩ := exists_column_iff.2 hn
  rw [← ht.length_column hc] at hp
  exact ⟨cells.get ⟨position, hp⟩, by rw [cell?, hc]; exact List.getElem?_eq_getElem hp⟩

theorem get_eq_ok_iff {t : Table} {name : String} {position : Nat} {x : Cell} :
    (⟨t, position⟩ : Row).get name = .ok x ↔ t.cell? name position = some x := by
  rw [Row.get, cell?]
  cases t.column name <;> simp [Outcome.ofExcept, Except.toOption]

/-- A row reads its cells. -/
theorem get_eq_cell? {t : Table} {name : String} (hn : name ∈ t.names) (position : Nat) :
    (⟨t, position⟩ : Row).get name = Outcome.ofOption (t.cell? name position) := by
  obtain ⟨cells, hc⟩ := exists_column_iff.2 hn
  rw [Row.get, cell?, hc]
  rfl

@[simp] theorem column_resetIndex (t : Table) (name : String) :
    t.resetIndex.column name = t.column name := rfl

/-- A table that is labelled by position has as many rows as labels. -/
theorem rows_of_index {t : Table} {n : Nat} (h : t.index = Cell.counting n) : t.rows = n := by
  simp [rows, h, Cell.counting]

@[simp] theorem rows_resetIndex (t : Table) : t.resetIndex.rows = t.rows := rows_of_index rfl

theorem WellFormed.resetIndex {t : Table} (ht : t.WellFormed) : t.resetIndex.WellFormed where
  names := ht.names
  lengths c hc := by rw [rows_resetIndex, ht.lengths c hc]

/-! ## Chosen columns -/

theorem choose_spec {t : Table} {kept columns : List Column} {names : List String}
    (h : t.choose kept names = .ok columns) (hk : ∀ c ∈ kept, t.column c.name = .ok c.cells) :
    (∀ c ∈ kept, c ∈ columns) ∧ (∀ c ∈ columns, t.column c.name = .ok c.cells) ∧
      ∀ name ∈ names, ∃ c ∈ columns, c.name = name := by
  induction names generalizing kept with
  | nil =>
    obtain rfl : kept = columns := Except.ok.inj h
    exact ⟨fun c hc => hc, hk, by simp⟩
  | cons name names ih =>
    rw [choose] at h
    split at h
    · rename_i any
      obtain ⟨sub, cells, found⟩ := ih h hk
      refine ⟨sub, cells, fun n hn => ?_⟩
      rcases List.mem_cons.1 hn with rfl | hn
      · obtain ⟨c, hc, e⟩ := List.any_eq_true.1 any
        exact ⟨c, sub c hc, by simpa using e⟩
      · exact found n hn
    · split at h
      · rename_i cs hcs
        have hk' : ∀ c ∈ kept ++ [⟨name, cs⟩], t.column c.name = .ok c.cells := by
          intro c hc
          rcases List.mem_append.1 hc with hc | hc
          · exact hk c hc
          · rw [List.mem_singleton.1 hc]
            exact hcs
        obtain ⟨sub, cells, found⟩ := ih h hk'
        refine ⟨fun c hc => sub c (List.mem_append_left _ hc), cells, fun n hn => ?_⟩
        rcases List.mem_cons.1 hn with rfl | hn
        · exact ⟨_, sub _ (List.mem_append_right _ (List.mem_singleton.2 rfl)), rfl⟩
        · exact found n hn
      · cases h

theorem nodup_choose {t : Table} {kept columns : List Column} {names : List String}
    (h : t.choose kept names = .ok columns) (hk : (kept.map Column.name).Nodup) :
    (columns.map Column.name).Nodup := by
  induction names generalizing kept with
  | nil =>
    obtain rfl : kept = columns := Except.ok.inj h
    exact hk
  | cons name names ih =>
    rw [choose] at h
    split at h
    · exact ih h hk
    · rename_i fresh
      split at h
      · refine ih h ?_
        rw [List.map_append, List.nodup_append]
        refine ⟨hk, List.nodup_singleton _, ?_⟩
        rintro n hn m hm rfl
        obtain rfl : n = name := List.mem_singleton.1 hm
        obtain ⟨c, hc, e⟩ := List.mem_map.1 hn
        exact fresh (List.any_eq_true.2 ⟨c, hc, by simp [e]⟩)
      · cases h

theorem exists_choose_iff {t : Table} {kept : List Column} {names : List String} :
    (∃ columns, t.choose kept names = .ok columns) ↔
      ∀ name ∈ names, name ∈ kept.map Column.name ∨ name ∈ t.names := by
  induction names generalizing kept with
  | nil => simp [choose]
  | cons name names ih =>
    have seen : (kept.any fun c => c.name == name) = true ↔ name ∈ kept.map Column.name := by
      simp [List.any_eq_true]
    rw [choose, List.forall_mem_cons]
    split
    · rename_i h
      rw [ih, and_iff_right (.inl (seen.1 h))]
    · rename_i h
      rw [← seen, or_iff_right h, ← exists_column_iff]
      cases hc : t.column name with
      | error e => simp
      | ok cells =>
        simp only [ih, List.map_append, List.map_cons, List.map_nil, List.mem_append,
          List.mem_singleton, Except.ok.injEq, exists_eq', true_and]
        refine forall₂_congr fun n _ => ?_
        have : n = name → n ∈ t.names := fun e => e ▸ exists_column_iff.1 ⟨cells, hc⟩
        tauto

/-- The columns of a table can be chosen, and no others. -/
theorem exists_project_iff {t : Table} {names : List String} :
    (∃ u, t.project names = .ok u) ↔ ∀ name ∈ names, name ∈ t.names := by
  have columns := @exists_choose_iff t [] names
  simp only [List.map_nil, List.not_mem_nil, false_or] at columns
  rw [← columns, project]
  cases t.choose [] names <;> simp [Except.map]

theorem WellFormed.project {t u : Table} (ht : t.WellFormed) {names : List String}
    (h : t.project names = .ok u) : u.WellFormed := by
  rw [Table.project] at h
  cases hc : t.choose [] names with
  | error e =>
    rw [hc] at h
    cases h
  | ok columns =>
    rw [hc] at h
    obtain rfl := Except.ok.inj h
    refine ⟨nodup_choose hc .nil, fun c hm => ?_⟩
    exact ht.length_column ((choose_spec hc (by simp)).2.1 c hm)

/-- Choosing the names of some columns gives these columns. -/
theorem project_eq_of_columns {t : Table} {columns : List Column}
    (nodup : (columns.map Column.name).Nodup)
    (same : ∀ c ∈ columns, t.column c.name = .ok c.cells) :
    t.project (columns.map Column.name) = .ok { t with columns } := by
  have chosen {kept : List Column} (h : ((kept ++ columns).map Column.name).Nodup) :
      t.choose kept (columns.map Column.name) = .ok (kept ++ columns) := by
    clear nodup
    induction columns generalizing kept with
    | nil => rw [List.map_nil, choose, List.append_nil]
    | cons c columns ih =>
      have fresh : ¬ (kept.any fun d => d.name == c.name) = true := by
        intro any
        obtain ⟨d, hd, e⟩ := List.any_eq_true.1 any
        rw [List.map_append, List.nodup_append] at h
        exact h.2.2 _ (List.mem_map_of_mem hd) _ (List.mem_map_of_mem List.mem_cons_self)
          (by simpa using e)
      rw [List.map_cons, choose, if_neg fresh, same c List.mem_cons_self]
      simp only
      rw [ih (fun d hd => same d (List.mem_cons_of_mem c hd)) (by simpa using h)]
      simp
  rw [project, chosen (by simpa using nodup)]
  rfl

/-- The table has the rows of another one, labelled by position, and some of its columns. -/
structure CutTo (u t : Table) (names : List String) : Prop where
  index : u.index = Cell.counting t.rows
  wellFormed : t.WellFormed → u.WellFormed
  column : ∀ name ∈ names, ∃ cells, t.column name = .ok cells ∧ u.column name = .ok cells

/-- Choosing columns cuts the table down to these. -/
theorem cutTo_of_project {t u : Table} {names : List String} (h : t.project names = .ok u) :
    u.resetIndex.CutTo t names := by
  have whole : t.WellFormed → u.resetIndex.WellFormed := fun ht => (ht.project h).resetIndex
  rw [project] at h
  cases hc : t.choose [] names with
  | error e =>
    rw [hc] at h
    cases h
  | ok columns =>
    rw [hc] at h
    obtain rfl := Except.ok.inj h
    refine ⟨rfl, whole, fun name hn => ?_⟩
    obtain ⟨-, cells, found⟩ := choose_spec hc (by simp)
    obtain ⟨d, hm, hdn, hd⟩ := exists_find?_name (List.mem_map.2 (found name hn))
    refine ⟨d.cells, ?_, ?_⟩
    · rw [← hdn]
      exact cells d hm
    · rw [column_resetIndex, column, hd]

namespace CutTo

variable {t u : Table} {names : List String}

theorem rows_eq (h : u.CutTo t names) : u.rows = t.rows := by
  rw [rows, h.index, Cell.counting, List.length_map, List.length_range]

theorem mem_names (h : u.CutTo t names) {name : String} (hn : name ∈ names) : name ∈ t.names := by
  obtain ⟨cells, ht, -⟩ := h.column name hn
  exact exists_column_iff.1 ⟨cells, ht⟩

theorem mem_names_cut (h : u.CutTo t names) {name : String} (hn : name ∈ names) :
    name ∈ u.names := by
  obtain ⟨cells, -, hu⟩ := h.column name hn
  exact exists_column_iff.1 ⟨cells, hu⟩

theorem column_eq (h : u.CutTo t names) {name : String} (hn : name ∈ names) :
    u.column name = t.column name := by
  obtain ⟨cells, ht, hu⟩ := h.column name hn
  rw [ht, hu]

theorem cell?_eq (h : u.CutTo t names) {name : String} (hn : name ∈ names) (position : Nat) :
    u.cell? name position = t.cell? name position := by
  rw [cell?, cell?, h.column_eq hn]

end CutTo

/-! ## Appended columns -/

theorem hasColumn_iff {t : Table} {name : String} : t.hasColumn name = true ↔ name ∈ t.names := by
  simp [hasColumn, names]

/-- A column is appended if its name is new and it is as long as the index. -/
theorem withColumn_eq_ok_iff {t u : Table} {name : String} {cells : List Cell} :
    t.withColumn name cells = .ok u ↔ name ∉ t.names ∧ cells.length = t.rows ∧
      u = { t with columns := t.columns ++ [⟨name, cells⟩] } := by
  rw [withColumn]
  split
  · rename_i taken
    simp [hasColumn_iff.1 taken]
  · rename_i free
    rw [hasColumn_iff] at free
    split
    · rename_i short
      simp [short]
    · rename_i long
      simp only [free, not_not.1 long, Except.ok.injEq, eq_comm, not_false_eq_true, true_and]

theorem WellFormed.withColumn {t u : Table} (ht : t.WellFormed) {name : String} {cells : List Cell}
    (h : t.withColumn name cells = .ok u) : u.WellFormed := by
  obtain ⟨new, length, rfl⟩ := withColumn_eq_ok_iff.1 h
  constructor
  · rw [Table.names, List.map_append, List.nodup_append]
    refine ⟨ht.names, List.nodup_singleton _, ?_⟩
    rintro n hn m hm rfl
    obtain rfl : n = name := List.mem_singleton.1 hm
    exact new hn
  · intro c hc
    rcases List.mem_append.1 hc with hc | hc
    · exact ht.lengths c hc
    · rw [List.mem_singleton.1 hc]
      exact length

/-- Columns of another table are appended if the table is well-formed with them. -/
theorem hstack_eq_ok_iff {t u other : Table} :
    t.hstack other = .ok u ↔ other.rows = t.rows ∧
      u = { t with columns := t.columns ++ other.columns } ∧ u.WellFormed := by
  rw [hstack]
  split
  · rename_i rows
    simp [rows]
  · rename_i rows
    rw [ofIndex_eq_ok_iff, and_iff_right (not_not.1 rows)]

/-- Columns that are appended do not hide one that is there. -/
theorem column_append {t : Table} {name : String} (hn : name ∈ t.names) (more : List Column) :
    ({ t with columns := t.columns ++ more } : Table).column name = t.column name := by
  obtain ⟨c, -, -, hc⟩ := exists_find?_name hn
  rw [column, column, List.find?_append, hc, Option.some_or]

/-! ## Taken rows -/

/-- The cells at the positions, in that order. -/
def Picks (cells : List Cell) (positions : List Nat) (picked : List Cell) : Prop :=
  List.Forall₂ (fun p x => cells[p]? = some x) positions picked

theorem take?_eq_some_iff {t u : Table} {positions : List Nat} :
    t.take? positions = some u ↔ Picks t.index positions u.index ∧
      List.Forall₂ (fun c d => d.name = c.name ∧ Picks c.cells positions d.cells)
        t.columns u.columns := by
  simp only [take?, Option.bind_eq_bind, Option.bind_eq_some_iff, mapM_eq_some_iff, Option.pure_def,
    Option.some.injEq]
  constructor
  · rintro ⟨index, hi, columns, hc, rfl⟩
    refine ⟨hi, hc.imp ?_⟩
    rintro c _ ⟨cells, hcells, rfl⟩
    exact ⟨rfl, hcells⟩
  · rintro ⟨hi, hc⟩
    refine ⟨u.index, hi, u.columns, hc.imp ?_, rfl⟩
    rintro c ⟨name, cells⟩ ⟨rfl, hcells⟩
    exact ⟨cells, hcells, rfl⟩

/-- A column of the rows that were taken has the cells of these rows. -/
theorem column_take? {t u : Table} {positions : List Nat} (h : t.take? positions = some u)
    {name : String} {cells : List Cell} (hc : t.column name = .ok cells) :
    ∃ picked, u.column name = .ok picked ∧ Picks cells positions picked := by
  have columns := (take?_eq_some_iff.1 h).2
  rw [column] at hc ⊢
  generalize t.columns = cs at columns hc
  generalize u.columns = ds at columns
  revert hc
  induction columns with
  | nil => nofun
  | @cons c d cs ds hcd _ ih =>
    obtain ⟨hn, hp⟩ := hcd
    rw [List.find?_cons, List.find?_cons, hn]
    cases c.name == name with
    | true =>
      intro hc
      rw [← Except.ok.inj hc]
      exact ⟨d.cells, rfl, hp⟩
    | false => exact ih

/-- The rows that were taken have the columns of the table. -/
theorem names_take? {t u : Table} {positions : List Nat} (h : t.take? positions = some u) :
    u.names = t.names := by
  rw [names, names, ← List.forall₂_eq_eq_eq, List.forall₂_map_left_iff,
    List.forall₂_map_right_iff]
  exact (take?_eq_some_iff.1 h).2.flip.imp fun d c hcd => hcd.1

theorem rows_take? {t u : Table} {positions : List Nat} (h : t.take? positions = some u) :
    u.rows = positions.length :=
  (take?_eq_some_iff.1 h).1.length_eq.symm

theorem WellFormed.take? {t u : Table} (ht : t.WellFormed) {positions : List Nat}
    (h : t.take? positions = some u) : u.WellFormed where
  names := by
    rw [names_take? h]
    exact ht.names
  lengths d hd := by
    obtain ⟨c, -, -, picks⟩ := exists_mem_of_forall₂_right (take?_eq_some_iff.1 h).2 hd
    rw [rows_take? h, picks.length_eq]

/-- A cell of the rows that were taken is that of the row at its position. -/
theorem cell?_take? {t u : Table} {positions : List Nat} (h : t.take? positions = some u)
    (name : String) {k p : Nat} (hk : positions[k]? = some p) :
    u.cell? name k = t.cell? name p := by
  by_cases hn : name ∈ t.names
  · obtain ⟨cells, hc⟩ := exists_column_iff.2 hn
    obtain ⟨picked, hu, picks⟩ := column_take? h hc
    obtain ⟨x, hx, hp⟩ := exists_getElem?_of_forall₂ picks hk
    rw [cell?, cell?, hc, hu]
    exact hx.trans hp.symm
  · have none {v : Table} (hv : name ∉ v.names) (i : Nat) : v.cell? name i = none := by
      rw [cell?]
      cases hc : v.column name with
      | error e => rfl
      | ok cells => exact absurd (exists_column_iff.1 ⟨cells, hc⟩) hv
    rw [none hn, none (names_take? h ▸ hn)]

theorem exists_picks {cells : List Cell} {positions : List Nat}
    (h : ∀ p ∈ positions, p < cells.length) : ∃ picked, Picks cells positions picked :=
  exists_forall₂ fun p hp => ⟨cells.get ⟨p, h p hp⟩, List.getElem?_eq_getElem (h p hp)⟩

/-- Rows that are there can be taken. -/
theorem exists_take? {t : Table} (ht : t.WellFormed) {positions : List Nat}
    (h : ∀ p ∈ positions, p < t.rows) : ∃ u, t.take? positions = some u := by
  obtain ⟨index, hi⟩ := exists_picks (show ∀ p ∈ positions, p < t.index.length from h)
  obtain ⟨columns, hc⟩ : ∃ columns : List Column, List.Forall₂
      (fun c d => d.name = c.name ∧ Picks c.cells positions d.cells) t.columns columns := by
    refine exists_forall₂ fun c hc => ?_
    have short : ∀ p ∈ positions, p < c.cells.length := by
      rw [ht.lengths c hc]
      exact h
    obtain ⟨cells, hcells⟩ := exists_picks short
    exact ⟨⟨c.name, cells⟩, rfl, hcells⟩
  exact ⟨⟨index, columns⟩, take?_eq_some_iff.2 ⟨hi, hc⟩⟩

/-- The same cells are picked from the same column. -/
theorem Picks.unique {cells : List Cell} {positions : List Nat} {xs ys : List Cell}
    (hx : Picks cells positions xs) (hy : Picks cells positions ys) : xs = ys :=
  List.right_unique_forall₂' (fun _ _ _ h h' => Option.some.inj (h.symm.trans h')) hx hy

end SpanJoin.Table
