import SpanJoin.Proofs.Join.Success

/-!
# Rows and columns of a join are independent

A derived cell depends on its left row, the right table and its tree, and on nothing else. So a join
of some of the left rows, in any order and with repetitions, and of some of the trees succeeds if
the join of all of them does, and gives the rows and columns chosen from its result (`join_select`).
-/

namespace SpanJoin

namespace Join

variable {config : JoinConfig} {left right taken : Table} {keys : List String} {start stop : String}
  {trees : List Tree} {ps : List Nat} {k p : Nat} {js : List Nat}

/-! ## A row that was taken -/

section

variable (h : left.take? ps = some taken) (hk : ps[k]? = some p)
include h hk

theorem lengthAt?_take? : lengthAt? taken start stop k = lengthAt? left start stop p := by
  simp only [lengthAt?, Table.cell?_take? h _ hk]

theorem matches?_take? : matches? taken right keys k = matches? left right keys p := by
  simp only [matches?, Table.keyOf?_take? h keys hk]

/-- The context of a row that was taken is that of the row at its position, but for the table that
the row is in. -/
theorem plainContext?_take? : plainContext? taken right start stop k js =
    (plainContext? left right start stop p js).map fun c => { c with left := ⟨taken, k⟩ } := by
  have overlaps : overlapAt? taken right start stop k = overlapAt? left right start stop p := by
    funext j
    simp only [overlapAt?, Table.cell?_take? h _ hk]
  rw [plainContext?, plainContext?, lengthAt?_take? h hk, overlaps]
  simp only [Option.bind_eq_bind, Option.map_bind, Function.comp_def, Option.pure_def,
    Option.map_some]

/-- The two contexts agree on all columns of the left table. -/
theorem exists_plainContext_take? {c : Context}
    (hc : plainContext? left right start stop p js = some c) :
    ∃ c', plainContext? taken right start stop k js = some c' ∧
      ∀ ns : ColumnNames, (∀ name ∈ ns.left, name ∈ left.names) → c'.AgreeOn c ns := by
  have row : c.left = ⟨left, p⟩ := by
    obtain ⟨_, _, _, _, -, -, -, -, rfl⟩ := plainContext?_eq_some_iff.1 hc
    rfl
  refine ⟨{ c with left := ⟨taken, k⟩ }, by rw [plainContext?_take? h hk, hc]; rfl,
    fun ns inside => ⟨rfl, rfl, rfl, fun name hn => ?_, fun _ _ => rfl⟩⟩
  have taken : name ∈ taken.names := Table.names_take? h ▸ inside name hn
  rw [row, Table.get_eq_cell? taken, Table.get_eq_cell? (inside name hn),
    Table.cell?_take? h name hk]

/-- A derived cell of a row that was taken is that of the row at its position. -/
theorem plainCell?_take? {policy : Unmatched} {t : Tree} {ns : ColumnNames}
    (reads : t.columns? = some ns) (inside : ∀ name ∈ ns.left, name ∈ left.names) {x : Cell}
    (hx : plainCell? policy left right keys start stop t p = some x) :
    plainCell? policy taken right keys start stop t k = some x := by
  rw [plainCell?, Table.keyOf?_take? h keys hk]
  obtain ⟨key, hkey, hx⟩ := Option.bind_eq_some_iff.1 hx
  rw [hkey, Option.bind_eq_bind, Option.bind_some]
  split at hx
  · rename_i hmiss
    rwa [if_pos hmiss]
  · rename_i hmiss
    rw [if_neg hmiss]
    split at hx
    · rename_i hnull
      rwa [if_pos hnull]
    · rename_i hnull
      obtain ⟨c, hc, hx⟩ := Option.bind_eq_some_iff.1 hx
      obtain ⟨q, hq, hx⟩ := Option.bind_eq_some_iff.1 hx
      obtain ⟨c', hc', agree⟩ := exists_plainContext_take? h hk hc
      have same := (Tree.readsOnly_of_columns? reads).share_eval_congr (toOption_eq_some.1 hq)
        (agree ns inside)
      rw [if_neg hnull, hc', hq]
      simpa only [Option.bind_eq_bind, Option.bind_some, same] using hx

end

/-! ## Choosing rows and trees -/

/-- What a join of the whole needs, a join of a part needs at most. -/
theorem Allows.select (allows : Allows config left right keys start stop trees)
    (h : left.take? ps = some taken) (hps : ∀ p ∈ ps, p < left.rows) {chosen : List Tree}
    (hs : chosen.Sublist trees) : Allows config taken right keys start stop chosen := by
  have names := Table.names_take? h
  have source {k : Nat} (hk : k < taken.rows) : ∃ p < left.rows, ps[k]? = some p := by
    rw [Table.rows_take? h] at hk
    exact ⟨_, hps _ (List.getElem_mem hk), List.getElem?_eq_getElem hk⟩
  refine ⟨?_, fun name hn => ?_, fun t ht => ?_, fun k hk => ?_, allows.rightLengths,
    fun hp k hk => ?_, fun k hk js hjs hempty => ?_⟩
  · obtain ⟨all, named, nodup, absent⟩ := allows.named
    obtain ⟨some, sub, named⟩ := exists_sublist_of_forall₂ hs named
    exact ⟨some, named, nodup.sublist sub, fun name hn => names ▸ absent name (sub.subset hn)⟩
  · exact names ▸ allows.base name hn
  · exact names ▸ allows.reads t (hs.subset ht)
  · obtain ⟨p, hp, hkp⟩ := source hk
    rw [lengthAt?_take? h hkp]
    exact allows.leftLengths p hp
  · obtain ⟨p, hlt, hkp⟩ := source hk
    rw [matches?_take? h hkp]
    exact allows.matched hp p hlt
  · obtain ⟨p, hp, hkp⟩ := source hk
    rw [matches?_take? h hkp] at hjs
    obtain ⟨running, c, hc, scalars⟩ := allows.evaluated p hp js hjs hempty
    obtain ⟨c', hc', agree⟩ := exists_plainContext_take? h hkp hc
    refine ⟨running, c', hc', fun t ht => ?_⟩
    obtain ⟨q, x, hq, hx⟩ := scalars t (hs.subset ht)
    obtain ⟨ns, hns, inside, -⟩ := allows.reads t (hs.subset ht)
    have same := (Tree.readsOnly_of_columns? hns).share_eval_congr hq (agree ns inside)
    exact ⟨q, x, hq, same.trans hx⟩

/-- A column that a join adds has the name of its tree, and the cells of the double loop. -/
structure Adds (config : JoinConfig) (left right : Table) (keys : List String)
    (start stop : String) (t : Tree) (column : Column) : Prop where
  name : t.outputName = .ok column.name
  cells : (List.range left.rows).mapM
    (plainCell? config.unmatched left right keys start stop t) = some column.cells

/-- A join gives a well-formed table: the left one, relabelled by position, with a column for every
tree. -/
theorem exists_columns_of_join (hr : right.WellFormed) {out : Table}
    (h : join config left right keys (start, stop) trees = .ok out) :
    left.WellFormed ∧ out.WellFormed ∧ out.index = Cell.counting left.rows ∧
      ∃ columns, out.columns = left.columns ++ columns ∧
        List.Forall₂ (Adds config left right keys start stop) trees columns := by
  obtain ⟨derived, run, of, ha⟩ := exists_run h
  obtain ⟨index, columns⟩ := assemble_spec ha
  have whole := wellFormed_of_assemble ha
  have rows : out.rows = left.rows := Table.rows_of_index index
  refine ⟨⟨?_, fun c hc => ?_⟩, whole, index, _, columns, ?_⟩
  · have sub : left.names.Sublist out.names := by
      rw [Table.names, Table.names, columns, List.map_append]
      exact List.sublist_append_left _ _
    exact whole.names.sublist sub
  · rw [← rows]
    exact whole.lengths c (by rw [columns]; exact List.mem_append_left _ hc)
  · rw [List.forall₂_map_right_iff]
    refine (forall₂_zipIdx of).imp fun t dj hdj => ⟨hdj.1.name, ?_⟩
    exact run.mapM_plainCell?_of_readsOnly hr (Tree.readsOnly_of_columns? hdj.1.reads) hdj.2 hdj.1

/-- The column that is added to taken rows has the cells of these rows. -/
theorem Adds.picks (h : left.take? ps = some taken) (hps : ∀ p ∈ ps, p < left.rows) {t : Tree}
    {ns : ColumnNames} (reads : t.columns? = some ns)
    (inside : ∀ name ∈ ns.left, name ∈ left.names) {column part : Column}
    (whole : Adds config left right keys start stop t column)
    (adds : Adds config taken right keys start stop t part) :
    part.name = column.name ∧ Table.Picks column.cells ps part.cells := by
  refine ⟨Except.ok.inj (adds.name.symm.trans whole.name), ?_⟩
  obtain ⟨wholeLength, cells⟩ := eq_getElem?_of_mapM_range whole.cells
  obtain ⟨length, partCells⟩ := eq_getElem?_of_mapM_range adds.cells
  rw [Table.rows_take? h] at length partCells
  refine forall₂_of_getElem? length.symm fun k p x hkp hx => ?_
  have hp := hps p (List.mem_of_getElem? hkp)
  have there : p < column.cells.length := wholeLength ▸ hp
  have cell := plainCell?_take? h hkp reads inside
    ((cells p hp).trans (List.getElem?_eq_getElem there))
  rw [partCells k (List.getElem?_eq_some_iff.1 hkp).1, hx] at cell
  exact (List.getElem?_eq_getElem there).trans cell.symm

/-- Every column of a join of taken rows has the cells of these rows in the join of all. -/
theorem exists_source (h : left.take? ps = some taken)
    (hps : ∀ p ∈ ps, p < left.rows) {chosen : List Tree} (hs : chosen.Sublist trees)
    (allows : Allows config left right keys start stop trees) {columns parts : List Column}
    (whole : List.Forall₂ (Adds config left right keys start stop) trees columns)
    (adds : List.Forall₂ (Adds config taken right keys start stop) chosen parts) :
    ∀ c ∈ taken.columns ++ parts, ∃ d ∈ left.columns ++ columns,
      c.name = d.name ∧ Table.Picks d.cells ps c.cells := by
  intro c hc
  rcases List.mem_append.1 hc with hc | hc
  · obtain ⟨d, hd, source⟩ := exists_mem_of_forall₂_right (Table.take?_eq_some_iff.1 h).2 hc
    exact ⟨d, List.mem_append_left _ hd, source⟩
  · obtain ⟨t, ht, hct⟩ := exists_mem_of_forall₂_right adds hc
    obtain ⟨d, hd, hdt⟩ := exists_mem_of_forall₂_right whole.flip (hs.subset ht)
    obtain ⟨ns, hns, inside, -⟩ := allows.reads t (hs.subset ht)
    exact ⟨d, List.mem_append_right _ hd, hdt.picks h hps hns inside hct⟩

end Join

/-- **Rows and columns of a join are independent.** If a join gives a table, then so does the join
of any list of the left rows, in any order and with repetitions, and any part of the trees; and that
table has the rows and columns chosen from the first one, relabelled by position. -/
theorem join_select {config : JoinConfig} {left right : Table} (hr : right.WellFormed)
    {keys : List String} {interval : String × String} {trees : List Tree} {out : Table}
    (h : join config left right keys interval trees = .ok out) {ps : List Nat}
    (hps : ∀ p ∈ ps, p < left.rows) {chosen : List Tree} (hs : chosen.Sublist trees) :
    ∃ taken names picked part, left.take? ps = some taken ∧
      List.Forall₂ (fun t name => t.outputName = .ok name) chosen names ∧
      out.take? ps = some picked ∧ picked.project (left.names ++ names) = .ok part ∧
      join config taken right keys interval chosen = .ok part.resetIndex := by
  obtain ⟨start, stop⟩ := interval
  obtain ⟨hl, whole, index, columns, hcolumns, adds⟩ := Join.exists_columns_of_join hr h
  obtain ⟨allows, plans⟩ := Join.allows_of_join hl hr h
  obtain ⟨taken, htaken⟩ := Table.exists_take? hl hps
  obtain ⟨result, hresult⟩ := Join.exists_join (hl.take? htaken) hr (allows.select htaken hps hs)
    fun t ht => plans t (hs.subset ht)
  obtain ⟨-, wholePart, indexPart, parts, hparts, addsPart⟩ :=
    Join.exists_columns_of_join hr hresult
  have rows : out.rows = left.rows := Table.rows_of_index index
  obtain ⟨picked, hpicked⟩ := Table.exists_take? whole (rows ▸ hps)
  have same : ∀ c ∈ result.columns, picked.column c.name = .ok c.cells := by
    intro c hc
    rw [hparts] at hc
    obtain ⟨d, hd, name, picks⟩ :=
      Join.exists_source htaken hps hs allows adds addsPart c hc
    rw [← hcolumns] at hd
    obtain ⟨cells, hcells, picks'⟩ := Table.column_take? hpicked (whole.column_of_mem hd)
    rw [name, hcells, picks'.unique picks]
  have names : result.columns.map Column.name = left.names ++ parts.map Column.name := by
    rw [hparts, List.map_append, ← Table.names_take? htaken, Table.names]
  refine ⟨taken, parts.map Column.name, picked, { picked with columns := result.columns }, htaken,
    List.forall₂_map_right_iff.2 (addsPart.imp fun _ _ adds => adds.name), hpicked, ?_, ?_⟩
  · rw [← names]
    exact Table.project_eq_of_columns wholePart.names same
  · have labels : result.index = Cell.counting picked.rows := by
      rw [indexPart, Table.rows_take? htaken, Table.rows_take? hpicked]
    rw [hresult, Table.resetIndex]
    exact congrArg (fun index => Except.ok (Table.mk index result.columns)) labels

/-- The length of a stretch that was inspected. -/
def inspected : Tree := Tree.sum Tree.lengthOfOverlap

/-- The stretches with the lengths that were inspected and the excess. -/
def stretchesWithBoth : Table :=
  ⟨Cell.counting 3, stretches.columns ++
    [⟨"sum(length_of_overlap)", [.int 7, .null, .null]⟩,
      ⟨"-(+(sum(length_of_overlap),sum(length_of_overlap)),length_of_left)",
        [.int 4, .null, .null]⟩]⟩

/-- The third stretch and twice the first one, with their excess only. -/
theorem join_select_stretches : inspections.WellFormed ∧
    join {} stretches inspections ["road"] ("from", "to") [inspected, excess] =
      .ok stretchesWithBoth ∧
    (∀ p ∈ [2, 0, 0], p < stretches.rows) ∧ [excess].Sublist [inspected, excess] ∧
    ∃ taken names picked part, stretches.take? [2, 0, 0] = some taken ∧
      List.Forall₂ (fun t name => Tree.outputName t = .ok name) [excess] names ∧
      stretchesWithBoth.take? [2, 0, 0] = some picked ∧
      picked.project (stretches.names ++ names) = .ok part ∧
      join {} taken inspections ["road"] ("from", "to") [excess] = .ok part.resetIndex := by
  have whole : inspections.WellFormed := ⟨by decide, by decide⟩
  have joined : join {} stretches inspections ["road"] ("from", "to") [inspected, excess] =
      .ok stretchesWithBoth := rfl
  have inside : ∀ p ∈ [2, 0, 0], p < stretches.rows := by decide
  have sub : [excess].Sublist [inspected, excess] := .cons _ (.refl _)
  exact ⟨whole, joined, inside, sub, join_select whole joined inside sub⟩

end SpanJoin
