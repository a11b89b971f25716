import SpanJoin.Proofs.Join.Plain

/-!
# A join gives what a double loop gives

A join that gives a table gives the left table, relabelled by position, followed by one column for
every tree, and the cells of these columns are those of the double loop (`join_eq_plain`).
-/

namespace SpanJoin

namespace Join

/-! ## Evaluated rows -/

section

variable {config : JoinConfig} {left : Table} {leftLengths : List Cell} {start stop : String}
  {derived : List Derived} {ms : List Matched} {results : List (Nat × List Cell)} {i : Nat}
  {cells : List Cell}

theorem derivedCell_eq_ok_iff {c : Context} {d : Derived} {x : Cell} :
    derivedCell c d = .ok x ↔ d.plan.eval c = .ok (.scalar x) := by
  rw [derivedCell, Outcome.bind_eq_ok]
  constructor
  · rintro ⟨found, hf, hx⟩
    rw [Outcome.mapError_eq_ok.1 hf]
    cases found with
    | scalar cell => rw [Except.ok.inj hx]
    | _ => cases hx
  · exact fun h => ⟨_, Outcome.mapError_eq_ok.2 h, rfl⟩

theorem evaluateRow_spec {m : Matched} {r : Nat × List Cell}
    (h : evaluateRow config left leftLengths start stop derived m i = .ok r) :
    r.1 = i ∧ ∃ c, contextOf left leftLengths start stop m i = .ok c ∧
      List.Forall₂ (fun d x => d.plan.eval c = .ok (.scalar x)) derived r.2 := by
  rw [evaluateRow] at h
  split at h
  · cases h
  · obtain ⟨c, hc, h⟩ := Outcome.bind_eq_ok.1 h
    obtain ⟨cells, hcells, h⟩ := Outcome.bind_eq_ok.1 h
    rw [← Except.ok.inj h]
    exact ⟨rfl, c, hc, (mapM_eq_ok_iff.1 hcells).imp fun _ _ => derivedCell_eq_ok_iff.1⟩

variable (h : (ms.flatMap fun m => m.leftPositions.map fun position => (m, position)).mapM
    (fun (m, position) => evaluateRow config left leftLengths start stop derived m position) =
      .ok results)
include h

/-- A result is that of a row of a match. -/
theorem exists_job (hr : (i, cells) ∈ results) : ∃ m ∈ ms, i ∈ m.leftPositions ∧
    evaluateRow config left leftLengths start stop derived m i = .ok (i, cells) := by
  obtain ⟨⟨m, p⟩, hj, hrow⟩ := exists_mem_of_forall₂_right (mapM_eq_ok_iff.1 h) hr
  obtain ⟨m', hm, hp⟩ := List.mem_flatMap.1 hj
  obtain ⟨q, hq, e⟩ := List.mem_map.1 hp
  obtain ⟨rfl, rfl⟩ := Prod.mk.inj e
  obtain rfl : i = q := (evaluateRow_spec hrow).1
  exact ⟨m', hm, hq, hrow⟩

/-- Every row of a match has a result. -/
theorem exists_result {m : Matched} (hm : m ∈ ms) (hi : i ∈ m.leftPositions) :
    ∃ cells, (i, cells) ∈ results := by
  have job : (m, i) ∈ ms.flatMap fun m => m.leftPositions.map fun position => (m, position) :=
    List.mem_flatMap.2 ⟨m, hm, List.mem_map.2 ⟨i, hi, rfl⟩⟩
  obtain ⟨r, hr, hrow⟩ := exists_mem_of_forall₂_right (mapM_eq_ok_iff.1 h).flip job
  exact ⟨r.2, by rwa [← (evaluateRow_spec hrow).1]⟩

end

/-! ## The table that comes out -/

/-- The results stay as they are, if all of them are for rows of the left table. -/
theorem placed_eq_ok_iff {left : Table} {results rs : List (Nat × List Cell)} :
    placed left results = .ok rs ↔ rs = results ∧ ∀ r ∈ results, r.1 < left.rows := by
  unfold placed
  split
  · rename_i h
    simp only [List.all_eq_true, decide_eq_true_eq] at h
    simp only [Except.ok.injEq, and_iff_left h, eq_comm]
  · rename_i h
    simp only [List.all_eq_true, decide_eq_true_eq] at h
    simp only [reduceCtorEq, h, and_false]

theorem columns_withColumn {t u : Table} {name : String} {cells : List Cell}
    (h : t.withColumn name cells = .ok u) :
    u.index = t.index ∧ u.columns = t.columns ++ [⟨name, cells⟩] := by
  rw [Table.withColumn] at h
  split at h
  · cases h
  · split at h
    · cases h
    · rw [← Except.ok.inj h]
      exact ⟨rfl, rfl⟩

theorem columns_foldlM {ds : List (Derived × Nat)} {f : Nat → List Cell} {t u : Table}
    (h : ds.foldlM (fun t (d, j) => t.withColumn d.name (f j)) t = .ok u) :
    u.index = t.index ∧ u.columns = t.columns ++ ds.map fun dj => ⟨dj.1.name, f dj.2⟩ := by
  induction ds generalizing t with
  | nil =>
    obtain rfl : t = u := Except.ok.inj h
    simp
  | cons dj ds ih =>
    rw [List.foldlM_cons] at h
    obtain ⟨t', ht, h⟩ := Outcome.bind_eq_ok.1 h
    obtain ⟨index, columns⟩ := columns_withColumn ht
    obtain ⟨index', columns'⟩ := ih h
    refine ⟨index'.trans index, ?_⟩
    rw [columns', columns, List.append_assoc]
    rfl

/-- The result is the left table under new labels, with a column of results for every derived
column. -/
theorem assemble_spec {left out : Table} {derived : List Derived}
    {results : List (Nat × List Cell)} (h : assemble left derived results = .ok out) :
    out.index = Cell.counting left.rows ∧
      out.columns = left.columns ++ derived.zipIdx.map fun dj =>
        ⟨dj.1.name, (List.range left.rows).map (resultCell results dj.2)⟩ := by
  obtain ⟨values, hv, h⟩ := Outcome.bind_eq_ok.1 h
  obtain ⟨-, columns⟩ :=
    columns_foldlM (f := fun j => (List.range left.rows).map (resultCell results j)) hv
  rw [Table.hstack] at h
  split at h
  · cases h
  · obtain ⟨rfl, -⟩ := Table.ofIndex_eq_ok_iff.1 h
    rw [columns]
    exact ⟨rfl, rfl⟩

theorem wellFormed_of_assemble {left out : Table} {derived : List Derived}
    {results : List (Nat × List Cell)} (h : assemble left derived results = .ok out) :
    out.WellFormed := by
  obtain ⟨values, -, h⟩ := Outcome.bind_eq_ok.1 h
  rw [Table.hstack] at h
  split at h
  · cases h
  · obtain ⟨rfl, whole⟩ := Table.ofIndex_eq_ok_iff.1 h
    exact whole

/-! ## One cell -/

theorem resultCell_of_forall {results : List (Nat × List Cell)} {i : Nat}
    (h : ∀ cells, (i, cells) ∉ results) (j : Nat) : resultCell results j i = .null := by
  have none : results.lookup i = none := by
    rw [List.lookup_eq_none_iff]
    rintro ⟨k, cells⟩ hk
    rw [bne_iff_ne]
    rintro rfl
    exact h cells hk
  rw [resultCell, none]
  rfl

theorem resultCell_of_mem {results : List (Nat × List Cell)} {i : Nat} {cells : List Cell}
    (h : (i, cells) ∈ results) : ∃ cells, (i, cells) ∈ results ∧
      ∀ j x, cells[j]? = some x → resultCell results j i = x := by
  cases hf : results.lookup i with
  | none =>
    have ne := List.lookup_eq_none_iff.1 hf _ h
    simp at ne
  | some found =>
    obtain ⟨before, after, rfl, -⟩ := List.lookup_eq_some_iff.1 hf
    refine ⟨found, by simp, fun j x hx => ?_⟩
    rw [resultCell, hf, Option.bind_some, hx]
    rfl

/-- What a join of two tables computes on the way to its result. -/
structure Run (config : JoinConfig) (left right : Table) (keys : List String) (start stop : String)
    (derived : List Derived) where
  leftData : Table
  rightData : Table
  leftLengths : List Cell
  rightLengths : List Cell
  leftGroups : List Group
  rightGroups : List Group
  matched : List Matched
  results : List (Nat × List Cell)
  cut : Cut left right leftData rightData keys start stop derived
  leftLengths_eq : intervalLengths leftData start stop = .ok leftLengths
  rightLengths_eq : intervalLengths rightData start stop = .ok rightLengths
  leftGroups_eq : leftData.groupBy keys = .ok leftGroups
  rightGroups_eq : rightData.groupBy keys = .ok rightGroups
  matched_eq :
    matchGroups config.unmatched rightData rightLengths rightGroups leftGroups = .ok matched
  results_eq : (matched.flatMap fun m => m.leftPositions.map fun position => (m, position)).mapM
    (fun (m, position) => evaluateRow config leftData leftLengths start stop derived m position) =
      .ok results

namespace Run

variable {config : JoinConfig} {left right : Table} {keys : List String} {start stop : String}
  {derived : List Derived} (run : Run config left right keys start stop derived) {i : Nat}

theorem keyOf?_left (i : Nat) : run.leftData.keyOf? keys i = left.keyOf? keys i :=
  run.cut.keyOf?_left i

theorem matching_right (key : Key) : run.rightData.matching keys key = right.matching keys key :=
  run.cut.matching_right key

/-- A row that was evaluated has a key without missing cells, and its cells are those of the plans
in a context that stands for the plain one. -/
theorem of_mem_results (hr : right.WellFormed) {cells : List Cell}
    (hi : (i, cells) ∈ run.results) : ∃ key c c', left.keyOf? keys i = some key ∧
      key.any Cell.isMissing = false ∧
      (right.matching keys key = [] → config.unmatched = .evaluateEmpty) ∧
      plainContext? left right start stop i (right.matching keys key) = some c' ∧
      (∀ d ∈ derived, c.AgreeOn c' d.reads) ∧
      List.Forall₂ (fun d x => d.plan.eval c = .ok (.scalar x)) derived cells := by
  obtain ⟨m, hm, hp, hrow⟩ := exists_job run.results_eq hi
  obtain ⟨key, hk, hmiss, -, hrows, hempty⟩ :=
    matched_of_mem run.leftGroups_eq run.rightGroups_eq run.matched_eq hm hp
  obtain ⟨-, c, hc, hcells⟩ := evaluateRow_spec hrow
  rw [run.keyOf?_left] at hk
  rw [run.matching_right] at hrows hempty
  obtain ⟨c', hc', agree⟩ := exists_plainContext run.cut hr
    (fun _ => Table.lt_of_mem_matching) run.leftLengths_eq run.rightLengths_eq hrows hc
  exact ⟨key, c, c', hk, hmiss, hempty, hc', agree, hcells⟩

/-- A row that was not evaluated has a key with a missing cell, or one that no right row shares. -/
theorem of_forall_not_mem_results (hi : i < left.rows)
    (unevaluated : ∀ cells, (i, cells) ∉ run.results) : ∃ key, left.keyOf? keys i = some key ∧
      (key.any Cell.isMissing = true ∨
        right.matching keys key = [] ∧ config.unmatched = .null) := by
  rw [← run.cut.left.rows_eq] at hi
  obtain ⟨key, hk⟩ := (Table.groupBy_spec run.leftGroups_eq).2 i hi
  refine ⟨key, by rw [← run.keyOf?_left, hk], ?_⟩
  cases hmiss : key.any Cell.isMissing with
  | true => exact .inl rfl
  | false =>
    rw [← run.matching_right]
    refine .inr (unmatched_of_forall run.leftGroups_eq run.rightGroups_eq run.matched_eq hi hk
      hmiss ?_)
    intro m hm hp
    obtain ⟨cells, hcells⟩ := exists_result run.results_eq hm hp
    exact unevaluated cells hcells

/-- The cell that comes out for a tree and a row is that of the double loop. -/
theorem plainCell?_eq (hr : right.WellFormed) {t : Tree} {j : Nat} {d : Derived}
    (reads : t.ReadsOnly d.reads) (hd : derived[j]? = some d) (of : DerivedOf t d)
    (hi : i < left.rows) :
    plainCell? config.unmatched left right keys start stop t i =
      some (resultCell run.results j i) := by
  by_cases evaluated : ∃ cells, (i, cells) ∈ run.results
  · obtain ⟨cells, hmem⟩ := evaluated
    obtain ⟨cells, hmem, cell⟩ := resultCell_of_mem hmem
    obtain ⟨key, c, c', hk, hmiss, hempty, hc', agree, hcells⟩ := run.of_mem_results hr hmem
    obtain ⟨x, hx, value⟩ := exists_getElem?_of_forall₂ hcells hd
    have hnull : ¬ (right.matching keys key = [] ∧ config.unmatched = .null) := by
      rintro ⟨hn, hp⟩
      rw [hempty hn] at hp
      cases hp
    have same := reads.share_eval_congr of.plan (agree d (List.mem_of_getElem? hd))
    rw [value] at same
    rw [plainCell?, hk, Option.bind_eq_bind, Option.bind_some, hmiss, if_neg (by simp),
      if_neg hnull, hc', of.plan, cell j x hx]
    simp only [Option.bind_eq_bind, Option.bind_some, Except.toOption, ← same]
  · have unevaluated : ∀ cells, (i, cells) ∉ run.results := fun cells hc => evaluated ⟨cells, hc⟩
    obtain ⟨key, hk, hnull⟩ := run.of_forall_not_mem_results hi unevaluated
    rw [resultCell_of_forall unevaluated, plainCell?, hk, Option.bind_eq_bind, Option.bind_some]
    rcases hnull with hmiss | hnull
    · rw [if_pos hmiss]
    · rw [if_pos hnull, ite_self]

/-- The whole column that comes out for a tree is that of the double loop. -/
theorem mapM_plainCell?_of_readsOnly (hr : right.WellFormed) {t : Tree} {j : Nat} {d : Derived}
    (reads : t.ReadsOnly d.reads) (hd : derived[j]? = some d) (of : DerivedOf t d) :
    (List.range left.rows).mapM (plainCell? config.unmatched left right keys start stop t) =
      some ((List.range left.rows).map (resultCell run.results j)) := by
  rw [mapM_eq_some_iff, List.forall₂_map_right_iff, List.forall₂_same]
  exact fun i hi => run.plainCell?_eq hr reads hd of (List.mem_range.1 hi)

theorem mapM_plainCell? (hr : right.WellFormed) {t : Tree} (ht : t.accepted = true) {j : Nat}
    {d : Derived} (hd : derived[j]? = some d) (of : DerivedOf t d) :
    (List.range left.rows).mapM (plainCell? config.unmatched left right keys start stop t) =
      some ((List.range left.rows).map (resultCell run.results j)) :=
  run.mapM_plainCell?_of_readsOnly hr
    ((Tree.readsOnly_iff_reads ht).2 (Tree.reads_of_columns? ht of.reads)) hd of

end Run

/-- A join that gives a table gives what is assembled from a run. -/
theorem exists_run {config : JoinConfig} {left right out : Table} {keys : List String}
    {start stop : String} {trees : List Tree}
    (h : join config left right keys (start, stop) trees = .ok out) :
    ∃ derived, ∃ run : Run config left right keys start stop derived,
      List.Forall₂ DerivedOf trees derived ∧ assemble left derived run.results = .ok out := by
  obtain ⟨derived, hd, h⟩ := Outcome.bind_eq_ok.1 h
  obtain ⟨leftData, hl, h⟩ := Outcome.bind_eq_ok.1 h
  obtain ⟨rightData, hr, h⟩ := Outcome.bind_eq_ok.1 h
  obtain ⟨leftLengths, hll, h⟩ := Outcome.bind_eq_ok.1 h
  obtain ⟨rightLengths, hrl, h⟩ := Outcome.bind_eq_ok.1 h
  obtain ⟨leftGroups, hlg, h⟩ := Outcome.bind_eq_ok.1 h
  obtain ⟨rightGroups, hrg, h⟩ := Outcome.bind_eq_ok.1 h
  obtain ⟨ms, hm, h⟩ := Outcome.bind_eq_ok.1 h
  obtain ⟨results, hres, h⟩ := Outcome.bind_eq_ok.1 h
  obtain ⟨_, hplaced, hout⟩ := Outcome.bind_eq_ok.1 h
  obtain ⟨rfl, -⟩ := placed_eq_ok_iff.1 hplaced
  obtain ⟨_, rfl, of⟩ := derivedOf_of_deriveEach hd
  have cutLeft := Table.cutTo_of_project (Outcome.ofExcept_mapError_eq_ok.1 hl)
  have cutRight := Table.cutTo_of_project (Outcome.ofExcept_mapError_eq_ok.1 hr)
  refine ⟨_, ⟨_, _, _, _, _, _, ms, _, ⟨cutLeft, cutRight⟩,
    Outcome.ofExcept_mapError_eq_ok.1 hll, Outcome.ofExcept_mapError_eq_ok.1 hrl,
    Outcome.mapError_eq_ok.1 hlg, Outcome.mapError_eq_ok.1 hrg, hm, hres⟩, of, ?_⟩
  exact Outcome.ofExcept_mapError_eq_ok.1 hout

end Join

/-- **A join is a double loop.** If a join gives a table, its rows are labelled by position, and its
columns are those of the left table, followed by one column for every tree, under the name of the
tree, with the cells that a search through the whole right table gives for every left row. -/
theorem join_eq_plain {config : JoinConfig} {left right : Table} (hr : right.WellFormed)
    {keys : List String} {interval : String × String} {trees : List Tree}
    (ht : ∀ t ∈ trees, t.accepted = true) {out : Table}
    (h : join config left right keys interval trees = .ok out) :
    out.index = Cell.counting left.rows ∧
      ∃ columns : List Column, out.columns = left.columns ++ columns ∧
        List.Forall₂ (fun t column => t.outputName = .ok column.name ∧
          (List.range left.rows).mapM
            (Join.plainCell? config.unmatched left right keys interval.1 interval.2 t) =
              some column.cells) trees columns := by
  obtain ⟨start, stop⟩ := interval
  obtain ⟨derived, run, of, ha⟩ := Join.exists_run h
  obtain ⟨index, columns⟩ := Join.assemble_spec ha
  refine ⟨index, _, columns, ?_⟩
  rw [List.forall₂_map_right_iff]
  refine forall₂_imp_of_mem (forall₂_zipIdx of) fun t htree dj _ hdj => ?_
  exact ⟨hdj.1.name, run.mapM_plainCell? hr (ht t htree) hdj.2 hdj.1⟩

/-- Stretches of roads. The road of the second one is not known. -/
def stretches : Table :=
  ⟨[.text "a", .text "b", .text "c"],
    [⟨"road", [.text "M1", .null, .text "A2"]⟩, ⟨"from", [.int 0, .int 0, .int 0]⟩,
      ⟨"to", [.int 10, .int 5, .int 4]⟩]⟩

/-- Stretches of roads that were inspected. -/
def inspections : Table :=
  ⟨[.int 7, .int 8, .int 9],
    [⟨"road", [.text "M1", .text "B3", .text "M1"]⟩, ⟨"from", [.int 5, .int 0, .int 0]⟩,
      ⟨"to", [.int 15, .int 1, .int 2]⟩]⟩

/-- Twice the length that was inspected, less the length of the stretch. -/
def excess : Tree :=
  let inspected := Tree.sum Tree.lengthOfOverlap
  Tree.binary .sub (Tree.binary .add inspected inspected) Tree.lengthOfLeft

/-- The stretches with their excess. Only the first one shares its road with an inspection. -/
def stretchesWithExcess : Table :=
  ⟨Cell.counting 3, stretches.columns ++
    [⟨"-(+(sum(length_of_overlap),sum(length_of_overlap)),length_of_left)",
      [.int 4, .null, .null]⟩]⟩

theorem join_eq_plain_stretches : inspections.WellFormed ∧
    (∀ t ∈ [excess], t.accepted = true) ∧
    join {} stretches inspections ["road"] ("from", "to") [excess] = .ok stretchesWithExcess ∧
    ∃ columns : List Column, stretchesWithExcess.columns = stretches.columns ++ columns ∧
      List.Forall₂ (fun t column => t.outputName = .ok column.name ∧
        (List.range 3).mapM (Join.plainCell? .null stretches inspections ["road"] "from" "to" t) =
          some column.cells) [excess] columns := by
  have whole : inspections.WellFormed := ⟨by decide, by decide⟩
  have accepted : ∀ t ∈ [excess], t.accepted = true := by decide
  have joined : join {} stretches inspections ["road"] ("from", "to") [excess] =
      .ok stretchesWithExcess := rfl
  exact ⟨whole, accepted, joined, (join_eq_plain whole accepted joined).2⟩

end SpanJoin
