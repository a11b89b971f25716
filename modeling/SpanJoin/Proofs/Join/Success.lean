import SpanJoin.Proofs.Join.Stages

/-!
# When a join succeeds

`Join.Allows` lists what a join needs of its inputs, said of the whole tables and row by row: names
that are new, columns that are there, lengths, matches where these are required, and a scalar for
every tree in every row that is evaluated. A join of well-formed tables gives a table if and only if
its inputs allow it (`join_succeeds_iff`).
-/

namespace SpanJoin

namespace Join

/-- The right rows of an equal key, unless the key of the left row at the position has a missing
cell. -/
def matches? (left right : Table) (keys : List String) (position : Nat) : Option (List Nat) := do
  let key ← left.keyOf? keys position
  if key.any Cell.isMissing then none else some (right.matching keys key)

theorem matches?_eq_some_iff {left right : Table} {keys : List String} {i : Nat} {js : List Nat} :
    matches? left right keys i = some js ↔ ∃ key, left.keyOf? keys i = some key ∧
      key.any Cell.isMissing = false ∧ right.matching keys key = js := by
  rw [matches?, Option.bind_eq_bind, Option.bind_eq_some_iff]
  refine exists_congr fun key => and_congr_right fun _ => ?_
  cases key.any Cell.isMissing <;> simp

/-- What a join needs of its inputs. -/
structure Allows (config : JoinConfig) (left right : Table) (keys : List String)
    (start stop : String) (trees : List Tree) : Prop where
  /-- Every tree has a name, and no two trees and no tree and left column share one. -/
  named : ∃ names, List.Forall₂ (fun t name => t.outputName = .ok name) trees names ∧
    names.Nodup ∧ ∀ name ∈ names, name ∉ left.names
  /-- Both tables have the key columns and the bounds. -/
  base : ∀ name ∈ keys ++ [start, stop], name ∈ left.names ∧ name ∈ right.names
  /-- Each table has the columns of its side that the trees read. -/
  reads : ∀ t ∈ trees, ∃ ns, t.columns? = some ns ∧
    (∀ name ∈ ns.left, name ∈ left.names) ∧ ∀ name ∈ ns.right, name ∈ right.names
  leftLengths : ∀ i < left.rows, ∃ x, lengthAt? left start stop i = some x
  rightLengths : ∀ j < right.rows, ∃ x, lengthAt? right start stop j = some x
  /-- Where a key without matches is refused, there is none. -/
  matched : config.unmatched = .error → ∀ i < left.rows, matches? left right keys i ≠ some []
  /-- In a row that is evaluated the join has not been cancelled, the overlaps are defined, and
  every plan gives a scalar. -/
  evaluated : ∀ i < left.rows, ∀ js, matches? left right keys i = some js →
    (js = [] → config.unmatched = .evaluateEmpty) →
    config.isCancelled = false ∧ ∃ c, plainContext? left right start stop i js = some c ∧
      ∀ t ∈ trees, ∃ p x, t.share = .ok p ∧ p.eval c = .ok (.scalar x)

variable {config : JoinConfig} {left right : Table} {keys : List String} {start stop : String}
  {trees : List Tree} {derived : List Derived}

/-! ## What a join that succeeds shows -/

namespace Run

variable (run : Run config left right keys start stop derived) {i : Nat} {js : List Nat}
include run

/-- A left row with a key is in a match, or it was passed over for want of one. -/
theorem matched_cases (hi : i < left.rows) (hjs : matches? left right keys i = some js) :
    (∃ m ∈ run.matched, i ∈ m.leftPositions ∧ (js = [] → config.unmatched = .evaluateEmpty)) ∨
      js = [] ∧ config.unmatched = .null := by
  obtain ⟨key, hk, hmiss, rfl⟩ := matches?_eq_some_iff.1 hjs
  rw [← run.keyOf?_left] at hk
  rw [← run.matching_right]
  by_cases h : ∃ m ∈ run.matched, i ∈ m.leftPositions
  · obtain ⟨m, hm, him⟩ := h
    obtain ⟨key', hk', -, -, -, hempty⟩ :=
      matched_of_mem run.leftGroups_eq run.rightGroups_eq run.matched_eq hm him
    obtain rfl : key = key' := Option.some.inj (hk.symm.trans hk')
    exact .inl ⟨m, hm, him, hempty⟩
  · rw [← run.cut.left.rows_eq] at hi
    exact .inr (unmatched_of_forall run.leftGroups_eq run.rightGroups_eq run.matched_eq hi hk hmiss
      fun m hm him => h ⟨m, hm, him⟩)

/-- A row of a match was evaluated, to scalars in the plain context. -/
theorem exists_scalars (hr : right.WellFormed) (of : List.Forall₂ DerivedOf trees derived)
    (hjs : matches? left right keys i = some js) {m : Matched} (hm : m ∈ run.matched)
    (hi : i ∈ m.leftPositions) : config.isCancelled = false ∧
      ∃ c, plainContext? left right start stop i js = some c ∧
        ∀ t ∈ trees, ∃ p x, t.share = .ok p ∧ p.eval c = .ok (.scalar x) := by
  obtain ⟨key, hk, -, rfl⟩ := matches?_eq_some_iff.1 hjs
  obtain ⟨cells, hcells⟩ := exists_result run.results_eq hm hi
  obtain ⟨m', -, -, hrow⟩ := exists_job run.results_eq hcells
  obtain ⟨key', c, c', hk', -, -, hc', agree, scalars⟩ := run.of_mem_results hr hcells
  obtain rfl : key = key' := Option.some.inj (hk.symm.trans hk')
  refine ⟨(exists_evaluateRow_iff.1 ⟨_, hrow⟩).1, c', hc', fun t ht => ?_⟩
  obtain ⟨d, hd, hdt⟩ := exists_mem_of_forall₂_right of.flip ht
  obtain ⟨x, -, hx⟩ := exists_mem_of_forall₂_right scalars.flip hd
  have same := (Tree.readsOnly_of_columns? hdt.reads).share_eval_congr hdt.plan (agree d hd)
  exact ⟨d.plan, x, hdt.plan, same ▸ hx⟩

end Run

/-- The lengths of all intervals of a cut-down table exist if those of the whole one do. -/
theorem exists_intervalLengths_cut {t u : Table} {names : List String} (cut : u.CutTo t names)
    (ht : t.WellFormed) (hstart : start ∈ names) (hstop : stop ∈ names) :
    (∃ lengths, intervalLengths u start stop = .ok lengths) ↔
      ∀ i < t.rows, ∃ x, lengthAt? t start stop i = some x := by
  rw [exists_intervalLengths_iff (cut.wellFormed ht), and_iff_right (cut.mem_names_cut hstart),
    and_iff_right (cut.mem_names_cut hstop), cut.rows_eq]
  simp only [lengthAt?_of_cutTo cut hstart hstop]

/-- A join that gives a table was allowed. -/
theorem allows_of_join (hl : left.WellFormed) (hr : right.WellFormed) {out : Table}
    (h : join config left right keys (start, stop) trees = .ok out) :
    Allows config left right keys start stop trees ∧ ∀ t ∈ trees, ∃ p, t.share = .ok p := by
  obtain ⟨named, hnamed, -⟩ := Outcome.bind_eq_ok.1 h
  have fresh := fresh_of_deriveEach hnamed ⟨.nil, by simp⟩
  obtain ⟨_, rfl, ofNamed⟩ := derivedOf_of_deriveEach hnamed
  obtain ⟨derived, run, of, -⟩ := exists_run h
  have partner {t : Tree} (ht : t ∈ trees) : ∃ d ∈ derived, DerivedOf t d :=
    exists_mem_of_forall₂_right of.flip ht
  have needed {d : Derived} (hd : d ∈ derived) {f : Derived → List String} {n : String}
      (hn : n ∈ f d) : n ∈ keys ++ [start, stop] ++ derived.flatMap f :=
    List.mem_append_right _ (List.mem_flatMap.2 ⟨d, hd, hn⟩)
  refine ⟨⟨?_, fun name hn => ⟨?_, ?_⟩, fun t ht => ?_, ?_, ?_, fun hp i hi hnone => ?_,
    fun i hi js hjs hempty => ?_⟩, fun t ht => ?_⟩
  · refine ⟨_, List.forall₂_map_right_iff.2 (ofNamed.imp fun _ _ of => of.name), fresh.nodup, ?_⟩
    intro name hn
    obtain ⟨d, hd, rfl⟩ := List.mem_map.1 hn
    exact fresh.absent d hd
  · exact run.cut.left.mem_names (List.mem_append_left _ hn)
  · exact run.cut.right.mem_names (List.mem_append_left _ hn)
  · obtain ⟨d, hd, hdt⟩ := partner ht
    exact ⟨d.reads, hdt.reads, fun n hn => run.cut.left.mem_names (needed hd hn),
      fun n hn => run.cut.right.mem_names (needed hd hn)⟩
  · exact (exists_intervalLengths_cut run.cut.left hl (bounds_mem _).1 (bounds_mem _).2).1
      ⟨_, run.leftLengths_eq⟩
  · exact (exists_intervalLengths_cut run.cut.right hr (bounds_mem _).1 (bounds_mem _).2).1
      ⟨_, run.rightLengths_eq⟩
  · rcases run.matched_cases hi hnone with ⟨m, -, -, hempty⟩ | ⟨-, hnull⟩
    · rw [hempty rfl] at hp
      cases hp
    · rw [hnull] at hp
      cases hp
  · rcases run.matched_cases hi hjs with ⟨m, hm, him, -⟩ | ⟨hnone, hnull⟩
    · exact run.exists_scalars hr of hjs hm him
    · rw [hempty hnone] at hnull
      cases hnull
  · obtain ⟨d, -, hd⟩ := partner ht
    exact ⟨d.plan, hd.plan⟩

/-! ## A join that is allowed succeeds -/

/-- Trees with names, columns to read and plans have derived columns. -/
theorem exists_derived {names : List String}
    (named : List.Forall₂ (fun t name => t.outputName = .ok name) trees names)
    (reads : ∀ t ∈ trees, ∃ ns, t.columns? = some ns)
    (plans : ∀ t ∈ trees, ∃ p, t.share = .ok p) :
    ∃ derived, List.Forall₂ DerivedOf trees derived ∧ derived.map Derived.name = names := by
  obtain ⟨derived, hn, of⟩ : ∃ derived, List.Forall₂ (fun name d => d.name = name) names derived ∧
      List.Forall₂ DerivedOf trees derived := by
    refine exists_forall₂_of_exists (forall₂_imp_of_mem named fun t ht name _ hname => ?_)
    obtain ⟨ns, hns⟩ := reads t ht
    obtain ⟨p, hp⟩ := plans t ht
    exact ⟨⟨name, ns, p⟩, rfl, hname, hns, hp⟩
  refine ⟨derived, of, ?_⟩
  rw [← List.forall₂_eq_eq_eq, List.forall₂_map_left_iff]
  exact hn.flip

/-- The tables can be cut down to what is needed. -/
theorem exists_cut (allows : Allows config left right keys start stop trees)
    (of : List.Forall₂ DerivedOf trees derived) : ∃ leftData rightData,
      left.project (keys ++ [start, stop] ++ derived.flatMap fun d => d.reads.left) =
        .ok leftData ∧
      right.project (keys ++ [start, stop] ++ derived.flatMap fun d => d.reads.right) =
        .ok rightData := by
  have partner {d : Derived} (hd : d ∈ derived) :
      (∀ name ∈ d.reads.left, name ∈ left.names) ∧ ∀ name ∈ d.reads.right, name ∈ right.names := by
    obtain ⟨t, ht, hdt⟩ := exists_mem_of_forall₂_right of hd
    obtain ⟨ns, hns, reads⟩ := allows.reads t ht
    obtain rfl : d.reads = ns := Option.some.inj (hdt.reads.symm.trans hns)
    exact reads
  obtain ⟨leftData, hleft⟩ := (Table.exists_project_iff (t := left)).2 fun name hn => by
    rcases List.mem_append.1 hn with hn | hn
    · exact (allows.base name hn).1
    · obtain ⟨d, hd, hn⟩ := List.mem_flatMap.1 hn
      exact (partner hd).1 name hn
  obtain ⟨rightData, hright⟩ := (Table.exists_project_iff (t := right)).2 fun name hn => by
    rcases List.mem_append.1 hn with hn | hn
    · exact (allows.base name hn).2
    · obtain ⟨d, hd, hn⟩ := List.mem_flatMap.1 hn
      exact (partner hd).2 name hn
  exact ⟨leftData, rightData, hleft, hright⟩

section

variable {leftData rightData : Table} {leftLengths rightLengths : List Cell}
  {leftGroups rightGroups : List Group} {ms : List Matched}
  (cut : Cut left right leftData rightData keys start stop derived)
  (hlg : leftData.groupBy keys = .ok leftGroups) (hrg : rightData.groupBy keys = .ok rightGroups)
include cut hlg hrg

/-- The groups can be matched if no key that has to be shared lacks a match. -/
theorem exists_matching (hr : right.WellFormed)
    (hright : intervalLengths rightData start stop = .ok rightLengths)
    (matched : config.unmatched = .error →
      ∀ i < left.rows, matches? left right keys i ≠ some []) :
    ∃ ms, matchGroups config.unmatched rightData rightLengths rightGroups leftGroups = .ok ms := by
  have whole := cut.right.wellFormed hr
  refine (exists_matchGroups_iff whole (length_intervalLengths whole hright)
    fun h hh j hj => ((Table.mem_positions hrg hh).1 hj).1).2 fun hp g hg hf => ?_
  obtain ⟨i, hi⟩ := List.exists_mem_of_ne_nil _ ((Table.groupBy_spec hlg).1.nonempty g hg)
  obtain ⟨hlt, key, hk, hmiss, hgk⟩ := (Table.mem_positions hlg hg).1 hi
  have hnone := (positions_of_find? hrg hgk hmiss).2 hf
  rw [cut.left.rows_eq] at hlt
  rw [cut.keyOf?_left] at hk
  rw [cut.matching_right] at hnone
  exact matched hp i hlt (matches?_eq_some_iff.2 ⟨key, hk, hmiss, hnone⟩)

/-- Every row of a match is evaluated where the inputs allow it. -/
theorem exists_results (hl : left.WellFormed) (hr : right.WellFormed)
    (allows : Allows config left right keys start stop trees)
    (of : List.Forall₂ DerivedOf trees derived)
    (hleft : intervalLengths leftData start stop = .ok leftLengths)
    (hright : intervalLengths rightData start stop = .ok rightLengths)
    (hms : matchGroups config.unmatched rightData rightLengths rightGroups leftGroups = .ok ms) :
    ∃ results, (ms.flatMap fun m => m.leftPositions.map fun position => (m, position)).mapM
      (fun (m, position) => evaluateRow config leftData leftLengths start stop derived m position) =
        .ok results := by
  simp only [mapM_eq_ok_iff]
  refine exists_forall₂ fun ⟨m, i⟩ hj => ?_
  obtain ⟨m', hm, hp⟩ := List.mem_flatMap.1 hj
  obtain ⟨i', hi, e⟩ := List.mem_map.1 hp
  obtain ⟨rfl, rfl⟩ := Prod.mk.inj e
  obtain ⟨key, hk, hmiss, hlt, hrows, hempty⟩ := matched_of_mem hlg hrg hms hm hi
  rw [cut.left.rows_eq] at hlt
  rw [cut.keyOf?_left] at hk
  rw [cut.matching_right] at hrows hempty
  obtain ⟨running, c', hc', scalars⟩ :=
    allows.evaluated _ hlt _ (matches?_eq_some_iff.2 ⟨key, hk, hmiss, rfl⟩) hempty
  obtain ⟨c, hc⟩ := exists_contextOf cut hl hlt hleft hrows hc'
  obtain ⟨c'', hc'', agree⟩ :=
    exists_plainContext cut hr (fun _ => Table.lt_of_mem_matching) hleft hright hrows hc
  obtain rfl : c' = c'' := Option.some.inj (hc'.symm.trans hc'')
  refine exists_evaluateRow_iff.2 ⟨running, c, hc, fun d hd => ?_⟩
  obtain ⟨t, ht, hdt⟩ := exists_mem_of_forall₂_right of hd
  obtain ⟨p, x, hp, hx⟩ := scalars t ht
  obtain rfl : d.plan = p := Except.ok.inj (hdt.plan.symm.trans hp)
  have same := (Tree.readsOnly_of_columns? hdt.reads).share_eval_congr hdt.plan (agree d hd)
  exact ⟨x, same.trans hx⟩

/-- All results are for rows of the left table. -/
theorem placed_results
    (hms : matchGroups config.unmatched rightData rightLengths rightGroups leftGroups = .ok ms)
    {results : List (Nat × List Cell)}
    (hresults : (ms.flatMap fun m => m.leftPositions.map fun position => (m, position)).mapM
      (fun (m, position) => evaluateRow config leftData leftLengths start stop derived m position) =
        .ok results) : placed left results = .ok results := by
  refine placed_eq_ok_iff.2 ⟨rfl, fun ⟨i, cells⟩ hr => ?_⟩
  obtain ⟨m, hm, hi, -⟩ := exists_job hresults hr
  obtain ⟨-, -, -, hlt, -⟩ := matched_of_mem hlg hrg hms hm hi
  rwa [cut.left.rows_eq] at hlt

end

/-- A join that is allowed gives a table, if the trees have plans. -/
theorem exists_join (hl : left.WellFormed) (hr : right.WellFormed)
    (allows : Allows config left right keys start stop trees)
    (plans : ∀ t ∈ trees, ∃ p, t.share = .ok p) :
    ∃ out, join config left right keys (start, stop) trees = .ok out := by
  obtain ⟨names, named, nodup, absent⟩ := allows.named
  obtain ⟨derived, of, rfl⟩ := exists_derived named
    (fun t ht => (allows.reads t ht).imp fun _ h => h.1) plans
  have fresh : Fresh left derived := ⟨nodup, fun d hd => absent _ (List.mem_map_of_mem hd)⟩
  obtain ⟨leftData, rightData, hcl, hcr⟩ := exists_cut allows of
  have cut : Cut left right leftData.resetIndex rightData.resetIndex keys start stop derived :=
    ⟨Table.cutTo_of_project hcl, Table.cutTo_of_project hcr⟩
  obtain ⟨leftLengths, hleft⟩ := (exists_intervalLengths_cut cut.left hl
    (bounds_mem _).1 (bounds_mem _).2).2 allows.leftLengths
  obtain ⟨rightLengths, hright⟩ := (exists_intervalLengths_cut cut.right hr
    (bounds_mem _).1 (bounds_mem _).2).2 allows.rightLengths
  obtain ⟨leftGroups, hlg⟩ := (Table.exists_groupBy_iff (cut.left.wellFormed hl)).2
    fun k hk => cut.left.mem_names_cut (List.mem_append_left _ (List.mem_append_left _ hk))
  obtain ⟨rightGroups, hrg⟩ := (Table.exists_groupBy_iff (cut.right.wellFormed hr)).2
    fun k hk => cut.right.mem_names_cut (List.mem_append_left _ (List.mem_append_left _ hk))
  obtain ⟨ms, hms⟩ := exists_matching cut hlg hrg hr hright allows.matched
  obtain ⟨results, hresults⟩ := exists_results cut hlg hrg hl hr allows of hleft hright hms
  obtain ⟨out, hout⟩ : ∃ out, assemble left derived results = .ok out :=
    ⟨_, assemble_eq_ok hl fresh results⟩
  have hd := deriveEach_eq_ok of (show Fresh left ([] ++ derived) from fresh)
  rw [List.nil_append] at hd
  refine ⟨out, ?_⟩
  have hplaced := placed_results cut hlg hrg hms hresults
  simp only [join, hd, hcl, hcr, hleft, hright, hlg, hrg, hms, hresults, hplaced, hout,
    Outcome.ok_bind, Except.mapError, Outcome.ofExcept, Outcome.mapError]

/-- A join of well-formed tables gives a table if and only if it is allowed and the trees have
plans. -/
theorem exists_join_iff (hl : left.WellFormed) (hr : right.WellFormed) :
    (∃ out, join config left right keys (start, stop) trees = .ok out) ↔
      Allows config left right keys start stop trees ∧ ∀ t ∈ trees, ∃ p, t.share = .ok p :=
  ⟨fun ⟨_, h⟩ => allows_of_join hl hr h, fun ⟨allows, plans⟩ => exists_join hl hr allows plans⟩

end Join

/-- **A join succeeds exactly when its inputs allow it.** A join of well-formed tables with accepted
trees gives a table if and only if the trees have new names, the tables have the columns that are
needed and a length in every row, no key that has to be shared is without matches, and, where a row
is evaluated, the join has not been cancelled, the overlaps are defined and every plan gives a
scalar. Once the columns are derived, assembling the result never fails. -/
theorem join_succeeds_iff {config : JoinConfig} {left right : Table} (hl : left.WellFormed)
    (hr : right.WellFormed) {keys : List String} {interval : String × String} {trees : List Tree}
    (ht : ∀ t ∈ trees, t.accepted = true) :
    ((∃ out, join config left right keys interval trees = .ok out) ↔
      Join.Allows config left right keys interval.1 interval.2 trees) ∧
    ∀ derived, Join.deriveEach left [] trees = .ok derived →
      ∀ results, ∃ out, Join.assemble left derived results = .ok out := by
  obtain ⟨start, stop⟩ := interval
  have plans : ∀ t ∈ trees, ∃ p, t.share = .ok p := by
    intro t h
    obtain ⟨-, p, hp, -⟩ := Tree.exists_shares (ht t h)
    exact ⟨p, hp⟩
  refine ⟨?_, fun derived hd results => ?_⟩
  · rw [Join.exists_join_iff hl hr, and_iff_left plans]
  · have fresh := Join.fresh_of_deriveEach hd ⟨.nil, by simp⟩
    exact ⟨_, Join.assemble_eq_ok hl fresh results⟩

/-- The third stretch has a road without inspections, so that the join is allowed where such rows
are passed over, and fails where they are refused. -/
theorem join_succeeds_iff_stretches : stretches.WellFormed ∧ inspections.WellFormed ∧
    (∀ t ∈ [excess], t.accepted = true) ∧
    Join.Allows {} stretches inspections ["road"] "from" "to" [excess] ∧
    ¬ ∃ out, join { unmatched := .error } stretches inspections ["road"] ("from", "to") [excess] =
      .ok out := by
  have left : stretches.WellFormed := ⟨by decide, by decide⟩
  have right : inspections.WellFormed := ⟨by decide, by decide⟩
  have accepted : ∀ t ∈ [excess], t.accepted = true := by decide
  have joined : join {} stretches inspections ["road"] ("from", "to") [excess] =
      .ok stretchesWithExcess := rfl
  refine ⟨left, right, accepted, ?_, fun h => ?_⟩
  · exact (join_succeeds_iff left right accepted).1.1 ⟨stretchesWithExcess, joined⟩
  · have allows := (join_succeeds_iff left right accepted).1.1 h
    exact allows.matched rfl 2 (by decide) rfl

end SpanJoin
