import SpanJoin.Proofs.Join.Refinement

/-!
# When the stages of a join succeed

For each stage of a join the conditions under which it gives an answer. Deriving columns needs names
that are new (`deriveEach_eq_ok`), and then assembling the result never fails, whatever the cells
(`assemble_eq_ok`). Lengths exist if they do in every row (`exists_intervalLengths_iff`), and
matching fails only at a key that is refused (`exists_matchGroups_iff`). A row has a context if it
has a plain one (`exists_contextOf`), and is evaluated if every plan then gives a scalar
(`exists_evaluateRow_iff`).
-/

namespace SpanJoin

namespace Join

/-! ## Names -/

/-- The derived columns have names of their own, none of them that of a left column. -/
structure Fresh (left : Table) (ds : List Derived) : Prop where
  nodup : (ds.map Derived.name).Nodup
  absent : ∀ d ∈ ds, d.name ∉ left.names

theorem fresh_append_singleton {left : Table} {ds : List Derived} {d : Derived} :
    Fresh left (ds ++ [d]) ↔
      Fresh left ds ∧ d.name ∉ left.names ∧ ∀ e ∈ ds, e.name ≠ d.name := by
  constructor
  · rintro ⟨nodup, absent⟩
    rw [List.map_append, List.nodup_append] at nodup
    refine ⟨⟨nodup.1, fun e he => absent e (List.mem_append_left _ he)⟩,
      absent d (List.mem_append_right _ (List.mem_singleton.2 rfl)), fun e he => ?_⟩
    exact nodup.2.2 _ (List.mem_map_of_mem he) _ (List.mem_map_of_mem (List.mem_singleton.2 rfl))
  · rintro ⟨⟨nodup, absent⟩, hd, ne⟩
    refine ⟨?_, fun e he => ?_⟩
    · rw [List.map_append, List.nodup_append]
      refine ⟨nodup, List.nodup_singleton _, fun n hn m hm => ?_⟩
      obtain ⟨e, he, rfl⟩ := List.mem_map.1 hn
      rw [List.mem_singleton.1 hm]
      exact ne e he
    · rcases List.mem_append.1 he with he | he
      · exact absent e he
      · rw [List.mem_singleton.1 he]
        exact hd

/-- A column is derived from a tree with a name of its own, columns to read and a plan. -/
theorem derive_eq_ok_iff {left : Table} {before : List Derived} {t : Tree} {d : Derived} :
    derive left before t = .ok d ↔
      DerivedOf t d ∧ d.name ∉ left.names ∧ ∀ e ∈ before, e.name ≠ d.name := by
  have taken {name : String} : (left.hasColumn name || before.any fun e => e.name == name) = true ↔
      ¬ (name ∉ left.names ∧ ∀ e ∈ before, e.name ≠ name) := by
    rw [Bool.or_eq_true, Table.hasColumn_iff, List.any_eq_true]
    simp only [beq_iff_eq]
    grind
  constructor
  · intro h
    refine ⟨derivedOf_of_derive h, ?_⟩
    rw [derive] at h
    obtain ⟨name, -, h⟩ := Outcome.bind_eq_ok.1 h
    split at h
    · cases h
    · rename_i free
      obtain ⟨reads, -, h⟩ := Outcome.bind_eq_ok.1 h
      obtain ⟨plan, -, h⟩ := Outcome.bind_eq_ok.1 h
      obtain rfl := Except.ok.inj h
      rwa [taken, not_not] at free
  · rintro ⟨of, free⟩
    rw [derive, of.name]
    simp only [Outcome.mapError, Outcome.ok_bind, if_neg (taken.not.2 (not_not.2 free)), of.reads,
      Outcome.ofOption, of.plan]
    rfl

variable {left right : Table} {trees : List Tree} {derived : List Derived}

theorem fresh_of_deriveEach {before all : List Derived}
    (h : deriveEach left before trees = .ok all) (hb : Fresh left before) : Fresh left all := by
  induction trees generalizing before with
  | nil =>
    obtain rfl : before = all := Except.ok.inj h
    exact hb
  | cons t trees ih =>
    rw [deriveEach] at h
    cases hd : derive left before t with
    | error e =>
      rw [hd] at h
      cases h
    | ok d =>
      rw [hd] at h
      exact ih h (fresh_append_singleton.2 ⟨hb, (derive_eq_ok_iff.1 hd).2⟩)

/-- Columns are derived from trees if they are fresh. -/
theorem deriveEach_eq_ok {before : List Derived} (of : List.Forall₂ DerivedOf trees derived)
    (fresh : Fresh left (before ++ derived)) :
    deriveEach left before trees = .ok (before ++ derived) := by
  induction of generalizing before with
  | nil => rw [deriveEach, List.append_nil]
  | @cons t d trees derived hd _ ih =>
    have shift : before ++ d :: derived = before ++ [d] ++ derived := by simp
    rw [shift] at fresh ⊢
    have first : Fresh left (before ++ [d]) := by
      refine ⟨?_, fun e he => fresh.absent e (List.mem_append_left _ he)⟩
      exact fresh.nodup.sublist (List.sublist_append_left _ _ |>.map _)
    rw [deriveEach, derive_eq_ok_iff.2 ⟨hd, (fresh_append_singleton.1 first).2⟩]
    exact ih fresh

/-! ## Assembling the result -/

/-- Columns of new names and the right length are appended one after the other. -/
theorem foldlM_withColumn {ds : List (Derived × Nat)} {f : Nat → List Cell} {t : Table}
    (nodup : (t.names ++ ds.map fun dj => dj.1.name).Nodup) (length : ∀ j, (f j).length = t.rows) :
    ds.foldlM (fun t (d, j) => t.withColumn d.name (f j)) t =
      .ok { t with columns := t.columns ++ ds.map fun dj => ⟨dj.1.name, f dj.2⟩ } := by
  induction ds generalizing t with
  | nil => simp [pure, Except.pure]
  | cons dj ds ih =>
    obtain ⟨d, j⟩ := dj
    have absent : d.name ∉ t.names := fun hm =>
      (List.nodup_append.1 nodup).2.2 _ hm _ List.mem_cons_self rfl
    have rest := ih (t := { t with columns := t.columns ++ [⟨d.name, f j⟩] })
      (by simpa [Table.names] using nodup) length
    simp only [List.foldlM_cons, Table.withColumn_eq_ok_iff.2 ⟨absent, length j, rfl⟩,
      Outcome.ok_bind, rest, List.map_cons, List.append_assoc, List.singleton_append]

/-- Assembling the result from fresh columns never fails. -/
theorem assemble_eq_ok (hl : left.WellFormed) (fresh : Fresh left derived)
    (results : List (Nat × List Cell)) : assemble left derived results =
      .ok ⟨Cell.counting left.rows, left.columns ++ derived.zipIdx.map fun dj =>
        ⟨dj.1.name, (List.range left.rows).map (resultCell results dj.2)⟩⟩ := by
  have length (j : Nat) :
      ((List.range left.rows).map (resultCell results j)).length = left.resetIndex.rows := by
    simp
  have names : (derived.zipIdx.map fun dj => dj.1.name) = derived.map Derived.name := by
    conv_rhs => rw [← List.zipIdx_map_fst 0 derived, List.map_map]
    rfl
  have nodup : (derived.zipIdx.map fun dj => dj.1.name).Nodup := by
    rw [names]
    exact fresh.nodup
  have values := foldlM_withColumn (t := ⟨left.resetIndex.index, []⟩) nodup length
  rw [assemble]
  simp only [values, Outcome.ok_bind, List.nil_append, Table.hstack]
  rw [if_neg (by simp [Table.rows])]
  refine Table.ofIndex_eq_ok_iff.2 ⟨rfl, ?_, fun c hc => ?_⟩
  · rw [Table.names, List.map_append, List.map_map, List.nodup_append]
    refine ⟨hl.names, nodup, fun n hn m hm e => ?_⟩
    obtain ⟨⟨d, j⟩, hd, rfl⟩ := List.mem_map.1 hm
    subst e
    exact fresh.absent d (List.mem_of_getElem? (List.mk_mem_zipIdx_iff_getElem?.1 hd)) hn
  · rcases List.mem_append.1 hc with hc | hc
    · exact hl.resetIndex.lengths c hc
    · obtain ⟨dj, -, rfl⟩ := List.mem_map.1 hc
      exact length dj.2

/-! ## Lengths -/

section

variable {t : Table} {start stop : String}

theorem length_intervalLengths (ht : t.WellFormed) {lengths : List Cell}
    (h : intervalLengths t start stop = .ok lengths) : lengths.length = t.rows := by
  obtain ⟨starts, hs, h⟩ := Outcome.bind_eq_ok.1 h
  obtain ⟨stops, he, h⟩ := Outcome.bind_eq_ok.1 h
  rw [← (mapM_eq_ok_iff.1 h).length_eq, List.length_zip,
    ht.length_column (Outcome.exceptMapError_eq_ok.1 hs),
    ht.length_column (Outcome.exceptMapError_eq_ok.1 he), min_self]

/-- The lengths of the intervals exist if both bounds do and every row has a length. -/
theorem exists_intervalLengths_iff (ht : t.WellFormed) :
    (∃ lengths, intervalLengths t start stop = .ok lengths) ↔
      start ∈ t.names ∧ stop ∈ t.names ∧
        ∀ i < t.rows, ∃ x, lengthAt? t start stop i = some x := by
  constructor
  · rintro ⟨lengths, h⟩
    refine ⟨?_, ?_, fun i hi => ?_⟩
    · obtain ⟨starts, hs, -⟩ := Outcome.bind_eq_ok.1 h
      exact Table.exists_column_iff.1 ⟨starts, Outcome.exceptMapError_eq_ok.1 hs⟩
    · obtain ⟨starts, -, h⟩ := Outcome.bind_eq_ok.1 h
      obtain ⟨stops, he, -⟩ := Outcome.bind_eq_ok.1 h
      exact Table.exists_column_iff.1 ⟨stops, Outcome.exceptMapError_eq_ok.1 he⟩
    · rw [← length_intervalLengths ht h] at hi
      exact ⟨_, lengthAt?_of_intervalLengths h (List.getElem?_eq_getElem hi)⟩
  · rintro ⟨hs, he, each⟩
    obtain ⟨starts, hs⟩ := Table.exists_column_iff.2 hs
    obtain ⟨stops, he⟩ := Table.exists_column_iff.2 he
    obtain ⟨lengths, hl⟩ : ∃ lengths, (starts.zip stops).mapM
        (fun bounds => intervalLength bounds.1 bounds.2) = .ok lengths := by
      simp only [mapM_eq_ok_iff]
      refine exists_forall₂ fun bounds hb => ?_
      obtain ⟨i, hi⟩ := List.mem_iff_getElem?.1 hb
      obtain ⟨hfirst, hlast⟩ := List.getElem?_zip_eq_some.1 hi
      have inside : i < t.rows := by
        rw [← ht.length_column hs]
        exact (List.getElem?_eq_some_iff.1 hfirst).1
      obtain ⟨x, hx⟩ := each i inside
      rw [lengthAt?, cell?_of_column hs, cell?_of_column he, hfirst, hlast] at hx
      exact ⟨x, toOption_eq_some.1 hx⟩
    exact ⟨lengths, by rw [intervalLengths, hs, he]; exact hl⟩

end

/-! ## Matching -/

section

variable {policy : Unmatched} {lengths : List Cell} (hr : right.WellFormed)
  (hl : lengths.length = right.rows)
include hr hl

/-- Rows that are there can be matched. -/
theorem exists_matchRows (leftPositions : List Nat) {js : List Nat}
    (hjs : ∀ j ∈ js, j < right.rows) :
    ∃ m, matchRows right lengths leftPositions js = .ok m := by
  obtain ⟨rows, hrows⟩ := Table.exists_take? hr hjs
  obtain ⟨picked, hp⟩ := Table.exists_picks (hl ▸ hjs)
  have length : rows.index.length = picked.length :=
    (Table.rows_take? hrows).trans hp.length_eq
  refine ⟨⟨leftPositions, rows, ⟨none, rows.index, picked⟩⟩, ?_⟩
  rw [matchRows, hrows, mapM_eq_some_iff.2 hp]
  simp only [Outcome.ofOption, Outcome.ok_bind, Series.ofIndex_eq_ok_iff.2 ⟨rfl, length⟩]
  rfl

/-- Groups can be matched unless one that has no match is refused. -/
theorem exists_matchGroups_iff {rightGroups groups : List Group}
    (inside : ∀ h ∈ rightGroups, ∀ j ∈ h.positions, j < right.rows) :
    (∃ ms, matchGroups policy right lengths rightGroups groups = .ok ms) ↔
      (policy = .error → ∀ g ∈ groups, rightGroups.find? (fun h => h.key == g.key) ≠ none) := by
  induction groups with
  | nil => simp [matchGroups]
  | cons g groups ih =>
    have matched {js : List Nat} (hjs : ∀ j ∈ js, j < right.rows) :
        (∃ ms, (do
          let m ← matchRows right lengths g.positions js
          let rest ← matchGroups policy right lengths rightGroups groups
          return m :: rest) = Except.ok ms) ↔
        ∃ ms, matchGroups policy right lengths rightGroups groups = .ok ms := by
      obtain ⟨m, hm⟩ := exists_matchRows hr hl g.positions hjs
      rw [hm, Outcome.ok_bind]
      cases matchGroups policy right lengths rightGroups groups <;>
        simp [pure, Except.pure]
    unfold matchGroups
    cases hf : rightGroups.find? (fun h => h.key == g.key) with
    | some found =>
      simp only [Outcome.ok_bind, matched (inside found (List.mem_of_find?_eq_some hf)), ih,
        List.forall_mem_cons, hf]
      simp
    | none =>
      cases policy with
      | null => simpa using ih
      | evaluateEmpty =>
        simp only [Outcome.ok_bind, @matched [] (by simp), ih]
        simp
      | error =>
        simp only [Outcome.error_bind, reduceCtorEq, exists_false, false_iff]
        exact fun refused => refused trivial g List.mem_cons_self hf

end

/-! ## Rows -/

section

variable {leftData rightData : Table} {keys : List String} {start stop : String}
  {leftLengths rightLengths : List Cell} {m : Matched} {i : Nat} {js leftPositions : List Nat}

/-- A row has a context if it has a plain one. -/
theorem exists_contextOf (cut : Cut left right leftData rightData keys start stop derived)
    (hl : left.WellFormed) (hi : i < left.rows)
    (hleft : intervalLengths leftData start stop = .ok leftLengths)
    (hm : matchRows rightData rightLengths leftPositions js = .ok m) {c' : Context}
    (hc' : plainContext? left right start stop i js = some c') :
    ∃ c, contextOf leftData leftLengths start stop m i = .ok c := by
  obtain ⟨_, _, _, overlaps, -, hlength, -, hoverlaps, -⟩ := plainContext?_eq_some_iff.1 hc'
  obtain ⟨first, hfirst, hlength⟩ := Option.bind_eq_some_iff.1 hlength
  obtain ⟨last, hlast, -⟩ := Option.bind_eq_some_iff.1 hlength
  obtain ⟨hrows, -⟩ := matchRows_spec hm
  obtain ⟨starts, hstarts, hstartsData⟩ := cut.right.column start (bounds_mem _).1
  obtain ⟨stops, hstops, hstopsData⟩ := cut.right.column stop (bounds_mem _).2
  obtain ⟨xs, hxs, hx⟩ := Table.column_take? hrows hstartsData
  obtain ⟨ys, hys, hy⟩ := Table.column_take? hrows hstopsData
  have each := (mapM_overlapAt?_iff hfirst hlast hstarts hstops hx hy).1 hoverlaps
  have labels : m.right.index.length = overlaps.length := by
    rw [← each.length_eq, List.length_zip, ← hx.length_eq, ← hy.length_eq, min_self]
    exact Table.rows_take? hrows
  have inside : i < leftData.rows := by rwa [cut.left.rows_eq]
  have lengthRead : ∃ length, leftLengths[i]? = some length := by
    rw [← length_intervalLengths (cut.left.wellFormed hl) hleft] at inside
    exact ⟨_, List.getElem?_eq_getElem inside⟩
  obtain ⟨length, hlength⟩ := lengthRead
  rw [← cut.left.cell?_eq (bounds_mem _).1] at hfirst
  rw [← cut.left.cell?_eq (bounds_mem _).2] at hlast
  have overlapped : signedOverlap first last xs ys = .ok overlaps := mapM_eq_ok_iff.2 each
  refine ⟨⟨⟨leftData, i⟩, m.right, length, m.rightLengths, ⟨none, m.right.index, overlaps⟩⟩, ?_⟩
  rw [contextOf, hlength, Table.row, if_pos inside, hxs, hys]
  simp only [Outcome.ofOption, Outcome.ofExcept, Outcome.ok_bind, Except.mapError,
    Table.get_eq_ok_iff.2 hfirst, Table.get_eq_ok_iff.2 hlast, Outcome.mapError, overlapped,
    Series.ofIndex_eq_ok_iff.2 ⟨rfl, labels⟩]
  rfl

/-- A row is evaluated if the join goes on and every plan gives a scalar in its context. -/
theorem exists_evaluateRow_iff {config : JoinConfig} :
    (∃ r, evaluateRow config left leftLengths start stop derived m i = .ok r) ↔
      config.isCancelled = false ∧ ∃ c, contextOf left leftLengths start stop m i = .ok c ∧
        ∀ d ∈ derived, ∃ x, d.plan.eval c = .ok (.scalar x) := by
  rw [evaluateRow]
  cases config.isCancelled with
  | true => simp
  | false =>
    simp only [Bool.false_eq_true, if_false, true_and]
    constructor
    · rintro ⟨r, h⟩
      obtain ⟨c, hc, h⟩ := Outcome.bind_eq_ok.1 h
      obtain ⟨cells, hcells, -⟩ := Outcome.bind_eq_ok.1 h
      refine ⟨c, hc, fun d hd => ?_⟩
      obtain ⟨x, -, hx⟩ := exists_mem_of_forall₂_right (mapM_eq_ok_iff.1 hcells).flip hd
      exact ⟨x, derivedCell_eq_ok_iff.1 hx⟩
    · rintro ⟨c, hc, scalars⟩
      obtain ⟨cells, hcells⟩ : ∃ cells, derived.mapM (derivedCell c) = .ok cells := by
        simp only [mapM_eq_ok_iff, derivedCell_eq_ok_iff]
        exact exists_forall₂ scalars
      exact ⟨(i, cells), by rw [hc, Outcome.ok_bind, hcells]; rfl⟩

end

end Join

end SpanJoin
