import SpanJoin.Proofs.Datum.Relabelled

/-!
# Frames of columns side by side

What the frame looks like in which parts are put side by side, as long as no label is a
floating-point number. Its rows are the labels of all parts in order of first appearance
(`Part.labels_firstsOf`), and every part is spread over the rows of its labels, the other rows being
`null` (`Part.spread_of_column`). The frame is there exactly if no two parts share a name and every
label that is looked up has a cell (`Part.stack_eq_ok_iff`).

The columns of such a frame can take the place of the parts they were made of, among any other parts
(`Part.Restacked.stack_eq`): the frame's rows are those labels again in the same order, and what the
frame has no row for, the part had no cell for.
-/

namespace SpanJoin

/-! ## First appearances -/

/-- The elements of a list, each once, in the order in which they first appear. -/
structure FirstsOf {α : Type} [DecidableEq α] (all firsts : List α) : Prop where
  nodup : firsts.Nodup
  mem_iff : ∀ a, a ∈ firsts ↔ a ∈ all
  ordered : firsts.Pairwise fun a b =>
    all.findIdx (fun x => decide (x = a)) < all.findIdx fun x => decide (x = b)

namespace FirstsOf

variable {α : Type} [DecidableEq α] {all firsts : List α}

theorem nil : FirstsOf ([] : List α) [] := ⟨.nil, by simp, .nil⟩

/-- What is in the list keeps its place when the list goes on. -/
theorem findIdx_append_singleton {a : α} (ha : a ∈ all) (b : α) :
    (all ++ [b]).findIdx (fun x => decide (x = a)) = all.findIdx fun x => decide (x = a) := by
  rw [List.findIdx_append, if_pos (List.findIdx_lt_length_of_exists ⟨a, ha, by simp⟩)]

/-- An element that was there before changes nothing. -/
theorem append_of_mem (h : FirstsOf all firsts) {a : α} (ha : a ∈ firsts) :
    FirstsOf (all ++ [a]) firsts where
  nodup := h.nodup
  mem_iff b := by
    rw [List.mem_append, List.mem_singleton, ← h.mem_iff]
    exact ⟨.inl, fun hb => hb.elim id fun e => e ▸ ha⟩
  ordered := h.ordered.imp_of_mem fun hb hc hlt => by
    rwa [findIdx_append_singleton ((h.mem_iff _).1 hb),
      findIdx_append_singleton ((h.mem_iff _).1 hc)]

/-- A new element comes last. -/
theorem append_of_notMem (h : FirstsOf all firsts) {a : α} (ha : a ∉ firsts) :
    FirstsOf (all ++ [a]) (firsts ++ [a]) where
  nodup := List.nodup_append.2 ⟨h.nodup, List.nodup_singleton a, fun b hb c hc => by
    rw [List.mem_singleton.1 hc]
    exact fun e => ha (e ▸ hb)⟩
  mem_iff b := by rw [List.mem_append, List.mem_append, h.mem_iff]
  ordered := by
    have last : (all ++ [a]).findIdx (fun x => decide (x = a)) = all.length := by
      have none : ¬ all.findIdx (fun x => decide (x = a)) < all.length := fun hlt => by
        have found := List.findIdx_getElem (w := hlt)
        exact ha ((h.mem_iff a).2 (of_decide_eq_true found ▸ List.getElem_mem hlt))
      rw [List.findIdx_append, if_neg none]
      simp
    refine List.pairwise_append.2 ⟨?_, List.pairwise_singleton _ _, fun b hb c hc => ?_⟩
    · refine h.ordered.imp_of_mem fun hb hc hlt => ?_
      rwa [findIdx_append_singleton ((h.mem_iff _).1 hb),
        findIdx_append_singleton ((h.mem_iff _).1 hc)]
    · rw [List.mem_singleton.1 hc, last, findIdx_append_singleton ((h.mem_iff b).1 hb)]
      exact List.findIdx_lt_length_of_exists ⟨b, (h.mem_iff b).1 hb, by simp⟩

end FirstsOf

/-- None of the labels is a floating-point number. -/
def NoFloats (labels : List Cell) : Prop := ∀ l ∈ labels, l.isFloat = false

theorem noFloats_nil : NoFloats [] := List.forall_mem_nil _

theorem noFloats_append {ls ms : List Cell} : NoFloats (ls ++ ms) ↔ NoFloats ls ∧ NoFloats ms :=
  List.forall_mem_append

namespace Series

variable {ε : Type} {s : Series} {l : Cell}

/-- A label that the series has leads to the cell of its first row. -/
theorem get?_of_findIdx? {i : Nat} (h : s.index.findIdx? (fun k => k.sameLabel l) = some i) :
    (s.get? l : Outcome ε (Option Cell)) = (Outcome.ofOption s.cells[i]?).map some := by
  rw [get?, h]

/-- A label that the series does not have leads to no cell. -/
theorem get?_of_notMem (hs : NoFloats s.index) (hl : l.isFloat = false) (h : l ∉ s.index) :
    (s.get? l : Outcome ε (Option Cell)) = .ok none := by
  have none : s.index.findIdx? (fun k => k.sameLabel l) = none :=
    List.findIdx?_eq_none_iff.2 fun k hk => Bool.eq_false_iff.2 fun e =>
      h ((Cell.sameLabel_iff_eq (hs k hk) hl).1 e ▸ hk)
  rw [get?, none]

/-- A label that the series has is found in some row, the first one of this label. -/
theorem exists_findIdx? (hs : NoFloats s.index) (h : l ∈ s.index) :
    ∃ i, s.index.findIdx? (fun k => k.sameLabel l) = some i ∧ s.index[i]? = some l := by
  have hl := hs l h
  cases hf : s.index.findIdx? fun k => k.sameLabel l with
  | none =>
    have := List.findIdx?_eq_none_iff.1 hf l h
    rw [(Cell.sameLabel_iff_eq hl hl).2 rfl] at this
    cases this
  | some i =>
    obtain ⟨hi, found, -⟩ := List.findIdx?_eq_some_iff_getElem.1 hf
    have same := (Cell.sameLabel_iff_eq (hs _ (List.getElem_mem hi)) hl).1 found
    exact ⟨i, rfl, by rw [List.getElem?_eq_getElem hi, same]⟩

end Series

namespace Part

variable {p : Part} {ps qs rs ts : List Part} {index labels more : List Cell}

/-! ## Rows -/

theorem any_sameLabel_iff (hs : NoFloats labels) {l : Cell} (hl : l.isFloat = false) :
    (labels.any fun k => k.sameLabel l) = true ↔ l ∈ labels := by
  rw [List.any_eq_true]
  constructor
  · rintro ⟨k, hk, e⟩
    rwa [← (Cell.sameLabel_iff_eq (hs k hk) hl).1 e]
  · exact fun h => ⟨l, h, (Cell.sameLabel_iff_eq hl hl).2 rfl⟩

theorem addLabel_of_mem (hs : NoFloats labels) {l : Cell} (h : l ∈ labels) :
    addLabel labels l = labels := by
  rw [addLabel, if_pos ((any_sameLabel_iff hs (hs l h)).2 h)]

theorem addLabel_of_notMem (hs : NoFloats labels) {l : Cell} (hl : l.isFloat = false)
    (h : l ∉ labels) : addLabel labels l = labels ++ [l] := by
  rw [addLabel, if_neg fun e => h ((any_sameLabel_iff hs hl).1 e)]

theorem mem_foldl_addLabel (hs : NoFloats labels) (hm : NoFloats more) :
    NoFloats (more.foldl addLabel labels) ∧
      ∀ l, l ∈ more.foldl addLabel labels ↔ l ∈ labels ∨ l ∈ more := by
  induction more generalizing labels with
  | nil => exact ⟨hs, by simp⟩
  | cons m more ih =>
    obtain ⟨first, rest⟩ := List.forall_mem_cons.1 hm
    have here : ∀ l, l ∈ addLabel labels m ↔ l ∈ labels ∨ l = m := by
      intro l
      by_cases h : m ∈ labels
      · rw [addLabel_of_mem hs h]
        exact ⟨.inl, fun hl => hl.elim id fun e => e ▸ h⟩
      · rw [addLabel_of_notMem hs first h, List.mem_append, List.mem_singleton]
    have clean : NoFloats (addLabel labels m) := fun l hl =>
      ((here l).1 hl).elim (hs l) fun e => e ▸ first
    obtain ⟨kept, mem⟩ := ih clean rest
    refine ⟨kept, fun l => ?_⟩
    rw [List.foldl_cons, mem, here, List.mem_cons, or_assoc]

/-- The rows are the labels in order of first appearance. -/
theorem foldl_addLabel_firstsOf (hm : NoFloats more) : FirstsOf more (more.foldl addLabel []) := by
  induction more using List.reverseRecOn with
  | nil => exact .nil
  | append_singleton more l ih =>
    obtain ⟨before, last⟩ := noFloats_append.1 hm
    have clean := (mem_foldl_addLabel noFloats_nil before).1
    rw [List.foldl_append, List.foldl_cons, List.foldl_nil]
    by_cases h : l ∈ more.foldl addLabel []
    · rw [addLabel_of_mem clean h]
      exact (ih before).append_of_mem h
    · rw [addLabel_of_notMem clean (last l (List.mem_singleton_self l)) h]
      exact (ih before).append_of_notMem h

/-- Labels that are there change nothing. -/
theorem foldl_addLabel_of_forall_mem (hs : NoFloats labels) (h : ∀ l ∈ more, l ∈ labels) :
    more.foldl addLabel labels = labels := by
  induction more with
  | nil => rfl
  | cons m more ih =>
    obtain ⟨first, rest⟩ := List.forall_mem_cons.1 h
    rw [List.foldl_cons, addLabel_of_mem hs first, ih rest]

/-- Labels that were collected by themselves stand for all that they were collected from. -/
theorem foldl_addLabel_foldl_addLabel (hs : NoFloats labels) (hm : NoFloats more) :
    (more.foldl addLabel []).foldl addLabel labels = more.foldl addLabel labels := by
  induction more using List.reverseRecOn with
  | nil => rfl
  | append_singleton more l ih =>
    obtain ⟨before, last⟩ := noFloats_append.1 hm
    have hl := last l (List.mem_singleton_self l)
    have own := mem_foldl_addLabel noFloats_nil before
    have all := mem_foldl_addLabel hs before
    simp only [List.foldl_append, List.foldl_cons, List.foldl_nil]
    by_cases h : l ∈ more.foldl addLabel []
    · -- the label comes from `more`, and is among the labels of both sides
      have there : l ∈ more := by simpa using (own.2 l).1 h
      rw [addLabel_of_mem own.1 h, ih before, addLabel_of_mem all.1 ((all.2 l).2 (.inr there))]
    · rw [addLabel_of_notMem own.1 hl h, List.foldl_append, ih before, List.foldl_cons,
        List.foldl_nil]

/-- The labels of all the parts. -/
def allLabels (ps : List Part) : List Cell := ps.flatMap fun p => p.series.index

@[simp] theorem allLabels_append : allLabels (ps ++ qs) = allLabels ps ++ allLabels qs :=
  List.flatMap_append

theorem labels_eq (ps : List Part) : Part.labels ps = (allLabels ps).foldl addLabel [] := rfl

/-- **Rows side by side.** The rows are the labels of all parts in order of first appearance. -/
theorem labels_firstsOf (h : NoFloats (allLabels ps)) : FirstsOf (allLabels ps) (Part.labels ps) :=
  foldl_addLabel_firstsOf h

/-! ## Cells -/

/-- A part is spread over rows of the given labels: the cell of a row is the part's cell under the
row's label, and `null` if the part does not have the label. -/
structure Spread (p : Part) (index cells : List Cell) : Prop where
  length : cells.length = index.length
  cell : ∀ {i j : Nat} {l : Cell}, p.series.index[i]? = some l → index[j]? = some l →
    cells[j]? = p.series.cells[i]?
  null : ∀ {j : Nat} {l : Cell}, index[j]? = some l → l ∉ p.series.index → cells[j]? = some .null

/-- A column is there if all row labels can be looked up. -/
theorem column_eq_ok_iff {c : Column} : p.column index = .ok c ↔
    ∃ found, List.Forall₂ (fun l x => p.series.get? l = (.ok x : Outcome TreeError _)) index found ∧
      ⟨p.name, found.map fun x => x.getD .null⟩ = c := by
  simp only [column, Outcome.exceptMap_eq_ok, mapM_eq_ok_iff]

/-- A column is as long as the index and has the name of the part. -/
theorem name_length_of_column {c : Column} (h : p.column index = .ok c) :
    c.name = p.name ∧ c.cells.length = index.length := by
  obtain ⟨found, hf, rfl⟩ := column_eq_ok_iff.1 h
  exact ⟨rfl, by rw [List.length_map, hf.length_eq]⟩

theorem exists_column (hw : p.series.WellFormed) (index : List Cell) :
    ∃ c, p.column index = .ok c := by
  obtain ⟨found, hf⟩ := exists_forall₂ fun l (_ : l ∈ index) =>
    Series.WellFormed.exists_get? (ε := TreeError) hw l
  exact ⟨_, column_eq_ok_iff.2 ⟨found, hf, rfl⟩⟩

/-- What can be looked up for some labels can be looked up for any part of them. -/
theorem exists_column_of_subset {c : Column} (h : p.column index = .ok c)
    (sub : ∀ l ∈ labels, l ∈ index) : ∃ d, p.column labels = .ok d := by
  obtain ⟨found, hf, -⟩ := column_eq_ok_iff.1 h
  obtain ⟨found', hf'⟩ := exists_forall₂ fun l (hl : l ∈ labels) => by
    obtain ⟨i, hi⟩ := List.mem_iff_getElem?.1 (sub l hl)
    obtain ⟨x, -, hx⟩ := exists_getElem?_of_forall₂ hf hi
    exact ⟨x, hx⟩
  exact ⟨_, column_eq_ok_iff.2 ⟨found', hf', rfl⟩⟩

/-- **Cells side by side.** A part whose labels are distinct is spread over the rows. -/
theorem spread_of_column (hw : p.series.WellFormed) (hp : NoFloats p.series.index)
    (nodup : p.series.index.Nodup) (hi : NoFloats index) {c : Column}
    (h : p.column index = .ok c) : p.Spread index c.cells := by
  obtain ⟨found, hf, rfl⟩ := column_eq_ok_iff.1 h
  refine ⟨by rw [List.length_map, hf.length_eq], fun {i j l} hpi hj => ?_, fun {j l} hj hl => ?_⟩
  · obtain ⟨x, hx, hget⟩ := exists_getElem?_of_forall₂ hf hj
    obtain ⟨k, hk, hkl⟩ := Series.exists_findIdx? hp (List.mem_of_getElem? hpi)
    -- the labels being distinct, the row that is found is the one with this label
    obtain ⟨hi', ei⟩ := List.getElem?_eq_some_iff.1 hpi
    obtain ⟨hk', ek⟩ := List.getElem?_eq_some_iff.1 hkl
    obtain rfl : k = i := (nodup.getElem_inj_iff).1 (ek.trans ei.symm)
    have cell : p.series.cells[k]? = some p.series.cells[k] :=
      List.getElem?_eq_getElem (hw ▸ hk')
    rw [Series.get?_of_findIdx? hk, cell] at hget
    obtain rfl : some p.series.cells[k] = x := Except.ok.inj hget
    rw [List.getElem?_map, hx, cell]
    rfl
  · obtain ⟨x, hx, hget⟩ := exists_getElem?_of_forall₂ hf hj
    rw [Series.get?_of_notMem hp (hi l (List.mem_of_getElem? hj)) hl] at hget
    obtain rfl : none = x := Except.ok.inj hget
    rw [List.getElem?_map, hx]
    rfl

/-- What is in a part is in the column once. -/
theorem Spread.existsUnique {cells : List Cell} (h : p.Spread index cells) (nodup : index.Nodup)
    {i : Nat} {l : Cell} (hi : p.series.index[i]? = some l) (hl : l ∈ index) :
    ∃! j : Nat, index[j]? = some l ∧ cells[j]? = p.series.cells[i]? := by
  obtain ⟨j, hj⟩ := List.mem_iff_getElem?.1 hl
  refine ⟨j, ⟨hj, h.cell hi hj⟩, fun k hk => ?_⟩
  obtain ⟨hj', ej⟩ := List.getElem?_eq_some_iff.1 hj
  obtain ⟨hk', ek⟩ := List.getElem?_eq_some_iff.1 hk.1
  exact nodup.getElem_inj_iff.1 (ek.trans ej.symm)

/-! ## Frames -/

/-- A frame is there exactly if the parts have different names and all row labels can be looked up
in all of them. -/
theorem stack_eq_ok_iff {d : Datum} : stack ps = .ok d ↔
    (ps.map Part.name).Nodup ∧ ∃ columns,
      List.Forall₂ (fun p c => p.column (Part.labels ps) = .ok c) ps columns ∧
        .frame ⟨Part.labels ps, columns⟩ = d := by
  have names {columns : List Column}
      (h : List.Forall₂ (fun p c => p.column (Part.labels ps) = .ok c) ps columns) :
      columns.map Column.name = ps.map Part.name := by
    rw [← List.forall₂_eq_eq_eq, List.forall₂_map_left_iff, List.forall₂_map_right_iff]
    exact h.flip.imp fun c p hc => (name_length_of_column hc).1
  constructor
  · intro h
    obtain ⟨columns, hc, h⟩ := Outcome.bind_eq_ok.1 h
    obtain ⟨t, ht, h⟩ := Outcome.bind_eq_ok.1 h
    obtain ⟨rfl, hw⟩ := Table.ofIndex_eq_ok_iff.1 (Outcome.ofExcept_mapError_eq_ok.1 ht)
    have columns_eq := mapM_eq_ok_iff.1 hc
    refine ⟨names columns_eq ▸ hw.names, columns, columns_eq, Except.ok.inj h⟩
  · rintro ⟨nodup, columns, hc, rfl⟩
    have built : Table.ofIndex (Part.labels ps) columns = .ok ⟨Part.labels ps, columns⟩ := by
      refine Table.ofIndex_eq_ok_iff.2 ⟨rfl, by rwa [← names hc] at nodup, fun c hmem => ?_⟩
      obtain ⟨p, -, hp⟩ := exists_mem_of_forall₂_right hc hmem
      exact (name_length_of_column hp).2
    rw [stack, mapM_eq_ok_iff.2 hc, Outcome.ok_bind, built]
    rfl

theorem noFloats_labels (h : NoFloats (allLabels ps)) : NoFloats (Part.labels ps) :=
  (mem_foldl_addLabel noFloats_nil h).1

theorem mem_labels (h : NoFloats (allLabels ps)) {l : Cell} :
    l ∈ Part.labels ps ↔ l ∈ allLabels ps := by
  rw [labels_eq, (mem_foldl_addLabel noFloats_nil h).2]
  simp

theorem mem_allLabels (hp : p ∈ ps) {l : Cell} (hl : l ∈ p.series.index) : l ∈ allLabels ps :=
  List.mem_flatMap.2 ⟨p, hp, hl⟩

/-- A column holds a part: it has the part's name, the part is spread over its cells, and every row
of the part has exactly one row there. -/
structure Holds (index : List Cell) (p : Part) (c : Column) : Prop where
  name : c.name = p.name
  spread : p.Spread index c.cells
  once : ∀ {i : Nat} {l : Cell}, p.series.index[i]? = some l →
    ∃! j : Nat, index[j]? = some l ∧ c.cells[j]? = p.series.cells[i]?

/-- Parts with different names and labels of their own make up a frame that holds them all. -/
theorem exists_stack_holds (names : (ps.map Part.name).Nodup)
    (built : ∀ p ∈ ps, p.series.WellFormed) (nodup : ∀ p ∈ ps, p.series.index.Nodup)
    (clean : NoFloats (allLabels ps)) :
    ∃ t : Table, stack ps = .ok (.frame t) ∧ FirstsOf (allLabels ps) t.index ∧
      List.Forall₂ (Holds t.index) ps t.columns := by
  obtain ⟨columns, hc⟩ := exists_forall₂ fun p hp => exists_column (built p hp) (Part.labels ps)
  have rows := labels_firstsOf clean
  refine ⟨⟨Part.labels ps, columns⟩, stack_eq_ok_iff.2 ⟨names, columns, hc, rfl⟩, rows, ?_⟩
  refine forall₂_imp_of_mem hc fun p hp c _ hpc => ?_
  have mem : ∀ l ∈ p.series.index, l ∈ allLabels ps := fun l hl => mem_allLabels hp hl
  have spread : p.Spread (Part.labels ps) c.cells :=
    spread_of_column (built p hp) (fun l hl => clean l (mem l hl)) (nodup p hp)
      (noFloats_labels clean) hpc
  exact ⟨(name_length_of_column hpc).1, spread, fun hi =>
    spread.existsUnique rows.nodup hi ((rows.mem_iff _).2 (mem _ (List.mem_of_getElem? hi)))⟩

/-! ## Frames among other parts -/

/-- A column of a frame as a part. -/
def ofColumn (index : List Cell) (c : Column) : Part := ⟨c.name, none, index, c.cells⟩

/-- The parts of a frame whose columns are as long as its index. -/
theorem ofTable_eq_ok {t : Table} (ht : ∀ c ∈ t.columns, c.cells.length = t.rows) :
    ofTable t = .ok (t.columns.map (ofColumn t.index)) := by
  refine Outcome.exceptMapError_eq_ok.2 (mapM_eq_ok_iff.2 ?_)
  rw [List.forall₂_map_right_iff, List.forall₂_same]
  intro c hc
  rw [Series.ofIndex_eq_ok_iff.2 ⟨rfl, (ht c hc).symm⟩]
  rfl

/-- Looking up a label in a column of a frame comes to the same as looking it up in the part that
the column was made of, if the frame has all labels of the part. -/
theorem exists_get?_ofColumn {c : Column} (h : p.column labels = .ok c) (hl : NoFloats labels)
    (sub : ∀ l ∈ p.series.index, l ∈ labels) {l : Cell} (hf : l.isFloat = false) :
    ∃ x y : Option Cell, (ofColumn labels c).series.get? l = (.ok x : Outcome TreeError _) ∧
      p.series.get? l = (.ok y : Outcome TreeError _) ∧ x.getD .null = y.getD .null := by
  obtain ⟨found, hfound, rfl⟩ := column_eq_ok_iff.1 h
  by_cases mem : l ∈ labels
  · obtain ⟨j, hj, hjl⟩ := Series.exists_findIdx? (s := (ofColumn labels ⟨p.name, _⟩).series) hl mem
    obtain ⟨y, hy, hget⟩ := exists_getElem?_of_forall₂ hfound hjl
    refine ⟨some (y.getD .null), y, ?_, hget, rfl⟩
    rw [Series.get?_of_findIdx? hj]
    simp [ofColumn, hy, Outcome.ofOption, Except.map]
  · refine ⟨none, none, Series.get?_of_notMem hl hf mem, ?_, rfl⟩
    exact Series.get?_of_notMem (fun k hk => hl k (sub k hk)) hf fun hmem => mem (sub l hmem)

theorem column_ofColumn {c : Column} (h : p.column labels = .ok c) (hl : NoFloats labels)
    (sub : ∀ l ∈ p.series.index, l ∈ labels) (hi : NoFloats index) :
    (ofColumn labels c).column index = p.column index := by
  obtain ⟨xys, hxys⟩ := exists_forall₂ (R := fun l (xy : Option Cell × Option Cell) =>
      (ofColumn labels c).series.get? l = (.ok xy.1 : Outcome TreeError _) ∧
      p.series.get? l = (.ok xy.2 : Outcome TreeError _) ∧ xy.1.getD .null = xy.2.getD .null)
    fun l hmem => by
      obtain ⟨x, y, hxy⟩ := exists_get?_ofColumn h hl sub (hi l hmem)
      exact ⟨(x, y), hxy⟩
  have frame : (ofColumn labels c).column index =
      .ok ⟨c.name, (xys.map Prod.fst).map fun x => x.getD .null⟩ :=
    column_eq_ok_iff.2 ⟨_, List.forall₂_map_right_iff.2 (hxys.imp fun _ _ h => h.1), rfl⟩
  have part : p.column index = .ok ⟨p.name, (xys.map Prod.snd).map fun x => x.getD .null⟩ :=
    column_eq_ok_iff.2 ⟨_, List.forall₂_map_right_iff.2 (hxys.imp fun _ _ h => h.2.1), rfl⟩
  have cells : (xys.map Prod.fst).map (fun x => x.getD Cell.null) =
      (xys.map Prod.snd).map fun x => x.getD .null := by
    rw [List.map_map, List.map_map]
    refine List.map_congr_left fun xy hxy => ?_
    obtain ⟨l, -, hl⟩ := exists_mem_of_forall₂_right hxys hxy
    exact hl.2.2
  rw [frame, part, cells, (name_length_of_column h).1]

/-- What the columns of a frame have in common with the parts that the frame was made of. -/
structure Restacked (qs ts : List Part) : Prop where
  length : ts.length = qs.length
  rows : ∀ t ∈ ts, t.series.index = Part.labels qs
  columns : ∀ {index : List Cell}, NoFloats index →
    ts.mapM (column index) = qs.mapM (column index)

theorem exists_restacked {t : Table} (clean : NoFloats (allLabels qs))
    (h : stack qs = .ok (.frame t)) : ∃ ts, ofTable t = .ok ts ∧ Restacked qs ts := by
  obtain ⟨-, columns, hc, ht⟩ := stack_eq_ok_iff.1 h
  obtain rfl := Datum.frame.inj ht
  have lengths : ∀ c ∈ columns, c.cells.length = (Part.labels qs).length := fun c hmem => by
    obtain ⟨p, -, hp⟩ := exists_mem_of_forall₂_right hc hmem
    exact (name_length_of_column hp).2
  refine ⟨_, ofTable_eq_ok lengths, by rw [List.length_map, hc.length_eq], ?_, fun hi => ?_⟩
  · intro t ht
    obtain ⟨c, -, rfl⟩ := List.mem_map.1 ht
    rfl
  · rw [List.mapM_map]
    refine (mapM_congr_of_forall₂ (forall₂_imp_of_mem hc fun p hp c _ hpc => ?_)).symm
    exact (column_ofColumn hpc (noFloats_labels clean)
      (fun l hl => (mem_labels clean).2 (mem_allLabels hp hl)) hi).symm

/-- The labels of the columns of a frame, and those of the parts that it was made of, add the same
labels to any others. -/
theorem Restacked.foldl_addLabel (h : Restacked qs ts) (clean : NoFloats (allLabels qs))
    (hs : NoFloats labels) :
    (allLabels ts).foldl addLabel labels = (allLabels qs).foldl addLabel labels := by
  cases ts with
  | nil =>
    obtain rfl : qs = [] := List.length_eq_zero_iff.1 h.length.symm
    rfl
  | cons t ts =>
    have all := mem_foldl_addLabel hs (noFloats_labels clean)
    have first : t.series.index = Part.labels qs := h.rows t List.mem_cons_self
    have rest : ∀ l ∈ allLabels ts, l ∈ (Part.labels qs).foldl addLabel labels := fun l hl => by
      obtain ⟨u, hu, hl⟩ := List.mem_flatMap.1 hl
      rw [h.rows u (List.mem_cons_of_mem t hu)] at hl
      exact (all.2 l).2 (.inr hl)
    have split : allLabels (t :: ts) = Part.labels qs ++ allLabels ts := by
      rw [← first]
      rfl
    rw [split, List.foldl_append, foldl_addLabel_of_forall_mem all.1 rest]
    exact foldl_addLabel_foldl_addLabel hs clean

theorem noFloats_middle (h : NoFloats (allLabels (ps ++ qs ++ rs))) : NoFloats (allLabels qs) := by
  simp only [allLabels_append, noFloats_append] at h
  exact h.1.2

/-- **A frame among other parts.** The columns of a frame can take the place of the parts that the
frame was made of. -/
theorem Restacked.stack_eq (h : Restacked qs ts) (clean : NoFloats (allLabels (ps ++ qs ++ rs))) :
    stack (ps ++ ts ++ rs) = stack (ps ++ qs ++ rs) := by
  have first : NoFloats ((allLabels ps).foldl addLabel []) := by
    simp only [allLabels_append, noFloats_append] at clean
    exact noFloats_labels clean.1.1
  have rows : Part.labels (ps ++ ts ++ rs) = Part.labels (ps ++ qs ++ rs) := by
    simp only [labels_eq, allLabels_append, List.foldl_append]
    rw [h.foldl_addLabel (noFloats_middle clean) first]
  simp only [stack, rows, List.mapM_append, h.columns (noFloats_labels clean)]

/-- Where there is a frame of some parts, there is one of any stretch of them. -/
theorem exists_stack_of_append (clean : NoFloats (allLabels (ps ++ qs ++ rs))) {d : Datum}
    (h : stack (ps ++ qs ++ rs) = .ok d) : ∃ t, stack qs = .ok (.frame t) := by
  have hq := noFloats_middle clean
  obtain ⟨names, columns, hc, -⟩ := stack_eq_ok_iff.1 h
  have some_columns : ∀ p ∈ qs, ∃ c, p.column (Part.labels qs) = .ok c := fun p hp => by
    obtain ⟨i, hi⟩ := List.mem_iff_getElem?.1
      (List.mem_append_left rs (List.mem_append_right ps hp))
    obtain ⟨c, -, hpc⟩ := exists_getElem?_of_forall₂ hc hi
    refine exists_column_of_subset hpc fun l hl => (mem_labels clean).2 ?_
    rw [allLabels_append, allLabels_append]
    exact List.mem_append_left _ (List.mem_append_right _ ((mem_labels hq).1 hl))
  obtain ⟨inner, hinner⟩ := exists_forall₂ some_columns
  have nodup : (qs.map Part.name).Nodup := by
    rw [List.map_append, List.map_append] at names
    exact (List.nodup_append.1 (List.nodup_append.1 names).1).2.1
  exact ⟨_, stack_eq_ok_iff.2 ⟨nodup, inner, hinner, rfl⟩⟩

end Part

end SpanJoin
