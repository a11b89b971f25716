import SpanJoin.Datum.Broadcast
import SpanJoin.Datum.Reshape
import SpanJoin.Proofs.Cell.Labels
import SpanJoin.Proofs.Table.Series

/-!
# Sound data

A datum is sound if its series, keys and columns have the lengths that their labels call for, no two
columns share a name, and the labels have a property `P` of choice. The property must pass to parts
of a list of labels and hold of labels that are apart (`Heritable`). Two choices matter: that no two
labels match (`heritable_apart`), and no demand at all (`heritable_true`).

There is one statement for each operation: on sound data its answers are sound. Where the operation
picks rows or looks up labels, the statement says as well that the positions are there
(`Outcome.Meets`). The operations of this module keep the labels they are given, or some of them in
their order.
-/

namespace SpanJoin

/-- A part of a list has the property if the whole list has, and labels that are apart have it. -/
structure Heritable (P : List Cell → Prop) : Prop where
  sublist : ∀ {l l' : List Cell}, l.Sublist l' → P l' → P l
  apart : ∀ {l : List Cell}, Cell.Apart l → P l

theorem heritable_apart : Heritable Cell.Apart := ⟨fun sub h => h.sublist sub, id⟩

theorem heritable_true : Heritable fun _ => True := ⟨fun _ _ => trivial, fun _ => trivial⟩

/-- There is a label for every cell, and the labels have the property. -/
structure Series.Sound (P : List Cell → Prop) (s : Series) : Prop where
  wellFormed : s.WellFormed
  labels : P s.index

/-- The table is well-formed, and its row labels have the property. -/
structure Table.Sound (P : List Cell → Prop) (t : Table) : Prop where
  wellFormed : t.WellFormed
  labels : P t.index

/-- There is a key for every cell of a sound series. -/
structure GroupedSeries.Sound (P : List Cell → Prop) (g : GroupedSeries) : Prop where
  keys : g.keys.length = g.series.cells.length
  series : g.series.Sound P

/-- What a datum holds is sound; scalars and ranges always are. -/
def Datum.Sound (P : List Cell → Prop) : Datum → Prop
  | scalar _ => True
  | series s => s.Sound P
  | frame t => t.Sound P
  | grouped g => g.Sound P
  | range _ => True

namespace Datum

variable {P : List Cell → Prop} {safe : Prop} {d e r : Datum}

/-- What is computed as a scalar is one. -/
theorem exists_scalar {ε : Type} {c : Except ε Cell} (h : c.map scalar = .ok r) :
    ∃ x, r = scalar x := by
  obtain ⟨x, -, h⟩ := Outcome.bind_eq_ok.1 h
  exact ⟨x, (Except.ok.inj h).symm⟩

/-! ## Cell by cell -/

/-- Cells are computed from the elements of a list, and there have to be as many as labels. -/
theorem compute_eq_ok_iff {α : Type} {s : Series} {f : α → Except TreeError Cell} {as : List α} :
    s.compute f as = .ok r ↔ ∃ cells, List.Forall₂ (fun a x => f a = .ok x) as cells ∧
      s.index.length = cells.length ∧ r = series ⟨none, s.index, cells⟩ := by
  unfold Series.compute
  constructor
  · intro h
    obtain ⟨cells, hc, h⟩ := Outcome.bind_eq_ok.1 h
    obtain ⟨t, ht, h⟩ := Outcome.bind_eq_ok.1 h
    obtain ⟨rfl, hw⟩ := Series.ofIndex_eq_ok_iff.1 (Outcome.exceptMapError_eq_ok.1 ht)
    exact ⟨cells, mapM_eq_ok_iff.1 hc, hw, (Except.ok.inj h).symm⟩
  · rintro ⟨cells, hc, hw, rfl⟩
    have built : Series.ofIndex s.index cells = .ok ⟨none, s.index, cells⟩ :=
      Series.ofIndex_eq_ok_iff.2 ⟨rfl, hw⟩
    rw [mapM_eq_ok_iff.2 hc, Outcome.ok_bind, built]
    rfl

/-- Cells that are computed for the labels of a series make up a sound series. -/
theorem sound_compute {α : Type} {s : Series} (hs : P s.index) {f : α → Except TreeError Cell}
    {as : List α} (h : s.compute f as = .ok r) : r.Sound P := by
  obtain ⟨cells, -, hw, rfl⟩ := compute_eq_ok_iff.1 h
  exact ⟨hw, hs⟩

/-- Cells that are put under the labels of a series make up a sound series. -/
theorem sound_withCells {s t : Series} (hs : P s.index) {cells : List Cell}
    (h : (s.withCells cells).mapError TreeError.data = .ok t) : (series t).Sound P := by
  obtain ⟨rfl, hw⟩ := Series.withCells_eq_ok_iff.1 (Outcome.exceptMapError_eq_ok.1 h)
  exact ⟨hw, hs⟩

theorem sound_binary {op : BinaryOp} (hd : d.Sound P) (he : e.Sound P)
    (h : binary op d e = .ok r) : r.Sound P := by
  unfold binary at h
  split at h
  · obtain ⟨x, rfl⟩ := exists_scalar h
    trivial
  · exact sound_compute hd.labels h
  · exact sound_compute he.labels h
  · split at h
    · exact sound_compute hd.labels h
    · cases h
  · cases h

theorem sound_unary {op : UnaryOp} (hd : d.Sound P) (h : unary op d = .ok r) : r.Sound P := by
  unfold unary at h
  split at h
  · obtain ⟨x, rfl⟩ := exists_scalar h
    trivial
  · obtain ⟨cells, -, h⟩ := Outcome.bind_eq_ok.1 h
    obtain ⟨t, ht, h⟩ := Outcome.bind_eq_ok.1 h
    obtain rfl := Except.ok.inj h
    exact sound_withCells hd.labels ht
  · cases h

theorem sound_cast {target : Kind} (hd : d.Sound P) (h : d.cast target = .ok r) : r.Sound P := by
  unfold cast at h
  split at h
  · obtain ⟨x, rfl⟩ := exists_scalar h
    trivial
  · obtain ⟨cells, -, h⟩ := Outcome.bind_eq_ok.1 h
    obtain ⟨t, ht, h⟩ := Outcome.bind_eq_ok.1 h
    obtain rfl := Except.ok.inj h
    exact sound_withCells hd.labels ht
  · cases h

/-- Keys and series carry equal labels, so there is a key for every cell. -/
theorem sound_groupBy (hd : d.Sound P) (he : e.Sound P) (h : groupBy d e = .ok r) : r.Sound P := by
  unfold groupBy at h
  split at h
  · rename_i s k
    unfold GroupedSeries.ofSeries at h
    split at h
    · rename_i aligned
      obtain rfl : grouped ⟨k.cells, s⟩ = r := Except.ok.inj h
      exact ⟨hd.wellFormed.length_cells_eq he.wellFormed aligned, hd⟩
    · cases h
  · cases h
  · cases h

/-! ## Rows in their order -/

/-- The positions where a mask is true come in ascending order. -/
theorem truePositions_sublist (mask : List Cell) :
    (truePositions mask).Sublist (List.range mask.length) := by
  have whole : mask.zipIdx.map Prod.snd = List.range mask.length := by
    simp [List.zipIdx_map_snd, List.range_eq_range']
  rw [← whole]
  exact List.filter_sublist.map Prod.snd

theorem resolveBound_le (n : Nat) (bound : Int64) : resolveBound n bound ≤ n := by
  unfold resolveBound
  split <;> omega

/-- The positions between two bounds are among those of the rows. -/
theorem positionRange_sublist (n : Nat) (start stop : Option Int64) :
    (positionRange n start stop).Sublist (List.range n) := by
  unfold positionRange
  dsimp only
  generalize hf : (start.map (resolveBound n)).getD 0 = first
  generalize hl : (stop.map (resolveBound n)).getD n = last
  have first_le : first ≤ n := by
    rw [← hf]
    cases start <;> simp [resolveBound_le]
  have last_le : last ≤ n := by
    rw [← hl]
    cases stop <;> simp [resolveBound_le]
  have split := List.range'_append_1 (s := 0) (m := first) (n := n - first)
  rw [Nat.zero_add, Nat.add_sub_cancel' first_le, ← List.range_eq_range',
    ← List.range_eq_range'] at split
  rw [← split]
  exact (List.range'_sublist_right.2 (by omega)).trans (List.sublist_append_right _ _)

section

variable (hP : Heritable P)
include hP

/-- Rows that are there, taken in their order, make up sound data. -/
theorem takeRows_meets (hd : d.Sound P) {positions : List Nat}
    (hp : ∀ index, d.index? = some index → positions.Sublist (List.range index.length))
    (action : Action) : Outcome.Meets safe (Sound P) (d.takeRows action positions) := by
  have inside {index : List Cell} (h : d.index? = some index) : ∀ p ∈ positions, p < index.length :=
    fun p hpos => List.mem_range.1 ((hp index h).subset hpos)
  cases d with
  | series s =>
    obtain ⟨t, ht⟩ := Series.WellFormed.exists_take? hd.wellFormed (inside rfl)
    have labels := (Series.take?_eq_some_iff.1 ht).2.1.sublist (hp _ rfl)
    simp only [takeRows, ht, Outcome.ofOption, Except.map, Outcome.meets_ok]
    exact ⟨Series.WellFormed.take? ht, hP.sublist labels hd.labels⟩
  | frame t =>
    obtain ⟨u, hu⟩ := Table.exists_take? hd.wellFormed (inside rfl)
    have labels := (Table.take?_eq_some_iff.1 hu).1.sublist (hp _ rfl)
    simp only [takeRows, hu, Outcome.ofOption, Except.map, Outcome.meets_ok]
    exact ⟨hd.wellFormed.take? hu, hP.sublist labels hd.labels⟩
  | scalar | grouped | range => exact Outcome.meets_error _

theorem filter_meets (hd : d.Sound P) (he : e.Sound P) :
    Outcome.Meets safe (Sound P) (filter d e) := by
  unfold filter
  split
  · rename_i m
    split
    · exact Outcome.meets_error _
    · split
      · exact Outcome.meets_error _
      · rename_i index hi
        split
        · rename_i aligned
          refine takeRows_meets hP hd (fun labels hl => ?_) _
          obtain rfl : index = labels := Option.some.inj (hi.symm.trans hl)
          have rows : m.cells.length = index.length :=
            he.wellFormed.symm.trans (length_eq_of_beq aligned).symm
          rw [← rows]
          exact truePositions_sublist m.cells
        · exact Outcome.meets_error _
  · exact Outcome.meets_error _

/-- The rows of a slice are there, whatever the bounds are. -/
theorem slice_meets (hd : d.Sound P) (action : Action) :
    Outcome.Meets safe (Sound P) (slice action d e) := by
  unfold slice
  split
  · rename_i range
    refine takeRows_meets hP hd (fun index hi => ?_) _
    rw [hi, Option.getD_some, selected]
    split
    · exact List.filter_sublist
    · exact positionRange_sublist _ _ _
  · exact Outcome.meets_error _

end

/-! ## Looking up -/

theorem indexOfMax_meets (hd : d.Sound P) :
    Outcome.Meets safe (Sound P) (indexOfMax d) := by
  unfold indexOfMax
  split
  · rename_i s
    obtain ⟨label, h⟩ := Series.WellFormed.exists_labelOfMax? hd.wellFormed
    rw [h]
    trivial
  · exact Outcome.meets_error _

theorem atIndex_meets (hd : d.Sound P) : Outcome.Meets safe (Sound P) (atIndex d e) := by
  unfold atIndex
  split
  · rename_i key
    split
    · rename_i s
      split
      · trivial
      · obtain ⟨cell, h⟩ := Series.WellFormed.exists_get? hd.wellFormed key
        rw [h]
        trivial
    · exact Outcome.meets_error _
  · exact Outcome.meets_error _

end Datum

end SpanJoin
