import Mathlib.Data.List.Range
import SpanJoin.Proofs.Outcome
import SpanJoin.Proofs.Table.Columns

/-!
# Well-formed series

A series is well-formed if it has as many labels as cells; the functions that build one see to it
(`ofIndex_eq_ok_iff`, `withCells_eq_ok_iff`). Looking up a label or the greatest cell then never
leads to a missing position (`WellFormed.exists_get?`, `WellFormed.exists_labelOfMax?`), and rows
that are there can be taken (`WellFormed.exists_take?`). If they are taken in their order, their
labels are part of the labels of the series (`Table.Picks.sublist`).
-/

namespace SpanJoin

/-- Lists that are equal by some test are equally long. -/
theorem length_eq_of_beq {α : Type} [BEq α] {as bs : List α} (h : (as == bs) = true) :
    as.length = bs.length := by
  induction as generalizing bs with
  | nil => cases bs <;> simp_all
  | cons a as ih =>
    cases bs with
    | nil => cases h
    | cons b bs =>
      rw [List.cons_beq_cons, Bool.and_eq_true] at h
      rw [List.length_cons, List.length_cons, ih h.2]

/-- All positions pick all cells. -/
theorem Table.picks_range (cells : List Cell) :
    Table.Picks cells (List.range cells.length) cells :=
  forall₂_of_getElem? (by simp) fun i p x hi hx => by
    obtain ⟨-, rfl⟩ := List.getElem?_eq_some_iff.1 hi
    simpa using hx

/-- Elements that are picked from a list in its order are part of it. -/
theorem Table.Picks.sublist {cells picked : List Cell} {positions : List Nat}
    (h : Table.Picks cells positions picked)
    (hp : positions.Sublist (List.range cells.length)) : picked.Sublist cells := by
  obtain ⟨part, hpart, picks⟩ := exists_sublist_of_forall₂ hp (Table.picks_range cells)
  rwa [h.unique picks]

/-- A row that is there has a cell in every column. -/
theorem Table.WellFormed.get_meets {t : Table} (ht : t.WellFormed) {position : Nat}
    (hp : position < t.rows) {safe : Prop} (name : String) :
    Outcome.Meets safe (fun _ => True) ((⟨t, position⟩ : Table.Row).get name) := by
  unfold Table.Row.get
  refine (Outcome.meets_ofExcept_eq _).bind fun cells h => ?_
  rw [← ht.length_column h] at hp
  exact Outcome.meets_ofOption ⟨_, List.getElem?_eq_getElem hp, trivial⟩

namespace Series

variable {s t : Series}

/-- There are as many labels as cells. -/
def WellFormed (s : Series) : Prop := s.index.length = s.cells.length

/-- A series is built exactly if there are as many labels as cells. -/
theorem ofIndex_eq_ok_iff {index cells : List Cell} :
    ofIndex index cells = .ok s ↔ s = ⟨none, index, cells⟩ ∧ s.WellFormed := by
  rw [ofIndex]
  split
  · rename_i h
    constructor
    · intro e
      obtain rfl : (⟨none, index, cells⟩ : Series) = s := Except.ok.inj e
      exact ⟨rfl, h⟩
    · rintro ⟨rfl, -⟩
      rfl
  · rename_i h
    refine ⟨nofun, ?_⟩
    rintro ⟨rfl, hw⟩
    exact absurd hw h

/-- Other cells are put under the labels exactly if there are as many. -/
theorem withCells_eq_ok_iff {cells : List Cell} :
    s.withCells cells = .ok t ↔ t = { s with cells } ∧ t.WellFormed := by
  rw [withCells]
  cases h : ofIndex s.index cells with
  | ok u =>
    obtain ⟨rfl, hu⟩ := ofIndex_eq_ok_iff.1 h
    constructor
    · intro e
      obtain rfl := Except.ok.inj e
      exact ⟨rfl, hu⟩
    · rintro ⟨rfl, -⟩
      rfl
  | error e =>
    refine ⟨nofun, ?_⟩
    rintro ⟨rfl, hw⟩
    rw [ofIndex_eq_ok_iff.2 ⟨rfl, hw⟩] at h
    cases h

/-- Series with equal labels have equally many cells. -/
theorem WellFormed.length_cells_eq (hs : s.WellFormed) (ht : t.WellFormed)
    (aligned : s.alignedWith t = true) : t.cells.length = s.cells.length :=
  calc t.cells.length = t.index.length := ht.symm
    _ = s.index.length := (length_eq_of_beq aligned).symm
    _ = s.cells.length := hs

/-! ## Taken rows -/

theorem take?_eq_some_iff {positions : List Nat} : s.take? positions = some t ↔
    t.name = s.name ∧ Table.Picks s.index positions t.index ∧
      Table.Picks s.cells positions t.cells := by
  simp only [take?, Option.bind_eq_bind, Option.bind_eq_some_iff, mapM_eq_some_iff, Option.pure_def,
    Option.some.injEq]
  constructor
  · rintro ⟨index, hi, cells, hc, rfl⟩
    exact ⟨rfl, hi, hc⟩
  · rintro ⟨hn, hi, hc⟩
    exact ⟨t.index, hi, t.cells, hc, by rw [← hn]⟩

namespace WellFormed

theorem take? (h : s.take? positions = some t) : t.WellFormed := by
  obtain ⟨-, hi, hc⟩ := take?_eq_some_iff.1 h
  exact hi.length_eq.symm.trans hc.length_eq

/-- Rows that are there can be taken. -/
theorem exists_take? (hs : s.WellFormed) {positions : List Nat}
    (h : ∀ p ∈ positions, p < s.index.length) : ∃ t, s.take? positions = some t := by
  obtain ⟨index, hi⟩ := Table.exists_picks h
  obtain ⟨cells, hc⟩ := Table.exists_picks (show ∀ p ∈ positions, p < s.cells.length from hs ▸ h)
  exact ⟨⟨s.name, index, cells⟩, take?_eq_some_iff.2 ⟨rfl, hi, hc⟩⟩

/-! ## Looking up -/

/-- Every label has a cell. -/
theorem exists_get? {ε : Type} (hs : s.WellFormed) (label : Cell) :
    ∃ cell, (s.get? label : Outcome ε (Option Cell)) = .ok cell := by
  rw [get?]
  cases h : s.index.findIdx? fun l => l.sameLabel label with
  | none => exact ⟨none, rfl⟩
  | some p =>
    obtain ⟨hp, -⟩ := List.findIdx?_eq_some_iff_findIdx_eq.1 h
    rw [hs] at hp
    exact ⟨some s.cells[p], by simp only [List.getElem?_eq_getElem hp]; rfl⟩

/-- The best cell so far stands at its position. -/
theorem greaterCell_foldl {cells : List Cell} {rows : List (Cell × Nat)}
    (hr : ∀ r ∈ rows, cells[r.2]? = some r.1) {start best : Option (Cell × Nat)}
    (hs : ∀ b ∈ start, cells[b.2]? = some b.1) (h : rows.foldl greaterCell start = best) :
    ∀ b ∈ best, cells[b.2]? = some b.1 := by
  induction rows generalizing start with
  | nil => exact h ▸ hs
  | cons r rows ih =>
    refine ih (fun q hq => hr q (List.mem_cons_of_mem r hq)) ?_ h
    have here := hr r List.mem_cons_self
    unfold greaterCell
    split
    · exact hs
    · split
      · simpa using here
      · split
        · simpa using here
        · exact hs

/-- The greatest cell has a label. -/
theorem exists_labelOfMax? {ε : Type} (hs : s.WellFormed) :
    ∃ label, (s.labelOfMax? : Outcome ε (Option Cell)) = .ok label := by
  rw [labelOfMax?]
  cases h : s.cells.zipIdx.foldl greaterCell none with
  | none => exact ⟨none, rfl⟩
  | some best =>
    have rows : ∀ r ∈ s.cells.zipIdx, s.cells[r.2]? = some r.1 := fun r hr => by
      simpa using List.mem_zipIdx_iff_getElem?.1 hr
    obtain ⟨hp, -⟩ := List.getElem?_eq_some_iff.1
      (greaterCell_foldl rows (by simp) h best rfl)
    rw [← hs] at hp
    exact ⟨some s.index[best.2], by simp only [List.getElem?_eq_getElem hp]; rfl⟩

end WellFormed

end Series

/-- A column is read as a series exactly if it is as long as the index. -/
theorem Table.series_eq_ok_iff {t : Table} {name : String} {s : Series} :
    t.series name = .ok s ↔
      ∃ cells, t.column name = .ok cells ∧ s = ⟨some name, t.index, cells⟩ ∧ s.WellFormed := by
  unfold Table.series
  constructor
  · intro h
    obtain ⟨cells, hc, h⟩ := Outcome.bind_eq_ok.1 h
    obtain ⟨u, hu, h⟩ := Outcome.bind_eq_ok.1 h
    obtain ⟨rfl, hw⟩ := Series.ofIndex_eq_ok_iff.1 hu
    obtain rfl := Except.ok.inj h
    exact ⟨cells, hc, rfl, hw⟩
  · rintro ⟨cells, hc, rfl, hw⟩
    have built : Series.ofIndex t.index cells = .ok ⟨none, t.index, cells⟩ :=
      Series.ofIndex_eq_ok_iff.2 ⟨rfl, hw⟩
    rw [hc, Outcome.ok_bind, built]
    rfl

end SpanJoin
