import SpanJoin.Proofs.Cell.Numbers
import SpanJoin.Proofs.Datum.Sound
import SpanJoin.Proofs.Int64

/-!
# Slices

A range selects rows by their positions. If it counts rows, these are the positions from the row
that its start means up to but not including the row that its end means, whatever the bounds are:
each of them may be absent, negative, beyond the rows or after the other
(`enumerates_positionRange`). The position that a bound means is computed without overflow in 64-bit
words, as long as there are fewer than `2 ^ 63` rows (`toInt_add_of_neg`, `toNat_wordBound`). If a
range goes by labels, it selects the positions of the labels that come out as at least its start and
at most its end, so a label that does not compare with a bound is left out
(`enumerates_labelRange`).

Cut at any bound, the rows of a series or frame fall into two parts that make up the whole
(`Datum.exists_slices`). All of it is put together in `ranges_select`.
-/

namespace SpanJoin

/-! ## Lists of positions -/

/-- The positions are those with the property, each once and in ascending order. -/
structure Enumerates (positions : List ℕ) (P : ℕ → Prop) : Prop where
  ascending : positions.Pairwise (· < ·)
  mem_iff : ∀ i, i ∈ positions ↔ P i

theorem enumerates_range (n : ℕ) : Enumerates (List.range n) (· < n) :=
  ⟨List.pairwise_lt_range, fun _ => List.mem_range⟩

/-- The property and the order leave no choice. -/
theorem Enumerates.unique {ps qs : List ℕ} {P : ℕ → Prop} (hp : Enumerates ps P)
    (hq : Enumerates qs P) : ps = qs :=
  hp.ascending.eq_of_mem_iff hq.ascending fun i => (hp.mem_iff i).trans (hq.mem_iff i).symm

/-! ## Bounds by position -/

/-- The row that a bound means among `n` rows: a negative bound counts from the end, but not beyond
the first row. -/
def boundRow (n : ℕ) (bound : Int64) : ℤ :=
  if bound.toInt < 0 then max 0 (n + bound.toInt) else bound.toInt

theorem resolveBound_eq (n : ℕ) (bound : Int64) :
    (resolveBound n bound : ℤ) = min (boundRow n bound) n := by
  unfold resolveBound boundRow
  split <;> omega

/-- The position of a bound, computed in words of 64 bits that are read as signed where they have to
be. -/
def wordBound (n : UInt64) (bound : Int64) : UInt64 :=
  if bound < 0 then (max (n.toInt64 + bound) 0).toUInt64 else min bound.toUInt64 n

theorem toInt_max_zero (m : Int64) : (max m 0).toInt = max m.toInt 0 := by
  have zero : (0 : Int64).toInt = 0 := rfl
  change (if m ≤ 0 then 0 else m).toInt = _
  split
  · rename_i h
    rw [Int64.le_iff_toInt_le, zero] at h
    rw [zero, Int.max_eq_right h]
  · rename_i h
    rw [Int64.le_iff_toInt_le, zero, not_le] at h
    rw [Int.max_eq_left h.le]

section

variable {n : UInt64} (hn : n.toNat < 2 ^ 63) {bound : Int64}
include hn

theorem toInt_toInt64 : n.toInt64.toInt = n.toNat := by
  rw [← UInt64.ofNat_toNat (x := n), UInt64.toInt64_ofNat', Int64.toInt_ofNat_of_lt hn,
    UInt64.ofNat_toNat]

/-- The number of rows and a negative bound have a sum in the range. -/
theorem toInt_add_of_neg (hb : bound.toInt < 0) :
    (n.toInt64 + bound).toInt = n.toNat + bound.toInt := by
  have low := bound.le_toInt
  rw [Int64.toInt_add, toInt_toInt64 hn]
  exact Int.bmod_eq_of_le (by omega) (by omega)

/-- No step of the computation in words leaves the range. -/
theorem toNat_wordBound : (wordBound n bound).toNat = resolveBound n.toNat bound := by
  have negative : bound < 0 ↔ bound.toInt < 0 := Int64.lt_iff_toInt_lt
  have toNat {m : Int64} (hm : 0 ≤ m.toInt) : m.toUInt64.toNat = m.toInt.toNat := by
    rw [Int64.toNat_toUInt64_of_le (Int64.le_iff_toInt_le.2 hm), Int64.toNat_toInt]
  unfold wordBound resolveBound
  simp only [negative]
  split
  · rename_i hb
    have sum := toInt_max_zero (n.toInt64 + bound)
    rw [toInt_add_of_neg hn hb] at sum
    rw [toNat (sum ▸ le_max_right _ _), sum]
    omega
  · rename_i hb
    rw [UInt64.toNat_min, toNat (not_lt.1 hb)]

end

/-! ## Ranges by position -/

/-- A range by position selects the rows from its start up to but not including its end. -/
theorem enumerates_positionRange (n : ℕ) (start stop : Option Int64) :
    Enumerates (positionRange n start stop) fun i =>
      i < n ∧ start.elim 0 (boundRow n) ≤ i ∧ i < stop.elim (n : ℤ) (boundRow n) := by
  have first : ((start.map (resolveBound n)).getD 0 : ℤ) = min (start.elim 0 (boundRow n)) n := by
    cases start with
    | none => simp
    | some b => exact resolveBound_eq n b
  have last : ((stop.map (resolveBound n)).getD n : ℤ) =
      min (stop.elim (n : ℤ) (boundRow n)) n := by
    cases stop with
    | none => simp
    | some b => exact resolveBound_eq n b
  refine ⟨List.pairwise_lt_range' 1, fun i => ?_⟩
  rw [positionRange, List.mem_range'_1]
  omega

/-- The rows before a bound and those from it on are all rows. -/
theorem positionRange_append (n : ℕ) (bound : Int64) :
    positionRange n none (some bound) ++ positionRange n (some bound) none = List.range n := by
  have before := enumerates_positionRange n none (some bound)
  have after := enumerates_positionRange n (some bound) none
  simp only [Option.elim_none, Option.elim_some] at before after
  refine Enumerates.unique ⟨?_, fun i => ?_⟩ (enumerates_range n)
  · refine List.pairwise_append.2 ⟨before.ascending, after.ascending, fun i hi j hj => ?_⟩
    rw [before.mem_iff] at hi
    rw [after.mem_iff] at hj
    omega
  · rw [List.mem_append, before.mem_iff, after.mem_iff]
    omega

/-! ## Ranges by label -/

namespace Cell

/-- The first cell comes out as at least the second one. -/
def AtLeast (a b : Cell) : Prop := a.compare? b = some .gt ∨ a.compare? b = some .eq

theorem reaches_iff {label : Cell} {bound : Int64} :
    label.reaches bound = true ↔ label.AtLeast (.int bound) := by
  unfold reaches AtLeast
  split <;> simp_all

theorem within_iff {label : Cell} {bound : Int64} :
    label.within bound = true ↔ label.AtMost (.int bound) := by
  unfold within AtMost
  split <;> simp_all

end Cell

/-- A range by label selects the labels from its start to its end. -/
theorem enumerates_labelRange (index : List Cell) (start stop : Option Int64) :
    Enumerates (labelRange index start stop) fun i => ∃ label, index[i]? = some label ∧
      (∀ b ∈ start, label.AtLeast (.int b)) ∧ ∀ b ∈ stop, label.AtMost (.int b) := by
  refine ⟨List.pairwise_lt_range.sublist List.filter_sublist, fun i => ?_⟩
  simp only [labelRange, List.mem_filter, List.mem_range]
  cases h : index[i]? with
  | none => simp
  | some label =>
    obtain ⟨inside, -⟩ := List.getElem?_eq_some_iff.1 h
    have after : start.all label.reaches = true ↔ ∀ b ∈ start, label.AtLeast (.int b) := by
      simp only [Option.all_eq_true, Cell.reaches_iff, Option.mem_def]
    have before : stop.all label.within = true ↔ ∀ b ∈ stop, label.AtMost (.int b) := by
      simp only [Option.all_eq_true, Cell.within_iff, Option.mem_def]
    simp [inside, after, before]

/-! ## Rows that are cut in two -/

namespace Table

/-- Two parts that take up all positions make up the cells. -/
theorem Picks.append_eq {cells xs ys : List Cell} {ps qs : List ℕ} (hx : Picks cells ps xs)
    (hy : Picks cells qs ys) (all : ps ++ qs = List.range cells.length) : xs ++ ys = cells := by
  have both : Picks cells (ps ++ qs) (xs ++ ys) := List.rel_append hx hy
  rw [all] at both
  exact both.unique (picks_range cells)

/-- The rows of a table followed by those of another one, column by column. -/
def followedBy (t u : Table) : Table :=
  ⟨t.index ++ u.index, List.zipWith (fun c d => ⟨c.name, c.cells ++ d.cells⟩) t.columns u.columns⟩

theorem followedBy_eq {t u v : Table} (ht : t.WellFormed) {ps qs : List ℕ}
    (hu : t.take? ps = some u) (hv : t.take? qs = some v)
    (all : ps ++ qs = List.range t.rows) : u.followedBy v = t := by
  obtain ⟨ui, uc⟩ := take?_eq_some_iff.1 hu
  obtain ⟨vi, vc⟩ := take?_eq_some_iff.1 hv
  have columns {cs us vs : List Column} (lengths : ∀ c ∈ cs, c.cells.length = t.rows)
      (hus : List.Forall₂ (fun c d => d.name = c.name ∧ Picks c.cells ps d.cells) cs us)
      (hvs : List.Forall₂ (fun c d => d.name = c.name ∧ Picks c.cells qs d.cells) cs vs) :
      List.zipWith (fun c d => (⟨c.name, c.cells ++ d.cells⟩ : Column)) us vs = cs := by
    induction hus generalizing vs with
    | nil => rfl
    | @cons c d cs us hcd _ ih =>
      cases hvs with
      | cons hce hvs =>
        have here := hcd.2.append_eq hce.2 (by rw [all, lengths c List.mem_cons_self])
        rw [List.zipWith_cons_cons, ih (fun c hc => lengths c (List.mem_cons_of_mem _ hc)) hvs,
          hcd.1, here]
  rw [followedBy, ui.append_eq vi all, columns ht.lengths uc vc]

end Table

/-- The rows of a series followed by those of another one. -/
def Series.followedBy (s t : Series) : Series := ⟨s.name, s.index ++ t.index, s.cells ++ t.cells⟩

theorem Series.followedBy_eq {s u v : Series} (hs : s.WellFormed) {ps qs : List ℕ}
    (hu : s.take? ps = some u) (hv : s.take? qs = some v)
    (all : ps ++ qs = List.range s.index.length) : u.followedBy v = s := by
  obtain ⟨name, ui, uc⟩ := take?_eq_some_iff.1 hu
  obtain ⟨-, vi, vc⟩ := take?_eq_some_iff.1 hv
  rw [followedBy, ui.append_eq vi all, uc.append_eq vc (by rw [all, hs]), name]

namespace Datum

/-- The rows of a series or frame followed by those of another one. -/
def followedBy : Datum → Datum → Option Datum
  | series s, series t => some (series (s.followedBy t))
  | frame t, frame u => some (frame (t.followedBy u))
  | _, _ => none

theorem slice_of_index? {d : Datum} {index : List Cell} (hi : d.index? = some index)
    (action : Action) (r : RowRange) :
    slice action d (range r) = d.takeRows action (selected r index) := by
  rw [slice, hi, Option.getD_some]

/-- The slice of a series or frame up to a bound and the one from it on have all rows once. -/
theorem exists_slices {d : Datum} (hd : d.Sound fun _ => True) {index : List Cell}
    (hi : d.index? = some index) (action : Action) (bound : Int64) :
    ∃ before after, slice action d (range ⟨.position, none, some bound⟩) = .ok before ∧
      slice action d (range ⟨.position, some bound, none⟩) = .ok after ∧
      before.followedBy after = some d := by
  have all := positionRange_append index.length bound
  have inside (start stop : Option Int64) :
      ∀ p ∈ positionRange index.length start stop, p < index.length := fun p hp =>
    List.mem_range.1 ((positionRange_sublist index.length start stop).subset hp)
  rw [slice_of_index? hi, slice_of_index? hi]
  cases d with
  | series s =>
    obtain rfl := Option.some.inj hi
    obtain ⟨u, hu⟩ := Series.WellFormed.exists_take? hd.wellFormed (inside none (some bound))
    obtain ⟨v, hv⟩ := Series.WellFormed.exists_take? hd.wellFormed (inside (some bound) none)
    have taken {ps : List ℕ} {t : Series} (h : s.take? ps = some t) :
        takeRows action ps (series s) = .ok (series t) := by
      simp only [takeRows, h, Outcome.ofOption, Except.map]
    refine ⟨series u, series v, taken hu, taken hv, ?_⟩
    rw [followedBy, Series.followedBy_eq hd.wellFormed hu hv all]
  | frame t =>
    obtain rfl := Option.some.inj hi
    obtain ⟨u, hu⟩ := Table.exists_take? hd.wellFormed (inside none (some bound))
    obtain ⟨v, hv⟩ := Table.exists_take? hd.wellFormed (inside (some bound) none)
    have taken {ps : List ℕ} {w : Table} (h : t.take? ps = some w) :
        takeRows action ps (frame t) = .ok (frame w) := by
      simp only [takeRows, h, Outcome.ofOption, Except.map]
    refine ⟨frame u, frame v, taken hu, taken hv, ?_⟩
    rw [followedBy, Table.followedBy_eq hd.wellFormed hu hv all]
  | scalar | grouped | range => cases hi

end Datum

/-! ## Ranges of rows -/

/-- **Ranges select the right rows.** By position these are the rows from the start up to but not
including the end, for any two bounds; what the bounds mean is computed in 64-bit words without
overflow; and of the rows up to a bound and those from it on each row is one, as positions and as
slices of series and frames. By label they are the rows whose labels come out as at least the start
and at most the end, and no row whose label does not compare with one of them. -/
theorem ranges_select :
    (∀ (n : ℕ) (start stop : Option Int64), Enumerates (positionRange n start stop) fun i =>
      i < n ∧ start.elim 0 (boundRow n) ≤ i ∧ i < stop.elim (n : ℤ) (boundRow n)) ∧
    (∀ (n : UInt64) (bound : Int64), n.toNat < 2 ^ 63 →
      (bound.toInt < 0 → (n.toInt64 + bound).toInt = n.toNat + bound.toInt) ∧
        (wordBound n bound).toNat = resolveBound n.toNat bound) ∧
    (∀ (n : ℕ) (bound : Int64),
      positionRange n none (some bound) ++ positionRange n (some bound) none = List.range n) ∧
    (∀ d : Datum, (d.Sound fun _ => True) → ∀ index, d.index? = some index →
      ∀ action bound, ∃ before after,
        Datum.slice action d (.range ⟨.position, none, some bound⟩) = .ok before ∧
        Datum.slice action d (.range ⟨.position, some bound, none⟩) = .ok after ∧
        before.followedBy after = some d) ∧
    (∀ (index : List Cell) (start stop : Option Int64),
      Enumerates (labelRange index start stop) fun i => ∃ label, index[i]? = some label ∧
        (∀ b ∈ start, label.AtLeast (.int b)) ∧ ∀ b ∈ stop, label.AtMost (.int b)) ∧
    ∀ (index : List Cell) (start stop : Option Int64) (i : ℕ) (label : Cell) (b : Int64),
      index[i]? = some label → b ∈ start ∨ b ∈ stop → label.compare? (.int b) = none →
        i ∉ labelRange index start stop := by
  refine ⟨enumerates_positionRange, fun n bound hn => ⟨toInt_add_of_neg hn, toNat_wordBound hn⟩,
    positionRange_append, fun d hd index hi => Datum.exists_slices hd hi, enumerates_labelRange, ?_⟩
  intro index start stop i label b hi hb apart selected
  have chosen := enumerates_labelRange index start stop
  obtain ⟨found, hf, after, before⟩ := (chosen.mem_iff i).1 selected
  obtain rfl := Option.some.inj (hf.symm.trans hi)
  rcases hb with hb | hb
  · have := after b hb
    simp [Cell.AtLeast, apart] at this
  · have := before b hb
    simp [Cell.AtMost, apart] at this

/-- A series with labels of three kinds. -/
def mixedMarks : Series :=
  ⟨some "mark", [.int 3, .text "5", .float 5, .null, .int 8],
    [.int 1, .int 2, .int 3, .int 4, .int 5]⟩

/-- Its rows from the least bound on up to the last two, cut at the same place, and its labels from
4 to 8, of which the text "5" is none. -/
theorem ranges_select_mixedMarks :
    (5 : UInt64).toNat < 2 ^ 63 ∧ Int64.minValue.toInt < 0 ∧
    ((5 : UInt64).toInt64 + Int64.minValue).toInt = 5 + Int64.minValue.toInt ∧
    (Enumerates [0, 1, 2] fun i => i < 5 ∧ boundRow 5 Int64.minValue ≤ i ∧ i < boundRow 5 (-2)) ∧
    ((Datum.series mixedMarks).Sound fun _ => True) ∧
    (∃ before after,
      Datum.slice .sliceInteger (.series mixedMarks) (.range ⟨.position, none, some (-2)⟩) =
        .ok before ∧
      Datum.slice .sliceInteger (.series mixedMarks) (.range ⟨.position, some (-2), none⟩) =
        .ok after ∧
      before.followedBy after = some (.series mixedMarks)) ∧
    (Cell.text "5").compare? (.int 4) = none ∧
    1 ∉ labelRange mixedMarks.index (some 4) (some 8) ∧
    labelRange mixedMarks.index (some 4) (some 8) = [2, 4] := by
  obtain ⟨positions, words, -, slices, -, labels⟩ := ranges_select
  have sound : (Datum.series mixedMarks).Sound fun _ => True := ⟨rfl, trivial⟩
  exact ⟨by decide, by decide, (words 5 Int64.minValue (by decide)).1 (by decide),
    positions 5 (some Int64.minValue) (some (-2)), sound,
    slices _ sound _ rfl .sliceInteger (-2), rfl,
    labels mixedMarks.index (some 4) (some 8) 1 (.text "5") 4 rfl (.inl rfl) rfl, by decide⟩

end SpanJoin
