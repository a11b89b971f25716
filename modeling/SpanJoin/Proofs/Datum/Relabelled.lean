import SpanJoin.Datum.Stack
import SpanJoin.Proofs.Collection.Sorted
import SpanJoin.Proofs.Datum.Sound

/-!
# Labels that operations make

Three operations do not take over the labels of their operands. The total of a grouped series has
the keys of the groups as labels, the total of a frame the names of the columns, and columns side by
side the labels of all parts, each once. In all three cases the labels are apart, whatever those of
the operands are like: keys by the way groups are collected (`KeyedRows.kept_collect`), names
because they differ, and labels of parts by the way they are collected (`Part.apart_labels`).
-/

namespace SpanJoin

/-! ## Groups -/

namespace KeyedRows

/-- The keys of the groups are apart, and all positions in them are below `n`. -/
structure Kept (n : Nat) (groups : List KeyedRows) : Prop where
  apart : Cell.Apart (groups.map key)
  positions : ∀ g ∈ groups, ∀ p ∈ g.positions, p < n

variable {n : Nat} {groups : List KeyedRows}

theorem Kept.add (h : Kept n groups) (key : Cell) {position : Nat} (hp : position < n) :
    Kept n (add key position groups) where
  apart := by
    have keys : (KeyedRows.add key position groups).map KeyedRows.key =
        if groups.any (fun g => g.key.sameLabel key) then groups.map KeyedRows.key
        else groups.map KeyedRows.key ++ [key] := map_upsert groups fun _ _ _ => rfl
    rw [keys]
    split
    · exact h.apart
    · rename_i none
      refine Cell.apart_append_singleton.2 ⟨h.apart, fun k hk => ?_⟩
      obtain ⟨g, hg, rfl⟩ := List.mem_map.1 hk
      simp only [List.any_eq_true, not_exists, not_and, Bool.not_eq_true] at none
      exact none g hg
  positions g hg p hpos := by
    unfold KeyedRows.add at hg
    rcases upsert_cases (fun g => g.key.sameLabel key)
        (fun g => { g with positions := g.positions ++ [position] }) ⟨key, [position]⟩ groups with
      ⟨-, e⟩ | ⟨before, h', after, rfl, -, -, e⟩
    · rw [e] at hg
      rcases List.mem_append.1 hg with hg | hg
      · exact h.positions g hg p hpos
      · obtain rfl := List.mem_singleton.1 hg
        rwa [List.mem_singleton.1 hpos]
    · rw [e] at hg
      rcases List.mem_append.1 hg with hg | hg
      · exact h.positions g (List.mem_append_left _ hg) p hpos
      · rcases List.mem_cons.1 hg with rfl | hg
        · rcases List.mem_append.1 hpos with hpos | hpos
          · exact h.positions h' (by simp) p hpos
          · rwa [List.mem_singleton.1 hpos]
        · exact h.positions g (by simp [hg]) p hpos

theorem kept_foldl {rows : List (Cell × Nat)} (hr : ∀ r ∈ rows, r.2 < n) (h : Kept n groups) :
    Kept n (rows.foldl
      (fun groups row => if row.1.isMissing then groups else KeyedRows.add row.1 row.2 groups)
      groups) := by
  induction rows generalizing groups with
  | nil => exact h
  | cons r rows ih =>
    refine ih (fun q hq => hr q (List.mem_cons_of_mem r hq)) ?_
    dsimp only
    split
    · exact h
    · exact h.add r.1 (hr r List.mem_cons_self)

theorem kept_collect (keys : List Cell) : Kept keys.length (collect keys) := by
  refine kept_foldl (fun r hr => ?_) ⟨.nil, by simp⟩
  have := List.mem_zipIdx_iff_getElem?.1 hr
  exact (List.getElem?_eq_some_iff.1 this).1

end KeyedRows

/-- The groups stay the same when they are sorted. -/
theorem GroupedSeries.kept_groups (g : GroupedSeries) :
    KeyedRows.Kept g.keys.length g.groups where
  apart := (KeyedRows.kept_collect g.keys).apart.perm ((sortBy_perm _).map _).symm
  positions h hh := (KeyedRows.kept_collect g.keys).positions h ((sortBy_perm _).subset hh)

/-! ## Totals -/

namespace Datum

variable {P : List Cell → Prop} {safe : Prop} {d : Datum}

/-- Labels that are apart make up a sound series with any cells, if there are as many. -/
theorem sound_ofIndex (hP : Heritable P) {index cells : List Cell} (hi : Cell.Apart index)
    {s : Series} (h : (Series.ofIndex index cells).mapError TreeError.data = .ok s) :
    s.Sound P := by
  obtain ⟨rfl, hw⟩ := Series.ofIndex_eq_ok_iff.1 (Outcome.exceptMapError_eq_ok.1 h)
  exact ⟨hw, hP.apart hi⟩

/-- The cells of a group are there. -/
theorem groupTotal_meets {cells : List Cell} {g : KeyedRows}
    (h : ∀ p ∈ g.positions, p < cells.length) :
    Outcome.Meets safe (fun _ => True) (groupTotal cells g) := by
  unfold groupTotal
  obtain ⟨chosen, hc⟩ := Table.exists_picks h
  refine (Outcome.meets_ofOption (Q := fun _ => True)
    ⟨chosen, mapM_eq_some_iff.2 hc, trivial⟩).bind fun _ _ => ?_
  exact Outcome.meets_ofExcept.2 fun _ _ => trivial

theorem sum_meets (hP : Heritable P) (hd : d.Sound P) : Outcome.Meets safe (Sound P) (sum d) := by
  unfold sum
  split
  · refine Outcome.meets_ofExcept.2 fun r hr => ?_
    obtain ⟨x, rfl⟩ := exists_scalar hr
    trivial
  · rename_i g
    have kept := g.kept_groups
    have totals : ∀ h ∈ g.groups,
        Outcome.Meets safe (fun _ => True) (groupTotal g.series.cells h) := by
      intro h hh
      refine groupTotal_meets fun p hp => ?_
      rw [← hd.keys]
      exact kept.positions h hh p hp
    refine (Outcome.meets_mapM totals).bind fun cells _ => ?_
    refine (Outcome.meets_ofExcept.2 fun s hs => sound_ofIndex hP kept.apart hs).bind fun s hs => ?_
    exact ⟨hs.wellFormed, hs.labels⟩
  · rename_i t
    refine (Outcome.meets_ofExcept_eq _).bind fun cells _ => ?_
    have names : Cell.Apart (t.columns.map fun c => .text c.name) := by
      simpa [Table.names, Function.comp_def] using Cell.apart_texts hd.wellFormed.names
    exact (Outcome.meets_ofExcept.2 fun s hs => sound_ofIndex hP names hs).bind fun s hs => hs
  · exact Outcome.meets_error _

end Datum

/-! ## Columns side by side -/

namespace Part

variable {P : List Cell → Prop} {safe : Prop}

theorem apart_foldl {labels more : List Cell} (h : Cell.Apart labels) :
    Cell.Apart (more.foldl addLabel labels) := by
  induction more generalizing labels with
  | nil => exact h
  | cons label more ih =>
    apply ih
    unfold addLabel
    split
    · exact h
    · rename_i none
      simp only [List.any_eq_true, not_exists, not_and, Bool.not_eq_true] at none
      exact Cell.apart_append_singleton.2 ⟨h, none⟩

/-- The labels of all parts are apart. -/
theorem apart_labels (parts : List Part) : Cell.Apart (labels parts) := apart_foldl .nil

/-- Every row of a part has a cell. -/
theorem column_meets {p : Part} (hp : p.series.WellFormed) (index : List Cell) :
    Outcome.Meets safe (fun _ => True) (p.column index) := by
  unfold column
  refine (Outcome.meets_mapM (S := fun _ _ => True) fun label _ => ?_).map fun _ _ => trivial
  obtain ⟨cell, h⟩ := Series.WellFormed.exists_get? hp label
  rw [h]
  trivial

/-- Well-formed parts make up a sound frame. -/
theorem stack_meets (hP : Heritable P) {parts : List Part} (h : ∀ p ∈ parts, p.series.WellFormed) :
    Outcome.Meets safe (Datum.Sound P) (stack parts) := by
  unfold stack
  dsimp only
  refine (Outcome.meets_mapM fun p hp => column_meets (h p hp) (labels parts)).bind fun cs _ => ?_
  refine (Outcome.meets_ofExcept.2 fun t ht => ?_).bind fun t ht => ht
  obtain ⟨rfl, hw⟩ := Table.ofIndex_eq_ok_iff.1 (Outcome.exceptMapError_eq_ok.1 ht)
  exact ⟨hw, hP.apart (apart_labels parts)⟩

/-- The columns of a frame are well-formed parts. -/
theorem wellFormed_of_ofTable {t : Table} {parts : List Part} (h : ofTable t = .ok parts) :
    ∀ p ∈ parts, p.series.WellFormed := by
  unfold ofTable at h
  intro p hp
  obtain ⟨c, -, hc⟩ :=
    exists_mem_of_forall₂_right (mapM_eq_ok_iff.1 (Outcome.exceptMapError_eq_ok.1 h)) hp
  obtain ⟨s, hs, hc⟩ := Outcome.bind_eq_ok.1 hc
  obtain rfl := Except.ok.inj hc
  exact (Series.ofIndex_eq_ok_iff.1 hs).2

end Part

end SpanJoin
