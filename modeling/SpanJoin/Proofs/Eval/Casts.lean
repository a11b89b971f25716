import SpanJoin.Proofs.Cell.Casting
import SpanJoin.Proofs.Eval.Masks

/-!
# Casts of scalars and series

A cast works cell by cell and keeps labels and name (`Datum.cellwise_of_cast`), and it is refused if
one of the cells is (`Datum.exists_castFailed`). So what holds of the casts of cells holds of those
of data: without texts that spell out that they are not a number, a cast keeps what is missing, and
to cast again changes nothing (`Datum.cast_stable`); and without floating-point numbers beyond the
signed 64-bit range, a cast to `int64` gives the integers that the cells stand for or fails
(`Datum.cast_int64_exact`).
-/

namespace SpanJoin

namespace Datum

variable {R S : Cell → Cell → Prop} {d r : Datum} {target : Kind} {v : Cell}

/-- The cells of the second datum are related to those of the first one: both are scalars, or they
are series with the same labels and the same name. -/
def Cellwise (R : Cell → Cell → Prop) : Datum → Datum → Prop
  | scalar a, scalar b => R a b
  | series s, series t => t.name = s.name ∧ t.index = s.index ∧ List.Forall₂ R s.cells t.cells
  | _, _ => False

theorem Cellwise.imp (h : d.Cellwise R r) (hRS : ∀ a ∈ d.cells, ∀ b, R a b → S a b) :
    d.Cellwise S r := by
  match d, r, h with
  | scalar a, scalar b, h => exact hRS a (List.mem_singleton_self a) b h
  | series s, series t, ⟨name, index, cells⟩ =>
    exact ⟨name, index, forall₂_imp_of_mem cells fun a ha b _ h => hRS a ha b h⟩

/-- The cells of a series are cast, and there have to be as many as labels. -/
theorem cast_series_eq_ok_iff {s : Series} : (series s).cast target = .ok r ↔
    ∃ cells, List.Forall₂ (fun a b => a.cast target = .ok b) s.cells cells ∧
      Series.WellFormed { s with cells } ∧ r = series { s with cells } := by
  unfold cast
  constructor
  · intro h
    obtain ⟨cells, hcells, h⟩ := Outcome.bind_eq_ok.1 h
    obtain ⟨t, ht, h⟩ := Outcome.bind_eq_ok.1 h
    obtain ⟨rfl, wellFormed⟩ := Series.withCells_eq_ok_iff.1 (Outcome.exceptMapError_eq_ok.1 ht)
    exact ⟨cells, mapM_eq_ok_iff.1 (Outcome.exceptMapError_eq_ok.1 hcells), wellFormed,
      (Except.ok.inj h).symm⟩
  · rintro ⟨cells, hcells, wellFormed, rfl⟩
    have built : s.withCells cells = .ok { s with cells } :=
      Series.withCells_eq_ok_iff.2 ⟨rfl, wellFormed⟩
    simp only [Outcome.exceptMapError_eq_ok.2 (mapM_eq_ok_iff.2 hcells), Outcome.ok_bind, built]
    rfl

theorem cellwise_of_cast (h : d.cast target = .ok r) :
    d.Cellwise (fun a b => a.cast target = .ok b) r := by
  cases d with
  | scalar a =>
    obtain ⟨w, hw, rfl⟩ := Outcome.exceptMap_eq_ok.1 h
    exact Outcome.exceptMapError_eq_ok.1 hw
  | series s =>
    obtain ⟨cells, hcells, -, rfl⟩ := cast_series_eq_ok_iff.1 h
    exact ⟨rfl, rfl, hcells⟩
  | frame | grouped | range => cases h

/-- A datum is refused if one of its cells is. -/
theorem exists_castFailed (hv : v ∈ d.cells) {e : DataError} (h : v.cast target = .error e) :
    ∃ u ∈ d.cells, d.cast target = .error (.data (.castFailed u target)) := by
  cases d with
  | scalar a =>
    obtain rfl := List.mem_singleton.1 hv
    refine ⟨v, hv, ?_⟩
    rw [cast, h, Cell.reports_cast v target e h]
    rfl
  | series s =>
    obtain ⟨u, hu, e', he', failed⟩ := exists_mapM_eq_error (f := fun c => c.cast target) hv h
    refine ⟨u, hu, ?_⟩
    change s.cells.mapM (fun c => c.cast target) = .error e' at failed
    rw [cast, failed, Cell.reports_cast u target e' he']
    rfl
  | frame | grouped | range => cases hv

/-- A datum that has been cast is cast to itself if its cells are. -/
theorem cast_of_cellwise (h : d.cast target = .ok r)
    (again : d.Cellwise (fun _ b => b.cast target = .ok b) r) : r.cast target = .ok r := by
  cases d with
  | scalar a =>
    obtain ⟨w, -, rfl⟩ := Outcome.exceptMap_eq_ok.1 h
    exact Outcome.exceptMap_eq_ok.2 ⟨w, Outcome.exceptMapError_eq_ok.2 again, rfl⟩
  | series s =>
    obtain ⟨cells, -, wellFormed, rfl⟩ := cast_series_eq_ok_iff.1 h
    obtain ⟨-, -, same⟩ := again
    refine cast_series_eq_ok_iff.2 ⟨cells, List.forall₂_same.2 fun b hb => ?_, wellFormed, rfl⟩
    obtain ⟨-, -, hb⟩ := exists_mem_of_forall₂_right same hb
    exact hb
  | frame | grouped | range => cases h

/-- **Casts are stable.** Without texts that spell out that they are not a number, a cast gives
cells of the target kind that are missing only if the given ones are, and casting once more changes
nothing. -/
theorem cast_stable (h : d.cast target = .ok r)
    (plain : target = .float64 → ∀ v ∈ d.cells, ¬ v.SpellsNaN) :
    d.Cellwise (Cell.IsStable target) r ∧ r.cast target = .ok r := by
  have stable : d.Cellwise (Cell.IsStable target) r :=
    (cellwise_of_cast h).imp fun a ha b hab =>
      (Cell.isStable_iff hab).2 fun spells => plain spells.1 a ha spells.2
  exact ⟨stable, cast_of_cellwise h (stable.imp fun _ _ _ hab => hab.again)⟩

/-- **A cast never makes an integer up.** If no floating-point number among the cells is beyond the
signed 64-bit range, then a cast to `int64` gives the integers that the cells stand for, and `null`
where a cell is missing; and it is refused if a cell stands for no integer, or for one beyond the
range. -/
theorem cast_int64_exact
    (fits : ∀ v ∈ d.cells, ∀ i, v.Means i → v.isFloat = true → InRange i) :
    (∀ r, d.cast .int64 = .ok r → d.Cellwise (fun v w =>
      v.isMissing = true ∧ w = .null ∨ ∃ n, v.Means n.toInt ∧ w = .int n) r) ∧
    ∀ v ∈ d.cells, v.isMissing = false → (∀ i, v.Means i → ¬ InRange i) →
      ∃ u ∈ d.cells, d.cast .int64 = .error (.data (.castFailed u .int64)) := by
  constructor
  · intro r h
    refine (cellwise_of_cast h).imp fun v hv w hw => ?_
    cases missing : v.isMissing with
    | true =>
      rw [Cell.cast_of_isMissing missing] at hw
      exact .inl ⟨rfl, (Except.ok.inj hw).symm⟩
    | false => exact .inr (Cell.means_of_cast_int64 missing hw (fits v hv))
  · intro v hv present unfit
    exact exists_castFailed hv (Cell.cast_int64_eq_error present unfit (fits v hv))

end Datum

end SpanJoin
