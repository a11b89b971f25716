import SpanJoin.Proofs.Eval.Masks
import SpanJoin.Proofs.Eval.Rowwise
import SpanJoin.Proofs.Table.Keys

/-!
# Filtered operands

An operator computes each row of its result from the same row of its operands, so the rows that a
mask selects may be taken from the operands instead of the result. Series among the operands have
labels that match whatever the labels of the result match, and they have a cell wherever it has one
(`Datum.Along`); so they pass the checks of the filter as well, and they can be aligned still once
their rows have been taken. `Tree.evalIn_filtered_operands` states this of trees. The converse
fails: an operator that refuses a cell of a row that is not selected fails before the filter and not
after it.
-/

namespace SpanJoin

open Outcome

/-- The series can be filtered by the mask: this has truth values as cells, and the labels of the
series. -/
structure Series.Admits (s m : Series) : Prop where
  clean : ∀ a ∈ m.cells, Datum.isTruthValue a = true
  aligned : (s.index == m.index) = true

namespace Datum

variable {d d' e mask : Datum} {r s m t : Series} {ps : List Nat}

/-! ## Filters on series -/

/-- A series is filtered by taking the rows where the mask is true. -/
theorem filter_series_eq_ok_iff : (series s).filter (series m) = .ok (series t) ↔
    s.Admits m ∧ s.take? (truePositions m.cells) = some t := by
  have clean : (m.cells.find? fun a => !isTruthValue a) = none ↔
      ∀ a ∈ m.cells, isTruthValue a = true := by
    simp
  simp only [filter, index?]
  cases hbad : m.cells.find? fun a => !isTruthValue a with
  | some bad =>
    constructor
    · intro h
      cases h
    · intro h
      rw [clean.2 h.1.clean] at hbad
      cases hbad
  | none =>
    by_cases aligned : (s.index == m.index) = true
    · simp only [if_pos aligned, takeRows]
      constructor
      · intro h
        obtain ⟨u, hu, h⟩ := exceptMap_eq_ok.1 h
        obtain rfl := series.inj h
        exact ⟨⟨clean.1 hbad, aligned⟩, ofOption_eq_ok.1 hu⟩
      · rintro ⟨-, h⟩
        rw [h]
        rfl
    · simp only [if_neg aligned]
      constructor
      · intro h
        cases h
      · exact fun h => absurd h.1.aligned aligned

/-- Only a series that is filtered by a series gives a series. -/
theorem exists_series_of_filter (h : d.filter mask = .ok (series t)) :
    ∃ s m, d = series s ∧ mask = series m := by
  cases mask with
  | series m =>
    cases d with
    | series s => exact ⟨s, m, rfl, rfl⟩
    | scalar | grouped | range =>
      simp only [filter, index?] at h
      split at h <;> cases h
    | frame f =>
      simp only [filter, index?, takeRows] at h
      split at h
      · cases h
      · split at h
        · obtain ⟨g, -, h⟩ := exceptMap_eq_ok.1 h
          cases h
        · cases h
  | scalar | frame | grouped | range => cases h

/-! ## Operands -/

/-- The datum is a scalar or a series that goes along with the rows of the first one: its labels
match whatever these match, and it has a cell for each of them. -/
def Along (r : Series) : Datum → Prop
  | scalar _ => True
  | series s => (∀ index, (r.index == index) = true → (s.index == index) = true) ∧
      r.cells.length ≤ s.cells.length
  | _ => False

/-- A computed series has the labels of the series that it is computed for, and a cell for every
element of the list. -/
theorem shape_of_compute {α : Type} {f : α → Except TreeError Cell} {as : List α}
    (h : s.compute f as = .ok (series r)) : r.index = s.index ∧ r.cells.length = as.length := by
  obtain ⟨cells, hc, -, h⟩ := compute_eq_ok_iff.1 h
  obtain rfl := series.inj h
  exact ⟨rfl, hc.length_eq.symm⟩

/-- Operands go along with the series computed from them. -/
theorem along_of_binary {op : BinaryOp} (h : binary op d e = .ok (series r)) :
    Along r d ∧ Along r e := by
  unfold binary at h
  split at h
  · obtain ⟨x, -, h⟩ := exceptMap_eq_ok.1 h
    cases h
  · obtain ⟨index, length⟩ := shape_of_compute h
    exact ⟨⟨fun _ hi => index ▸ hi, length.le⟩, trivial⟩
  · obtain ⟨index, length⟩ := shape_of_compute h
    exact ⟨trivial, fun _ hi => index ▸ hi, length.le⟩
  · split at h
    · rename_i aligned
      -- the labels are those of the first series; those of the second one match them
      obtain ⟨index, length⟩ := shape_of_compute h
      rw [List.length_zip] at length
      refine ⟨⟨fun _ hi => index ▸ hi, by omega⟩, fun labels hi => ?_, by omega⟩
      rw [index] at hi
      exact Key.beq_trans (Key.beq_symm aligned) hi
    · cases h
  · cases h

theorem along_of_unary {op : UnaryOp} (h : unary op d = .ok (series r)) : Along r d := by
  unfold unary at h
  split at h
  · obtain ⟨x, -, h⟩ := exceptMap_eq_ok.1 h
    cases h
  · obtain ⟨cells, hcells, h⟩ := bind_eq_ok.1 h
    obtain ⟨u, hu, h⟩ := bind_eq_ok.1 h
    obtain ⟨rfl, -⟩ := Series.withCells_eq_ok_iff.1 (exceptMapError_eq_ok.1 hu)
    obtain rfl := series.inj (Except.ok.inj h)
    exact ⟨fun _ hi => hi, (mapM_eq_ok_iff.1 hcells).length_eq.ge⟩
  · cases h

/-- What is picked from a list can be picked from one that is not shorter. -/
theorem exists_picks_of_length_le {as bs xs : List Cell} (h : as.length ≤ bs.length)
    (hx : Table.Picks as ps xs) : ∃ ys, Table.Picks bs ps ys := by
  refine Table.exists_picks fun p hp => ?_
  obtain ⟨x, -, hp⟩ := exists_mem_of_forall₂_right hx.flip hp
  obtain ⟨hp, -⟩ := List.getElem?_eq_some_iff.1 hp
  omega

/-- The rows that a mask selects can be taken from a datum that goes along with the series that they
can be taken from. -/
theorem Along.exists_picked (hd : Along r d) (admits : r.Admits m) (ht : r.take? ps = some t) :
    ∃ d', Picked ps d d' ∧ ∀ s, d = series s → s.Admits m := by
  cases d with
  | scalar a => exact ⟨scalar a, rfl, nofun⟩
  | series s =>
    obtain ⟨labels, enough⟩ := hd
    have aligned := labels m.index admits.aligned
    have lengths : r.index.length = s.index.length :=
      (length_eq_of_beq admits.aligned).trans (length_eq_of_beq aligned).symm
    obtain ⟨-, index, cells⟩ := Series.take?_eq_some_iff.1 ht
    obtain ⟨index', hi⟩ := exists_picks_of_length_le lengths.le index
    obtain ⟨cells', hc⟩ := exists_picks_of_length_le enough cells
    refine ⟨series ⟨s.name, index', cells'⟩,
      picked_series (Series.take?_eq_some_iff.2 ⟨rfl, hi, hc⟩), fun u hu => ?_⟩
    obtain rfl := series.inj hu
    exact ⟨admits.clean, aligned⟩
  | frame | grouped | range => exact hd.elim

end Datum

namespace Tree

variable {c : Context} {t m a b : Tree} {env env' : Environment} {d d' : Datum} {mask : Series}

theorem evalIn_filter_eq_iff : (filter t m).evalIn c env = (.ok d, env') ↔ ∃ a env₁ b,
    t.evalIn c env = (.ok a, env₁) ∧ m.evalIn c env₁ = (.ok b, env') ∧ a.filter b = .ok d := by
  rw [filter, evalIn, andThen_twoArguments_eq_iff]

/-- A tree that makes and reads no bindings has its value in every environment, and it leaves the
environment as it is. -/
theorem evalIn_eq_of_usesBindings (h : t.usesBindings = false) {start after : Environment}
    (hd : t.evalIn c start = (.ok d, after)) (env : Environment) :
    t.evalIn c env = (.ok d, env) := by
  rw [evalIn_of_usesBindings h c env start, hd]

/-- The tree, filtered if its value is a series. -/
def filtered (c : Context) (env : Environment) (t m : Tree) : Tree :=
  match (t.evalIn c env).1 with
  | .ok (.series _) => filter t m
  | _ => t

/-- The value of the filtered tree is picked from the value of the tree. -/
theorem evalIn_filtered (hd : t.evalIn c env = (.ok d, env))
    (hm : m.evalIn c env = (.ok (.series mask), env)) (admits : ∀ s, d = .series s → s.Admits mask)
    (picked : d.Picked (Datum.truePositions mask.cells) d') :
    (filtered c env t m).evalIn c env = (.ok d', env) := by
  cases d with
  | series s =>
    have tree : filtered c env t m = filter t m := by rw [filtered, hd]
    obtain ⟨u, rfl, hu⟩ := picked
    rw [tree, evalIn_filter_eq_iff]
    exact ⟨_, env, _, hd, hm, Datum.filter_series_eq_ok_iff.2 ⟨admits s rfl, hu⟩⟩
  | scalar | frame | grouped | range =>
    obtain rfl : d' = _ := picked
    rw [filtered, hd]
    exact hd

section

variable {s : Series} (ha : a.usesBindings = false) (hm : m.usesBindings = false)
include ha hm

theorem evalIn_binary_filtered (hb : b.usesBindings = false) {op : BinaryOp}
    (h : (filter (binary op a b) m).evalIn c env = (.ok (.series s), env')) :
    (binary op (a.filtered c env m) (b.filtered c env m)).evalIn c env =
      (.ok (.series s), env) := by
  obtain ⟨result, env₁, selects, hop, hmask, hfilter⟩ := evalIn_filter_eq_iff.1 h
  obtain ⟨d, env₂, e, hd, he, hop⟩ := evalIn_binary_eq_iff.1 hop
  obtain ⟨r, mask, rfl, rfl⟩ := Datum.exists_series_of_filter hfilter
  obtain ⟨admits, hs⟩ := Datum.filter_series_eq_ok_iff.1 hfilter
  have selection := evalIn_eq_of_usesBindings hm hmask env
  -- the rows that the mask selects are there in both operands
  obtain ⟨alongLeft, alongRight⟩ := Datum.along_of_binary hop
  obtain ⟨d', leftPicked, leftAdmits⟩ := alongLeft.exists_picked admits hs
  obtain ⟨e', rightPicked, rightAdmits⟩ := alongRight.exists_picked admits hs
  obtain ⟨_, hop', t, rfl, ht⟩ := Datum.exists_binary_picked leftPicked rightPicked hop
  obtain rfl := Option.some.inj (hs.symm.trans ht)
  have left := evalIn_eq_of_usesBindings ha hd env
  have right := evalIn_eq_of_usesBindings hb he env
  exact evalIn_binary_eq_iff.2 ⟨d', env, e',
    evalIn_filtered left selection leftAdmits leftPicked,
    evalIn_filtered right selection rightAdmits rightPicked, hop'⟩

theorem evalIn_unary_filtered {op : UnaryOp}
    (h : (filter (unary op a) m).evalIn c env = (.ok (.series s), env')) :
    (unary op (a.filtered c env m)).evalIn c env = (.ok (.series s), env) := by
  obtain ⟨result, env₁, selects, hop, hmask, hfilter⟩ := evalIn_filter_eq_iff.1 h
  obtain ⟨d, hd, hop⟩ := evalIn_unary_eq_iff.1 hop
  obtain ⟨r, mask, rfl, rfl⟩ := Datum.exists_series_of_filter hfilter
  obtain ⟨admits, hs⟩ := Datum.filter_series_eq_ok_iff.1 hfilter
  obtain ⟨d', picked, operandAdmits⟩ := (Datum.along_of_unary hop).exists_picked admits hs
  obtain ⟨_, hop', t, rfl, ht⟩ := Datum.exists_unary_picked picked hop
  obtain rfl := Option.some.inj (hs.symm.trans ht)
  have operand := evalIn_eq_of_usesBindings ha hd env
  have selection := evalIn_eq_of_usesBindings hm hmask env
  exact evalIn_unary_eq_iff.2
    ⟨d', evalIn_filtered operand selection operandAdmits picked, hop'⟩

end

/-- **Filtering may be pushed below operators.** If filtering what an operator computes gives a
series, then the operator computes the same series, with the same cells, labels and name, from its
filtered operands; operands that are scalars stay as they are. The trees make and read no
bindings. -/
theorem evalIn_filtered_operands (ha : a.usesBindings = false) (hb : b.usesBindings = false)
    (hm : m.usesBindings = false) (c : Context) (env : Environment) (s : Series) :
    (∀ op, ((filter (binary op a b) m).evalIn c env).1 = .ok (.series s) →
      ((binary op (a.filtered c env m) (b.filtered c env m)).evalIn c env).1 = .ok (.series s)) ∧
    ∀ op, ((filter (unary op a) m).evalIn c env).1 = .ok (.series s) →
      ((unary op (a.filtered c env m)).evalIn c env).1 = .ok (.series s) := by
  constructor
  · intro op h
    exact congrArg Prod.fst (evalIn_binary_filtered ha hm hb (Prod.ext h rfl))
  · intro op h
    exact congrArg Prod.fst (evalIn_unary_filtered ha hm (Prod.ext h rfl))

/-- The rows with an overlap of more than 1. -/
def longOverlap : Tree := binary .gt (.node .lengthOfOverlap []) (.literal (.int 1))

theorem evalIn_filtered_operands_longOverlap :
    (rightColumn "x").usesBindings = false ∧ (node .lengthOfOverlap []).usesBindings = false ∧
    longOverlap.usesBindings = false ∧
    ((filter (binary .mul (rightColumn "x") (.node .lengthOfOverlap [])) longOverlap).evalIn
      twoRoads .empty).1 = .ok (.series ⟨none, [.text "b"], [.int 14]⟩) ∧
    ((binary .mul (filter (rightColumn "x") longOverlap)
      (filter (.node .lengthOfOverlap []) longOverlap)).evalIn twoRoads .empty).1 =
        .ok (.series ⟨none, [.text "b"], [.int 14]⟩) ∧
    ((unary .neg (filter (rightColumn "x") longOverlap)).evalIn twoRoads .empty).1 =
      .ok (.series ⟨some "x", [.text "b"], [.int (-7)]⟩) := by
  have free : (rightColumn "x").usesBindings = false ∧
      (node .lengthOfOverlap []).usesBindings = false ∧ longOverlap.usesBindings = false := by
    decide
  obtain ⟨ha, hb, hm⟩ := free
  have product := (evalIn_filtered_operands ha hb hm twoRoads .empty
    ⟨none, [.text "b"], [.int 14]⟩).1 .mul rfl
  have opposite := (evalIn_filtered_operands ha hb hm twoRoads .empty
    ⟨some "x", [.text "b"], [.int (-7)]⟩).2 .neg rfl
  exact ⟨ha, hb, hm, rfl, product, opposite⟩

end Tree

end SpanJoin
