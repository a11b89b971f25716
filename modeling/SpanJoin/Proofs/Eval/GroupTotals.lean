import SpanJoin.Proofs.Datum.Groups
import SpanJoin.Proofs.Eval.Simulation

/-!
# Totals of groups

Cells that are no texts and no floating-point numbers are added up modulo `2 ^ 64`, so their total
does not depend on their order or on how they are put into groups
(`total_of_isCountable`). Since grouping deals every row that has a key to one group, whatever the
keys are, the totals of the groups add up to the total of these rows
(`Datum.exists_sum_grouped`, and for trees `Tree.evalIn_sum_sum_groupBy`).
-/

namespace SpanJoin

/-! ## Cells that are added as integers -/

namespace Cell

/-- Does the cell keep a total an integer? This is so for truth values and integers, and for missing
cells. -/
def isCountable : Cell → Bool
  | null | bool _ | int _ => true
  | float x => x.isNaN
  | text _ => false

/-- What a cell adds to an integer total. -/
def amount : Cell → Int
  | bool b => if b then 1 else 0
  | int n => n.toInt
  | _ => 0

end Cell

/-- The amounts of the cells, added up without wrapping around. -/
def amounts (cells : List Cell) : Int := (cells.map Cell.amount).sum

variable {cells chosen keys : List Cell}

@[simp] theorem amounts_nil : amounts [] = 0 := rfl

@[simp] theorem amounts_cons (a : Cell) (cells : List Cell) :
    amounts (a :: cells) = a.amount + amounts cells := by
  simp [amounts]

theorem Sums.add_of_isCountable {a : Cell} (h : a.isCountable = true) (n : Int64) (x : Float) :
    Sums.add ⟨n, x, false⟩ a = .ok ⟨n + Int64.ofInt a.amount, x, false⟩ := by
  cases a with
  | null => simp [add, Cell.isMissing, Cell.amount]
  | bool b => cases b <;> simp [add, Cell.isMissing, Cell.amount]
  | int m => simp [add, Cell.isMissing, Cell.amount]
  | float y =>
    have missing : (Cell.float y).isMissing = true := h
    simp [add, missing, Cell.amount]
  | text s => cases h

/-- The integers are summed modulo `2 ^ 64`. -/
theorem total_of_isCountable (h : ∀ a ∈ cells, a.isCountable = true) :
    total cells = .ok (.int (Int64.ofInt (amounts cells))) := by
  have run (n : Int64) (x : Float) :
      cells.foldlM Sums.add ⟨n, x, false⟩ = .ok ⟨n + Int64.ofInt (amounts cells), x, false⟩ := by
    induction cells generalizing n with
    | nil => simp [pure, Except.pure]
    | cons a cells ih =>
      obtain ⟨ha, hr⟩ := List.forall_mem_cons.1 h
      rw [List.foldlM_cons, Sums.add_of_isCountable ha]
      refine (ih hr _).trans ?_
      simp [Int64.ofInt_add, Int64.add_assoc]
  simp [total, Sums.zero, run, Except.map, Sums.cell]

/-- Integers that wrap around before they are added up give the same total. -/
theorem ofInt_amounts_map_int (ns : List Int) :
    Int64.ofInt (amounts (ns.map fun n => .int (Int64.ofInt n))) = Int64.ofInt ns.sum := by
  induction ns with
  | nil => rfl
  | cons n ns ih =>
    rw [List.map_cons, amounts_cons, List.sum_cons, Int64.ofInt_add, Int64.ofInt_add, ih]
    rw [Cell.amount, Int64.ofInt_toInt]

/-! ## Rows -/

/-- What the cell at a position adds to an integer total. -/
def amountAt (cells : List Cell) (p : Nat) : Int := (cells[p]?.map Cell.amount).getD 0

theorem amounts_of_picks {ps : List Nat} (h : Table.Picks cells ps chosen) :
    amounts chosen = (ps.map (amountAt cells)).sum := by
  induction h with
  | nil => rfl
  | cons e _ ih => simp [amountAt, e, ih]

/-- The amounts in groups add up to the amounts of all their positions. -/
theorem sum_map_sum_positions (f : Nat → Int) (groups : List KeyedRows) :
    (groups.map fun g => (g.positions.map f).sum).sum =
      ((groups.flatMap KeyedRows.positions).map f).sum := by
  induction groups with
  | nil => rfl
  | cons g groups ih => simp [ih]

/-- The cells of the rows that have a key. -/
def keyedCells (keys cells : List Cell) : List Cell :=
  ((keys.zip cells).filter fun row => !row.1.isMissing).map Prod.snd

/-- Whatever the keys are, the groups together have the amounts of the rows that have a key. -/
theorem sum_groups_eq_amounts (lengths : keys.length = cells.length) :
    ((sortBy KeyedRows.keyLE (KeyedRows.collect keys)).map fun g =>
      (g.positions.map (amountAt cells)).sum).sum = amounts (keyedCells keys cells) := by
  have rows : Table.Picks cells ((KeyedRows.presentRows keys).map Prod.snd)
      (keyedCells keys cells) := picks_filter lengths fun k => !k.isMissing
  rw [sum_map_sum_positions, amounts_of_picks rows]
  exact ((KeyedRows.positions_perm keys).map _).sum_eq

theorem mem_of_mem_keyedCells {a : Cell} (h : a ∈ keyedCells keys cells) : a ∈ cells := by
  obtain ⟨row, hr, rfl⟩ := List.mem_map.1 h
  exact (List.of_mem_zip (List.mem_filter.1 hr).1).2

namespace Datum

/-- A group of countable cells has the total of its amounts. -/
theorem groupTotal_of_isCountable (countable : ∀ a ∈ cells, a.isCountable = true) {g : KeyedRows}
    (inside : ∀ p ∈ g.positions, p < cells.length) : groupTotal cells g =
      .ok (.int (Int64.ofInt (g.positions.map (amountAt cells)).sum)) := by
  obtain ⟨chosen, picks⟩ := Table.exists_picks inside
  rw [groupTotal_eq_ok_iff picks, ← amounts_of_picks picks]
  refine total_of_isCountable fun a ha => ?_
  obtain ⟨p, -, hp⟩ := exists_mem_of_forall₂_right picks ha
  exact countable a (List.mem_of_getElem? hp)

/-- The totals of the groups add up to the total of the rows that have a key. -/
theorem exists_sum_grouped {g : GroupedSeries} (lengths : g.keys.length = g.series.cells.length)
    (countable : ∀ a ∈ g.series.cells, a.isCountable = true) :
    ∃ totals, sum (.grouped g) = .ok (.series totals) ∧ total totals.cells =
      .ok (.int (Int64.ofInt (amounts (keyedCells g.keys g.series.cells)))) := by
  have each : List.Forall₂ (fun group x => groupTotal g.series.cells group = .ok x) g.groups
      ((g.groups.map fun group => (group.positions.map (amountAt g.series.cells)).sum).map
        fun n => .int (Int64.ofInt n)) := by
    rw [List.forall₂_map_right_iff, List.forall₂_map_right_iff, List.forall₂_same]
    intro group hg
    refine groupTotal_of_isCountable countable fun p hp => ?_
    rw [← lengths]
    exact g.kept_groups.positions group hg p hp
  refine ⟨_, sum_grouped_eq_ok_iff.2 ⟨_, each, rfl⟩, ?_⟩
  rw [total_of_isCountable (by simp [Cell.isCountable]), ofInt_amounts_map_int,
    GroupedSeries.groups, sum_groups_eq_amounts lengths]

end Datum

/-! ## Trees -/

namespace Tree

variable {c : Context} {value key : Tree} {env env₁ env₂ : Environment}

theorem evalIn_sum_eq_iff {d : Datum} : (sum value).evalIn c env = (.ok d, env₁) ↔
    ∃ e, value.evalIn c env = (.ok e, env₁) ∧ Datum.sum e = .ok d := by
  rw [sum, evalIn]
  exact andThen_oneArgument_eq_iff

theorem evalIn_groupBy_eq_iff {d : Datum} : (groupBy value key).evalIn c env = (.ok d, env₂) ↔
    ∃ e env₁ k, value.evalIn c env = (.ok e, env₁) ∧ key.evalIn c env₁ = (.ok k, env₂) ∧
      Datum.groupBy e k = .ok d := by
  rw [groupBy, evalIn, andThen_twoArguments_eq_iff]
  simp only [Outcome.ofExcept_eq_ok]

/-- **Grouping keeps totals.** If a series holds no floating-point numbers but what is not a number,
and no texts, its rows can be grouped by any series with the same row labels, floating-point keys
included. Every row that has a key is in one of the groups, once; and the total of the totals of the
groups is the total of these rows, in 64-bit arithmetic that wraps around. -/
theorem evalIn_sum_sum_groupBy {s keys : Series}
    (hv : value.evalIn c env = (.ok (.series s), env₁))
    (hk : key.evalIn c env₁ = (.ok (.series keys), env₂)) (ws : s.WellFormed) (wk : keys.WellFormed)
    (aligned : s.alignedWith keys = true) (countable : ∀ a ∈ s.cells, a.isCountable = true) :
    ∃ g totals n, (groupBy value key).evalIn c env = (.ok (.grouped g), env₂) ∧
      (g.groups.flatMap KeyedRows.positions).Perm
        ((KeyedRows.presentRows keys.cells).map Prod.snd) ∧
      (sum (groupBy value key)).evalIn c env = (.ok (.series totals), env₂) ∧
      (sum (sum (groupBy value key))).evalIn c env = (.ok (.scalar (.int n)), env₂) ∧
      total (keyedCells keys.cells s.cells) = .ok (.int n) ∧
      n = Int64.ofInt (amounts (keyedCells keys.cells s.cells)) := by
  have lengths : keys.cells.length = s.cells.length := ws.length_cells_eq wk aligned
  obtain ⟨totals, sums, total_sums⟩ :=
    Datum.exists_sum_grouped (g := ⟨keys.cells, s⟩) lengths countable
  have groups : (groupBy value key).evalIn c env = (.ok (.grouped ⟨keys.cells, s⟩), env₂) :=
    evalIn_groupBy_eq_iff.2 ⟨_, _, _, hv, hk, Datum.groupBy_of_alignedWith aligned⟩
  have totals_of_groups : (sum (groupBy value key)).evalIn c env = (.ok (.series totals), env₂) :=
    evalIn_sum_eq_iff.2 ⟨_, groups, sums⟩
  refine ⟨_, totals, _, groups, KeyedRows.positions_perm keys.cells, totals_of_groups,
    evalIn_sum_eq_iff.2 ⟨_, totals_of_groups, ?_⟩, ?_, rfl⟩
  · rw [Datum.sum, total_sums]
    rfl
  · exact total_of_isCountable fun a ha => countable a (mem_of_mem_keyedCells ha)

/-- Loads of right rows; the first two exceed the integers. -/
def loads : Series :=
  ⟨some "load", Cell.counting 6,
    [.int Int64.maxValue, .bool true, .null, .int 5, .float Binary64.nan, .int 7]⟩

/-- Their lanes: both zeros and the integer zero are one lane, and two rows have none. -/
def lanes : Series :=
  ⟨some "lane", Cell.counting 6,
    [.float 0, .float Binary64.negativeZero, .int 0, .null, .float 1, .float Binary64.nan]⟩

/-- Right rows with these loads and lanes. -/
def loaded : Context :=
  ⟨⟨⟨[], []⟩, 0⟩, ⟨Cell.counting 6, [⟨"load", loads.cells⟩, ⟨"lane", lanes.cells⟩]⟩, .null,
    .ofCells [], .ofCells []⟩

/-- The total of the loads by lane, over all lanes. -/
def totalLoad : Tree := sum (sum (groupBy (rightColumn "load") (rightColumn "lane")))

theorem evalIn_sum_sum_groupBy_loads :
    (rightColumn "load").evalIn loaded .empty = (.ok (.series loads), .empty) ∧
    (rightColumn "lane").evalIn loaded .empty = (.ok (.series lanes), .empty) ∧
    loads.WellFormed ∧ lanes.WellFormed ∧ loads.alignedWith lanes = true ∧
    (∀ a ∈ loads.cells, a.isCountable = true) ∧
    totalLoad.evalIn loaded .empty = (.ok (.scalar (.int Int64.minValue)), .empty) ∧
    total (keyedCells lanes.cells loads.cells) = .ok (.int Int64.minValue) := by
  have hv : (rightColumn "load").evalIn loaded .empty = (.ok (.series loads), .empty) := rfl
  have hk : (rightColumn "lane").evalIn loaded .empty = (.ok (.series lanes), .empty) := rfl
  have aligned : loads.alignedWith lanes = true := by decide
  have countable : ∀ a ∈ loads.cells, a.isCountable = true := by decide
  obtain ⟨g, totals, n, -, -, -, twice, once, amount⟩ :=
    evalIn_sum_sum_groupBy hv hk rfl rfl aligned countable
  obtain rfl : n = Int64.minValue := amount.trans (by decide)
  exact ⟨hv, hk, rfl, rfl, aligned, countable, twice, once⟩

end Tree

end SpanJoin
