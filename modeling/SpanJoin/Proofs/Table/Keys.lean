import SpanJoin.Proofs.Binary64.Equality
import SpanJoin.Proofs.Collection.Grouping
import SpanJoin.Proofs.Table.Columns
import SpanJoin.Table.Group

/-!
# Rows of equal keys

The cells of a row in the key columns are its key (`Table.keyOf?`). Equality of keys is symmetric
and transitive, and a key without missing cells is equal to itself. A table can be grouped by any of
its columns (`Table.exists_groupBy_iff`). That puts every row with such a key into the group of the
rows with an equal key, in ascending order (`Table.exists_group`, `Table.positions_eq_matching`).
-/

namespace SpanJoin

/-! ## Equality of cells and keys -/

namespace Cell

theorem beq_def (a b : Cell) : (a == b) = a.equal b := rfl

theorem beq_symm {a b : Cell} (h : (a == b) = true) : (b == a) = true := by
  cases a with
  | float x =>
    cases b with
    | float y =>
      change (x == y) = true at h
      change (y == x) = true
      rw [BEq.comm, h]
    | _ => simp [beq_def, equal] at h
  | _ => cases b <;> simp_all [beq_def, equal]

theorem beq_trans {a b c : Cell} (hab : (a == b) = true) (hbc : (b == c) = true) :
    (a == c) = true := by
  cases a <;> cases b <;> simp only [beq_def, equal, Bool.false_eq_true] at hab <;> cases c <;>
    simp only [beq_def, equal, Bool.false_eq_true] at hbc ⊢
  case bool.bool.bool | int.int.int | text.text.text => simp_all
  case float.float.float => exact BEq.trans hab hbc

theorem beq_self {a : Cell} (h : a.isMissing = false) : (a == a) = true := by
  cases a with
  | float x => exact Binary64.beq_self h
  | null => simp [isMissing] at h
  | _ => simp [beq_def, equal]

/-- What is equal to a cell that is there is there too. -/
theorem isMissing_of_beq {a b : Cell} (h : (a == b) = true) (hb : b.isMissing = false) :
    a.isMissing = false := by
  cases a with
  | float x =>
    cases b with
    | float y => exact (Binary64.beq_iff.1 h).1
    | _ => simp [beq_def, equal] at h
  | null =>
    cases b with
    | null => exact hb
    | _ => simp [beq_def, equal] at h
  | _ => rfl

end Cell

namespace Key

theorem beq_cons {a b : Cell} {as bs : Key} :
    ((a :: as : List Cell) == b :: bs) = true ↔ (a == b) = true ∧ (as == bs) = true := by
  rw [List.cons_beq_cons, Bool.and_eq_true]

theorem beq_symm {j k : Key} (h : (j == k) = true) : (k == j) = true := by
  induction j generalizing k with
  | nil => cases k <;> simp_all
  | cons a as ih =>
    cases k with
    | nil => cases h
    | cons b bs =>
      obtain ⟨hab, h⟩ := beq_cons.1 h
      exact beq_cons.2 ⟨Cell.beq_symm hab, ih h⟩

theorem beq_trans {j k l : Key} (hjk : (j == k) = true) (hkl : (k == l) = true) :
    (j == l) = true := by
  induction j generalizing k l with
  | nil => cases k <;> simp_all
  | cons a as ih =>
    cases k with
    | nil => cases hjk
    | cons b bs =>
      cases l with
      | nil => cases hkl
      | cons c cs =>
        obtain ⟨hab, hjk⟩ := beq_cons.1 hjk
        obtain ⟨hbc, hkl⟩ := beq_cons.1 hkl
        exact beq_cons.2 ⟨Cell.beq_trans hab hbc, ih hjk hkl⟩

theorem beq_self {k : Key} (h : k.any Cell.isMissing = false) : (k == k) = true := by
  induction k with
  | nil => rfl
  | cons a as ih =>
    rw [List.any_cons, Bool.or_eq_false_iff] at h
    exact beq_cons.2 ⟨Cell.beq_self h.1, ih h.2⟩

/-- A key that is equal to one without missing cells has none either. -/
theorem any_isMissing_of_beq {j k : Key} (h : (j == k) = true)
    (hk : k.any Cell.isMissing = false) : j.any Cell.isMissing = false := by
  induction j generalizing k with
  | nil => rfl
  | cons a as ih =>
    cases k with
    | nil => cases h
    | cons b bs =>
      obtain ⟨hab, h⟩ := beq_cons.1 h
      rw [List.any_cons, Bool.or_eq_false_iff] at hk ⊢
      exact ⟨Cell.isMissing_of_beq hab hk.1, ih h hk.2⟩

end Key

namespace Table

variable {t : Table} {names : List String} {groups : List Group}

/-- The key of a row: its cells in the columns of those names. -/
def keyOf? (t : Table) (names : List String) (position : Nat) : Option Key :=
  names.mapM fun name => t.cell? name position

/-- The positions of the rows whose cells in those columns are equal to the key. -/
def matching (t : Table) (names : List String) (key : Key) : List Nat :=
  (List.range t.rows).filter fun p => (t.keyOf? names p).any fun k => k == key

theorem exists_keyOf? (ht : t.WellFormed) (hn : ∀ name ∈ names, name ∈ t.names) {p : Nat}
    (hp : p < t.rows) : ∃ k, t.keyOf? names p = some k := by
  simp only [keyOf?, mapM_eq_some_iff]
  exact exists_forall₂ fun name h => ht.exists_cell? (hn name h) hp

/-- The key of a row that was taken is that of the row at its position. -/
theorem keyOf?_take? {u : Table} {positions : List Nat} (h : t.take? positions = some u)
    (names : List String) {k p : Nat} (hk : positions[k]? = some p) :
    u.keyOf? names k = t.keyOf? names p := by
  simp only [keyOf?, cell?_take? h _ hk]

/-! ## Grouping -/

/-- A row with its key, if no cell of that is missing. -/
def keyed (t : Table) (names : List String) (position : Nat) : Option (Key × Nat) :=
  (t.keyOf? names position).bind fun key =>
    if key.any Cell.isMissing then none else some (key, position)

theorem keyed_eq_some {p q : Nat} {k : Key} : t.keyed names p = some (k, q) ↔
    q = p ∧ t.keyOf? names p = some k ∧ k.any Cell.isMissing = false := by
  rw [keyed, Option.bind_eq_some_iff]
  constructor
  · rintro ⟨j, hj, h⟩
    split at h
    · cases h
    · rename_i hm
      obtain ⟨rfl, rfl⟩ := Prod.mk.inj (Option.some.inj h)
      exact ⟨rfl, hj, by simpa using hm⟩
  · rintro ⟨rfl, hk, hm⟩
    exact ⟨k, hk, by rw [hm]; rfl⟩

theorem keyAt_eq_keyOf? {columns : List (List Cell)} (h : names.mapM t.column = .ok columns)
    (p : Nat) : keyAt columns p = Outcome.ofOption (t.keyOf? names p) := by
  have same : columns.mapM (fun cells => cells[p]?) = t.keyOf? names p := by
    rw [keyOf?]
    have related := mapM_eq_ok_iff.1 h
    clear h
    induction related with
    | nil => rfl
    | cons hc _ ih =>
      rw [List.mapM_cons, List.mapM_cons, ih, cell?, hc]
      rfl
  rw [keyAt, same]

/-- The groups hold the rows seen so far by their keys. -/
abbrev GroupedRows (t : Table) (names : List String) (seen : List Nat) (groups : List Group) :
    Prop :=
  Grouped (fun j k : Key => j == k) Prod.fst Prod.snd Group.key Group.positions
    (seen.filterMap (t.keyed names)) groups

/-- What holds before any row and stays when a keyed row is added to its group holds of the groups
in the end. -/
theorem groupRows_induction {I : List (Key × Nat) → List Group → Prop}
    (step : ∀ seen groups key p, key.any Cell.isMissing = false → I seen groups →
      I (seen ++ [(key, p)]) (Group.add key p groups))
    {columns : List (List Cell)} (hc : names.mapM t.column = .ok columns)
    {rest : List Nat} {before : List Group} (h : groupRows columns before rest = .ok groups)
    {seen : List Nat} (hb : I (seen.filterMap (t.keyed names)) before) :
    I ((seen ++ rest).filterMap (t.keyed names)) groups ∧
      ∀ p ∈ rest, ∃ k, t.keyOf? names p = some k := by
  induction rest generalizing before seen with
  | nil =>
    obtain rfl : before = groups := Except.ok.inj h
    exact ⟨by rwa [List.append_nil], by simp⟩
  | cons p rest ih =>
    rw [groupRows, keyAt_eq_keyOf? hc] at h
    cases hk : t.keyOf? names p with
    | none =>
      rw [hk] at h
      cases h
    | some key =>
      rw [hk] at h
      have row : I ((seen ++ [p]).filterMap (t.keyed names))
          (if key.any Cell.isMissing then before else Group.add key p before) := by
        cases hm : key.any Cell.isMissing with
        | true =>
          have skipped : t.keyed names p = none := by
            rw [keyed, hk, Option.bind_some, if_pos hm]
          rw [List.filterMap_append, List.filterMap_cons_none skipped, List.filterMap_nil,
            List.append_nil, if_pos rfl]
          exact hb
        | false =>
          have item := keyed_eq_some.2 ⟨rfl, hk, hm⟩
          rw [List.filterMap_append, List.filterMap_cons_some item, List.filterMap_nil,
            if_neg (by simp)]
          exact step _ _ key p hm hb
      obtain ⟨rows, keys⟩ := ih h row
      rw [List.append_assoc, List.singleton_append] at rows
      refine ⟨rows, fun q hq => ?_⟩
      rcases List.mem_cons.1 hq with rfl | hq
      · exact ⟨key, hk⟩
      · exact keys q hq

theorem exists_groupRows {columns : List (List Cell)} (hc : names.mapM t.column = .ok columns)
    {rest : List Nat} (keys : ∀ p ∈ rest, ∃ k, t.keyOf? names p = some k) (before : List Group) :
    ∃ groups, groupRows columns before rest = .ok groups := by
  induction rest generalizing before with
  | nil => exact ⟨before, rfl⟩
  | cons p rest ih =>
    obtain ⟨k, hk⟩ := keys p List.mem_cons_self
    rw [groupRows, keyAt_eq_keyOf? hc, hk]
    exact ih (fun q hq => keys q (List.mem_cons_of_mem p hq)) _

/-- A table can be grouped by its columns, and by no others. -/
theorem exists_groupBy_iff (ht : t.WellFormed) :
    (∃ groups, t.groupBy names = .ok groups) ↔ ∀ name ∈ names, name ∈ t.names := by
  constructor
  · rintro ⟨groups, h⟩ name hn
    obtain ⟨columns, hc, -⟩ := Outcome.bind_eq_ok.1 h
    obtain ⟨cells, -, hcells⟩ := exists_mem_of_forall₂_right
      (mapM_eq_ok_iff.1 (Outcome.ofExcept_eq_ok.1 hc)).flip hn
    exact exists_column_iff.1 ⟨cells, hcells⟩
  · intro hn
    obtain ⟨columns, hc⟩ : ∃ columns, names.mapM t.column = .ok columns := by
      simp only [mapM_eq_ok_iff]
      exact exists_forall₂ fun name h => exists_column_iff.2 (hn name h)
    have keys : ∀ p ∈ List.range t.rows, ∃ k, t.keyOf? names p = some k :=
      fun p hp => exists_keyOf? ht hn (List.mem_range.1 hp)
    obtain ⟨groups, hg⟩ := exists_groupRows hc keys []
    exact ⟨groups, by rw [groupBy, hc]; exact hg⟩

/-- The same for the groups of a whole table. -/
theorem groupBy_induction {I : List (Key × Nat) → List Group → Prop} (empty : I [] [])
    (step : ∀ seen groups key p, key.any Cell.isMissing = false → I seen groups →
      I (seen ++ [(key, p)]) (Group.add key p groups)) (h : t.groupBy names = .ok groups) :
    I ((List.range t.rows).filterMap (t.keyed names)) groups ∧
      ∀ p < t.rows, ∃ k, t.keyOf? names p = some k := by
  rw [groupBy] at h
  obtain ⟨columns, hc, h⟩ := Outcome.bind_eq_ok.1 h
  obtain ⟨rows, keys⟩ := groupRows_induction step (Outcome.ofExcept_eq_ok.1 hc) h
    (show I (([] : List Nat).filterMap (t.keyed names)) [] from empty)
  exact ⟨rows, fun p hp => keys p (List.mem_range.2 hp)⟩

theorem groupBy_spec (h : t.groupBy names = .ok groups) :
    t.GroupedRows names (List.range t.rows) groups ∧
      ∀ p < t.rows, ∃ k, t.keyOf? names p = some k := by
  refine groupBy_induction Grouped.empty (fun seen before key p hm hb => ?_) h
  refine Grouped.add ?_ ?_ hb (Key.beq_self hm) rfl rfl ?_ ?_
  · exact fun _ _ => Key.beq_symm
  · exact fun _ _ _ => Key.beq_trans
  · intro g
    rfl
  · intro g
    rfl

section

variable (h : t.groupBy names = .ok groups)
include h

/-- Every row without missing cells in its key is in a group of that key. -/
theorem exists_group {p : Nat} (hp : p < t.rows) {k : Key} (hk : t.keyOf? names p = some k)
    (hm : k.any Cell.isMissing = false) : ∃ g ∈ groups, (g.key == k) = true := by
  have item : (k, p) ∈ (List.range t.rows).filterMap (t.keyed names) :=
    List.mem_filterMap.2 ⟨p, List.mem_range.2 hp, keyed_eq_some.2 ⟨rfl, hk, hm⟩⟩
  exact (groupBy_spec h).1.covered _ item

theorem mem_positions {g : Group} (hg : g ∈ groups) {p : Nat} : p ∈ g.positions ↔
    p < t.rows ∧ ∃ k, t.keyOf? names p = some k ∧ k.any Cell.isMissing = false ∧
      (g.key == k) = true := by
  rw [(groupBy_spec h).1.members_eq g hg]
  simp only [List.mem_map, List.mem_filter, List.mem_filterMap, List.mem_range, Prod.exists,
    exists_eq_right, keyed_eq_some]
  constructor
  · rintro ⟨k, ⟨q, hq, rfl, hk, hm⟩, hgk⟩
    exact ⟨hq, k, hk, hm, hgk⟩
  · rintro ⟨hp, k, hk, hm, hgk⟩
    exact ⟨k, ⟨p, hp, rfl, hk, hm⟩, hgk⟩

/-- The positions of a group are those of the rows of an equal key. -/
theorem positions_eq_matching {g : Group} (hg : g ∈ groups) {key : Key}
    (hk : (g.key == key) = true) (hm : key.any Cell.isMissing = false) :
    g.positions = t.matching names key := by
  rw [(groupBy_spec h).1.members_eq g hg, matching]
  induction List.range t.rows with
  | nil => rfl
  | cons p rest ih =>
    cases hp : t.keyOf? names p with
    | none =>
      have skipped : t.keyed names p = none := by rw [keyed, hp, Option.bind_none]
      rw [List.filterMap_cons_none skipped, ih, List.filter_cons_of_neg (by simp [hp])]
    | some k =>
      have same : (k == key) = (g.key == k) := Bool.eq_iff_iff.2
        ⟨fun hkk => Key.beq_trans hk (Key.beq_symm hkk),
          fun hgk => Key.beq_trans (Key.beq_symm hgk) hk⟩
      cases hkm : k.any Cell.isMissing with
      | true =>
        have skipped : t.keyed names p = none := by
          rw [keyed, hp, Option.bind_some, if_pos hkm]
        have unequal : ¬ (k == key) = true := by
          intro hkk
          rw [Key.any_isMissing_of_beq hkk hm] at hkm
          cases hkm
        rw [List.filterMap_cons_none skipped, ih, List.filter_cons, hp, Option.any_some,
          if_neg unequal]
      | false =>
        rw [List.filterMap_cons_some (keyed_eq_some.2 ⟨rfl, hp, hkm⟩), List.filter_cons,
          List.filter_cons, hp, Option.any_some, same, ← ih]
        split <;> rfl

end

end Table

end SpanJoin
