import SpanJoin.Proofs.Table.Keys

/-!
# The groups of a table

Grouping a table by some of its columns splits the rows that have a key, which are those without a
missing cell in these columns. `Table.Partition` says how: every such row is in one group, rows are
in a group together if their keys are equal cell by cell, and both the rows of a group and the
groups come in the order of the table. `Table.groupBy_partition` is the proof, for any columns that
the table has, none and repeated ones included. That a group has the key of its first row, cell for
cell, matters where equal keys are not identical, and that is where they have zeros
(`Cell.beq_iff`).
-/

namespace SpanJoin

/-! ## Equal keys -/

namespace Cell

/-- One of the two zeros. -/
def IsZero (a : Cell) : Prop := a = float 0 ∨ a = float Binary64.negativeZero

/-- Equal cells are identical or are zeros. -/
theorem beq_iff {a b : Cell} (ha : a.isMissing = false) :
    (a == b) = true ↔ a = b ∨ a.IsZero ∧ b.IsZero := by
  cases a with
  | float x =>
    cases b with
    | float y =>
      rw [beq_def, equal, Binary64.beq_iff, and_iff_right (show x.isNaN = false from ha)]
      simp [IsZero]
    | _ => simp [beq_def, equal, IsZero]
  | null => cases ha
  | _ => cases b <;> simp [beq_def, equal, IsZero]

end Cell

/-- Keys are equal if their cells are in turn. -/
theorem Key.beq_iff_forall₂ {j k : Key} :
    (j == k) = true ↔ List.Forall₂ (fun a b => (a == b) = true) j k := by
  induction j generalizing k with
  | nil => cases k <;> simp
  | cons a as ih =>
    cases k with
    | nil => simp
    | cons b bs => rw [beq_cons, List.forall₂_cons, ih]

namespace Table

variable {t : Table} {names : List String} {groups : List Group}

/-! ## Rows that have a key -/

/-- The row is there, its cells in the columns of those names are the key, and none is missing. -/
structure HasKey (t : Table) (names : List String) (position : Nat) (key : Key) : Prop where
  lt_rows : position < t.rows
  keyOf?_eq : t.keyOf? names position = some key
  present : key.any Cell.isMissing = false

/-- The rows that have a key, with their keys. -/
def keyedRows (t : Table) (names : List String) : List (Key × Nat) :=
  (List.range t.rows).filterMap (t.keyed names)

theorem mem_keyedRows {p : Nat} {k : Key} :
    (k, p) ∈ t.keyedRows names ↔ t.HasKey names p k := by
  simp only [keyedRows, List.mem_filterMap, List.mem_range, keyed_eq_some]
  constructor
  · rintro ⟨q, hq, rfl, hk, hm⟩
    exact ⟨hq, hk, hm⟩
  · rintro ⟨hp, hk, hm⟩
    exact ⟨p, hp, rfl, hk, hm⟩

/-- They come in the order of the table. -/
theorem keyedRows_ascending (t : Table) (names : List String) :
    ((t.keyedRows names).map Prod.snd).Pairwise (· < ·) := by
  refine List.pairwise_map.2 (List.pairwise_filterMap.2 (List.pairwise_lt_range.imp ?_))
  rintro p q hpq ⟨j, p'⟩ hj ⟨k, q'⟩ hk
  obtain ⟨rfl, -⟩ := keyed_eq_some.1 hj
  obtain ⟨rfl, -⟩ := keyed_eq_some.1 hk
  exact hpq

/-! ## The partition -/

/-- The groups are the rows that have a key, split by equality of their keys. -/
structure Partition (t : Table) (names : List String) (groups : List Group) : Prop where
  /-- No row is in two groups, or twice in one. -/
  nodup : (groups.flatMap Group.positions).Nodup
  /-- The rows in the groups are those that have a key. -/
  mem_iff : ∀ p, p ∈ groups.flatMap Group.positions ↔ ∃ key, t.HasKey names p key
  /-- Two rows are in one group if their keys are equal cell by cell. -/
  together_iff : ∀ {p q : Nat} {j k : Key}, t.HasKey names p j → t.HasKey names q k →
    ((∃ g ∈ groups, p ∈ g.positions ∧ q ∈ g.positions) ↔
      List.Forall₂ (fun a b => (a == b) = true) j k)
  /-- Equal cells are identical or are zeros, so an integer equals no floating-point number. -/
  equal_iff : ∀ {p q : Nat} {j k : Key}, t.HasKey names p j → t.HasKey names q k →
    (List.Forall₂ (fun a b => (a == b) = true) j k ↔
      List.Forall₂ (fun a b : Cell => a = b ∨ a.IsZero ∧ b.IsZero) j k)
  /-- The rows of a group come in the order of the table. -/
  ascending : ∀ g ∈ groups, g.positions.Pairwise (· < ·)
  /-- So do the groups by their first rows, whose keys are the keys of the groups. -/
  firsts : ∃ firsts : List Nat, firsts.Pairwise (· < ·) ∧
    List.Forall₂ (fun g p => g.positions.head? = some p ∧ t.HasKey names p g.key) groups firsts

section

variable (h : t.groupBy names = .ok groups)
include h

theorem groupBy_dealt :
    Dealt Prod.fst Prod.snd Group.key Group.positions (t.keyedRows names) groups := by
  refine (groupBy_induction Dealt.empty (fun seen before key p _ hb => ?_) h).1
  exact hb.add _ rfl rfl (fun _ => rfl) fun _ => rfl

theorem together_iff_beq {p q : Nat} {j k : Key} (hp : t.HasKey names p j)
    (hq : t.HasKey names q k) :
    (∃ g ∈ groups, p ∈ g.positions ∧ q ∈ g.positions) ↔ (j == k) = true := by
  constructor
  · rintro ⟨g, hg, hpg, hqg⟩
    obtain ⟨-, j', hj, -, hgj⟩ := (mem_positions h hg).1 hpg
    obtain ⟨-, k', hk, -, hgk⟩ := (mem_positions h hg).1 hqg
    obtain rfl : j = j' := Option.some.inj (hp.keyOf?_eq.symm.trans hj)
    obtain rfl : k = k' := Option.some.inj (hq.keyOf?_eq.symm.trans hk)
    exact Key.beq_trans (Key.beq_symm hgj) hgk
  · intro hjk
    obtain ⟨g, hg, hgj⟩ := exists_group h hp.lt_rows hp.keyOf?_eq hp.present
    exact ⟨g, hg, (mem_positions h hg).2 ⟨hp.lt_rows, j, hp.keyOf?_eq, hp.present, hgj⟩,
      (mem_positions h hg).2 ⟨hq.lt_rows, k, hq.keyOf?_eq, hq.present, Key.beq_trans hgj hjk⟩⟩

/-- The groups that are found are the partition. -/
theorem partition_of_groupBy : t.Partition names groups where
  nodup := (groupBy_dealt h).perm.nodup_iff.2 ((t.keyedRows_ascending names).imp Nat.ne_of_lt)
  mem_iff p := by
    rw [(groupBy_dealt h).perm.mem_iff]
    simp [mem_keyedRows]
  together_iff hp hq := (together_iff_beq h hp hq).trans Key.beq_iff_forall₂
  equal_iff {p q j k} hp hq := by
    have present : ∀ a ∈ j, a.isMissing = false := by simpa using hp.present
    exact ⟨fun he => forall₂_imp_of_mem he fun a ha b _ => (Cell.beq_iff (present a ha)).1,
      fun he => forall₂_imp_of_mem he fun a ha b _ => (Cell.beq_iff (present a ha)).2⟩
  ascending g hg := by
    rw [(groupBy_spec h).1.members_eq g hg]
    exact (t.keyedRows_ascending names).sublist (List.filter_sublist.map Prod.snd)
  firsts := by
    obtain ⟨founders, sub, firsts⟩ := (groupBy_dealt h).founders
    refine ⟨founders.map Prod.snd, (t.keyedRows_ascending names).sublist (sub.map _), ?_⟩
    rw [← List.forall₂_eq_eq_eq, List.forall₂_map_left_iff, List.forall₂_map_right_iff] at firsts
    refine List.forall₂_map_right_iff.2 (forall₂_imp_of_mem firsts fun g _ row hrow e => ?_)
    obtain ⟨key_eq, first⟩ := Prod.mk.inj e
    exact ⟨first, key_eq ▸ mem_keyedRows.1 (sub.subset hrow)⟩

end

/-- **Grouping is a partition.** A table can be grouped by any of its columns, and the groups are
the rows without a missing cell in these columns: every one of them once, together with those of an
equal key, in the order of the table, and with the key of the first row of a group. -/
theorem groupBy_partition {t : Table} (ht : t.WellFormed) {names : List String}
    (hn : ∀ name ∈ names, name ∈ t.names) :
    ∃ groups, t.groupBy names = .ok groups ∧ t.Partition names groups := by
  obtain ⟨groups, h⟩ := (exists_groupBy_iff ht).2 hn
  exact ⟨groups, h, partition_of_groupBy h⟩

/-- Marks on roads. Both zeros occur, the integer zero, and what is not a number. -/
def marks : Table :=
  ⟨Cell.counting 7,
    [⟨"road", [.text "M1", .text "M1", .null, .text "M1", .text "A2", .text "M1", .text "M1"]⟩,
      ⟨"at", [.float Binary64.negativeZero, .int 0, .int 0, .float 0, .float 0, .float Binary64.nan,
        .int 0]⟩]⟩

/-- The marks by road and place. -/
def groupsOfMarks : List Group :=
  [⟨[.text "M1", .float Binary64.negativeZero], [0, 3]⟩, ⟨[.text "M1", .int 0], [1, 6]⟩,
    ⟨[.text "A2", .float 0], [4]⟩]

theorem groupBy_partition_marks : marks.WellFormed ∧
    (∀ name ∈ ["road", "at"], name ∈ marks.names) ∧
    marks.groupBy ["road", "at"] = .ok groupsOfMarks ∧
    marks.Partition ["road", "at"] groupsOfMarks := by
  have whole : marks.WellFormed := ⟨by decide, by decide⟩
  have names : ∀ name ∈ ["road", "at"], name ∈ marks.names := by decide
  obtain ⟨groups, found, partition⟩ := groupBy_partition whole names
  have value : marks.groupBy ["road", "at"] = .ok groupsOfMarks := by decide
  obtain rfl : groups = groupsOfMarks := Except.ok.inj (found.symm.trans value)
  exact ⟨whole, names, value, partition⟩

end Table

end SpanJoin
