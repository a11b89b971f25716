import SpanJoin.Proofs.Datum.Relabelled

/-!
# The groups of a series

Grouping a series by the cells of another one splits the rows whose key is not missing. Labels match
more widely than they are equal, and floating-point keys need not fall into classes; whatever the
keys are, every such row is in one group (`KeyedRows.dealt_collect`). If none of them is a
floating-point number, the groups are the rows by their keys, in the ascending order of the keys
(`KeyedRows.Partition`), and a total by group has one row for each key (`GroupedSeries.partition`).
-/

namespace SpanJoin

/-! ## The order of keys -/

namespace Cell

/-- The order of keys that are no floating-point numbers: truth values come before integers, and
these before texts; two of a kind are ordered by value. -/
inductive Before : Cell → Cell → Prop
  | bool : Before (bool false) (bool true)
  | int {m n : Int64} (h : m.toInt < n.toInt) : Before (int m) (int n)
  | text {s t : String} (h : s < t) : Before (text s) (text t)
  | bool_int (b : Bool) (n : Int64) : Before (bool b) (int n)
  | bool_text (b : Bool) (s : String) : Before (bool b) (text s)
  | int_text (n : Int64) (s : String) : Before (int n) (text s)

/-- The cell is there and is no floating-point number. -/
structure Exact (a : Cell) : Prop where
  present : a.isMissing = false
  notFloat : a.isFloat = false

variable {a b c : Cell}

theorem Before.trans (hab : a.Before b) (hbc : b.Before c) : a.Before c := by
  cases hab with
  | int h =>
    cases hbc with
    | int h' => exact .int (h.trans h')
    | int_text => constructor
  | text h =>
    cases hbc with
    | text h' => exact .text (h.trans h')
  | bool | bool_int | bool_text | int_text => cases hbc <;> constructor

theorem Before.irrefl (a : Cell) : ¬ a.Before a := by
  rintro h
  cases h with
  | int h => exact lt_irrefl _ h
  | text h => exact lt_irrefl _ h

/-- Comparing two keys tells which one comes before the other, if they are not identical. -/
theorem orderKey_cases (ha : a.Exact) (hb : b.Exact) :
    a = b ∧ a.orderKey b = .eq ∨ a.Before b ∧ a.orderKey b = .lt ∨
      b.Before a ∧ a.orderKey b = .gt := by
  obtain ⟨ma, fa⟩ := ha
  obtain ⟨mb, fb⟩ := hb
  cases a <;> cases b <;> simp only [isMissing, isFloat, reduceCtorEq] at ma fa mb fb
  case bool.bool p q =>
    cases p <;> cases q
    · exact .inl ⟨rfl, rfl⟩
    · exact .inr (.inl ⟨.bool, rfl⟩)
    · exact .inr (.inr ⟨.bool, rfl⟩)
    · exact .inl ⟨rfl, rfl⟩
  case int.int m n =>
    simp only [orderKey, compare?, Option.getD_some, orderInt]
    rcases lt_trichotomy m.toInt n.toInt with h | h | h
    · exact .inr (.inl ⟨.int h, if_pos h⟩)
    · exact .inl ⟨congrArg int (Int64.toInt_inj.1 h), by simp [h]⟩
    · exact .inr (.inr ⟨.int h, by rw [if_neg h.asymm, if_pos h]⟩)
  case text.text s t =>
    simp only [orderKey, compare?, Option.getD_some, orderText]
    rcases lt_trichotomy s t with h | h | h
    · exact .inr (.inl ⟨.text h, if_pos h⟩)
    · exact .inl ⟨congrArg text h, by rw [h, if_neg (lt_irrefl t), if_neg (lt_irrefl t)]⟩
    · exact .inr (.inr ⟨.text h, by rw [if_neg h.asymm, if_pos h]⟩)
  case bool.int | bool.text | int.text => exact .inr (.inl ⟨by constructor, rfl⟩)
  case int.bool | text.bool | text.int => exact .inr (.inr ⟨by constructor, rfl⟩)

/-- Not to come after a key is to be that key or to come before it. -/
theorem orderKey_ne_gt_iff (ha : a.Exact) (hb : b.Exact) :
    a.orderKey b ≠ .gt ↔ a = b ∨ a.Before b := by
  rcases orderKey_cases ha hb with ⟨same, e⟩ | ⟨before, e⟩ | ⟨after, e⟩ <;> rw [e]
  · exact ⟨fun _ => .inl same, fun _ => nofun⟩
  · exact ⟨fun _ => .inr before, fun _ => nofun⟩
  · simp only [ne_eq, not_true_eq_false, false_iff]
    rintro (rfl | before)
    · exact after.irrefl _
    · exact Before.irrefl _ (before.trans after)

end Cell

namespace KeyedRows

variable {keys : List Cell} {groups : List KeyedRows}

/-! ## Rows that have a key -/

/-- The rows whose key is not missing, with their keys. -/
def presentRows (keys : List Cell) : List (Cell × Nat) :=
  keys.zipIdx.filter fun row => !row.1.isMissing

theorem mem_presentRows {a : Cell} {p : Nat} :
    (a, p) ∈ presentRows keys ↔ keys[p]? = some a ∧ a.isMissing = false := by
  simp [presentRows, List.mem_zipIdx_iff_getElem?]

/-- They come in the order of the series. -/
theorem presentRows_ascending (keys : List Cell) :
    ((presentRows keys).map Prod.snd).Pairwise (· < ·) := by
  have all : (keys.zipIdx.map Prod.snd).Pairwise (· < ·) := by
    rw [List.zipIdx_map_snd]
    exact List.pairwise_lt_range'
  exact all.sublist (List.filter_sublist.map Prod.snd)

theorem collect_eq_foldl (keys : List Cell) : collect keys =
    (presentRows keys).foldl (fun groups row => add row.1 row.2 groups) [] := by
  rw [collect, presentRows, List.foldl_filter]
  congr 1
  funext groups row
  cases row.1.isMissing <;> rfl

/-- What holds before any row and stays when a row is added to its group holds of the groups in the
end. -/
theorem collect_induction {I : List (Cell × Nat) → List KeyedRows → Prop} (empty : I [] [])
    (step : ∀ seen groups row, row ∈ presentRows keys → I seen groups →
      I (seen ++ [row]) (add row.1 row.2 groups)) : I (presentRows keys) (collect keys) := by
  have all (rows : List (Cell × Nat)) (hr : ∀ row ∈ rows, row ∈ presentRows keys) :
      I rows (rows.foldl (fun groups row => add row.1 row.2 groups) []) := by
    induction rows using List.reverseRecOn with
    | nil => exact empty
    | append_singleton rows row ih =>
      rw [List.foldl_append]
      exact step _ _ row (hr row (by simp)) (ih fun r h => hr r (List.mem_append_left _ h))
  rw [collect_eq_foldl]
  exact all _ fun _ h => h

/-- Whatever the keys are, every row with a key is in one group. -/
theorem dealt_collect (keys : List Cell) :
    Dealt Prod.fst Prod.snd key positions (presentRows keys) (collect keys) := by
  refine collect_induction Dealt.empty fun seen groups row _ hg => ?_
  exact hg.add _ rfl rfl (fun _ => rfl) fun _ => rfl

/-- So it is once the groups are sorted. -/
theorem positions_perm (keys : List Cell) :
    ((sortBy keyLE (collect keys)).flatMap positions).Perm ((presentRows keys).map Prod.snd) :=
  ((sortBy_perm _).flatMap_right _).trans (dealt_collect keys).perm

/-! ## Groups of keys that are no floating-point numbers -/

/-- The rows that have a key, split by their keys, in the order of the keys. -/
structure Partition (keys : List Cell) (groups : List KeyedRows) : Prop where
  /-- No row is in two groups, or twice in one. -/
  nodup : (groups.flatMap positions).Nodup
  /-- The rows in the groups are those whose key is not missing. -/
  mem_iff : ∀ p, p ∈ groups.flatMap positions ↔ ∃ a, keys[p]? = some a ∧ a.isMissing = false
  /-- Two rows are in one group if their keys are the same. -/
  together_iff : ∀ {p q : Nat} {a b : Cell}, keys[p]? = some a → a.isMissing = false →
    keys[q]? = some b → b.isMissing = false →
    ((∃ g ∈ groups, p ∈ g.positions ∧ q ∈ g.positions) ↔ a = b)
  /-- A group holds the rows of its key. -/
  mem_positions_iff : ∀ g ∈ groups, ∀ p, p ∈ g.positions ↔ keys[p]? = some g.key
  /-- The rows of a group come in the order of the series. -/
  ascending : ∀ g ∈ groups, g.positions.Pairwise (· < ·)
  /-- Every key that is not missing has a group. -/
  key_iff : ∀ a, (∃ g ∈ groups, g.key = a) ↔ a ∈ keys ∧ a.isMissing = false
  /-- The groups come in the order of their keys. -/
  keys_ascending : groups.Pairwise fun g h => g.key.Before h.key

section

variable (clean : ∀ k ∈ keys, k.isFloat = false)
include clean

/-- The groups are the rows by their keys. -/
theorem grouped_collect :
    Grouped (fun a b : Cell => decide (a = b)) Prod.fst Prod.snd key positions (presentRows keys)
      (collect keys) := by
  have noFloat : ∀ row ∈ presentRows keys, row.1.isFloat = false := fun row hr =>
    clean _ (List.mem_of_getElem? (mem_presentRows.1 hr).1)
  refine (collect_induction (I := fun seen groups => (∀ row ∈ seen, row.1.isFloat = false) ∧
    Grouped (fun a b : Cell => decide (a = b)) Prod.fst Prod.snd key positions seen groups)
    ⟨by simp, Grouped.empty⟩ fun seen groups row hr ⟨floats, hg⟩ => ⟨?_, ?_⟩).2
  · exact List.forall_mem_append.2 ⟨floats, by simpa using noFloat row hr⟩
  · -- a group has the key of one of its rows, so a key matches it only if it is the same
    have same : ∀ g ∈ groups, g.key.sameLabel row.1 = decide (g.key = row.1) := by
      intro g hg'
      obtain ⟨p, hp⟩ := List.exists_mem_of_ne_nil _ (hg.nonempty g hg')
      rw [hg.members_eq g hg'] at hp
      obtain ⟨founder, hf, -⟩ := List.mem_map.1 hp
      obtain ⟨hf, hkey⟩ := List.mem_filter.1 hf
      have key : g.key.isFloat = false := of_decide_eq_true hkey ▸ floats founder hf
      rw [Bool.eq_iff_iff, Cell.sameLabel_iff_eq key (noFloat row hr), decide_eq_true_iff]
    rw [add, upsert_congr same]
    refine Grouped.add ?_ ?_ hg (by simp) rfl rfl (fun _ => rfl) fun _ => rfl
    · simp
    · simp

theorem mem_positions {g : KeyedRows} (hg : g ∈ collect keys) {p : Nat} :
    p ∈ g.positions ↔ keys[p]? = some g.key ∧ g.key.isMissing = false := by
  rw [(grouped_collect clean).members_eq g hg]
  simp [mem_presentRows]

/-- The key of a group is the key of one of its rows. -/
theorem exact_of_mem {g : KeyedRows} (hg : g ∈ collect keys) : g.key.Exact := by
  obtain ⟨p, hp⟩ := List.exists_mem_of_ne_nil _ ((grouped_collect clean).nonempty g hg)
  obtain ⟨row, present⟩ := (mem_positions clean hg).1 hp
  exact ⟨present, clean _ (List.mem_of_getElem? row)⟩

theorem exists_mem_collect {p : Nat} {a : Cell} (ha : keys[p]? = some a)
    (present : a.isMissing = false) : ∃ g ∈ collect keys, g.key = a := by
  obtain ⟨g, hg, same⟩ := (grouped_collect clean).covered _ (mem_presentRows.2 ⟨ha, present⟩)
  exact ⟨g, hg, of_decide_eq_true same⟩

omit clean in
theorem keyLE_iff {g h : KeyedRows} (hg : g.key.Exact) (hh : h.key.Exact) :
    keyLE g h = true ↔ g.key = h.key ∨ g.key.Before h.key := by
  rw [keyLE, bne_iff_ne, Cell.orderKey_ne_gt_iff hg hh]

/-- Sorted by their keys, the groups come in the strict order of the keys. -/
theorem sortBy_keys_ascending :
    (sortBy keyLE (collect keys)).Pairwise fun g h => g.key.Before h.key := by
  have sorted : (sortBy keyLE (collect keys)).Pairwise fun g h => keyLE g h := by
    refine pairwise_sortBy_of_forall (S := fun g => g.key.Exact) ?_ ?_ fun g => exact_of_mem clean
    · intro g h hg hh
      rw [Bool.or_eq_true, keyLE_iff hg hh, keyLE_iff hh hg]
      rcases Cell.orderKey_cases hg hh with ⟨same, -⟩ | ⟨before, -⟩ | ⟨after, -⟩
      · exact .inl (.inl same)
      · exact .inl (.inr before)
      · exact .inr (.inr after)
    · intro f g h hf hg hh hfg hgh
      rw [keyLE_iff hf hg] at hfg
      rw [keyLE_iff hg hh] at hgh
      rw [keyLE_iff hf hh]
      rcases hfg with e | hfg
      · rwa [e]
      · rcases hgh with e | hgh
        · exact .inr (e ▸ hfg)
        · exact .inr (hfg.trans hgh)
  have apart : (sortBy keyLE (collect keys)).Pairwise fun g h => g.key ≠ h.key :=
    (sortBy_perm _).symm.pairwise ((grouped_collect clean).apart.imp of_decide_eq_false) Ne.symm
  refine (sorted.and apart).imp_of_mem fun {g h} hg hh ⟨le, ne⟩ => ?_
  have hg := exact_of_mem clean ((sortBy_perm _).subset hg)
  have hh := exact_of_mem clean ((sortBy_perm _).subset hh)
  exact ((keyLE_iff hg hh).1 le).resolve_left ne

theorem partition : Partition keys (sortBy keyLE (collect keys)) where
  nodup := (positions_perm keys).nodup_iff.2 ((presentRows_ascending keys).imp Nat.ne_of_lt)
  mem_iff p := by
    rw [(positions_perm keys).mem_iff]
    simp [mem_presentRows]
  together_iff {p q a b} ha ma hb mb := by
    constructor
    · rintro ⟨g, hg, hp, hq⟩
      have hg := (sortBy_perm _).subset hg
      have ea := ((mem_positions clean hg).1 hp).1
      have eb := ((mem_positions clean hg).1 hq).1
      exact Option.some.inj ((ha.symm.trans ea).trans (eb.symm.trans hb))
    · rintro rfl
      obtain ⟨g, hg, rfl⟩ := exists_mem_collect clean ha ma
      exact ⟨g, (sortBy_perm _).mem_iff.2 hg, (mem_positions clean hg).2 ⟨ha, ma⟩,
        (mem_positions clean hg).2 ⟨hb, mb⟩⟩
  mem_positions_iff g hg p := by
    have hg := (sortBy_perm _).subset hg
    rw [mem_positions clean hg, and_iff_left (exact_of_mem clean hg).present]
  ascending g hg := by
    rw [(grouped_collect clean).members_eq g ((sortBy_perm _).subset hg)]
    exact (presentRows_ascending keys).sublist (List.filter_sublist.map Prod.snd)
  key_iff a := by
    constructor
    · rintro ⟨g, hg, rfl⟩
      have hg := (sortBy_perm _).subset hg
      obtain ⟨p, hp⟩ := List.exists_mem_of_ne_nil _ ((grouped_collect clean).nonempty g hg)
      obtain ⟨row, present⟩ := (mem_positions clean hg).1 hp
      exact ⟨List.mem_of_getElem? row, present⟩
    · rintro ⟨ha, present⟩
      obtain ⟨p, hp⟩ := List.mem_iff_getElem?.1 ha
      obtain ⟨g, hg, e⟩ := exists_mem_collect clean hp present
      exact ⟨g, (sortBy_perm _).mem_iff.2 hg, e⟩
  keys_ascending := sortBy_keys_ascending clean

end

end KeyedRows

/-! ## Totals by group -/

/-- The cells of the rows whose keys have a property stand at the positions of these rows. -/
theorem picks_filter {keys cells : List Cell} (h : keys.length = cells.length) (f : Cell → Bool) :
    Table.Picks cells ((keys.zipIdx.filter fun row => f row.1).map Prod.snd)
      (((keys.zip cells).filter fun row => f row.1).map Prod.snd) := by
  have rows : List.Forall₂ (fun r s => r.1 = s.1 ∧ cells[r.2]? = some s.2) keys.zipIdx
      (keys.zip cells) := by
    refine forall₂_of_getElem? (by simp [h]) fun i r s hr hs => ?_
    obtain ⟨hk, hc⟩ := List.getElem?_zip_eq_some.1 hs
    rw [List.getElem?_zipIdx, hk, Option.map_some, Option.some.injEq] at hr
    subst hr
    exact ⟨rfl, by simpa using hc⟩
  rw [Table.Picks, List.forall₂_map_left_iff, List.forall₂_map_right_iff]
  refine (List.rel_filter (fun r s hrs => ?_) rows).imp fun r s hrs => hrs.2
  change f r.1 = true ↔ f s.1 = true
  rw [hrs.1]

/-- The cells of the rows of a key. -/
def cellsUnder (keys cells : List Cell) (key : Cell) : List Cell :=
  ((keys.zip cells).filter fun row => decide (row.1 = key)).map Prod.snd

/-- The positions in a group are those of the rows of its key. -/
theorem KeyedRows.positions_eq {keys : List Cell} (clean : ∀ k ∈ keys, k.isFloat = false)
    {g : KeyedRows} (hg : g ∈ collect keys) :
    g.positions = (keys.zipIdx.filter fun row => decide (row.1 = g.key)).map Prod.snd := by
  rw [(grouped_collect clean).members_eq g hg, presentRows, List.filter_filter]
  congr 1
  refine List.filter_congr fun row _ => ?_
  by_cases same : row.1 = g.key
  · simp [same, (exact_of_mem clean hg).present]
  · simp [same, Ne.symm same]

namespace Datum

/-- Series with equal labels can be grouped by one another. -/
theorem groupBy_of_alignedWith {s keys : Series} (aligned : s.alignedWith keys = true) :
    groupBy (.series s) (.series keys) = .ok (.grouped ⟨keys.cells, s⟩) := by
  simp only [groupBy, GroupedSeries.ofSeries, aligned, if_true]
  rfl

theorem groupTotal_eq_ok_iff {cells chosen : List Cell} {g : KeyedRows} {x : Cell}
    (h : Table.Picks cells g.positions chosen) :
    groupTotal cells g = .ok x ↔ total chosen = .ok x := by
  rw [groupTotal, mapM_eq_some_iff.2 h]
  exact Outcome.ofExcept_eq_ok

/-- A total by group has the keys of the groups as labels and their totals as cells. -/
theorem sum_grouped_eq_ok_iff {g : GroupedSeries} {d : Datum} : sum (.grouped g) = .ok d ↔
    ∃ totals,
      List.Forall₂ (fun group x => groupTotal g.series.cells group = .ok x) g.groups totals ∧
        d = .series ⟨g.series.name, g.groups.map KeyedRows.key, totals⟩ := by
  simp only [sum]
  constructor
  · intro h
    obtain ⟨totals, ht, h⟩ := Outcome.bind_eq_ok.1 h
    obtain ⟨s, hs, h⟩ := Outcome.bind_eq_ok.1 h
    obtain ⟨rfl, -⟩ := Series.ofIndex_eq_ok_iff.1 (Outcome.ofExcept_mapError_eq_ok.1 hs)
    exact ⟨totals, mapM_eq_ok_iff.1 ht, (Except.ok.inj h).symm⟩
  · rintro ⟨totals, ht, rfl⟩
    have built : Series.ofIndex (g.groups.map KeyedRows.key) totals =
        .ok ⟨none, g.groups.map KeyedRows.key, totals⟩ :=
      Series.ofIndex_eq_ok_iff.2 ⟨rfl, by simp [Series.WellFormed, ht.length_eq]⟩
    rw [mapM_eq_ok_iff.2 ht, Outcome.ok_bind, built]
    rfl

end Datum

/-- **Groups in the order of their keys.** A series can be grouped by any series with the same row
labels. If no key is a floating-point number, the groups are the rows whose key is not missing,
split by their keys and in the order of these, and the total of the groups has one row for each key
in this order, with the total of its cells. -/
theorem GroupedSeries.groups_in_key_order {s keys : Series} (hs : s.WellFormed)
    (hk : keys.WellFormed) (aligned : s.alignedWith keys = true)
    (clean : ∀ k ∈ keys.cells, k.isFloat = false) :
    ∃ g, Datum.groupBy (.series s) (.series keys) = .ok (.grouped g) ∧
      KeyedRows.Partition keys.cells g.groups ∧
      ∀ d, Datum.sum (.grouped g) = .ok d ↔ ∃ totals,
        List.Forall₂ (fun group x => total (cellsUnder keys.cells s.cells group.key) = .ok x)
          g.groups totals ∧ d = .series ⟨s.name, g.groups.map KeyedRows.key, totals⟩ := by
  have lengths : keys.cells.length = s.cells.length := hs.length_cells_eq hk aligned
  refine ⟨_, Datum.groupBy_of_alignedWith aligned, KeyedRows.partition clean, fun d => ?_⟩
  rw [Datum.sum_grouped_eq_ok_iff]
  refine exists_congr fun totals => and_congr_left fun _ => ?_
  have same : ∀ group ∈ groups ⟨keys.cells, s⟩, ∀ x, Datum.groupTotal s.cells group = .ok x ↔
      total (cellsUnder keys.cells s.cells group.key) = .ok x := by
    intro group hg x
    refine Datum.groupTotal_eq_ok_iff ?_
    rw [KeyedRows.positions_eq clean ((sortBy_perm _).subset hg)]
    exact picks_filter lengths fun k => decide (k = group.key)
  exact ⟨fun h => forall₂_imp_of_mem h fun group hg x _ => (same group hg x).1,
    fun h => forall₂_imp_of_mem h fun group hg x _ => (same group hg x).2⟩

/-- Lengths of stretches. -/
def stretchLengths : Series :=
  ⟨some "length", Cell.counting 6, [.int 3, .int 4, .int 5, .bool true, .int 7, .null]⟩

/-- Keys of all kinds for them. -/
def mixedKeys : Series :=
  ⟨none, Cell.counting 6, [.text "M1", .int 2, .null, .bool true, .text "M1", .int (-2)]⟩

/-- The rows by these keys. -/
def mixedGroups : List KeyedRows :=
  [⟨.bool true, [3]⟩, ⟨.int (-2), [5]⟩, ⟨.int 2, [1]⟩, ⟨.text "M1", [0, 4]⟩]

theorem GroupedSeries.groups_in_key_order_mixed : stretchLengths.WellFormed ∧ mixedKeys.WellFormed ∧
    stretchLengths.alignedWith mixedKeys = true ∧ (∀ k ∈ mixedKeys.cells, k.isFloat = false) ∧
    ∃ g, Datum.groupBy (.series stretchLengths) (.series mixedKeys) = .ok (.grouped g) ∧
      g.groups = mixedGroups ∧ KeyedRows.Partition mixedKeys.cells mixedGroups ∧
      Datum.sum (.grouped g) = .ok (.series ⟨some "length", mixedGroups.map KeyedRows.key,
        [.int 1, .int 0, .int 4, .int 10]⟩) := by
  have aligned : stretchLengths.alignedWith mixedKeys = true := by decide
  have clean : ∀ k ∈ mixedKeys.cells, k.isFloat = false := by decide
  obtain ⟨g, grouped, partition, sums⟩ :=
    @groups_in_key_order stretchLengths mixedKeys rfl rfl aligned clean
  have groups : g.groups = mixedGroups := by
    cases grouped
    decide
  rw [groups] at partition sums
  refine ⟨rfl, rfl, aligned, clean, g, grouped, groups, partition, (sums _).2 ⟨_, ?_, rfl⟩⟩
  exact .cons rfl (.cons rfl (.cons rfl (.cons rfl .nil)))

end SpanJoin
