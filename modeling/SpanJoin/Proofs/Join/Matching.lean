import SpanJoin.Join.Basic
import SpanJoin.Proofs.Table.Keys

/-!
# Matching left rows with right rows

A left group is matched with the right rows of its key, or with none or passed over as the policy
says (`matchGroups_spec`). For a left row with the key `key` this comes to the rows that a search
through the right table finds (`Join.matched_of_mem`), and a row that no group was matched for has a
missing key, or a key that no right row shares (`Join.unmatched_of_forall`).
-/

namespace SpanJoin

namespace Table

theorem CutTo.keyOf?_eq {t u : Table} {names keys : List String} (h : u.CutTo t names)
    (hk : ∀ k ∈ keys, k ∈ names) (p : Nat) : u.keyOf? keys p = t.keyOf? keys p := by
  rw [keyOf?, keyOf?]
  induction keys with
  | nil => rfl
  | cons k keys ih =>
    rw [List.mapM_cons, List.mapM_cons, h.cell?_eq (hk k List.mem_cons_self),
      ih fun j hj => hk j (List.mem_cons_of_mem k hj)]

theorem CutTo.matching_eq {t u : Table} {names keys : List String} (h : u.CutTo t names)
    (hk : ∀ k ∈ keys, k ∈ names) (key : Key) : u.matching keys key = t.matching keys key := by
  rw [matching, matching, h.rows_eq]
  congr 1
  funext p
  rw [h.keyOf?_eq hk]

theorem lt_of_mem_matching {t : Table} {names : List String} {key : Key} {p : Nat}
    (h : p ∈ t.matching names key) : p < t.rows :=
  List.mem_range.1 (List.mem_filter.1 h).1

end Table

namespace Join

/-- The right positions that a left group is matched with. -/
inductive MatchedWith (policy : Unmatched) (rightGroups : List Group) (g : Group) :
    List Nat → Prop
  | found {h : Group} (hf : rightGroups.find? (fun h => h.key == g.key) = some h) :
      MatchedWith policy rightGroups g h.positions
  | nothing (hf : rightGroups.find? (fun h => h.key == g.key) = none)
      (hp : policy = .evaluateEmpty) : MatchedWith policy rightGroups g []

variable {policy : Unmatched} {right : Table} {lengths : List Cell}
  {rightGroups groups : List Group} {ms : List Matched}

theorem leftPositions_matchRows {leftPositions js : List Nat} {m : Matched}
    (h : matchRows right lengths leftPositions js = .ok m) : m.leftPositions = leftPositions := by
  obtain ⟨rows, -, h⟩ := Outcome.bind_eq_ok.1 h
  obtain ⟨cells, -, h⟩ := Outcome.bind_eq_ok.1 h
  obtain ⟨series, -, h⟩ := Outcome.bind_eq_ok.1 h
  rw [← Except.ok.inj h]

/-- The first group is matched and the others after it, or it is passed over. -/
theorem matchGroups_cons {g : Group}
    (h : matchGroups policy right lengths rightGroups (g :: groups) = .ok ms) :
    (rightGroups.find? (fun h => h.key == g.key) = none ∧ policy = .null ∧
      matchGroups policy right lengths rightGroups groups = .ok ms) ∨
    ∃ js m rest, MatchedWith policy rightGroups g js ∧
      matchRows right lengths g.positions js = .ok m ∧
      matchGroups policy right lengths rightGroups groups = .ok rest ∧ ms = m :: rest := by
  have matched {js : List Nat} (hj : MatchedWith policy rightGroups g js)
      (h : (do
        let m ← matchRows right lengths g.positions js
        let rest ← matchGroups policy right lengths rightGroups groups
        return m :: rest) = Except.ok ms) :
      ∃ js m rest, MatchedWith policy rightGroups g js ∧
        matchRows right lengths g.positions js = .ok m ∧
        matchGroups policy right lengths rightGroups groups = .ok rest ∧ ms = m :: rest := by
    obtain ⟨m, hm, h⟩ := Outcome.bind_eq_ok.1 h
    obtain ⟨rest, hr, h⟩ := Outcome.bind_eq_ok.1 h
    exact ⟨js, m, rest, hj, hm, hr, (Except.ok.inj h).symm⟩
  unfold matchGroups at h
  cases hf : rightGroups.find? (fun h => h.key == g.key) with
  | some found =>
    simp only [hf, Outcome.ok_bind] at h
    exact .inr (matched (.found hf) h)
  | none =>
    cases policy with
    | null =>
      simp only [hf, Outcome.ok_bind] at h
      exact .inl ⟨rfl, rfl, h⟩
    | evaluateEmpty =>
      simp only [hf, Outcome.ok_bind] at h
      exact .inr (matched (.nothing hf rfl) h)
    | error =>
      simp only [hf, Outcome.error_bind] at h
      cases h

/-- Every match is one of a left group, and a left group without a match was passed over. -/
theorem matchGroups_spec (h : matchGroups policy right lengths rightGroups groups = .ok ms) :
    (∀ m ∈ ms, ∃ g ∈ groups, ∃ js, MatchedWith policy rightGroups g js ∧
      matchRows right lengths g.positions js = .ok m) ∧
    ∀ g ∈ groups, (rightGroups.find? (fun h => h.key == g.key) = none ∧ policy = .null) ∨
      ∃ m ∈ ms, m.leftPositions = g.positions := by
  induction groups generalizing ms with
  | nil =>
    obtain rfl : [] = ms := Except.ok.inj h
    simp
  | cons g groups ih =>
    rcases matchGroups_cons h with ⟨hf, hp, hrest⟩ | ⟨js, m, rest, hj, hm, hrest, rfl⟩
    · obtain ⟨left, right⟩ := ih hrest
      refine ⟨fun m hm => ?_, fun g' hg => ?_⟩
      · obtain ⟨g', hg, h⟩ := left m hm
        exact ⟨g', List.mem_cons_of_mem g hg, h⟩
      · rcases List.mem_cons.1 hg with rfl | hg
        · exact .inl ⟨hf, hp⟩
        · exact right g' hg
    · obtain ⟨left, right⟩ := ih hrest
      refine ⟨fun m' hm' => ?_, fun g' hg => ?_⟩
      · rcases List.mem_cons.1 hm' with rfl | hm'
        · exact ⟨g, List.mem_cons_self, js, hj, hm⟩
        · obtain ⟨g', hg, h⟩ := left m' hm'
          exact ⟨g', List.mem_cons_of_mem g hg, h⟩
      · rcases List.mem_cons.1 hg with rfl | hg
        · exact .inr ⟨m, List.mem_cons_self, leftPositions_matchRows hm⟩
        · rcases right g' hg with none | ⟨m', hm', e⟩
          · exact .inl none
          · exact .inr ⟨m', List.mem_cons_of_mem m hm', e⟩

/-! ## Matching by key -/

/-- The right group of a left key holds the rows of that key; without such a group there are none.
-/
theorem positions_of_find? {keys : List String} (hr : right.groupBy keys = .ok rightGroups)
    {g : Group} {key : Key} (hg : (g.key == key) = true) (hm : key.any Cell.isMissing = false) :
    (∀ f, rightGroups.find? (fun h => h.key == g.key) = some f →
      f.positions = right.matching keys key ∧ right.matching keys key ≠ []) ∧
    (rightGroups.find? (fun h => h.key == g.key) = none → right.matching keys key = []) := by
  constructor
  · intro f hf
    have hmem := List.mem_of_find?_eq_some hf
    have hfg : (f.key == g.key) = true := by simpa using List.find?_some hf
    have same := Table.positions_eq_matching hr hmem (Key.beq_trans hfg hg) hm
    refine ⟨same, ?_⟩
    rw [← same]
    exact (Table.groupBy_spec hr).1.nonempty f hmem
  · intro hf
    rw [List.eq_nil_iff_forall_not_mem]
    intro p hp
    obtain ⟨hp, hk⟩ := List.mem_filter.1 hp
    obtain ⟨k, hk, hkk⟩ := (Option.any_eq_true _ _).1 hk
    obtain ⟨f, hmem, hfk⟩ := Table.exists_group hr (List.mem_range.1 hp) hk
      (Key.any_isMissing_of_beq hkk hm)
    have none := List.find?_eq_none.1 hf f hmem
    exact none (Key.beq_trans hfk (Key.beq_trans hkk (Key.beq_symm hg)))

section

variable {left : Table} {keys : List String} {leftGroups : List Group} {i : Nat}
  (hl : left.groupBy keys = .ok leftGroups) (hr : right.groupBy keys = .ok rightGroups)
  (h : matchGroups policy right lengths rightGroups leftGroups = .ok ms)
include hl hr h

/-- A left row in a match is matched with the right rows of its key. -/
theorem matched_of_mem {m : Matched} (hm : m ∈ ms) (hi : i ∈ m.leftPositions) :
    ∃ key, left.keyOf? keys i = some key ∧ key.any Cell.isMissing = false ∧ i < left.rows ∧
      matchRows right lengths m.leftPositions (right.matching keys key) = .ok m ∧
      (right.matching keys key = [] → policy = .evaluateEmpty) := by
  obtain ⟨g, hg, js, hj, hrows⟩ := (matchGroups_spec h).1 m hm
  have positions := leftPositions_matchRows hrows
  rw [positions] at hi ⊢
  obtain ⟨hlt, key, hk, hmiss, hgk⟩ := (Table.mem_positions hl hg).1 hi
  obtain ⟨some, none⟩ := positions_of_find? hr hgk hmiss
  refine ⟨key, hk, hmiss, hlt, ?_⟩
  cases hj with
  | found hf =>
    obtain ⟨same, nonempty⟩ := some _ hf
    rw [← same]
    exact ⟨hrows, fun e => absurd (same ▸ e) nonempty⟩
  | nothing hf hp =>
    rw [none hf]
    exact ⟨hrows, fun _ => hp⟩

/-- A left row with a key but without a match has a key that no right row shares. -/
theorem unmatched_of_forall (hi : i < left.rows) {key : Key} (hk : left.keyOf? keys i = some key)
    (hm : key.any Cell.isMissing = false) (none : ∀ m ∈ ms, i ∉ m.leftPositions) :
    right.matching keys key = [] ∧ policy = .null := by
  obtain ⟨g, hg, hgk⟩ := Table.exists_group hl hi hk hm
  have hig : i ∈ g.positions := (Table.mem_positions hl hg).2 ⟨hi, key, hk, hm, hgk⟩
  rcases (matchGroups_spec h).2 g hg with ⟨hf, hp⟩ | ⟨m, hmem, e⟩
  · exact ⟨(positions_of_find? hr hgk hm).2 hf, hp⟩
  · rw [← e] at hig
    exact absurd hig (none m hmem)

end

end Join

end SpanJoin
