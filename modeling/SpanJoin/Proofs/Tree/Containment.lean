import SpanJoin.Proofs.Tree.Equality

/-!
# Containment

A tree contains another one if a path leads from its root to a subtree that equals the other one
(`contains_iff_follow?`). Equal trees have equal subtrees and are equally high, and every step of a
path goes down by a level (`height_add_length_le`). So containment is transitive, and two trees that
contain each other are equal; among the trees without a literal that is not a number it is a partial
order up to equality (`contains_order`).
-/

namespace SpanJoin.Tree

variable {s t u : Tree}

/-! ## Equal trees -/

theorem height_of_equal (h : s.equal t = true) : s.height = t.height := by
  obtain ⟨k, hs, ht⟩ := equal_iff_exists_canonical.1 h
  exact (height_of_canonical hs).symm.trans (height_of_canonical ht)

/-- A path leads to equal subtrees of equal trees. -/
theorem exists_follow?_of_equal (h : s.equal t = true) {p : Path} {r : Tree}
    (hr : t.follow? p = some r) : ∃ q, s.follow? p = some q ∧ q.equal r = true := by
  obtain ⟨k, hs, ht⟩ := equal_iff_exists_canonical.1 h
  obtain ⟨j, hj, hrj⟩ := canonical_follow? ht hr
  obtain ⟨q, hq, hqj⟩ := follow?_of_canonical hs hj
  exact ⟨q, hq, equal_iff_exists_canonical.2 ⟨j, hqj, hrj⟩⟩

/-! ## Paths to a contained tree -/

/-- What a tree contains is what its paths lead to. -/
theorem contains_iff_follow? :
    s.contains t = true ↔ ∃ p r, s.follow? p = some r ∧ r.equal t = true := by
  simp only [contains_iff, mem_subtrees_iff_follow?, structurallyEqual_eq_equal]
  exact ⟨fun ⟨r, ⟨p, hp⟩, hr⟩ => ⟨p, r, hp, hr⟩, fun ⟨p, r, hp, hr⟩ => ⟨r, ⟨p, hp⟩, hr⟩⟩

theorem contains_of_equal (h : s.equal t = true) : s.contains t = true :=
  contains_iff_follow?.2 ⟨[], s, by rw [follow?], h⟩

theorem contains_trans (hst : s.contains t = true) (htu : t.contains u = true) :
    s.contains u = true := by
  obtain ⟨p, r, hp, hrt⟩ := contains_iff_follow?.1 hst
  obtain ⟨q, v, hq, hvu⟩ := contains_iff_follow?.1 htu
  obtain ⟨w, hw, hwv⟩ := exists_follow?_of_equal hrt hq
  refine contains_iff_follow?.2 ⟨p ++ q, w, ?_, equal_trans hwv hvu⟩
  rw [follow?_append, hp, Option.bind_some, hw]

/-- What a tree contains is lower than the tree or equals it. -/
theorem height_of_contains (h : s.contains t = true) :
    t.height < s.height ∨ s.equal t = true := by
  obtain ⟨p, r, hp, hrt⟩ := contains_iff_follow?.1 h
  have level := height_add_length_le hp
  rw [height_of_equal hrt] at level
  cases p with
  | nil =>
    obtain rfl : s = r := by simpa [follow?] using hp
    exact .inr hrt
  | cons i p =>
    rw [List.length_cons] at level
    exact .inl (by omega)

theorem contains_antisymm (hst : s.contains t = true) (hts : t.contains s = true) :
    s.equal t = true := by
  rcases height_of_contains hst with lower | same
  · rcases height_of_contains hts with higher | same
    · omega
    · exact equal_symm same
  · exact same

/-- Equal trees contain the same, and are contained in the same. -/
theorem contains_congr (h : s.equal t = true) :
    s.contains u = t.contains u ∧ u.contains s = u.contains t := by
  have hts := equal_symm h
  constructor <;> rw [Bool.eq_iff_iff]
  · exact ⟨contains_trans (contains_of_equal hts), contains_trans (contains_of_equal h)⟩
  · exact ⟨fun hu => contains_trans hu (contains_of_equal h),
      fun hu => contains_trans hu (contains_of_equal hts)⟩

theorem contains_self_iff : s.contains s = true ↔ ¬ s.HasNaN := by
  refine ⟨fun h => ?_, fun clean => contains_of_equal (equal_self_iff.2 clean)⟩
  rcases height_of_contains h with lower | same
  · exact absurd lower (lt_irrefl _)
  · exact equal_self_iff.1 same

/-- **Containment.** A tree contains the trees that equal, by shape, what its paths lead to. It
contains itself if no literal in it is not a number. Containment is transitive, does not tell equal
trees apart on either side, and holds in both directions of equal trees only. -/
theorem contains_order (s t u : Tree) :
    (s.contains t = true ↔ ∃ p r, s.follow? p = some r ∧ r.structurallyEqual t = true) ∧
    (s.contains s = true ↔ ¬ s.HasNaN) ∧
    (s.contains t = true → t.contains u = true → s.contains u = true) ∧
    (s.structurallyEqual t = true → s.contains u = t.contains u ∧ u.contains s = u.contains t) ∧
    (s.contains t = true → t.contains s = true → s.structurallyEqual t = true) := by
  simp only [structurallyEqual_eq_equal]
  exact ⟨contains_iff_follow?, contains_self_iff, contains_trans, contains_congr,
    contains_antisymm⟩

/-- The sum of a column with both zeros. -/
def shiftedTwice : Tree := binary .add (shifted 0) (literal (.float Binary64.negativeZero))

theorem contains_order_shiftedTwice :
    shiftedTwice.follow? [0] = some (shifted 0) ∧
    shiftedTwice.contains (shifted Binary64.negativeZero) = true ∧
    (shifted Binary64.negativeZero).contains (literal (.float 0)) = true ∧
    shiftedTwice.contains (literal (.float 0)) = true ∧
    shiftedTwice.contains shiftedTwice = true ∧
    (shifted 0).contains (shifted Binary64.negativeZero) = true ∧
    (shifted Binary64.negativeZero).contains (shifted 0) = true ∧
    (shifted 0).structurallyEqual (shifted Binary64.negativeZero) = true := by
  obtain ⟨paths, self, trans, -, -⟩ :=
    contains_order shiftedTwice (shifted Binary64.negativeZero) (literal (.float 0))
  obtain ⟨-, -, -, -, antisymm⟩ :=
    contains_order (shifted 0) (shifted Binary64.negativeZero) shiftedTwice
  have outer := paths.2 ⟨[0], shifted 0, rfl, by decide⟩
  have inner : (shifted Binary64.negativeZero).contains (literal (.float 0)) = true := by decide
  have forth : (shifted 0).contains (shifted Binary64.negativeZero) = true := by decide
  have back : (shifted Binary64.negativeZero).contains (shifted 0) = true := by decide
  exact ⟨rfl, outer, inner, trans outer inner, self.2 (by decide), forth, back,
    antisymm forth back⟩

end SpanJoin.Tree
