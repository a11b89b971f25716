import SpanJoin.Proofs.Plan.WellFormed

/-!
# When the names of declarations are fresh

`share` numbers its declarations from zero, whatever names the tree declares and reads. A declared
name therefore occurs in the tree exactly if the tree has one of the reserved names with a number
below that of the declarations (`mentions_declared_iff`), and never if it has no reserved names
(`not_mentions_of_unreserved`). It does occur where a shared plan, written as one tree, is put into
a larger tree that is shared again: the bindings of the one then overwrite those of the other, and
the value is another (`square_captured`).
-/

namespace SpanJoin.Tree

/-- Some node of the tree declares or reads the name. -/
def Mentions (t : Tree) (name : String) : Prop :=
  refer name ∈ t.subtrees ∨ ∃ value, declare name value ∈ t.subtrees

theorem unreserved_iff {t : Tree} : t.Unreserved ↔ ∀ n, ¬ t.Mentions (subtreeName n) := by
  simp [Unreserved, Mentions, not_or]

section

variable {t : Tree} {p : Plan} (hp : t.share = .ok p)
include hp

/-- What is declared are the reserved names with small numbers. -/
theorem declared_iff {name : String} :
    (∃ d ∈ p.declarations, d.1 = name) ↔ ∃ n < p.declarations.length, subtreeName n = name := by
  obtain ⟨rs, h⟩ := exists_drafts hp
  simpa using h.names_perm.mem_iff (a := name)

/-- A declared name occurs in the tree exactly if the tree has a reserved name with a small
number. -/
theorem mentions_declared_iff : (∃ d ∈ p.declarations, t.Mentions d.1) ↔
    ∃ n < p.declarations.length, t.Mentions (subtreeName n) := by
  constructor
  · rintro ⟨d, hd, hm⟩
    obtain ⟨n, hn, e⟩ := (declared_iff hp).1 ⟨d, hd, rfl⟩
    exact ⟨n, hn, by rwa [e]⟩
  · rintro ⟨n, hn, hm⟩
    obtain ⟨d, hd, e⟩ := (declared_iff hp).2 ⟨n, hn, rfl⟩
    exact ⟨d, hd, by rwa [e]⟩

/-- No declared name occurs in a tree without reserved names. -/
theorem not_mentions_of_unreserved (names : t.Unreserved) :
    ∀ d ∈ p.declarations, ¬ t.Mentions d.1 := by
  intro d hd hm
  obtain ⟨n, -, hn⟩ := (mentions_declared_iff hp).1 ⟨d, hd, hm⟩
  exact unreserved_iff.1 names n hn

end

/-! ## A plan in a tree that is shared again -/

/-- The square of a left column and one. -/
def square : Tree :=
  let next := binary .add (leftColumn "A") (literal (.int 1))
  binary .mul next next

/-- The tree between two copies of the double of a left column. -/
def betweenDoubles (t : Tree) : Tree :=
  let double := binary .mul (leftColumn "B") (literal (.int 2))
  binary .add (binary .add double t) double

/-- A left row with an `A` of 3 and a `B` of 10, without matches. -/
def threeAndTen : Context :=
  ⟨⟨⟨Cell.counting 1, [⟨"A", [.int 3]⟩, ⟨"B", [.int 10]⟩]⟩, 0⟩, ⟨[], []⟩, .null, .ofCells [],
    .ofCells []⟩

/-- The declarations of the plan for a square get the names of those around it: the second copy of
the double is read where the value of the square's operand was bound in the meantime. -/
theorem square_captured : ∃ p u q, square.share = .ok p ∧ p.toTree = .ok u ∧
    (betweenDoubles u).accepted = true ∧ (betweenDoubles u).share = .ok q ∧
    (∃ d ∈ q.declarations, (betweenDoubles u).Mentions d.1) ∧
    (betweenDoubles u).eval threeAndTen = .ok (.scalar (.int 56)) ∧
    q.eval threeAndTen = .ok (.scalar (.int 40)) := by
  refine ⟨_, _, _, rfl, rfl, by decide, rfl, ?_, rfl, rfl⟩
  exact (mentions_declared_iff rfl).2 ⟨0, by decide, .inl (by decide)⟩

end SpanJoin.Tree
