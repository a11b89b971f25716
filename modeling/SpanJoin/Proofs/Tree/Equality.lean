import SpanJoin.Proofs.Outcome
import SpanJoin.Proofs.Tree.Identity

/-!
# Three ways to compare trees

Trees are compared by value (`equal`), by shape (`structurallyEqual`) and by their canonical forms.
Canonical forms are missing exactly where a literal is not a number, at any depth (`HasNaN`,
`canonical_eq_error_iff`), and two trees are equal if both have one and these are identical
(`equal_iff_exists_canonical`). So equality is symmetric and transitive whatever the trees are, and
a tree without such literals equals itself. Among these trees the three ways agree
(`comparisons_agree`): the two zeros are equal, and an integer equals nothing but itself.
-/

namespace SpanJoin

/-! ## Literals -/

namespace Literal

variable {l m : Literal}

theorem canonical_eq_error_iff {e : TreeError} :
    l.canonical = .error e ↔ e = .nanLiteral ∧ l.isNaN = true := by
  cases l with
  | float x =>
    rw [isNaN]
    cases hx : x.isNaN with
    | true =>
      rw [canonical, if_pos hx, Except.error.injEq, and_iff_left rfl]
      exact eq_comm
    | false =>
      rw [canonical_float hx]
      simp
  | _ => simp [canonical, isNaN]

/-- Literals that are equal are numbers, if they are floating-point literals. -/
theorem isNaN_of_equal (h : l.equal m = true) : l.isNaN = false ∧ m.isNaN = false := by
  cases l with
  | float x =>
    cases m with
    | float y =>
      have hyx : (y == x) = true := by
        rw [BEq.comm]
        exact h
      exact ⟨(Binary64.beq_iff.1 h).1, (Binary64.beq_iff.1 hyx).1⟩
    | _ => cases h
  | _ =>
    cases m with
    | float y => cases h
    | _ => exact ⟨rfl, rfl⟩

theorem equal_iff_exists_canonical :
    l.equal m = true ↔ ∃ k, l.canonical = .ok k ∧ m.canonical = .ok k := by
  constructor
  · intro h
    obtain ⟨hl, hm⟩ := isNaN_of_equal h
    obtain ⟨k, hk⟩ := exists_canonical hl
    exact ⟨k, hk, ((equal_iff_canonical hl hm).1 h).symm.trans hk⟩
  · rintro ⟨k, hl, hm⟩
    exact (equal_iff_canonical (isNaN_of_canonical hl) (isNaN_of_canonical hm)).2 (hl.trans hm.symm)

theorem equal_int_iff {n : Int64} : (int n).equal m = true ↔ m = int n := by
  cases m with
  | int k =>
    rw [equal, beq_iff_eq, int.injEq]
    exact eq_comm
  | _ => simp [equal]

end Literal

namespace Tree

variable {s t u : Tree}

/-! ## Trees without a canonical form -/

/-- A literal somewhere in the tree is not a number. -/
def HasNaN (t : Tree) : Prop := ∃ s ∈ t.subtrees, s.isNaN = true

instance : Decidable t.HasNaN := inferInstanceAs (Decidable (∃ s ∈ t.subtrees, s.isNaN = true))

theorem hasNaN_literal {l : Literal} : (literal l).HasNaN ↔ l.isNaN = true := by
  simp [HasNaN, isNaN]

theorem hasNaN_node {a : Action} {cs : List Tree} :
    (node a cs).HasNaN ↔ ∃ c ∈ cs, c.HasNaN := by
  constructor
  · rintro ⟨s, hs, nan⟩
    rcases mem_subtrees_node.1 hs with rfl | ⟨c, hc, hs⟩
    · cases nan
    · exact ⟨c, hc, s, hs, nan⟩
  · rintro ⟨c, hc, s, hs, nan⟩
    exact ⟨s, mem_subtrees_of_mem hc hs, nan⟩

theorem exists_canonical_iff : (∃ k, t.canonical = .ok k) ↔ ¬ t.HasNaN := by
  induction t using Tree.induction with
  | literal l =>
    rw [hasNaN_literal, Bool.not_eq_true]
    constructor
    · rintro ⟨k, hk⟩
      obtain ⟨m, hm, -⟩ := canonical_literal.1 hk
      exact Literal.isNaN_of_canonical hm
    · intro number
      obtain ⟨m, hm⟩ := Literal.exists_canonical number
      exact ⟨literal m, canonical_literal.2 ⟨m, hm, rfl⟩⟩
  | node a cs ih =>
    rw [hasNaN_node]
    constructor
    · rintro ⟨k, hk⟩ ⟨c, hc, nan⟩
      obtain ⟨ks, -, hks⟩ := canonical_node.1 hk
      obtain ⟨i, hi⟩ := List.mem_iff_getElem?.1 hc
      obtain ⟨j, -, hj⟩ := exists_getElem?_of_forall₂ hks hi
      exact (ih c hc).1 ⟨j, hj⟩ nan
    · intro clean
      exact exists_canonical_node fun c hc => (ih c hc).2 fun nan => clean ⟨c, hc, nan⟩

theorem reports_canonicalEach {E : TreeError → Prop} {cs : List Tree}
    (h : ∀ c ∈ cs, Outcome.Reports E c.canonical) : Outcome.Reports E (canonicalEach cs) := by
  induction cs with
  | nil => exact Outcome.reports_ok []
  | cons c cs ih =>
    obtain ⟨hc, hcs⟩ := List.forall_mem_cons.1 h
    have steps : canonicalEach (c :: cs) =
        c.canonical >>= fun k => (canonicalEach cs).map fun ks => k :: ks := by
      rw [canonicalEach]
      cases c.canonical with
      | error e => rfl
      | ok k => cases canonicalEach cs <;> rfl
    rw [steps]
    exact hc.bind fun k => (ih hcs).map _

/-- There is one reason only for a tree to have no canonical form. -/
theorem reports_canonical (t : Tree) : Outcome.Reports (· = .nanLiteral) t.canonical := by
  induction t using Tree.induction with
  | literal l =>
    have map : (literal l).canonical = l.canonical.map literal := by
      rw [canonical]
      cases l.canonical <;> rfl
    have leaf : Outcome.Reports (· = .nanLiteral) l.canonical := fun e h =>
      (Literal.canonical_eq_error_iff.1 h).1
    rw [map]
    exact leaf.map literal
  | node a cs ih =>
    have map : (node a cs).canonical = (canonicalEach cs).map (node a) := by
      rw [canonical]
      cases canonicalEach cs <;> rfl
    rw [map]
    exact (reports_canonicalEach ih).map (node a)

theorem canonical_eq_error_iff {e : TreeError} :
    t.canonical = .error e ↔ e = .nanLiteral ∧ t.HasNaN := by
  constructor
  · intro h
    refine ⟨reports_canonical t e h, not_not.1 fun clean => ?_⟩
    obtain ⟨k, hk⟩ := exists_canonical_iff.2 clean
    rw [h] at hk
    cases hk
  · rintro ⟨rfl, nan⟩
    cases h : t.canonical with
    | ok k => exact absurd nan (exists_canonical_iff.1 ⟨k, h⟩)
    | error e => rw [reports_canonical t e h]

/-! ## Equality as an equivalence -/

/-- Equal trees are those that have one canonical form. -/
theorem equal_iff_exists_canonical :
    s.equal t = true ↔ ∃ k, s.canonical = .ok k ∧ t.canonical = .ok k := by
  refine ⟨fun h => ?_, fun ⟨k, hs, ht⟩ => (equal_iff_canonical hs ht).2 rfl⟩
  induction s using Tree.induction generalizing t with
  | literal l =>
    cases t with
    | literal m =>
      obtain ⟨k, hl, hm⟩ := Literal.equal_iff_exists_canonical.1 h
      exact ⟨literal k, canonical_literal.2 ⟨k, hl, rfl⟩, canonical_literal.2 ⟨k, hm, rfl⟩⟩
    | node b ts => simp [equal] at h
  | node a ss ih =>
    cases t with
    | literal m => simp [equal] at h
    | node b ts =>
      obtain ⟨rfl, hst⟩ := equal_node.1 h
      have common :
          List.Forall₂ (fun s t => ∃ k, t.canonical = .ok k ∧ s.canonical = .ok k) ss ts :=
        forall₂_imp_of_mem hst fun s hs t _ hst => by
          obtain ⟨k, hk, hk'⟩ := ih s hs hst
          exact ⟨k, hk', hk⟩
      obtain ⟨ks, hts, hss⟩ := exists_forall₂_of_exists common
      exact ⟨node a ks, canonical_node.2 ⟨ks, rfl, hss⟩, canonical_node.2 ⟨ks, rfl, hts⟩⟩

theorem equal_self_iff : t.equal t = true ↔ ¬ t.HasNaN := by
  rw [equal_iff_exists_canonical, ← exists_canonical_iff]
  simp

theorem equal_symm (h : s.equal t = true) : t.equal s = true := by
  obtain ⟨k, hs, ht⟩ := equal_iff_exists_canonical.1 h
  exact equal_iff_exists_canonical.2 ⟨k, ht, hs⟩

theorem equal_trans (hst : s.equal t = true) (htu : t.equal u = true) : s.equal u = true := by
  obtain ⟨k, hs, ht⟩ := equal_iff_exists_canonical.1 hst
  obtain ⟨k', ht', hu⟩ := equal_iff_exists_canonical.1 htu
  obtain rfl : k = k' := Except.ok.inj (ht.symm.trans ht')
  exact equal_iff_exists_canonical.2 ⟨k, hs, hu⟩

theorem equal_int_iff {n : Int64} : (literal (.int n)).equal t = true ↔ t = literal (.int n) := by
  cases t with
  | literal m => rw [equal, Literal.equal_int_iff, literal.injEq]
  | node a cs => simp [equal]

/-- **Comparisons of trees.** A tree has no canonical form exactly if one of its literals is not a
number. Without such literals two trees are equal by shape, equal by value and have one canonical
form under the same condition, which is an equivalence. The two zeros meet it, and an integer and
any other tree do not. -/
theorem comparisons_agree :
    (∀ (t : Tree) e, t.canonical = .error e ↔ e = .nanLiteral ∧ t.HasNaN) ∧
    (∀ s t : Tree, ¬ s.HasNaN → ¬ t.HasNaN →
      (s.structurallyEqual t = true ↔ s.equal t = true) ∧
      (s.equal t = true ↔ s.canonical = t.canonical)) ∧
    Equivalence (fun s t : { t : Tree // ¬ t.HasNaN } => s.1.equal t.1 = true) ∧
    (literal (.float 0)).equal (literal (.float Binary64.negativeZero)) = true ∧
    ∀ n t, (literal (.int n)).equal t = true ↔ t = literal (.int n) := by
  refine ⟨fun t e => canonical_eq_error_iff, fun s t hs ht => ⟨?_, ?_⟩, ?_, rfl,
    fun n t => equal_int_iff⟩
  · rw [structurallyEqual_eq_equal]
  · obtain ⟨j, hj⟩ := exists_canonical_iff.2 hs
    obtain ⟨k, hk⟩ := exists_canonical_iff.2 ht
    rw [equal_iff_canonical hj hk, hj, hk, Except.ok.injEq]
  · exact ⟨fun t => equal_self_iff.2 t.2, equal_symm, equal_trans⟩

/-- A column shifted by a number. -/
def shifted (x : Float) : Tree := binary .add (leftColumn "A") (literal (.float x))

theorem comparisons_agree_shifted :
    (shifted Binary64.nan).canonical = .error .nanLiteral ∧
    ¬ (shifted 0).HasNaN ∧ ¬ (shifted Binary64.negativeZero).HasNaN ∧
    shifted 0 ≠ shifted Binary64.negativeZero ∧
    (shifted 0).structurallyEqual (shifted Binary64.negativeZero) = true ∧
    (shifted 0).equal (shifted Binary64.negativeZero) = true ∧
    (shifted 0).canonical = (shifted Binary64.negativeZero).canonical := by
  have positive : ¬ (shifted 0).HasNaN := by decide
  have negative : ¬ (shifted Binary64.negativeZero).HasNaN := by decide
  obtain ⟨failure, agree, -⟩ := comparisons_agree
  obtain ⟨shape, forms⟩ := agree _ _ positive negative
  have same : (shifted 0).equal (shifted Binary64.negativeZero) = true := by decide
  exact ⟨(failure _ _).2 ⟨rfl, by decide⟩, positive, negative, by decide, shape.2 same, same,
    forms.1 same⟩

end Tree

end SpanJoin
