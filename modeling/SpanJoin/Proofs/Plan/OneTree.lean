import SpanJoin.Plan.Basic
import SpanJoin.Proofs.Collection.Pairwise
import SpanJoin.Proofs.Eval.Simulation

/-!
# A plan as one tree

A plan can be run in two ways: declaration by declaration, or written as one tree that declares the
names and then gives the root. The tree is refused for two kinds of root only
(`Plan.exists_toTree_iff`), and where there is one, the two ways agree on every datum and on every
fault, whatever the names of the declarations are (`Plan.toTree_agrees`): the statements of the tree
make the bindings of the declarations one by one, and stop at the first fault
(`Tree.evalEach_declares`).
-/

namespace SpanJoin

namespace Tree

/-! ## Statements -/

/-- Every tree can be a statement but a range, and a literal that is not a number. -/
theorem fills_any_iff {c : Tree} :
    Fills .any c ↔ ¬ ∃ l, c = literal l ∧ (l.isRange = true ∨ l.isNaN = true) := by
  cases c with
  | literal l => simp [Fills, Slot.fits, isNaN]
  | node a cs => simp [Fills, Slot.fits, isNaN]

theorem check_execute_isOk_iff {cs : List Tree} :
    (check .execute cs).isOk = true ↔ cs ≠ [] ∧ ∀ c ∈ cs, Fills .any c := by
  rw [check_isOk_iff]
  simp only [Arity.slots, Action.arity, List.length_eq_zero_iff]
  by_cases hcs : cs = []
  · simp [hcs]
  · simp only [if_neg hcs, Except.ok.injEq, exists_eq_left', forall₂_replicate_iff]
    exact ⟨fun h => ⟨hcs, h⟩, fun h => h.2⟩

variable {c : Context}

/-- Declarations written as statements make the bindings one by one, and what comes after them is
evaluated with all of these. -/
theorem evalEach_declares (ds : List (String × Tree)) (root : Tree) (env : Environment) :
    evalEach c (ds.map (fun d => declare d.1 d.2) ++ [root]) env =
      match Plan.bindEach c ds env with
      | (.ok _, env) => (root.evalIn c env).andThen fun d =>
          .ok (ds.map (fun _ => .scalar .null) ++ [d])
      | (.error e, env) => (.error e, env) := by
  induction ds generalizing env with
  | nil =>
    simp only [List.map_nil, List.nil_append, evalEach, Plan.bindEach]
    rcases root.evalIn c env with ⟨_ | d, env⟩ <;> rfl
  | cons d ds ih =>
    simp only [List.map_cons, List.cons_append, evalEach, evalIn_declare, Plan.bindEach]
    rcases d.2.evalIn c env with ⟨_ | v, env⟩
    · rfl
    · simp only [ih]
      rcases Plan.bindEach c ds (env.bind d.1 v) with ⟨_ | _, env⟩
      · rfl
      · simp only
        rcases root.evalIn c env with ⟨_ | v, env⟩ <;> rfl

end Tree

namespace Plan

variable {p : Plan}

/-- A plan is a root as it is, or its declarations as statements and the root as the last one. -/
theorem toTree_eq_ok_iff {u : Tree} : p.toTree = .ok u ↔
    p.declarations = [] ∧ p.root.isLeaf = true ∧ u = p.root ∨
      ¬ (p.declarations = [] ∧ p.root.isLeaf = true) ∧ Tree.Fills .any p.root ∧
        u = .node .execute ((p.declarations.map fun d => Tree.declare d.1 d.2) ++ [p.root]) := by
  have statements : (∀ s ∈ (p.declarations.map fun d => Tree.declare d.1 d.2) ++ [p.root],
      Tree.Fills .any s) ↔ Tree.Fills .any p.root := by
    constructor
    · exact fun h => h _ (by simp)
    · intro h s hs
      rcases List.mem_append.1 hs with hs | hs
      · obtain ⟨d, -, rfl⟩ := List.mem_map.1 hs
        exact ⟨rfl, rfl⟩
      · rwa [List.mem_singleton.1 hs]
  unfold toTree
  by_cases bare : p.declarations = [] ∧ p.root.isLeaf = true
  · simp [bare, eq_comm]
  · have hbare : (p.declarations.isEmpty && p.root.isLeaf) = false := by
      simpa [Bool.and_eq_false_iff, List.isEmpty_iff] using bare
    rw [hbare, if_neg (by simp), Tree.execute, Tree.make_eq_ok_iff, Tree.check_execute_isOk_iff,
      statements]
    simp only [ne_eq, List.append_eq_nil_iff, List.cons_ne_self, and_false, not_false_eq_true,
      true_and, bare]
    exact ⟨fun h => .inr h, fun h => h.resolve_left fun h => bare ⟨h.1, h.2.1⟩⟩

/-- A plan can be written as one tree, unless it has declarations and a root that cannot be a
statement. -/
theorem exists_toTree_iff : (∃ u, p.toTree = .ok u) ↔
    p.declarations = [] ∨ Tree.Fills .any p.root := by
  simp only [toTree_eq_ok_iff]
  constructor
  · rintro ⟨u, ⟨h, -⟩ | ⟨-, h, -⟩⟩
    · exact .inl h
    · exact .inr h
  · intro h
    by_cases bare : p.declarations = [] ∧ p.root.isLeaf = true
    · exact ⟨p.root, .inl ⟨bare.1, bare.2, rfl⟩⟩
    · refine ⟨_, .inr ⟨bare, h.elim (fun hd => ?_) id, rfl⟩⟩
      -- without declarations the root is no leaf, so it is a node
      cases hr : p.root with
      | literal l => exact absurd ⟨hd, by rw [hr]; rfl⟩ bare
      | node a cs => exact ⟨rfl, rfl⟩

/-- The declarations as statements and the root as the last one evaluate as the plan does. -/
theorem eval_statements (p : Plan) (c : Context) :
    (Tree.node .execute ((p.declarations.map fun d => Tree.declare d.1 d.2) ++ [p.root])).eval c =
      p.eval c := by
  rw [Tree.eval, Tree.evalIn, Tree.evalEach_declares, eval]
  rcases bindEach c p.declarations .empty with ⟨_ | _, env⟩
  · rfl
  · simp only
    rcases p.root.evalIn c env with ⟨_ | d, env⟩
    · rfl
    · simp [Evaluated.andThen, Tree.lastResult]

/-- **The two ways to run a plan agree.** Writing a plan as one tree fails exactly if there are
declarations before a root that is a range or a literal that is not a number. If it does not fail,
the tree evaluates to what the plan evaluates to, be it a datum or a fault. -/
theorem toTree_agrees (p : Plan) :
    ((∃ e, p.toTree = .error e) ↔ p.declarations ≠ [] ∧
      ∃ l, p.root = .literal l ∧ (l.isRange = true ∨ l.isNaN = true)) ∧
    ∀ u, p.toTree = .ok u → ∀ c, u.eval c = p.eval c := by
  constructor
  · have fails : (∃ e, p.toTree = .error e) ↔ ¬ ∃ u, p.toTree = .ok u := by
      cases p.toTree <;> simp
    rw [fails, exists_toTree_iff, Tree.fills_any_iff, not_or, not_not]
  · intro u hu c
    rcases toTree_eq_ok_iff.1 hu with ⟨hd, -, rfl⟩ | ⟨-, -, rfl⟩
    · rw [eval, hd]
      rfl
    · exact p.eval_statements c

/-- A plan that declares a name twice, the second time from the first, and refers to it before it is
declared again. -/
def redeclared : Plan :=
  ⟨[("x", Tree.lengthOfLeft), ("y", .refer "x"), ("x", .binary .add (.refer "x") (.refer "y"))],
    .binary .mul (.refer "x") (.refer "y")⟩

/-- A left interval of length 3 without matches. -/
def lengthThree : Context := ⟨⟨⟨[], []⟩, 0⟩, ⟨[], []⟩, .int 3, .ofCells [], .ofCells []⟩

theorem toTree_agrees_redeclared : ∃ u, redeclared.toTree = .ok u ∧
    u.eval lengthThree = redeclared.eval lengthThree ∧
    redeclared.eval lengthThree = .ok (.scalar (.int 18)) :=
  ⟨_, rfl, (toTree_agrees redeclared).2 _ rfl lengthThree, rfl⟩

end Plan

end SpanJoin
