import SpanJoin.Tree.Build
import Mathlib.Data.List.Forall2

/-!
# Subtrees

`Tree.subtrees` lists a tree with everything below it, names and other literals included. A property
that a tree has throughout is stated as one of all its subtrees, and one that it has nowhere as an
absence from this list. The subtrees are what the paths of the tree lead to
(`mem_subtrees_iff_follow?`).
-/

namespace SpanJoin.Tree

mutual

/-- All subtrees, the tree itself first. -/
def subtrees : Tree → List Tree
  | .literal l => [.literal l]
  | .node a cs => .node a cs :: subtreesEach cs

/-- All subtrees of the trees in a list. -/
def subtreesEach : List Tree → List Tree
  | [] => []
  | c :: cs => c.subtrees ++ subtreesEach cs

end

theorem subtreesEach_eq_flatMap (cs : List Tree) : subtreesEach cs = cs.flatMap subtrees := by
  induction cs with
  | nil => rfl
  | cons c cs ih => simp [subtreesEach, ih]

@[simp] theorem mem_subtrees_literal {s : Tree} {l : Literal} :
    s ∈ (literal l).subtrees ↔ s = literal l := by
  rw [subtrees, List.mem_singleton]

theorem mem_subtrees_node {s : Tree} {a : Action} {cs : List Tree} :
    s ∈ (node a cs).subtrees ↔ s = node a cs ∨ ∃ c ∈ cs, s ∈ c.subtrees := by
  rw [subtrees, List.mem_cons, subtreesEach_eq_flatMap, List.mem_flatMap]

theorem mem_subtrees_self (t : Tree) : t ∈ t.subtrees := by
  cases t with
  | literal l => exact mem_subtrees_literal.2 rfl
  | node a cs => exact mem_subtrees_node.2 (.inl rfl)

theorem mem_subtrees_of_mem {s c : Tree} {a : Action} {cs : List Tree} (hc : c ∈ cs)
    (hs : s ∈ c.subtrees) : s ∈ (node a cs).subtrees :=
  mem_subtrees_node.2 (.inr ⟨c, hc, hs⟩)

theorem mem_subtrees_child {c : Tree} {a : Action} {cs : List Tree} (hc : c ∈ cs) :
    c ∈ (node a cs).subtrees :=
  mem_subtrees_of_mem hc c.mem_subtrees_self

/-- The only node of a reference is the reference itself. -/
theorem node_mem_subtrees_refer {a : Action} {cs : List Tree} {name : String} :
    node a cs ∈ (refer name).subtrees ↔ node a cs = refer name := by
  simp [refer, ofText, mem_subtrees_node]

/-- A subtree of a subtree is a subtree. -/
theorem mem_subtrees_trans {r s t : Tree} (hr : r ∈ s.subtrees) (hs : s ∈ t.subtrees) :
    r ∈ t.subtrees := by
  induction t using Tree.induction with
  | literal l =>
    obtain rfl := mem_subtrees_literal.1 hs
    exact hr
  | node a cs ih =>
    rcases mem_subtrees_node.1 hs with rfl | ⟨c, hc, hs⟩
    · exact hr
    · exact mem_subtrees_of_mem hc (ih c hc hs)

/-- What holds of a tree and passes from a node to its children holds of all subtrees. -/
theorem forall_mem_subtrees {P : Tree → Prop}
    (step : ∀ a cs, P (node a cs) → ∀ c ∈ cs, P c) {t : Tree} (h : P t) :
    ∀ s ∈ t.subtrees, P s := by
  induction t using Tree.induction with
  | literal l =>
    intro s hs
    rwa [mem_subtrees_literal.1 hs]
  | node a cs ih =>
    intro s hs
    rcases mem_subtrees_node.1 hs with rfl | ⟨c, hc, hs⟩
    · exact h
    · exact ih c hc (step a cs h c hc) s hs

/-- What holds of the actions of all nodes in a node holds of its own action and of those of all
nodes in its children. -/
theorem forall_node_mem_subtrees {Q : Action → Prop} {a : Action} {cs : List Tree} :
    (∀ b ds, node b ds ∈ (node a cs).subtrees → Q b) ↔
      Q a ∧ ∀ c ∈ cs, ∀ b ds, node b ds ∈ c.subtrees → Q b := by
  constructor
  · intro h
    exact ⟨h a cs (mem_subtrees_self _), fun c hc b ds hd => h b ds (mem_subtrees_of_mem hc hd)⟩
  · rintro ⟨ha, hcs⟩ b ds hd
    rcases mem_subtrees_node.1 hd with e | ⟨c, hc, hd⟩
    · rwa [(node.inj e).1]
    · exact hcs c hc b ds hd

theorem usesBindings_node {a : Action} {cs : List Tree} :
    (node a cs).usesBindings = false ↔
      a.usesBindings = false ∧ ∀ c ∈ cs, c.usesBindings = false := by
  simp [usesBindings, anyUsesBindings_eq_any]

/-- A tree that makes and reads no bindings has no subtree that does. -/
theorem usesBindings_of_mem_subtrees {s t : Tree} (ht : t.usesBindings = false)
    (h : s ∈ t.subtrees) : s.usesBindings = false :=
  forall_mem_subtrees (P := fun u => u.usesBindings = false)
    (fun _ _ hn => (usesBindings_node.1 hn).2) ht s h

/-! ## Paths -/

theorem follow?_cons {a : Action} {cs : List Tree} {i : Nat} {p : Path} :
    (node a cs).follow? (i :: p) = cs[i]?.bind fun c => c.follow? p := by
  rw [follow?]
  cases cs[i]? <;> rfl

theorem mem_subtrees_of_follow? {s t : Tree} {p : Path} (h : t.follow? p = some s) :
    s ∈ t.subtrees := by
  induction p generalizing t with
  | nil =>
    obtain rfl : t = s := by simpa [follow?] using h
    exact t.mem_subtrees_self
  | cons i p ih =>
    cases t with
    | literal l => simp [follow?] at h
    | node a cs =>
      rw [follow?_cons, Option.bind_eq_some_iff] at h
      obtain ⟨c, hc, h⟩ := h
      exact mem_subtrees_of_mem (List.mem_of_getElem? hc) (ih h)

theorem exists_follow?_of_mem_subtrees {s t : Tree} (h : s ∈ t.subtrees) :
    ∃ p, t.follow? p = some s := by
  induction t using Tree.induction with
  | literal l =>
    obtain rfl := mem_subtrees_literal.1 h
    exact ⟨[], rfl⟩
  | node a cs ih =>
    rcases mem_subtrees_node.1 h with rfl | ⟨c, hc, hs⟩
    · exact ⟨[], rfl⟩
    · obtain ⟨p, hp⟩ := ih c hc hs
      obtain ⟨i, hi⟩ := List.mem_iff_getElem?.1 hc
      exact ⟨i :: p, by rw [follow?_cons, hi, Option.bind_some, hp]⟩

/-- The subtrees are the ends of the paths. -/
theorem mem_subtrees_iff_follow? {s t : Tree} : s ∈ t.subtrees ↔ ∃ p, t.follow? p = some s :=
  ⟨exists_follow?_of_mem_subtrees, fun ⟨_, h⟩ => mem_subtrees_of_follow? h⟩

/-- Every step of a path goes down by a level of nodes. -/
theorem height_add_length_le {s t : Tree} {p : Path} (h : t.follow? p = some s) :
    s.height + p.length ≤ t.height := by
  induction p generalizing t with
  | nil =>
    obtain rfl : t = s := by simpa [follow?] using h
    simp
  | cons i p ih =>
    cases t with
    | literal l => simp [follow?] at h
    | node a cs =>
      rw [follow?_cons, Option.bind_eq_some_iff] at h
      obtain ⟨c, hc, h⟩ := h
      have hi := ih h
      have hlt := height_lt_of_mem (List.mem_of_getElem? hc) a
      simp only [List.length_cons]
      omega

end SpanJoin.Tree
