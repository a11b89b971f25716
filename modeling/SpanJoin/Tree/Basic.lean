import SpanJoin.Tree.Action

/-!
# Expression trees

A `Tree` is a literal, or a node with an action and any number of subtrees. The type admits nodes
that no arity allows; `SpanJoin.Tree.Construct` holds the checks.

Three comparisons of trees are in use. `=` is identity, which tells the two zeros apart. `equal`
compares the values of literals, so the two zeros agree and what is not a number differs from
itself; it goes through both lists of subtrees in step. `structurallyEqual` is the comparison by
shape: first the actions and the numbers of subtrees, then the subtrees pair by pair.
-/

namespace SpanJoin

/-- An expression tree. -/
inductive Tree where
  | literal (l : Literal)
  | node (action : Action) (children : List Tree)

namespace Tree

/-- What holds of literals, and of a node if it holds of its children, holds of every tree. -/
@[elab_as_elim] theorem induction {motive : Tree → Prop} (literal : ∀ l, motive (.literal l))
    (node : ∀ action children, (∀ c ∈ children, motive c) → motive (.node action children))
    (t : Tree) : motive t :=
  @Tree.rec motive (fun cs => ∀ c ∈ cs, motive c) literal node nofun
    (fun _ _ head tail c hc => by
      rcases List.mem_cons.1 hc with rfl | hc
      · exact head
      · exact tail c hc)
    t

/-! ## Comparison -/

mutual

/-- Identity of trees is decidable. -/
def decEq : (s t : Tree) → Decidable (s = t)
  | .literal x, .literal y =>
    if h : x = y then isTrue (by rw [h]) else isFalse fun e => h (Tree.literal.inj e)
  | .node a ss, .node b ts =>
    if h : a = b then
      match decEqEach ss ts with
      | isTrue hs => isTrue (by rw [h, hs])
      | isFalse hs => isFalse fun e => hs (Tree.node.inj e).2
    else isFalse fun e => h (Tree.node.inj e).1
  | .literal _, .node _ _ => isFalse nofun
  | .node _ _, .literal _ => isFalse nofun

/-- Identity of lists of trees is decidable. -/
def decEqEach : (ss ts : List Tree) → Decidable (ss = ts)
  | [], [] => isTrue rfl
  | s :: ss, t :: ts =>
    match decEq s t, decEqEach ss ts with
    | isTrue h, isTrue hs => isTrue (by rw [h, hs])
    | isFalse h, _ => isFalse fun e => h (List.cons.inj e).1
    | _, isFalse hs => isFalse fun e => hs (List.cons.inj e).2
  | [], _ :: _ => isFalse nofun
  | _ :: _, [] => isFalse nofun

end

instance : DecidableEq Tree := decEq

mutual

/-- Equality of trees with their literals compared by value. -/
def equal : Tree → Tree → Bool
  | .literal x, .literal y => x.equal y
  | .node a ss, .node b ts => a == b && equalEach ss ts
  | _, _ => false

/-- Equality of lists of trees: equally many, and equal in turn. -/
def equalEach : List Tree → List Tree → Bool
  | [], [] => true
  | s :: ss, t :: ts => s.equal t && equalEach ss ts
  | _, _ => false

end

mutual

/-- The same action, equally many subtrees and pairwise equal ones; equal literals by value. A node
never equals a literal. -/
def structurallyEqual : Tree → Tree → Bool
  | .node a ss, .node b ts => a == b && ss.length == ts.length && pairwiseEqual ss ts
  | .literal x, .literal y => x.equal y
  | _, _ => false

/-- Are the trees equal pair by pair, as far as the shorter list goes? -/
def pairwiseEqual : List Tree → List Tree → Bool
  | s :: ss, t :: ts => s.structurallyEqual t && pairwiseEqual ss ts
  | _, _ => true

end

mutual

/-- Is the first tree equal to the second, or has it a subtree at any depth that is? -/
def contains (s t : Tree) : Bool :=
  s.structurallyEqual t ||
    match s with
    | .literal _ => false
    | .node _ ss => anyContains ss t

/-- Does one of the trees contain the tree? -/
def anyContains : List Tree → Tree → Bool
  | [], _ => false
  | s :: ss, t => s.contains t || anyContains ss t

end

theorem anyContains_eq_any (ss : List Tree) (t : Tree) :
    anyContains ss t = ss.any fun s => s.contains t := by
  induction ss with
  | nil => rfl
  | cons s ss ih => simp [anyContains, ih]

/-! ## Parts -/

/-- Is the tree a literal? -/
def isLiteral : Tree → Bool
  | .literal _ => true
  | .node _ _ => false

/-- The text of a text literal. -/
def text? : Tree → Option String
  | .literal (.text s) => some s
  | _ => none

/-- Is there no node below the root? -/
def isLeaf : Tree → Bool
  | .literal _ => true
  | .node _ cs => cs.all isLiteral

mutual

/-- The number of levels of nodes; a literal has none. -/
def height : Tree → Nat
  | .literal _ => 0
  | .node _ cs => 1 + heightEach cs

/-- The greatest height in a list. -/
def heightEach : List Tree → Nat
  | [] => 0
  | c :: cs => max c.height (heightEach cs)

end

/-- A node is higher than each of its children. -/
theorem height_lt_of_mem {c : Tree} {cs : List Tree} (h : c ∈ cs) (a : Action) :
    c.height < (node a cs).height := by
  have le : c.height ≤ heightEach cs := by
    induction cs with
    | nil => cases h
    | cons d ds ih =>
      simp only [heightEach]
      rcases List.mem_cons.1 h with rfl | h
      · omega
      · have := ih h
        omega
  simp only [height]
  omega

mutual

/-- The number of nodes, literals not counted. -/
def nodeCount : Tree → Nat
  | .literal _ => 0
  | .node _ cs => 1 + nodeCountEach cs

/-- The number of nodes in a list. -/
def nodeCountEach : List Tree → Nat
  | [] => 0
  | c :: cs => c.nodeCount + nodeCountEach cs

end

mutual

/-- Does the tree make or read bindings anywhere? -/
def usesBindings : Tree → Bool
  | .literal _ => false
  | .node a cs => a.usesBindings || anyUsesBindings cs

/-- Does one of the trees make or read bindings? -/
def anyUsesBindings : List Tree → Bool
  | [] => false
  | c :: cs => c.usesBindings || anyUsesBindings cs

end

theorem anyUsesBindings_eq_any (cs : List Tree) : anyUsesBindings cs = cs.any usesBindings := by
  induction cs with
  | nil => rfl
  | cons c cs ih => simp [anyUsesBindings, ih]

end Tree

/-! ## Paths -/

/-- The way from the root to a subtree: the position of a child at every step. -/
abbrev Path := List Nat

/-- The subtree at the end of a path. -/
def Tree.follow? : Tree → Path → Option Tree
  | t, [] => some t
  | .literal _, _ :: _ => none
  | .node _ cs, i :: path =>
    match cs[i]? with
    | some c => c.follow? path
    | none => none

/-- A path in two parts leads to the end of the second part from the end of the first. -/
theorem Tree.follow?_append (t : Tree) (p q : Path) :
    t.follow? (p ++ q) = (t.follow? p).bind fun u => u.follow? q := by
  induction p generalizing t with
  | nil => simp [follow?]
  | cons i p ih =>
    cases t with
    | literal l => simp [follow?]
    | node a cs =>
      cases h : cs[i]? with
      | none => simp [follow?, h]
      | some c => simp [follow?, h, ih c]

end SpanJoin
