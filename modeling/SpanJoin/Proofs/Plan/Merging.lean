import SpanJoin.Plan.Sharing
import SpanJoin.Proofs.Tree.Identity

/-!
# What sharing merges

Sharing takes subtrees of one canonical form for the same. Such subtrees have the same
floating-point literals but for the signs of zeros (`floats_of_canonical`), so in a tree that has
only one of the two zeros they are identical (`eq_of_canonical_of_mem`). A division shows the sign
of a zero, by its value and by its name. Two quotients that differ in this sign only have one
canonical form, and the plan of a tree with both has another value than the tree
(`reciprocals_merged`).
-/

namespace SpanJoin.Tree

/-! ## Trees of one canonical form -/

theorem floatsEach_of_equal {ss ts : List Tree}
    (h : List.Forall₂ (fun s t => List.Forall₂ (fun x y => (x == y) = true) s.floats t.floats)
      ss ts) :
    List.Forall₂ (fun x y => (x == y) = true) (floatsEach ss) (floatsEach ts) := by
  induction h with
  | nil => exact .nil
  | cons hst _ ih => exact List.rel_append hst ih

/-- Equal trees have equal floating-point literals. -/
theorem floats_of_equal {s t : Tree} (h : s.equal t = true) :
    List.Forall₂ (fun x y => (x == y) = true) s.floats t.floats := by
  induction s using Tree.induction generalizing t with
  | literal l =>
    cases t with
    | literal m =>
      cases l with
      | float x =>
        cases m with
        | float y => exact .cons h .nil
        | _ => cases h
      | _ =>
        cases m with
        | float y => cases h
        | _ => exact .nil
    | node b ts => simp [equal] at h
  | node a ss ih =>
    cases t with
    | literal m => simp [equal] at h
    | node b ts =>
      rw [floats, floats]
      exact floatsEach_of_equal
        (forall₂_imp_of_mem (equal_node.1 h).2 fun s hs _ _ hst => ih s hs hst)

/-- One of the two zeros. -/
def IsZero (x : Float) : Prop := x = 0 ∨ x = Binary64.negativeZero

variable {s t k : Tree}

/-- Trees of one canonical form differ in the signs of zeros only. -/
theorem floats_of_canonical (hs : s.canonical = .ok k) (ht : t.canonical = .ok k) :
    s.equal t = true ∧
      List.Forall₂ (fun x y => x = y ∨ IsZero x ∧ IsZero y) s.floats t.floats := by
  have equal := (equal_iff_canonical hs ht).2 rfl
  exact ⟨equal, (floats_of_equal equal).imp fun x y h => (Binary64.beq_iff.1 h).2⟩

/-- Trees of one canonical form that lack the same one of the two zeros are identical. -/
theorem eq_of_canonical (hs : s.canonical = .ok k) (ht : t.canonical = .ok k) {z : Float}
    (hz : IsZero z) (hzs : z ∉ s.floats) (hzt : z ∉ t.floats) : s = t := by
  obtain ⟨equal, floats⟩ := floats_of_canonical hs ht
  refine eq_of_equal_of_floats equal ?_
  rw [← List.forall₂_eq_eq_eq]
  refine forall₂_imp_of_mem floats fun x hx y hy h => ?_
  have hxz : x ≠ z := fun e => hzs (e ▸ hx)
  have hyz : y ≠ z := fun e => hzt (e ▸ hy)
  rcases h with rfl | ⟨hx, hy⟩
  · rfl
  · -- both are the zero that is left
    rcases hz with rfl | rfl
    · rw [hx.resolve_left hxz, hy.resolve_left hyz]
    · rw [hx.resolve_right hxz, hy.resolve_right hyz]

theorem floatsEach_eq_flatMap (cs : List Tree) : floatsEach cs = cs.flatMap floats := by
  induction cs with
  | nil => rfl
  | cons c cs ih => rw [floatsEach, List.flatMap_cons, ih]

theorem mem_floats_node {a : Action} {cs : List Tree} {x : Float} :
    x ∈ (node a cs).floats ↔ ∃ c ∈ cs, x ∈ c.floats := by
  rw [floats, floatsEach_eq_flatMap, List.mem_flatMap]

theorem mem_floats_of_mem_subtrees (hs : s ∈ t.subtrees) {x : Float} (hx : x ∈ s.floats) :
    x ∈ t.floats := by
  induction t using Tree.induction with
  | literal l =>
    obtain rfl := mem_subtrees_literal.1 hs
    exact hx
  | node a cs ih =>
    rcases mem_subtrees_node.1 hs with rfl | ⟨c, hc, hs⟩
    · exact hx
    · exact mem_floats_node.2 ⟨c, hc, ih c hc hs⟩

/-- In a tree that lacks one of the two zeros, subtrees that are taken for the same are the same. -/
theorem eq_of_canonical_of_mem {z : Float} (hz : IsZero z) (hzt : z ∉ t.floats) {r s : Tree}
    (hr : r ∈ t.subtrees) (hs : s ∈ t.subtrees) (hrk : r.canonical = .ok k)
    (hsk : s.canonical = .ok k) : r = s :=
  eq_of_canonical hrk hsk hz (fun h => hzt (mem_floats_of_mem_subtrees hr h))
    fun h => hzt (mem_floats_of_mem_subtrees hs h)

/-! ## Division by the two zeros -/

/-- One over a number. -/
def reciprocal (x : Float) : Tree := binary .div (literal (.int 1)) (literal (.float x))

/-- The product of one over zero and one over negative zero. -/
def oppositeReciprocals : Tree := binary .mul (reciprocal 0) (reciprocal Binary64.negativeZero)

/-- One over zero and one over negative zero have one canonical form, but opposite values and
different names. Their product is negative infinity, and the plan of the product, which computes one
of them for both, gives positive infinity. -/
theorem reciprocals_merged (c : Context) :
    oppositeReciprocals.accepted = true ∧
    (reciprocal 0).canonical = (reciprocal Binary64.negativeZero).canonical ∧
    (reciprocal 0).eval c = .ok (.scalar (.float Binary64.infinity)) ∧
    (reciprocal Binary64.negativeZero).eval c = .ok (.scalar (.float (-Binary64.infinity))) ∧
    (reciprocal 0).outputName = .ok "/(1,0)" ∧
    (reciprocal Binary64.negativeZero).outputName = .ok "/(1,-0)" ∧
    oppositeReciprocals.eval c = .ok (.scalar (.float (-Binary64.infinity))) ∧
    ∃ p, oppositeReciprocals.share = .ok p ∧
      p.eval c = .ok (.scalar (.float Binary64.infinity)) :=
  ⟨by decide, rfl, rfl, rfl, rfl, rfl, rfl, _, rfl, rfl⟩

end SpanJoin.Tree
