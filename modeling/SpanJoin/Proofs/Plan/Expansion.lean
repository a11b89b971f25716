import SpanJoin.Proofs.Plan.Declarations

/-!
# Expanding a shared plan

Replacing the references in the root of a shared plan by the declared subtrees gives back the tree
that was compiled (`expand_share`). Only columns put side by side may differ: a column whose tree
was changed by sharing goes under the name that it had, and the name stays when the tree is
restored.
-/

namespace SpanJoin.Tree

/-- The second tree is the first one, except that a column of a side-by-side node, restored itself,
may go under the name derived from the column of the first tree. -/
def Restored (t u : Tree) : Prop := Replaced (fun _ _ => False) false t u

theorem Restored.eq {t u : Tree} (h : t.Restored u)
    (ht : ∀ cs, node .hstack cs ∉ t.subtrees) : u = t :=
  h.eq_of_forall_not (fun _ _ _ h => h) rfl ht

/-- A tree with a canonical form is equal to itself by shape. -/
theorem structurallyEqual_self {t : Tree} (ht : t.accepted = true) (hn : t.isNaN = false) :
    t.structurallyEqual t = true := by
  obtain ⟨k, hk⟩ := exists_canonical ht hn
  exact (structurallyEqual_iff_canonical hk hk).2 rfl

namespace Shares

variable {t : Tree} {rs : List (String × Occurrence)} {p : Plan}

/-- Without negative zeros, a subtree is the one that is declared in its place. -/
theorem subtree_eq (h : t.Shares rs p) (hz : literal (.float Binary64.negativeZero) ∉ t.subtrees)
    {r : String × Occurrence} (hr : r ∈ rs) {s : Tree} (hs : s ∈ t.subtrees)
    (hk : s.canonical = .ok r.2.key) : s = r.2.subtree := by
  have hrs := h.naming.subtree_mem hr
  have hkr := canonical_eq_self (fun hm => hz (mem_subtrees_trans hm hrs)) (h.canonical_subtree hr)
  have hks := canonical_eq_self (fun hm => hz (mem_subtrees_trans hm hs)) hk
  exact hks.symm.trans hkr

/-- What references are replaced by restores the subtrees that they stand for. -/
theorem restored_of_expanded (h : t.Shares rs p)
    (hz : literal (.float Binary64.negativeZero) ∉ t.subtrees) {s w : Tree} (hs : s ∈ t.subtrees)
    (hw : Replaced (Expanded rs fun r w => r.2.subtree.Restored w) false s w) : s.Restored w := by
  refine (hw.imp_of_mem fun c hc v hv => ?_).flatten
  obtain ⟨r, hr, hk, hv⟩ := hv
  rwa [h.subtree_eq hz hr (mem_subtrees_trans hc hs) hk]

end Shares

/-- Compiling an accepted tree succeeds, and the expanded root of the plan is the tree again, up to
the names given to columns put side by side. -/
theorem expand_share {t : Tree} (ht : t.accepted = true)
    (hz : literal (.float Binary64.negativeZero) ∉ t.subtrees)
    (names : t.Unreserved) :
    ∃ p u, t.share = .ok p ∧ p.expand p.root = some u ∧ t.Restored u ∧
      ((∀ cs, node .hstack cs ∉ t.subtrees) →
        u = t ∧ (t.isNaN = false → u.structurallyEqual t = true)) := by
  obtain ⟨rs, p, hp, h⟩ := exists_shares ht
  have step : ∀ r ∈ rs, ∀ w, Replaced (Shares.Expanded rs fun r w => r.2.subtree.Restored w) false
      r.2.subtree w → r.2.subtree.Restored w :=
    fun r hr _ hw => h.restored_of_expanded hz (h.naming.subtree_mem hr) hw
  obtain ⟨u, hu, hw⟩ := h.exists_expand ht names step (mem_subtrees_self t) h.root_replaced
  have restored := h.restored_of_expanded hz (mem_subtrees_self t) hw
  refine ⟨p, u, hp, hu, restored, fun hs => ?_⟩
  have same := restored.eq hs
  refine ⟨same, fun hn => ?_⟩
  rw [same]
  exact structurallyEqual_self ht hn

/-- Two columns side by side, one of them read from a binding, with a repeated sum of a repeated
column. -/
def doubled : Tree :=
  let x := rightColumn "x"
  let double := binary .add x x
  node .execute [declare "v" double, node .hstack [unary .neg double, double, refer "v"]]

theorem unreserved_doubled : doubled.Unreserved := unreserved_of_short (by decide)

theorem expand_share_doubled : doubled.accepted = true ∧ ∃ p u, doubled.share = .ok p ∧
    p.expand p.root = some u ∧ doubled.Restored u ∧
    ((∀ cs, node .hstack cs ∉ doubled.subtrees) →
      u = doubled ∧ (doubled.isNaN = false → u.structurallyEqual doubled = true)) :=
  ⟨by decide, expand_share (by decide) (by decide) unreserved_doubled⟩

end SpanJoin.Tree
