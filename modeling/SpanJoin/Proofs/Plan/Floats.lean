import SpanJoin.Proofs.Plan.Declarations
import SpanJoin.Proofs.Plan.Merging
import SpanJoin.Proofs.Plan.Ordered

/-!
# Floating-point literals of shared plans

A shared plan has the floating-point literals of the tree, some of them fewer times
(`mem_floats_share`). A reference stands for a subtree of the same canonical form as the declared
one, so of the two zeros only one may be left.
-/

namespace SpanJoin

namespace Plan

/-- The floating-point literals of the declared trees and of the root. -/
def floats (p : Plan) : List Float := p.declarations.flatMap (fun d => d.2.floats) ++ p.root.floats

theorem mem_floats {p : Plan} {x : Float} :
    x ∈ p.floats ↔ (∃ d ∈ p.declarations, x ∈ d.2.floats) ∨ x ∈ p.root.floats := by
  rw [floats, List.mem_append, List.mem_flatMap]

end Plan

namespace Tree

/-- A floating-point literal stays, or is in a subtree that is replaced. -/
theorem Replaced.mem_floats {P : Tree → Tree → Prop} {column : Bool} {t u : Tree}
    (h : Replaced P column t u) {x : Float} (hx : x ∈ t.floats) :
    x ∈ u.floats ∨ ∃ c d, P c d ∧ x ∈ c.floats := by
  have each {column : Bool} {a : Action} {cs ds : List Tree}
      (ih : List.Forall₂ (fun c d => ∃ _ : Replaced P column c d, x ∈ c.floats →
        x ∈ d.floats ∨ ∃ c d, P c d ∧ x ∈ c.floats) cs ds)
      (hx : x ∈ (Tree.node a cs).floats) :
      x ∈ (Tree.node a ds).floats ∨ ∃ c d, P c d ∧ x ∈ c.floats := by
    obtain ⟨c, hc, hx⟩ := mem_floats_node.1 hx
    obtain ⟨d, hd, -, h⟩ := exists_mem_of_forall₂_right ih.flip hc
    exact (h hx).imp_left fun hx => mem_floats_node.2 ⟨d, hd, hx⟩
  induction h using Replaced.induction with
  | here h => exact .inr ⟨_, _, h, hx⟩
  | literal l => exact .inl hx
  | node _ _ ih => exact each ih hx
  | hstack _ ih => exact each ih hx
  | kept c => exact .inl hx
  | named _ _ ih => exact (ih hx).imp_left fun hx => mem_floats_node.2 ⟨_, List.mem_cons_self, hx⟩

/-- Trees of one canonical form share the floating-point literals that are not zero. -/
theorem mem_floats_of_canonical {s t k : Tree} (hs : s.canonical = .ok k) (ht : t.canonical = .ok k)
    {x : Float} (hx : x ∈ s.floats) (hz : ¬ IsZero x) : x ∈ t.floats := by
  obtain ⟨y, hy, h⟩ := exists_mem_of_forall₂_right (floats_of_canonical hs ht).2.flip hx
  rcases h with rfl | ⟨hx, -⟩
  · exact hy
  · exact absurd hx hz

namespace Shares

variable {t : Tree} {rs : List (String × Occurrence)} {p : Plan}

/-- The literals of what is abbreviated are left there, or are in a declaration. -/
theorem mem_floats_of_replaced (h : t.Shares rs p) {bound : Nat} {s u : Tree}
    (hu : Replaced (Reference rs bound) false s u) {x : Float} (hx : x ∈ s.floats)
    (hz : ¬ IsZero x) : (∃ d ∈ p.declarations, x ∈ d.2.floats) ∨ x ∈ u.floats := by
  -- what a reference stands for is declared, and the body of that refers to lower subtrees
  induction bound using Nat.strong_induction_on generalizing s u with
  | _ bound ih =>
    rcases hu.mem_floats hx with hx | ⟨c, d, ⟨-, -, hlt, r, hr, hk, -⟩, hx⟩
    · exact .inr hx
    · have hs := mem_floats_of_canonical hk (h.canonical_subtree hr) hx hz
      obtain ⟨body, hb, hbody⟩ := h.exists_body hr
      obtain ⟨i, hi⟩ := Plan.exists_of_declaration? hb
      rcases ih _ (h.height_subtree hr hk ▸ hlt) hbody hs with declared | hx
      · exact .inl declared
      · exact .inl ⟨_, List.mem_of_getElem? hi, hx⟩

theorem mem_floats (h : t.Shares rs p) {x : Float} (hx : x ∈ p.floats) : x ∈ t.floats := by
  rcases Plan.mem_floats.1 hx with ⟨d, hd, hx⟩ | hx
  · obtain ⟨r, hr, -, body⟩ := exists_mem_of_forall₂_right h.bodies hd
    have hbody := h.replaced (h.naming.first r hr) body
    have kept := hbody.floats_sublist fun _ _ => Reference.floats_eq_nil
    exact mem_floats_of_mem_subtrees (h.naming.subtree_mem hr) (kept.mem hx)
  · exact (h.root_replaced.floats_sublist fun _ _ => Reference.floats_eq_nil).mem hx

end Shares

/-- Sharing keeps the floating-point literals, but for the signs of zeros. -/
theorem mem_floats_share {t : Tree} (ht : t.accepted = true) {p : Plan} (hp : t.share = .ok p)
    {x : Float} (hz : ¬ IsZero x) : x ∈ p.floats ↔ x ∈ t.floats := by
  obtain ⟨rs, h⟩ := exists_shares_of_share ht hp
  exact ⟨h.mem_floats, fun hx => Plan.mem_floats.2 (h.mem_floats_of_replaced h.root_replaced hx hz)⟩

end Tree

end SpanJoin
