import SpanJoin.Proofs.Plan.Declarations
import SpanJoin.Proofs.Plan.OneTree

/-!
# Shared plans are well formed

The plan of a tree is drafted, be the tree accepted or not (`Tree.Drafts`). So it is in order, and
expanding comes to an end and leaves no reference to a declaration, as the declared trees are nodes
(`Drafts.isLiteral_body`). If the tree is accepted, then so is everything in the plan
(`Replaced.accepted`), and the plan can be written as one tree (`exists_toTree_of_share`).
`share_wellFormed` puts this together.
-/

namespace SpanJoin.Tree

/-! ## Acceptance -/

/-- Nodes fit the slots that other nodes fit. -/
theorem Fills.of_node {slot : Slot} {c d : Tree} (h : Fills slot c) (hc : c.isLiteral = false)
    (hd : d.isLiteral = false) : Fills slot d := by
  cases c with
  | literal l => simp [isLiteral] at hc
  | node a cs =>
    cases d with
    | literal l => simp [isLiteral] at hd
    | node b ds => cases slot <;> exact h

/-- An action that accepts some children accepts others with literals in the same places. -/
theorem check_isOk_of_forall₂ {a : Action} {cs ds : List Tree} (h : (check a cs).isOk = true)
    (same : List.Forall₂ (fun c d => c = d ∨ c.isLiteral = false ∧ d.isLiteral = false) cs ds) :
    (check a ds).isOk = true := by
  obtain ⟨slots, hs, hf⟩ := check_isOk_iff.1 h
  refine check_isOk_iff.2 ⟨slots, by rw [← same.length_eq, hs], ?_⟩
  clear h hs
  induction same generalizing slots with
  | nil => exact hf
  | cons hcd _ ih =>
    obtain ⟨slot, slots, hc, hrest, rfl⟩ := List.forall₂_cons_right_iff.1 hf
    refine .cons ?_ (ih slots hrest)
    rcases hcd with rfl | ⟨hc', hd⟩
    · exact hc
    · exact hc.of_node hc' hd

theorem accepted_refer (name : String) : (refer name).accepted = true := rfl

theorem accepted_nameAs {t : Tree} (ht : t.accepted = true) (hl : t.isLiteral = false)
    (name : String) : (nameAs t name).accepted = true := by
  have fits : Fills .node t := by
    cases t with
    | literal l => simp [isLiteral] at hl
    | node a cs => exact ⟨rfl, rfl⟩
  refine accepted_node.2 ⟨check_isOk_iff.2 ⟨_, rfl, .cons fits (.cons ⟨rfl, rfl⟩ .nil)⟩, ?_⟩
  simp [ht, ofText, accepted]

namespace Replaced

variable {P : Tree → Tree → Prop} {t u : Tree}

/-- Replacing nodes by nodes leaves a tree as it is, or makes a node of a node. -/
theorem eq_or_isLiteral (h : Replaced P false t u)
    (nodes : ∀ c d, P c d → c.isLiteral = false ∧ d.isLiteral = false) :
    t = u ∨ t.isLiteral = false ∧ u.isLiteral = false := by
  cases h with
  | here h => exact .inr (nodes _ _ h)
  | literal l => exact .inl rfl
  | node | hstack => exact .inr ⟨rfl, rfl⟩

/-- An accepted tree is still accepted when nodes in it are replaced by accepted nodes. -/
theorem accepted {column : Bool} (h : Replaced P column t u) (ht : t.accepted = true)
    (nodes : ∀ c d, P c d → c.isLiteral = false ∧ d.isLiteral = false)
    (accepts : ∀ c d, P c d → d.accepted = true) (hc : column = true → t.isLiteral = false) :
    u.accepted = true ∧ (column = true → u.isLiteral = false) := by
  induction h using Replaced.induction with
  | here h => exact ⟨accepts _ _ h, nofun⟩
  | literal l => exact ⟨rfl, nofun⟩
  | @node a cs ds ha h ih =>
    refine ⟨accepted_node.2 ⟨check_isOk_of_forall₂ (accepted_node.1 ht).1
      (h.imp fun c d hcd => hcd.eq_or_isLiteral nodes), fun d hd => ?_⟩, nofun⟩
    obtain ⟨c, hc, -, hcd⟩ := exists_mem_of_forall₂_right ih hd
    exact (hcd ((accepted_node.1 ht).2 c hc) nofun).1
  | @hstack cs ds h ih =>
    have columns := hstack_children ht
    have each : List.Forall₂ (fun c d => c.isLiteral = false ∧ d.accepted = true ∧
        d.isLiteral = false) cs ds := forall₂_imp_of_mem ih fun c hc d _ ⟨_, hcd⟩ => by
      obtain ⟨hd, hl⟩ := hcd ((accepted_node.1 ht).2 c hc) fun _ => columns c hc
      exact ⟨columns c hc, hd, hl rfl⟩
    refine ⟨accepted_node.2 ⟨check_isOk_of_forall₂ (accepted_node.1 ht).1
      (each.imp fun c d hcd => .inr ⟨hcd.1, hcd.2.2⟩), fun d hd => ?_⟩, nofun⟩
    obtain ⟨c, -, -, hda, -⟩ := exists_mem_of_forall₂_right each hd
    exact hda
  | kept c => exact ⟨ht, hc⟩
  | @named c d name h hn ih =>
    have hd : d.isLiteral = false := by
      rcases h.eq_or_isLiteral nodes with rfl | ⟨-, hd⟩
      · exact hc rfl
      · exact hd
    exact ⟨accepted_nameAs (ih ht nofun).1 hd name, fun _ => rfl⟩

end Replaced

theorem Reference.isLiteral {rs : List (String × Occurrence)} {bound : Nat} {c d : Tree}
    (h : Reference rs bound c d) : c.isLiteral = false ∧ d.isLiteral = false := by
  obtain ⟨hl, name, rfl⟩ := h.refers
  exact ⟨hl, rfl⟩

theorem Reference.accepted {rs : List (String × Occurrence)} {bound : Nat} {c d : Tree}
    (h : Reference rs bound c d) : d.accepted = true := by
  obtain ⟨-, name, rfl⟩ := h.refers
  exact accepted_refer name

/-! ## What is declared -/

namespace Drafts

variable {t : Tree} {rs : List (String × Occurrence)} {p : Plan} (h : t.Drafts rs p)
include h

/-- The declared trees are nodes. -/
theorem isLiteral_body {d : String × Tree} (hd : d ∈ p.declarations) : d.2.isLiteral = false := by
  obtain ⟨r, hr, -, hbody⟩ := exists_mem_of_forall₂_right h.bodies hd
  rcases hbody.eq_or_isLiteral (fun _ _ => Reference.isLiteral) with e | ⟨-, hl⟩
  · rw [← e]
    exact (h.subtree_spec ((sortBy_perm rs).subset hr)).1
  · exact hl

/-- The declared trees are accepted if the whole tree is. -/
theorem accepted_body (ht : t.accepted = true) {d : String × Tree} (hd : d ∈ p.declarations) :
    d.2.accepted = true := by
  obtain ⟨r, hr, -, hbody⟩ := exists_mem_of_forall₂_right h.bodies hd
  have hm := mem_subtrees_of_follow? (h.traced r ((sortBy_perm rs).subset hr)).1.1
  exact (hbody.accepted (accepted_of_mem_subtrees ht hm) (fun _ _ => Reference.isLiteral)
    (fun _ _ => Reference.accepted) nofun).1

end Drafts

theorem Shares.accepted_root {t : Tree} {rs : List (String × Occurrence)} {p : Plan}
    (h : t.Shares rs p) (ht : t.accepted = true) : p.root.accepted = true :=
  (h.root_replaced.accepted ht (fun _ _ => Reference.isLiteral) (fun _ _ => Reference.accepted)
    nofun).1

/-- The plan of an accepted tree can be written as one tree. -/
theorem exists_toTree_of_share {t : Tree} (ht : t.accepted = true) {p : Plan}
    (hp : t.share = .ok p) : ∃ u, p.toTree = .ok u := by
  rw [Plan.exists_toTree_iff]
  cases t with
  | literal l =>
    -- a literal is its own plan, which declares nothing
    rw [← Except.ok.inj hp]
    exact .inl rfl
  | node a cs =>
    obtain ⟨rs, h⟩ := exists_shares_of_share ht hp
    have root : p.root.isLiteral = false := by
      rcases h.root_replaced.eq_or_isLiteral (fun _ _ => Reference.isLiteral) with e | ⟨-, hl⟩
      · rw [← e]
        rfl
      · exact hl
    have start : Fills .any (node a cs) := ⟨rfl, rfl⟩
    exact .inr (start.of_node rfl root)

/-- **Every shared plan is well formed**, whatever the tree. The names of its declarations are the
first reserved ones, each of them once. Every reference in a declared tree is to an earlier
declaration. So expanding a tree comes to an end, the root and the declared trees among others, and
leaves no reference to a declaration. If the tree is accepted, then so are the root and the declared
trees, and the plan can be written as one tree. -/
theorem share_wellFormed {t : Tree} {p : Plan} (hp : t.share = .ok p) :
    (p.declarations.map Prod.fst).Perm ((List.range p.declarations.length).map subtreeName) ∧
      p.Ordered ∧
      (∀ u, ∃ v, p.expand u = some v ∧
        ∀ s ∈ v.subtrees, ∀ d ∈ p.declarations, s.referred? ≠ some d.1) ∧
      (t.accepted = true → p.root.accepted = true ∧
        (∀ d ∈ p.declarations, d.2.accepted = true) ∧ ∃ u, p.toTree = .ok u) := by
  obtain ⟨rs, h⟩ := exists_drafts hp
  refine ⟨h.names_perm, h.ordered, fun u => ?_, fun ht => ⟨?_, ?_, exists_toTree_of_share ht hp⟩⟩
  · obtain ⟨v, hv⟩ := h.ordered.exists_expand u
    exact ⟨v, hv, Plan.referred?_of_expand (fun d hd => h.isLiteral_body hd) hv⟩
  · obtain ⟨rs, h⟩ := exists_shares_of_share ht hp
    exact h.accepted_root ht
  · exact fun d hd => h.accepted_body ht hd

/-- A product of repeated sums, with a reference that has the name of a declaration. -/
def clashing : Tree :=
  let x := rightColumn "x"
  let double := binary .add x x
  binary .add (binary .mul double double) (refer "subtree_0")

theorem share_wellFormed_clashing : clashing.accepted = true ∧ ∃ p, clashing.share = .ok p ∧
    p.declarations.map Prod.fst = ["subtree_1", "subtree_0"] ∧ p.Ordered ∧
    (∃ v, p.expand p.root = some v ∧
      ∀ s ∈ v.subtrees, ∀ d ∈ p.declarations, s.referred? ≠ some d.1) ∧
    ∃ u, p.toTree = .ok u := by
  have accepted : clashing.accepted = true := by decide
  obtain ⟨-, ordered, expands, h⟩ := share_wellFormed (t := clashing) rfl
  exact ⟨accepted, _, rfl, rfl, ordered, expands _, (h accepted).2.2⟩

end SpanJoin.Tree
