import SpanJoin.Proofs.Collection.Sorted
import SpanJoin.Proofs.Outcome
import SpanJoin.Proofs.Plan.Occurrences
import SpanJoin.Proofs.Plan.Settled

/-!
# Drafts of plans

What the declarations of a plan look like does not depend on the tree being accepted.
`Tree.Drafts t rs p` says it for any tree: the names are numbered, the named subtrees are there, and
the declarations are abbreviated bodies in ascending order of height. A body has no references but
those put into it (`Replaced.exists_of_refer_mem`), and these are to lower subtrees, which are
declared before. So the declarations are in order once they are sorted (`Drafts.ordered`). Bringing
them into order changes nothing after that, and no tree is refused for a circle
(`share_eq_mapError`).
-/

namespace SpanJoin.Tree

/-! ## References in bodies -/

/-- The second tree refers to the declaration of the first one, which is a node lower than `bound`
that uses no bindings. -/
def Reference (rs : List (String × Occurrence)) (bound : Nat) (c d : Tree) : Prop :=
  c.isLiteral = false ∧ c.usesBindings = false ∧ c.height < bound ∧
    ∃ r ∈ rs, c.canonical = .ok r.2.key ∧ d = refer r.1

theorem Reference.refers {rs : List (String × Occurrence)} {bound : Nat} {c d : Tree}
    (h : Reference rs bound c d) : c.isLiteral = false ∧ ∃ name, d = refer name := by
  obtain ⟨hl, -, -, r, -, -, rfl⟩ := h
  exact ⟨hl, r.1, rfl⟩

theorem Reference.floats_eq_nil {rs : List (String × Occurrence)} {bound : Nat} {c d : Tree}
    (h : Reference rs bound c d) : d.floats = [] := by
  obtain ⟨-, -, -, r, -, -, rfl⟩ := h
  rfl

/-- What is abbreviated has references in the place of lower subtrees, if names are at paths to the
subtrees that they name. -/
theorem replaced_of_occursAt {t : Tree} {rs : List (String × Occurrence)}
    (occurs : ∀ p name, nameAt? rs p = some name → ∃ r ∈ rs, r.1 = name ∧ t.OccursAt r.2.key p)
    {s u : Tree} {start : Path} (hs : t.follow? start = some s)
    (hu : s.abbreviate (fun path => nameAt? rs (start ++ path)) = .ok u) :
    Replaced (Reference rs s.height) false s u := by
  refine replaced_of_abbreviate (fun _ _ => Reference.floats_eq_nil)
    (fun q c name hq hc hn => ?_) hu
  obtain ⟨r, hr, rfl, c', hc', hl, hb, hk⟩ := occurs _ _ hn
  rw [follow?_append, hs, Option.bind_some, hc] at hc'
  obtain rfl : c = c' := Option.some.inj hc'
  have length : 0 < q.length := List.length_pos_of_ne_nil hq
  have height := height_add_length_le hc
  exact ⟨hl, hb, by omega, r, hr, hk, rfl⟩

/-- In a tree without bindings, the references are those put in the place of subtrees. -/
theorem Replaced.exists_of_refer_mem {P : Tree → Tree → Prop} {column : Bool} {t u : Tree}
    (h : Replaced P column t u) (ht : t.usesBindings = false)
    (refs : ∀ c d, P c d → ∃ name, d = refer name) {cs : List Tree}
    (hm : Tree.node .refer cs ∈ u.subtrees) : ∃ c, P c (Tree.node .refer cs) := by
  rcases h.of_node_mem (a := .refer) nofun nofun hm with ⟨c, d, hcd, hm⟩ | ⟨vs, hv, -⟩
  · obtain ⟨name, rfl⟩ := refs c d hcd
    exact ⟨c, by rwa [node_mem_subtrees_refer.1 hm]⟩
  · have hb := usesBindings_of_mem_subtrees ht hv
    simp [usesBindings, Action.usesBindings] at hb

/-- The tree is the body of the declaration of a repeated subtree. -/
def Body (rs : List (String × Occurrence)) (r : String × Occurrence) (body : Tree) : Prop :=
  r.2.subtree.abbreviate (fun path => nameAt? rs (r.2.first ++ path)) = .ok body

theorem body_of_declarationOf {rs : List (String × Occurrence)} {r : String × Occurrence}
    {d : String × Tree} (hd : declarationOf rs r = .ok d) : d.1 = r.1 ∧ Body rs r d.2 := by
  obtain ⟨u, hu, e⟩ := Outcome.bind_eq_ok.1 hd
  obtain rfl : (r.1, u) = d := Except.ok.inj e
  exact ⟨rfl, hu⟩

/-! ## The declarations of any tree -/

theorem ascending_sortBy (rs : List (String × Occurrence)) :
    (sortBy heightLE rs).Pairwise fun r s => r.2.subtree.height ≤ s.2.subtree.height := by
  have total (r s : String × Occurrence) : heightLE r s || heightLE s r := by
    simpa [heightLE] using Nat.le_total _ _
  have trans (r s u : String × Occurrence) (hrs : heightLE r s) (hsu : heightLE s u) :
      heightLE r u :=
    decide_eq_true (Nat.le_trans (of_decide_eq_true hrs) (of_decide_eq_true hsu))
  have sorted : (sortBy heightLE rs).Pairwise fun r s => heightLE r s :=
    pairwise_sortBy_of_forall (S := fun _ => True) (fun r s _ _ => total r s)
      (fun r s u _ _ _ => trans r s u) fun _ _ => trivial
  exact sorted.imp of_decide_eq_true

/-- The plan `p` of the tree, accepted or not, declares the repeated subtrees `rs` in ascending
order of height. -/
structure Drafts (t : Tree) (rs : List (String × Occurrence)) (p : Plan) : Prop where
  names : rs.map Prod.fst = (List.range rs.length).map subtreeName
  traced : ∀ r ∈ rs, r.2.Traced t
  declared : List.Forall₂ (fun r d => declarationOf rs r = .ok d) (sortBy heightLE rs)
    p.declarations

namespace Drafts

section

variable {t : Tree} {rs : List (String × Occurrence)} {p : Plan} (h : t.Drafts rs p)
include h

/-- The declarations in order: each has the name of its subtree, and for its body the subtree with
references to lower ones. -/
theorem bodies : List.Forall₂ (fun r d => d.1 = r.1 ∧
    Replaced (Reference rs r.2.subtree.height) false r.2.subtree d.2) (sortBy heightLE rs)
      p.declarations := by
  refine forall₂_imp_of_mem h.declared fun r hr d _ hd => ?_
  obtain ⟨name, body⟩ := body_of_declarationOf hd
  refine ⟨name, replaced_of_occursAt (fun q name hn => ?_)
    (h.traced r ((sortBy_perm rs).subset hr)).1.1 body⟩
  obtain ⟨s, hs, e, hq⟩ := exists_of_nameAt? hn
  exact ⟨s, hs, e, (h.traced s hs).2 q hq⟩

/-- The declared names are the first reserved ones. -/
theorem names_perm : (p.declarations.map Prod.fst).Perm
    ((List.range p.declarations.length).map subtreeName) := by
  have same : p.declarations.map Prod.fst = (sortBy heightLE rs).map Prod.fst := by
    rw [← List.forall₂_eq_eq_eq, List.forall₂_map_left_iff, List.forall₂_map_right_iff]
    exact h.bodies.flip.imp fun d r hd => hd.1
  rw [same, ← h.declared.length_eq, (sortBy_perm rs).length_eq, ← h.names]
  exact (sortBy_perm rs).map Prod.fst

/-- A declared subtree is a node without bindings. -/
theorem subtree_spec {r : String × Occurrence} (hr : r ∈ rs) :
    r.2.subtree.isLiteral = false ∧ r.2.subtree.usesBindings = false := by
  obtain ⟨⟨hf, -⟩, occurs⟩ := h.traced r hr
  obtain ⟨s, hs, hl, hb, -⟩ := occurs r.2.first List.mem_cons_self
  obtain rfl : r.2.subtree = s := Option.some.inj (hf.symm.trans hs)
  exact ⟨hl, hb⟩

/-- The plan is in order. -/
theorem ordered : p.Ordered where
  apart := h.names_perm.nodup_iff.2 (List.nodup_range.map subtreeName_injective)
  earlier i d hd cs hm := by
    obtain ⟨r, hr, -, hbody⟩ := exists_getElem?_of_forall₂_right h.bodies hd
    have hrs := (sortBy_perm rs).subset (List.mem_of_getElem? hr)
    obtain ⟨c, -, -, hlt, s, hs, hk, e⟩ := hbody.exists_of_refer_mem (h.subtree_spec hrs).2
      (fun _ _ hcd => hcd.refers.2) hm
    have hss : s ∈ sortBy heightLE rs := (sortBy_perm rs).mem_iff.2 hs
    obtain ⟨j, hj⟩ := List.mem_iff_getElem?.1 hss
    obtain ⟨d', hd', hn, -⟩ := exists_getElem?_of_forall₂ h.bodies hj
    have height : s.2.subtree.height = c.height :=
      (height_of_canonical (h.traced s hs).1.2).symm.trans (height_of_canonical hk)
    refine ⟨j, lt_of_pairwise_le (ascending_sortBy rs) hj hr (by omega), d', hd', ?_⟩
    rw [hn]
    exact (node.inj e).2

end

/-- What is collected from a tree is declared as drafted. -/
theorem of_collect {t : Tree} {found : List Occurrence} {p : Plan}
    (hf : Occurrence.collect [] t.nodes = .ok found)
    (hd : (sortBy heightLE (nameRepeated found)).mapM (declarationOf (nameRepeated found)) =
      .ok p.declarations) : t.Drafts (nameRepeated found) p where
  names := names_nameRepeated found
  traced r hr := by
    have traced : ∀ o ∈ found, o.Traced t :=
      Occurrence.traced_of_collect (fun n hn => of_mem_nodes hn)
        (fun o ho => absurd ho List.not_mem_nil) hf
    exact traced r.2 (of_mem_nameRepeated hr).1
  declared := mapM_eq_ok_iff.1 hd

end Drafts

/-! ## Sharing -/

/-- **Sorting by height is order enough.** A tree is compiled as if its declarations were taken in
ascending order of height as they are, and all that is reported comes from taking the tree apart. -/
theorem share_eq_mapError {t : Tree} (hl : t.isLeaf = false) :
    t.share = Outcome.mapError PlanError.tree (do
      let found ← Outcome.ofExcept (Occurrence.collect [] t.nodes)
      let declarations ←
        (sortBy heightLE (nameRepeated found)).mapM (declarationOf (nameRepeated found))
      let root ← t.abbreviate (nameAt? (nameRepeated found))
      return ⟨declarations, root⟩) := by
  rw [share, hl, if_neg Bool.false_ne_true]
  cases hf : Occurrence.collect [] t.nodes with
  | error e => rfl
  | ok found =>
    simp only [Outcome.ofExcept, Outcome.mapError, Outcome.ok_bind]
    rcases hd : (sortBy heightLE (nameRepeated found)).mapM (declarationOf (nameRepeated found))
      with (e | _) | ds
    · rfl
    · rfl
    · have drafts : t.Drafts (nameRepeated found) ⟨ds, t⟩ := .of_collect hf hd
      simp only [drafts.ordered.settle_eq, Outcome.ok_bind]
      rcases t.abbreviate (nameAt? (nameRepeated found)) with (e | _) | root <;> rfl

theorem share_eq_ok_iff {t : Tree} (hl : t.isLeaf = false) {p : Plan} :
    t.share = .ok p ↔ ∃ found, Occurrence.collect [] t.nodes = .ok found ∧
      (sortBy heightLE (nameRepeated found)).mapM (declarationOf (nameRepeated found)) =
        .ok p.declarations ∧
      t.abbreviate (nameAt? (nameRepeated found)) = .ok p.root := by
  simp only [share_eq_mapError hl, Outcome.mapError_eq_ok, Outcome.bind_eq_ok,
    Outcome.ofExcept_eq_ok]
  constructor
  · rintro ⟨found, hf, ds, hd, root, hr, e⟩
    obtain rfl := Except.ok.inj e
    exact ⟨found, hf, hd, hr⟩
  · rintro ⟨found, hf, hd, hr⟩
    exact ⟨found, hf, _, hd, _, hr, rfl⟩

/-- No tree is refused for declarations that refer to each other in a circle. -/
theorem share_ne_circularDeclaration (t : Tree) (passes : Nat) :
    t.share ≠ .error (.error (.circularDeclaration passes)) := by
  cases hl : t.isLeaf with
  | true =>
    rw [share, if_pos hl]
    nofun
  | false =>
    have reported :
        Outcome.Reports (fun f => f ≠ .error (.circularDeclaration passes)) t.share := by
      rw [share_eq_mapError hl]
      exact Outcome.reports_mapError (by simp) (by simp)
    exact fun h => reported _ h rfl

/-- Whenever a tree has a plan, this declares repeated subtrees. -/
theorem exists_drafts {t : Tree} {p : Plan} (h : t.share = .ok p) : ∃ rs, t.Drafts rs p := by
  cases hl : t.isLeaf with
  | true =>
    rw [share, if_pos hl] at h
    rw [← Except.ok.inj h]
    exact ⟨[], rfl, nofun, .nil⟩
  | false =>
    obtain ⟨found, hf, hd, -⟩ := (share_eq_ok_iff hl).1 h
    exact ⟨nameRepeated found, .of_collect hf hd⟩

end SpanJoin.Tree
