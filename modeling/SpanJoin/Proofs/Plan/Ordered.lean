import SpanJoin.Proofs.Plan.Replacement

/-!
# Plans in order

A plan is ordered if no two declarations share a name and every body refers only to declarations
before its own. Expanding a tree then comes to an end, whatever the tree refers to
(`Ordered.exists_expand`): each level of replacement leads to an earlier declaration. The bound on
the levels that `Plan.expand` is defined with does not show, since the expansion is what its
equation says, all the way down (`Ordered.expand_eq_graft`). If the bodies are nodes, no reference
to a declaration is left (`referred?_of_expand`).
-/

namespace SpanJoin

namespace Tree

/-- The name that a reference is to. A reference without a text in the first place is to none. -/
def referred? : Tree → Option String
  | .node .refer (c :: _) => c.text?
  | _ => none

theorem exists_children_of_referred? {s : Tree} {name : String} (h : s.referred? = some name) :
    ∃ c cs, s = node .refer (c :: cs) ∧ c.text? = some name := by
  unfold referred? at h
  split at h
  · exact ⟨_, _, rfl, h⟩
  · cases h

/-! ## Grafting -/

variable {body : String → Option (Option Tree)} {t u : Tree}

/-- A node is replaced as a whole if it refers to a name that is to be replaced. -/
theorem graft_node_of_some {a : Action} {cs : List Tree} {r : Option Tree}
    (h : (node a cs).referred?.bind body = some r) : (node a cs).graft body = r := by
  obtain ⟨name, hr, hb⟩ := Option.bind_eq_some_iff.1 h
  obtain ⟨c, ds, e, hc⟩ := exists_children_of_referred? hr
  obtain ⟨rfl, rfl⟩ := node.inj e
  simp [graft, hc, hb]

theorem graft_node_of_none {a : Action} {cs : List Tree}
    (h : (node a cs).referred?.bind body = none) :
    (node a cs).graft body = (graftEach body cs).map (node a) := by
  by_cases ha : a = .refer
  · subst ha
    cases cs with
    | nil => simp [graft]
    | cons c cs =>
      rw [referred?] at h
      simp [graft, h]
  · exact graft_node ha cs

/-- Grafting succeeds if no reference lacks its replacement. -/
theorem exists_graft
    (h : ∀ s ∈ t.subtrees, ∀ name, s.referred? = some name → body name ≠ some none) :
    ∃ u, t.graft body = some u := by
  induction t using Tree.induction with
  | literal l => exact ⟨_, rfl⟩
  | node a cs ih =>
    cases hr : (node a cs).referred?.bind body with
    | some r =>
      obtain ⟨name, hn, hb⟩ := Option.bind_eq_some_iff.1 hr
      obtain ⟨w, rfl⟩ : ∃ w, r = some w := by
        cases r with
        | none => exact absurd hb (h _ (mem_subtrees_self _) name hn)
        | some w => exact ⟨w, rfl⟩
      exact ⟨w, graft_node_of_some hr⟩
    | none =>
      obtain ⟨ds, hds⟩ := exists_forall₂ fun c hc =>
        ih c hc fun s hs => h s (mem_subtrees_of_mem hc hs)
      exact ⟨node a ds, by rw [graft_node_of_none hr, graftEach_eq_some_iff.2 hds, Option.map_some]⟩

/-- Grafting gives the same with other replacements, if these agree with the ones that were there
and replace no further names. -/
theorem graft_mono {body' : String → Option (Option Tree)}
    (replaced : ∀ name w, body name = some (some w) → body' name = some (some w))
    (kept : ∀ name, body name = none → body' name = none) (h : t.graft body = some u) :
    t.graft body' = some u := by
  induction t using Tree.induction generalizing u with
  | literal l => exact h
  | node a cs ih =>
    cases hr : (node a cs).referred?.bind body with
    | some r =>
      rw [graft_node_of_some hr] at h
      subst h
      obtain ⟨name, hn, hb⟩ := Option.bind_eq_some_iff.1 hr
      exact graft_node_of_some (by rw [hn, Option.bind_some, replaced name u hb])
    | none =>
      rw [graft_node_of_none hr, Option.map_eq_some_iff] at h
      obtain ⟨ds, hds, rfl⟩ := h
      have same : (node a cs).referred?.bind body' = none := by
        rw [Option.bind_eq_none_iff] at hr ⊢
        exact fun name hn => kept name (hr name hn)
      have each := forall₂_imp_of_mem (graftEach_eq_some_iff.1 hds) fun c hc d _ hcd => ih c hc hcd
      rw [graft_node_of_none same, graftEach_eq_some_iff.2 each, Option.map_some]

/-- Nodes are grafted to nodes, if the replacements are nodes. -/
theorem isLiteral_graft (nodes : ∀ name w, body name = some (some w) → w.isLiteral = false)
    (h : t.graft body = some u) (ht : t.isLiteral = false) : u.isLiteral = false := by
  cases t with
  | literal l => simp [isLiteral] at ht
  | node a cs =>
    cases hr : (node a cs).referred?.bind body with
    | some r =>
      rw [graft_node_of_some hr] at h
      subst h
      obtain ⟨name, -, hb⟩ := Option.bind_eq_some_iff.1 hr
      exact nodes name u hb
    | none =>
      rw [graft_node_of_none hr, Option.map_eq_some_iff] at h
      obtain ⟨ds, -, rfl⟩ := h
      rfl

/-- What is referred to after grafting is a name that is not replaced, or one that a replacement
refers to, as long as replacements are nodes. -/
theorem referred?_of_graft {R : String → Prop} (kept : ∀ name, body name = none → R name)
    (nodes : ∀ name w, body name = some (some w) → w.isLiteral = false)
    (added : ∀ name w, body name = some (some w) →
      ∀ s ∈ w.subtrees, ∀ n, s.referred? = some n → R n)
    (h : t.graft body = some u) : ∀ s ∈ u.subtrees, ∀ n, s.referred? = some n → R n := by
  induction t using Tree.induction generalizing u with
  | literal l =>
    obtain rfl : literal l = u := Option.some.inj h
    intro s hs n hn
    rw [mem_subtrees_literal.1 hs] at hn
    cases hn
  | node a cs ih =>
    cases hr : (node a cs).referred?.bind body with
    | some r =>
      rw [graft_node_of_some hr] at h
      subst h
      obtain ⟨name, -, hb⟩ := Option.bind_eq_some_iff.1 hr
      exact added name u hb
    | none =>
      rw [graft_node_of_none hr, Option.map_eq_some_iff] at h
      obtain ⟨ds, hds, rfl⟩ := h
      have each := graftEach_eq_some_iff.1 hds
      intro s hs n hn
      rcases mem_subtrees_node.1 hs with rfl | ⟨d, hd, hs⟩
      · obtain ⟨d, ds, e, hd⟩ := exists_children_of_referred? hn
        obtain ⟨rfl, rfl⟩ := node.inj e
        -- the text that is read was there before grafting, since replacements are nodes
        cases each with
        | @cons c _ cs _ hc _ =>
          cases c with
          | literal l =>
            obtain rfl : literal l = d := Option.some.inj hc
            rw [referred?, hd, Option.bind_some] at hr
            exact kept n hr
          | node b vs =>
            have hl := isLiteral_graft nodes hc rfl
            cases d with
            | literal l => simp [isLiteral] at hl
            | node b' vs' => cases hd
      · obtain ⟨c, hc, hcd⟩ := exists_mem_of_forall₂_right each hd
        exact ih c hc hcd s hs n hn

end Tree

namespace Plan

/-- No two declarations share a name, and every reference in a body is to a declaration before. -/
structure Ordered (p : Plan) : Prop where
  apart : (p.declarations.map Prod.fst).Nodup
  earlier : ∀ (i : Nat) (d : String × Tree), p.declarations[i]? = some d →
    ∀ cs, Tree.node .refer cs ∈ d.2.subtrees →
      ∃ j < i, ∃ e : String × Tree, p.declarations[j]? = some e ∧ cs = [Tree.ofText e.1]

variable {p : Plan} {t u : Tree}

/-- A declared tree is one of the declarations. -/
theorem exists_of_declaration? {name : String} {body : Tree} (h : p.declaration? name = some body) :
    ∃ i : Nat, p.declarations[i]? = some (name, body) := by
  obtain ⟨before, after, e, -⟩ := List.lookup_eq_some_iff.1 h
  exact List.mem_iff_getElem?.1 (by rw [e]; simp)

/-- Expanding leaves no references to declarations, if the bodies are nodes. -/
theorem referred?_of_expandWithin (nodes : ∀ d ∈ p.declarations, d.2.isLiteral = false)
    {depth : Nat} (h : p.expandWithin depth t = some u) :
    (t.isLiteral = false → u.isLiteral = false) ∧
      ∀ s ∈ u.subtrees, ∀ name, s.referred? = some name → p.declaration? name = none := by
  induction depth generalizing t u with
  | zero =>
    have lacking (name : String) (w : Tree) :
        ¬ (p.declaration? name).map (fun _ => (none : Option Tree)) = some (some w) := by simp
    exact ⟨Tree.isLiteral_graft (fun name w hw => (lacking name w hw).elim) h,
      Tree.referred?_of_graft (fun name hn => by simpa using hn)
        (fun name w hw => (lacking name w hw).elim) (fun name w hw => (lacking name w hw).elim) h⟩
  | succ depth ih =>
    have given : ∀ name w, (p.declaration? name).map (p.expandWithin depth) = some (some w) →
        ∃ body, p.expandWithin depth body = some w ∧ body.isLiteral = false := by
      intro name w hw
      obtain ⟨body, hb, hw⟩ := Option.map_eq_some_iff.1 hw
      obtain ⟨i, hi⟩ := exists_of_declaration? hb
      exact ⟨body, hw, nodes _ (List.mem_of_getElem? hi)⟩
    have isNode : ∀ name w, (p.declaration? name).map (p.expandWithin depth) = some (some w) →
        w.isLiteral = false := by
      intro name w hw
      obtain ⟨body, hb, hl⟩ := given name w hw
      exact (ih hb).1 hl
    refine ⟨Tree.isLiteral_graft isNode h,
      Tree.referred?_of_graft (fun name hn => by simpa using hn) isNode (fun name w hw => ?_) h⟩
    obtain ⟨body, hb, -⟩ := given name w hw
    exact (ih hb).2

theorem referred?_of_expand (nodes : ∀ d ∈ p.declarations, d.2.isLiteral = false)
    (h : p.expand t = some u) :
    ∀ s ∈ u.subtrees, ∀ d ∈ p.declarations, s.referred? ≠ some d.1 := by
  intro s hs d hd e
  have none := (referred?_of_expandWithin nodes h).2 s hs d.1 e
  exact absurd rfl (bne_iff_ne.1 (List.lookup_eq_none_iff.1 none d hd))

/-- More levels change nothing where there were enough. -/
theorem expandWithin_succ {depth : Nat} (h : p.expandWithin depth t = some u) :
    p.expandWithin (depth + 1) t = some u := by
  induction depth generalizing t u with
  | zero =>
    refine Tree.graft_mono (fun name w hw => ?_) (fun name hn => by simpa using hn) h
    simp at hw
  | succ depth ih =>
    refine Tree.graft_mono (fun name w hw => ?_) (fun name hn => by simpa using hn) h
    obtain ⟨body, hb, hw⟩ := Option.map_eq_some_iff.1 hw
    rw [hb, Option.map_some, ih hw]

namespace Ordered

/-- A name has one declaration. -/
theorem position_eq (h : p.Ordered) {i j : Nat} {d e : String × Tree}
    (hi : p.declarations[i]? = some d) (hj : p.declarations[j]? = some e) (hn : d.1 = e.1) :
    i = j := by
  have length : i < (p.declarations.map Prod.fst).length := by
    rw [List.length_map]
    exact (List.getElem?_eq_some_iff.1 hi).1
  refine (List.getElem?_inj length h.apart).1 ?_
  rw [List.getElem?_map, List.getElem?_map, hi, hj, Option.map_some, Option.map_some, hn]

/-- Expanding succeeds to a depth that lies above all declarations referred to. -/
theorem exists_expandWithin (h : p.Ordered) {depth : Nat}
    (deep : ∀ s ∈ t.subtrees, ∀ (i : Nat) (d : String × Tree), p.declarations[i]? = some d →
      s.referred? = some d.1 → i < depth) : ∃ u, p.expandWithin depth t = some u := by
  -- the induction is on the depth: a body refers to declarations before its own only
  induction depth generalizing t with
  | zero =>
    refine Tree.exists_graft fun s hs name hn hb => ?_
    obtain ⟨body, hd, -⟩ := Option.map_eq_some_iff.1 hb
    obtain ⟨i, hi⟩ := exists_of_declaration? hd
    exact absurd (deep s hs i _ hi hn) (Nat.not_lt_zero i)
  | succ depth ih =>
    refine Tree.exists_graft fun s hs name hn hb => ?_
    obtain ⟨body, hd, hw⟩ := Option.map_eq_some_iff.1 hb
    obtain ⟨i, hi⟩ := exists_of_declaration? hd
    have hid := deep s hs i _ hi hn
    obtain ⟨w, hw'⟩ := ih (t := body) fun r hr j d hj hrd => by
      obtain ⟨c, cs, rfl, hc⟩ := Tree.exists_children_of_referred? hrd
      obtain ⟨k, hk, e, he, hcs⟩ := h.earlier i _ hi _ hr
      obtain ⟨rfl, rfl⟩ := List.cons.inj hcs
      have := h.position_eq hj he (Option.some.inj hc).symm
      omega
    rw [hw'] at hw
    cases hw

/-- Every tree can be expanded. -/
theorem exists_expand (h : p.Ordered) (t : Tree) : ∃ u, p.expand t = some u :=
  h.exists_expandWithin fun _ _ _ _ hi _ => (List.getElem?_eq_some_iff.1 hi).1

/-- The expansion puts in the place of a reference to a declaration the expansion of what is
declared, and changes nothing else. -/
theorem expand_eq_graft (h : p.Ordered) (t : Tree) :
    p.expand t = t.graft fun name => (p.declaration? name).map p.expand := by
  obtain ⟨u, hu⟩ := h.exists_expand t
  rw [hu]
  symm
  refine Tree.graft_mono (fun name w hw => ?_) (fun name hn => by simpa using hn)
    (expandWithin_succ hu)
  obtain ⟨body, hb, hw⟩ := Option.map_eq_some_iff.1 hw
  rw [hb, Option.map_some, expand, hw]

end Ordered

end Plan

end SpanJoin
