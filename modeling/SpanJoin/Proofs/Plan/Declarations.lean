import SpanJoin.Proofs.Plan.Drafts

/-!
# Shared plans

`Tree.Shares t rs p` says that `p` is the plan of the tree `t` whose declarations are those of the
repeated subtrees `rs`, in this order. Every accepted tree has such a plan (`exists_shares`). Its
root is the tree with repeated subtrees replaced by references, and so is every body, which refers
to lower subtrees only (`Shares.root_replaced`, `Shares.exists_body`). As the declarations ascend in
height, these are declared earlier, and replacing references for as many rounds as there are
declarations leaves none (`Shares.exists_expand`).
-/

namespace SpanJoin

namespace Tree

/-- The plan `p` declares the repeated subtrees `rs` of the tree. -/
structure Shares (t : Tree) (rs : List (String × Occurrence)) (p : Plan) : Prop where
  naming : Naming t rs
  ascending : rs.Pairwise fun r s => r.2.subtree.height ≤ s.2.subtree.height
  declared : List.Forall₂ (fun r d => declarationOf rs r = .ok d) rs p.declarations
  root : t.abbreviate (nameAt? rs) = .ok p.root

/-! ## Every accepted tree has a plan -/

theorem abbreviate_of_isLeaf {t : Tree} (ht : t.accepted = true) (hl : t.isLeaf = true) :
    t.abbreviate (nameAt? []) = .ok t := by
  cases t with
  | literal l => rfl
  | node a cs =>
    have literals : ∀ c ∈ cs, c.isLiteral = true := by simpa [isLeaf] using hl
    refine abbreviate_node_eq_ok.2 ⟨cs, rfl, ?_⟩
    have same : List.Forall₂ (fun (ci : Tree × Nat) d => ci.1 = d) cs.zipIdx cs := by
      rw [← List.forall₂_map_left_iff (f := Prod.fst) (R := Eq), List.zipIdx_map_fst,
        List.forall₂_eq_eq_eq]
    refine forall₂_imp_of_mem same ?_
    rintro ⟨c, i⟩ - d hd rfl
    cases c with
    | literal l =>
      have ha : a ≠ .hstack := by
        rintro rfl
        simpa [isLiteral] using hstack_children ht _ hd
      simp [abbreviateChild, referOrAbbreviate, nameAt?, abbreviate, ha]
    | node b ds => exact absurd (literals _ hd) (by simp [isLiteral])

theorem shares_of_isLeaf {t : Tree} (ht : t.accepted = true) (hl : t.isLeaf = true) :
    t.Shares [] ⟨[], t⟩ where
  naming := by
    refine ⟨nofun, .nil, .nil, nofun, nofun, nofun, fun k p q hp hq hpq => ?_⟩
    have root {p : Path} (h : t.OccursAt k p) : p = [] := by
      obtain ⟨s, hs, hn, -, -⟩ := h
      cases p with
      | nil => rfl
      | cons i p =>
        cases t with
        | literal l => simp [follow?] at hs
        | node a cs =>
          rw [follow?_cons, Option.bind_eq_some_iff] at hs
          obtain ⟨c, hc, hs⟩ := hs
          have literals : ∀ c ∈ cs, c.isLiteral = true := by simpa [isLeaf] using hl
          have hcl := literals c (List.mem_of_getElem? hc)
          cases c with
          | literal l =>
            obtain rfl := mem_subtrees_literal.1 (mem_subtrees_of_follow? hs)
            simp [isLiteral] at hn
          | node b ds => simp [isLiteral] at hcl
    exact absurd ((root hp).trans (root hq).symm) hpq
  ascending := .nil
  declared := .nil
  root := abbreviate_of_isLeaf ht hl

/-- Every accepted tree is compiled, to a plan that declares its repeated subtrees. -/
theorem exists_shares {t : Tree} (ht : t.accepted = true) :
    ∃ rs p, t.share = .ok p ∧ t.Shares rs p := by
  cases hl : t.isLeaf with
  | true => exact ⟨[], ⟨[], t⟩, by rw [share, if_pos hl], shares_of_isLeaf ht hl⟩
  | false =>
    obtain ⟨found, hf, hc, hp⟩ := collect_nodes ht
    have unsorted := naming_nameRepeated ht hc hp
    have perm : (sortBy heightLE (nameRepeated found)).Perm (nameRepeated found) := sortBy_perm _
    have naming := unsorted.perm perm
    have names : nameAt? (nameRepeated found) = nameAt? (sortBy heightLE (nameRepeated found)) := by
      funext p
      ext name
      rw [unsorted.nameAt?_eq_some_iff, naming.nameAt?_eq_some_iff]
      simp only [perm.mem_iff]
    have declaration : declarationOf (nameRepeated found) =
        declarationOf (sortBy heightLE (nameRepeated found)) := by
      funext r
      rw [declarationOf, declarationOf, names]
    obtain ⟨declarations, hd⟩ : ∃ ds, (sortBy heightLE (nameRepeated found)).mapM
        (declarationOf (nameRepeated found)) = .ok ds := by
      simp only [mapM_eq_ok_iff]
      refine exists_forall₂ fun r hr => ?_
      have accepted := accepted_of_mem_subtrees ht (naming.subtree_mem hr)
      obtain ⟨body, hb⟩ := exists_abbreviate accepted
        fun path => nameAt? (nameRepeated found) (r.2.first ++ path)
      exact ⟨(r.1, body), by rw [declarationOf, hb]; rfl⟩
    obtain ⟨root, hr⟩ := exists_abbreviate ht (nameAt? (nameRepeated found))
    refine ⟨sortBy heightLE (nameRepeated found), ⟨declarations, root⟩, ?_, naming, ?_, ?_, ?_⟩
    · exact (share_eq_ok_iff hl).2 ⟨found, hf, hd, hr⟩
    · exact ascending_sortBy _
    · rw [← declaration]
      exact mapM_eq_ok_iff.1 hd
    · rw [← names]
      exact hr

/-- The plan of an accepted tree declares its repeated subtrees. -/
theorem exists_shares_of_share {t : Tree} (ht : t.accepted = true) {p : Plan}
    (hp : t.share = .ok p) : ∃ rs, t.Shares rs p := by
  obtain ⟨rs, q, hq, h⟩ := exists_shares ht
  obtain rfl : p = q := Except.ok.inj (hp.symm.trans hq)
  exact ⟨rs, h⟩

/-- No node declares or reads a reserved name. -/
def Unreserved (t : Tree) : Prop :=
  ∀ n, refer (subtreeName n) ∉ t.subtrees ∧ ∀ v, declare (subtreeName n) v ∉ t.subtrees

theorem Unreserved.of_mem_subtrees {s t : Tree} (h : t.Unreserved) (hs : s ∈ t.subtrees) :
    s.Unreserved :=
  fun n => ⟨fun hm => (h n).1 (mem_subtrees_trans hm hs),
    fun v hm => (h n).2 v (mem_subtrees_trans hm hs)⟩

/-- No name that a tree of short texts declares or reads is reserved. -/
theorem unreserved_of_short {t : Tree}
    (h : ∀ s ∈ t.subtrees, (s.text?.getD "").length < 8) : t.Unreserved := by
  have short {a : Action} {vs : List Tree} {name : String}
      (hm : node a (ofText name :: vs) ∈ t.subtrees) : name.length < 8 :=
    h (ofText name) (mem_subtrees_trans (mem_subtrees_child List.mem_cons_self) hm)
  exact fun n => ⟨fun hm => subtreeName_ne n (short hm) rfl,
    fun _ hm => subtreeName_ne n (short hm) rfl⟩

/-! ## What is declared -/

namespace Shares

variable {t : Tree} {rs : List (String × Occurrence)} {p : Plan}

theorem replaced (h : t.Shares rs p) {s u : Tree} {start : Path} (hs : t.follow? start = some s)
    (hu : s.abbreviate (fun path => nameAt? rs (start ++ path)) = .ok u) :
    Replaced (Reference rs s.height) false s u :=
  replaced_of_occursAt (fun _ _ => h.naming.nameAt?_eq_some_iff.1) hs hu

theorem root_replaced (h : t.Shares rs p) : Replaced (Reference rs t.height) false t p.root :=
  h.replaced (show t.follow? [] = some t from rfl) h.root

/-- The declarations in order: each has the name of its subtree, and its body. -/
theorem bodies (h : t.Shares rs p) :
    List.Forall₂ (fun r d => d.1 = r.1 ∧ Body rs r d.2) rs p.declarations :=
  h.declared.imp fun _ _ => body_of_declarationOf

/-- Every named subtree has a declaration, found under its name. -/
theorem exists_body (h : t.Shares rs p) {r : String × Occurrence} (hr : r ∈ rs) :
    ∃ body, p.declaration? r.1 = some body ∧
      Replaced (Reference rs r.2.subtree.height) false r.2.subtree body := by
  obtain ⟨body, hb, hu⟩ := exists_lookup_of_forall₂ h.bodies h.naming.names_apart hr
  exact ⟨body, hb, h.replaced (h.naming.first r hr) hu⟩

/-- A name that is not reserved is not declared. -/
theorem declaration?_eq_none (h : t.Shares rs p) {name : String}
    (hn : ∀ n, name ≠ subtreeName n) : p.declaration? name = none := by
  refine lookup_eq_none_of_forall₂ h.bodies fun r hr e => ?_
  obtain ⟨n, hrn⟩ := h.naming.reserved r hr
  exact hn n (e.symm.trans hrn)

theorem canonical_subtree (h : t.Shares rs p) {r : String × Occurrence} (hr : r ∈ rs) :
    r.2.subtree.canonical = .ok r.2.key := by
  obtain ⟨s, hs, -, -, hk⟩ := h.naming.occursAt_first hr
  rw [h.naming.first r hr] at hs
  rwa [Option.some.inj hs]

theorem height_subtree (h : t.Shares rs p) {r : String × Occurrence} (hr : r ∈ rs) {c : Tree}
    (hc : c.canonical = .ok r.2.key) : r.2.subtree.height = c.height :=
  (height_of_canonical (h.canonical_subtree hr)).symm.trans (height_of_canonical hc)

/-! ## Expansion -/

/-- What is lower than a declared subtree and declared is declared earlier. -/
theorem lt_of_height_lt (h : t.Shares rs p) {i j : Nat} {r s : String × Occurrence}
    (hi : rs[i]? = some r) (hj : rs[j]? = some s)
    (hlt : r.2.subtree.height < s.2.subtree.height) : i < j :=
  lt_of_pairwise_le h.ascending hi hj hlt

/-- A subtree and what the reference to its declaration expands to, if the expansion of the body has
the property `Q`. -/
def Expanded (rs : List (String × Occurrence)) (Q : String × Occurrence → Tree → Prop)
    (c w : Tree) : Prop :=
  ∃ r ∈ rs, c.canonical = .ok r.2.key ∧ Q r w

/-- Expanding to a depth that lies above all declarations referred to succeeds, and it puts in the
place of a reference what the body expands to. `Q` is what is known of that, by `step` from what is
known of the declarations before. -/
theorem exists_expandWithin (h : t.Shares rs p) (ht : t.accepted = true)
    (names : t.Unreserved)
    {Q : String × Occurrence → Tree → Prop}
    (step : ∀ r ∈ rs, ∀ w, Replaced (Expanded rs Q) false r.2.subtree w → Q r w)
    {depth bound : Nat} {column : Bool} {s u : Tree} (hs : s ∈ t.subtrees)
    (hu : Replaced (Reference rs bound) column s u)
    (deep : ∀ i r, rs[i]? = some r → r.2.subtree.height < bound → i < depth) :
    ∃ w, p.expandWithin depth u = some w ∧ Replaced (Expanded rs Q) column s w := by
  have free {name : String} (hn : refer name ∈ s.subtrees) : p.declaration? name = none := by
    refine h.declaration?_eq_none fun n e => (names n).1 ?_
    rw [← e]
    exact mem_subtrees_trans hn hs
  -- the induction is on the depth: a body refers to declarations before its own only
  induction depth generalizing bound column s u with
  | zero =>
    refine graft_replaced hu (accepted_of_mem_subtrees ht hs)
      (fun name hn => by rw [free hn]; rfl) (fun c d hc => hc.1) ?_
    rintro c d ⟨-, -, hlt, r, hr, hk, rfl⟩
    obtain ⟨i, hi⟩ := List.mem_iff_getElem?.1 hr
    have := deep i r hi (by rw [h.height_subtree hr hk]; exact hlt)
    omega
  | succ depth ih =>
    refine graft_replaced hu (accepted_of_mem_subtrees ht hs)
      (fun name hn => by rw [free hn]; rfl) (fun c d hc => hc.1) ?_
    rintro c d ⟨-, -, hlt, r, hr, hk, rfl⟩
    obtain ⟨i, hi⟩ := List.mem_iff_getElem?.1 hr
    have hid := deep i r hi (by rw [h.height_subtree hr hk]; exact hlt)
    obtain ⟨body, hb, hbody⟩ := h.exists_body hr
    have hrs := h.naming.subtree_mem hr
    obtain ⟨w, hw, hq⟩ := ih hrs hbody (fun j r' hj hlt' => by
      have := h.lt_of_height_lt hj hi hlt'
      omega) fun {name} hn => h.declaration?_eq_none fun n e => (names n).1 (by
        rw [← e]
        exact mem_subtrees_trans hn hrs)
    refine ⟨w, ?_, r, hr, hk, step r hr w hq⟩
    rw [graft_refer, hb]
    exact hw

theorem exists_expand (h : t.Shares rs p) (ht : t.accepted = true)
    (names : t.Unreserved)
    {Q : String × Occurrence → Tree → Prop}
    (step : ∀ r ∈ rs, ∀ w, Replaced (Expanded rs Q) false r.2.subtree w → Q r w)
    {bound : Nat} {s u : Tree} (hs : s ∈ t.subtrees)
    (hu : Replaced (Reference rs bound) false s u) :
    ∃ w, p.expand u = some w ∧ Replaced (Expanded rs Q) false s w := by
  refine h.exists_expandWithin ht names step hs hu fun i r hi _ => ?_
  rw [← h.declared.length_eq]
  exact (List.getElem?_eq_some_iff.1 hi).1

end Shares

end Tree

end SpanJoin
