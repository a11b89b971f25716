import SpanJoin.Proofs.Plan.Declarations

/-!
# Every subtree is shared once

In the plan of a tree without side-by-side nodes, every subtree that uses no bindings stands at
exactly one place, be it in the root or in a declaration, and every declaration is referred to
(`share_exactly_once`). The argument goes along paths. A path that leads past no named subtree leads
to the same node in the abbreviated tree (`follow?_abbreviate`), and what is no reference there
comes from such a path (`exists_clear_of_follow?`). A part of a named subtree is named itself
(`Shares.named_append`), so a body is a single node over references, and the way to a subtree
without a name is clear (`Shares.clear_of_not_named`).
-/

namespace SpanJoin.Tree

/-! ## Paths through abbreviated trees -/

/-- The path leads to no name, and past none. -/
def Clear (names : Path → Option String) (q : Path) : Prop :=
  ∀ r, r <+: q → r ≠ [] → names r = none

theorem clear_nil (names : Path → Option String) : Clear names [] :=
  fun _ hr hne => absurd (List.prefix_nil.1 hr) hne

theorem clear_cons {names : Path → Option String} {i : Nat} {q : Path} :
    Clear names (i :: q) ↔ names [i] = none ∧ Clear (fun r => names (i :: r)) q := by
  constructor
  · intro h
    refine ⟨h [i] (List.prefix_append [i] q) (by simp), fun r hr _ => ?_⟩
    exact h (i :: r) (List.cons_prefix_cons.2 ⟨rfl, hr⟩) (by simp)
  · rintro ⟨h, hs⟩ r hr hne
    obtain ⟨j, r, rfl⟩ := List.exists_cons_of_ne_nil hne
    obtain ⟨rfl, hrq⟩ := List.cons_prefix_cons.1 hr
    cases r with
    | nil => exact h
    | cons k r => exact hs (k :: r) hrq (by simp)

/-- Below a node of another kind than side by side, children are abbreviated or referred to. -/
theorem children_of_abbreviate {a : Action} (ha : a ≠ .hstack) {names : Path → Option String}
    {cs : List Tree} {u : Tree} (h : (node a cs).abbreviate names = .ok u) :
    ∃ ds, u = node a ds ∧ ∀ i, (cs[i]? = none ∧ ds[i]? = none) ∨
      ∃ c d, cs[i]? = some c ∧ ds[i]? = some d ∧ referOrAbbreviate names i c = .ok d := by
  obtain ⟨ds, rfl, hds⟩ := abbreviate_node_eq_ok.1 h
  refine ⟨ds, rfl, fun i => ?_⟩
  cases hc : cs[i]? with
  | none =>
    refine .inl ⟨rfl, ?_⟩
    have length := hds.length_eq
    rw [List.length_zipIdx] at length
    rw [List.getElem?_eq_none_iff] at hc ⊢
    omega
  | some c =>
    have hz : cs.zipIdx[i]? = some (c, i) := by
      rw [List.getElem?_zipIdx, hc, Option.map_some, Nat.zero_add]
    obtain ⟨d, hd, hcd⟩ := exists_getElem?_of_forall₂ hds hz
    refine .inr ⟨c, d, rfl, hd, ?_⟩
    obtain ⟨e, he, hcd⟩ := Outcome.bind_eq_ok.1 hcd
    rw [if_neg ha] at hcd
    rwa [← Except.ok.inj hcd]

variable {names : Path → Option String} {t u : Tree}

/-- A clear path leads to the abbreviation of what it leads to in the tree. -/
theorem follow?_abbreviate (hs : ∀ cs, node .hstack cs ∉ t.subtrees)
    (h : t.abbreviate names = .ok u) {q : Path} {s : Tree} (hq : t.follow? q = some s)
    (clear : Clear names q) :
    ∃ v, u.follow? q = some v ∧ s.abbreviate (fun r => names (q ++ r)) = .ok v := by
  induction q generalizing t u names with
  | nil =>
    obtain rfl : t = s := by simpa [follow?] using hq
    exact ⟨u, by rw [follow?], h⟩
  | cons i q ih =>
    cases t with
    | literal l => simp [follow?] at hq
    | node a cs =>
      have ha : a ≠ .hstack := by
        rintro rfl
        exact hs cs (mem_subtrees_self _)
      obtain ⟨ds, rfl, hds⟩ := children_of_abbreviate ha h
      rw [follow?_cons, Option.bind_eq_some_iff] at hq
      obtain ⟨c, hc, hq⟩ := hq
      obtain ⟨hn, clear⟩ := clear_cons.1 clear
      rcases hds i with ⟨none, -⟩ | ⟨c', d, hc', hd, hcd⟩
      · rw [hc] at none
        cases none
      · obtain rfl : c = c' := Option.some.inj (hc.symm.trans hc')
        rw [referOrAbbreviate, hn] at hcd
        obtain ⟨v, hv, hsv⟩ := ih
          (fun cs hm => hs cs (mem_subtrees_of_mem (List.mem_of_getElem? hc) hm)) hcd hq clear
        exact ⟨v, by rw [follow?_cons, hd, Option.bind_some, hv], hsv⟩

/-- A step from a clear path to a name leads to a reference. -/
theorem follow?_abbreviate_named (hs : ∀ cs, node .hstack cs ∉ t.subtrees)
    (h : t.abbreviate names = .ok u) {q : Path} (clear : Clear names q) {i : Nat} {s : Tree}
    (hq : t.follow? (q ++ [i]) = some s) {name : String} (hn : names (q ++ [i]) = some name) :
    u.follow? (q ++ [i]) = some (refer name) := by
  rw [follow?_append, Option.bind_eq_some_iff] at hq
  obtain ⟨w, hw, hi⟩ := hq
  obtain ⟨v, hv, hwv⟩ := follow?_abbreviate hs h hw clear
  cases w with
  | literal l => simp [follow?] at hi
  | node a cs =>
    have ha : a ≠ .hstack := by
      rintro rfl
      exact hs cs (mem_subtrees_of_follow? hw)
    obtain ⟨ds, rfl, hds⟩ := children_of_abbreviate ha hwv
    rw [follow?_cons, Option.bind_eq_some_iff] at hi
    obtain ⟨c, hc, -⟩ := hi
    rcases hds i with ⟨none, -⟩ | ⟨c', d, -, hd, hcd⟩
    · rw [hc] at none
      cases none
    · rw [referOrAbbreviate, hn] at hcd
      rw [follow?_append, hv, Option.bind_some, follow?_cons, hd, Option.bind_some, follow?,
        ← Except.ok.inj hcd]

/-- What is neither a literal nor a reference to a name comes from a clear path. -/
theorem exists_clear_of_follow? (hs : ∀ cs, node .hstack cs ∉ t.subtrees)
    (h : t.abbreviate names = .ok u) {q : Path} {v : Tree} (hq : u.follow? q = some v)
    (hl : v.isLiteral = false) (hr : ∀ cs, v ≠ node .refer cs) :
    Clear names q ∧ ∃ s, t.follow? q = some s ∧
      s.abbreviate (fun r => names (q ++ r)) = .ok v := by
  induction q generalizing t u names with
  | nil =>
    obtain rfl : u = v := by simpa [follow?] using hq
    exact ⟨clear_nil names, t, by rw [follow?], h⟩
  | cons i q ih =>
    cases t with
    | literal l =>
      obtain rfl : literal l = u := Except.ok.inj h
      simp [follow?] at hq
    | node a cs =>
      have ha : a ≠ .hstack := by
        rintro rfl
        exact hs cs (mem_subtrees_self _)
      obtain ⟨ds, rfl, hds⟩ := children_of_abbreviate ha h
      rw [follow?_cons, Option.bind_eq_some_iff] at hq
      obtain ⟨d', hd', hq⟩ := hq
      rcases hds i with ⟨-, none⟩ | ⟨c, d, hc, hd, hcd⟩
      · rw [hd'] at none
        cases none
      · obtain rfl : d' = d := Option.some.inj (hd'.symm.trans hd)
        cases hn : names [i] with
        | some name =>
          rw [referOrAbbreviate, hn] at hcd
          obtain rfl := Except.ok.inj hcd
          -- below a reference there is only the text of its name
          rcases mem_subtrees_node.1 (mem_subtrees_of_follow? hq) with rfl | ⟨c, hc, hv⟩
          · exact absurd rfl (hr _)
          · obtain rfl := List.mem_singleton.1 hc
            obtain rfl := mem_subtrees_literal.1 hv
            simp [isLiteral] at hl
        | none =>
          rw [referOrAbbreviate, hn] at hcd
          obtain ⟨clear, s, hsq, hsv⟩ := ih
            (fun cs hm => hs cs (mem_subtrees_of_mem (List.mem_of_getElem? hc) hm)) hcd hq
          exact ⟨clear_cons.2 ⟨hn, clear⟩, s, by rw [follow?_cons, hc, Option.bind_some, hsq], hsv⟩

/-! ## Named subtrees -/

/-- The node at a part of a path to where `k` occurs. -/
theorem OccursAt.append {t k : Tree} {p q : Path} (h : t.OccursAt k p) {j : Tree}
    (hj : k.follow? q = some j) (hl : j.isLiteral = false) : t.OccursAt j (p ++ q) := by
  obtain ⟨s, hs, -, hb, hk⟩ := h
  obtain ⟨v, hv, hvj⟩ := follow?_of_canonical hk hj
  refine ⟨v, by rw [follow?_append, hs, Option.bind_some, hv], ?_, ?_, hvj⟩
  · rw [← isLiteral_of_canonical hvj, hl]
  · exact usesBindings_of_mem_subtrees hb (mem_subtrees_of_follow? hv)

/-- A part of a path to `k` leads to a key that has `k` at the end of the rest. -/
theorem OccursAt.follow? {t j k : Tree} {p q : Path} (hj : t.OccursAt j p)
    (hk : t.OccursAt k (p ++ q)) : j.follow? q = some k := by
  obtain ⟨s, hs, -, -, hsj⟩ := hj
  obtain ⟨u, hu, -, -, huk⟩ := hk
  rw [follow?_append, hs, Option.bind_some] at hu
  obtain ⟨i, hi, hui⟩ := canonical_follow? hsj hu
  rw [hi, Except.ok.inj (huk.symm.trans hui)]

theorem OccursAt.isLiteral {t k : Tree} {p : Path} (h : t.OccursAt k p) : k.isLiteral = false := by
  obtain ⟨s, -, hl, -, hk⟩ := h
  rw [isLiteral_of_canonical hk, hl]

namespace Shares

variable {t : Tree} {rs : List (String × Occurrence)} {p : Plan}

/-- There is another path to a subtree that is named. -/
theorem exists_other (h : t.Shares rs p) {r : String × Occurrence} (hr : r ∈ rs) (q : Path) :
    ∃ q', t.OccursAt r.2.key q' ∧ q' ≠ q := by
  obtain ⟨q', hq', hne⟩ := h.naming.again r hr
  by_cases hq : q = r.2.first
  · exact ⟨q', hq', fun e => hne (e.trans hq)⟩
  · exact ⟨r.2.first, h.naming.occursAt_first hr, fun e => hq e.symm⟩

/-- Parts of a named subtree are named. -/
theorem named_append (h : t.Shares rs p) {r : String × Occurrence} (hr : r ∈ rs) {q q' : Path}
    {k : Tree} (hq : t.OccursAt r.2.key q) (hk : t.OccursAt k (q ++ q')) :
    ∃ r' ∈ rs, r'.2.key = k := by
  obtain ⟨other, ho, hne⟩ := h.exists_other hr q
  refine h.naming.covered k _ _ hk (ho.append (hq.follow? hk) hk.isLiteral) fun e => ?_
  exact hne (List.append_cancel_right e).symm

/-- The tree itself is not named: it is higher than anything in it. -/
theorem not_occursAt_nil (h : t.Shares rs p) {r : String × Occurrence} (hr : r ∈ rs) :
    ¬ t.OccursAt r.2.key [] := by
  rintro ⟨s, hs, -, -, hk⟩
  obtain rfl : t = s := by simpa [Tree.follow?] using hs
  obtain ⟨q, ⟨u, hu, -, -, huk⟩, hne⟩ := h.exists_other hr []
  have height := height_add_length_le hu
  have length := List.length_pos_of_ne_nil hne
  have same := (height_of_canonical hk).symm.trans (height_of_canonical huk)
  omega

/-- The way to a node that uses bindings, or that has no name, is clear. -/
theorem clear_of_not_named (h : t.Shares rs p) {q : Path} {s : Tree} (hs : t.follow? q = some s)
    (hn : s.usesBindings = true ∨ ∃ k, t.OccursAt k q ∧ ∀ r ∈ rs, r.2.key ≠ k) :
    Clear (nameAt? rs) q := by
  rintro q₁ ⟨q₂, rfl⟩ -
  rw [Option.eq_none_iff_forall_ne_some]
  intro name hname
  obtain ⟨r, hr, -, ho⟩ := h.naming.nameAt?_eq_some_iff.1 hname
  rcases hn with hb | ⟨k, hk, hn⟩
  · obtain ⟨u, hu, -, hub, -⟩ := ho
    rw [follow?_append, hu, Option.bind_some] at hs
    rw [usesBindings_of_mem_subtrees hub (mem_subtrees_of_follow? hs)] at hb
    simp at hb
  · obtain ⟨r', hr', e⟩ := h.named_append hr ho hk
    exact hn r' hr' e

/-- A clear path leads to no named subtree. -/
theorem not_named_of_clear (h : t.Shares rs p) {q : Path} (clear : Clear (nameAt? rs) q)
    {r : String × Occurrence} (hr : r ∈ rs) : ¬ t.OccursAt r.2.key q := by
  intro ho
  by_cases hq : q = []
  · subst hq
    exact h.not_occursAt_nil hr ho
  · have none := clear q (List.prefix_refl q) hq
    rw [h.naming.nameAt?_eq_some_iff.2 ⟨r, hr, rfl, ho⟩] at none
    cases none

/-- Below the root of a body everything that uses no bindings is referred to. -/
theorem eq_nil_of_clear (h : t.Shares rs p) {r : String × Occurrence} (hr : r ∈ rs) {q : Path}
    (clear : Clear (fun path => nameAt? rs (r.2.first ++ path)) q) {k : Tree}
    (hk : t.OccursAt k (r.2.first ++ q)) : q = [] := by
  by_contra hq
  obtain ⟨r', hr', rfl⟩ := h.named_append hr (h.naming.occursAt_first hr) hk
  have unnamed : nameAt? rs (r.2.first ++ q) = none := clear q (List.prefix_refl q) hq
  rw [h.naming.nameAt?_eq_some_iff.2 ⟨r', hr', rfl, hk⟩] at unnamed
  cases unnamed

/-- Where no columns are side by side, what stands in a plan expands to a tree of the same canonical
form as what it was abbreviated from. -/
theorem exists_expand_canonical (h : t.Shares rs p) (ht : t.accepted = true) (names : t.Unreserved)
    (hs : ∀ cs, node .hstack cs ∉ t.subtrees) {start : Path} {s v : Tree}
    (hf : t.follow? start = some s)
    (hv : s.abbreviate (fun path => nameAt? rs (start ++ path)) = .ok v) :
    ∃ w, p.expand v = some w ∧ w.canonical = s.canonical := by
  have same {s w : Tree} (hm : s ∈ t.subtrees)
      (hw : Replaced (Expanded rs fun r w => w.canonical = .ok r.2.key) false s w) :
      w.canonical = s.canonical := by
    refine hw.canonical_eq ?_ rfl fun cs hc => hs cs (mem_subtrees_trans hc hm)
    rintro c - v ⟨r, -, hk, hv⟩
    rw [hk, hv]
  obtain ⟨w, hw, hsw⟩ := h.exists_expand ht names (fun r hr w hw => by
    rw [same (h.naming.subtree_mem hr) hw, h.canonical_subtree hr])
    (mem_subtrees_of_follow? hf) (h.replaced hf hv)
  exact ⟨w, hw, same (mem_subtrees_of_follow? hf) hsw⟩

end Shares

end SpanJoin.Tree

namespace SpanJoin

/-! ## Places in a plan -/

namespace Plan

/-- The root, or the body of the declaration of that number. -/
def treeAt? (p : Plan) : Option Nat → Option Tree
  | none => some p.root
  | some i => p.declarations[i]?.map Prod.snd

/-- The node at the end of a path stands for the tree `s`: it is no reference, and it expands to a
tree that is equal to `s` by shape. -/
def NodeFor (p : Plan) (s u : Tree) (path : Path) : Prop :=
  ∃ v, u.follow? path = some v ∧ v.isLiteral = false ∧ (∀ cs, v ≠ .node .refer cs) ∧
    ∃ w, p.expand v = some w ∧ w.structurallyEqual s = true

/-- The place of a plan, a path in one of its trees, holds a node that stands for `s`. -/
def Holds (p : Plan) (s : Tree) (place : Option Nat × Path) : Prop :=
  ∃ u, p.treeAt? place.1 = some u ∧ p.NodeFor s u place.2

end Plan

namespace Tree.Shares

variable {t : Tree} {rs : List (String × Occurrence)} {p : Plan}

theorem nodeFor_iff (h : t.Shares rs p) (ht : t.accepted = true) (names : t.Unreserved)
    (hs : ∀ cs, node .hstack cs ∉ t.subtrees) {start : Path} {b u : Tree}
    (hf : t.follow? start = some b)
    (hu : b.abbreviate (fun path => nameAt? rs (start ++ path)) = .ok u) {s k : Tree}
    (hb : s.usesBindings = false) (hk : s.canonical = .ok k) {q : Path} :
    p.NodeFor s u q ↔
      Clear (fun path => nameAt? rs (start ++ path)) q ∧ t.OccursAt k (start ++ q) := by
  have hsb : ∀ cs, node .hstack cs ∉ b.subtrees :=
    fun cs hc => hs cs (mem_subtrees_trans hc (mem_subtrees_of_follow? hf))
  have whole {c : Tree} (hc : b.follow? q = some c) : t.follow? (start ++ q) = some c := by
    rw [follow?_append, hf, Option.bind_some, hc]
  constructor
  · rintro ⟨v, hv, hvl, hvr, w, hw, hws⟩
    obtain ⟨clear, c, hc, hcv⟩ := exists_clear_of_follow? hsb hu hv hvl hvr
    obtain ⟨w', hw', hcw⟩ := h.exists_expand_canonical ht names hs (whole hc)
      (by simpa only [List.append_assoc] using hcv)
    obtain rfl : w = w' := Option.some.inj (hw.symm.trans hw')
    cases c with
    | literal l =>
      obtain rfl : literal l = v := Except.ok.inj hcv
      simp [isLiteral] at hvl
    | node a cs =>
      obtain ⟨j, hj⟩ := exists_canonical
        (accepted_of_mem_subtrees ht (mem_subtrees_of_follow? (whole hc))) rfl
      obtain rfl := (structurallyEqual_iff_canonical (hcw.trans hj) hk).1 hws
      refine ⟨clear, _, whole hc, rfl, ?_, hj⟩
      rw [← usesBindings_of_canonical hj, usesBindings_of_canonical hk, hb]
  · rintro ⟨clear, c, hc, hcl, hcb, hck⟩
    rw [follow?_append, hf, Option.bind_some] at hc
    obtain ⟨v, hv, hcv⟩ := follow?_abbreviate hsb hu hc clear
    obtain ⟨w, hw, hcw⟩ := h.exists_expand_canonical ht names hs (whole hc)
      (by simpa only [List.append_assoc] using hcv)
    cases c with
    | literal l => simp [isLiteral] at hcl
    | node a cs =>
      obtain ⟨ds, rfl, -⟩ := abbreviate_node_eq_ok.1 hcv
      refine ⟨_, hv, rfl, ?_, w, hw, (structurallyEqual_iff_canonical (hcw.trans hck) hk).2 rfl⟩
      rintro ds e
      obtain ⟨rfl, -⟩ := node.inj e
      simp [usesBindings, Action.usesBindings] at hcb

section

variable (h : t.Shares rs p) (ht : t.accepted = true) (names : t.Unreserved)
  (hs : ∀ cs, node .hstack cs ∉ t.subtrees) {s k : Tree} (hb : s.usesBindings = false)
  (hk : s.canonical = .ok k)

include h ht names hs hb hk

/-- In the root, a subtree stands where a clear path leads to it. -/
theorem holds_root {q : Path} :
    p.Holds s (none, q) ↔ Clear (nameAt? rs) q ∧ t.OccursAt k q := by
  have here : t.follow? [] = some t := rfl
  have root := h.nodeFor_iff ht names hs here h.root hb hk (q := q)
  constructor
  · rintro ⟨u, hu, hn⟩
    obtain rfl : p.root = u := Option.some.inj hu
    exact root.1 hn
  · exact fun hc => ⟨p.root, rfl, root.2 hc⟩

/-- In a declaration, a subtree stands at the root, if it is the one that is declared. -/
theorem holds_body {i : Nat} {q : Path} :
    p.Holds s (some i, q) ↔ q = [] ∧ ∃ r, rs[i]? = some r ∧ r.2.key = k := by
  constructor
  · rintro ⟨u, hu, hn⟩
    obtain ⟨d, hd, rfl⟩ := Option.map_eq_some_iff.1 hu
    obtain ⟨r, hr, -, hbody⟩ := exists_getElem?_of_forall₂_right h.bodies hd
    have hrs := List.mem_of_getElem? hr
    obtain ⟨clear, ho⟩ := (h.nodeFor_iff ht names hs (h.naming.first r hrs) hbody hb hk).1 hn
    obtain rfl := h.eq_nil_of_clear hrs clear ho
    rw [List.append_nil] at ho
    exact ⟨rfl, r, hr, (h.naming.occursAt_first hrs).key_eq ho⟩
  · rintro ⟨rfl, r, hr, rfl⟩
    obtain ⟨d, hd, -, hbody⟩ := exists_getElem?_of_forall₂ h.bodies hr
    have hrs := List.mem_of_getElem? hr
    refine ⟨d.2, by rw [Plan.treeAt?, hd, Option.map_some], ?_⟩
    refine (h.nodeFor_iff ht names hs (h.naming.first r hrs) hbody hb hk).2 ⟨clear_nil _, ?_⟩
    rw [List.append_nil]
    exact h.naming.occursAt_first hrs

/-- A subtree that uses no bindings stands at one place. -/
theorem existsUnique_holds (hm : s ∈ t.subtrees) (hl : s.isLiteral = false) :
    ∃! place, p.Holds s place := by
  have root := fun q => h.holds_root ht names hs hb hk (q := q)
  have body := fun i q => h.holds_body ht names hs hb hk (i := i) (q := q)
  obtain ⟨q, hq⟩ := mem_subtrees_iff_follow?.1 hm
  have ho : t.OccursAt k q := ⟨s, hq, hl, hb, hk⟩
  by_cases named : ∃ r ∈ rs, r.2.key = k
  · obtain ⟨r, hr, rfl⟩ := named
    obtain ⟨i, hi⟩ := List.mem_iff_getElem?.1 hr
    refine ⟨(some i, []), (body i []).2 ⟨rfl, r, hi, rfl⟩, ?_⟩
    rintro ⟨_ | j, q'⟩ hplace
    · obtain ⟨clear, ho'⟩ := (root q').1 hplace
      exact absurd ho' (h.not_named_of_clear clear hr)
    · obtain ⟨rfl, r', hj, e⟩ := (body j q').1 hplace
      obtain ⟨hi', rfl⟩ := List.getElem?_eq_some_iff.1 hi
      obtain ⟨hj', rfl⟩ := List.getElem?_eq_some_iff.1 hj
      have same := h.naming.eq_of_key_eq (List.getElem_mem hj') (List.getElem_mem hi') e
      have nodup := h.naming.names_apart.of_map
      rw [(nodup.getElem_inj_iff).1 same]
  · have unnamed : ∀ r ∈ rs, r.2.key ≠ k := fun r hr e => named ⟨r, hr, e⟩
    refine ⟨(none, q), (root q).2 ⟨h.clear_of_not_named hq (.inr ⟨k, ho, unnamed⟩), ho⟩, ?_⟩
    rintro ⟨_ | j, q'⟩ hplace
    · obtain ⟨-, ho'⟩ := (root q').1 hplace
      by_contra hne
      exact named (h.naming.covered k q' q ho' ho fun e => hne (by rw [e]))
    · obtain ⟨-, r, hr, e⟩ := (body j q').1 hplace
      exact absurd e (unnamed r (List.mem_of_getElem? hr))

end

/-- The name of a child of a named subtree stands in the body of the declaration of that. -/
theorem refer_mem_body (h : t.Shares rs p) (hs : ∀ cs, node .hstack cs ∉ t.subtrees)
    {r r' : String × Occurrence} (hr : r ∈ rs) (hr' : r' ∈ rs) {q : Path} {i : Nat}
    (hq : t.OccursAt r'.2.key q) (hi : t.OccursAt r.2.key (q ++ [i])) :
    ∃ e ∈ p.declarations, e.1 ≠ r.1 ∧ refer r.1 ∈ e.2.subtrees := by
  obtain ⟨j, hj⟩ := List.mem_iff_getElem?.1 hr'
  obtain ⟨d, hd, hname, hbody⟩ := exists_getElem?_of_forall₂ h.bodies hj
  have child : t.OccursAt r.2.key (r'.2.first ++ [i]) :=
    (h.naming.occursAt_first hr').append (hq.follow? hi) hi.isLiteral
  have named : nameAt? rs (r'.2.first ++ [i]) = some r.1 :=
    h.naming.nameAt?_eq_some_iff.2 ⟨r, hr, rfl, child⟩
  obtain ⟨c, hc, -, -, hck⟩ := child
  rw [follow?_append, h.naming.first r' hr', Option.bind_some] at hc
  have reference := follow?_abbreviate_named (q := [])
    (fun cs hm => hs cs (mem_subtrees_trans hm (h.naming.subtree_mem hr'))) hbody (clear_nil _) hc
    named
  refine ⟨d, List.mem_of_getElem? hd, fun e => ?_, mem_subtrees_of_follow? reference⟩
  -- the child is lower than the subtree that has it, so the two are not the same
  obtain rfl := h.naming.eq_of_name_eq hr' hr (hname.symm.trans e)
  have height := height_add_length_le hc
  rw [h.height_subtree hr hck, List.length_singleton] at height
  omega

/-- The way to a node that is not named is clear. -/
theorem clear_of_forall_not_occursAt (h : t.Shares rs p) (ht : t.accepted = true) {q : Path}
    {a : Action} {cs : List Tree} (hq : t.follow? q = some (node a cs))
    (unnamed : ∀ r ∈ rs, ¬ t.OccursAt r.2.key q) : Clear (nameAt? rs) q := by
  refine h.clear_of_not_named hq ?_
  cases hb : (node a cs).usesBindings with
  | true => exact .inl rfl
  | false =>
    obtain ⟨k, hk⟩ := exists_canonical
      (accepted_of_mem_subtrees ht (mem_subtrees_of_follow? hq)) rfl
    have ho : t.OccursAt k q := ⟨_, hq, rfl, hb, hk⟩
    exact .inr ⟨k, ho, fun r hr e => unnamed r hr (e ▸ ho)⟩

/-- Every declaration is referred to, from the root or from another declaration. -/
theorem exists_reference (h : t.Shares rs p) (ht : t.accepted = true)
    (hs : ∀ cs, node .hstack cs ∉ t.subtrees) {r : String × Occurrence} (hr : r ∈ rs) :
    refer r.1 ∈ p.root.subtrees ∨
      ∃ e ∈ p.declarations, e.1 ≠ r.1 ∧ refer r.1 ∈ e.2.subtrees := by
  have ho := h.naming.occursAt_first hr
  have named : nameAt? rs r.2.first = some r.1 :=
    h.naming.nameAt?_eq_some_iff.2 ⟨r, hr, rfl, ho⟩
  obtain ⟨q, i, hqi⟩ : ∃ q i, r.2.first = q ++ [i] := by
    rcases List.eq_nil_or_concat r.2.first with e | ⟨q, i, e⟩
    · exact absurd (e ▸ ho) (h.not_occursAt_nil hr)
    · exact ⟨q, i, by simpa using e⟩
  rw [hqi] at ho named
  by_cases parent : ∃ r' ∈ rs, t.OccursAt r'.2.key q
  · obtain ⟨r', hr', hq⟩ := parent
    exact .inr (h.refer_mem_body hs hr hr' hq ho)
  · obtain ⟨s, hsq, -⟩ := ho
    obtain ⟨w, hw, hi⟩ := Option.bind_eq_some_iff.1 ((follow?_append t q [i]).symm.trans hsq)
    cases w with
    | literal l => simp [follow?] at hi
    | node a cs =>
      have clear := h.clear_of_forall_not_occursAt ht hw fun r' hr' hq => parent ⟨r', hr', hq⟩
      exact .inl (mem_subtrees_of_follow? (follow?_abbreviate_named hs h.root clear hsq named))

end Tree.Shares

namespace Tree

/-- **Everything is shared once, and nothing is declared in vain**: the plan of a tree without
side-by-side nodes has exactly one place for every subtree that uses no bindings, and every name
that it declares is referred to from the root or from another declaration. -/
theorem share_exactly_once {t : Tree} (ht : t.accepted = true) (names : t.Unreserved)
    (hs : ∀ cs, node .hstack cs ∉ t.subtrees) : ∃ p, t.share = .ok p ∧
      (∀ s ∈ t.subtrees, s.isLiteral = false → s.usesBindings = false →
        ∃! place, p.Holds s place) ∧
      ∀ d ∈ p.declarations, refer d.1 ∈ p.root.subtrees ∨
        ∃ e ∈ p.declarations, e.1 ≠ d.1 ∧ refer d.1 ∈ e.2.subtrees := by
  obtain ⟨rs, p, hp, h⟩ := exists_shares ht
  refine ⟨p, hp, fun s hm hl hb => ?_, fun d hd => ?_⟩
  · have hn : s.isNaN = false := by
      cases s with
      | literal l => simp [isLiteral] at hl
      | node a cs => rfl
    obtain ⟨k, hk⟩ := exists_canonical (accepted_of_mem_subtrees ht hm) hn
    exact h.existsUnique_holds ht names hs hb hk hm hl
  · obtain ⟨i, hi⟩ := List.mem_iff_getElem?.1 hd
    obtain ⟨r, hr, e, -⟩ := exists_getElem?_of_forall₂_right h.bodies hi
    rw [e]
    exact h.exists_reference ht hs (List.mem_of_getElem? hr)

/-- A product of a repeated sum with what was bound to its negative before. -/
def negatedSquare : Tree :=
  let x := rightColumn "x"
  let double := binary .add x x
  node .execute [declare "v" (unary .neg double), binary .mul double (refer "v")]

theorem share_exactly_once_negatedSquare : negatedSquare.accepted = true ∧
    ∃ p, negatedSquare.share = .ok p ∧
      (∀ s ∈ negatedSquare.subtrees, s.isLiteral = false → s.usesBindings = false →
        ∃! place, p.Holds s place) ∧
      ∀ d ∈ p.declarations, refer d.1 ∈ p.root.subtrees ∨
        ∃ e ∈ p.declarations, e.1 ≠ d.1 ∧ refer d.1 ∈ e.2.subtrees := by
  refine ⟨by decide, share_exactly_once (by decide) (unreserved_of_short (by decide)) ?_⟩
  intro cs
  simp [negatedSquare, subtrees, subtreesEach, refer, declare, binary, unary, rightColumn, ofText]

end Tree

end SpanJoin
