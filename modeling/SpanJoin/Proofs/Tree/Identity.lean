import SpanJoin.Proofs.Binary64.Equality
import SpanJoin.Proofs.Collection.Pairwise
import SpanJoin.Proofs.Tree.Accepted
import SpanJoin.Tree.Canonical

/-!
# Canonical forms and equality of trees

Canonical forms, equality by value and equality by shape say the same of trees without literals that
are not numbers: two such trees are equal exactly if their canonical forms are identical
(`equal_iff_canonical`, `structurallyEqual_eq_equal`). The canonical form of a tree has the shape of
the tree, and it is the tree itself where there is no negative zero (`canonical_eq_self`). Equal
trees are identical if their floating-point literals are (`eq_of_equal_of_floats`).
-/

namespace SpanJoin

/-! ## Literals -/

namespace Literal

theorem canonical_float {x : Float} (h : x.isNaN = false) :
    (float x).canonical = .ok (float (if x == 0 then 0 else x)) := by
  simp only [canonical, h, Bool.false_eq_true, if_false]
  split <;> rfl

/-- Only what is not a number has no canonical form. -/
theorem exists_canonical {l : Literal} (h : l.isNaN = false) : ∃ k, l.canonical = .ok k := by
  cases l with
  | float x => exact ⟨_, canonical_float h⟩
  | _ => exact ⟨_, rfl⟩

theorem isNaN_of_canonical {l k : Literal} (h : l.canonical = .ok k) : l.isNaN = false := by
  cases l with
  | float x =>
    rw [canonical] at h
    split at h
    · cases h
    · rename_i hn
      exact Bool.eq_false_iff.2 hn
  | _ => rfl

/-- Only negative zero is changed. -/
theorem canonical_eq_self {l k : Literal} (hl : l ≠ float Binary64.negativeZero)
    (h : l.canonical = .ok k) : k = l := by
  cases l with
  | float x =>
    rw [canonical_float (isNaN_of_canonical h)] at h
    obtain rfl := Except.ok.inj h
    split
    · rename_i hx
      rcases Binary64.beq_zero_iff.1 hx with rfl | rfl
      · rfl
      · exact absurd rfl hl
    · rfl
  | _ => exact (Except.ok.inj h).symm

/-- Floating-point literals are equal if their canonical forms are. -/
theorem beq_iff_canonical {x y : Float} (hx : x.isNaN = false) (hy : y.isNaN = false) :
    (x == y) = true ↔ (float x).canonical = (float y).canonical := by
  rw [canonical_float hx, canonical_float hy, Binary64.beq_iff_unsigned_zero hx]
  simp

theorem equal_iff_canonical {l m : Literal} (hl : l.isNaN = false) (hm : m.isNaN = false) :
    l.equal m = true ↔ l.canonical = m.canonical := by
  cases l with
  | float x =>
    cases m with
    | float y => exact beq_iff_canonical hl hm
    | _ => rw [canonical_float hl]; simp [equal, canonical]
  | _ =>
    cases m with
    | float y => rw [canonical_float hm]; simp [equal, canonical]
    | _ => simp [equal, canonical]

end Literal

namespace Tree

/-! ## Canonical forms -/

theorem canonical_literal {l : Literal} {k : Tree} :
    (literal l).canonical = .ok k ↔ ∃ m, l.canonical = .ok m ∧ k = literal m := by
  rw [canonical]
  cases l.canonical <;> simp [eq_comm]

theorem canonicalEach_eq_ok_iff {cs ks : List Tree} :
    canonicalEach cs = .ok ks ↔ List.Forall₂ (fun c k => c.canonical = .ok k) cs ks := by
  induction cs generalizing ks with
  | nil => simp [canonicalEach, eq_comm]
  | cons c cs ih =>
    rw [canonicalEach, List.forall₂_cons_left_iff]
    cases hc : c.canonical with
    | error e => simp
    | ok k =>
      cases hs : canonicalEach cs with
      | error e => simp [← ih, hs]
      | ok js =>
        simp only [← ih, hs, Except.ok.injEq, exists_and_left, exists_eq_left']
        exact eq_comm

theorem canonical_node {a : Action} {cs : List Tree} {k : Tree} :
    (node a cs).canonical = .ok k ↔
      ∃ ks, k = node a ks ∧ List.Forall₂ (fun c k => c.canonical = .ok k) cs ks := by
  rw [canonical]
  cases hs : canonicalEach cs with
  | error e => simp [← canonicalEach_eq_ok_iff, hs]
  | ok js =>
    simp only [← canonicalEach_eq_ok_iff, hs, Except.ok.injEq]
    constructor
    · rintro rfl
      exact ⟨js, rfl, rfl⟩
    · rintro ⟨ks, rfl, rfl⟩
      rfl

/-- A tree has a canonical form if its children have. -/
theorem exists_canonical_node {a : Action} {cs : List Tree}
    (h : ∀ c ∈ cs, ∃ k, c.canonical = .ok k) : ∃ k, (node a cs).canonical = .ok k := by
  obtain ⟨ks, hs⟩ := exists_forall₂ h
  exact ⟨node a ks, canonical_node.2 ⟨ks, rfl, hs⟩⟩

/-- An accepted tree has a canonical form, unless it is nothing but a literal without one. -/
theorem exists_canonical {t : Tree} (h : t.accepted = true) (hn : t.isNaN = false) :
    ∃ k, t.canonical = .ok k := by
  induction t using Tree.induction with
  | literal l =>
    obtain ⟨k, hk⟩ := Literal.exists_canonical hn
    exact ⟨literal k, canonical_literal.2 ⟨k, hk, rfl⟩⟩
  | node a cs ih =>
    exact exists_canonical_node fun c hc =>
      ih c hc ((accepted_node.1 h).2 c hc) (isNaN_of_mem h hc)

/-- A tree without negative zeros is its own canonical form. -/
theorem canonical_eq_self {t k : Tree} (ht : literal (.float Binary64.negativeZero) ∉ t.subtrees)
    (h : t.canonical = .ok k) : k = t := by
  induction t using Tree.induction generalizing k with
  | literal l =>
    obtain ⟨m, hm, rfl⟩ := canonical_literal.1 h
    have hl : l ≠ .float Binary64.negativeZero := by
      rintro rfl
      exact ht (mem_subtrees_self _)
    rw [Literal.canonical_eq_self hl hm]
  | node a cs ih =>
    obtain ⟨ks, rfl, hks⟩ := canonical_node.1 h
    have same : List.Forall₂ Eq cs ks := forall₂_imp_of_mem hks fun c hc _ _ hk =>
      (ih c hc (fun hz => ht (mem_subtrees_of_mem hc hz)) hk).symm
    rw [List.forall₂_eq_eq_eq] at same
    rw [same]

theorem isLiteral_of_canonical {t k : Tree} (h : t.canonical = .ok k) :
    k.isLiteral = t.isLiteral := by
  cases t with
  | literal l =>
    obtain ⟨m, -, rfl⟩ := canonical_literal.1 h
    rfl
  | node a cs =>
    obtain ⟨ks, rfl, -⟩ := canonical_node.1 h
    rfl

theorem usesBindings_of_canonical {t k : Tree} (h : t.canonical = .ok k) :
    k.usesBindings = t.usesBindings := by
  induction t using Tree.induction generalizing k with
  | literal l =>
    obtain ⟨m, -, rfl⟩ := canonical_literal.1 h
    rfl
  | node a cs ih =>
    obtain ⟨ks, rfl, hks⟩ := canonical_node.1 h
    have same : List.Forall₂ (fun c k => k.usesBindings = c.usesBindings) cs ks :=
      forall₂_imp_of_mem hks fun c hc _ _ hk => ih c hc hk
    have any : anyUsesBindings ks = anyUsesBindings cs := by
      clear h hks ih
      induction same with
      | nil => rfl
      | cons hc _ ih => rw [anyUsesBindings, anyUsesBindings, hc, ih]
    rw [usesBindings, usesBindings, any]

theorem height_of_canonical {t k : Tree} (h : t.canonical = .ok k) : k.height = t.height := by
  induction t using Tree.induction generalizing k with
  | literal l =>
    obtain ⟨m, -, rfl⟩ := canonical_literal.1 h
    rfl
  | node a cs ih =>
    obtain ⟨ks, rfl, hks⟩ := canonical_node.1 h
    have same : List.Forall₂ (fun c k => k.height = c.height) cs ks :=
      forall₂_imp_of_mem hks fun c hc _ _ hk => ih c hc hk
    have each : heightEach ks = heightEach cs := by
      clear h hks ih
      induction same with
      | nil => rfl
      | cons hc _ ih => rw [heightEach, heightEach, hc, ih]
    rw [height, height, each]

/-- A path leads in the canonical form to the canonical form of where it leads in the tree. -/
theorem canonical_follow? {s k : Tree} (h : s.canonical = .ok k) {p : Path} {c : Tree}
    (hc : s.follow? p = some c) : ∃ j, k.follow? p = some j ∧ c.canonical = .ok j := by
  induction p generalizing s k with
  | nil =>
    obtain rfl : s = c := by simpa [follow?] using hc
    exact ⟨k, by simp [follow?], h⟩
  | cons i p ih =>
    cases s with
    | literal l => simp [follow?] at hc
    | node a cs =>
      obtain ⟨ks, rfl, hks⟩ := canonical_node.1 h
      rw [follow?_cons, Option.bind_eq_some_iff] at hc
      obtain ⟨d, hd, hc⟩ := hc
      obtain ⟨j, hj, hdj⟩ := exists_getElem?_of_forall₂ hks hd
      obtain ⟨i', hi', hci⟩ := ih hdj hc
      exact ⟨i', by rw [follow?_cons, hj, Option.bind_some, hi'], hci⟩

/-- A path through the canonical form is one through the tree. -/
theorem follow?_of_canonical {s k : Tree} (h : s.canonical = .ok k) {p : Path} {j : Tree}
    (hj : k.follow? p = some j) : ∃ c, s.follow? p = some c ∧ c.canonical = .ok j := by
  induction p generalizing s k with
  | nil =>
    obtain rfl : k = j := by simpa [follow?] using hj
    exact ⟨s, by simp [follow?], h⟩
  | cons i p ih =>
    cases s with
    | literal l =>
      obtain ⟨m, -, rfl⟩ := canonical_literal.1 h
      simp [follow?] at hj
    | node a cs =>
      obtain ⟨ks, rfl, hks⟩ := canonical_node.1 h
      rw [follow?_cons, Option.bind_eq_some_iff] at hj
      obtain ⟨i', hi', hj⟩ := hj
      obtain ⟨d, hd, hdi⟩ := exists_getElem?_of_forall₂_right hks hi'
      obtain ⟨c, hc, hcj⟩ := ih hdi hj
      exact ⟨c, by rw [follow?_cons, hd, Option.bind_some, hc], hcj⟩

/-! ## Equality -/

theorem equalEach_iff {ss ts : List Tree} :
    equalEach ss ts = true ↔ List.Forall₂ (fun s t => s.equal t = true) ss ts := by
  induction ss generalizing ts with
  | nil => cases ts <;> simp [equalEach]
  | cons s ss ih => cases ts <;> simp [equalEach, ih]

theorem equal_node {a b : Action} {ss ts : List Tree} :
    (node a ss).equal (node b ts) = true ↔
      a = b ∧ List.Forall₂ (fun s t => s.equal t = true) ss ts := by
  rw [equal, Bool.and_eq_true, beq_iff_eq, equalEach_iff]

/-- Equality by shape and equality in step are the same. -/
theorem structurallyEqual_eq_equal (s t : Tree) : s.structurallyEqual t = s.equal t := by
  induction s using Tree.induction generalizing t with
  | literal l => cases t <;> rfl
  | node a ss ih =>
    cases t with
    | literal m => rfl
    | node b ts =>
      have each : (ss.length == ts.length && pairwiseEqual ss ts) = equalEach ss ts := by
        induction ss generalizing ts with
        | nil => cases ts <;> simp [pairwiseEqual, equalEach]
        | cons s ss ihs =>
          cases ts with
          | nil => rfl
          | cons t ts =>
            have hs := ihs (fun c hc => ih c (List.mem_cons_of_mem s hc)) ts
            rw [pairwiseEqual, equalEach, ih s List.mem_cons_self t, ← hs]
            simp [Bool.and_left_comm]
      rw [structurallyEqual, equal, ← each, Bool.and_assoc]

/-- Two trees are equal exactly if their canonical forms are identical. -/
theorem equal_iff_canonical {s t j k : Tree} (hs : s.canonical = .ok j) (ht : t.canonical = .ok k) :
    s.equal t = true ↔ j = k := by
  induction s using Tree.induction generalizing t j k with
  | literal l =>
    obtain ⟨l', hl, rfl⟩ := canonical_literal.1 hs
    cases t with
    | literal m =>
      obtain ⟨m', hm, rfl⟩ := canonical_literal.1 ht
      rw [equal, Literal.equal_iff_canonical (Literal.isNaN_of_canonical hl)
        (Literal.isNaN_of_canonical hm), hl, hm]
      simp
    | node b ts =>
      obtain ⟨ks, rfl, -⟩ := canonical_node.1 ht
      simp [equal]
  | node a ss ih =>
    obtain ⟨js, rfl, hjs⟩ := canonical_node.1 hs
    cases t with
    | literal m =>
      obtain ⟨m', -, rfl⟩ := canonical_literal.1 ht
      simp [equal]
    | node b ts =>
      obtain ⟨ks, rfl, hks⟩ := canonical_node.1 ht
      have each : List.Forall₂ (fun s t => s.equal t = true) ss ts ↔ js = ks := by
        clear hs ht
        induction hjs generalizing ts ks with
        | nil =>
          cases hks with
          | nil => simp
          | cons => simp
        | @cons s j ss js hj _ ihs =>
          cases hks with
          | nil => simp
          | @cons t k ts ks hk hks =>
            rw [List.forall₂_cons, ih s List.mem_cons_self hj hk,
              ihs (fun c hc => ih c (List.mem_cons_of_mem s hc)) ts ks hks, List.cons.injEq]
      rw [equal_node, each, node.injEq]

theorem structurallyEqual_iff_canonical {s t j k : Tree} (hs : s.canonical = .ok j)
    (ht : t.canonical = .ok k) : s.structurallyEqual t = true ↔ j = k := by
  rw [structurallyEqual_eq_equal, equal_iff_canonical hs ht]

/-! ## Floating-point literals -/

mutual

/-- The floating-point literals from left to right. -/
def floats : Tree → List Float
  | .literal (.float x) => [x]
  | .literal _ => []
  | .node _ cs => floatsEach cs

/-- The floating-point literals of the trees in a list. -/
def floatsEach : List Tree → List Float
  | [] => []
  | c :: cs => c.floats ++ floatsEach cs

end

theorem length_floatsEach_of_equal {ss ts : List Tree}
    (h : List.Forall₂ (fun s t => s.floats.length = t.floats.length) ss ts) :
    (floatsEach ss).length = (floatsEach ts).length := by
  induction h with
  | nil => rfl
  | cons hc _ ih => rw [floatsEach, floatsEach, List.length_append, List.length_append, hc, ih]

theorem length_floats_of_equal {s t : Tree} (h : s.equal t = true) :
    s.floats.length = t.floats.length := by
  induction s using Tree.induction generalizing t with
  | literal l =>
    cases t with
    | literal m => cases l <;> cases m <;> simp_all [equal, Literal.equal, floats]
    | node b ts => simp [equal] at h
  | node a ss ih =>
    cases t with
    | literal m => simp [equal] at h
    | node b ts =>
      rw [floats, floats]
      exact length_floatsEach_of_equal
        (forall₂_imp_of_mem (equal_node.1 h).2 fun s hs _ _ hst => ih s hs hst)

/-- Equal trees with identical floating-point literals are identical. -/
theorem eq_of_equal_of_floats {s t : Tree} (h : s.equal t = true) (hf : s.floats = t.floats) :
    s = t := by
  induction s using Tree.induction generalizing t with
  | literal l =>
    cases t with
    | literal m =>
      cases l <;> cases m <;> simp_all [equal, Literal.equal, floats]
    | node b ts => simp [equal] at h
  | node a ss ih =>
    cases t with
    | literal m => simp [equal] at h
    | node b ts =>
      obtain ⟨rfl, hs⟩ := equal_node.1 h
      rw [floats, floats] at hf
      suffices ss = ts by rw [this]
      clear h
      induction hs with
      | nil => rfl
      | @cons s t ss ts hst _ ihs =>
        rw [floatsEach, floatsEach] at hf
        obtain ⟨h₁, h₂⟩ := List.append_inj hf (length_floats_of_equal hst)
        rw [ih s List.mem_cons_self hst h₁,
          ihs (fun c hc => ih c (List.mem_cons_of_mem s hc)) h₂]

/-! ## Containment -/

/-- A tree contains another if one of its subtrees equals it. -/
theorem contains_iff {s t : Tree} :
    s.contains t = true ↔ ∃ r ∈ s.subtrees, r.structurallyEqual t = true := by
  induction s using Tree.induction with
  | literal l => simp [contains]
  | node a cs ih =>
    have below : (anyContains cs t = true) ↔
        ∃ c ∈ cs, ∃ r ∈ c.subtrees, r.structurallyEqual t = true := by
      rw [anyContains_eq_any, List.any_eq_true]
      exact exists_congr fun c => and_congr_right fun hc => ih c hc
    rw [contains, Bool.or_eq_true, below]
    simp only [mem_subtrees_node]
    constructor
    · rintro (h | ⟨c, hc, r, hr, h⟩)
      · exact ⟨_, .inl rfl, h⟩
      · exact ⟨r, .inr ⟨c, hc, hr⟩, h⟩
    · rintro ⟨r, rfl | ⟨c, hc, hr⟩, h⟩
      · exact .inl h
      · exact .inr ⟨c, hc, r, hr, h⟩

/-- A tree contains a reference if the reference is one of its subtrees. -/
theorem contains_refer_iff {s : Tree} {name : String} :
    s.contains (refer name) = true ↔ refer name ∈ s.subtrees := by
  have same {r : Tree} : r.structurallyEqual (refer name) = true ↔ r = refer name := by
    constructor
    · intro h
      rw [structurallyEqual_eq_equal] at h
      exact eq_of_equal_of_floats h (List.length_eq_zero_iff.1 (length_floats_of_equal h))
    · rintro rfl
      simp [refer, ofText, structurallyEqual, pairwiseEqual, Literal.equal]
  simp [contains_iff, same]

end Tree

end SpanJoin
