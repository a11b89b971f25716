import SpanJoin.Proofs.Eval.Simulation
import SpanJoin.Proofs.Plan.Drafts
import SpanJoin.Tree.Column

/-!
# What a tree and its plan read

`Tree.ReadsOnly ns t` says that evaluating `t` asks the context for no other columns than those in
`ns`. It holds of the columns that are collected from a tree, whether this is accepted or not
(`readsOnly_of_columns?`), and it passes to the declared subtrees and, as references read no
columns, to what is abbreviated. So a tree and its plan have the same value in contexts that agree
on the collected columns (`ReadsOnly.evalIn_congr`, `ReadsOnly.share_eval_congr`).
-/

namespace SpanJoin

theorem mem_insertName {name n : String} {l : List String} :
    n ∈ insertName name l ↔ n = name ∨ n ∈ l := by
  induction l with
  | nil => simp [insertName]
  | cons m rest ih =>
    rw [insertName]
    split
    · simp
    · split
      · rename_i h
        simp [h]
      · rw [List.mem_cons, ih, List.mem_cons]
        exact or_left_comm

namespace ColumnNames

/-- The second collection has all columns of the first. -/
structure Within (ns ms : ColumnNames) : Prop where
  left : ∀ n ∈ ns.left, n ∈ ms.left
  right : ∀ n ∈ ns.right, n ∈ ms.right

theorem Within.refl (ns : ColumnNames) : ns.Within ns := ⟨fun _ h => h, fun _ h => h⟩

theorem Within.trans {ks ms ns : ColumnNames} (h : ks.Within ms) (h' : ms.Within ns) :
    ks.Within ns :=
  ⟨fun n hn => h'.left n (h.left n hn), fun n hn => h'.right n (h.right n hn)⟩

theorem within_addLeft (ns : ColumnNames) (child : Tree) : ns.Within (ns.addLeft child) := by
  unfold addLeft
  split
  · exact ⟨fun n hn => mem_insertName.2 (.inr hn), fun _ hn => hn⟩
  · exact .refl ns

theorem within_addRight (ns : ColumnNames) (child : Tree) : ns.Within (ns.addRight child) := by
  unfold addRight
  split
  · exact ⟨fun _ hn => hn, fun n hn => mem_insertName.2 (.inr hn)⟩
  · exact .refl ns

theorem mem_left_addLeft (ns : ColumnNames) {child : Tree} {name : String}
    (h : child.text? = some name) : name ∈ (ns.addLeft child).left := by
  rw [addLeft, h]
  exact mem_insertName.2 (.inl rfl)

theorem mem_right_addRight (ns : ColumnNames) {child : Tree} {name : String}
    (h : child.text? = some name) : name ∈ (ns.addRight child).right := by
  rw [addRight, h]
  exact mem_insertName.2 (.inl rfl)

end ColumnNames

/-- The contexts have the same lengths and overlaps, and they give the same answers for the columns
of those names. -/
structure Context.AgreeOn (c c' : Context) (ns : ColumnNames) : Prop where
  lengthOfLeft : c.lengthOfLeft = c'.lengthOfLeft
  lengthOfRight : c.lengthOfRight = c'.lengthOfRight
  lengthOfOverlap : c.lengthOfOverlap = c'.lengthOfOverlap
  left : ∀ n ∈ ns.left, c.left.get n = c'.left.get n
  right : ∀ n ∈ ns.right, c.right.series n = c'.right.series n

namespace Tree

/-- Every column that an evaluation of the tree asks for is among the names. What stands below a
column reference is not evaluated. -/
inductive ReadsOnly (ns : ColumnNames) : Tree → Prop
  | literal (l : Literal) : ReadsOnly ns (.literal l)
  | leftColumn {cs : List Tree} (h : ∀ name, textAt .leftColumn cs 0 = .ok name → name ∈ ns.left) :
      ReadsOnly ns (.node .leftColumn cs)
  | rightColumn {cs : List Tree}
      (h : ∀ name, textAt .rightColumn cs 0 = .ok name → name ∈ ns.right) :
      ReadsOnly ns (.node .rightColumn cs)
  | node {a : Action} {cs : List Tree} (ha : a.isColumnReference = false)
      (h : ∀ c ∈ cs, ReadsOnly ns c) : ReadsOnly ns (.node a cs)

variable {ns ms : ColumnNames} {c c' : Context} {s t u : Tree}

theorem ReadsOnly.mono (h : t.ReadsOnly ns) (hn : ns.Within ms) : t.ReadsOnly ms := by
  induction h with
  | literal l => exact .literal l
  | leftColumn h => exact .leftColumn fun name e => hn.left name (h name e)
  | rightColumn h => exact .rightColumn fun name e => hn.right name (h name e)
  | node ha _ ih => exact .node ha ih

/-! ## The collected columns -/

theorem textAt_zero {a : Action} {cs : List Tree} {name : String} (h : textAt a cs 0 = .ok name) :
    ∃ child, cs.head? = some child ∧ child.text? = some name := by
  rw [textAt] at h
  split at h
  · rename_i s hs
    obtain ⟨child, hc, hs⟩ := Option.bind_eq_some_iff.1 hs
    exact ⟨child, by rwa [List.head?_eq_getElem?], by rw [hs, Except.ok.inj h]⟩
  · cases h

theorem addColumnsEach?_spec {cs : List Tree}
    (ih : ∀ c ∈ cs, ∀ ns ms, c.addColumns? ns = some ms → ns.Within ms ∧ c.ReadsOnly ms)
    (h : addColumnsEach? cs ns = some ms) : ns.Within ms ∧ ∀ c ∈ cs, c.ReadsOnly ms := by
  induction cs generalizing ns with
  | nil =>
    obtain rfl : ns = ms := Option.some.inj h
    exact ⟨.refl ns, by simp⟩
  | cons c cs ihs =>
    rw [addColumnsEach?] at h
    cases hc : c.addColumns? ns with
    | none =>
      rw [hc] at h
      cases h
    | some ks =>
      rw [hc] at h
      obtain ⟨within, reads⟩ := ih c List.mem_cons_self ns ks hc
      obtain ⟨rest, each⟩ := ihs (fun d hd => ih d (List.mem_cons_of_mem c hd)) h
      refine ⟨within.trans rest, fun d hd => ?_⟩
      rcases List.mem_cons.1 hd with rfl | hd
      · exact reads.mono rest
      · exact each d hd

theorem addColumns?_spec (h : t.addColumns? ns = some ms) : ns.Within ms ∧ t.ReadsOnly ms := by
  induction t using Tree.induction generalizing ns ms with
  | literal l =>
    obtain rfl : ns = ms := Option.some.inj h
    exact ⟨.refl ns, .literal l⟩
  | node a cs ih =>
    cases a with
    | leftColumn =>
      obtain ⟨child, hc, rfl⟩ := Option.map_eq_some_iff.1 h
      refine ⟨ns.within_addLeft child, .leftColumn fun name hn => ?_⟩
      obtain ⟨child', hc', hn⟩ := textAt_zero hn
      obtain rfl : child = child' := Option.some.inj (hc.symm.trans hc')
      exact ns.mem_left_addLeft hn
    | rightColumn =>
      obtain ⟨child, hc, rfl⟩ := Option.map_eq_some_iff.1 h
      refine ⟨ns.within_addRight child, .rightColumn fun name hn => ?_⟩
      obtain ⟨child', hc', hn⟩ := textAt_zero hn
      obtain rfl : child = child' := Option.some.inj (hc.symm.trans hc')
      exact ns.mem_right_addRight hn
    | _ =>
      obtain ⟨within, each⟩ := addColumnsEach?_spec (fun c hc _ _ => ih c hc) h
      exact ⟨within, .node rfl each⟩

/-- A tree reads no other columns than those collected from it. -/
theorem readsOnly_of_columns? (h : t.columns? = some ns) : t.ReadsOnly ns := (addColumns?_spec h).2

/-! ## Evaluation -/

/-- The tree evaluates alike where the contexts agree on what it reads. -/
theorem ReadsOnly.evalIn_congr (h : t.ReadsOnly ns) (hc : c.AgreeOn c' ns) (env : Environment) :
    t.evalIn c env = t.evalIn c' env := by
  suffices alike : Simulates c c' Eq t t by
    obtain ⟨h₁, h₂⟩ := alike env env rfl
    exact Prod.ext h₁ h₂
  induction h with
  | literal l => exact fun _ _ he => ⟨rfl, he⟩
  | @leftColumn cs h =>
    refine fun _ _ he => ⟨?_, he⟩
    simp only [evalIn, readLeft]
    cases hn : textAt .leftColumn cs 0 with
    | error e => rfl
    | ok name => simp only [Outcome.ofExcept, Outcome.ok_bind, hc.left name (h name hn)]
  | @rightColumn cs h =>
    refine fun _ _ he => ⟨?_, he⟩
    simp only [evalIn, readRight]
    cases hn : textAt .rightColumn cs 0 with
    | error e => rfl
    | ok name => simp only [Outcome.ok_bind, hc.right name (h name hn)]
  | @node a cs ha _ ih =>
    by_cases hs : a = .hstack
    · subst hs
      exact .hstack (List.forall₂_same.2 fun s hs => ⟨ih s hs, rfl⟩)
    · refine .node hs (List.forall₂_same.2 ih) (List.forall₂_same.2 fun _ _ => rfl)
        ⟨hc.lengthOfLeft, hc.lengthOfRight, hc.lengthOfOverlap, ?_, ?_, ?_, ?_⟩
      · rintro rfl
        cases ha
      · rintro rfl
        cases ha
      · rintro rfl _ _ env _ rfl
        rfl
      · rintro rfl _ _ d env _ rfl
        rfl

/-! ## References in the place of subtrees -/

/-- The text under a column reference stays when subtrees are replaced by references. -/
theorem textAt_of_replaced {P : Tree → Tree → Prop} (refs : ∀ c d, P c d → ∃ name, d = refer name)
    {a : Action} {cs ds : List Tree} (h : List.Forall₂ (Replaced P false) cs ds) {name : String}
    (hn : textAt a ds 0 = .ok name) : textAt a cs 0 = .ok name := by
  cases h with
  | nil => exact hn
  | cons hcd _ =>
    cases hcd with
    | here h =>
      obtain ⟨other, rfl⟩ := refs _ _ h
      cases hn
    | literal l => exact hn
    | node => cases hn
    | hstack => cases hn

/-- References read no columns. -/
theorem ReadsOnly.of_replaced {P : Tree → Tree → Prop} {column : Bool} (hs : s.ReadsOnly ns)
    (h : Replaced P column s u) (refs : ∀ c d, P c d → ∃ name, d = refer name) :
    u.ReadsOnly ns := by
  have each {column : Bool} {a : Action} {cs ds : List Tree} (ha : a.isColumnReference = false)
      (hs : ∀ c ∈ cs, c.ReadsOnly ns)
      (ih : List.Forall₂ (fun c d => ∃ _ : Replaced P column c d, c.ReadsOnly ns → d.ReadsOnly ns)
        cs ds) : (Tree.node a ds).ReadsOnly ns := by
    refine .node ha fun d hd => ?_
    obtain ⟨c, hc, -, h⟩ := exists_mem_of_forall₂_right ih hd
    exact h (hs c hc)
  induction h using Replaced.induction with
  | here h =>
    obtain ⟨name, rfl⟩ := refs _ _ h
    exact .node rfl fun c hc => by
      rw [List.mem_singleton.1 hc]
      exact .literal _
  | literal l => exact hs
  | node _ h ih =>
    cases hs with
    | leftColumn hs => exact .leftColumn fun name hn => hs name (textAt_of_replaced refs h hn)
    | rightColumn hs => exact .rightColumn fun name hn => hs name (textAt_of_replaced refs h hn)
    | node ha hs => exact each ha hs ih
  | hstack _ ih =>
    cases hs with
    | node ha hs => exact each ha hs ih
  | kept c => exact hs
  | named _ _ ih =>
    refine .node rfl fun c hc => ?_
    rcases List.mem_cons.1 hc with rfl | hc
    · exact ih hs
    · rw [List.mem_singleton.1 hc]
      exact .literal _

theorem ReadsOnly.of_abbreviate {names : Path → Option String} (hs : s.ReadsOnly ns)
    (h : s.abbreviate names = .ok u) : u.ReadsOnly ns := by
  have replaced : Replaced (fun _ d => ∃ name, d = refer name) false s u := by
    refine replaced_of_abbreviate ?_ (fun _ _ name _ _ _ => ⟨name, rfl⟩) h
    rintro _ _ ⟨name, rfl⟩
    rfl
  exact hs.of_replaced replaced fun _ _ h => h

/-- The walk level by level meets trees that are evaluated only. -/
theorem ReadsOnly.of_mem_nodesAt (ht : t.ReadsOnly ns) {depth : Nat} {p : Path}
    (h : (p, s) ∈ nodesAt depth t) : s.ReadsOnly ns := by
  induction depth generalizing t p with
  | zero =>
    cases t with
    | literal l => simp [nodesAt] at h
    | node a cs =>
      obtain ⟨-, rfl⟩ : p = [] ∧ s = Tree.node a cs := by simpa [nodesAt] using h
      exact ht
  | succ depth ih =>
    cases ht with
    | literal l => simp [nodesAt] at h
    | leftColumn => simp [nodesAt, Action.isColumnReference] at h
    | rightColumn => simp [nodesAt, Action.isColumnReference] at h
    | node ha each =>
      rw [nodesAt, ha, if_neg (by simp)] at h
      obtain ⟨⟨c, i⟩, hc, h⟩ := List.mem_flatMap.1 h
      obtain ⟨⟨q, v⟩, hq, e⟩ := List.mem_map.1 h
      obtain ⟨-, rfl⟩ := Prod.mk.inj e
      exact ih (each c (List.mem_of_getElem? (List.mk_mem_zipIdx_iff_getElem?.1 hc))) hq

end Tree

/-- What is said of the nodes that are gone through holds of the subtrees that are collected. -/
theorem Occurrence.forall_collect {P : Tree → Prop} {rest : List (Path × Tree)}
    (hr : ∀ n ∈ rest, P n.2) {found all : List Occurrence} (h : ∀ o ∈ found, P o.subtree)
    (hc : collect found rest = .ok all) : ∀ o ∈ all, P o.subtree := by
  induction rest generalizing found with
  | nil =>
    obtain rfl : found = all := Except.ok.inj hc
    exact h
  | cons n rest ih =>
    obtain ⟨p, s⟩ := n
    have tail := fun n hn => hr n (List.mem_cons_of_mem (p, s) hn)
    rw [collect] at hc
    split at hc
    · exact ih tail h hc
    · split at hc
      · refine ih tail (forall_add h (hr (p, s) List.mem_cons_self) fun o _ ho => ho) hc
      · cases hc

namespace Tree

variable {ns : ColumnNames} {c c' : Context} {t : Tree} {p : Plan}

/-- The plan of a tree reads no other columns than the tree. -/
theorem ReadsOnly.of_share (ht : t.ReadsOnly ns) (hp : t.share = .ok p) :
    (∀ d ∈ p.declarations, d.2.ReadsOnly ns) ∧ p.root.ReadsOnly ns := by
  cases hl : t.isLeaf with
  | true =>
    rw [share, if_pos hl] at hp
    obtain rfl := Except.ok.inj hp
    exact ⟨by simp, ht⟩
  | false =>
    obtain ⟨found, hf, hd, hr⟩ := (share_eq_ok_iff hl).1 hp
    have nodes : ∀ n ∈ t.nodes, n.2.ReadsOnly ns := by
      intro n hn
      obtain ⟨depth, -, hn⟩ := List.mem_flatMap.1 hn
      exact ht.of_mem_nodesAt hn
    have collected := Occurrence.forall_collect nodes (by simp) hf
    refine ⟨fun d hd' => ?_, ht.of_abbreviate hr⟩
    obtain ⟨r, hr, hdr⟩ := exists_mem_of_forall₂_right (mapM_eq_ok_iff.1 hd) hd'
    have hr := of_mem_nameRepeated ((sortBy_perm _).subset hr)
    exact (collected r.2 hr.1).of_abbreviate (body_of_declarationOf hdr).2

/-- Declarations whose bodies evaluate alike make the same environment. -/
theorem bindEach_congr {ds : List (String × Tree)}
    (h : ∀ d ∈ ds, ∀ env, d.2.evalIn c env = d.2.evalIn c' env) (env : Environment) :
    Plan.bindEach c ds env = Plan.bindEach c' ds env := by
  induction ds generalizing env with
  | nil => rfl
  | cons d ds ih =>
    rw [Plan.bindEach, Plan.bindEach, h d List.mem_cons_self]
    rcases d.2.evalIn c' env with ⟨o, env₁⟩
    cases o with
    | error e => rfl
    | ok v => exact ih (fun e he => h e (List.mem_cons_of_mem d he)) _

/-- The plan of a tree has the same value in contexts that agree on what the tree reads. -/
theorem ReadsOnly.share_eval_congr (ht : t.ReadsOnly ns) (hp : t.share = .ok p)
    (hc : c.AgreeOn c' ns) : p.eval c = p.eval c' := by
  obtain ⟨bodies, root⟩ := ht.of_share hp
  rw [Plan.eval, Plan.eval, bindEach_congr fun d hd env => (bodies d hd).evalIn_congr hc env]
  simp only [root.evalIn_congr hc]

end Tree

end SpanJoin
