import SpanJoin.Proofs.Plan.OneTree
import SpanJoin.Proofs.Plan.Ordered

/-!
# Running a plan and running its expansion

A plan can be run declaration by declaration, or expanded into a tree without references and run as
that tree. The two agree on every datum that the plan gives, and the plan gives every datum of the
tree if it needs all of its declarations (`Plan.eval_expand`): a declaration that nothing refers to
does not show in the expansion, but the plan fails with it.

The invariant of running the declarations is `Plan.Valued`: what is bound to a name is the value of
the expansion of what was declared under it. Under this invariant a tree is simulated by its
expansion (`Tree.simulates_graft`), so that a body has the value of its expansion, and running all
declarations binds them all or stops at one whose expansion has no value (`Plan.bindEach_cases`).
In the other direction, where the expansion of a tree has a value, so have the expansions of all
that the tree refers to (`Tree.hasValue_of_graft`).
-/

namespace SpanJoin

namespace Tree

variable {c : Context} {body : String → Option (Option Tree)} {t u : Tree}

/-- The tree puts no columns side by side, makes no bindings and contains no list of statements. -/
def Inlinable (t : Tree) : Prop :=
  ∀ a cs, node a cs ∈ t.subtrees → a ≠ .hstack ∧ a ≠ .declare ∧ a ≠ .execute

theorem inlinable_literal (l : Literal) : (literal l).Inlinable :=
  fun a cs h => by cases mem_subtrees_literal.1 h

theorem inlinable_node {a : Action} {cs : List Tree} : (node a cs).Inlinable ↔
    (a ≠ .hstack ∧ a ≠ .declare ∧ a ≠ .execute) ∧ ∀ s ∈ cs, s.Inlinable :=
  forall_node_mem_subtrees

/-- Where an accepted node reads a text, there is one. -/
theorem exists_text_of_accepted {a : Action} {cs : List Tree} {i : Nat}
    (hi : a.textPosition? = some i) (h : (node a cs).accepted = true) :
    ∃ s, cs[i]? = some (ofText s) := by
  cases a with
  | leftColumn | rightColumn | refer =>
    obtain ⟨s, rfl⟩ := text_child rfl h
    obtain rfl : 0 = i := Option.some.inj hi
    exact ⟨s, rfl⟩
  | declare =>
    obtain ⟨s, v, rfl⟩ := declare_children h
    obtain rfl : 0 = i := Option.some.inj hi
    exact ⟨s, rfl⟩
  | castTo =>
    obtain ⟨v, s, rfl, -⟩ := node_text_children rfl h
    obtain rfl : 1 = i := Option.some.inj hi
    exact ⟨s, rfl⟩
  | _ => cases hi

/-- Grafting leaves the texts that a node reads as they are. -/
theorem textAt_graftEach {a : Action} {cs ds : List Tree} (h : (node a cs).accepted = true)
    (hds : List.Forall₂ (fun c d => c.graft body = some d) cs ds) {i : Nat}
    (hi : a.textPosition? = some i) : textAt a cs i = textAt a ds i := by
  obtain ⟨s, hs⟩ := exists_text_of_accepted hi h
  obtain ⟨d, hd, hsd⟩ := exists_getElem?_of_forall₂ hds hs
  obtain rfl : ofText s = d := Option.some.inj hsd
  rw [textAt, textAt, hs, hd]

/-- What becomes of an accepted node when the references in it are replaced: it is a reference, and
the replacement stands for it, or it is no reference, and its children are grafted. -/
theorem graft_node_cases {a : Action} {cs : List Tree} (ht : (node a cs).accepted = true)
    (replaced : ∀ name, refer name ∈ (node a cs).subtrees → body name ≠ none)
    (h : (node a cs).graft body = some u) :
    (∃ name, node a cs = refer name ∧ body name = some (some u)) ∨
      a ≠ .refer ∧ ∃ ds, u = node a ds ∧ List.Forall₂ (fun c d => c.graft body = some d) cs ds := by
  by_cases ha : a = .refer
  · subst ha
    obtain ⟨name, rfl⟩ := text_child rfl ht
    cases hb : body name with
    | none => exact absurd hb (replaced name (mem_subtrees_self _))
    | some r =>
      rw [graft_node_of_some (r := r) (by rw [referred?, ofText, text?, Option.bind_some, hb])] at h
      exact .inl ⟨name, rfl, by rw [hb, h]⟩
  · rw [graft_node ha, Option.map_eq_some_iff] at h
    obtain ⟨ds, hds, rfl⟩ := h
    exact .inr ⟨ha, ds, rfl, graftEach_eq_some_iff.1 hds⟩

/-- A tree is simulated by the tree with the references replaced, if what is bound to a name is the
value of its replacement in all environments. -/
theorem simulates_graft {ρ : Environment} (ht : t.accepted = true) (plain : t.Inlinable)
    (bound : ∀ name, refer name ∈ t.subtrees → ∃ w d, body name = some (some w) ∧
      ρ.get? name = some d ∧ ∀ env, (w.evalIn c env).1 = .ok d)
    (h : t.graft body = some u) : Simulates c c (fun env _ => env = ρ) t u := by
  induction t using Tree.induction generalizing u with
  | literal l =>
    obtain rfl : literal l = u := Option.some.inj h
    exact fun env env' he => ⟨rfl, he⟩
  | node a cs ih =>
    have replaced : ∀ name, refer name ∈ (node a cs).subtrees → body name ≠ none := by
      intro name hn e
      obtain ⟨w, d, hw, -⟩ := bound name hn
      rw [hw] at e
      cases e
    rcases graft_node_cases ht replaced h with ⟨name, e, hu⟩ | ⟨ha, ds, rfl, hds⟩
    · obtain ⟨w, d, hw, hd, hv⟩ := bound name (e ▸ mem_subtrees_self _)
      obtain rfl : w = u := by simpa [hw] using hu
      rintro env env' rfl
      rw [e]
      refine ⟨?_, rfl⟩
      simp [refer, evalIn, readName, textAt, ofText, text?, hd, hv, pure, Except.pure,
        Outcome.ofExcept]
    · obtain ⟨⟨hstack, declare, -⟩, children⟩ := inlinable_node.1 plain
      refine .node_of_textAt hstack (forall₂_imp_of_mem hds fun s hs w _ hw => ?_)
        (fun i hi => textAt_graftEach ht hds hi)
        ⟨rfl, rfl, rfl, fun _ _ _ => rfl, fun _ _ _ => rfl, fun e => absurd e ha,
          fun e => absurd e declare⟩
      exact ih s hs ((accepted_node.1 ht).2 s hs) (children s hs)
        (fun name hn => bound name (mem_subtrees_of_mem hs hn)) hw

/-- Where the tree with the references replaced has a value, so have the replacements. -/
theorem hasValue_of_graft (ht : t.accepted = true)
    (replaced : ∀ name, refer name ∈ t.subtrees → body name ≠ none)
    (h : t.graft body = some u) (hv : HasValue c u) {name : String}
    (hn : refer name ∈ t.subtrees) : ∃ w, body name = some (some w) ∧ HasValue c w := by
  induction t using Tree.induction generalizing u with
  | literal l => cases mem_subtrees_literal.1 hn
  | node a cs ih =>
    rcases graft_node_cases ht replaced h with ⟨n, e, hu⟩ | ⟨ha, ds, rfl, hds⟩
    · rw [e] at hn
      obtain rfl : name = n := by
        simpa [refer, ofText] using node_mem_subtrees_refer.1 hn
      exact ⟨u, hu, hv⟩
    · rcases mem_subtrees_node.1 hn with e | ⟨s, hs, hn⟩
      · exact absurd (node.inj e).1.symm ha
      -- a child with a reference in it is evaluated: it is no text that the node reads
      have operands : a.arity ≠ .fixed [] := by
        intro hl
        rw [no_children hl ht] at hs
        cases hs
      have evaluated : a.arity ≠ .fixed [.text] := by
        intro hl
        obtain ⟨text, rfl⟩ := text_child hl ht
        obtain rfl := List.mem_singleton.1 hs
        cases mem_subtrees_literal.1 hn
      obtain ⟨i, hi⟩ := List.mem_iff_getElem?.1 hs
      obtain ⟨w, hw, hsw⟩ := exists_getElem?_of_forall₂ hds hi
      exact ih s hs ((accepted_node.1 ht).2 s hs)
        (fun name hn => replaced name (mem_subtrees_of_mem hs hn)) hsw
        (hasValue_operand operands evaluated hv w (List.mem_of_getElem? hw)) hn

end Tree

namespace Plan

variable {p : Plan} {c : Context} {done : List (String × Tree)} {t u : Tree}

/-- The root and all bodies. -/
def trees (p : Plan) : List Tree := p.root :: p.declarations.map Prod.snd

theorem root_mem_trees (p : Plan) : p.root ∈ p.trees := List.mem_cons_self

theorem body_mem_trees {d : String × Tree} (hd : d ∈ p.declarations) : d.2 ∈ p.trees :=
  List.mem_cons_of_mem _ (List.mem_map_of_mem hd)

/-- Every reference is to a declaration, and those in a body are to declarations before it. -/
structure Resolved (p : Plan) : Prop where
  ordered : p.Ordered
  declared : ∀ cs, Tree.node .refer cs ∈ p.root.subtrees →
    ∃ d ∈ p.declarations, cs = [Tree.ofText d.1]

/-- The root refers to the name, or to a name whose body leads to it. -/
inductive Needs (p : Plan) : String → Prop
  | root {name : String} (h : Tree.refer name ∈ p.root.subtrees) : Needs p name
  | body {d : String × Tree} {name : String} (hd : d ∈ p.declarations) (h : Needs p d.1)
      (hn : Tree.refer name ∈ d.2.subtrees) : Needs p name

/-- A declaration is found under its name. -/
theorem Ordered.declaration?_eq (h : p.Ordered) {d : String × Tree} (hd : d ∈ p.declarations) :
    p.declaration? d.1 = some d.2 := by
  cases hl : p.declaration? d.1 with
  | none => exact absurd rfl (bne_iff_ne.1 (List.lookup_eq_none_iff.1 hl d hd))
  | some body =>
    obtain ⟨i, hi⟩ := exists_of_declaration? hl
    obtain ⟨j, hj⟩ := List.mem_iff_getElem?.1 hd
    obtain rfl := h.position_eq hi hj rfl
    rw [hi] at hj
    rw [← Option.some.inj hj]

/-! ## From the plan to its expansion -/

/-- The names of the declarations are bound to the values of what these expand to. -/
def Valued (p : Plan) (c : Context) (done : List (String × Tree)) (env : Environment) : Prop :=
  ∀ d ∈ done, ∃ w v, p.expand d.2 = some w ∧ env.get? d.1 = some v ∧
    ∀ env, (w.evalIn c env).1 = .ok v

/-- One more declaration is bound to the value of its expansion. -/
theorem Valued.declare {env : Environment} (h : p.Valued c done env) {d : String × Tree}
    (fresh : ∀ e ∈ done, e.1 ≠ d.1) {w : Tree} (hw : p.expand d.2 = some w) {v : Datum}
    (hv : ∀ env, (w.evalIn c env).1 = .ok v) : p.Valued c (done ++ [d]) (env.bind d.1 v) := by
  intro e he
  rcases List.mem_append.1 he with he | he
  · obtain ⟨w, v, hw, hb, hv⟩ := h e he
    exact ⟨w, v, hw, by rw [Environment.get?_bind, if_neg (fresh e he), hb], hv⟩
  · obtain rfl := List.mem_singleton.1 he
    exact ⟨w, v, hw, by rw [Environment.get?_bind, if_pos rfl], hv⟩

/-- A tree that refers to bound declarations only is simulated by its expansion. -/
theorem Valued.simulates {ρ : Environment} (h : p.Valued c done ρ) (ordered : p.Ordered)
    (sub : ∀ d ∈ done, d ∈ p.declarations)
    (refs : ∀ name, Tree.refer name ∈ t.subtrees → ∃ d ∈ done, name = d.1)
    (ht : t.accepted = true) (plain : t.Inlinable) (hu : p.expand t = some u) :
    Tree.Simulates c c (fun env _ => env = ρ) t u := by
  rw [ordered.expand_eq_graft] at hu
  refine Tree.simulates_graft ht plain (fun name hn => ?_) hu
  obtain ⟨d, hd, rfl⟩ := refs name hn
  obtain ⟨w, v, hw, hb, hv⟩ := h d hd
  exact ⟨w, v, by rw [ordered.declaration?_eq (sub d hd), Option.map_some, hw], hb, hv⟩

/-- In a plan in order, a body refers to declarations before its own. -/
theorem Ordered.exists_of_refer_mem (h : p.Ordered) {d : String × Tree}
    {rest : List (String × Tree)} (hds : p.declarations = done ++ d :: rest) {name : String}
    (hn : Tree.refer name ∈ d.2.subtrees) : ∃ e ∈ done, name = e.1 := by
  obtain ⟨j, hj, e, he, hcs⟩ := h.earlier done.length d (by simp [hds]) _ hn
  rw [hds, List.getElem?_append_left hj] at he
  exact ⟨e, List.mem_of_getElem? he, by simpa [Tree.ofText] using hcs⟩

/-- In a plan in order, the name of a declaration is none of those before. -/
theorem Ordered.name_ne (h : p.Ordered) {d : String × Tree} {rest : List (String × Tree)}
    (hds : p.declarations = done ++ d :: rest) : ∀ e ∈ done, e.1 ≠ d.1 := by
  have apart := h.apart
  rw [hds, List.map_append, List.map_cons] at apart
  exact fun e he =>
    (List.nodup_append.1 apart).2.2 _ (List.mem_map_of_mem he) _ List.mem_cons_self

section

variable (ordered : p.Ordered) (ht : ∀ t ∈ p.trees, t.accepted = true ∧ t.Inlinable)
include ordered ht

/-- Running the declarations binds the values of all their expansions, or one of these has no
value. -/
theorem bindEach_cases {rest : List (String × Tree)} (hds : p.declarations = done ++ rest)
    {env : Environment} (valued : p.Valued c done env) :
    (∃ env', bindEach c rest env = (.ok (), env') ∧ p.Valued c p.declarations env') ∨
      ∃ e env', bindEach c rest env = (.error e, env') ∧
        ∃ d ∈ p.declarations, ∃ w, p.expand d.2 = some w ∧ ¬ Tree.HasValue c w := by
  induction rest generalizing done env with
  | nil => exact .inl ⟨env, rfl, by rwa [hds, List.append_nil]⟩
  | cons d rest ih =>
    have hd : d ∈ p.declarations := by simp [hds]
    obtain ⟨hda, plain⟩ := ht d.2 (body_mem_trees hd)
    obtain ⟨w, hw⟩ := ordered.exists_expand d.2
    have same : ∀ env', (d.2.evalIn c env).1 = (w.evalIn c env').1 ∧ (d.2.evalIn c env).2 = env :=
      fun env' => valued.simulates ordered (fun e he => by simp [hds, he])
        (fun name hn => ordered.exists_of_refer_mem hds hn) hda plain hw env env' rfl
    rw [bindEach]
    cases hb : d.2.evalIn c env with
    | mk o env₁ =>
      simp only [hb] at same
      obtain rfl : env₁ = env := (same .empty).2
      cases o with
      | error e =>
        refine .inr ⟨e, env₁, rfl, d, hd, w, hw, ?_⟩
        rintro ⟨env', v, hv⟩
        rw [← (same env').1] at hv
        cases hv
      | ok v =>
        exact ih (by simp [hds]) (valued.declare (ordered.name_ne hds) hw
          fun env' => (same env').1.symm)

/-! ## From the expansion to the plan -/

/-- Where the expansion of the root has a value, so have those of all declarations it needs. -/
theorem Needs.hasValue (declared : ∀ name, Tree.refer name ∈ p.root.subtrees →
      ∃ d ∈ p.declarations, name = d.1) (hu : p.expand p.root = some u)
    (hv : Tree.HasValue c u) {name : String} (h : p.Needs name) :
    ∃ w, (p.declaration? name).map p.expand = some (some w) ∧ Tree.HasValue c w := by
  have found {name : String} (h : ∃ d ∈ p.declarations, name = d.1) :
      (p.declaration? name).map p.expand ≠ none := by
    obtain ⟨d, hd, rfl⟩ := h
    simp [ordered.declaration?_eq hd]
  induction h with
  | root hn =>
    rw [ordered.expand_eq_graft] at hu
    exact Tree.hasValue_of_graft (ht _ p.root_mem_trees).1
      (fun name hn => found (declared name hn)) hu hv hn
  | @body d name hd _ hn ih =>
    obtain ⟨w, hw, hv⟩ := ih
    rw [ordered.declaration?_eq hd, Option.map_some, Option.some.injEq,
      ordered.expand_eq_graft] at hw
    refine Tree.hasValue_of_graft (ht _ (body_mem_trees hd)).1 (fun name hn => found ?_) hw hv hn
    obtain ⟨before, rest, hds⟩ := List.append_of_mem hd
    obtain ⟨e, he, hne⟩ := ordered.exists_of_refer_mem hds hn
    exact ⟨e, by simp [hds, he], hne⟩

end

/-- **A plan means what its expansion means.** Expanding the root succeeds; whatever datum the plan
evaluates to, the expansion evaluates to it as well, and the other way round if the root needs
everything that is declared. -/
theorem eval_expand (h : p.Resolved) (ht : ∀ t ∈ p.trees, t.accepted = true ∧ t.Inlinable)
    (c : Context) : ∃ u, p.expand p.root = some u ∧
      (∀ d, p.eval c = .ok d → u.eval c = .ok d) ∧
      ((∀ d ∈ p.declarations, p.Needs d.1) → ∀ d, u.eval c = .ok d → p.eval c = .ok d) := by
  obtain ⟨u, hu⟩ := h.ordered.exists_expand p.root
  have declared : ∀ name, Tree.refer name ∈ p.root.subtrees →
      ∃ d ∈ p.declarations, name = d.1 := by
    intro name hn
    obtain ⟨d, hd, hcs⟩ := h.declared _ hn
    exact ⟨d, hd, by simpa [Tree.ofText] using hcs⟩
  refine ⟨u, hu, ?_⟩
  rw [eval]
  have start : p.Valued c [] .empty := fun d hd => absurd hd List.not_mem_nil
  rcases bindEach_cases h.ordered ht (List.nil_append p.declarations).symm start with
    ⟨env, hb, valued⟩ | ⟨e, env, hb, d, hd, w, hw, none⟩
  · -- all declarations are bound: the root has the value of its expansion
    have root := (valued.simulates h.ordered (fun d hd => hd) declared (ht _ p.root_mem_trees).1
      (ht _ p.root_mem_trees).2 hu env .empty rfl).1
    simp only [hb, root, Tree.eval, imp_self, implies_true, and_self]
  · -- one of them fails: so does the expansion of the root, if it needs it
    rw [hb]
    refine ⟨fun v hv => absurd hv (by simp), fun needed v hv => ?_⟩
    obtain ⟨w', hw', hv⟩ := (needed d hd).hasValue h.ordered ht declared hu ⟨.empty, v, hv⟩
    rw [h.ordered.declaration?_eq hd, Option.map_some, hw] at hw'
    obtain rfl : w = w' := by simpa using hw'
    exact absurd hv none

/-- A plan that doubles the length of the left interval and doubles this again. -/
def quadrupled : Plan :=
  ⟨[("x", Tree.lengthOfLeft), ("y", .binary .add (.refer "x") (.refer "x"))],
    .binary .add (.refer "y") (.refer "y")⟩

theorem resolved_quadrupled : quadrupled.Resolved where
  ordered.apart := by decide
  ordered.earlier i d hi cs hn := by
    match i with
    | 0 =>
      obtain rfl : ("x", Tree.lengthOfLeft) = d := Option.some.inj hi
      simp [Tree.lengthOfLeft, Tree.mem_subtrees_node] at hn
    | 1 =>
      obtain rfl : ("y", Tree.binary .add (.refer "x") (.refer "x")) = d := Option.some.inj hi
      exact ⟨0, Nat.zero_lt_one, ("x", Tree.lengthOfLeft), rfl, by
        simpa [Tree.binary, Tree.refer, Tree.ofText, Tree.mem_subtrees_node] using hn⟩
    | i + 2 => cases hi
  declared cs hn := by
    refine ⟨("y", .binary .add (.refer "x") (.refer "x")), by simp [quadrupled], ?_⟩
    simpa [quadrupled, Tree.binary, Tree.refer, Tree.ofText, Tree.mem_subtrees_node] using hn

theorem inlinable_quadrupled : ∀ t ∈ quadrupled.trees, t.accepted = true ∧ t.Inlinable := by
  have accepted : ∀ t ∈ quadrupled.trees, t.accepted = true := by decide
  refine fun t ht => ⟨accepted t ht, ?_⟩
  revert t
  simp [trees, quadrupled, Tree.binary, Tree.refer, Tree.lengthOfLeft, Tree.ofText,
    Tree.inlinable_node, Tree.inlinable_literal]

/-- The root needs both declarations, the first one through the second. -/
theorem needs_quadrupled : ∀ d ∈ quadrupled.declarations, quadrupled.Needs d.1 := by
  have y : quadrupled.Needs "y" :=
    .root (Tree.mem_subtrees_child (a := .binary .add) List.mem_cons_self)
  have x : quadrupled.Needs "x" :=
    .body (d := ("y", .binary .add (.refer "x") (.refer "x"))) (by simp [quadrupled]) y
      (Tree.mem_subtrees_child (a := .binary .add) List.mem_cons_self)
  intro d hd
  rcases List.mem_cons.1 hd with rfl | hd
  · exact x
  · rwa [List.mem_singleton.1 hd]

theorem eval_expand_quadrupled : quadrupled.Resolved ∧
    (∀ t ∈ quadrupled.trees, t.accepted = true ∧ t.Inlinable) ∧
    quadrupled.eval lengthThree = .ok (.scalar (.int 12)) ∧
    ∃ u, quadrupled.expand quadrupled.root = some u ∧
      ∀ d, quadrupled.eval lengthThree = .ok d ↔ u.eval lengthThree = .ok d := by
  obtain ⟨u, hu, forth, back⟩ := eval_expand resolved_quadrupled inlinable_quadrupled lengthThree
  exact ⟨resolved_quadrupled, inlinable_quadrupled, rfl, u, hu,
    fun d => ⟨forth d, back needs_quadrupled d⟩⟩

end Plan

end SpanJoin
