import Mathlib.Data.List.Induction
import SpanJoin.Proofs.Eval.Simulation

/-!
# What an evaluation binds

There are no scopes, so what a tree binds stays bound for everything evaluated after it. This module
says how far that goes. An evaluation ends in the environment that it started from with some names
bound on top (`Environment.bindAll`), all of them names that the tree declares, and what it binds to
them depends on nothing but the names that the tree reads (`exists_made`). If it does not fail then
every declaration in the tree was reached (`get?_ne_none_of_declares`). `evalIn_binds_declared` puts
this together.
-/

namespace SpanJoin

namespace Environment

/-- The environment with the bindings made one after the other. -/
def bindAll (env : Environment) (made : List (String × Datum)) : Environment :=
  made.foldl (fun env b => env.bind b.1 b.2) env

theorem bindAll_concat (env : Environment) (made : List (String × Datum)) (b : String × Datum) :
    env.bindAll (made ++ [b]) = (env.bindAll made).bind b.1 b.2 := by
  rw [bindAll, List.foldl_append]
  rfl

/-- A name has the datum that was bound to it last, or the one that it had. -/
theorem get?_bindAll (env : Environment) (made : List (String × Datum)) (name : String) :
    (env.bindAll made).get? name = (made.reverse.lookup name).or (env.get? name) := by
  induction made using List.reverseRecOn with
  | nil => rfl
  | append_singleton made b ih =>
    rw [bindAll_concat, get?_bind, List.reverse_concat, List.lookup_cons, ih]
    by_cases h : name = b.1
    · rw [if_pos h, beq_iff_eq.2 h]
      rfl
    · rw [if_neg h, beq_eq_false_iff_ne.2 h]

/-- What is bound stays bound. -/
def Keeps (env env' : Environment) : Prop := ∀ name, env.get? name ≠ none → env'.get? name ≠ none

theorem Keeps.trans {env env' env'' : Environment} (h : env.Keeps env') (h' : env'.Keeps env'') :
    env.Keeps env'' := fun name hn => h' name (h name hn)

theorem keeps_bindAll (env : Environment) (made : List (String × Datum)) :
    env.Keeps (env.bindAll made) := by
  intro name hn
  rw [get?_bindAll]
  simp [hn]

theorem keeps_bind (env : Environment) (name : String) (d : Datum) :
    env.Keeps (env.bind name d) := env.keeps_bindAll [(name, d)]

end Environment

namespace Tree

/-- Some node of the tree declares the name. -/
def Declares (t : Tree) (name : String) : Prop := ∃ value, declare name value ∈ t.subtrees

theorem declares_node {a : Action} {cs : List Tree} {name : String}
    (h : (node a cs).Declares name) :
    (∃ value, node a cs = declare name value) ∨ ∃ c ∈ cs, c.Declares name := by
  obtain ⟨value, h⟩ := h
  rcases mem_subtrees_node.1 h with h | ⟨c, hc, h⟩
  · exact .inl ⟨value, h.symm⟩
  · exact .inr ⟨c, hc, value, h⟩

theorem not_declares_literal (l : Literal) (name : String) : ¬ (literal l).Declares name := by
  rintro ⟨value, h⟩
  cases mem_subtrees_literal.1 h

variable {c : Context} {env env' : Environment}

/-- From environments that agree on the names that the tree reads, an evaluation ends in the same
datum or fault, and it makes the same bindings, of names that the tree declares. -/
theorem exists_made {t : Tree} (ht : t.accepted = true) (c : Context) (env env' : Environment)
    (agree : ∀ name, refer name ∈ t.subtrees → env.get? name = env'.get? name) :
    ∃ made, (∀ b ∈ made, t.Declares b.1) ∧ (t.evalIn c env).1 = (t.evalIn c env').1 ∧
      (t.evalIn c env).2 = env.bindAll made ∧ (t.evalIn c env').2 = env'.bindAll made := by
  have alike : Simulates c c (fun e e' => ∃ made, (∀ b ∈ made, t.Declares b.1) ∧
      e = env.bindAll made ∧ e' = env'.bindAll made) t t := by
    refine simulates_self fun a cs hn => ?_
    have hna := accepted_of_mem_subtrees ht hn
    refine ⟨rfl, rfl, rfl, fun _ _ _ => rfl, fun _ _ _ => rfl, ?_, ?_⟩
    · rintro rfl name hname e e' ⟨made, -, rfl, rfl⟩
      obtain ⟨s, rfl⟩ := text_child rfl hna
      obtain rfl : s = name := Except.ok.inj hname
      rw [Environment.get?_bindAll, Environment.get?_bindAll, agree s hn]
    · rintro rfl name hname d e e' ⟨made, declared, rfl, rfl⟩
      obtain ⟨s, v, rfl⟩ := declare_children hna
      obtain rfl : s = name := Except.ok.inj hname
      refine ⟨made ++ [(s, d)], fun b hb => ?_, (env.bindAll_concat made (s, d)).symm,
        (env'.bindAll_concat made (s, d)).symm⟩
      rcases List.mem_append.1 hb with hb | hb
      · exact declared b hb
      · rw [List.mem_singleton.1 hb]
        exact ⟨v, hn⟩
  obtain ⟨same, made, declared, h, h'⟩ := alike env env' ⟨[], by simp, rfl, rfl⟩
  exact ⟨made, declared, same, h, h'⟩

/-! ## Declarations that were reached -/

theorem keeps_evalIn {t : Tree} (ht : t.accepted = true) (c : Context) (env : Environment) :
    env.Keeps (t.evalIn c env).2 := by
  obtain ⟨made, -, -, h, -⟩ := exists_made ht c env env fun _ _ => rfl
  rw [h]
  exact env.keeps_bindAll made

/-- The tree was evaluated to a datum, and what was bound then is bound in the environment. -/
def Reached (c : Context) (t : Tree) (env : Environment) : Prop :=
  ∃ start d, (t.evalIn c start).1 = .ok d ∧ (t.evalIn c start).2.Keeps env

theorem Reached.mono {t : Tree} (h : t.Reached c env) (hk : env.Keeps env') :
    t.Reached c env' := by
  obtain ⟨start, d, hd, keeps⟩ := h
  exact ⟨start, d, hd, keeps.trans hk⟩

theorem reached_literal (c : Context) (l : Literal) (env : Environment) :
    (literal l).Reached c env :=
  ⟨env, l.datum, rfl, fun _ h => h⟩

@[simp] theorem snd_andThen {α β : Type} (r : Evaluated α) (f : α → Outcome TreeError β) :
    (r.andThen f).2 = r.2 := by
  obtain ⟨o, env⟩ := r
  cases o <;> rfl

theorem Succeed.reached {ts : List Tree} (h : Succeed c ts env env')
    (ht : ∀ t ∈ ts, t.accepted = true) : env.Keeps env' ∧ ∀ t ∈ ts, t.Reached c env' := by
  induction h with
  | nil => exact ⟨fun _ hn => hn, by simp⟩
  | @cons t ts d env env₁ env' first _ ih =>
    obtain ⟨accepted, ht⟩ := List.forall_mem_cons.1 ht
    have keeps := keeps_evalIn accepted c env
    rw [first] at keeps
    obtain ⟨rest, each⟩ := ih ht
    refine ⟨keeps.trans rest, List.forall_mem_cons.2 ⟨⟨env, d, ?_, ?_⟩, each⟩⟩
    · rw [first]
    · rwa [first]

theorem keeps_bindResult (cs : List Tree) (args : List Datum) (env : Environment) :
    env.Keeps (bindResult cs args env).2 := by
  unfold bindResult
  split
  · exact fun _ hn => hn
  · split
    · exact fun _ hn => hn
    · exact env.keeps_bind _ _

/-- Where an accepted node has a datum, all of its children were reached. -/
theorem reached_child {a : Action} {cs : List Tree} (ht : (node a cs).accepted = true) {d : Datum}
    (h : ((node a cs).evalIn c env).1 = .ok d) :
    ∀ s ∈ cs, s.Reached c ((node a cs).evalIn c env).2 := by
  have each := (accepted_node.1 ht).2
  cases a with
  | leftColumn | rightColumn | refer =>
    obtain ⟨name, rfl⟩ := text_child rfl ht
    intro s hs
    rw [List.mem_singleton.1 hs]
    exact reached_literal c _ _
  | lengthOfLeft | lengthOfRight | lengthOfOverlap | fractionOfLeft | fractionOfRight =>
    rw [no_children rfl ht]
    simp
  | hstack =>
    rw [evalIn] at h ⊢
    obtain ⟨ps, hps⟩ := Evaluated.ok_of_andThen h
    rw [snd_andThen]
    exact ((succeed_of_partsEach (Prod.ext hps rfl)).reached each).2
  | declare =>
    intro s hs
    rw [evalIn] at h ⊢
    cases he : evalEach c cs env with
    | mk o env₁ =>
      rw [he] at h
      cases o with
      | error e => cases h
      | ok args =>
        have reached := ((succeed_of_evalEach he).reached each).2 s hs
        exact reached.mono (keeps_bindResult cs args env₁)
  | binary | unary | sum | filter | sliceLabel | sliceInteger | castTo | indexOfMax | atIndex
  | nameAs | groupBy | execute =>
    rw [evalIn] at h ⊢
    obtain ⟨ds, hds⟩ := Evaluated.ok_of_andThen h
    rw [snd_andThen]
    exact ((succeed_of_evalEach (Prod.ext hds rfl)).reached each).2

/-- Where an accepted tree has a datum, all names that it declares are bound. -/
theorem get?_ne_none_of_declares {t : Tree} (ht : t.accepted = true) {d : Datum}
    (h : (t.evalIn c env).1 = .ok d) {name : String} (hn : t.Declares name) :
    (t.evalIn c env).2.get? name ≠ none := by
  induction t using Tree.induction generalizing env d with
  | literal l => exact absurd hn (not_declares_literal l name)
  | node a cs ih =>
    rcases declares_node hn with ⟨value, e⟩ | ⟨s, hs, hn⟩
    · change node a cs = declare name value at e
      rw [e, evalIn_declare] at h ⊢
      revert h
      rcases value.evalIn c env with ⟨_ | v, env₁⟩
      · nofun
      · intro _
        rw [Environment.get?_bind, if_pos rfl]
        exact Option.some_ne_none v
    · obtain ⟨start, d, hd, keeps⟩ := reached_child ht h s hs
      exact keeps name (ih s hs ((accepted_node.1 ht).2 s hs) hd hn)

/-! ## The whole effect -/

/-- An evaluation of the tree from `env` that ends in `after` binds no names but those that the tree
declares, and unbinds none. -/
structure Touches (t : Tree) (env after : Environment) : Prop where
  kept : ∀ name, ¬ t.Declares name → after.get? name = env.get? name
  bound : env.Keeps after
  fresh : ∀ name, env.get? name = none → after.get? name ≠ none → t.Declares name

theorem touches_evalIn {t : Tree} (ht : t.accepted = true) (c : Context) (env : Environment) :
    t.Touches env (t.evalIn c env).2 := by
  obtain ⟨made, declared, -, h, -⟩ := exists_made ht c env env fun _ _ => rfl
  have kept : ∀ name, ¬ t.Declares name → (t.evalIn c env).2.get? name = env.get? name := by
    intro name hn
    have none : made.reverse.lookup name = none := by
      rw [List.lookup_eq_none_iff]
      intro b hb
      rw [bne_iff_ne]
      rintro rfl
      exact hn (declared b (List.mem_reverse.1 hb))
    rw [h, Environment.get?_bindAll, none, Option.none_or]
  refine ⟨kept, keeps_evalIn ht c env, fun name unbound bound => ?_⟩
  by_contra hn
  exact bound ((kept name hn).trans unbound)

/-- **An evaluation touches the environment only where the tree says so.** From two environments
that agree on the names that an accepted tree reads, it ends in the same datum or the same fault,
and after the same bindings in the same order. From any environment, it leaves the names that the
tree does not declare as they were, unbinds none and binds no others; and where it ends in a datum,
every name that the tree declares is bound. -/
theorem evalIn_binds_declared {t : Tree} (ht : t.accepted = true) (c : Context)
    {env env' : Environment}
    (agree : ∀ name, refer name ∈ t.subtrees → env.get? name = env'.get? name) :
    (∃ made, (∀ b ∈ made, t.Declares b.1) ∧ (t.evalIn c env).1 = (t.evalIn c env').1 ∧
      (t.evalIn c env).2 = env.bindAll made ∧ (t.evalIn c env').2 = env'.bindAll made) ∧
    ∀ start, t.Touches start (t.evalIn c start).2 ∧
      ∀ d, (t.evalIn c start).1 = .ok d →
        ∀ name, t.Declares name → (t.evalIn c start).2.get? name ≠ none :=
  ⟨exists_made ht c env env' agree, fun start =>
    ⟨touches_evalIn ht c start, fun _ hd _ hn => get?_ne_none_of_declares ht hd hn⟩⟩

/-- A sum whose first operand declares a name from an outer one, and whose second operand declares
that name again from both. -/
def rebound : Tree :=
  binary .add
    (.node .execute [declare "x" (binary .mul (refer "y") (literal (.int 2))), refer "x"])
    (.node .execute [declare "x" (binary .add (refer "x") (refer "y")), refer "x"])

/-- No rows and no lengths. -/
def blank : Context := ⟨⟨⟨[], []⟩, 0⟩, ⟨[], []⟩, .null, .ofCells [], .ofCells []⟩

/-- The outer name, bound to 5. -/
def outer : Environment := Environment.empty.bind "y" (.scalar (.int 5))

/-- The same beside another name. -/
def outerAndOther : Environment := outer.bind "z" (.scalar .null)

theorem evalIn_binds_declared_rebound : rebound.accepted = true ∧
    (∀ name, refer name ∈ rebound.subtrees → outer.get? name = outerAndOther.get? name) ∧
    (∃ made, (∀ b ∈ made, rebound.Declares b.1) ∧
      (rebound.evalIn blank outer).1 = (rebound.evalIn blank outerAndOther).1 ∧
      (rebound.evalIn blank outer).2 = outer.bindAll made ∧
      (rebound.evalIn blank outerAndOther).2 = outerAndOther.bindAll made) ∧
    rebound.Touches outerAndOther (rebound.evalIn blank outerAndOther).2 ∧
    (rebound.evalIn blank outerAndOther).1 = .ok (.scalar (.int 25)) ∧
    (rebound.evalIn blank outerAndOther).2.get? "x" ≠ none := by
  have accepted : rebound.accepted = true := by decide
  have agree : ∀ name, refer name ∈ rebound.subtrees →
      outer.get? name = outerAndOther.get? name := by
    intro name hn
    have other : name ≠ "z" := by
      rintro rfl
      exact absurd hn (by decide)
    rw [outerAndOther, Environment.get?_bind, if_neg other]
  have declares : rebound.Declares "x" :=
    ⟨binary .mul (refer "y") (literal (.int 2)), by decide⟩
  obtain ⟨same, each⟩ := evalIn_binds_declared accepted blank agree
  obtain ⟨touches, bound⟩ := each outerAndOther
  exact ⟨accepted, agree, same, touches, rfl, bound _ rfl "x" declares⟩

end Tree

end SpanJoin
