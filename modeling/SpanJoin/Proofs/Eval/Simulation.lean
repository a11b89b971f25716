import SpanJoin.Eval.Basic
import SpanJoin.Proofs.Collection.Pairwise
import SpanJoin.Proofs.Tree.Accepted

/-!
# Simulation of one evaluation by another

`Tree.Simulates c c' E t u` says that evaluating `t` in the context `c` and `u` in the context `c'`
from related environments ends in the same datum or fault, and again in related environments. A node
simulates another one of the same action if its children do and if it gets the same answers to what
it reads by name (`Simulates.node`, `Simulates.hstack`). A tree that makes and reads no bindings
therefore has the same value in all environments (`evalIn_of_usesBindings`), and it has one if a
tree of which it is a part has one (`hasValue_of_mem_subtrees`).
-/

namespace SpanJoin

/-- Two evaluations end in the same answer or fault, and in related environments. -/
def Evaluated.Alike {α : Type} (E : Environment → Environment → Prop) (r r' : Evaluated α) : Prop :=
  r.1 = r'.1 ∧ E r.2 r'.2

theorem Evaluated.Alike.andThen {α β : Type} {E : Environment → Environment → Prop}
    {r r' : Evaluated α} (h : r.Alike E r') (f : α → Outcome TreeError β) :
    (r.andThen f).Alike E (r'.andThen f) := by
  obtain ⟨o, env⟩ := r
  obtain ⟨o', env'⟩ := r'
  obtain ⟨rfl, he⟩ := h
  cases o with
  | error e => exact ⟨rfl, he⟩
  | ok a => exact ⟨rfl, he⟩

theorem Evaluated.andThen_eq_ok {α β : Type} {r : Evaluated α} {f : α → Outcome TreeError β}
    {b : β} : (r.andThen f).1 = .ok b ↔ ∃ a, r.1 = .ok a ∧ f a = .ok b := by
  obtain ⟨o, env⟩ := r
  cases o <;> simp [andThen]

theorem Evaluated.ok_of_andThen {α β : Type} {r : Evaluated α} {f : α → Outcome TreeError β} {b : β}
    (h : (r.andThen f).1 = .ok b) : ∃ a, r.1 = .ok a := by
  obtain ⟨a, ha, -⟩ := andThen_eq_ok.1 h
  exact ⟨a, ha⟩

/-- Going on from an evaluation gives an answer if the evaluation does, in the same environment. -/
theorem Evaluated.andThen_eq_iff {α β : Type} {r : Evaluated α} {f : α → Outcome TreeError β}
    {b : β} {env : Environment} :
    r.andThen f = (.ok b, env) ↔ ∃ a, r = (.ok a, env) ∧ f a = .ok b := by
  obtain ⟨e | a, env₁⟩ := r
  · simp [andThen]
  · simp [andThen, and_comm]

/-- The position of the child whose text an action reads. -/
def Action.textPosition? : Action → Option Nat
  | leftColumn | rightColumn | refer | declare => some 0
  | castTo => some 1
  | _ => none

namespace Tree

variable {c c' : Context} {E : Environment → Environment → Prop}

/-- The trees evaluate alike in related environments. -/
def Simulates (c c' : Context) (E : Environment → Environment → Prop) (t u : Tree) : Prop :=
  ∀ env env', E env env' → (t.evalIn c env).Alike E (u.evalIn c' env')

/-- A node of the action and the children gets the same answers in the two contexts and in related
environments, and a name that it binds keeps these related. -/
structure Agrees (c c' : Context) (E : Environment → Environment → Prop) (a : Action)
    (cs : List Tree) : Prop where
  lengthOfLeft : c.lengthOfLeft = c'.lengthOfLeft
  lengthOfRight : c.lengthOfRight = c'.lengthOfRight
  lengthOfOverlap : c.lengthOfOverlap = c'.lengthOfOverlap
  left : a = .leftColumn → ∀ name, textAt a cs 0 = .ok name → c.left.get name = c'.left.get name
  right : a = .rightColumn →
    ∀ name, textAt a cs 0 = .ok name → c.right.series name = c'.right.series name
  refer : a = .refer → ∀ name, textAt a cs 0 = .ok name →
    ∀ env env', E env env' → env.get? name = env'.get? name
  declare : a = .declare → ∀ name, textAt a cs 0 = .ok name →
    ∀ d env env', E env env' → E (env.bind name d) (env'.bind name d)

/-! ## Lists of trees -/

theorem textAt_congr {cs ds : List Tree} (h : List.Forall₂ (fun c d => c.text? = d.text?) cs ds)
    (a : Action) (i : Nat) : textAt a cs i = textAt a ds i := by
  have : cs[i]?.bind text? = ds[i]?.bind text? := by
    induction h generalizing i with
    | nil => rfl
    | cons h _ ih =>
      cases i with
      | zero => exact h
      | succ i => exact ih i
  rw [textAt, textAt, this]

/-- Trees have values one after the other, each in the environment that the one before left. -/
theorem evalEach_cons_eq_iff {t : Tree} {ts : List Tree} {env env' : Environment}
    {ds : List Datum} : evalEach c (t :: ts) env = (.ok ds, env') ↔
      ∃ d env₁ es, t.evalIn c env = (.ok d, env₁) ∧ evalEach c ts env₁ = (.ok es, env') ∧
        d :: es = ds := by
  rw [evalEach]
  rcases t.evalIn c env with ⟨e | d, env₁⟩
  · simp
  · simp [Evaluated.andThen_eq_iff]

theorem evalEach_cons_eq_ok {t : Tree} {ts : List Tree} {env : Environment} {ds : List Datum} :
    (evalEach c (t :: ts) env).1 = .ok ds ↔ ∃ d es, (t.evalIn c env).1 = .ok d ∧
      (evalEach c ts (t.evalIn c env).2).1 = .ok es ∧ ds = d :: es := by
  constructor
  · intro h
    obtain ⟨d, env₁, es, hd, hes, rfl⟩ := evalEach_cons_eq_iff.1 (Prod.ext h rfl)
    rw [hd]
    exact ⟨d, es, rfl, congrArg Prod.fst hes, rfl⟩
  · rintro ⟨d, es, hd, hes, rfl⟩
    have each := evalEach_cons_eq_iff.2 ⟨d, _, es, Prod.ext hd rfl, Prod.ext hes rfl, rfl⟩
    exact congrArg Prod.fst each

/-- A node with one argument has a value if its child does and the function has one of it. -/
theorem andThen_oneArgument_eq_iff {a : Action} {t : Tree} {f : Datum → Outcome TreeError Datum}
    {env env' : Environment} {r : Datum} :
    (evalEach c [t] env).andThen (oneArgument a f) = (.ok r, env') ↔
      ∃ d, t.evalIn c env = (.ok d, env') ∧ f d = .ok r := by
  rw [Evaluated.andThen_eq_iff]
  constructor
  · rintro ⟨ds, each, h⟩
    obtain ⟨d, env₁, es, hd, hes, rfl⟩ := evalEach_cons_eq_iff.1 each
    obtain ⟨⟨⟩, rfl⟩ := Prod.mk.inj hes
    exact ⟨d, hd, h⟩
  · rintro ⟨d, hd, h⟩
    exact ⟨[d], evalEach_cons_eq_iff.2 ⟨d, env', [], hd, rfl, rfl⟩, h⟩

/-- A node with two arguments evaluates its children one after the other. -/
theorem andThen_twoArguments_eq_iff {a : Action} {t u : Tree}
    {f : Datum → Datum → Outcome TreeError Datum} {env env' : Environment} {r : Datum} :
    (evalEach c [t, u] env).andThen (twoArguments a f) = (.ok r, env') ↔ ∃ d env₁ e,
      t.evalIn c env = (.ok d, env₁) ∧ u.evalIn c env₁ = (.ok e, env') ∧ f d e = .ok r := by
  rw [Evaluated.andThen_eq_iff]
  constructor
  · rintro ⟨ds, each, h⟩
    obtain ⟨d, env₁, es, hd, hes, rfl⟩ := evalEach_cons_eq_iff.1 each
    obtain ⟨e, env₂, fs, he, hfs, rfl⟩ := evalEach_cons_eq_iff.1 hes
    obtain ⟨⟨⟩, rfl⟩ := Prod.mk.inj hfs
    exact ⟨d, env₁, e, hd, he, h⟩
  · rintro ⟨d, env₁, e, hd, he, h⟩
    have rest : evalEach c [u] env₁ = (.ok [e], env') :=
      evalEach_cons_eq_iff.2 ⟨e, env', [], he, rfl, rfl⟩
    exact ⟨[d, e], evalEach_cons_eq_iff.2 ⟨d, env₁, [e], hd, rest, rfl⟩, h⟩

/-- The columns of the trees are put together in the same way. -/
theorem partsEach_cons_eq_iff {t : Tree} {ts : List Tree} {env env' : Environment}
    {ps : List Part} : partsEach c (t :: ts) env = (.ok ps, env') ↔
      ∃ d env₁ qs rs, t.evalIn c env = (.ok d, env₁) ∧ t.parts d = .ok qs ∧
        partsEach c ts env₁ = (.ok rs, env') ∧ qs ++ rs = ps := by
  rw [partsEach]
  rcases t.evalIn c env with ⟨e | d, env₁⟩
  · simp
  · rcases h : t.parts d with e | qs
    · simp [h]
    · simp [h, Evaluated.andThen_eq_iff]

theorem evalEach_alike {ts us : List Tree} (h : List.Forall₂ (Simulates c c' E) ts us)
    {env env' : Environment} (he : E env env') :
    (evalEach c ts env).Alike E (evalEach c' us env') := by
  induction h generalizing env env' with
  | nil => exact ⟨rfl, he⟩
  | @cons t u ts us ht _ ih =>
    obtain ⟨h₁, h₂⟩ := ht env env' he
    rw [evalEach, evalEach]
    revert h₁ h₂
    rcases t.evalIn c env with ⟨o, env₁⟩
    rcases u.evalIn c' env' with ⟨o', env₁'⟩
    rintro rfl h₂
    cases o with
    | error e => exact ⟨rfl, h₂⟩
    | ok d => exact (ih h₂).andThen _

theorem parts_congr {t u : Tree} (h : t.outputName = u.outputName) (d : Datum) :
    t.parts d = u.parts d := by
  cases d <;> simp only [parts, h]

theorem partsEach_alike {ts us : List Tree}
    (h : List.Forall₂ (fun t u => Simulates c c' E t u ∧ t.outputName = u.outputName) ts us)
    {env env' : Environment} (he : E env env') :
    (partsEach c ts env).Alike E (partsEach c' us env') := by
  induction h generalizing env env' with
  | nil => exact ⟨rfl, he⟩
  | @cons t u ts us ht _ ih =>
    obtain ⟨h₁, h₂⟩ := ht.1 env env' he
    rw [partsEach, partsEach]
    revert h₁ h₂
    rcases t.evalIn c env with ⟨o, env₁⟩
    rcases u.evalIn c' env' with ⟨o', env₁'⟩
    rintro rfl h₂
    cases o with
    | error e => exact ⟨rfl, h₂⟩
    | ok d =>
      simp only [parts_congr ht.2]
      cases u.parts d with
      | error e => exact ⟨rfl, h₂⟩
      | ok ps => exact (ih h₂).andThen _

/-! ## Nodes -/

theorem bindResult_alike {cs ds : List Tree} (reads : Agrees c c' E .declare cs)
    (same : textAt .declare cs 0 = textAt .declare ds 0) (args : List Datum)
    {env env' : Environment} (he : E env env') :
    (bindResult cs args env).Alike E (bindResult ds args env') := by
  unfold bindResult
  cases twoArguments .declare (fun _ d => .ok d) args with
  | error e => exact ⟨rfl, he⟩
  | ok d =>
    simp only [← same]
    cases h : textAt .declare cs 0 with
    | error e => exact ⟨rfl, he⟩
    | ok name => exact ⟨rfl, reads.declare rfl name h d env env' he⟩

/-- Nodes simulate one another if their children do, and if they read alike and from the same
texts. -/
theorem Simulates.node_of_textAt {a : Action} {cs ds : List Tree} (ha : a ≠ .hstack)
    (h : List.Forall₂ (Simulates c c' E) cs ds)
    (text : ∀ i, a.textPosition? = some i → textAt a cs i = textAt a ds i)
    (reads : Agrees c c' E a cs) : Simulates c c' E (.node a cs) (.node a ds) := by
  intro env env' he
  have each := evalEach_alike h he
  cases a with
  | hstack => exact absurd rfl ha
  | leftColumn =>
    refine ⟨?_, he⟩
    simp only [evalIn, readLeft, ← text 0 rfl]
    cases hn : textAt .leftColumn cs 0 with
    | error e => rfl
    | ok name => simp only [Outcome.ofExcept, Outcome.ok_bind, reads.left rfl name hn]
  | rightColumn =>
    refine ⟨?_, he⟩
    simp only [evalIn, readRight, ← text 0 rfl]
    cases hn : textAt .rightColumn cs 0 with
    | error e => rfl
    | ok name => simp only [Outcome.ok_bind, reads.right rfl name hn]
  | refer =>
    refine ⟨?_, he⟩
    simp only [evalIn, readName, ← text 0 rfl]
    cases hn : textAt .refer cs 0 with
    | error e => rfl
    | ok name => simp only [Outcome.ok_bind, reads.refer rfl name hn env env' he]
  | declare =>
    obtain ⟨h₁, h₂⟩ := each
    rw [evalIn, evalIn]
    revert h₁ h₂
    rcases evalEach c cs env with ⟨o, env₁⟩
    rcases evalEach c' ds env' with ⟨o', env₁'⟩
    rintro rfl h₂
    cases o with
    | error e => exact ⟨rfl, h₂⟩
    | ok args => exact bindResult_alike reads (text 0 rfl) args h₂
  | castTo =>
    have cast : castResult cs = castResult ds := by
      unfold castResult
      simp only [text 1 rfl]
    rw [evalIn, evalIn, cast]
    exact each.andThen _
  | lengthOfLeft => exact ⟨by rw [evalIn, evalIn, reads.lengthOfLeft], he⟩
  | lengthOfRight => exact ⟨by rw [evalIn, evalIn, reads.lengthOfRight], he⟩
  | lengthOfOverlap => exact ⟨by rw [evalIn, evalIn, reads.lengthOfOverlap], he⟩
  | fractionOfLeft =>
    refine ⟨?_, he⟩
    rw [evalIn, evalIn, leftFraction, leftFraction, reads.lengthOfLeft, reads.lengthOfOverlap]
  | fractionOfRight =>
    refine ⟨?_, he⟩
    rw [evalIn, evalIn, rightFraction, rightFraction, reads.lengthOfRight, reads.lengthOfOverlap]
  | binary | unary | sum | filter | sliceLabel | sliceInteger | indexOfMax | atIndex | nameAs
  | groupBy | execute =>
    rw [evalIn, evalIn]
    exact each.andThen _

/-- Nodes whose children have the same texts simulate one another if these children do. -/
theorem Simulates.node {a : Action} {cs ds : List Tree} (ha : a ≠ .hstack)
    (h : List.Forall₂ (Simulates c c' E) cs ds)
    (texts : List.Forall₂ (fun c d => c.text? = d.text?) cs ds) (reads : Agrees c c' E a cs) :
    Simulates c c' E (.node a cs) (.node a ds) :=
  .node_of_textAt ha h (fun i _ => textAt_congr texts a i) reads

/-- Columns side by side simulate others of the same names. -/
theorem Simulates.hstack {cs ds : List Tree}
    (h : List.Forall₂ (fun t u => Simulates c c' E t u ∧ t.outputName = u.outputName) cs ds) :
    Simulates c c' E (.node .hstack cs) (.node .hstack ds) := by
  intro env env' he
  rw [evalIn, evalIn]
  exact (partsEach_alike h he).andThen _

/-- A name given to the result changes nothing else. -/
theorem evalIn_nameAs (t : Tree) (name : String) (env : Environment) :
    (nameAs t name).evalIn c env = t.evalIn c env := by
  simp only [nameAs, ofText, evalIn, evalEach]
  rcases t.evalIn c env with ⟨_ | d, env₁⟩ <;> rfl

theorem Simulates.nameAs {t u : Tree} (h : Simulates c c' E t u) (name : String) :
    Simulates c c' E t (nameAs u name) := by
  intro env env' he
  rw [evalIn_nameAs]
  exact h env env' he

/-- A tree whose nodes read alike simulates itself. -/
theorem simulates_self {t : Tree} (h : ∀ a cs, .node a cs ∈ t.subtrees → Agrees c c' E a cs) :
    Simulates c c' E t t := by
  induction t using Tree.induction with
  | literal l => exact fun env env' he => ⟨rfl, he⟩
  | node a cs ih =>
    have children : ∀ s ∈ cs, Simulates c c' E s s := fun s hs =>
      ih s hs fun b ds hd => h b ds (mem_subtrees_of_mem hs hd)
    by_cases ha : a = .hstack
    · subst ha
      exact .hstack (List.forall₂_same.2 fun s hs => ⟨children s hs, rfl⟩)
    · exact .node ha (List.forall₂_same.2 children) (List.forall₂_same.2 fun _ _ => rfl)
        (h a cs (mem_subtrees_self _))

/-- A declaration evaluates its value and binds it. -/
theorem evalIn_declare (name : String) (value : Tree) (env : Environment) :
    (declare name value).evalIn c env =
      match value.evalIn c env with
      | (.ok d, env) => (.ok (.scalar .null), env.bind name d)
      | (.error e, env) => (.error e, env) := by
  simp only [declare, ofText, evalIn, evalEach]
  rcases value.evalIn c env with ⟨_ | d, env⟩ <;> rfl

/-! ## Trees without bindings -/

/-- A tree that makes and reads no bindings has the same value in all environments, and it leaves
them as they are. -/
theorem evalIn_of_usesBindings {t : Tree} (h : t.usesBindings = false) (c : Context)
    (env env' : Environment) : t.evalIn c env = ((t.evalIn c env').1, env) := by
  have alike : Simulates c c (fun e e' => e = env ∧ e' = env') t t := by
    refine simulates_self fun a cs hn => ?_
    have ha := (usesBindings_node.1 (usesBindings_of_mem_subtrees h hn)).1
    exact ⟨rfl, rfl, rfl, fun _ _ _ => rfl, fun _ _ _ => rfl,
      fun e => absurd (e ▸ ha) (by simp [Action.usesBindings]),
      fun e => absurd (e ▸ ha) (by simp [Action.usesBindings])⟩
  obtain ⟨h₁, h₂, -⟩ := alike env env' ⟨rfl, rfl⟩
  exact Prod.ext h₁ h₂

/-! ## Values of subtrees -/

/-- Some evaluation of the tree ends in a datum. -/
def HasValue (c : Context) (t : Tree) : Prop := ∃ env d, (t.evalIn c env).1 = .ok d

theorem hasValue_literal (c : Context) (l : Literal) : HasValue c (literal l) :=
  ⟨.empty, l.datum, rfl⟩

/-- The trees have values from the first environment on, and leave the second one. -/
inductive Succeed (c : Context) : List Tree → Environment → Environment → Prop
  | nil (env : Environment) : Succeed c [] env env
  | cons {t : Tree} {ts : List Tree} {d : Datum} {env env₁ env' : Environment}
      (first : t.evalIn c env = (.ok d, env₁)) (rest : Succeed c ts env₁ env') :
      Succeed c (t :: ts) env env'

theorem succeed_of_evalEach {ts : List Tree} {env env' : Environment} {ds : List Datum}
    (h : evalEach c ts env = (.ok ds, env')) : Succeed c ts env env' := by
  induction ts generalizing env ds with
  | nil =>
    obtain rfl : env = env' := congrArg Prod.snd h
    exact .nil env
  | cons t ts ih =>
    obtain ⟨d, env₁, es, hd, hes, -⟩ := evalEach_cons_eq_iff.1 h
    exact .cons hd (ih hes)

theorem succeed_of_partsEach {ts : List Tree} {env env' : Environment} {ps : List Part}
    (h : partsEach c ts env = (.ok ps, env')) : Succeed c ts env env' := by
  induction ts generalizing env ps with
  | nil =>
    obtain rfl : env = env' := congrArg Prod.snd h
    exact .nil env
  | cons t ts ih =>
    obtain ⟨d, env₁, qs, rs, hd, -, hrs, -⟩ := partsEach_cons_eq_iff.1 h
    exact .cons hd (ih hrs)

theorem Succeed.hasValue {ts : List Tree} {env env' : Environment} (h : Succeed c ts env env') :
    ∀ t ∈ ts, HasValue c t := by
  induction h with
  | nil => simp
  | cons first _ ih => exact List.forall_mem_cons.2 ⟨⟨_, _, congrArg Prod.fst first⟩, ih⟩

/-- Where a node has a value, its children have values one after the other, unless its action
evaluates none. -/
theorem exists_succeed {a : Action} {cs : List Tree} (hl : a.arity ≠ .fixed [])
    (ht : a.arity ≠ .fixed [.text]) {env : Environment} {d : Datum}
    (h : ((node a cs).evalIn c env).1 = .ok d) : ∃ env', Succeed c cs env env' := by
  cases a with
  | leftColumn | rightColumn | refer => exact absurd rfl ht
  | lengthOfLeft | lengthOfRight | lengthOfOverlap | fractionOfLeft | fractionOfRight =>
    exact absurd rfl hl
  | hstack =>
    rw [evalIn] at h
    obtain ⟨ps, hps⟩ := Evaluated.ok_of_andThen h
    exact ⟨_, succeed_of_partsEach (Prod.ext hps rfl)⟩
  | declare =>
    rw [evalIn] at h
    cases he : evalEach c cs env with
    | mk o env₁ =>
      rw [he] at h
      cases o with
      | error e => cases h
      | ok args => exact ⟨env₁, succeed_of_evalEach he⟩
  | binary | unary | sum | filter | sliceLabel | sliceInteger | castTo | indexOfMax | atIndex
  | nameAs | groupBy | execute =>
    rw [evalIn] at h
    obtain ⟨ds, hds⟩ := Evaluated.ok_of_andThen h
    exact ⟨_, succeed_of_evalEach (Prod.ext hds rfl)⟩

/-- Where a node has a value, so have the children, unless its action evaluates none. -/
theorem hasValue_operand {a : Action} {cs : List Tree} (hl : a.arity ≠ .fixed [])
    (ht : a.arity ≠ .fixed [.text]) (h : HasValue c (node a cs)) : ∀ s ∈ cs, HasValue c s := by
  obtain ⟨env, d, h⟩ := h
  obtain ⟨env', each⟩ := exists_succeed hl ht h
  exact each.hasValue

/-- Where an accepted node has a value, so have its children. -/
theorem hasValue_child {a : Action} {cs : List Tree} (ht : (node a cs).accepted = true)
    (h : HasValue c (node a cs)) : ∀ s ∈ cs, HasValue c s := by
  by_cases hl : a.arity = .fixed []
  · rw [no_children hl ht]
    simp
  · by_cases hr : a.arity = .fixed [.text]
    · obtain ⟨name, rfl⟩ := text_child hr ht
      intro s hs
      rw [List.mem_singleton.1 hs]
      exact hasValue_literal c _
    · exact hasValue_operand hl hr h

/-- Where an accepted tree has a value, so have its subtrees. -/
theorem hasValue_of_mem_subtrees {s t : Tree} (ht : t.accepted = true) (h : HasValue c t)
    (hs : s ∈ t.subtrees) : HasValue c s :=
  (forall_mem_subtrees (P := fun u => u.accepted = true ∧ HasValue c u)
    (fun _ _ hn u hu => ⟨(accepted_node.1 hn.1).2 u hu, hasValue_child hn.1 hn.2 u hu⟩)
    ⟨ht, h⟩ s hs).2

end Tree

end SpanJoin
