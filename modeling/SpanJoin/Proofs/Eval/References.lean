import SpanJoin.Proofs.Datum.Refusals
import SpanJoin.Proofs.Eval.Bindings

/-!
# Undeclared references

Names are bound in the order in which an evaluation gets done with the nodes of a tree: children
from left to right, and then their node (`Tree.postorder`). So a reference finds its name bound if
this is the case at the start, or if a declaration of the name comes before it in this order; the
value of a declaration does not see the name. `Tree.Dangling` says of a list of trees that a
reference in it has neither, and `Tree.Covered` that none is like that.

An evaluation that ends in a datum has come across all references, so none of them is dangling
(`not_dangling_of_evalIn`); and one that reports an undeclared name has come across a dangling
reference to this name (`dangling_of_evalIn`). `evalIn_undeclared` puts the two together.
-/

namespace SpanJoin

open Outcome

/-- The name has a binding. -/
def Environment.Binds (env : Environment) (name : String) : Prop := env.get? name ≠ none

namespace Tree

/-! ## The order of evaluation -/

mutual

/-- All subtrees, every node after its children. -/
def postorder : Tree → List Tree
  | .literal l => [.literal l]
  | .node a cs => postorderEach cs ++ [.node a cs]

/-- All subtrees of the trees in a list, tree after tree. -/
def postorderEach : List Tree → List Tree
  | [] => []
  | c :: cs => c.postorder ++ postorderEach cs

end

theorem mem_postorderEach {s : Tree} {cs : List Tree} :
    s ∈ postorderEach cs ↔ ∃ c ∈ cs, s ∈ c.postorder := by
  induction cs with
  | nil => simp [postorderEach]
  | cons c cs ih => simp [postorderEach, ih]

/-- The order lists the subtrees. -/
theorem mem_postorder {s t : Tree} : s ∈ t.postorder ↔ s ∈ t.subtrees := by
  induction t using Tree.induction with
  | literal l => rw [postorder, subtrees]
  | node a cs ih =>
    rw [postorder, List.mem_append, List.mem_singleton, mem_postorderEach, mem_subtrees_node,
      or_comm]
    exact or_congr_right (exists_congr fun c => and_congr_right fun hc => ih c hc)

/-! ## Dangling references -/

variable {bound bound' : String → Prop} {ss ts : List Tree} {name : String}

/-- A reference in the list is to a name that is not bound and that no tree before it declares. -/
def Dangling (bound : String → Prop) (ts : List Tree) (name : String) : Prop :=
  ∃ pre post, ts = pre ++ refer name :: post ∧ ¬ bound name ∧
    ∀ value, declare name value ∉ pre

/-- Every reference in the list is to a name that is bound or that a tree before it declares. -/
def Covered (bound : String → Prop) (ts : List Tree) : Prop :=
  ∀ pre post name, ts = pre ++ refer name :: post →
    bound name ∨ ∃ value, declare name value ∈ pre

theorem covered_iff : Covered bound ts ↔ ∀ name, ¬ Dangling bound ts name := by
  constructor
  · rintro covered name ⟨pre, post, h, unbound, undeclared⟩
    rcases covered pre post name h with hb | ⟨value, hv⟩
    · exact unbound hb
    · exact undeclared value hv
  · intro none pre post name h
    by_contra hn
    rw [not_or, not_exists] at hn
    exact none name ⟨pre, post, h, hn.1, hn.2⟩

theorem not_dangling_nil : ¬ Dangling bound [] name := by
  rintro ⟨pre, post, h, -⟩
  simp at h

/-- What the first trees declare is bound for the others. -/
theorem dangling_append : Dangling bound (ss ++ ts) name ↔ Dangling bound ss name ∨
    Dangling (fun n => bound n ∨ ∃ value, declare n value ∈ ss) ts name := by
  constructor
  · rintro ⟨pre, post, split, unbound, undeclared⟩
    -- the reference is behind the first trees, or among them unless `mid` is empty
    rcases List.append_eq_append_iff.1 split with ⟨mid, rfl, h⟩ | ⟨mid, rfl, h⟩
    · refine .inr ⟨mid, post, h, ?_, fun value hv => undeclared value (List.mem_append_right _ hv)⟩
      rintro (hb | ⟨value, hv⟩)
      · exact unbound hb
      · exact undeclared value (List.mem_append_left _ hv)
    · cases mid with
      | nil =>
        refine .inr ⟨[], post, h.symm, ?_, fun value hv => by cases hv⟩
        rintro (hb | ⟨value, hv⟩)
        · exact unbound hb
        · exact undeclared value (by simpa using hv)
      | cons r mid =>
        obtain ⟨rfl, rfl⟩ := List.cons.inj h
        exact .inl ⟨pre, mid, rfl, unbound, undeclared⟩
  · rintro (⟨pre, post, rfl, unbound, undeclared⟩ | ⟨pre, post, rfl, unbound, undeclared⟩)
    · exact ⟨pre, post ++ ts, by simp, unbound, undeclared⟩
    · rw [not_or, not_exists] at unbound
      refine ⟨ss ++ pre, post, by simp, unbound.1, fun value hv => ?_⟩
      rcases List.mem_append.1 hv with hv | hv
      · exact unbound.2 value hv
      · exact undeclared value hv

theorem dangling_congr (h : ∀ name, bound name ↔ bound' name) :
    Dangling bound ts name ↔ Dangling bound' ts name := by
  obtain rfl : bound = bound' := funext fun name => propext (h name)
  rfl

theorem dangling_singleton {t : Tree} :
    Dangling bound [t] name ↔ t = refer name ∧ ¬ bound name := by
  constructor
  · rintro ⟨pre, post, h, unbound, -⟩
    cases pre with
    | nil => exact ⟨(List.cons.inj h).1, unbound⟩
    | cons s pre => simp at h
  · rintro ⟨rfl, unbound⟩
    exact ⟨[], [], rfl, unbound, fun value hv => by cases hv⟩

theorem not_dangling_literal {l : Literal} : ¬ Dangling bound [literal l] name := by
  rw [dangling_singleton]
  rintro ⟨h, -⟩
  cases h

/-- A node adds no dangling reference to those of its children unless it is one. -/
theorem dangling_node {a : Action} {cs : List Tree} (ha : a ≠ .refer) :
    Dangling bound (node a cs).postorder name ↔ Dangling bound (postorderEach cs) name := by
  rw [postorder, dangling_append, dangling_singleton, or_iff_left]
  rintro ⟨h, -⟩
  exact ha (node.inj h).1

theorem dangling_refer {s : String} :
    Dangling bound (refer s).postorder name ↔ s = name ∧ ¬ bound name := by
  have order : (refer s).postorder = [literal (.text s)] ++ [refer s] := rfl
  rw [order, dangling_append, or_iff_right not_dangling_literal, dangling_singleton]
  constructor
  · rintro ⟨h, unbound⟩
    cases h
    exact ⟨rfl, fun hb => unbound (.inl hb)⟩
  · rintro ⟨rfl, unbound⟩
    refine ⟨rfl, ?_⟩
    rintro (hb | ⟨value, hv⟩)
    · exact unbound hb
    · cases List.mem_singleton.1 hv

/-! ## Evaluations that end in a datum -/

variable {c : Context} {env env' : Environment}

/-- After a tree has been evaluated to a datum, the names are bound that were bound before or that
the tree declares. -/
theorem binds_evalIn {t : Tree} (ht : t.accepted = true) {d : Datum}
    (h : t.evalIn c env = (.ok d, env')) (name : String) :
    env'.Binds name ↔ env.Binds name ∨ ∃ value, declare name value ∈ t.postorder := by
  have touches := touches_evalIn ht c env
  simp only [mem_postorder]
  rw [h] at touches
  constructor
  · intro hb
    by_cases hn : env.get? name = none
    · exact .inr (touches.fresh name hn hb)
    · exact .inl hn
  · rintro (hb | declares)
    · exact touches.bound name hb
    · have hb := get?_ne_none_of_declares ht (congrArg Prod.fst h) declares
      rwa [h] at hb

/-- Trees that have values one after the other have no dangling reference if none has one from where
it is evaluated. -/
theorem Succeed.not_dangling (h : Succeed c ts env env') (ht : ∀ t ∈ ts, t.accepted = true)
    (each : ∀ t ∈ ts, ∀ (env : Environment) (d : Datum), (t.evalIn c env).1 = .ok d →
      ¬ Dangling env.Binds t.postorder name) :
    ¬ Dangling env.Binds (postorderEach ts) name := by
  induction h with
  | nil => exact not_dangling_nil
  | @cons t ts d env env₁ env' first _ ih =>
    obtain ⟨accepted, ht⟩ := List.forall_mem_cons.1 ht
    obtain ⟨here, each⟩ := List.forall_mem_cons.1 each
    -- what the first tree declares is what its evaluation has bound for the others
    rw [postorderEach, dangling_append, ← dangling_congr (binds_evalIn accepted first)]
    rintro (h | h)
    · exact here env d (congrArg Prod.fst first) h
    · exact ih ht each h

/-- A reference has the datum bound to its name, or reports the name. -/
theorem evalIn_refer (name : String) (env : Environment) : ((refer name).evalIn c env).1 =
    match env.get? name with
    | some d => .ok d
    | none => .error (.error (.undeclared name)) := by
  have text : textAt .refer [ofText name] 0 = .ok name := rfl
  change Outcome.ofExcept (readName env [ofText name]) = _
  rw [readName, text, ok_bind]
  cases env.get? name <;> rfl

/-- A reference has a datum only if its name is bound. -/
theorem binds_of_evalIn_refer {s : String} {d : Datum} (h : ((refer s).evalIn c env).1 = .ok d) :
    env.Binds s := by
  intro unbound
  rw [evalIn_refer, unbound] at h
  cases h

/-- A reference reports its own name, and only if it is not bound. -/
theorem undeclared_of_evalIn_refer {s : String}
    (h : ((refer s).evalIn c env).1 = .error (.error (.undeclared name))) :
    s = name ∧ ¬ env.Binds name := by
  rw [evalIn_refer] at h
  cases hs : env.get? s with
  | none =>
    rw [hs] at h
    cases h
    exact ⟨rfl, fun hb => hb hs⟩
  | some d =>
    rw [hs] at h
    cases h

/-- Where an accepted tree has a datum, no reference in it is dangling. -/
theorem not_dangling_of_evalIn {t : Tree} (ht : t.accepted = true) {d : Datum}
    (h : (t.evalIn c env).1 = .ok d) : ¬ Dangling env.Binds t.postorder name := by
  induction t using Tree.induction generalizing env d with
  | literal l => exact not_dangling_literal
  | node a cs ih =>
    have accepted := (accepted_node.1 ht).2
    by_cases ha : a = .refer
    · subst ha
      obtain ⟨s, rfl⟩ := text_child rfl ht
      rintro dangling
      obtain ⟨rfl, unbound⟩ := dangling_refer.1 dangling
      exact unbound (binds_of_evalIn_refer h)
    rw [dangling_node ha]
    -- the children are evaluated one after the other, unless there are none or only a text
    by_cases leaf : a.arity = .fixed []
    · rw [no_children leaf ht]
      exact not_dangling_nil
    by_cases named : a.arity = .fixed [.text]
    · obtain ⟨s, rfl⟩ := text_child named ht
      exact not_dangling_literal
    obtain ⟨env', each⟩ := exists_succeed leaf named h
    exact each.not_dangling accepted fun s hs env d hd => ih s hs (accepted s hs) hd

/-! ## What nodes report

A node other than a reference reports an undeclared name only if one of its children does. -/

theorem sparesNames_textAt (a : Action) (cs : List Tree) (position : Nat) :
    Reports TreeError.SparesNames (textAt a cs position) := by
  unfold textAt
  split
  · exact reports_ok _
  · exact reports_error.2 nofun

theorem sparesNames_oneArgument {α : Type} {f : Datum → Outcome TreeError α}
    (h : ∀ d, Reports Fault.SparesNames (f d)) (a : Action) (args : List Datum) :
    Reports Fault.SparesNames (oneArgument a f args) := by
  unfold oneArgument
  split
  · exact h _
  · exact reports_error.2 nofun

theorem sparesNames_twoArguments {α : Type} {f : Datum → Datum → Outcome TreeError α}
    (h : ∀ d e, Reports Fault.SparesNames (f d e)) (a : Action) (args : List Datum) :
    Reports Fault.SparesNames (twoArguments a f args) := by
  unfold twoArguments
  split
  · exact h _ _
  · exact reports_error.2 nofun

theorem sparesNames_readLeft (c : Context) (cs : List Tree) :
    Reports Fault.SparesNames (readLeft c cs) :=
  (sparesNames_textAt _ _ _).sparesNames.bind fun _ =>
    (reports_mapError (fun e => Fault.sparesNames_error (TreeError.sparesNames_data e))
      Fault.sparesNames_outOfRange).bind fun _ => reports_ok _

theorem sparesNames_readRight (c : Context) (cs : List Tree) :
    Reports TreeError.SparesNames (readRight c cs) :=
  (sparesNames_textAt _ _ _).bind fun _ => (sparesNames_mapErrorData _).bind fun _ => reports_ok _

theorem sparesNames_castResult (cs : List Tree) (args : List Datum) :
    Reports Fault.SparesNames (castResult cs args) :=
  sparesNames_twoArguments (fun d _ => ((sparesNames_textAt _ _ _).bind fun _ =>
    (sparesNames_mapErrorData _).bind fun kind => d.sparesNames_cast kind).sparesNames) _ _

theorem sparesNames_bindResult (cs : List Tree) (args : List Datum) (env : Environment) :
    Reports Fault.SparesNames (bindResult cs args env).1 := by
  unfold bindResult
  split
  · next e he =>
    exact reports_error.2 (sparesNames_twoArguments (fun _ d => reports_ok d) _ _ e he)
  · split
    · next e he =>
      exact reports_error.2 (Fault.sparesNames_error (sparesNames_textAt _ _ _ e he))
    · exact reports_ok _

theorem sparesNames_outputName (t : Tree) : Reports Fault.SparesNames t.outputName := by
  fun_induction outputName t with
  | case1 | case10 | case11 | case14 => exact reports_ok _
  | case2 _ _ ih | case4 _ _ ih | case8 _ _ ih | case6 _ _ _ ih => exact ih
  | case3 | case5 | case7 | case9 => exact reports_error.2 Fault.sparesNames_outOfRange
  | case12 _ _ _ _ _ _ e he ih | case13 _ _ _ _ _ _ _ e he ih =>
    exact reports_error.2 (ih e he)
  | case15 _ _ _ _ _ _ _ _ _ e he _ ih => exact reports_error.2 (ih e he)
  | case16 =>
    refine reports_error.2 fun name h => ?_
    cases h

theorem sparesNames_parts (t : Tree) (d : Datum) : Reports Fault.SparesNames (t.parts d) := by
  have name := t.sparesNames_outputName
  unfold parts
  split
  · split
    · exact reports_ok _
    · exact reports_error.2 Fault.sparesNames_outOfRange
    · exact reports_ok _
    · next e _ he _ => exact reports_error.2 (name _ he)
  · exact (Part.sparesNames_ofTable _).sparesNames
  · exact reports_error.2 nofun

/-! ## Evaluations that report an undeclared name -/

/-- The trees have values one after the other up to one that reports an undeclared name. -/
inductive Stops (c : Context) (name : String) : List Tree → Environment → Prop
  | here {t : Tree} {ts : List Tree} {env : Environment}
      (first : (t.evalIn c env).1 = .error (.error (.undeclared name))) : Stops c name (t :: ts) env
  | later {t : Tree} {ts : List Tree} {d : Datum} {env env₁ : Environment}
      (first : t.evalIn c env = (.ok d, env₁)) (rest : Stops c name ts env₁) :
      Stops c name (t :: ts) env

/-- What is done with the value of an evaluation does not report the name, so the evaluation
does. -/
theorem undeclared_of_andThen {α β : Type} {r : Evaluated α} {f : α → Outcome TreeError β}
    (hf : ∀ a, Reports Fault.SparesNames (f a))
    (h : (r.andThen f).1 = .error (.error (.undeclared name))) :
    r.1 = .error (.error (.undeclared name)) := by
  obtain ⟨e | a, env⟩ := r
  · exact congrArg Except.error (Except.error.inj h)
  · exact absurd rfl (hf a _ h name)

theorem stops_of_evalEach (h : (evalEach c ts env).1 = .error (.error (.undeclared name))) :
    Stops c name ts env := by
  induction ts generalizing env with
  | nil => cases h
  | cons t ts ih =>
    rw [evalEach] at h
    rcases he : t.evalIn c env with ⟨e | d, env₁⟩
    · simp only [he] at h
      exact .here ((congrArg Prod.fst he).trans (congrArg Except.error (Except.error.inj h)))
    · simp only [he] at h
      exact .later he (ih (undeclared_of_andThen (fun _ => reports_ok _) h))

/-- A node that only computes with the values of its children has the name from one of them. -/
theorem stops_of_andThen {α : Type} {f : List Datum → Outcome TreeError α}
    (hf : ∀ args, Reports Fault.SparesNames (f args))
    (h : ((evalEach c ts env).andThen f).1 = .error (.error (.undeclared name))) :
    Stops c name ts env :=
  stops_of_evalEach (undeclared_of_andThen hf h)

theorem stops_of_partsEach (h : (partsEach c ts env).1 = .error (.error (.undeclared name))) :
    Stops c name ts env := by
  induction ts generalizing env with
  | nil => cases h
  | cons t ts ih =>
    rw [partsEach] at h
    rcases he : t.evalIn c env with ⟨e | d, env₁⟩
    · simp only [he] at h
      exact .here ((congrArg Prod.fst he).trans (congrArg Except.error (Except.error.inj h)))
    · simp only [he] at h
      rcases hp : t.parts d with e | ps
      · simp only [hp] at h
        exact absurd rfl (t.sparesNames_parts d _ (hp.trans h) name)
      · simp only [hp] at h
        exact .later he (ih (undeclared_of_andThen (fun _ => reports_ok _) h))

/-- A node other than a reference that reports an undeclared name has this from a child. -/
theorem stops_of_evalIn {a : Action} {cs : List Tree} (ha : a ≠ .refer)
    (h : ((node a cs).evalIn c env).1 = .error (.error (.undeclared name))) :
    Stops c name cs env := by
  have leaf {r : Outcome TreeError Datum} (hr : Reports Fault.SparesNames r) :
      r ≠ .error (.error (.undeclared name)) := fun e => hr _ e name rfl
  cases a with
  | refer => exact absurd rfl ha
  | leftColumn => exact absurd h (leaf (sparesNames_readLeft c cs))
  | rightColumn => exact absurd h (leaf (sparesNames_readRight c cs).sparesNames)
  | lengthOfLeft | lengthOfRight | lengthOfOverlap => cases h
  | fractionOfLeft | fractionOfRight =>
    exact absurd h (leaf (Datum.sparesNames_binary .div _ _).sparesNames)
  | hstack => exact stops_of_partsEach (undeclared_of_andThen Part.sparesNames_stack h)
  | declare =>
    rw [evalIn] at h
    rcases he : evalEach c cs env with ⟨e | args, env₁⟩
    · simp only [he] at h
      exact stops_of_evalEach
        ((congrArg Prod.fst he).trans (congrArg Except.error (Except.error.inj h)))
    · simp only [he] at h
      exact absurd h (leaf (sparesNames_bindResult cs args env₁))
  | castTo => exact stops_of_andThen (sparesNames_castResult cs) h
  | execute => exact stops_of_andThen (fun _ => reports_ok _) h
  | unary op =>
    exact stops_of_andThen
      (sparesNames_oneArgument (fun d => (d.sparesNames_unary op).sparesNames) _) h
  | sum => exact stops_of_andThen (sparesNames_oneArgument Datum.sparesNames_sum _) h
  | indexOfMax => exact stops_of_andThen (sparesNames_oneArgument Datum.sparesNames_indexOfMax _) h
  | binary op =>
    exact stops_of_andThen
      (sparesNames_twoArguments (fun d e => (d.sparesNames_binary op e).sparesNames) _) h
  | filter => exact stops_of_andThen (sparesNames_twoArguments Datum.sparesNames_filter _) h
  | sliceLabel | sliceInteger =>
    exact stops_of_andThen (sparesNames_twoArguments (Datum.sparesNames_slice _) _) h
  | atIndex => exact stops_of_andThen (sparesNames_twoArguments Datum.sparesNames_atIndex _) h
  | nameAs => exact stops_of_andThen (sparesNames_twoArguments (fun d _ => reports_ok d) _) h
  | groupBy =>
    exact stops_of_andThen
      (sparesNames_twoArguments (fun d k => (d.sparesNames_groupBy k).sparesNames) _) h

/-- If the tree at which they stop has a dangling reference from where it is evaluated, so have the
trees. -/
theorem Stops.dangling (h : Stops c name ts env) (ht : ∀ t ∈ ts, t.accepted = true)
    (each : ∀ t ∈ ts, ∀ env : Environment,
      (t.evalIn c env).1 = .error (.error (.undeclared name)) →
        Dangling env.Binds t.postorder name) :
    Dangling env.Binds (postorderEach ts) name := by
  induction h with
  | here first =>
    rw [postorderEach, dangling_append]
    exact .inl (each _ List.mem_cons_self _ first)
  | later first _ ih =>
    obtain ⟨accepted, ht⟩ := List.forall_mem_cons.1 ht
    rw [postorderEach, dangling_append, ← dangling_congr (binds_evalIn accepted first)]
    exact .inr (ih ht (List.forall_mem_cons.1 each).2)

/-- Where an accepted tree reports an undeclared name, a reference to it is dangling. -/
theorem dangling_of_evalIn {t : Tree} (ht : t.accepted = true)
    (h : (t.evalIn c env).1 = .error (.error (.undeclared name))) :
    Dangling env.Binds t.postorder name := by
  induction t using Tree.induction generalizing env with
  | literal l => cases h
  | node a cs ih =>
    by_cases ha : a = .refer
    · subst ha
      obtain ⟨s, rfl⟩ := text_child rfl ht
      exact dangling_refer.2 (undeclared_of_evalIn_refer h)
    · have accepted := (accepted_node.1 ht).2
      rw [dangling_node ha]
      exact (stops_of_evalIn ha h).dangling accepted fun s hs env he => ih s hs (accepted s hs) he

/-- **Undeclared references are reported exactly.** If evaluating an accepted tree ends in a datum,
then every reference in it is to a name that is bound at the start or declared before it in the
order of evaluation. If this is so of every reference, then evaluating the tree never reports an
undeclared name. -/
theorem evalIn_undeclared {t : Tree} (ht : t.accepted = true) (c : Context) (env : Environment) :
    (∀ d, (t.evalIn c env).1 = .ok d → Covered env.Binds t.postorder) ∧
      (Covered env.Binds t.postorder →
        ∀ name, (t.evalIn c env).1 ≠ .error (.error (.undeclared name))) := by
  rw [covered_iff]
  exact ⟨fun d h name => not_dangling_of_evalIn ht h,
    fun covered name h => covered name (dangling_of_evalIn ht h)⟩

/-- A declaration that refers to its own name. -/
def circular : Tree := declare "x" (refer "x")

theorem evalIn_undeclared_rebound_circular :
    rebound.accepted = true ∧ (rebound.evalIn blank outer).1 = .ok (.scalar (.int 25)) ∧
    Covered outer.Binds rebound.postorder ∧
    (∀ name, (rebound.evalIn blank outer).1 ≠ .error (.error (.undeclared name))) ∧
    circular.accepted = true ∧ ¬ Covered Environment.empty.Binds circular.postorder ∧
    ∀ d, (circular.evalIn blank .empty).1 ≠ .ok d := by
  have accepted : rebound.accepted = true ∧ circular.accepted = true := by decide
  obtain ⟨covers, spares⟩ := evalIn_undeclared accepted.1 blank outer
  have covered := covers _ rfl
  have dangling : Dangling Environment.empty.Binds circular.postorder "x" :=
    ⟨[ofText "x", ofText "x"], [circular], rfl, fun hb => hb rfl, fun value hv => by
      simp [declare, ofText] at hv⟩
  have uncovered : ¬ Covered Environment.empty.Binds circular.postorder :=
    fun h => covered_iff.1 h "x" dangling
  exact ⟨accepted.1, rfl, covered, spares covered, accepted.2, uncovered,
    fun d h => uncovered ((evalIn_undeclared accepted.2 blank .empty).1 d h)⟩

end Tree

end SpanJoin
