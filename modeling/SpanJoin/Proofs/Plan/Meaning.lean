import SpanJoin.Proofs.Eval.Simulation
import SpanJoin.Proofs.Plan.Expansion

/-!
# Sharing keeps the meaning of a tree

A tree evaluates to a datum in a context exactly if it has a shared plan that evaluates to this
datum (`eval_iff_share_eval`). The environments in which the tree and the root of its plan are
evaluated are related by `Bound`: they agree on all names but the reserved ones, and these are bound
to the values of the subtrees that were declared. Evaluating the declarations in order leads to such
an environment or fails, and then one of the declared subtrees, and with it the tree, has no value
(`bindEach_cases`).
-/

namespace SpanJoin.Tree

/-- The environments agree on the names that are not reserved, and the second one has the values of
the subtrees in `done` under their names. -/
def Bound (c : Context) (done : List (String × Occurrence)) (env env' : Environment) : Prop :=
  (∀ name, (∀ n, name ≠ subtreeName n) → env.get? name = env'.get? name) ∧
    ∀ r ∈ done, ∃ d, env'.get? r.1 = some d ∧ ∀ e, r.2.subtree.evalIn c e = (.ok d, e)

theorem Bound.bind {c : Context} {done : List (String × Occurrence)} {env env' : Environment}
    (h : Bound c done env env') (reserved : ∀ r ∈ done, ∃ n, r.1 = subtreeName n) {name : String}
    (hn : ∀ n, name ≠ subtreeName n) (d : Datum) :
    Bound c done (env.bind name d) (env'.bind name d) := by
  refine ⟨fun other ho => ?_, fun r hr => ?_⟩
  · rw [Environment.get?_bind, Environment.get?_bind, h.1 other ho]
  · obtain ⟨e, he, hv⟩ := h.2 r hr
    obtain ⟨n, hrn⟩ := reserved r hr
    have : r.1 ≠ name := fun e => hn n (e ▸ hrn)
    exact ⟨e, by rw [Environment.get?_bind, if_neg this, he], hv⟩

/-- One more declared subtree, bound to its value. -/
theorem Bound.declare {c : Context} {done : List (String × Occurrence)} {env env' : Environment}
    (h : Bound c done env env') {r : String × Occurrence} (reserved : ∃ n, r.1 = subtreeName n)
    (fresh : ∀ s ∈ done, s.1 ≠ r.1) {d : Datum}
    (hd : ∀ e, r.2.subtree.evalIn c e = (.ok d, e)) :
    Bound c (done ++ [r]) env (env'.bind r.1 d) := by
  refine ⟨fun name hn => ?_, fun s hs => ?_⟩
  · obtain ⟨n, hrn⟩ := reserved
    have : name ≠ r.1 := fun e => hn n (e.trans hrn)
    rw [Environment.get?_bind, if_neg this, h.1 name hn]
  · rcases List.mem_append.1 hs with hs | hs
    · obtain ⟨e, he, hv⟩ := h.2 s hs
      exact ⟨e, by rw [Environment.get?_bind, if_neg (fresh s hs), he], hv⟩
    · obtain rfl := List.mem_singleton.1 hs
      exact ⟨d, by rw [Environment.get?_bind, if_pos rfl], hd⟩

namespace Shares

variable {t : Tree} {rs : List (String × Occurrence)} {p : Plan} {c : Context}
  {done : List (String × Occurrence)}

/-- A node of the tree reads the same in environments that agree on the names it may use. -/
theorem agrees (h : t.Shares rs p) (sub : ∀ r ∈ done, r ∈ rs) {a : Action} {cs : List Tree}
    (ht : (node a cs).accepted = true) (names : (node a cs).Unreserved) :
    Agrees c c (Bound c done) a cs := by
  refine ⟨rfl, rfl, rfl, fun _ _ _ => rfl, fun _ _ _ => rfl, ?_, ?_⟩
  · rintro rfl name hn env env' he
    obtain ⟨s, rfl⟩ := text_child rfl ht
    obtain rfl : s = name := Except.ok.inj hn
    exact he.1 s fun n e => (names n).1 (e ▸ mem_subtrees_self _)
  · rintro rfl name hn d env env' he
    obtain ⟨s, v, rfl⟩ := declare_children ht
    obtain rfl : s = name := Except.ok.inj hn
    exact he.bind (fun r hr => h.naming.reserved r (sub r hr))
      (fun n e => (names n).2 v (e ▸ mem_subtrees_self _)) d

/-- A tree is simulated by itself with references to subtrees whose values are bound. -/
theorem simulates (h : t.Shares rs p) (hz : literal (.float Binary64.negativeZero) ∉ t.subtrees)
    (sub : ∀ r ∈ done, r ∈ rs) {bound : Nat}
    (bounded : ∀ r ∈ rs, r.2.subtree.height < bound → r ∈ done) {column : Bool} {s u : Tree}
    (hu : Replaced (Reference rs bound) column s u) (hs : s ∈ t.subtrees)
    (hsa : s.accepted = true) (names : s.Unreserved) : Simulates c c (Bound c done) s u := by
  induction hu using Replaced.induction with
  | here hr =>
    obtain ⟨hl, hb, hlt, r, hr, hk, rfl⟩ := hr
    rw [← h.height_subtree hr hk] at hlt
    rw [h.subtree_eq hz hr hs hk]
    intro env env' he
    obtain ⟨d, hd, hv⟩ := he.2 r (bounded r hr hlt)
    rw [hv env]
    have value : (refer r.1).evalIn c env' = (.ok d, env') := by
      simp [refer, evalIn, readName, textAt, ofText, text?, hd, pure, Except.pure]
    rw [value]
    exact ⟨rfl, he⟩
  | literal l => exact fun env env' he => ⟨rfl, he⟩
  | @node a cs ds ha hcs ih =>
    refine .node ha (forall₂_imp_of_mem ih ?_) (hcs.imp fun v w hvw => ?_)
      (h.agrees sub hsa names)
    · rintro v hv w - ⟨-, hsim⟩
      exact hsim (mem_subtrees_trans (mem_subtrees_child hv) hs) ((accepted_node.1 hsa).2 v hv)
        (names.of_mem_subtrees (mem_subtrees_child hv))
    · cases hvw with
      | here hr =>
        obtain ⟨hl, -, -, r, -, -, rfl⟩ := hr
        cases v with
        | literal l => simp [isLiteral] at hl
        | node b vs => rfl
      | literal | node | hstack => rfl
  | @hstack cs ds hcs ih =>
    refine .hstack (forall₂_imp_of_mem ih ?_)
    rintro v hv w - ⟨hvw, hsim⟩
    refine ⟨?_, hvw.outputName_eq.symm⟩
    exact hsim (mem_subtrees_trans (mem_subtrees_child hv) hs) ((accepted_node.1 hsa).2 v hv)
      (names.of_mem_subtrees (mem_subtrees_child hv))
  | kept v =>
    exact simulates_self fun a cs hn =>
      h.agrees sub (accepted_of_mem_subtrees hsa hn) (names.of_mem_subtrees hn)
  | named _ _ ih => exact (ih hs hsa names).nameAs _

/-- A named subtree uses no bindings. -/
theorem usesBindings_subtree (h : t.Shares rs p) {r : String × Occurrence} (hr : r ∈ rs) :
    r.2.subtree.usesBindings = false := by
  obtain ⟨s, hs, -, hb, -⟩ := h.naming.occursAt_first hr
  rw [h.naming.first r hr] at hs
  rwa [Option.some.inj hs]

/-- What is lower than the next subtree is declared already. -/
theorem mem_done_of_height_lt (h : t.Shares rs p) {r : String × Occurrence}
    {rest : List (String × Occurrence)} (hrs : rs = done ++ r :: rest) {s : String × Occurrence}
    (hs : s ∈ rs) (hlt : s.2.subtree.height < r.2.subtree.height) : s ∈ done := by
  have ascending := h.ascending
  rw [hrs] at hs ascending
  have later := (List.pairwise_cons.1 (List.pairwise_append.1 ascending).2.1).1
  rcases List.mem_append.1 hs with hs | hs
  · exact hs
  · rcases List.mem_cons.1 hs with rfl | hs
    · omega
    · have := later s hs
      omega

/-- The name of the next subtree is new. -/
theorem name_ne_of_mem_done (h : t.Shares rs p) {r : String × Occurrence}
    {rest : List (String × Occurrence)} (hrs : rs = done ++ r :: rest) {s : String × Occurrence}
    (hs : s ∈ done) : s.1 ≠ r.1 := by
  have apart := h.naming.names_apart
  rw [hrs, List.map_append, List.map_cons] at apart
  intro e
  exact (List.nodup_append.1 apart).2.2 _ (List.mem_map_of_mem hs) _ List.mem_cons_self e

section

variable (h : t.Shares rs p) (ht : t.accepted = true)
  (hz : literal (.float Binary64.negativeZero) ∉ t.subtrees) (names : t.Unreserved)
include h ht hz names

/-- Evaluating the next body gives the value of its subtree, or this subtree has no value. -/
theorem evalIn_body_cases {r : String × Occurrence} {rest : List (String × Occurrence)}
    (hrs : rs = done ++ r :: rest) {body : Tree} (hbody : Body rs r body) {env : Environment}
    (he : Bound c done .empty env) :
    (∃ v env', body.evalIn c env = (.ok v, env') ∧
      Bound c (done ++ [r]) .empty (env'.bind r.1 v)) ∨
      ∃ e env', body.evalIn c env = (.error e, env') ∧ ¬ HasValue c r.2.subtree := by
  have hr : r ∈ rs := by simp [hrs]
  have hs := h.naming.subtree_mem hr
  have sub : ∀ s ∈ done, s ∈ rs := fun s hs => by simp [hrs, hs]
  obtain ⟨h₁, h₂⟩ := h.simulates hz sub (fun s hs => h.mem_done_of_height_lt hrs hs)
    (h.replaced (h.naming.first r hr) hbody) hs (accepted_of_mem_subtrees ht hs)
    (names.of_mem_subtrees hs) _ _ he
  have same := evalIn_of_usesBindings (h.usesBindings_subtree hr) c
  cases hv : body.evalIn c env with
  | mk o env₁ =>
    rw [hv] at h₁ h₂
    cases o with
    | error e =>
      refine .inr ⟨e, env₁, rfl, ?_⟩
      rintro ⟨env₂, v, hv⟩
      rw [same env₂ .empty, h₁] at hv
      cases hv
    | ok v =>
      have value : ∀ e, r.2.subtree.evalIn c e = (.ok v, e) := fun e => by rw [same e .empty, h₁]
      rw [value .empty] at h₂
      exact .inl ⟨v, env₁, rfl, Bound.declare h₂ (h.naming.reserved r hr)
        (fun s hs => h.name_ne_of_mem_done hrs hs) value⟩

/-- Evaluating the declarations binds the values of all named subtrees, or one of these has no
value. -/
theorem bindEach_cases {rest : List (String × Occurrence)} {ds : List (String × Tree)}
    (hrs : rs = done ++ rest) (hds : List.Forall₂ (fun r d => d.1 = r.1 ∧ Body rs r d.2) rest ds)
    {env : Environment} (he : Bound c done .empty env) :
    (∃ env', Plan.bindEach c ds env = (.ok (), env') ∧ Bound c rs .empty env') ∨
      ∃ e env', Plan.bindEach c ds env = (.error e, env') ∧
        ∃ r ∈ rs, ¬ HasValue c r.2.subtree := by
  induction hds generalizing done env with
  | nil => exact .inl ⟨env, rfl, by rwa [hrs, List.append_nil]⟩
  | @cons r d rest ds hd _ ih =>
    rw [Plan.bindEach, hd.1]
    rcases h.evalIn_body_cases ht hz names hrs hd.2 he with
      ⟨v, env₁, hv, bound⟩ | ⟨e, env₁, hv, none⟩
    · rw [hv]
      exact ih (by simp [hrs]) bound
    · rw [hv]
      exact .inr ⟨e, env₁, rfl, r, by simp [hrs], none⟩

end

end Shares

/-- **Sharing keeps the meaning**: a tree evaluates to a datum exactly if it is compiled to a plan
that evaluates to this datum. -/
theorem eval_iff_share_eval {t : Tree} (ht : t.accepted = true)
    (hz : literal (.float Binary64.negativeZero) ∉ t.subtrees) (names : t.Unreserved) (c : Context)
    (d : Datum) : t.eval c = .ok d ↔ ∃ p, t.share = .ok p ∧ p.eval c = .ok d := by
  obtain ⟨rs, p, hp, h⟩ := exists_shares ht
  have unique {q : Plan} : t.share = .ok q ↔ q = p := by
    rw [hp, Except.ok.injEq, eq_comm]
  simp only [unique, exists_eq_left]
  have start : Bound c [] .empty .empty := ⟨fun _ _ => rfl, nofun⟩
  rcases h.bindEach_cases ht hz names (List.nil_append rs).symm h.bodies start with
    ⟨env, he, bound⟩ | ⟨e, env, he, r, hr, hv⟩
  · have root := h.simulates hz (fun r hr => hr) (fun r hr _ => hr) h.root_replaced
      (mem_subtrees_self t) ht names _ _ bound
    rw [eval, Plan.eval, he, root.1]
  · -- the tree has no value either, since it evaluates the subtree that has none
    have none : t.eval c ≠ .ok d := fun ht' =>
      hv (hasValue_of_mem_subtrees ht ⟨.empty, d, ht'⟩ (h.naming.subtree_mem hr))
    rw [Plan.eval, he]
    exact ⟨fun ht' => absurd ht' none, fun hp' => by cases hp'⟩

/-- Two right rows with a column `x`, and nothing on the left. -/
def twoRows : Context :=
  ⟨⟨⟨[], []⟩, 0⟩, ⟨Cell.counting 2, [⟨"x", [.int 1, .int 2]⟩]⟩, .null, .ofCells [], .ofCells []⟩

/-- The columns that `doubled` gives for them. -/
def doubledRows : Datum :=
  .frame ⟨Cell.counting 2, [⟨"neg(+(x,x))", [.int (-2), .int (-4)]⟩, ⟨"+(x,x)", [.int 2, .int 4]⟩,
    ⟨"refer(v)", [.int 2, .int 4]⟩]⟩

theorem eval_iff_share_eval_doubled : doubled.eval twoRows = .ok doubledRows ∧
    ∃ p, doubled.share = .ok p ∧ p.eval twoRows = .ok doubledRows :=
  ⟨rfl, (eval_iff_share_eval (by decide) (by decide) unreserved_doubled twoRows doubledRows).1 rfl⟩

end SpanJoin.Tree
