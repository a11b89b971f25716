import SpanJoin.Proofs.Plan.Declarations
import SpanJoin.Proofs.Plan.Reading

/-!
# The columns that a plan reads

What an accepted tree reads are the columns that it refers to (`readsOnly_iff_reads`), and these
can be collected from it (`exists_addColumns?`, `reads_of_columns?`). The plan of a tree therefore
has the same value in any two contexts that agree on these columns and on the lengths of the
intervals (`share_eval_congr`), and so has the tree itself, in every environment
(`evalIn_eq_of_sameColumns`).
-/

namespace SpanJoin

namespace Tree

/-- Every column that the tree refers to is among the names. -/
structure Reads (t : Tree) (ns : ColumnNames) : Prop where
  left : ∀ n, leftColumn n ∈ t.subtrees → n ∈ ns.left
  right : ∀ n, rightColumn n ∈ t.subtrees → n ∈ ns.right

/-- The children of a node refer to columns that the node refers to. -/
theorem Reads.child {a : Action} {cs : List Tree} {ns : ColumnNames} (h : (node a cs).Reads ns)
    {c : Tree} (hc : c ∈ cs) : c.Reads ns :=
  ⟨fun n hn => h.left n (mem_subtrees_of_mem hc hn),
    fun n hn => h.right n (mem_subtrees_of_mem hc hn)⟩

/-- A node that is no column reference refers to what its children refer to. -/
theorem reads_node {a : Action} {cs : List Tree} {ns : ColumnNames}
    (ha : a.isColumnReference = false) (h : ∀ c ∈ cs, c.Reads ns) : (node a cs).Reads ns := by
  refine ⟨fun n hn => ?_, fun n hn => ?_⟩
  · rcases mem_subtrees_node.1 hn with e | ⟨c, hc, hn⟩
    · obtain ⟨rfl, -⟩ := node.inj e
      cases ha
    · exact (h c hc).left n hn
  · rcases mem_subtrees_node.1 hn with e | ⟨c, hc, hn⟩
    · obtain ⟨rfl, -⟩ := node.inj e
      cases ha
    · exact (h c hc).right n hn

theorem exists_addColumnsEach? {cs : List Tree}
    (ih : ∀ c ∈ cs, ∀ ns, ∃ ms, c.addColumns? ns = some ms) (ns : ColumnNames) :
    ∃ ms, addColumnsEach? cs ns = some ms := by
  induction cs generalizing ns with
  | nil => exact ⟨ns, rfl⟩
  | cons c cs ihs =>
    obtain ⟨ks, hks⟩ := ih c List.mem_cons_self ns
    obtain ⟨ms, hms⟩ := ihs (fun d hd => ih d (List.mem_cons_of_mem c hd)) ks
    refine ⟨ms, ?_⟩
    rw [addColumnsEach?, hks]
    exact hms

/-- The columns of an accepted tree can be collected. -/
theorem exists_addColumns? {t : Tree} (ht : t.accepted = true) (ns : ColumnNames) :
    ∃ ms, t.addColumns? ns = some ms := by
  induction t using Tree.induction generalizing ns with
  | literal l => exact ⟨ns, rfl⟩
  | node a cs ih =>
    cases a with
    | leftColumn | rightColumn =>
      obtain ⟨s, rfl⟩ := text_child rfl ht
      exact ⟨_, rfl⟩
    | _ => exact exists_addColumnsEach? (fun c hc => ih c hc ((accepted_node.1 ht).2 c hc)) ns

/-- What an accepted tree reads is what it refers to. -/
theorem readsOnly_iff_reads {t : Tree} (ht : t.accepted = true) {ns : ColumnNames} :
    t.ReadsOnly ns ↔ t.Reads ns := by
  constructor
  · intro h
    induction h with
    | literal l => exact ⟨by simp [leftColumn], by simp [rightColumn]⟩
    | leftColumn h =>
      obtain ⟨s, rfl⟩ := text_child rfl ht
      refine ⟨fun n hn => ?_, fun n hn => ?_⟩
      · obtain rfl : n = s := by
          simpa [leftColumn, ofText, subtrees, subtreesEach] using hn
        exact h n rfl
      · simp [rightColumn, ofText, subtrees, subtreesEach] at hn
    | rightColumn h =>
      obtain ⟨s, rfl⟩ := text_child rfl ht
      refine ⟨fun n hn => ?_, fun n hn => ?_⟩
      · simp [leftColumn, ofText, subtrees, subtreesEach] at hn
      · obtain rfl : n = s := by
          simpa [rightColumn, ofText, subtrees, subtreesEach] using hn
        exact h n rfl
    | node ha _ ih => exact reads_node ha fun c hc => ih c hc ((accepted_node.1 ht).2 c hc)
  · intro h
    induction t using Tree.induction with
    | literal l => exact .literal l
    | node a cs ih =>
      cases a with
      | leftColumn =>
        obtain ⟨s, rfl⟩ := text_child rfl ht
        refine .leftColumn fun name hn => ?_
        obtain rfl : s = name := Except.ok.inj hn
        exact h.left s (mem_subtrees_self _)
      | rightColumn =>
        obtain ⟨s, rfl⟩ := text_child rfl ht
        refine .rightColumn fun name hn => ?_
        obtain rfl : s = name := Except.ok.inj hn
        exact h.right s (mem_subtrees_self _)
      | _ => exact .node rfl fun c hc => ih c hc ((accepted_node.1 ht).2 c hc) (h.child hc)

/-- An accepted tree refers to no other columns than those collected from it. -/
theorem reads_of_columns? {t : Tree} (ht : t.accepted = true) {ns : ColumnNames}
    (h : t.columns? = some ns) : t.Reads ns :=
  (readsOnly_iff_reads ht).1 (readsOnly_of_columns? h)

end Tree

/-! ## Contexts that agree on some columns -/

/-- The contexts have the same lengths, overlaps and row labels, and any column of those names is
the same in both or lacking in both. -/
structure Context.SameColumns (c c' : Context) (ns : ColumnNames) : Prop where
  lengthOfLeft : c.lengthOfLeft = c'.lengthOfLeft
  lengthOfRight : c.lengthOfRight = c'.lengthOfRight
  lengthOfOverlap : c.lengthOfOverlap = c'.lengthOfOverlap
  labels : c.right.index = c'.right.index
  left : ∀ n ∈ ns.left, c.left.get n = c'.left.get n
  right : ∀ n ∈ ns.right, c.right.column n = c'.right.column n

theorem Context.SameColumns.agreeOn {c c' : Context} {ns : ColumnNames}
    (h : c.SameColumns c' ns) : c.AgreeOn c' ns where
  lengthOfLeft := h.lengthOfLeft
  lengthOfRight := h.lengthOfRight
  lengthOfOverlap := h.lengthOfOverlap
  left := h.left
  right n hn := by rw [Table.series, Table.series, h.right n hn, h.labels]

namespace Tree

variable {c c' : Context} {ns : ColumnNames}

/-- A tree that replaces subtrees of an accepted tree by references evaluates alike where the
contexts agree on the columns of that tree. -/
theorem evalIn_congr (hc : c.AgreeOn c' ns) {P : Tree → Tree → Prop} {s u : Tree}
    (h : Replaced P false s u) (hs : s.accepted = true) (reads : s.Reads ns)
    (refs : ∀ c d, P c d → c.isLiteral = false ∧ ∃ name, d = refer name) (env : Environment) :
    u.evalIn c env = u.evalIn c' env := by
  have only := ((readsOnly_iff_reads hs).2 reads).of_replaced h fun c d hcd => (refs c d hcd).2
  exact only.evalIn_congr hc env

/-- The plan of a tree has the same value in contexts that agree on the columns of the tree. -/
theorem share_eval_congr {t : Tree} (ht : t.accepted = true) (reads : t.Reads ns)
    (hc : c.AgreeOn c' ns) {p : Plan} (hp : t.share = .ok p) : p.eval c = p.eval c' :=
  ((readsOnly_iff_reads ht).2 reads).share_eval_congr hp hc

/-- **The collected columns are all that matters.** The columns of an accepted tree can be
collected, and two contexts that differ in other columns only give the same: the tree ends in the
same datum or fault and the same environment, from any environment, and its plan in the same datum
or fault. -/
theorem evalIn_eq_of_sameColumns {t : Tree} (ht : t.accepted = true) :
    ∃ ns p, t.columns? = some ns ∧ t.share = .ok p ∧ ∀ c c' : Context, c.SameColumns c' ns →
      (∀ env, t.evalIn c env = t.evalIn c' env) ∧ p.eval c = p.eval c' := by
  obtain ⟨ns, hns⟩ := exists_addColumns? ht .empty
  obtain ⟨rs, p, hp, -⟩ := exists_shares ht
  have reads := reads_of_columns? ht hns
  refine ⟨ns, p, hns, hp, fun c c' h => ⟨fun env => ?_, share_eval_congr ht reads h.agreeOn hp⟩⟩
  exact evalIn_congr h.agreeOn (.refl (fun _ _ => False) t) ht reads (fun _ _ h => h.elim) env

/-- The rate of a left row times the double of a right column. -/
def rated : Tree :=
  binary .mul (leftColumn "rate") (binary .add (rightColumn "x") (rightColumn "x"))

/-- A left row with a rate, and two right rows with a column `x`. -/
def narrow : Context :=
  ⟨⟨⟨Cell.counting 1, [⟨"rate", [.int 3]⟩]⟩, 0⟩, ⟨Cell.counting 2, [⟨"x", [.int 1, .int 2]⟩]⟩,
    .null, .ofCells [], .ofCells []⟩

/-- The same among further columns, with the left row in another place. -/
def wide : Context :=
  ⟨⟨⟨Cell.counting 2, [⟨"id", [.int 8, .int 9]⟩, ⟨"rate", [.int 5, .int 3]⟩]⟩, 1⟩,
    ⟨Cell.counting 2, [⟨"y", [.int 6, .int 7]⟩, ⟨"x", [.int 1, .int 2]⟩]⟩,
    .null, .ofCells [], .ofCells []⟩

theorem evalIn_eq_of_sameColumns_rated : rated.accepted = true ∧
    ∃ ns p, rated.columns? = some ns ∧ rated.share = .ok p ∧ narrow.SameColumns wide ns ∧
      (∀ env, rated.evalIn narrow env = rated.evalIn wide env) ∧ p.eval narrow = p.eval wide := by
  obtain ⟨ns, p, hns, hp, same⟩ := evalIn_eq_of_sameColumns (t := rated) (by decide)
  obtain rfl : ⟨["rate"], ["x"]⟩ = ns := Option.some.inj hns
  have h : narrow.SameColumns wide ⟨["rate"], ["x"]⟩ :=
    ⟨rfl, rfl, rfl, rfl, List.forall_mem_singleton.2 rfl, List.forall_mem_singleton.2 rfl⟩
  exact ⟨by decide, _, p, hns, hp, h, same narrow wide h⟩

end Tree

end SpanJoin
