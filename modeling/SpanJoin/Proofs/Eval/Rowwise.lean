import SpanJoin.Proofs.Eval.Simulation
import SpanJoin.Proofs.Eval.Soundness

/-!
# Evaluation row by row

Trees of column references, operators, casts and names compute each row of their value from the same
row of what they read. Rows of the right table may therefore be picked before the evaluation as well
as after it, in any order and with repetitions: a scalar stays the same, and a series becomes the
series of the picked rows (`Tree.eval_takeRight`). The two evaluations are compared by the relation
`Datum.Picked`, which every operation of such a tree respects.
-/

namespace SpanJoin

/-! ## Picked rows -/

/-- Related elements are picked from a list by computing on the picked elements. -/
theorem exists_mapM_picked {ε α β : Type} {f : α → Except ε β} {as xs : List α} {bs : List β}
    {ps : List Nat} (h : as.mapM f = .ok bs)
    (hx : List.Forall₂ (fun p x => as[p]? = some x) ps xs) :
    ∃ ys, xs.mapM f = .ok ys ∧ List.Forall₂ (fun p y => bs[p]? = some y) ps ys := by
  have each := mapM_eq_ok_iff.1 h
  have partner : List.Forall₂ (fun p x => ∃ y, f x = .ok y ∧ bs[p]? = some y) ps xs := by
    refine hx.imp fun p x hp => ?_
    obtain ⟨y, hy, hf⟩ := exists_getElem?_of_forall₂ each hp
    exact ⟨y, hf, hy⟩
  obtain ⟨ys, hxs, hps⟩ := exists_forall₂_of_exists partner
  exact ⟨ys, mapM_eq_ok_iff.2 hxs, hps⟩

theorem forall₂_zip_picked {α β : Type} {as xs : List α} {bs ys : List β} {ps : List Nat}
    (hx : List.Forall₂ (fun p x => as[p]? = some x) ps xs)
    (hy : List.Forall₂ (fun p y => bs[p]? = some y) ps ys) :
    List.Forall₂ (fun p z => (as.zip bs)[p]? = some z) ps (xs.zip ys) := by
  induction hx generalizing ys with
  | nil => exact .nil
  | cons hp _ ih =>
    cases hy with
    | cons hq hy => exact .cons (List.getElem?_zip_eq_some.2 ⟨hp, hq⟩) (ih hy)

/-- Equal labels are still equal after rows have been picked. -/
theorem beq_of_picked {as bs xs ys : List Cell} {ps : List Nat} (h : (as == bs) = true)
    (hx : Table.Picks as ps xs) (hy : Table.Picks bs ps ys) : (xs == ys) = true := by
  have each {as bs : List Cell} (h : (as == bs) = true) {p : Nat} {x y : Cell}
      (hx : as[p]? = some x) (hy : bs[p]? = some y) : (x == y) = true := by
    induction as generalizing bs p with
    | nil => simp at hx
    | cons a as ih =>
      cases bs with
      | nil => cases h
      | cons b bs =>
        rw [List.cons_beq_cons, Bool.and_eq_true] at h
        cases p with
        | zero =>
          obtain rfl := Option.some.inj hx
          obtain rfl := Option.some.inj hy
          exact h.1
        | succ p => exact ih h.2 hx hy
  induction hx generalizing ys with
  | nil =>
    cases hy
    rfl
  | cons hp _ ih =>
    cases hy with
    | cons hq hy =>
      rw [List.cons_beq_cons, each h hp hq, ih hy]
      rfl

namespace Datum

/-- The second datum is the first one with rows picked from a series; other data stay the same. -/
def Picked (ps : List Nat) : Datum → Datum → Prop
  | series s, d => ∃ t, d = series t ∧ s.take? ps = some t
  | d, e => e = d

variable {ps : List Nat} {d d' e e' r : Datum}

theorem picked_series {s t : Series} (h : s.take? ps = some t) : Picked ps (series s) (series t) :=
  ⟨t, rfl, h⟩

/-- Computing cells from picked rows gives the picked rows of the computed cells. -/
theorem exists_compute_picked {α : Type} {f : α → Except TreeError Cell} {s t : Series}
    {as xs : List α} (ht : s.take? ps = some t) (h : s.compute f as = .ok r)
    (hx : List.Forall₂ (fun p x => as[p]? = some x) ps xs) :
    ∃ r', t.compute f xs = .ok r' ∧ Picked ps r r' := by
  obtain ⟨cells, hcells, -, rfl⟩ := compute_eq_ok_iff.1 h
  obtain ⟨ys, hys, picks⟩ := exists_mapM_picked (mapM_eq_ok_iff.2 hcells) hx
  obtain ⟨-, index, -⟩ := Series.take?_eq_some_iff.1 ht
  have lengths : t.index.length = ys.length := index.length_eq.symm.trans picks.length_eq
  refine ⟨_, compute_eq_ok_iff.2 ⟨ys, mapM_eq_ok_iff.1 hys, lengths, rfl⟩, picked_series ?_⟩
  exact Series.take?_eq_some_iff.2 ⟨rfl, index, picks⟩

/-- The same for cells that are put in the place of those of a series. -/
theorem exists_withCells_picked {ε : Type} {f : Cell → Except ε Cell} {s t u : Series}
    {cells : List Cell} (ht : s.take? ps = some t) (hcells : s.cells.mapM f = .ok cells)
    (hu : (s.withCells cells).mapError TreeError.data = .ok u) :
    ∃ ys v, t.cells.mapM f = .ok ys ∧ (t.withCells ys).mapError TreeError.data = .ok v ∧
      u.take? ps = some v := by
  obtain ⟨rfl, -⟩ := Series.withCells_eq_ok_iff.1 (Outcome.exceptMapError_eq_ok.1 hu)
  obtain ⟨name, index, old⟩ := Series.take?_eq_some_iff.1 ht
  obtain ⟨ys, hys, picks⟩ := exists_mapM_picked hcells old
  have built : t.withCells ys = .ok { t with cells := ys } :=
    Series.withCells_eq_ok_iff.2 ⟨rfl, index.length_eq.symm.trans picks.length_eq⟩
  refine ⟨ys, { t with cells := ys }, hys, by rw [built]; rfl, ?_⟩
  exact Series.take?_eq_some_iff.2 ⟨name, index, picks⟩

theorem exists_binary_picked {op : BinaryOp} (hd : Picked ps d d') (he : Picked ps e e')
    (h : binary op d e = .ok r) : ∃ r', binary op d' e' = .ok r' ∧ Picked ps r r' := by
  unfold binary at h
  split at h
  · obtain rfl : d' = _ := hd
    obtain rfl : e' = _ := he
    obtain ⟨x, rfl⟩ := exists_scalar h
    exact ⟨scalar x, h, rfl⟩
  · obtain ⟨t, rfl, ht⟩ := hd
    obtain rfl : e' = _ := he
    exact exists_compute_picked ht h (Series.take?_eq_some_iff.1 ht).2.2
  · obtain rfl : d' = _ := hd
    obtain ⟨t, rfl, ht⟩ := he
    exact exists_compute_picked ht h (Series.take?_eq_some_iff.1 ht).2.2
  · obtain ⟨t, rfl, ht⟩ := hd
    obtain ⟨u, rfl, hu⟩ := he
    obtain ⟨-, hti, htc⟩ := Series.take?_eq_some_iff.1 ht
    obtain ⟨-, hui, huc⟩ := Series.take?_eq_some_iff.1 hu
    split at h
    · rename_i aligned
      have still : t.alignedWith u = true := beq_of_picked aligned hti hui
      obtain ⟨r', hr', picked⟩ := exists_compute_picked ht h (forall₂_zip_picked htc huc)
      exact ⟨r', by rw [binary, if_pos still, hr'], picked⟩
    · cases h
  · cases h

theorem exists_unary_picked {op : UnaryOp} (hd : Picked ps d d') (h : unary op d = .ok r) :
    ∃ r', unary op d' = .ok r' ∧ Picked ps r r' := by
  unfold unary at h
  split at h
  · obtain rfl : d' = _ := hd
    obtain ⟨x, rfl⟩ := exists_scalar h
    exact ⟨scalar x, h, rfl⟩
  · obtain ⟨t, rfl, ht⟩ := hd
    obtain ⟨cells, hcells, h⟩ := Outcome.bind_eq_ok.1 h
    obtain ⟨u, hu, h⟩ := Outcome.bind_eq_ok.1 h
    obtain rfl := Except.ok.inj h
    obtain ⟨ys, v, hys, hv, huv⟩ := exists_withCells_picked ht hcells hu
    exact ⟨series v, by rw [unary, hys, Outcome.ok_bind, hv]; rfl, picked_series huv⟩
  · cases h

theorem exists_cast_picked {target : Kind} (hd : Picked ps d d') (h : d.cast target = .ok r) :
    ∃ r', d'.cast target = .ok r' ∧ Picked ps r r' := by
  unfold cast at h
  split at h
  · obtain rfl : d' = _ := hd
    obtain ⟨x, rfl⟩ := exists_scalar h
    exact ⟨scalar x, h, rfl⟩
  · obtain ⟨t, rfl, ht⟩ := hd
    obtain ⟨cells, hcells, h⟩ := Outcome.bind_eq_ok.1 h
    obtain ⟨u, hu, h⟩ := Outcome.bind_eq_ok.1 h
    obtain rfl := Except.ok.inj h
    obtain ⟨ys, v, hys, hv, huv⟩ :=
      exists_withCells_picked ht (Outcome.exceptMapError_eq_ok.1 hcells) hu
    refine ⟨series v, ?_, picked_series huv⟩
    rw [cast, Outcome.exceptMapError_eq_ok.2 hys, Outcome.ok_bind, hv]
    rfl
  · cases h

end Datum

/-! ## Picked contexts -/

/-- The context with rows of the right table, and their lengths and overlaps, picked by position;
`none` if a position does not exist. -/
def Context.takeRight? (c : Context) (ps : List Nat) : Option Context := do
  let right ← c.right.take? ps
  let lengths ← c.lengthOfRight.take? ps
  let overlaps ← c.lengthOfOverlap.take? ps
  return { c with right, lengthOfRight := lengths, lengthOfOverlap := overlaps }

/-- The second context is the first one with right rows picked. -/
structure Context.Picked (ps : List Nat) (c c' : Context) : Prop where
  left : c'.left = c.left
  right : c.right.take? ps = some c'.right
  lengthOfLeft : c'.lengthOfLeft = c.lengthOfLeft
  lengthOfRight : c.lengthOfRight.take? ps = some c'.lengthOfRight
  lengthOfOverlap : c.lengthOfOverlap.take? ps = some c'.lengthOfOverlap

/-- Right rows that are there can be picked. -/
theorem Context.exists_takeRight? {c : Context} (built : c.Built) (aligned : c.Aligned)
    {ps : List Nat} (hp : ∀ p ∈ ps, p < c.right.rows) :
    ∃ c', c.takeRight? ps = some c' ∧ c.Picked ps c' := by
  have inLengths : ∀ p ∈ ps, p < c.lengthOfRight.index.length := by
    rw [aligned.lengthOfRight]
    exact hp
  have inOverlaps : ∀ p ∈ ps, p < c.lengthOfOverlap.index.length := by
    rw [aligned.lengthOfOverlap]
    exact hp
  obtain ⟨right, hr⟩ := Table.exists_take? built.right hp
  obtain ⟨lengths, hl⟩ := built.lengthOfRight.exists_take? inLengths
  obtain ⟨overlaps, ho⟩ := built.lengthOfOverlap.exists_take? inOverlaps
  refine ⟨{ c with right, lengthOfRight := lengths, lengthOfOverlap := overlaps }, ?_, ?_⟩
  · simp [takeRight?, hr, hl, ho]
  · exact ⟨rfl, hr, rfl, hl, ho⟩

/-! ## Trees -/

/-- Does the action compute every row from the same row of what it reads? -/
def Action.isRowwise : Action → Bool
  | leftColumn | rightColumn | binary _ | unary _ | castTo | nameAs => true
  | lengthOfLeft | lengthOfRight | lengthOfOverlap | fractionOfLeft | fractionOfRight => true
  | _ => false

namespace Tree

/-- All nodes of the tree compute row by row. -/
def Rowwise (t : Tree) : Prop := ∀ a cs, node a cs ∈ t.subtrees → a.isRowwise = true

theorem rowwise_literal (l : Literal) : (literal l).Rowwise :=
  fun a cs h => by cases mem_subtrees_literal.1 h

theorem rowwise_node {a : Action} {cs : List Tree} :
    (node a cs).Rowwise ↔ a.isRowwise = true ∧ ∀ s ∈ cs, s.Rowwise :=
  forall_node_mem_subtrees

variable {c c' : Context} {ps : List Nat} {cs : List Tree} {env env' : Environment}

/-- Where the tree has a value in the first context, it has the picked rows of this in the second
one, whatever is bound. -/
def EvaluatesPicked (c c' : Context) (ps : List Nat) (t : Tree) : Prop :=
  ∀ env env' d, (t.evalIn c env).1 = .ok d →
    ∃ d', (t.evalIn c' env').1 = .ok d' ∧ d.Picked ps d'

theorem exists_evalEach_picked (h : ∀ t ∈ cs, EvaluatesPicked c c' ps t) {ds : List Datum}
    (hds : (evalEach c cs env).1 = .ok ds) :
    ∃ ds', (evalEach c' cs env').1 = .ok ds' ∧ List.Forall₂ (Datum.Picked ps) ds ds' := by
  induction cs generalizing env env' ds with
  | nil =>
    obtain rfl : [] = ds := Except.ok.inj hds
    exact ⟨[], rfl, .nil⟩
  | cons t ts ih =>
    obtain ⟨d, es, hd, hes, rfl⟩ := evalEach_cons_eq_ok.1 hds
    obtain ⟨d', hd', picked⟩ := h t List.mem_cons_self env env' d hd
    obtain ⟨es', hes', rest⟩ := ih (fun s hs => h s (List.mem_cons_of_mem t hs)) hes
    exact ⟨d' :: es', evalEach_cons_eq_ok.2 ⟨d', es', hd', hes', rfl⟩, .cons picked rest⟩

section

variable {args args' : List Datum} {r : Datum}

theorem exists_oneArgument_picked {f : Datum → Outcome TreeError Datum} {a : Action}
    (hargs : List.Forall₂ (Datum.Picked ps) args args')
    (hf : ∀ d d', d.Picked ps d' → f d = .ok r → ∃ r', f d' = .ok r' ∧ r.Picked ps r')
    (h : oneArgument a f args = .ok r) :
    ∃ r', oneArgument a f args' = .ok r' ∧ r.Picked ps r' := by
  unfold oneArgument at h
  split at h
  · cases hargs with
    | cons hd hargs =>
      cases hargs
      exact hf _ _ hd h
  · cases h

theorem exists_twoArguments_picked {f : Datum → Datum → Outcome TreeError Datum} {a : Action}
    (hargs : List.Forall₂ (Datum.Picked ps) args args')
    (hf : ∀ d e d' e', d.Picked ps d' → e.Picked ps e' → f d e = .ok r →
      ∃ r', f d' e' = .ok r' ∧ r.Picked ps r')
    (h : twoArguments a f args = .ok r) :
    ∃ r', twoArguments a f args' = .ok r' ∧ r.Picked ps r' := by
  unfold twoArguments at h
  split at h
  · cases hargs with
    | cons hd hargs =>
      cases hargs with
      | cons he hargs =>
        cases hargs
        exact hf _ _ _ _ hd he h
  · cases h

end

/-- A node whose value is computed from the values of its children has the picked rows of the value
if the children have. -/
theorem exists_andThen_picked (h : ∀ t ∈ cs, EvaluatesPicked c c' ps t)
    {f : List Datum → Outcome TreeError Datum} {r : Datum}
    (hf : ∀ args args', List.Forall₂ (Datum.Picked ps) args args' → f args = .ok r →
      ∃ r', f args' = .ok r' ∧ r.Picked ps r')
    (hr : ((evalEach c cs env).andThen f).1 = .ok r) :
    ∃ r', ((evalEach c' cs env').andThen f).1 = .ok r' ∧ r.Picked ps r' := by
  obtain ⟨args, hargs, hr⟩ := Evaluated.andThen_eq_ok.1 hr
  obtain ⟨args', hargs', picked⟩ : ∃ args', (evalEach c' cs env').1 = .ok args' ∧
      List.Forall₂ (Datum.Picked ps) args args' := exists_evalEach_picked h hargs
  obtain ⟨r', hr', hrr⟩ := hf args args' picked hr
  exact ⟨r', Evaluated.andThen_eq_ok.2 ⟨args', hargs', hr'⟩, hrr⟩

/-- Where no position is read, the computations decide. -/
theorem exists_ofExcept_picked {x x' : Except TreeError Datum} {r : Datum}
    (h : ∀ r, x = .ok r → ∃ r', x' = .ok r' ∧ r.Picked ps r') (hr : Outcome.ofExcept x = .ok r) :
    ∃ r', Outcome.ofExcept x' = .ok r' ∧ r.Picked ps r' := by
  obtain ⟨r', hr', picked⟩ := h r (Outcome.ofExcept_eq_ok.1 hr)
  exact ⟨r', Outcome.ofExcept_eq_ok.2 hr', picked⟩

/-- A column of the left table is read as a scalar. -/
theorem exists_scalar_of_readLeft {d : Datum} (h : readLeft c cs = .ok d) :
    ∃ x, d = .scalar x := by
  obtain ⟨name, -, h⟩ := Outcome.bind_eq_ok.1 h
  obtain ⟨x, -, h⟩ := Outcome.bind_eq_ok.1 h
  exact ⟨x, (Except.ok.inj h).symm⟩

theorem exists_readRight_picked (h : c.Picked ps c') {d : Datum} (hd : readRight c cs = .ok d) :
    ∃ d', readRight c' cs = .ok d' ∧ d.Picked ps d' := by
  obtain ⟨name, s, hn, hs, rfl⟩ := readRight_eq_ok_iff.1 hd
  obtain ⟨cells, hc, rfl, -⟩ := Table.series_eq_ok_iff.1 hs
  obtain ⟨picked, hpicked, picks⟩ := Table.column_take? h.right hc
  obtain ⟨index, -⟩ := Table.take?_eq_some_iff.1 h.right
  have read : c'.right.series name = .ok ⟨some name, c'.right.index, picked⟩ :=
    Table.series_eq_ok_iff.2
      ⟨picked, hpicked, rfl, index.length_eq.symm.trans picks.length_eq⟩
  refine ⟨_, readRight_eq_ok_iff.2 ⟨name, _, hn, read, rfl⟩, ?_⟩
  exact Datum.picked_series (Series.take?_eq_some_iff.2 ⟨rfl, index, picks⟩)

/-- A tree that computes row by row has the picked rows of its value for picked right rows. -/
theorem evaluatesPicked (h : c.Picked ps c') {t : Tree} (ht : t.Rowwise) :
    EvaluatesPicked c c' ps t := by
  induction t using Tree.induction with
  | literal l =>
    intro env env' d hd
    refine ⟨d, hd, ?_⟩
    obtain rfl : l.datum = d := Except.ok.inj hd
    cases l <;> rfl
  | node a cs ih =>
    obtain ⟨ha, hcs⟩ := rowwise_node.1 ht
    have children : ∀ s ∈ cs, EvaluatesPicked c c' ps s := fun s hs => ih s hs (hcs s hs)
    intro env env' d hd
    cases a with
    | leftColumn =>
      have same : readLeft c' cs = readLeft c cs := by rw [readLeft, readLeft, h.left]
      obtain ⟨x, rfl⟩ := exists_scalar_of_readLeft hd
      exact ⟨.scalar x, same.trans hd, rfl⟩
    | rightColumn => exact exists_ofExcept_picked (fun r => exists_readRight_picked h) hd
    | lengthOfLeft =>
      obtain rfl := Except.ok.inj hd
      exact ⟨.scalar c'.lengthOfLeft, rfl, by rw [h.lengthOfLeft]; rfl⟩
    | lengthOfRight =>
      obtain rfl := Except.ok.inj hd
      exact ⟨.series c'.lengthOfRight, rfl, Datum.picked_series h.lengthOfRight⟩
    | lengthOfOverlap =>
      obtain rfl := Except.ok.inj hd
      exact ⟨.series c'.lengthOfOverlap, rfl, Datum.picked_series h.lengthOfOverlap⟩
    | fractionOfLeft =>
      have left : Datum.Picked ps (.scalar c.lengthOfLeft) (.scalar c'.lengthOfLeft) := by
        rw [h.lengthOfLeft]
        rfl
      exact exists_ofExcept_picked
        (fun r => Datum.exists_binary_picked left (Datum.picked_series h.lengthOfOverlap)) hd
    | fractionOfRight =>
      exact exists_ofExcept_picked (fun r => Datum.exists_binary_picked
        (Datum.picked_series h.lengthOfRight) (Datum.picked_series h.lengthOfOverlap)) hd
    | binary op =>
      refine exists_andThen_picked children (fun args args' hargs => ?_) hd
      exact exists_twoArguments_picked hargs fun v w v' w' hv hw =>
        exists_ofExcept_picked fun r => Datum.exists_binary_picked hv hw
    | unary op =>
      refine exists_andThen_picked children (fun args args' hargs => ?_) hd
      exact exists_oneArgument_picked hargs fun v v' hv =>
        exists_ofExcept_picked fun r => Datum.exists_unary_picked hv
    | castTo =>
      refine exists_andThen_picked children (fun args args' hargs => ?_) hd
      refine exists_twoArguments_picked hargs fun v w v' w' hv _ =>
        exists_ofExcept_picked fun r hr => ?_
      obtain ⟨name, hn, hr⟩ := Outcome.bind_eq_ok.1 hr
      obtain ⟨kind, hk, hr⟩ := Outcome.bind_eq_ok.1 hr
      obtain ⟨r', hr', picked⟩ := Datum.exists_cast_picked hv hr
      exact ⟨r', by rw [hn, Outcome.ok_bind, hk, Outcome.ok_bind, hr'], picked⟩
    | nameAs =>
      refine exists_andThen_picked children (fun args args' hargs => ?_) hd
      refine exists_twoArguments_picked hargs fun v w v' w' hv _ hr => ?_
      obtain rfl := Except.ok.inj hr
      exact ⟨v', rfl, hv⟩
    | _ => cases ha

/-- **Evaluation goes row by row.** If all nodes of a tree compute row by row, then picking right
rows before the evaluation gives what picking them afterwards gives: the same scalar, or the picked
rows of the series under the same name. Rows may be picked in any order and more than once. -/
theorem eval_takeRight {c : Context} (built : c.Built) (aligned : c.Aligned) {ps : List Nat}
    (hp : ∀ p ∈ ps, p < c.right.rows) {t : Tree} (ht : t.Rowwise) :
    ∃ c', c.takeRight? ps = some c' ∧
      (∀ x, t.eval c = .ok (.scalar x) → t.eval c' = .ok (.scalar x)) ∧
      ∀ s, t.eval c = .ok (.series s) →
        ∃ s', s.take? ps = some s' ∧ s'.name = s.name ∧ t.eval c' = .ok (.series s') := by
  obtain ⟨c', hc', picked⟩ := Context.exists_takeRight? built aligned hp
  refine ⟨c', hc', fun x hx => ?_, fun s hs => ?_⟩
  · obtain ⟨d', hd', rfl⟩ := evaluatesPicked picked ht .empty .empty _ hx
    exact hd'
  · obtain ⟨d', hd', s', rfl, hs'⟩ := evaluatesPicked picked ht .empty .empty _ hs
    exact ⟨s', hs', (Series.take?_eq_some_iff.1 hs').1, hd'⟩

/-- A column of the right rows with their overlaps added, under the name of its own. -/
def withOverlaps : Tree :=
  .node .nameAs [.node (.binary .add) [rightColumn "x", .node .lengthOfOverlap []], ofText "y"]

theorem eval_takeRight_withOverlaps : twoRoads.Built ∧ twoRoads.Aligned ∧ withOverlaps.Rowwise ∧
    withOverlaps.eval twoRoads =
      .ok (.series ⟨none, [.text "a", .text "b"], [.int 6, .int 9]⟩) ∧
    ∃ c', twoRoads.takeRight? [1, 0, 1] = some c' ∧ withOverlaps.eval c' =
      .ok (.series ⟨none, [.text "b", .text "a", .text "b"], [.int 9, .int 6, .int 9]⟩) := by
  have rowwise : withOverlaps.Rowwise := by
    simp [withOverlaps, rightColumn, ofText, rowwise_node, rowwise_literal, Action.isRowwise]
  have inside : ∀ p ∈ [1, 0, 1], p < twoRoads.right.rows := by decide
  obtain ⟨c', hc', -, series⟩ := eval_takeRight built_twoRoads aligned_twoRoads inside rowwise
  obtain ⟨s', hs', -, value⟩ := series ⟨none, [.text "a", .text "b"], [.int 6, .int 9]⟩ rfl
  obtain rfl := Option.some.inj hs'
  exact ⟨built_twoRoads, aligned_twoRoads, rowwise, rfl, c', hc', value⟩

end Tree

end SpanJoin
