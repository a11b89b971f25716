import SpanJoin.Proofs.Datum.SideBySide
import SpanJoin.Proofs.Eval.Simulation
import SpanJoin.Proofs.Eval.Soundness

/-!
# Evaluating columns side by side

A side-by-side node evaluates its children from left to right, and each contributes columns: a
series one, under the name of its tree or, if the tree has none, under its own name, and a frame all
of its columns (`Tree.Contributes`). As long as no label is a floating-point number, the node is an
outer join that loses and invents nothing (`Tree.evalIn_hstack_outer`), and a node within a node can
be replaced by its children (`Tree.evalIn_hstack_flatten`).
-/

namespace SpanJoin

namespace Tree

variable {c : Context} {env env' : Environment} {t : Tree} {ts xs ys zs : List Tree}
  {d : Datum} {ps : List Part}

/-! ## One child after the other -/

/-- The columns of two lists of children are those of the first and, from the environment that these
leave, those of the second. -/
theorem partsEach_append_eq_iff : partsEach c (xs ++ ys) env = (.ok ps, env') ↔
    ∃ qs env₁ rs, partsEach c xs env = (.ok qs, env₁) ∧ partsEach c ys env₁ = (.ok rs, env') ∧
      qs ++ rs = ps := by
  induction xs generalizing env ps with
  | nil => simp [partsEach]
  | cons t ts ih =>
    simp only [List.cons_append, partsEach_cons_eq_iff, ih]
    constructor
    · rintro ⟨d, env₁, qs, _, hd, hq, ⟨rs, env₂, us, hr, hu, rfl⟩, rfl⟩
      exact ⟨_, env₂, us, ⟨d, env₁, qs, rs, hd, hq, hr, rfl⟩, hu, List.append_assoc _ _ _⟩
    · rintro ⟨_, env₂, us, ⟨d, env₁, qs, rs, hd, hq, hr, rfl⟩, hu, rfl⟩
      exact ⟨d, env₁, qs, _, hd, hq, ⟨rs, env₂, us, hr, hu, rfl⟩, (List.append_assoc _ _ _).symm⟩

theorem evalIn_hstack_eq_iff : (node .hstack ts).evalIn c env = (.ok d, env') ↔
    ∃ ps, partsEach c ts env = (.ok ps, env') ∧ Part.stack ps = .ok d := by
  rw [evalIn, Evaluated.andThen_eq_iff]

/-! ## Outer joins -/

/-- What a child contributes: a series under the name of the tree or, where there is none, under its
own name, and the columns of a frame. -/
inductive Contributes (t : Tree) : Datum → List Part → Prop
  | named {s : Series} {name : String} (h : t.outputName = .ok name) :
      Contributes t (.series s) [⟨name, s⟩]
  | unnamed {s : Series} {name : String} {e : TreeError} (h : t.outputName = .error (.error e))
      (hs : s.name = some name) : Contributes t (.series s) [⟨name, s⟩]
  | columns (f : Table) : Contributes t (.frame f) (f.columns.map (Part.ofColumn f.index))

/-- What the children contribute with their values, from left to right. -/
inductive Contribute : List Tree → List Datum → List Part → Prop
  | nil : Contribute [] [] []
  | cons {t : Tree} {ts : List Tree} {d : Datum} {ds : List Datum} {ps qs : List Part}
      (first : t.Contributes d ps) (rest : Contribute ts ds qs) :
      Contribute (t :: ts) (d :: ds) (ps ++ qs)

theorem Contributes.parts_eq {P : List Cell → Prop} (h : t.Contributes d ps) (hd : d.Sound P) :
    t.parts d = .ok ps := by
  cases h with
  | named h => simp only [parts, h]
  | unnamed h hs => simp only [parts, h, hs]
  | columns f => exact Outcome.ofExcept_eq_ok.2 (Part.ofTable_eq_ok hd.wellFormed.lengths)

theorem Contribute.partsEach_eq {P : List Cell → Prop} {ds : List Datum}
    (h : Contribute ts ds ps) (sound : ∀ d ∈ ds, d.Sound P)
    (values : evalEach c ts env = (.ok ds, env')) : partsEach c ts env = (.ok ps, env') := by
  induction h generalizing env with
  | nil => simpa [evalEach, partsEach] using values
  | cons first _ ih =>
    obtain ⟨hd, hds⟩ := List.forall_mem_cons.1 sound
    obtain ⟨_, env₁, _, value, values, ⟨⟩⟩ := evalEach_cons_eq_iff.1 values
    exact partsEach_cons_eq_iff.2 ⟨_, env₁, _, _, value, first.parts_eq hd, ih hds values, rfl⟩

/-- **Side by side is an outer join.** If the children contribute parts with different names, and
every part has labels of its own none of which is a floating-point number, the node is a frame. Its
rows are the labels of the parts in order of first appearance, and it has one column for each part,
which holds the part under its labels and `null` everywhere else. -/
theorem evalIn_hstack_outer {c : Context} (built : c.Built) {env env' : Environment}
    (he : env.Sound fun _ => True) {ts : List Tree} {ds : List Datum} {ps : List Part}
    (values : evalEach c ts env = (.ok ds, env')) (parts : Contribute ts ds ps)
    (names : (ps.map Part.name).Nodup) (nodup : ∀ p ∈ ps, p.series.index.Nodup)
    (clean : ∀ p ∈ ps, ∀ l ∈ p.series.index, l.isFloat = false) :
    ∃ f : Table, (node .hstack ts).evalIn c env = (.ok (.frame f), env') ∧
      FirstsOf (Part.allLabels ps) f.index ∧ List.Forall₂ (Part.Holds f.index) ps f.columns := by
  have children : ∀ t ∈ ts, ∀ env : Environment, env.Sound (fun _ => True) →
      (t.evalIn c env).Meets False (fun _ => True) (Datum.Sound fun _ => True) :=
    fun t _ env he => evalIn_meets built.sound heritable_true nofun he
  have sound : ∀ d ∈ ds, d.Sound fun _ => True := by
    have meets := (evalEach_meets children he).1
    rw [values] at meets
    exact meets
  have each : partsEach c ts env = (.ok ps, env') := parts.partsEach_eq sound values
  have wellFormed : ∀ p ∈ ps, p.series.WellFormed := by
    have meets := (partsEach_meets children (fun _ _ => nofun) he).1
    rw [each] at meets
    exact meets
  have noFloats : NoFloats (Part.allLabels ps) := fun l hl => by
    obtain ⟨p, hp, hl⟩ := List.mem_flatMap.1 hl
    exact clean p hp l hl
  obtain ⟨f, hf, rows, columns⟩ := Part.exists_stack_holds names wellFormed nodup noFloats
  exact ⟨f, evalIn_hstack_eq_iff.2 ⟨ps, each, hf⟩, rows, columns⟩

/-- The cells of a column that exceed 6. -/
def overLimit : Tree :=
  nameAs (filter (rightColumn "x") (binary .gt (rightColumn "x") (.literal (.int 6)))) "over"

/-- Some of the right rows, columns of all of them, and totals under labels of their own. -/
def roadColumns : List Tree :=
  [overLimit, .node .hstack [rightColumn "x", lengthOfRight], totalsByLimit]

/-- What these contribute for the two right rows. -/
def roadParts : List Part :=
  [⟨"over", some "x", [.text "b"], [.int 7]⟩,
    ⟨"x", none, [.text "a", .text "b"], [.int 5, .int 7]⟩,
    ⟨"length_of_right", none, [.text "a", .text "b"], [.int 1, .int 2]⟩,
    ⟨"sum(groupby(x,>(x,6)))", totalsOfTwoRoads⟩]

/-- Their frame. -/
def roadFrame : Table :=
  ⟨[.text "b", .text "a", .bool false, .bool true],
    [⟨"over", [.int 7, .null, .null, .null]⟩, ⟨"x", [.int 7, .int 5, .null, .null]⟩,
      ⟨"length_of_right", [.int 2, .int 1, .null, .null]⟩,
      ⟨"sum(groupby(x,>(x,6)))", [.null, .null, .int 5, .int 7]⟩]⟩

theorem evalIn_roadColumns :
    (node .hstack roadColumns).evalIn twoRoads .empty = (.ok (.frame roadFrame), .empty) := rfl

theorem evalIn_hstack_outer_roads : ∃ ds, twoRoads.Built ∧ Environment.empty.Sound (fun _ => True) ∧
    evalEach twoRoads roadColumns .empty = (.ok ds, .empty) ∧ Contribute roadColumns ds roadParts ∧
    (roadParts.map Part.name).Nodup ∧ (∀ p ∈ roadParts, p.series.index.Nodup) ∧
    (∀ p ∈ roadParts, ∀ l ∈ p.series.index, l.isFloat = false) ∧
    (node .hstack roadColumns).evalIn twoRoads .empty = (.ok (.frame roadFrame), .empty) ∧
    FirstsOf (Part.allLabels roadParts) roadFrame.index ∧
    List.Forall₂ (Part.Holds roadFrame.index) roadParts roadFrame.columns := by
  obtain ⟨ds, values, parts⟩ : ∃ ds, evalEach twoRoads roadColumns .empty = (.ok ds, .empty) ∧
      Contribute roadColumns ds roadParts :=
    ⟨_, rfl, .cons (.named rfl) (.cons (.columns _) (.cons (.named rfl) .nil))⟩
  have names : (roadParts.map Part.name).Nodup := by decide
  have nodup : ∀ p ∈ roadParts, p.series.index.Nodup := by decide
  have clean : ∀ p ∈ roadParts, ∀ l ∈ p.series.index, l.isFloat = false := by decide
  obtain ⟨f, hf, rows, columns⟩ := evalIn_hstack_outer built_twoRoads Environment.sound_empty values
    parts names nodup clean
  have same : (.ok (.frame roadFrame), .empty) = ((.ok (.frame f), .empty) : Evaluated Datum) :=
    evalIn_roadColumns.symm.trans hf
  cases same
  exact ⟨ds, built_twoRoads, Environment.sound_empty, values, parts, names, nodup, clean,
    evalIn_roadColumns, rows, columns⟩

/-! ## A node within a node -/

/-- The columns of an inner node are those of its frame. -/
theorem partsEach_hstack_cons_eq_iff :
    partsEach c (node .hstack ys :: zs) env = (.ok ps, env') ↔
      ∃ qs env₁ f us rs, partsEach c ys env = (.ok qs, env₁) ∧
        Part.stack qs = .ok (.frame f) ∧ Part.ofTable f = .ok us ∧
        partsEach c zs env₁ = (.ok rs, env') ∧ us ++ rs = ps := by
  simp only [partsEach_cons_eq_iff, evalIn_hstack_eq_iff]
  constructor
  · rintro ⟨d, env₁, us, rs, ⟨qs, hq, hs⟩, hu, hr, rfl⟩
    obtain ⟨-, columns, -, rfl⟩ := Part.stack_eq_ok_iff.1 hs
    exact ⟨qs, env₁, _, us, rs, hq, hs, Outcome.ofExcept_eq_ok.1 hu, hr, rfl⟩
  · rintro ⟨qs, env₁, f, us, rs, hq, hs, hu, hr, rfl⟩
    exact ⟨_, env₁, us, rs, ⟨qs, hq, hs⟩, Outcome.ofExcept_eq_ok.2 hu, hr, rfl⟩

/-- **Nodes within nodes flatten.** If no label of the parts is a floating-point number, a
side-by-side node among the children of another one can be replaced by its own children: the frame
is there in the same cases, it is the same frame, and the same is bound in the end. -/
theorem evalIn_hstack_flatten {c : Context} {env : Environment} {xs ys zs : List Tree}
    (clean : ∀ ps env', partsEach c (xs ++ ys ++ zs) env = (.ok ps, env') →
      ∀ p ∈ ps, ∀ l ∈ p.series.index, l.isFloat = false)
    (f : Table) (env' : Environment) :
    (node .hstack (xs ++ node .hstack ys :: zs)).evalIn c env = (.ok (.frame f), env') ↔
      (node .hstack (xs ++ ys ++ zs)).evalIn c env = (.ok (.frame f), env') := by
  have noFloats {ps env'} (h : partsEach c (xs ++ ys ++ zs) env = (.ok ps, env')) :
      NoFloats (Part.allLabels ps) := fun l hl => by
    obtain ⟨p, hp, hl⟩ := List.mem_flatMap.1 hl
    exact clean ps env' h p hp l hl
  simp only [evalIn_hstack_eq_iff]
  constructor
  · rintro ⟨_, h, hf⟩
    obtain ⟨ps, env₁, _, hp, hrest, rfl⟩ := partsEach_append_eq_iff.1 h
    obtain ⟨qs, env₂, g, us, rs, hq, hg, hu, hr, rfl⟩ := partsEach_hstack_cons_eq_iff.1 hrest
    have flat : partsEach c (xs ++ ys ++ zs) env = (.ok (ps ++ qs ++ rs), env') :=
      partsEach_append_eq_iff.2 ⟨_, env₂, rs,
        partsEach_append_eq_iff.2 ⟨ps, env₁, qs, hp, hq, rfl⟩, hr, rfl⟩
    have all := noFloats flat
    obtain ⟨us', hu', restacked⟩ := Part.exists_restacked (Part.noFloats_middle all) hg
    obtain rfl : us = us' := Except.ok.inj (hu.symm.trans hu')
    refine ⟨_, flat, ?_⟩
    rw [← restacked.stack_eq all, List.append_assoc, hf]
  · rintro ⟨_, h, hf⟩
    obtain ⟨_, env₂, rs, hxy, hr, rfl⟩ := partsEach_append_eq_iff.1 h
    obtain ⟨ps, env₁, qs, hp, hq, rfl⟩ := partsEach_append_eq_iff.1 hxy
    have all : NoFloats (Part.allLabels (ps ++ qs ++ rs)) := noFloats h
    obtain ⟨g, hg⟩ := Part.exists_stack_of_append all hf
    obtain ⟨us, hu, restacked⟩ := Part.exists_restacked (Part.noFloats_middle all) hg
    refine ⟨ps ++ (us ++ rs), partsEach_append_eq_iff.2 ⟨ps, env₁, us ++ rs, hp, ?_, rfl⟩, ?_⟩
    · exact partsEach_hstack_cons_eq_iff.2 ⟨qs, env₂, g, us, rs, hq, hg, hu, hr, rfl⟩
    · rw [← List.append_assoc, restacked.stack_eq all, hf]

/-- The columns of `roadColumns` without a node of their own. -/
def flatRoadColumns : List Tree :=
  [overLimit] ++ [rightColumn "x", lengthOfRight] ++ [totalsByLimit]

theorem evalIn_hstack_flatten_roads :
    (∀ ps env', partsEach twoRoads flatRoadColumns .empty = (.ok ps, env') →
      ∀ p ∈ ps, ∀ l ∈ p.series.index, l.isFloat = false) ∧
    (node .hstack roadColumns).evalIn twoRoads .empty = (.ok (.frame roadFrame), .empty) ∧
    (node .hstack flatRoadColumns).evalIn twoRoads .empty = (.ok (.frame roadFrame), .empty) := by
  have clean : ∀ ps env', partsEach twoRoads flatRoadColumns .empty = (.ok ps, env') →
      ∀ p ∈ ps, ∀ l ∈ p.series.index, l.isFloat = false := by
    intro ps env' h
    obtain ⟨qs, hqs, labels⟩ : ∃ qs, partsEach twoRoads flatRoadColumns .empty = (.ok qs, .empty) ∧
        ∀ p ∈ qs, ∀ l ∈ p.series.index, l.isFloat = false := ⟨_, rfl, by decide⟩
    rw [hqs] at h
    cases h
    exact labels
  exact ⟨clean, evalIn_roadColumns, (evalIn_hstack_flatten clean _ _).1 evalIn_roadColumns⟩

end Tree

end SpanJoin
