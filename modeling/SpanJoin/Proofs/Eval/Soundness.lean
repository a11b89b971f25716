import SpanJoin.Eval.Basic
import SpanJoin.Proofs.Datum.Relabelled
import SpanJoin.Proofs.Tree.Accepted

/-!
# Evaluation keeps data sound

In a sound context and from sound bindings every tree evaluates to sound data and leaves sound
bindings; if the tree is accepted, the evaluation is not led to a missing position either
(`Tree.evalIn_meets`). The induction is over the tree, and its steps are what is known of the
operations on data. With labels that are apart this is an invariant of evaluation, for accepted
trees and others: labels stay apart, so that a look-up by label never has a choice
(`Tree.evalIn_labels_apart`).
-/

namespace SpanJoin

/-! ## Contexts and bindings -/

namespace Context

/-- The tables and series of the context are well-formed, and the left row is there. -/
structure Built (c : Context) : Prop where
  left : c.left.table.WellFormed
  position : c.left.position < c.left.table.rows
  right : c.right.WellFormed
  lengthOfRight : c.lengthOfRight.WellFormed
  lengthOfOverlap : c.lengthOfOverlap.WellFormed

/-- The lengths and the overlaps carry the labels of the right rows. -/
structure Aligned (c : Context) : Prop where
  lengthOfRight : c.lengthOfRight.index = c.right.index
  lengthOfOverlap : c.lengthOfOverlap.index = c.right.index

/-- The context is well-formed, and the labels on the right have the property. -/
structure Sound (P : List Cell → Prop) (c : Context) : Prop where
  built : c.Built
  right : P c.right.index
  lengthOfRight : P c.lengthOfRight.index
  lengthOfOverlap : P c.lengthOfOverlap.index

variable {P : List Cell → Prop} {c : Context}

/-- Without a demand on labels a well-formed context is sound. -/
theorem Built.sound (h : c.Built) : c.Sound fun _ => True := ⟨h, trivial, trivial, trivial⟩

theorem Aligned.sound (h : c.Aligned) (built : c.Built) (hP : P c.right.index) : c.Sound P where
  built := built
  right := hP
  lengthOfRight := h.lengthOfRight ▸ hP
  lengthOfOverlap := h.lengthOfOverlap ▸ hP

theorem Sound.sound_lengthOfRight (h : c.Sound P) : (Datum.series c.lengthOfRight).Sound P :=
  ⟨h.built.lengthOfRight, h.lengthOfRight⟩

theorem Sound.sound_lengthOfOverlap (h : c.Sound P) : (Datum.series c.lengthOfOverlap).Sound P :=
  ⟨h.built.lengthOfOverlap, h.lengthOfOverlap⟩

end Context

/-- All data that is bound is sound. -/
def Environment.Sound (P : List Cell → Prop) (env : Environment) : Prop :=
  ∀ name d, env.get? name = some d → d.Sound P

theorem Environment.sound_empty {P : List Cell → Prop} : Environment.empty.Sound P := by
  intro name d h
  cases h

theorem Environment.Sound.bind {P : List Cell → Prop} {env : Environment} (h : env.Sound P)
    (name : String) {d : Datum} (hd : d.Sound P) : (env.bind name d).Sound P := by
  intro other e he
  rw [get?_bind] at he
  split at he
  · obtain rfl := Option.some.inj he
    exact hd
  · exact h other e he

/-- An answer has the property, a missing position is read only if `safe` fails, and what is bound
in the end is sound. -/
def Evaluated.Meets {α : Type} (safe : Prop) (P : List Cell → Prop) (Q : α → Prop)
    (r : Evaluated α) : Prop :=
  Outcome.Meets safe Q r.1 ∧ r.2.Sound P

theorem Evaluated.Meets.andThen {α β : Type} {safe : Prop} {P : List Cell → Prop} {Q : α → Prop}
    {R : β → Prop} {r : Evaluated α} {f : α → Outcome TreeError β} (h : r.Meets safe P Q)
    (hf : ∀ a, Q a → Outcome.Meets safe R (f a)) : (r.andThen f).Meets safe P R := by
  obtain ⟨(e | _) | a, env⟩ := r
  · exact ⟨trivial, h.2⟩
  · exact h
  · exact ⟨hf a h.1, h.2⟩

namespace Tree

variable {c : Context} {P : List Cell → Prop} {safe : Prop} {env : Environment} {cs : List Tree}

/-! ## Lists of trees -/

theorem evalEach_meets
    (h : ∀ t ∈ cs, ∀ env, env.Sound P → (t.evalIn c env).Meets safe P (Datum.Sound P))
    (he : env.Sound P) : (evalEach c cs env).Meets safe P fun ds => ∀ d ∈ ds, d.Sound P := by
  induction cs generalizing env with
  | nil => exact ⟨nofun, he⟩
  | cons t ts ih =>
    have first := h t List.mem_cons_self env he
    rw [evalEach]
    revert first
    rcases t.evalIn c env with ⟨(e | _) | d, env'⟩ <;> intro first
    · exact ⟨trivial, first.2⟩
    · exact first
    · refine (ih (fun s hs => h s (List.mem_cons_of_mem t hs)) first.2).andThen fun ds hds => ?_
      rw [Outcome.meets_ok, List.forall_mem_cons]
      exact ⟨first.1, hds⟩

/-- The columns of a child are well-formed, and a name is missing a child only if that of the tree
is. -/
theorem parts_meets {t : Tree} (ht : safe → t.outputName ≠ .error .outOfRange) {d : Datum}
    (hd : d.Sound P) :
    Outcome.Meets safe (fun ps => ∀ p ∈ ps, p.series.WellFormed) (t.parts d) := by
  unfold parts
  split
  · split
    · simpa using hd.wellFormed
    · rename_i h
      exact fun hs => ht hs h
    · simpa using hd.wellFormed
    · exact Outcome.meets_error _
  · exact Outcome.meets_ofExcept.2 fun ps hps => Part.wellFormed_of_ofTable hps
  · exact Outcome.meets_error _

theorem partsEach_meets
    (h : ∀ t ∈ cs, ∀ env, env.Sound P → (t.evalIn c env).Meets safe P (Datum.Sound P))
    (ht : ∀ t ∈ cs, safe → t.outputName ≠ .error .outOfRange) (he : env.Sound P) :
    (partsEach c cs env).Meets safe P fun ps => ∀ p ∈ ps, p.series.WellFormed := by
  induction cs generalizing env with
  | nil => exact ⟨nofun, he⟩
  | cons t ts ih =>
    have first := h t List.mem_cons_self env he
    rw [partsEach]
    revert first
    rcases t.evalIn c env with ⟨(e | _) | d, env'⟩ <;> intro first
    · exact ⟨trivial, first.2⟩
    · exact first
    · have here := parts_meets (ht t List.mem_cons_self) first.1
      dsimp only
      revert here
      rcases t.parts d with (e | _) | ps <;> intro here
      · exact ⟨trivial, first.2⟩
      · exact ⟨here, first.2⟩
      · refine (ih (fun s hs => h s (List.mem_cons_of_mem t hs))
          (fun s hs => ht s (List.mem_cons_of_mem t hs)) first.2).andThen fun qs hqs => ?_
        intro p hp
        exact (List.mem_append.1 hp).elim (here p) (hqs p)

/-! ## Nodes -/

/-- A column of the right rows is read as a series. -/
theorem readRight_eq_ok_iff {d : Datum} : readRight c cs = .ok d ↔
    ∃ name s, textAt .rightColumn cs 0 = .ok name ∧ c.right.series name = .ok s ∧
      d = .series s := by
  unfold readRight
  constructor
  · intro h
    obtain ⟨name, hn, h⟩ := Outcome.bind_eq_ok.1 h
    obtain ⟨s, hs, h⟩ := Outcome.bind_eq_ok.1 h
    exact ⟨name, s, hn, Outcome.exceptMapError_eq_ok.1 hs, (Except.ok.inj h).symm⟩
  · rintro ⟨name, s, hn, hs, rfl⟩
    rw [hn, Outcome.ok_bind, hs]
    rfl

section

variable {α : Type} {R : α → Prop} {args : List Datum}

theorem oneArgument_meets {f : Datum → Outcome TreeError α} (h : ∀ d ∈ args, d.Sound P)
    (hf : ∀ d : Datum, d.Sound P → Outcome.Meets safe R (f d)) (action : Action) :
    Outcome.Meets safe R (oneArgument action f args) := by
  unfold oneArgument
  split
  · exact hf _ (h _ (by simp))
  · exact Outcome.meets_error _

theorem twoArguments_meets {f : Datum → Datum → Outcome TreeError α} (h : ∀ d ∈ args, d.Sound P)
    (hf : ∀ d e : Datum, d.Sound P → e.Sound P → Outcome.Meets safe R (f d e)) (action : Action) :
    Outcome.Meets safe R (twoArguments action f args) := by
  unfold twoArguments
  split
  · exact hf _ _ (h _ (by simp)) (h _ (by simp))
  · exact Outcome.meets_error _

theorem castResult_meets (h : ∀ d ∈ args, d.Sound P) :
    Outcome.Meets safe (Datum.Sound P) (castResult cs args) := by
  refine twoArguments_meets h (fun d _ hd _ => Outcome.meets_ofExcept.2 fun r hr => ?_) _
  obtain ⟨name, -, hr⟩ := Outcome.bind_eq_ok.1 hr
  obtain ⟨kind, -, hr⟩ := Outcome.bind_eq_ok.1 hr
  exact Datum.sound_cast hd hr

theorem bindResult_meets (h : ∀ d ∈ args, d.Sound P) (he : env.Sound P) :
    (bindResult cs args env).Meets safe P (Datum.Sound P) := by
  have value : Outcome.Meets safe (Datum.Sound P) (twoArguments .declare (fun _ d => .ok d) args) :=
    twoArguments_meets h (fun _ d _ hd => Outcome.meets_ok.2 hd) _
  unfold bindResult
  revert value
  rcases twoArguments .declare (fun _ d => .ok d) args with (e | _) | d <;> intro value
  · exact ⟨trivial, he⟩
  · exact ⟨value, he⟩
  · dsimp only
    split
    · exact ⟨trivial, he⟩
    · exact ⟨trivial, he.bind _ value⟩

theorem lastResult_sound (h : ∀ d ∈ args, d.Sound P) : (lastResult args).Sound P := by
  unfold lastResult
  cases hl : args.getLast? with
  | none => trivial
  | some d => exact h d (List.mem_of_getLast? hl)

end

section

variable (hc : c.Sound P)
include hc

theorem readLeft_meets : Outcome.Meets safe (Datum.Sound P) (readLeft c cs) := by
  unfold readLeft
  refine (Outcome.meets_ofExcept_eq _).bind fun name _ => ?_
  have cell : Outcome.Meets safe (fun _ => True) (c.left.get name) :=
    hc.built.left.get_meets hc.built.position name
  exact (cell.mapError _).bind fun _ _ => trivial

theorem readRight_sound {d : Datum} (h : readRight c cs = .ok d) : d.Sound P := by
  obtain ⟨name, s, -, hs, rfl⟩ := readRight_eq_ok_iff.1 h
  obtain ⟨cells, -, rfl, hw⟩ := Table.series_eq_ok_iff.1 hs
  exact ⟨hw, hc.right⟩

omit hc in
theorem readName_sound (he : env.Sound P) {d : Datum} (h : readName env cs = .ok d) :
    d.Sound P := by
  unfold readName at h
  obtain ⟨name, -, h⟩ := Outcome.bind_eq_ok.1 h
  cases hb : env.get? name with
  | none =>
    rw [hb] at h
    cases h
  | some e =>
    rw [hb] at h
    obtain rfl := Except.ok.inj h
    exact he name e hb

/-- Evaluating a tree gives sound data and leaves sound bindings, and it is not led to a missing
position if the tree is accepted. -/
theorem evalIn_meets (hP : Heritable P) {t : Tree} (ht : safe → t.accepted = true)
    (he : env.Sound P) : (t.evalIn c env).Meets safe P (Datum.Sound P) := by
  induction t using Tree.induction generalizing env with
  | literal l =>
    refine ⟨?_, he⟩
    cases l <;> trivial
  | node a cs ih =>
    have children : ∀ s ∈ cs, ∀ env, env.Sound P → (s.evalIn c env).Meets safe P (Datum.Sound P) :=
      fun s hs env he => ih s hs (fun h => (accepted_node.1 (ht h)).2 s hs) he
    have each := evalEach_meets children he
    cases a with
    | leftColumn => exact ⟨readLeft_meets hc, he⟩
    | rightColumn => exact ⟨Outcome.meets_ofExcept.2 fun d hd => readRight_sound hc hd, he⟩
    | refer => exact ⟨Outcome.meets_ofExcept.2 fun d hd => readName_sound he hd, he⟩
    | lengthOfLeft => exact ⟨trivial, he⟩
    | lengthOfRight => exact ⟨hc.sound_lengthOfRight, he⟩
    | lengthOfOverlap => exact ⟨hc.sound_lengthOfOverlap, he⟩
    | fractionOfLeft =>
      exact ⟨Outcome.meets_ofExcept.2 fun d hd =>
        Datum.sound_binary (d := .scalar _) trivial hc.sound_lengthOfOverlap hd, he⟩
    | fractionOfRight =>
      exact ⟨Outcome.meets_ofExcept.2 fun d hd =>
        Datum.sound_binary hc.sound_lengthOfRight hc.sound_lengthOfOverlap hd, he⟩
    | hstack =>
      have names : ∀ s ∈ cs, safe → s.outputName ≠ .error .outOfRange := fun s hs h =>
        outputName_ne_outOfRange ((accepted_node.1 (ht h)).2 s hs)
      exact (partsEach_meets children names he).andThen fun ps hps => Part.stack_meets hP hps
    | binary op =>
      exact each.andThen fun args h => twoArguments_meets h
        (fun d e hd he => Outcome.meets_ofExcept.2 fun r hr => Datum.sound_binary hd he hr) _
    | unary op =>
      exact each.andThen fun args h => oneArgument_meets h
        (fun d hd => Outcome.meets_ofExcept.2 fun r hr => Datum.sound_unary hd hr) _
    | sum => exact each.andThen fun args h => oneArgument_meets h (fun d => Datum.sum_meets hP) _
    | filter =>
      exact each.andThen fun args h =>
        twoArguments_meets h (fun d e hd he => Datum.filter_meets hP hd he) _
    | sliceLabel | sliceInteger =>
      exact each.andThen fun args h =>
        twoArguments_meets h (fun d e hd _ => Datum.slice_meets hP hd _) _
    | castTo => exact each.andThen fun args h => castResult_meets h
    | indexOfMax =>
      exact each.andThen fun args h => oneArgument_meets h (fun d => Datum.indexOfMax_meets) _
    | atIndex =>
      exact each.andThen fun args h =>
        twoArguments_meets h (fun d e hd _ => Datum.atIndex_meets hd) _
    | nameAs =>
      exact each.andThen fun args h => twoArguments_meets h
        (fun d _ hd _ => Outcome.meets_ok.2 hd) _
    | groupBy =>
      exact each.andThen fun args h => twoArguments_meets h
        (fun d e hd he => Outcome.meets_ofExcept.2 fun r hr => Datum.sound_groupBy hd he hr) _
    | declare =>
      rw [evalIn]
      revert each
      rcases evalEach c cs env with ⟨(e | _) | args, env'⟩ <;> intro each
      · exact ⟨trivial, each.2⟩
      · exact each
      · exact bindResult_meets each.1 each.2
    | execute => exact each.andThen fun args h => lastResult_sound h

end

/-- **Evaluation keeps labels apart.** If no two right rows have matching labels, and no two labels
in anything that is bound match, then the same holds of the value of a tree and of everything that
is bound after its evaluation; lengths and names of columns are in order as well. -/
theorem evalIn_labels_apart {c : Context} (built : c.Built) (aligned : c.Aligned)
    (apart : Cell.Apart c.right.index) {env : Environment} (he : env.Sound Cell.Apart) (t : Tree)
    {d : Datum} {env' : Environment} (h : t.evalIn c env = (.ok d, env')) :
    d.Sound Cell.Apart ∧ env'.Sound Cell.Apart := by
  have meets : (t.evalIn c env).Meets False Cell.Apart (Datum.Sound Cell.Apart) :=
    evalIn_meets (aligned.sound built apart) heritable_apart nofun he
  rw [h] at meets
  exact meets

/-- Two right rows with labels of their own. -/
def twoRoads : Context :=
  ⟨⟨⟨[.int 0], []⟩, 0⟩, ⟨[.text "a", .text "b"], [⟨"x", [.int 5, .int 7]⟩]⟩, .int 3,
    ⟨none, [.text "a", .text "b"], [.int 1, .int 2]⟩,
    ⟨none, [.text "a", .text "b"], [.int 1, .int 2]⟩⟩

theorem built_twoRoads : twoRoads.Built :=
  ⟨⟨by decide, by decide⟩, by decide, ⟨by decide, by decide⟩, rfl, rfl⟩

theorem aligned_twoRoads : twoRoads.Aligned := ⟨rfl, rfl⟩

/-- The totals of a column by whether its cells exceed 6. -/
def totalsByLimit : Tree :=
  .node .sum [.node .groupBy [rightColumn "x",
    .node (.binary .gt) [rightColumn "x", .literal (.int 6)]]]

/-- The totals for the two right rows. -/
def totalsOfTwoRoads : Series := ⟨some "x", [.bool false, .bool true], [.int 5, .int 7]⟩

theorem evalIn_labels_apart_totals : twoRoads.Built ∧ twoRoads.Aligned ∧
    Cell.Apart twoRoads.right.index ∧ Environment.empty.Sound Cell.Apart ∧
    totalsByLimit.evalIn twoRoads .empty = (.ok (.series totalsOfTwoRoads), .empty) ∧
    totalsOfTwoRoads.Sound Cell.Apart := by
  have apart : Cell.Apart twoRoads.right.index := by
    unfold Cell.Apart
    decide
  have value : totalsByLimit.evalIn twoRoads .empty = (.ok (.series totalsOfTwoRoads), .empty) :=
    rfl
  exact ⟨built_twoRoads, aligned_twoRoads, apart, Environment.sound_empty, value,
    (evalIn_labels_apart built_twoRoads aligned_twoRoads apart Environment.sound_empty
      totalsByLimit value).1⟩

end Tree

end SpanJoin
