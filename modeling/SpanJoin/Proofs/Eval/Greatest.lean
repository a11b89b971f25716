import SpanJoin.Proofs.Datum.Groups
import SpanJoin.Proofs.Eval.Simulation

/-!
# The greatest cell and its label

The loop over a series keeps the greatest of the cells before it and the first position where it
stands, and passes over missing cells (`Series.Leads`, `Series.leads_foldl`). Its answer is a label.
Where labels are apart and none is missing, the label leads back to the cell
(`Series.get?_of_apart`), so that looking up the label of the greatest cell gives this cell
(`Series.atIndex_indexOfMax`). Floating-point numbers are left out: the cells are compared by value,
in the order `Cell.Before`.
-/

namespace SpanJoin

/-! ## Cells of one kind -/

namespace Cell

variable {a b : Cell}

theorem exact_of_kind {kind : Kind} (exact : kind ≠ .float64) (h : a.kind? = some kind) :
    a.Exact := by
  cases a with
  | null => cases h
  | float x => exact absurd (Option.some.inj h).symm exact
  | _ => exact ⟨rfl, rfl⟩

/-- Among exact cells of one kind, the greater one is the one that comes after the other. -/
theorem compare?_eq_gt_iff (ha : a.Exact) (hb : b.Exact) (kind : a.kind? = b.kind?) :
    a.compare? b = some .gt ↔ b.Before a := by
  have compared : a.compare? b = some (a.orderKey b) := by
    cases a <;> cases b <;> simp only [kind?, Option.some.injEq, reduceCtorEq] at kind
    case bool.bool | int.int | text.text => rfl
    case null.null => cases ha.present
    case float.float => cases ha.notFloat
  rw [compared, Option.some.injEq]
  rcases orderKey_cases ha hb with ⟨same, e⟩ | ⟨before, e⟩ | ⟨after, e⟩ <;> rw [e]
  · simp only [reduceCtorEq, false_iff]
    rw [same]
    exact Before.irrefl b
  · simp only [reduceCtorEq, false_iff]
    exact fun after => Before.irrefl a (before.trans after)
  · simp only [true_iff]
    exact after

end Cell

/-- The cells that are not missing are integers, or texts, or truth values. -/
def OfOneKind (cells : List Cell) : Prop :=
  ∃ kind, kind ≠ Kind.float64 ∧ ∀ a ∈ cells, a.isMissing = false → a.kind? = some kind

/-- The cell stands at the position and at none before it, and no cell that is not missing comes
after it by value. -/
structure FirstGreatest (cells : List Cell) (position : Nat) (greatest : Cell) : Prop where
  at_position : cells[position]? = some greatest
  present : greatest.isMissing = false
  le_greatest : ∀ a ∈ cells, a.isMissing = false → a = greatest ∨ a.Before greatest
  first : ∀ p < position, cells[p]? ≠ some greatest

namespace Series

/-! ## The loop -/

theorem greaterCell_of_isMissing {best : Option (Cell × Nat)} {a : Cell} {p : Nat}
    (missing : a.isMissing = true) : greaterCell best (a, p) = best := by
  simp [greaterCell, missing]

theorem greaterCell_none {a : Cell} {p : Nat} (present : a.isMissing = false) :
    greaterCell none (a, p) = some (a, p) := by
  simp [greaterCell, present]

theorem greaterCell_some {a m : Cell} {p q : Nat} (present : a.isMissing = false) :
    greaterCell (some (m, q)) (a, p) =
      if a.compare? m = some .gt then some (a, p) else some (m, q) := by
  simp [greaterCell, present]

/-- What the loop has found among some cells: nothing if all are missing, else the greatest one with
its first position. -/
def Leads (cells : List Cell) : Option (Cell × Nat) → Prop
  | none => ∀ a ∈ cells, a.isMissing = true
  | some (greatest, position) => FirstGreatest cells position greatest

end Series

namespace FirstGreatest

variable {cells : List Cell} {a m : Cell} {p : Nat}

theorem lt_length (h : FirstGreatest cells p m) : p < cells.length :=
  (List.getElem?_eq_some_iff.1 h.at_position).1

/-- A cell that is missing, or does not come after the greatest one, changes nothing. -/
theorem append_of_le (h : FirstGreatest cells p m)
    (ha : a.isMissing = false → a = m ∨ a.Before m) : FirstGreatest (cells ++ [a]) p m where
  at_position := by rw [List.getElem?_append_left h.lt_length, h.at_position]
  present := h.present
  le_greatest := List.forall_mem_append.2 ⟨h.le_greatest, by simpa using ha⟩
  first q hq := by
    rw [List.getElem?_append_left (hq.trans h.lt_length)]
    exact h.first q hq

/-- A cell that comes after all cells so far is the greatest one, at its own position. -/
theorem append_of_gt (present : a.isMissing = false)
    (ha : ∀ b ∈ cells, b.isMissing = false → b.Before a) :
    FirstGreatest (cells ++ [a]) cells.length a where
  at_position := by simp
  present := present
  le_greatest b hb mb := by
    rcases List.mem_append.1 hb with hb | hb
    · exact .inr (ha b hb mb)
    · exact .inl (List.mem_singleton.1 hb)
  first q hq e := by
    rw [List.getElem?_append_left hq] at e
    exact Cell.Before.irrefl a (ha a (List.mem_of_getElem? e) present)

end FirstGreatest

namespace Series

variable {cells : List Cell} {a : Cell} {best : Option (Cell × Nat)}

/-- One more cell, with its position. -/
theorem Leads.append (h : Leads cells best) (one : OfOneKind (cells ++ [a])) :
    Leads (cells ++ [a]) (greaterCell best (a, cells.length)) := by
  obtain ⟨kind, exact, kinds⟩ := one
  obtain ⟨kinds, ka⟩ := List.forall_mem_append.1 kinds
  replace ka : a.isMissing = false → a.kind? = some kind := ka a (List.mem_singleton.2 rfl)
  cases ma : a.isMissing with
  | true =>
    rw [greaterCell_of_isMissing ma]
    cases best with
    | none => exact List.forall_mem_append.2 ⟨h, by simpa using ma⟩
    | some b => exact FirstGreatest.append_of_le h fun ma' => by simp [ma] at ma'
  | false =>
    have ha := Cell.exact_of_kind exact (ka ma)
    cases best with
    | none =>
      rw [greaterCell_none ma]
      exact FirstGreatest.append_of_gt ma fun b hb mb => by simp [h b hb] at mb
    | some b =>
      obtain ⟨m, p⟩ := b
      have h : FirstGreatest cells p m := h
      have km := kinds m (List.mem_of_getElem? h.at_position) h.present
      have hm := Cell.exact_of_kind exact km
      have greater := Cell.compare?_eq_gt_iff ha hm ((ka ma).trans km.symm)
      rw [greaterCell_some ma]
      by_cases gt : a.compare? m = some .gt
      · rw [if_pos gt]
        refine FirstGreatest.append_of_gt ma fun b hb mb => ?_
        rcases h.le_greatest b hb mb with rfl | before
        · exact greater.1 gt
        · exact before.trans (greater.1 gt)
      · rw [if_neg gt]
        refine FirstGreatest.append_of_le h fun _ => ?_
        rcases Cell.orderKey_cases ha hm with ⟨same, -⟩ | ⟨before, -⟩ | ⟨after, -⟩
        · exact .inl same
        · exact .inr before
        · exact absurd (greater.2 after) gt

/-- The loop over all cells. -/
theorem leads_foldl (one : OfOneKind cells) :
    Leads cells (cells.zipIdx.foldl greaterCell none) := by
  induction cells using List.reverseRecOn with
  | nil => exact List.forall_mem_nil _
  | append_singleton cells a ih =>
    have before : OfOneKind cells := by
      obtain ⟨kind, exact, kinds⟩ := one
      exact ⟨kind, exact, (List.forall_mem_append.1 kinds).1⟩
    rw [List.zipIdx_append, List.foldl_append]
    simpa using (ih before).append one

variable {ε : Type} {s : Series}

/-- The loop over a series finds no label if all cells are missing, and else the label of the first
greatest cell. -/
theorem labelOfMax?_cases (ws : s.WellFormed) (one : OfOneKind s.cells) :
    (∀ a ∈ s.cells, a.isMissing = true) ∧ (s.labelOfMax? : Outcome ε (Option Cell)) = .ok none ∨
      ∃ p label m, s.index[p]? = some label ∧ FirstGreatest s.cells p m ∧
        (s.labelOfMax? : Outcome ε (Option Cell)) = .ok (some label) := by
  have leads := leads_foldl one
  rw [labelOfMax?]
  cases found : s.cells.zipIdx.foldl greaterCell none with
  | none =>
    rw [found] at leads
    exact .inl ⟨leads, rfl⟩
  | some best =>
    obtain ⟨m, p⟩ := best
    rw [found] at leads
    have h : FirstGreatest s.cells p m := leads
    have hp := List.getElem?_eq_getElem (ws ▸ h.lt_length : p < s.index.length)
    exact .inr ⟨p, _, m, hp, h, by simp only [hp]; rfl⟩

/-! ## The way back -/

/-- Where labels are apart, a label that is not missing leads to its own row. -/
theorem get?_of_apart (apart : Cell.Apart s.index) {p : Nat} {label : Cell}
    (hp : s.index[p]? = some label) (present : label.isMissing = false) :
    (s.get? label : Outcome ε (Option Cell)) = (Outcome.ofOption s.cells[p]?).map some := by
  have found : s.index.findIdx? (fun l => l.sameLabel label) = some p := by
    obtain ⟨hlt, rfl⟩ := List.getElem?_eq_some_iff.1 hp
    refine List.findIdx?_eq_some_iff_getElem.2 ⟨hlt, ?_, fun q hq => ?_⟩
    · exact Cell.sameLabel_iff.2 (.inl (Cell.beq_self present))
    · exact Bool.eq_false_iff.1 (List.pairwise_iff_getElem.1 apart q p (hq.trans hlt) hlt hq)
  rw [get?, found]

end Series

namespace Datum

variable {s : Series}

theorem indexOfMax_series {label : Option Cell}
    (h : (s.labelOfMax? : Outcome TreeError (Option Cell)) = .ok label) :
    indexOfMax (.series s) = .ok (.scalar (label.getD .null)) := by
  rw [indexOfMax, h]
  rfl

theorem atIndex_of_get? {key m : Cell} (present : key.isMissing = false)
    (h : (s.get? key : Outcome TreeError (Option Cell)) = .ok (some m)) :
    atIndex (.series s) (.scalar key) = .ok (.scalar m) := by
  simp only [atIndex, present, h]
  rfl

end Datum

namespace Tree

variable {c : Context} {value key again : Tree} {env env₁ env₂ : Environment} {s : Series}

theorem evalIn_indexOfMax_eq_iff {d : Datum} : (indexOfMax value).evalIn c env = (.ok d, env₁) ↔
    ∃ e, value.evalIn c env = (.ok e, env₁) ∧ Datum.indexOfMax e = .ok d := by
  rw [indexOfMax, evalIn]
  exact andThen_oneArgument_eq_iff

theorem evalIn_atIndex_eq_iff {d : Datum} : (atIndex value key).evalIn c env = (.ok d, env₂) ↔
    ∃ e env₁ k, value.evalIn c env = (.ok e, env₁) ∧ key.evalIn c env₁ = (.ok k, env₂) ∧
      Datum.atIndex e k = .ok d := by
  rw [atIndex, evalIn, andThen_twoArguments_eq_iff]

/-- The cell under the label of the greatest cell of a series is computed in two steps. -/
theorem evalIn_atIndex_indexOfMax {label d : Datum}
    (hv : value.evalIn c env = (.ok (.series s), env₁))
    (ha : again.evalIn c env₁ = (.ok (.series s), env₂))
    (hl : Datum.indexOfMax (.series s) = .ok label) (hd : Datum.atIndex (.series s) label = .ok d) :
    (indexOfMax again).evalIn c env₁ = (.ok label, env₂) ∧
      (atIndex value (indexOfMax again)).evalIn c env = (.ok d, env₂) := by
  have found : (indexOfMax again).evalIn c env₁ = (.ok label, env₂) :=
    evalIn_indexOfMax_eq_iff.2 ⟨_, ha, hl⟩
  exact ⟨found, evalIn_atIndex_eq_iff.2 ⟨_, _, _, hv, found, hd⟩⟩

end Tree

/-- **The greatest cell by its label.** Let the labels of a series be apart and not missing, and its
cells that are not missing be integers, texts or truth values. There is no label of the greatest
cell exactly if all cells are missing, and a node for it then has the value `null`. Otherwise the
label is that of the first row with the greatest cell, and looking it up gives this cell, also when
trees do both. -/
theorem Series.atIndex_indexOfMax {s : Series} (ws : s.WellFormed)
    (labels : ∀ l ∈ s.index, l.isMissing = false) (apart : Cell.Apart s.index)
    (one : OfOneKind s.cells) :
    ((s.labelOfMax? : Outcome TreeError (Option Cell)) = .ok none ↔
      ∀ a ∈ s.cells, a.isMissing = true) ∧
    (Datum.indexOfMax (.series s) = .ok (.scalar .null) ↔ ∀ a ∈ s.cells, a.isMissing = true) ∧
    ((∃ a ∈ s.cells, a.isMissing = false) → ∃ p label m,
      s.index[p]? = some label ∧ FirstGreatest s.cells p m ∧
      (s.labelOfMax? : Outcome TreeError (Option Cell)) = .ok (some label) ∧
      Datum.indexOfMax (.series s) = .ok (.scalar label) ∧
      Datum.atIndex (.series s) (.scalar label) = .ok (.scalar m) ∧
      ∀ c (value again : Tree) env env₁ env₂, value.evalIn c env = (.ok (.series s), env₁) →
        again.evalIn c env₁ = (.ok (.series s), env₂) →
        (again.indexOfMax).evalIn c env₁ = (.ok (.scalar label), env₂) ∧
        (value.atIndex again.indexOfMax).evalIn c env = (.ok (.scalar m), env₂)) := by
  rcases s.labelOfMax?_cases (ε := TreeError) ws one with
    ⟨missing, none⟩ | ⟨p, label, m, hp, greatest, some⟩
  · refine ⟨⟨fun _ => missing, fun _ => none⟩,
      ⟨fun _ => missing, fun _ => Datum.indexOfMax_series none⟩, ?_⟩
    rintro ⟨a, ha, present⟩
    rw [missing a ha] at present
    cases present
  · have notAll : ¬ ∀ a ∈ s.cells, a.isMissing = true := fun missing =>
      Bool.false_ne_true (greatest.present.symm.trans
        (missing m (List.mem_of_getElem? greatest.at_position)))
    have present := labels label (List.mem_of_getElem? hp)
    have hl : Datum.indexOfMax (.series s) = .ok (.scalar label) := Datum.indexOfMax_series some
    refine ⟨⟨fun h => ?_, fun missing => absurd missing notAll⟩,
      ⟨fun h => ?_, fun missing => absurd missing notAll⟩, fun _ => ?_⟩
    · rw [some] at h
      cases h
    · rw [hl, Except.ok.injEq, Datum.scalar.injEq] at h
      rw [h] at present
      cases present
    · have get : (s.get? label : Outcome TreeError (Option Cell)) = .ok (.some m) := by
        rw [get?_of_apart apart hp present, greatest.at_position]
        rfl
      have hd := Datum.atIndex_of_get? present get
      exact ⟨p, label, m, hp, greatest, some, hl, hd, fun c value again env env₁ env₂ hv ha =>
        Tree.evalIn_atIndex_indexOfMax hv ha hl hd⟩

/-- Grades under labels of several kinds. Two are missing, and the best one is there twice. -/
def grades : Series :=
  ⟨some "grade", [.int 7, .float (Float.ofBits 0x3fe0000000000000), .text "x", .bool true, .int 9,
      .int 2],
    [.null, .text "b", .float Binary64.nan, .text "d", .text "d", .text "a"]⟩

/-- Right rows with these grades. -/
def graded : Context :=
  ⟨⟨⟨[], []⟩, 0⟩, ⟨grades.index, [⟨"grade", grades.cells⟩]⟩, .null, .ofCells [], .ofCells []⟩

/-- The best grade, by its label. -/
def bestGrade : Tree :=
  .atIndex (.rightColumn "grade") (.indexOfMax (.rightColumn "grade"))

theorem Series.atIndex_indexOfMax_grades : grades.WellFormed ∧
    (∀ l ∈ grades.index, l.isMissing = false) ∧ Cell.Apart grades.index ∧ OfOneKind grades.cells ∧
    (Tree.rightColumn "grade").evalIn graded .empty = (.ok (.series grades), .empty) ∧
    ¬ (∀ a ∈ grades.cells, a.isMissing = true) ∧
    FirstGreatest grades.cells 3 (.text "d") ∧
    (grades.labelOfMax? : Outcome TreeError (Option Cell)) = .ok (some (.bool true)) ∧
    bestGrade.evalIn graded .empty = (.ok (.scalar (.text "d")), .empty) := by
  have labels : ∀ l ∈ grades.index, l.isMissing = false := by decide
  have apart : Cell.Apart grades.index := by
    unfold Cell.Apart
    decide
  have one : OfOneKind grades.cells := ⟨.varchar, by decide, by decide⟩
  have read : (Tree.rightColumn "grade").evalIn graded .empty = (.ok (.series grades), .empty) :=
    rfl
  obtain ⟨-, -, found⟩ := Series.atIndex_indexOfMax (s := grades) rfl labels apart one
  obtain ⟨p, label, m, hp, greatest, hlabel, -, -, trees⟩ := found (by decide)
  obtain rfl : label = .bool true :=
    Option.some.inj (Except.ok.inj (hlabel.symm.trans (by decide)))
  obtain rfl : p = 3 := by
    have := greatest.lt_length
    change p < 6 at this
    interval_cases p <;> simp [grades] at hp ⊢
  obtain rfl : m = .text "d" := Option.some.inj (greatest.at_position.symm.trans rfl)
  have best := (trees _ _ _ _ _ _ read read).2
  exact ⟨rfl, labels, apart, one, read, by decide, greatest, hlabel, best⟩

end SpanJoin
