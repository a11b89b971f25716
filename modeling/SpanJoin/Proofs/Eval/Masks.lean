import SpanJoin.Proofs.Datum.Sound
import SpanJoin.Proofs.Eval.Simulation

/-!
# Masks

Comparisons give truth values even where cells are missing, and the connectives keep truth values
among themselves; so a tree that is made of comparisons by connectives and selections of rows
(`Tree.Mask`) has truth values as cells, whatever its operands are (`Tree.evalIn_isMask`). A series
of these never fails as a mask for what its cells are (`Tree.evalIn_mask`).
-/

namespace SpanJoin

/-! ## Truth values -/

namespace BinaryOp

/-- Does the operator compare its operands? -/
def isComparison : BinaryOp → Bool
  | gt | lt | eq => true
  | _ => false

/-- Does the operator connect truth values? -/
def isConnective : BinaryOp → Bool
  | and | or => true
  | _ => false

variable {op : BinaryOp} {a b x : Cell}

theorem isTruthValue_ordered {wanted : Ordering} (h : op.ordered wanted a b = .ok x) :
    Datum.isTruthValue x = true := by
  unfold ordered at h
  split at h
  · obtain rfl := Except.ok.inj h
    rfl
  · split at h
    · obtain rfl := Except.ok.inj h
      rfl
    · cases h

/-- A comparison gives a truth value, with missing cells as well. -/
theorem isTruthValue_of_isComparison (hop : op.isComparison = true) (h : op.apply a b = .ok x) :
    Datum.isTruthValue x = true := by
  cases op with
  | gt | lt => exact isTruthValue_ordered h
  | eq =>
    simp only [apply] at h
    split at h
    · obtain rfl := Except.ok.inj h
      rfl
    · obtain rfl := Except.ok.inj h
      rfl
  | add | sub | mul | div | and | or => cases hop

/-- Connecting truth values gives a truth value. -/
theorem isTruthValue_connective {decisive : Bool} (ha : Datum.isTruthValue a = true)
    (hb : Datum.isTruthValue b = true) (h : op.connective decisive a b = .ok x) :
    Datum.isTruthValue x = true := by
  cases a <;> cases ha
  cases b <;> cases hb
  obtain rfl := Except.ok.inj h
  rfl

theorem isTruthValue_of_isConnective (hop : op.isConnective = true)
    (ha : Datum.isTruthValue a = true) (hb : Datum.isTruthValue b = true)
    (h : op.apply a b = .ok x) : Datum.isTruthValue x = true := by
  cases op with
  | and | or => exact isTruthValue_connective ha hb h
  | add | sub | mul | div | gt | lt | eq => cases hop

end BinaryOp

namespace UnaryOp

variable {a x : Cell}

theorem isTruthValue_isna (h : isna.apply a = .ok x) : Datum.isTruthValue x = true := by
  obtain rfl := Except.ok.inj h
  rfl

theorem isTruthValue_not (ha : Datum.isTruthValue a = true) (h : not.apply a = .ok x) :
    Datum.isTruthValue x = true := by
  cases a <;> cases ha
  obtain rfl := Except.ok.inj h
  rfl

end UnaryOp

/-! ## Data of truth values -/

namespace Datum

variable {P Q : Cell → Prop} {d e r : Datum}

/-- The cells of a scalar or a series. -/
def cells : Datum → List Cell
  | scalar a => [a]
  | series s => s.cells
  | _ => []

/-- The datum is a scalar with the property or a series of cells with the property. -/
def Each (P : Cell → Prop) : Datum → Prop
  | scalar a => P a
  | series s => ∀ a ∈ s.cells, P a
  | _ => False

theorem Each.of_mem_cells (h : d.Each P) : ∀ a ∈ d.cells, P a := by
  cases d with
  | scalar a =>
    intro b hb
    obtain rfl := List.mem_singleton.1 hb
    exact h
  | series s => exact h
  | frame | grouped | range => exact h.elim

theorem Each.imp (h : d.Each P) (hPQ : ∀ a, P a → Q a) : d.Each Q := by
  cases d with
  | scalar a => exact hPQ a h
  | series s => exact fun a ha => hPQ a (h a ha)
  | frame | grouped | range => exact h

/-- Every cell that is computed for a series is computed from an element of the list. -/
theorem each_compute {α : Type} {s : Series} {f : α → Except TreeError Cell} {as : List α}
    (h : s.compute f as = .ok r) : r.Each fun x => ∃ a ∈ as, f a = .ok x := by
  obtain ⟨cells, hc, -, rfl⟩ := compute_eq_ok_iff.1 h
  intro x hx
  exact exists_mem_of_forall₂_right hc hx

/-- Every cell of a result comes from a cell of each operand. -/
theorem each_binary {op : BinaryOp} (h : binary op d e = .ok r) :
    r.Each fun x => ∃ a ∈ d.cells, ∃ b ∈ e.cells, op.apply a b = .ok x := by
  unfold binary at h
  split at h
  · rename_i a b
    obtain ⟨x, hx, rfl⟩ := Outcome.exceptMap_eq_ok.1 h
    exact ⟨a, List.mem_singleton_self a, b, List.mem_singleton_self b, hx⟩
  · rename_i s b
    refine (each_compute h).imp ?_
    rintro x ⟨a, ha, hx⟩
    exact ⟨a, ha, b, List.mem_singleton_self b, hx⟩
  · rename_i a t
    refine (each_compute h).imp ?_
    rintro x ⟨b, hb, hx⟩
    exact ⟨a, List.mem_singleton_self a, b, hb, hx⟩
  · split at h
    · refine (each_compute h).imp ?_
      rintro x ⟨⟨a, b⟩, hab, hx⟩
      obtain ⟨ha, hb⟩ := List.of_mem_zip hab
      exact ⟨a, ha, b, hb, hx⟩
    · cases h
  · cases h

/-- Every cell of a result comes from a cell of the operand. -/
theorem each_unary {op : UnaryOp} (h : unary op d = .ok r) :
    r.Each fun x => ∃ a ∈ d.cells, op.apply a = .ok x := by
  unfold unary at h
  split at h
  · rename_i a
    obtain ⟨x, hx, rfl⟩ := Outcome.exceptMap_eq_ok.1 h
    exact ⟨a, List.mem_singleton_self a, hx⟩
  · obtain ⟨cells, hc, h⟩ := Outcome.bind_eq_ok.1 h
    obtain ⟨t, ht, h⟩ := Outcome.bind_eq_ok.1 h
    obtain ⟨rfl, -⟩ := Series.withCells_eq_ok_iff.1 (Outcome.exceptMapError_eq_ok.1 ht)
    obtain rfl := Except.ok.inj h
    intro x hx
    exact exists_mem_of_forall₂_right (mapM_eq_ok_iff.1 hc) hx
  · cases h

/-- Rows that are taken have their cells. -/
theorem Each.takeRows (hd : d.Each P) {action : Action} {positions : List Nat}
    (h : d.takeRows action positions = .ok r) : r.Each P := by
  cases d with
  | series s =>
    obtain ⟨t, ht, rfl⟩ := Outcome.exceptMap_eq_ok.1 h
    obtain ⟨-, -, picks⟩ := Series.take?_eq_some_iff.1 (Outcome.ofOption_eq_ok.1 ht)
    intro a ha
    obtain ⟨p, -, hp⟩ := exists_mem_of_forall₂_right picks ha
    exact hd a (List.mem_of_getElem? hp)
  | scalar => cases h
  | frame | grouped | range => exact hd.elim

theorem Each.filter (hd : d.Each P) (h : d.filter e = .ok r) : r.Each P := by
  unfold Datum.filter at h
  split at h
  · split at h
    · cases h
    · split at h
      · cases h
      · split at h
        · exact hd.takeRows h
        · cases h
  · cases h

theorem Each.slice (hd : d.Each P) {action : Action} (h : slice action d e = .ok r) :
    r.Each P := by
  unfold Datum.slice at h
  split at h
  · exact hd.takeRows h
  · cases h

/-- The datum is a truth value or a series of truth values; nothing is missing. -/
def IsMask (d : Datum) : Prop := d.Each fun a => isTruthValue a = true

end Datum

/-- Does the error say that a datum is no mask? -/
def TreeError.isMaskType : TreeError → Bool
  | maskShape _ | maskCell _ => true
  | _ => false

/-- Rows that are taken do not ask for a mask. -/
theorem Datum.isMaskType_of_takeRows {d : Datum} {action : Action} {positions : List Nat}
    {e : TreeError} (h : d.takeRows action positions = .error (.error e)) :
    e.isMaskType = false := by
  cases d with
  | series s =>
    simp only [takeRows] at h
    cases hs : s.take? positions <;> simp [hs, Outcome.ofOption, Except.map] at h
  | frame t =>
    simp only [takeRows] at h
    cases ht : t.take? positions <;> simp [ht, Outcome.ofOption, Except.map] at h
  | scalar | grouped | range =>
    cases h
    rfl

/-- Filtering by truth values fails for the type of the mask exactly if the mask is a scalar. -/
theorem Datum.IsMask.refused_iff {d : Datum} (hd : d.IsMask) (value : Datum) :
    (∃ e, value.filter d = .error (.error e) ∧ e.isMaskType = true) ↔
      ∃ b, d = .scalar (.bool b) := by
  constructor
  · rintro ⟨e, h, he⟩
    cases d with
    | scalar a =>
      cases a <;> cases hd
      exact ⟨_, rfl⟩
    | series m =>
      exfalso
      have clean : m.cells.find? (fun a => !isTruthValue a) = none := by
        rw [List.find?_eq_none]
        intro a ha
        simp [hd a ha]
      simp only [filter, clean] at h
      split at h
      · cases h
        cases he
      · split at h
        · rw [isMaskType_of_takeRows h] at he
          cases he
        · cases h
          cases he
    | frame | grouped | range => exact hd.elim
  · rintro ⟨b, rfl⟩
    exact ⟨_, rfl, rfl⟩

/-! ## Trees -/

namespace Tree

/-- The tree is a mask: comparisons and tests for missing cells of any trees, connected, negated,
named, and cut down to some of their rows. -/
inductive Mask : Tree → Prop
  | compare {op : BinaryOp} (h : op.isComparison = true) (left right : Tree) :
      Mask (binary op left right)
  | isna (t : Tree) : Mask (unary .isna t)
  | connect {op : BinaryOp} (h : op.isConnective = true) {left right : Tree} (hl : Mask left)
      (hr : Mask right) : Mask (binary op left right)
  | not {m : Tree} (hm : Mask m) : Mask (unary .not m)
  | nameAs {m : Tree} (hm : Mask m) (name : String) : Mask (nameAs m name)
  | sliceLabel {m : Tree} (hm : Mask m) (start stop : Option Int64) : Mask (sliceLabel m start stop)
  | sliceInteger {m : Tree} (hm : Mask m) (start stop : Option Int64) :
      Mask (sliceInteger m start stop)
  | filter {m : Tree} (hm : Mask m) (other : Tree) : Mask (filter m other)

variable {c : Context} {m left right : Tree} {env env' : Environment} {d : Datum}

theorem evalIn_binary_eq_iff {op : BinaryOp} :
    (binary op left right).evalIn c env = (.ok d, env') ↔ ∃ a env₁ b,
      left.evalIn c env = (.ok a, env₁) ∧ right.evalIn c env₁ = (.ok b, env') ∧
        Datum.binary op a b = .ok d := by
  rw [binary, evalIn, andThen_twoArguments_eq_iff]
  simp only [Outcome.ofExcept_eq_ok]

theorem evalIn_unary_eq_iff {op : UnaryOp} : (unary op m).evalIn c env = (.ok d, env') ↔
    ∃ a, m.evalIn c env = (.ok a, env') ∧ Datum.unary op a = .ok d := by
  rw [unary, evalIn, andThen_oneArgument_eq_iff]
  simp only [Outcome.ofExcept_eq_ok]

/-- The value of a mask is a truth value or a series of truth values. -/
theorem evalIn_isMask (hm : m.Mask) (h : m.evalIn c env = (.ok d, env')) : d.IsMask := by
  induction hm generalizing env env' d with
  | compare hop left right =>
    obtain ⟨a, env₁, b, -, -, h⟩ := evalIn_binary_eq_iff.1 h
    refine (Datum.each_binary h).imp ?_
    rintro x ⟨p, -, q, -, hx⟩
    exact BinaryOp.isTruthValue_of_isComparison hop hx
  | isna t =>
    obtain ⟨a, -, h⟩ := evalIn_unary_eq_iff.1 h
    refine (Datum.each_unary h).imp ?_
    rintro x ⟨p, -, hx⟩
    exact UnaryOp.isTruthValue_isna hx
  | connect hop _ _ ihl ihr =>
    -- no operand has a missing cell, so the unknown truth value does not come up
    obtain ⟨a, env₁, b, ha, hb, h⟩ := evalIn_binary_eq_iff.1 h
    refine (Datum.each_binary h).imp ?_
    rintro x ⟨p, hp, q, hq, hx⟩
    exact BinaryOp.isTruthValue_of_isConnective hop ((ihl ha).of_mem_cells p hp)
      ((ihr hb).of_mem_cells q hq) hx
  | not _ ih =>
    obtain ⟨a, ha, h⟩ := evalIn_unary_eq_iff.1 h
    refine (Datum.each_unary h).imp ?_
    rintro x ⟨p, hp, hx⟩
    exact UnaryOp.isTruthValue_not ((ih ha).of_mem_cells p hp) hx
  | nameAs _ name ih =>
    rw [evalIn_nameAs] at h
    exact ih h
  | sliceLabel _ start stop ih =>
    rw [Tree.sliceLabel, evalIn, andThen_twoArguments_eq_iff] at h
    obtain ⟨a, env₁, range, ha, -, h⟩ := h
    exact (ih ha).slice h
  | sliceInteger _ start stop ih =>
    rw [Tree.sliceInteger, evalIn, andThen_twoArguments_eq_iff] at h
    obtain ⟨a, env₁, range, ha, -, h⟩ := h
    exact (ih ha).slice h
  | filter _ other ih =>
    rw [Tree.filter, evalIn, andThen_twoArguments_eq_iff] at h
    obtain ⟨a, env₁, b, ha, -, h⟩ := h
    exact (ih ha).filter h

/-- **Masks are masks.** If a mask has a value, this is a truth value or a series of truth values,
none of them missing, whatever it compares and whatever is missing there. So filtering by it fails
for the type of the mask only if it is a scalar. -/
theorem evalIn_mask (hm : m.Mask) (h : m.evalIn c env = (.ok d, env')) :
    d.IsMask ∧ ∀ value : Datum,
      (∃ e, value.filter d = .error (.error e) ∧ e.isMaskType = true) ↔
        ∃ b, d = .scalar (.bool b) :=
  ⟨evalIn_isMask hm h, (evalIn_isMask hm h).refused_iff⟩

/-- Right rows with readings, of which two are missing in different ways. -/
def readings : Context :=
  ⟨⟨⟨[], []⟩, 0⟩,
    ⟨Cell.counting 4, [⟨"x", [.null, .float Binary64.nan, .int 7, .float 2]⟩]⟩, .null,
    .ofCells [], .ofCells []⟩

/-- The readings from the second row on that are missing or at most 6. -/
def unusual : Tree :=
  sliceInteger (nameAs (binary .or (unary .isna (rightColumn "x"))
    (unary .not (binary .gt (rightColumn "x") (.literal (.int 6))))) "unusual") (some 1) none

/-- The values of this mask. -/
def unusualRows : Series :=
  ⟨none, [.int 1, .int 2, .int 3], [.bool true, .bool false, .bool true]⟩

theorem evalIn_mask_unusual : unusual.Mask ∧
    unusual.evalIn readings .empty = (.ok (.series unusualRows), .empty) ∧
    (Datum.series unusualRows).IsMask ∧ ∀ value : Datum,
      ¬ ∃ e, value.filter (.series unusualRows) = .error (.error e) ∧ e.isMaskType = true := by
  have mask : unusual.Mask :=
    .sliceInteger (.nameAs (.connect rfl (.isna _) (.not (.compare rfl _ _))) _) _ _
  have value : unusual.evalIn readings .empty = (.ok (.series unusualRows), .empty) := rfl
  obtain ⟨cells, refused⟩ := evalIn_mask mask value
  refine ⟨mask, value, cells, fun v h => ?_⟩
  obtain ⟨b, hb⟩ := (refused v).1 h
  cases hb

end Tree

end SpanJoin
