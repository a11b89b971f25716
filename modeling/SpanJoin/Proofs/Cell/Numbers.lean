import SpanJoin.Proofs.Binary64.Rounding
import SpanJoin.Proofs.Cell.Labels

/-!
# The order of numbers

Integers compare exactly with each other, and so do floating-point numbers. Where an integer meets a
floating-point number it is rounded first. By this an order is never reversed: the answer is that of
the exact numbers, or that an integer beyond `2 ^ 53` and a floating-point number are equal
(`Cell.compare?_eq_cmp_or`). If there are no such integers, numbers compare as the exact ones do
(`Cell.compare?_eq_cmp`), so that to match as labels is to stand for the same number
(`Cell.equivalence_sameLabel`) and to come out as at most is to be at most (`Cell.atMost_iff`). With
them neither relation is transitive (`Cell.sameLabel_not_trans`).
-/

namespace SpanJoin

namespace Binary64

/-- The value of a number is an infinity, or a number that is representable. -/
theorem value_cases {x : Float} {w : Value} (h : value? x = some w) :
    w = ⊥ ∨ w = ⊤ ∨ ∃ q : ℚ, w = (q : Value) ∧ Representable q := by
  induction w using WithBotTop.rec with
  | bot => exact .inl rfl
  | top => exact .inr (.inl rfl)
  | coe q => exact .inr (.inr ⟨q, rfl, representable_of_value? h⟩)

/-- A rounded integer compares with a floating-point number as the integer itself does, unless it
comes out as equal and the integer is beyond `2 ^ 53`. -/
theorem Rounded.cmp_eq {n : ℤ} {v : ℚ} (h : Rounded n v) {x : Float} {w : Value}
    (hw : value? x = some w) :
    cmp (v : Value) w = cmp ((n : ℚ) : Value) w ∨ cmp (v : Value) w = .eq ∧ 2 ^ 53 < |n| := by
  by_cases small : |n| ≤ 2 ^ 53
  · exact .inl (by rw [h.exact small])
  have far : 2 ^ 53 < |n| := not_le.1 small
  obtain rfl | rfl | ⟨q, rfl, hq⟩ := value_cases hw
  · have above (r : ℚ) : cmp (r : Value) ⊥ = .gt :=
      (cmp_eq_gt_iff _ _).2 (bot_lt_iff_ne_bot.2 (WithBotTop.coe_ne_bot r))
    exact .inl ((above v).trans (above n).symm)
  · have below (r : ℚ) : cmp (r : Value) ⊤ = .lt :=
      (cmp_eq_lt_iff _ _).2 (lt_top_iff_ne_top.2 (WithBotTop.coe_ne_top r))
    exact .inl ((below v).trans (below n).symm)
  rw [cmp_coe, cmp_coe]
  rcases lt_trichotomy (n : ℚ) q with lt | eq | gt
  · rw [(cmp_eq_lt_iff _ _).2 lt]
    rcases (h.ge hq lt.le).lt_or_eq with lt' | eq'
    · exact .inl ((cmp_eq_lt_iff _ _).2 lt')
    · exact .inr ⟨(cmp_eq_eq_iff _ _).2 eq', far⟩
  · exact .inr ⟨(cmp_eq_eq_iff _ _).2 (le_antisymm (h.ge hq eq.le) (h.le hq eq.ge)), far⟩
  · rw [(cmp_eq_gt_iff _ _).2 gt]
    rcases (h.le hq gt.le).lt_or_eq with gt' | eq'
    · exact .inl ((cmp_eq_gt_iff _ _).2 gt')
    · exact .inr ⟨(cmp_eq_eq_iff _ _).2 eq'.symm, far⟩

end Binary64

namespace Cell

open Binary64

/-- The exact value of a cell that is a number. -/
def value? : Cell → Option Value
  | int n => some ((n.toInt : ℚ) : Value)
  | float x => Binary64.value? x
  | _ => none

/-- An integer beyond `2 ^ 53` and a floating-point number. -/
def Coarse (a b : Cell) : Prop := ∃ n x, a = int n ∧ b = float x ∧ 2 ^ 53 < |n.toInt|

variable {a b c : Cell} {p q : Value}

/-- The numbers are the integers and the floating-point numbers that are not missing. -/
theorem exists_value?_iff : (∃ p, a.value? = some p) ↔
    a.isMissing = false ∧ (a.kind? = some .int64 ∨ a.kind? = some .float64) := by
  cases a with
  | float x =>
    rw [← Option.ne_none_iff_exists']
    simp [value?, isMissing, kind?, value?_eq_none_iff]
  | _ => simp [value?, isMissing, kind?]

/-- **Numbers in order.** The order of two numbers is that of the exact ones, or an integer beyond
`2 ^ 53` and a floating-point number come out as equal. -/
theorem compare?_eq_cmp_or (ha : a.value? = some p) (hb : b.value? = some q) :
    a.compare? b = some (cmp p q) ∨ a.compare? b = some .eq ∧ (a.Coarse b ∨ b.Coarse a) := by
  cases a <;> cases b <;> simp only [value?, Option.some.injEq, reduceCtorEq] at ha hb
  case int.int m n =>
    subst ha hb
    left
    rw [cmp_coe, Int.cast_strictMono.cmp_map_eq]
    rfl
  case int.float n x =>
    subst ha
    obtain ⟨v, hv, rounded⟩ := ofInt64_rounded n
    have order : (int n).compare? (float x) = some (cmp (v : Value) q) := orderFloat?_eq hv hb
    rw [order]
    rcases rounded.cmp_eq hb with h | ⟨h, far⟩
    · exact .inl (congrArg some h)
    · exact .inr ⟨congrArg some h, .inl ⟨n, x, rfl, rfl, far⟩⟩
  case float.int x n =>
    subst hb
    obtain ⟨v, hv, rounded⟩ := ofInt64_rounded n
    have order : (float x).compare? (int n) = some (cmp (v : Value) p).swap := by
      rw [cmp_swap]
      exact orderFloat?_eq ha hv
    rw [order, ← cmp_swap _ p]
    rcases rounded.cmp_eq ha with h | ⟨h, far⟩
    · exact .inl (by rw [h])
    · exact .inr ⟨by rw [h, Ordering.swap_eq], .inr ⟨n, x, rfl, rfl, far⟩⟩
  case float.float x y => exact .inl (orderFloat?_eq ha hb)

/-- An answer other than that the numbers are equal is the order of the exact ones. -/
theorem cmp_eq_of_compare? (ha : a.value? = some p) (hb : b.value? = some q) {o : Ordering}
    (h : a.compare? b = some o) (strict : o ≠ .eq) : cmp p q = o := by
  rcases compare?_eq_cmp_or ha hb with h' | ⟨h', -⟩
  · exact Option.some.inj (h'.symm.trans h)
  · exact absurd (Option.some.inj (h.symm.trans h')) strict

/-- Cells that stand for the same number match as labels. -/
theorem sameLabel_of_value? (ha : a.value? = some p) (hb : b.value? = some p) :
    a.sameLabel b = true := by
  rw [sameLabel_iff]
  rcases compare?_eq_cmp_or ha hb with h | ⟨h, -⟩
  · exact .inr (h.trans (congrArg some (cmp_self_eq_eq p)))
  · exact .inr h

/-! ## Integers up to `2 ^ 53` -/

/-- The cell is no integer beyond `2 ^ 53`. -/
def Fine (a : Cell) : Prop := ∀ n, a = int n → |n.toInt| ≤ 2 ^ 53

theorem Fine.not_coarse (ha : a.Fine) (b : Cell) : ¬ a.Coarse b := by
  rintro ⟨n, x, h, -, far⟩
  exact absurd (ha n h) (not_le.2 far)

/-- Without integers beyond `2 ^ 53` numbers compare as the exact ones do. -/
theorem compare?_eq_cmp (fa : a.Fine) (fb : b.Fine) (ha : a.value? = some p)
    (hb : b.value? = some q) : a.compare? b = some (cmp p q) :=
  (compare?_eq_cmp_or ha hb).resolve_right fun h =>
    h.2.elim (fa.not_coarse b) (fb.not_coarse a)

theorem eq_of_beq (ha : a.value? = some p) (hb : b.value? = some q) (h : (a == b) = true) :
    p = q := by
  cases a <;> cases b <;> simp only [value?, Option.some.injEq, reduceCtorEq] at ha hb
  case int.int m n =>
    have same : m = n := by simpa [beq_def, equal] using h
    rw [← ha, ← hb, same]
  case int.float | float.int => cases h
  case float.float x y => exact (beq_iff_value ha hb).1 h

/-- Two such numbers match as labels if they stand for the same number. -/
theorem sameLabel_iff_value? (fa : a.Fine) (fb : b.Fine) (ha : a.value? = some p)
    (hb : b.value? = some q) : a.sameLabel b = true ↔ p = q := by
  rw [sameLabel_iff, compare?_eq_cmp fa fb ha hb, Option.some.injEq, cmp_eq_eq_iff]
  exact ⟨fun h => h.elim (eq_of_beq ha hb) id, .inr⟩

/-- A number that is no integer beyond `2 ^ 53`. -/
structure FineNumber where
  cell : Cell
  isNumber : ∃ p, cell.value? = some p
  fine : cell.Fine

/-- **Labels by number.** Without integers beyond `2 ^ 53` matching as labels is an equivalence of
numbers. -/
theorem equivalence_sameLabel :
    Equivalence fun a b : FineNumber => a.cell.sameLabel b.cell = true where
  refl a := by
    obtain ⟨p, hp⟩ := a.isNumber
    exact sameLabel_of_value? hp hp
  symm h := sameLabel_symm h
  trans {a b c} hab hbc := by
    obtain ⟨p, hp⟩ := a.isNumber
    obtain ⟨q, hq⟩ := b.isNumber
    obtain ⟨r, hr⟩ := c.isNumber
    rw [sameLabel_iff_value? a.fine b.fine hp hq] at hab
    rw [sameLabel_iff_value? b.fine c.fine hq hr] at hbc
    exact sameLabel_of_value? hp (hr.trans (congrArg some (hab.trans hbc).symm))

/-- The first number comes out as at most the second one. -/
def AtMost (a b : Cell) : Prop := a.compare? b = some .lt ∨ a.compare? b = some .eq

/-- **Sorting by number.** Without integers beyond `2 ^ 53` to come out as at most another number is
to be at most that number. -/
theorem atMost_iff (fa : a.Fine) (fb : b.Fine) (ha : a.value? = some p) (hb : b.value? = some q) :
    a.AtMost b ↔ p ≤ q := by
  rw [AtMost, compare?_eq_cmp fa fb ha hb, Option.some.injEq, Option.some.injEq, cmp_eq_lt_iff,
    cmp_eq_eq_iff, le_iff_lt_or_eq]

theorem FineNumber.atMost_trans {a b c : FineNumber} (hab : a.cell.AtMost b.cell)
    (hbc : b.cell.AtMost c.cell) : a.cell.AtMost c.cell := by
  obtain ⟨p, hp⟩ := a.isNumber
  obtain ⟨q, hq⟩ := b.isNumber
  obtain ⟨r, hr⟩ := c.isNumber
  rw [atMost_iff a.fine b.fine hp hq] at hab
  rw [atMost_iff b.fine c.fine hq hr] at hbc
  exact (atMost_iff a.fine c.fine hp hr).2 (hab.trans hbc)

/-! ## Integers beyond `2 ^ 53` -/

/-- Of `2 ^ 53 + 1`, the floating-point number `2 ^ 53` and the integer `2 ^ 53`, each comes out as
equal to the next, but the first one is greater than the last. -/
theorem sameLabel_not_trans : ∃ a b c : Cell, a.isMissing = false ∧ b.isMissing = false ∧
    c.isMissing = false ∧ a.sameLabel b = true ∧ b.sameLabel c = true ∧ a.sameLabel c = false ∧
    a.AtMost b ∧ b.AtMost c ∧ ¬ a.AtMost c := by
  refine ⟨int 9007199254740993, float (Float.ofBits 0x4340000000000000), int 9007199254740992,
    rfl, rfl, rfl, by decide, by decide, by decide, .inr ?_, .inr ?_, ?_⟩
  · decide
  · decide
  · unfold AtMost
    decide

end Cell

end SpanJoin
