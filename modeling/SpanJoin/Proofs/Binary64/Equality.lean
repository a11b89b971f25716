import Mathlib
import SpanJoin.Binary64

/-!
# Equality of floating-point numbers

`==` on floating-point numbers differs from identity in two places: what is not a number differs
from itself, and the two zeros agree. There are no other places (`beq_iff`), which is what the
library says of `==` with the one value that is not a number in the place of the test `isNaN`.
-/

namespace SpanJoin.Binary64

/-- Negative zero. -/
def negativeZero : Float := Float.ofBits 0x8000000000000000

theorem negativeZero_eq : negativeZero = -0 := by
  rw [← Float.toBits_inj]
  rfl

theorem isNaN_eq_false_iff {x : Float} : x.isNaN = false ↔ x ≠ Float.nan := by
  rw [Float.isNaN_eq_decide_eq_nan, decide_eq_false_iff_not]

/-- Numbers are equal if they are identical, or if both are zeros. -/
theorem beq_iff {x y : Float} : (x == y) = true ↔
    x.isNaN = false ∧ (x = y ∨ (x = 0 ∨ x = negativeZero) ∧ (y = 0 ∨ y = negativeZero)) := by
  rw [Float.beq_iff_ne_nan_and_eq, isNaN_eq_false_iff, negativeZero_eq]
  constructor
  · rintro ⟨hx, -, h | ⟨h, h'⟩ | ⟨h, h'⟩⟩
    · exact ⟨hx, .inl h⟩
    · exact ⟨hx, .inr ⟨.inl h, .inr h'⟩⟩
    · exact ⟨hx, .inr ⟨.inr h, .inl h'⟩⟩
  · have zero : (0 : Float) ≠ Float.nan := isNaN_eq_false_iff.1 rfl
    have negative : (-0 : Float) ≠ Float.nan := isNaN_eq_false_iff.1 rfl
    rintro ⟨hx, rfl | ⟨rfl | rfl, rfl | rfl⟩⟩ <;> simp_all

/-- What equals zero is one of the two zeros. -/
theorem beq_zero_iff {x : Float} : (x == 0) = true ↔ x = 0 ∨ x = negativeZero := by
  constructor
  · intro h
    rcases (beq_iff.1 h).2 with rfl | h
    · exact .inl rfl
    · exact h.1
  · rintro (rfl | rfl) <;> rfl

/-- Numbers are equal exactly if they are identical when zeros are made positive. -/
theorem beq_iff_unsigned_zero {x y : Float} (hx : x.isNaN = false) :
    (x == y) = true ↔ (if x == 0 then 0 else x) = if y == 0 then 0 else y := by
  rw [beq_iff, ← beq_zero_iff, ← beq_zero_iff, and_iff_right hx]
  by_cases h0 : (x == 0) = true <;> by_cases h1 : (y == 0) = true
  · simp [h0, h1]
  · have hxy : x ≠ y := fun e => h1 (e ▸ h0)
    have hy0 : (0 : Float) ≠ y := fun e => h1 (by rw [← e]; rfl)
    simp [h0, h1, hxy, hy0]
  · have hxy : x ≠ y := fun e => h0 (e ▸ h1)
    have hx0 : x ≠ 0 := fun e => h0 (by rw [e]; rfl)
    simp [h0, h1, hxy, hx0]
  · simp [h0, h1]

/-- A number equals itself. -/
theorem beq_self {x : Float} (h : x.isNaN = false) : (x == x) = true := beq_iff.2 ⟨h, .inl rfl⟩

end SpanJoin.Binary64
