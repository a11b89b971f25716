import SpanJoin.Cell.Cast
import SpanJoin.Proofs.Binary64.Value
import SpanJoin.Proofs.Int64

/-!
# Dropping the fraction

Dropping the fraction of a finite floating-point number leaves the integer next to its exact value
in the direction of zero (`Parts.truncate_eq`). As a cell of 64 bits it is this integer if it lies
in the range, and the nearest end of the range if it does not (`Cell.wholePart?_eq_some_iff`).
-/

namespace SpanJoin.Binary64

/-- The integer next to a number in the direction of zero. -/
def towardZero (q : ℚ) : ℤ := if 0 ≤ q then ⌊q⌋ else ⌈q⌉

theorem towardZero_of_nonneg {q : ℚ} (h : 0 ≤ q) : towardZero q = ⌊q⌋ := if_pos h

theorem towardZero_neg {q : ℚ} (h : 0 ≤ q) : towardZero (-q) = -⌊q⌋ := by
  rcases h.eq_or_lt with rfl | h
  · simp [towardZero]
  · rw [towardZero, if_neg (by linarith), Int.ceil_neg]

/-- The magnitude without its fraction. -/
theorem floor_mul_zpow (m : ℕ) (e : ℤ) :
    ⌊(m * 2 ^ e : ℚ)⌋ = (m * 2 ^ e.toNat / 2 ^ (-e).toNat : ℕ) := by
  have ratio : (m * 2 ^ e : ℚ) = (m * 2 ^ e.toNat : ℕ) / (2 ^ (-e).toNat : ℕ) := by
    obtain ⟨k, rfl | rfl⟩ := e.eq_nat_or_neg
    · simp
    · simp [zpow_neg, div_eq_mul_inv]
  rw [ratio, Rat.floor_natCast_div_natCast, Int.natCast_div]

/-- Dropping the fraction of a number rounds its value toward zero. -/
theorem Parts.truncate_eq (p : Parts) : p.truncate = towardZero p.value := by
  have nonneg : (0 : ℚ) ≤ p.significand * 2 ^ p.exponent := by positivity
  have magnitude := floor_mul_zpow p.significand p.exponent
  unfold truncate value
  cases p.negative with
  | false =>
    rw [if_neg (by decide), if_neg (by decide), one_mul, towardZero_of_nonneg nonneg, magnitude]
    rfl
  | true =>
    rw [if_pos rfl, if_pos rfl, neg_one_mul, towardZero_neg nonneg, magnitude]
    rfl

/-- The value is a finite number exactly if the number has parts. -/
theorem value?_eq_coe_iff {x : Float} {q : ℚ} :
    value? x = some (q : Value) ↔ ∃ p, parts? x = some p ∧ p.value = q := by
  constructor
  · intro h
    cases hp : parts? x with
    | none =>
      rw [value?] at h
      obtain hu | ⟨_ | _, hu⟩ := unpack_of_parts?_eq_none hp <;> rw [hu] at h
      · cases h
      · exact absurd (Option.some.inj h).symm (WithBotTop.coe_ne_bot q)
      · exact absurd (Option.some.inj h).symm (WithBotTop.coe_ne_top q)
    | some p =>
      rw [value?_of_parts? hp, Option.some.injEq] at h
      exact ⟨p, rfl, WithBotTop.coe_injective h⟩
  · rintro ⟨p, hp, rfl⟩
    exact value?_of_parts? hp

end SpanJoin.Binary64

namespace SpanJoin.Cell

open Binary64

/-- The whole part of a finite number, moved into the range. -/
theorem wholePart?_eq_some_iff {x : Float} {n : Int64} : wholePart? x = some n ↔
    ∃ q : ℚ, Binary64.value? x = some (q : Value) ∧ clampInt64 (towardZero q) = n := by
  simp only [wholePart?, Option.map_eq_some_iff, value?_eq_coe_iff, Parts.truncate_eq]
  constructor
  · rintro ⟨p, hp, hn⟩
    exact ⟨p.value, ⟨p, hp, rfl⟩, hn⟩
  · rintro ⟨q, ⟨p, hp, rfl⟩, hn⟩
    exact ⟨p, hp, hn⟩

end SpanJoin.Cell
