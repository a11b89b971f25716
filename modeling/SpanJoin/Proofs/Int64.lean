import Mathlib.Algebra.Ring.Int.Defs
import SpanJoin.Binary64

/-!
# The signed 64-bit range

Integers of the range are those that 64 bits hold without loss. Any other integer is replaced by the
nearest end of the range where it is made to fit (`Binary64.toInt_clampInt64`), and so becomes
another one (`Binary64.toInt_clampInt64_eq_iff`).
-/

namespace SpanJoin

/-- Does the integer lie in the signed 64-bit range? -/
def InRange (n : Int) : Prop := -2 ^ 63 ≤ n ∧ n < 2 ^ 63

instance (n : Int) : Decidable (InRange n) := inferInstanceAs (Decidable (_ ∧ _))

theorem inRange_toInt (n : Int64) : InRange n.toInt := ⟨n.le_toInt, n.toInt_lt⟩

theorem InRange.toInt_ofInt {n : Int} (h : InRange n) : (Int64.ofInt n).toInt = n :=
  Int64.toInt_ofInt_of_le h.1 h.2

theorem InRange.exists_toInt {n : Int} (h : InRange n) : ∃ m : Int64, m.toInt = n :=
  ⟨Int64.ofInt n, h.toInt_ofInt⟩

theorem inRange_iff {n : Int} :
    InRange n ↔ Int64.minValue.toInt ≤ n ∧ n ≤ Int64.maxValue.toInt := by
  rw [Int64.toInt_minValue, Int64.toInt_maxValue, InRange, Int.le_sub_one_iff]

namespace Binary64

/-- An integer is moved to the nearest one of the range. -/
theorem toInt_clampInt64 (n : Int) :
    (clampInt64 n).toInt = max (-2 ^ 63) (min n (2 ^ 63 - 1)) := by
  unfold clampInt64
  rw [Int64.toInt_minValue, Int64.toInt_maxValue]
  split
  · rw [Int64.toInt_minValue]
    omega
  · split
    · rw [Int64.toInt_maxValue]
      omega
    · rw [Int64.toInt_ofInt_of_le (by omega) (by omega)]
      omega

/-- Only the integers of the range stay as they are. -/
theorem toInt_clampInt64_eq_iff {n : Int} : (clampInt64 n).toInt = n ↔ InRange n := by
  rw [toInt_clampInt64, InRange]
  omega

theorem clampInt64_toInt (n : Int64) : clampInt64 n.toInt = n :=
  Int64.toInt_inj.1 (toInt_clampInt64_eq_iff.2 (inRange_toInt n))

end Binary64

end SpanJoin
