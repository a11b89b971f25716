import SpanJoin.Proofs.Binary64.Truncation
import SpanJoin.Proofs.Cell.Labels
import SpanJoin.Proofs.Decimal.Reading
import SpanJoin.Proofs.Outcome

/-!
# Casts of cells

A cast gives a cell of the target kind that is missing only if the given one is, and casting once
more changes nothing. There is one exception: a text that spells out that it is not a number gives a
missing cell of kind `float64` (`isStable_iff`). A cast to `int64` gives the integer that the cell
stands for (`Means`): a truth value counts as 0 or 1, a floating-point number loses its fraction,
and a text is a numeral. An integer beyond the signed 64-bit range is refused in a text, and that of
a floating-point number is moved to the nearest end of the range (`cast_int64_eq_ok_iff`).
-/

namespace SpanJoin.Cell

open Binary64

variable {v w : Cell} {target : Kind}

/-! ## Kinds and missing cells -/

theorem cast_of_isMissing (h : v.isMissing = true) (target : Kind) : v.cast target = .ok null :=
  if_pos h

theorem cast_of_convert? (hv : v.isMissing = false) : v.cast target =
    match v.convert? target with
    | some w => .ok w
    | none => .error (.castFailed v target) := by
  rw [cast, hv]
  rfl

theorem cast_eq_ok_iff (hv : v.isMissing = false) :
    v.cast target = .ok w ↔ v.convert? target = some w := by
  rw [cast_of_convert? hv]
  cases v.convert? target <;> simp

/-- A cast that fails reports the cell and the target. -/
theorem reports_cast (v : Cell) (target : Kind) :
    Outcome.Reports (· = .castFailed v target) (v.cast target) := by
  unfold cast
  split
  · exact Outcome.reports_ok _
  · split
    · exact Outcome.reports_ok _
    · exact Outcome.reports_error.2 rfl

/-- What is converted has the target kind. -/
theorem kind?_of_convert? (hv : v.isMissing = false) (h : v.convert? target = some w) :
    w.kind? = some target := by
  cases v with
  | null => cases hv
  | bool b =>
    cases target <;> obtain rfl := Option.some.inj h <;> rfl
  | int n =>
    cases target <;> obtain rfl := Option.some.inj h <;> rfl
  | float x =>
    cases target with
    | int64 =>
      simp only [convert?] at h
      obtain ⟨n, -, rfl⟩ := Option.map_eq_some_iff.1 h
      rfl
    | boolean | float64 | varchar =>
      obtain rfl := Option.some.inj h
      rfl
  | text s =>
    cases target with
    | varchar =>
      obtain rfl := Option.some.inj h
      rfl
    | boolean | int64 | float64 =>
      simp only [convert?] at h
      obtain ⟨y, -, rfl⟩ := Option.map_eq_some_iff.1 h
      rfl

/-- The cell is a text that spells out that it is not a number. -/
def SpellsNaN (v : Cell) : Prop :=
  ∃ s, v = text s ∧ Decimal.SpellsNaN (Text.trimChars s.toList)

theorem SpellsNaN.kind? (h : v.SpellsNaN) : v.kind? = some .varchar := by
  obtain ⟨s, rfl, -⟩ := h
  rfl

/-- What is converted is missing only if it is a text that says so. -/
theorem isMissing_of_convert?_iff (hv : v.isMissing = false) (h : v.convert? target = some w) :
    w.isMissing = true ↔ target = .float64 ∧ v.SpellsNaN := by
  have kind := kind?_of_convert? hv h
  cases w with
  | null => cases kind
  | bool | int | text =>
    obtain rfl := Option.some.inj kind
    simp [isMissing]
  | float y =>
    obtain rfl := Option.some.inj kind
    rw [and_iff_right rfl]
    cases v with
    | null => cases hv
    | bool b =>
      obtain rfl := float.inj (Option.some.inj h)
      refine iff_of_false ?_ fun spells => by cases spells.kind?
      cases b <;> decide
    | int n =>
      obtain rfl := float.inj (Option.some.inj h)
      refine iff_of_false ?_ fun spells => by cases spells.kind?
      rw [isMissing, isNaN_ofInt64]
      decide
    | float x =>
      obtain rfl := float.inj (Option.some.inj h)
      refine iff_of_false ?_ fun spells => by cases spells.kind?
      rw [hv]
      decide
    | text s =>
      simp only [convert?] at h
      obtain ⟨z, hz, hy⟩ := Option.map_eq_some_iff.1 h
      obtain rfl := float.inj hy
      rw [isMissing, Decimal.isNaN_toFloat?_iff hz]
      constructor
      · exact fun spells => ⟨s, rfl, spells⟩
      · rintro ⟨_, hs, spells⟩
        obtain rfl := text.inj hs
        exact spells

/-- A cell of the target kind stays as it is, unless it is missing. -/
theorem cast_of_kind? (hw : w.isMissing = false) (hk : w.kind? = some target) :
    w.cast target = .ok w := by
  rw [cast_eq_ok_iff hw]
  cases w with
  | null => cases hw
  | bool | int | float | text =>
    obtain rfl := Option.some.inj hk
    rfl

/-- The second cell keeps what the first one is: it is missing only if that is, it has the target
kind if it is not, and casting it again changes nothing. -/
structure IsStable (target : Kind) (v w : Cell) : Prop where
  missing : w.isMissing = true ↔ v.isMissing = true
  kind : v.isMissing = false → w.kind? = some target
  again : w.cast target = .ok w

/-- **Casts are stable**, but for texts that spell out that they are not a number. -/
theorem isStable_iff (h : v.cast target = .ok w) :
    IsStable target v w ↔ ¬ (target = .float64 ∧ v.SpellsNaN) := by
  cases hv : v.isMissing with
  | true =>
    obtain rfl := Except.ok.inj ((cast_of_isMissing hv target).symm.trans h)
    refine iff_of_true ⟨iff_of_true rfl hv, fun present => ?_, rfl⟩ ?_
    · rw [hv] at present
      cases present
    · rintro ⟨-, s, rfl, -⟩
      cases hv
  | false =>
    have converted := (cast_eq_ok_iff hv).1 h
    rw [← isMissing_of_convert?_iff hv converted, Bool.not_eq_true]
    have kind := kind?_of_convert? hv converted
    constructor
    · intro stable
      rw [Bool.eq_false_iff, ne_eq, stable.missing, hv]
      decide
    · intro present
      exact ⟨by rw [present, hv], fun _ => kind, cast_of_kind? present kind⟩

/-- A text that is there becomes a missing number, and this becomes `null`. -/
theorem not_isStable_nan :
    (text "NaN").isMissing = false ∧ (text "NaN").cast .float64 = .ok (float nan) ∧
      (float nan).isMissing = true ∧ (float nan).cast .float64 = .ok null ∧
      ¬ IsStable .float64 (text "NaN") (float nan) := by
  refine ⟨rfl, rfl, rfl, rfl, fun h => ?_⟩
  have present := h.missing.1 rfl
  cases present

/-! ## Integers -/

/-- The integer that a cell stands for, of any size: a truth value counts as 0 or 1, the fraction of
a floating-point number is dropped, and a text is read without the white space around it. -/
inductive Means : Cell → ℤ → Prop
  | bool (b : Bool) : Means (bool b) (if b then 1 else 0)
  | int (n : Int64) : Means (int n) n.toInt
  | float {x : Float} {q : ℚ} (h : Binary64.value? x = some (q : Value)) :
      Means (float x) (towardZero q)
  | text {s : String} {i : ℤ} (h : Decimal.Numeral (Text.trimChars s.toList) i) : Means (text s) i

variable {i j : ℤ}

/-- A cell stands for at most one integer. -/
theorem Means.unique (hi : v.Means i) (hj : v.Means j) : i = j := by
  cases hi with
  | bool => cases hj; rfl
  | int => cases hj; rfl
  | float h =>
    cases hj with
    | float h' => rw [WithBotTop.coe_injective (Option.some.inj (h.symm.trans h'))]
  | text h =>
    cases hj with
    | text h' => exact h.unique h'

theorem Means.isMissing (h : v.Means i) : v.isMissing = false := by
  cases h with
  | bool | int | text => rfl
  | float h =>
    rw [Bool.eq_false_iff]
    intro missing
    rw [value?_eq_none_iff.2 missing] at h
    cases h

/-- A cell becomes the integer that it stands for, moved into the signed 64-bit range if it is a
floating-point number and refused beyond the range if it is not. -/
theorem cast_int64_eq_ok_iff (hv : v.isMissing = false) : v.cast .int64 = .ok w ↔
    ∃ i, v.Means i ∧ (v.isFloat = false → InRange i) ∧ w = int (clampInt64 i) := by
  rw [cast_eq_ok_iff hv]
  constructor
  · intro h
    cases v with
    | null => cases hv
    | bool b =>
      obtain rfl := Option.some.inj h
      refine ⟨_, .bool b, fun _ => ?_, ?_⟩ <;> cases b <;> decide
    | int n =>
      obtain rfl := Option.some.inj h
      exact ⟨_, .int n, fun _ => inRange_toInt n, by rw [clampInt64_toInt]⟩
    | float x =>
      simp only [convert?] at h
      obtain ⟨n, hn, rfl⟩ := Option.map_eq_some_iff.1 h
      obtain ⟨q, hq, rfl⟩ := wholePart?_eq_some_iff.1 hn
      exact ⟨_, .float hq, nofun, rfl⟩
    | text s =>
      simp only [convert?] at h
      obtain ⟨n, hn, rfl⟩ := Option.map_eq_some_iff.1 h
      exact ⟨_, .text (Decimal.toInt64?_eq_some_iff.1 hn), fun _ => inRange_toInt n,
        by rw [clampInt64_toInt]⟩
  · rintro ⟨i, means, range, rfl⟩
    cases means with
    | bool b => cases b <;> rfl
    | int n =>
      rw [clampInt64_toInt]
      rfl
    | float h =>
      simp only [convert?]
      rw [wholePart?_eq_some_iff.2 ⟨_, h, rfl⟩]
      rfl
    | text h =>
      simp only [convert?]
      obtain ⟨n, rfl⟩ := (range rfl).exists_toInt
      rw [clampInt64_toInt, Decimal.toInt64?_eq_some_iff.2 h]
      rfl

/-- Where a floating-point number does not lead out of the range, a cell becomes the integer that it
stands for. -/
theorem means_of_cast_int64 (hv : v.isMissing = false) (h : v.cast .int64 = .ok w)
    (fits : ∀ i, v.Means i → v.isFloat = true → InRange i) : ∃ n, v.Means n.toInt ∧ w = int n := by
  obtain ⟨i, means, range, rfl⟩ := (cast_int64_eq_ok_iff hv).1 h
  refine ⟨clampInt64 i, ?_, rfl⟩
  have inRange : InRange i := by
    cases hf : v.isFloat with
    | true => exact fits i means hf
    | false => exact range hf
  rwa [toInt_clampInt64_eq_iff.2 inRange]

/-- A cell is refused if it stands for no integer of the range. -/
theorem cast_int64_eq_error (hv : v.isMissing = false) (h : ∀ i, v.Means i → ¬ InRange i)
    (fits : ∀ i, v.Means i → v.isFloat = true → InRange i) :
    v.cast .int64 = .error (.castFailed v .int64) := by
  cases hw : v.cast .int64 with
  | error e => rw [reports_cast v .int64 e hw]
  | ok w =>
    obtain ⟨n, means, -⟩ := means_of_cast_int64 hv hw fits
    exact absurd (inRange_toInt n) (h _ means)

/-- A floating-point number beyond the range becomes another integer than the one that it stands
for. -/
theorem cast_int64_of_not_inRange {x : Float} (means : (float x).Means i) (h : ¬ InRange i) :
    ∃ n, (float x).cast .int64 = .ok (int n) ∧ n.toInt ≠ i :=
  ⟨clampInt64 i, (cast_int64_eq_ok_iff means.isMissing).2 ⟨i, means, nofun, rfl⟩,
    fun same => h (toInt_clampInt64_eq_iff.1 same)⟩

/-- The floating-point number `2 ^ 63` becomes the greatest integer of the range, and the text of
that number is refused. -/
theorem cast_int64_two_pow :
    (float (Float.ofBits 0x43e0000000000000)).Means (2 ^ 63) ∧
    (float (Float.ofBits 0x43e0000000000000)).cast .int64 = .ok (int 9223372036854775807) ∧
    (text "9223372036854775808").cast .int64 =
      .error (.castFailed (text "9223372036854775808") .int64) := by
  have parts : parts? (Float.ofBits 0x43e0000000000000) = some ⟨false, 2 ^ 52, 11⟩ := by decide
  have value : (⟨false, 2 ^ 52, 11⟩ : Parts).value = (2 ^ 63 : ℕ) := by
    norm_num [Parts.value]
  have means := Means.float (value?_of_parts? parts)
  rw [value, towardZero_of_nonneg (Nat.cast_nonneg _), Int.floor_natCast] at means
  exact ⟨means, by decide, by decide⟩

end SpanJoin.Cell
