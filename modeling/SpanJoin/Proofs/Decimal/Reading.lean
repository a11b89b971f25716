import SpanJoin.Decimal.Floating
import SpanJoin.Decimal.Integer
import SpanJoin.Proofs.Binary64.NotANumber
import SpanJoin.Proofs.Int64
import SpanJoin.Text.Blank

/-!
# Reading numbers

A text is read as an integer exactly if it is a numeral (`Numeral`), a sign or none before at least
one digit, and what comes out is the integer that the numeral denotes; numerals beyond the signed
64-bit range are refused (`toInt64?_eq_some_iff`, `toInt64?_eq_none_iff`). What is written for an
integer is such a numeral for it (`numeral_ofInt64`). A text that is read as a floating-point number
gives a number, unless it spells out that it is none (`isNaN_toFloat?_iff`).
-/

namespace SpanJoin.Decimal

/-! ## Integers -/

/-- The characters are digits, at least one, of a natural number, most significant first. -/
structure Denotes (ds : List Char) (n : ℕ) : Prop where
  nonempty : ds ≠ []
  digits : ∀ c ∈ ds, c.isDigit = true
  value : Nat.ofDigits 10 (ds.map digitValue).reverse = n

/-- The text denotes the integer: a sign or none, then digits. -/
inductive Numeral : List Char → ℤ → Prop
  | unsigned {ds : List Char} {n : ℕ} (h : Denotes ds n) : Numeral ds n
  | plus {ds : List Char} {n : ℕ} (h : Denotes ds n) : Numeral ('+' :: ds) n
  | minus {ds : List Char} {n : ℕ} (h : Denotes ds n) : Numeral ('-' :: ds) (-n)

/-- Reading digits from left to right gives their positional value. -/
theorem ofDigits_eq (ds : List Char) :
    ofDigits ds = Nat.ofDigits 10 (ds.map digitValue).reverse := by
  rw [Nat.ofDigits_eq_foldr, List.foldr_reverse, List.foldl_map]
  simp only [ofDigits, Nat.cast_id, add_comm]

theorem denotes_iff {ds : List Char} {n : ℕ} :
    Denotes ds n ↔ (!ds.isEmpty && ds.all Char.isDigit) = true ∧ ofDigits ds = n := by
  rw [ofDigits_eq, Bool.and_eq_true, List.all_eq_true, Bool.not_eq_true', List.isEmpty_eq_false_iff]
  exact ⟨fun h => ⟨⟨h.nonempty, h.digits⟩, h.value⟩, fun ⟨⟨h₁, h₂⟩, h₃⟩ => ⟨h₁, h₂, h₃⟩⟩

theorem splitSign_of_denotes {ds : List Char} {n : ℕ} (h : Denotes ds n) :
    splitSign ds = (false, ds) := by
  unfold splitSign
  split
  · exact absurd (h.digits _ List.mem_cons_self) (by decide)
  · exact absurd (h.digits _ List.mem_cons_self) (by decide)
  · rfl

/-- A numeral is a sign that can be split off, and digits. -/
theorem numeral_iff {cs : List Char} {i : ℤ} : Numeral cs i ↔
    ∃ n : ℕ, Denotes (splitSign cs).2 n ∧ (if (splitSign cs).1 then -(n : ℤ) else n) = i := by
  constructor
  · rintro (⟨h⟩ | ⟨h⟩ | ⟨h⟩)
    · rw [splitSign_of_denotes h]
      exact ⟨_, h, rfl⟩
    · exact ⟨_, h, rfl⟩
    · exact ⟨_, h, rfl⟩
  · rintro ⟨n, h, rfl⟩
    unfold splitSign at h ⊢
    split at h
    · exact .minus h
    · exact .plus h
    · exact .unsigned h

/-- A numeral denotes one integer. -/
theorem Numeral.unique {cs : List Char} {i j : ℤ} (hi : Numeral cs i) (hj : Numeral cs j) :
    i = j := by
  obtain ⟨m, hm, rfl⟩ := numeral_iff.1 hi
  obtain ⟨n, hn, rfl⟩ := numeral_iff.1 hj
  rw [hm.value.symm.trans hn.value]

/-- Numerals for integers of the range are read. -/
theorem toInt64?_eq_some_iff_exists {cs : List Char} {n : Int64} :
    toInt64? cs = some n ↔ ∃ i, Numeral cs i ∧ InRange i ∧ Int64.ofInt i = n := by
  simp only [numeral_iff, denotes_iff, inRange_iff]
  rcases hs : splitSign cs with ⟨negative, ds⟩
  simp only [toInt64?, hs, Option.ite_none_right_eq_some, Option.some.injEq, Bool.and_eq_true,
    decide_eq_true_eq]
  constructor
  · rintro ⟨⟨⟨digits, low⟩, high⟩, rfl⟩
    exact ⟨_, ⟨_, ⟨digits, rfl⟩, rfl⟩, ⟨low, high⟩, rfl⟩
  · rintro ⟨_, ⟨_, ⟨digits, rfl⟩, rfl⟩, ⟨low, high⟩, rfl⟩
    exact ⟨⟨⟨digits, low⟩, high⟩, rfl⟩

/-- A text is read as an integer exactly if it is a numeral for it. -/
theorem toInt64?_eq_some_iff {cs : List Char} {n : Int64} :
    toInt64? cs = some n ↔ Numeral cs n.toInt := by
  rw [toInt64?_eq_some_iff_exists]
  constructor
  · rintro ⟨i, numeral, range, rfl⟩
    rwa [range.toInt_ofInt]
  · intro numeral
    exact ⟨n.toInt, numeral, inRange_toInt n, Int64.ofInt_toInt n⟩

example : toInt64? ['+', '0', '0', '7'] = some 7 := by decide

/-- A text is refused exactly if it is no numeral, or one beyond the range. -/
theorem toInt64?_eq_none_iff {cs : List Char} :
    toInt64? cs = none ↔ ∀ i, Numeral cs i → ¬ InRange i := by
  rw [Option.eq_none_iff_forall_ne_some]
  constructor
  · intro h i numeral range
    exact h _ (toInt64?_eq_some_iff_exists.2 ⟨i, numeral, range, rfl⟩)
  · intro h n hn
    exact h _ (toInt64?_eq_some_iff.1 hn) (inRange_toInt n)

/-! ## Written integers -/

/-- The digits that are written for a natural number denote it. -/
theorem denotes_digits (n : ℕ) : Denotes (digits n) n where
  nonempty := Nat.toDigits_ne_nil
  digits c hc := Nat.isDigit_of_mem_toDigits (by decide) (by decide) hc
  value := by
    rw [← ofDigits_eq]
    exact Nat.ofDigitChars_eq_foldl.symm.trans Nat.ofDigitChars_ten_toDigits

/-- What is written for an integer is a numeral for it. The least integer of the range is no
exception, since its digits are those of a natural number. -/
theorem numeral_ofInt64 (n : Int64) : Numeral (ofInt64 n).toList n.toInt := by
  have digits := denotes_digits n.toInt.natAbs
  rw [ofInt64, String.toList_ofList]
  split
  · have value : -(n.toInt.natAbs : ℤ) = n.toInt := by omega
    have numeral := Numeral.minus digits
    rwa [value] at numeral
  · have value : (n.toInt.natAbs : ℤ) = n.toInt := by omega
    have numeral := Numeral.unsigned digits
    rwa [value] at numeral

/-- There is no white space in a numeral. -/
theorem Numeral.isBlank {cs : List Char} {i : ℤ} (h : Numeral cs i) :
    ∀ c ∈ cs, Text.isBlank c = false := by
  cases h with
  | unsigned h => exact fun c hc => Text.isBlank_of_isDigit (h.digits c hc)
  | plus h | minus h =>
    intro c hc
    rcases List.mem_cons.1 hc with rfl | hc
    · rfl
    · exact Text.isBlank_of_isDigit (h.digits c hc)

/-! ## Floating-point numbers -/

/-- The text spells out that it is not a number: `nan` in any case, perhaps after a sign. -/
def SpellsNaN (cs : List Char) : Prop := (splitSign cs).2.map Char.toLower = ['n', 'a', 'n']

instance (cs : List Char) : Decidable (SpellsNaN cs) := inferInstanceAs (Decidable (_ = _))

theorem isNaN_nearestFloat (m : ℕ) (e : ℤ) : (nearestFloat m e).isNaN = false := by
  unfold nearestFloat
  dsimp only
  split_ifs
  · rfl
  · rfl
  · rfl
  · exact Binary64.isNaN_ofScientific ..

theorem isNaN_numeral? {cs : List Char} {x : Float} (h : numeral? cs = some x) :
    x.isNaN = false := by
  unfold numeral? at h
  dsimp only at h
  split at h
  · cases h
  · obtain ⟨e, -, rfl⟩ := Option.map_eq_some_iff.1 h
    exact isNaN_nearestFloat ..

theorem isNaN_unsigned?_iff {cs : List Char} {x : Float} (h : unsigned? cs = some x) :
    x.isNaN = true ↔ cs.map Char.toLower = ['n', 'a', 'n'] := by
  have name (s : String) : String.ofList (cs.map Char.toLower) = s ↔
      cs.map Char.toLower = s.toList := by
    rw [← String.toList_inj, String.toList_ofList]
  unfold unsigned? at h
  simp only [name, Bool.or_eq_true, decide_eq_true_eq] at h
  split_ifs at h with infinity nan
  · obtain rfl := Option.some.inj h
    refine iff_of_false (by decide) ?_
    rcases infinity with short | long
    · rw [short]
      decide
    · rw [long]
      decide
  · obtain rfl := Option.some.inj h
    exact iff_of_true rfl nan
  · refine iff_of_false ?_ nan
    rw [isNaN_numeral? h]
    decide

/-- What is read is a number, unless the text spells out that it is none. -/
theorem isNaN_toFloat?_iff {cs : List Char} {x : Float} (h : toFloat? cs = some x) :
    x.isNaN = true ↔ SpellsNaN cs := by
  change (unsigned? (splitSign cs).2).map (fun x => if (splitSign cs).1 then -x else x) = _ at h
  obtain ⟨y, hy, rfl⟩ := Option.map_eq_some_iff.1 h
  rw [SpellsNaN, ← isNaN_unsigned?_iff hy]
  split
  · rw [Binary64.isNaN_neg]
  · rfl

end SpanJoin.Decimal
