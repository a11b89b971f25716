import SpanJoin.Proofs.Cell.Casting

/-!
# Texts of cells

Every cell that has a value can be cast to a text. For truth values, integers and texts nothing is
lost by it: the text is cast back to the cell (`cast_back`). A text that is cast to another kind is
read without the white space around it (`convert?_append`), so the text of a truth value or an
integer is cast back with any amount of it on either side as well.
-/

namespace SpanJoin.Cell

variable {v : Cell} {kind : Kind}

theorem cast_varchar (hv : v.isMissing = false) : v.cast .varchar = .ok (text v.display) := by
  rw [cast_eq_ok_iff hv]
  cases v with
  | null => cases hv
  | bool | int | float | text => rfl

/-- White space around a text makes no difference, unless it is to stay a text. -/
theorem convert?_append (hk : kind ≠ .varchar) {before after : String}
    (hb : ∀ c ∈ before.toList, Text.isBlank c = true)
    (ha : ∀ c ∈ after.toList, Text.isBlank c = true) (s : String) :
    (text (before ++ s ++ after)).convert? kind = (text s).convert? kind := by
  have same : Text.trimChars (before ++ s ++ after).toList = Text.trimChars s.toList := by
    rw [String.toList_append, String.toList_append, Text.trimChars_append hb ha]
  cases kind with
  | varchar => exact absurd rfl hk
  | boolean => simp only [convert?, truth?, Text.trim, same]
  | int64 => simp only [convert?, same]
  | float64 => simp only [convert?, same]

/-- The text of a cell stands for the cell. -/
theorem convert?_display (hk : v.kind? = some kind) (hf : kind ≠ .float64) :
    (text v.display).convert? kind = some v := by
  cases v with
  | null => cases hk
  | bool b =>
    obtain rfl := Option.some.inj hk
    cases b <;> decide
  | int n =>
    obtain rfl := Option.some.inj hk
    have numeral := Decimal.numeral_ofInt64 n
    simp only [convert?, display]
    rw [Text.trimChars_eq_self numeral.isBlank, Decimal.toInt64?_eq_some_iff.2 numeral]
    rfl
  | float x =>
    obtain rfl := Option.some.inj hk
    exact absurd rfl hf
  | text s =>
    obtain rfl := Option.some.inj hk
    rfl

/-- **Texts are faithful.** A truth value, an integer of the 64-bit range or a text becomes a text
that is cast back to it, and for truth values and integers white space of any sort and amount may be
added on both sides. -/
theorem cast_back (hk : v.kind? = some kind) (hf : kind ≠ .float64) :
    ∃ s, v.cast .varchar = .ok (text s) ∧ (text s).cast kind = .ok v ∧
      (kind ≠ .varchar → ∀ before after : String,
        (∀ c ∈ before.toList, Text.isBlank c = true) →
        (∀ c ∈ after.toList, Text.isBlank c = true) →
          (text (before ++ s ++ after)).cast kind = .ok v) := by
  have present : v.isMissing = false := by
    cases v with
    | null => cases hk
    | float x => exact absurd (Option.some.inj hk).symm hf
    | bool | int | text => rfl
  have back := convert?_display hk hf
  refine ⟨v.display, cast_varchar present, (cast_eq_ok_iff rfl).2 back, ?_⟩
  intro other before after hb ha
  rw [cast_eq_ok_iff rfl, convert?_append other hb ha, back]

/-- The least integer of the range, with an ideographic space before it and a line break after. -/
theorem cast_back_minValue :
    (int Int64.minValue).kind? = some .int64 ∧ Kind.int64 ≠ .float64 ∧ Kind.int64 ≠ .varchar ∧
    (∀ c ∈ "\u3000".toList, Text.isBlank c = true) ∧
    (∀ c ∈ "\r\n".toList, Text.isBlank c = true) ∧
    (int Int64.minValue).cast .varchar = .ok (text "-9223372036854775808") ∧
    (text "-9223372036854775808").cast .int64 = .ok (int Int64.minValue) ∧
    (text "\u3000-9223372036854775808\r\n").cast .int64 = .ok (int Int64.minValue) := by
  have before : ∀ c ∈ "\u3000".toList, Text.isBlank c = true := List.all_eq_true.1 rfl
  have after : ∀ c ∈ "\r\n".toList, Text.isBlank c = true := List.all_eq_true.1 rfl
  have written : (int Int64.minValue).cast .varchar = .ok (text "-9223372036854775808") := by decide
  obtain ⟨s, hs, back, padded⟩ := cast_back (v := int Int64.minValue) rfl (by decide)
  obtain rfl := text.inj (Except.ok.inj (hs.symm.trans written))
  exact ⟨rfl, by decide, by decide, before, after, written, back,
    padded (by decide) "\u3000" "\r\n" before after⟩

end SpanJoin.Cell
