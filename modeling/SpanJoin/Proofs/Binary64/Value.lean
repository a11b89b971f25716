import Mathlib
import SpanJoin.Binary64
import SpanJoin.Cell.Order

/-!
# The value of a floating-point number

What is a number stands for a rational number or for one of the infinities (`value?`). For a finite
number that is what its parts say, its significand times a power of two (`value?_of_parts?`).
Floating-point numbers compare as their values do (`orderFloat?_eq`).

The comparison itself is by exponent first and by significand second. That is the order of the
values because numbers are unpacked in a normal form, in which the significand takes 53 bits unless
the exponent is the least one (`Normal`, `standard_unpack`).
-/

namespace SpanJoin.Binary64

open Float.Model UnpackedFloat

/-- A number or one of the two infinities. -/
abbrev Value := WithBotTop ℚ

/-! ## Unpacked numbers -/

/-- The value of an unpacked number. -/
def unpackedValue? : UnpackedFloat → Option Value
  | .infinity .positive => some ⊤
  | .infinity .negative => some ⊥
  | .notANumber => none
  | .zero _ => some (0 : ℚ)
  | .finite .positive m e _ => some (m * 2 ^ e : ℚ)
  | .finite .negative m e _ => some (-(m * 2 ^ e) : ℚ)

/-- The number of a sign, a significand and an exponent. -/
def unpackedOf (s : Sign) (m : ℕ) (e : ℤ) : UnpackedFloat :=
  if h : m = 0 then .zero s else .finite s m e (Nat.pos_of_ne_zero h)

/-- A magnitude with a sign. -/
def signed (s : Sign) (q : ℚ) : ℚ :=
  match s with
  | .positive => q
  | .negative => -q

theorem unpackedValue?_unpackedOf (s : Sign) (m : ℕ) (e : ℤ) :
    unpackedValue? (unpackedOf s m e) = some (signed s (m * 2 ^ e) : Value) := by
  unfold unpackedOf
  split_ifs with h
  · cases s <;> simp [unpackedValue?, signed, h]
  · cases s <;> rfl

/-- The significand takes 53 bits, and fewer only at the least exponent. -/
structure Normal (m : ℕ) (e : ℤ) : Prop where
  lt : m < 2 ^ 53
  least_le : -1074 ≤ e
  large_or_least : 2 ^ 52 ≤ m ∨ e = -1074

theorem mul_zpow_lt {m : ℕ} {e f : ℤ} (hm : m < 2 ^ 53) (h : e < f) :
    (m * 2 ^ e : ℚ) < 2 ^ 52 * 2 ^ f := by
  have : (m : ℚ) < 2 ^ 53 := by exact_mod_cast hm
  calc (m * 2 ^ e : ℚ) < 2 ^ 53 * 2 ^ e := by gcongr
    _ = 2 ^ 52 * 2 ^ (e + 1) := by rw [zpow_add_one₀ two_ne_zero]; ring
    _ ≤ 2 ^ 52 * 2 ^ f := by
        gcongr
        · norm_num
        · omega

/-- A greater exponent makes for a greater number. -/
theorem mul_zpow_lt_mul_zpow {m n : ℕ} {e f : ℤ} (hm : Normal m e) (hn : Normal n f)
    (h : e < f) : (m * 2 ^ e : ℚ) < n * 2 ^ f := by
  have large : 2 ^ 52 ≤ n := hn.large_or_least.resolve_right fun hf => by
    have := hm.least_le
    omega
  have : (2 ^ 52 : ℚ) ≤ n := by exact_mod_cast large
  calc (m * 2 ^ e : ℚ) < 2 ^ 52 * 2 ^ f := mul_zpow_lt hm.lt h
    _ ≤ n * 2 ^ f := by gcongr

/-- The numbers compare as their exponents do or, at the same exponent, as their significands do. -/
theorem cmp_mul_zpow {m n : ℕ} {e f : ℤ} (hm : Normal m e) (hn : Normal n f) :
    cmp (m * 2 ^ e : ℚ) (n * 2 ^ f) = (compare e f).then (compare m n) := by
  rcases lt_trichotomy e f with h | rfl | h
  · rw [compare_lt_iff_lt.2 h, (cmp_eq_lt_iff _ _).2 (mul_zpow_lt_mul_zpow hm hn h)]
    rfl
  · rw [compare_eq_iff_eq.2 rfl, cmp_mul_pos_right (by positivity),
      Nat.strictMono_cast.cmp_map_eq, cmp_eq_compare]
    rfl
  · rw [compare_gt_iff_gt.2 h, (cmp_eq_gt_iff _ _).2 (mul_zpow_lt_mul_zpow hn hm h)]
    rfl

theorem cmp_coe (q r : ℚ) : cmp (q : Value) (r : Value) = cmp q r :=
  WithBotTop.coe_strictMono.cmp_map_eq q r

theorem cmp_neg (q r : ℚ) : cmp (-q) (-r) = (cmp q r).swap := by
  have anti : StrictAnti fun q : ℚ => -q := fun _ _ h => neg_lt_neg h
  rw [anti.cmp_map_eq q r, cmp_swap]

/-- A finite unpacked number is normal. -/
def Standard : UnpackedFloat → Prop
  | .finite _ m e _ => Normal m e
  | _ => True

theorem standard_unpackedOf {m : ℕ} {e : ℤ} (s : Sign) (h : Normal m e) :
    Standard (unpackedOf s m e) := by
  unfold unpackedOf
  split
  · trivial
  · exact h

/-- Unpacked numbers compare as their values do. -/
theorem compare_eq {u v : UnpackedFloat} (hu : Standard u) (hv : Standard v) :
    u.compare v = (unpackedValue? u).bind fun a => (unpackedValue? v).map (cmp a) := by
  have pos {m : ℕ} (h : 0 < m) (e : ℤ) : (0 : ℚ) < m * 2 ^ e := by positivity
  rcases u with ⟨_ | _⟩ | _ | _ | ⟨_ | _, m, e, hm⟩ <;>
    rcases v with ⟨_ | _⟩ | _ | _ | ⟨_ | _, n, f, hn⟩ <;>
    simp only [UnpackedFloat.compare, unpackedValue?, Option.bind_some, Option.map_some,
      Option.bind_none, Option.map_none, cmp_coe, cmp_neg]
  case finite.negative.finite.negative | finite.positive.finite.positive =>
    rw [cmp_mul_zpow hu hv]
  -- everywhere else the signs decide
  all_goals refine congrArg some (Ordering.Compares.cmp_eq ?_).symm
  case finite.negative.finite.positive => exact (neg_neg_of_pos (pos hm e)).trans (pos hn f)
  case finite.positive.finite.negative => exact (neg_neg_of_pos (pos hn f)).trans (pos hm e)
  all_goals simp [Ordering.Compares, compare, bot_lt_iff_ne_bot, lt_top_iff_ne_top, *]

/-! ## Bits -/

/-- The sign of a sign bit. -/
def signOf (negative : Bool) : Sign := if negative then .negative else .positive

section

variable (b : BitVec Format.binary64.numBits)

theorem toNat_unpackMantissa : (unpackMantissa b).toNat = b.toNat % 2 ^ 52 := by
  rw [unpackMantissa_def, BitVec.extractLsb'_toNat, Nat.shiftRight_zero]

theorem toNat_unpackExponent : (unpackExponent b).toNat = b.toNat / 2 ^ 52 % 2 ^ 11 := by
  rw [unpackExponent_def, BitVec.extractLsb'_toNat, Nat.shiftRight_eq_div_pow]

theorem ofBitVec_unpackSign :
    Sign.ofBitVec (unpackSign b) = signOf (decide (b.toNat / 2 ^ 63 = 1)) := by
  have lt : b.toNat / 2 ^ 63 < 2 := by
    have := b.isLt
    norm_num at this ⊢
    omega
  have toNat : (unpackSign b).toNat = b.toNat / 2 ^ 63 := by
    rw [unpackSign_def, BitVec.extractLsb'_toNat, Nat.shiftRight_eq_div_pow]
    exact Nat.mod_eq_of_lt lt
  have zero : unpackSign b = 0#1 ↔ ¬ b.toNat / 2 ^ 63 = 1 := by
    rw [← BitVec.toNat_inj, toNat]
    change _ = 0 ↔ _
    omega
  simp only [Sign.ofBitVec, signOf, zero, ite_not, decide_eq_true_eq]

/-- Unpacking by the fields. -/
theorem unpack_of_fields {s : Sign} {e : BitVec 11} {m : BitVec 52}
    (hs : Sign.ofBitVec (unpackSign b) = s) (he : unpackExponent b = e)
    (hm : unpackMantissa b = m) : UnpackedFloat.unpack .binary64 b =
      if e = -1#11 then if m = 0#52 then .infinity s else .notANumber
      else if e = 0#11 then unpackedOf s m.toNat (-1074)
      else unpackedOf s (2 ^ 52 + m.toNat) (e.toNat - 1075) := by
  have zero : m = 0#52 ↔ m.toNat = 0 := by
    rw [← BitVec.toNat_inj]
    rfl
  have leading : (1#1 ++ m).toNat = 2 ^ 52 + m.toNat := by
    rw [BitVec.toNat_append, ← Nat.shiftLeft_add_eq_or_of_lt (BitVec.isLt _), Nat.shiftLeft_eq]
    rfl
  subst hs he hm
  unfold UnpackedFloat.unpack unpackedOf
  simp only [zero, leading]
  split_ifs with h₁ h₂ h₃ h₄
  · rfl
  · rfl
  · rfl
  · rw [h₃]
    rfl
  · omega
  · rfl

/-- Unpacking by arithmetic on the bits. -/
theorem unpack_eq (negative : Bool) (biased fraction : ℕ)
    (hs : decide (b.toNat / 2 ^ 63 = 1) = negative) (he : b.toNat / 2 ^ 52 % 2 ^ 11 = biased)
    (hm : b.toNat % 2 ^ 52 = fraction) : UnpackedFloat.unpack .binary64 b =
      if biased = 2047 then
        if fraction = 0 then .infinity (signOf negative) else .notANumber
      else if biased = 0 then unpackedOf (signOf negative) fraction (-1074)
      else unpackedOf (signOf negative) (2 ^ 52 + fraction) (biased - 1075) := by
  have ones : unpackExponent b = -1#11 ↔ biased = 2047 := by
    rw [← BitVec.toNat_inj, toNat_unpackExponent, he]
    rfl
  have zeros : unpackExponent b = 0#11 ↔ biased = 0 := by
    rw [← BitVec.toNat_inj, toNat_unpackExponent, he]
    rfl
  have zero : unpackMantissa b = 0#52 ↔ fraction = 0 := by
    rw [← BitVec.toNat_inj, toNat_unpackMantissa, hm]
    rfl
  rw [unpack_of_fields b rfl rfl rfl]
  simp only [ones, zeros, zero, ofBitVec_unpackSign, hs, toNat_unpackMantissa, hm,
    toNat_unpackExponent, he]

end

theorem unpack_of_parts?_eq_none {x : Float} (h : parts? x = none) :
    x.toModel.unpack = .notANumber ∨ ∃ s, x.toModel.unpack = .infinity s := by
  unfold parts? at h
  extract_lets bits negative biased fraction at h
  have unpack := unpack_eq x.toModel.toBits.toBitVec negative biased fraction rfl rfl rfl
  by_cases h₁ : biased = 2047
  · rw [if_pos h₁] at unpack
    unfold Float.Model.unpack
    rw [unpack]
    split
    · exact .inr ⟨_, rfl⟩
    · exact .inl rfl
  · rw [if_neg h₁] at h
    split at h <;> cases h

theorem unpack_of_parts? {x : Float} {p : Parts} (h : parts? x = some p) :
    Normal p.significand p.exponent ∧
      x.toModel.unpack = unpackedOf (signOf p.negative) p.significand p.exponent := by
  unfold parts? at h
  extract_lets bits negative biased fraction at h
  have unpack := unpack_eq x.toModel.toBits.toBitVec negative biased fraction rfl rfl rfl
  have fraction_lt : fraction < 2 ^ 52 := Nat.mod_lt _ (Nat.two_pow_pos 52)
  by_cases h₁ : biased = 2047
  · rw [if_pos h₁] at h
    cases h
  rw [if_neg h₁] at h unpack
  by_cases h₂ : biased = 0
  · rw [if_pos h₂] at h unpack
    obtain rfl := Option.some.inj h
    exact ⟨⟨fraction_lt.trans (by norm_num), le_rfl, .inr rfl⟩, unpack⟩
  · rw [if_neg h₂] at h unpack
    obtain rfl := Option.some.inj h
    have significand_lt : 2 ^ 52 + fraction < 2 ^ 53 := by omega
    have least_le : -1074 ≤ (biased : ℤ) - 1075 := by omega
    exact ⟨⟨significand_lt, least_le, .inl (Nat.le_add_right _ _)⟩, unpack⟩

theorem standard_unpack (x : Float) : Standard x.toModel.unpack := by
  cases h : parts? x with
  | none => obtain h | ⟨s, h⟩ := unpack_of_parts?_eq_none h <;> rw [h] <;> trivial
  | some p =>
    obtain ⟨normal, h⟩ := unpack_of_parts? h
    rw [h]
    exact standard_unpackedOf _ normal

/-! ## Floating-point numbers -/

/-- The value of a floating-point number, unless it is not a number. -/
def value? (x : Float) : Option Value := unpackedValue? x.toModel.unpack

/-- The number that the parts stand for. -/
def Parts.value (p : Parts) : ℚ :=
  (if p.negative then -1 else 1) * (p.significand * 2 ^ p.exponent)

/-- The value of a finite number is that of its parts. -/
theorem value?_of_parts? {x : Float} {p : Parts} (h : parts? x = some p) :
    value? x = some (p.value : Value) := by
  rw [value?, (unpack_of_parts? h).2, unpackedValue?_unpackedOf, Parts.value]
  cases p.negative <;> simp [signOf, signed]

theorem value?_eq_none_iff {x : Float} : value? x = none ↔ x.isNaN = true := by
  show _ ↔ x.toModel.unpack.isNaN = true
  unfold value?
  rcases x.toModel.unpack with ⟨_ | _⟩ | _ | _ | ⟨_ | _, m, e, hm⟩ <;>
    simp [unpackedValue?, UnpackedFloat.isNaN]

section

variable {x y : Float} {a b : Value}

theorem compare_unpack (ha : value? x = some a) (hb : value? y = some b) :
    x.toModel.unpack.compare y.toModel.unpack = some (cmp a b) := by
  rw [compare_eq (standard_unpack x) (standard_unpack y)]
  change (value? x).bind _ = _
  rw [ha, Option.bind_some]
  change (value? y).map _ = _
  rw [hb, Option.map_some]

theorem lt_iff (ha : value? x = some a) (hb : value? y = some b) : x < y ↔ a < b := by
  have unfolded : x < y ↔ x.toModel.unpack.compare y.toModel.unpack = some .lt := by
    change decide ((_ == some Ordering.lt) = true) = true ↔ _
    simp
  rw [unfolded, compare_unpack ha hb, Option.some.injEq, cmp_eq_lt_iff]

theorem beq_iff_value (ha : value? x = some a) (hb : value? y = some b) :
    (x == y) = true ↔ a = b := by
  have unfolded : (x == y) = true ↔ x.toModel.unpack.compare y.toModel.unpack = some .eq := by
    change (_ == some Ordering.eq) = true ↔ _
    simp
  rw [unfolded, compare_unpack ha hb, Option.some.injEq, cmp_eq_eq_iff]

/-- Floating-point numbers compare as their values do. -/
theorem orderFloat?_eq (ha : value? x = some a) (hb : value? y = some b) :
    Cell.orderFloat? x y = some (cmp a b) := by
  unfold Cell.orderFloat?
  rcases lt_trichotomy a b with h | rfl | h
  · rw [if_pos ((lt_iff ha hb).2 h), (cmp_eq_lt_iff a b).2 h]
  · rw [if_neg (mt (lt_iff ha hb).1 (lt_irrefl a)), if_neg (mt (lt_iff hb ha).1 (lt_irrefl a)),
      if_pos ((beq_iff_value ha hb).2 rfl), cmp_self_eq_eq]
  · rw [if_neg (mt (lt_iff ha hb).1 h.not_gt), if_pos ((lt_iff hb ha).2 h),
      (cmp_eq_gt_iff a b).2 h]

end

end SpanJoin.Binary64
