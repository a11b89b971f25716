import SpanJoin.Proofs.Binary64.Value

/-!
# Integers as floating-point numbers

A 64-bit integer is turned into a floating-point number by rounding (`ofInt64`). What comes out is
one of the two multiples of a power of two between which the integer lies (`Beside`). All
floating-point numbers of this size are multiples of the same power of two, so that rounding never
takes an integer past a floating-point number (`ofInt64_rounded`): what is at most the integer is at
most the rounded one, and what is at least the integer is at least the rounded one. Up to `2 ^ 53`
nothing is lost.
-/

namespace SpanJoin.Binary64

open Float.Model UnpackedFloat

/-! ## Packing -/

theorem unpack_packComponents (s : Sign) {e : BitVec 11} (m : BitVec 52) (he : e ≠ -1#11) :
    UnpackedFloat.unpack .binary64 (packComponents .binary64 s e m) =
      if e = 0#11 then unpackedOf s m.toNat (-1074)
      else unpackedOf s (2 ^ 52 + m.toNat) (e.toNat - 1075) := by
  rw [unpack_of_fields _ (s := s) (e := e) (m := m)
    (by rw [unpackSign_packComponents, Sign.ofBitVec_toBitVec])
    (unpackExponent_packComponents ..) (unpackMantissa_packComponents ..), if_neg he]

/-- A normal number is packed into the fields of its exponent and its significand, and the exponent
field of a small significand is zero. -/
theorem pack_unpackedOf (s : Sign) {m : ℕ} {e : ℤ} (h₀ : m ≠ 0) (h : Normal m e) (he : e ≤ 971) :
    UnpackedFloat.pack .binary64 (unpackedOf s m e) = packComponents .binary64 s
      (if 2 ^ 52 ≤ m then BitVec.ofNat 11 (e + 1075).toNat else 0#11) (BitVec.ofNat 52 m) := by
  have least_le := h.least_le
  have full : m.log2 + 1 = 53 ↔ 2 ^ 52 ≤ m := by
    rw [Nat.succ_inj, Nat.log2_eq_iff h₀]
    exact and_iff_left h.lt
  have biased : (e + 1023 + 52).toNat = (e + 1075).toNat := by
    rw [add_assoc]
    rfl
  rw [show unpackedOf s m e = .finite s m e (Nat.pos_of_ne_zero h₀) from dif_neg h₀]
  unfold UnpackedFloat.pack
  change (if 2048 ≤ (e + 1023 + 52).toNat + 1 then _ else
    if m.log2 + 1 = 53 then packComponents .binary64 s (BitVec.ofNat 11 (e + 1023 + 52).toNat) _
    else _) = _
  rw [if_neg (by omega), biased, ← apply_ite (packComponents .binary64 s · _)]
  simp only [full]

/-- A normal number in the range is packed without loss. -/
theorem unpack_pack (s : Sign) {m : ℕ} {e : ℤ} (h : Normal m e) (he : e ≤ 971) :
    UnpackedFloat.unpack .binary64 (UnpackedFloat.pack .binary64 (unpackedOf s m e)) =
      unpackedOf s m e := by
  by_cases h₀ : m = 0
  · simp [unpackedOf, h₀, UnpackedFloat.pack]
  have lt := h.lt
  have least_le := h.least_le
  have mod : m % 2 ^ 52 = if 2 ^ 52 ≤ m then m - 2 ^ 52 else m := by
    split_ifs <;> omega
  rw [pack_unpackedOf s h₀ h he]
  by_cases large : 2 ^ 52 ≤ m
  · have exponent : (BitVec.ofNat 11 (e + 1075).toNat).toNat = (e + 1075).toNat :=
      (BitVec.toNat_ofNat _ _).trans (Nat.mod_eq_of_lt (by omega))
    have ones : BitVec.ofNat 11 (e + 1075).toNat ≠ -1#11 := fun h => by
      have : (e + 1075).toNat = 2047 := exponent.symm.trans (congrArg BitVec.toNat h)
      omega
    have zeros : BitVec.ofNat 11 (e + 1075).toNat ≠ 0#11 := fun h => by
      have : (e + 1075).toNat = 0 := exponent.symm.trans (congrArg BitVec.toNat h)
      omega
    rw [if_pos large, unpack_packComponents s _ ones, if_neg zeros, exponent, BitVec.toNat_ofNat,
      mod, if_pos large, Nat.add_sub_of_le large, Int.toNat_of_nonneg (by omega),
      Int.add_sub_cancel]
  · have least : e = -1074 := h.large_or_least.resolve_left large
    rw [if_neg large, unpack_packComponents s _ (by decide), if_pos rfl, BitVec.toNat_ofNat, mod,
      if_neg large, least]

/-! ## Cutting off digits -/

/-- What is left of a significand when its last `k` digits are cut off. -/
def shifted (m k : ℕ) : ExtendedMantissa := ExtendedMantissa.ofMantissaAndAccuracy m .exact >>> k

theorem shifted_zero (m : ℕ) : shifted m 0 = ⟨m, false, false⟩ := rfl

theorem shifted_succ (m k : ℕ) : shifted m (k + 1) = (shifted m k).shiftRightOne := rfl

theorem shifted_mantissa (m k : ℕ) : (shifted m k).mantissa = m / 2 ^ k := by
  induction k with
  | zero => rw [shifted_zero, Nat.pow_zero, Nat.div_one]
  | succ k ih =>
    rw [shifted_succ, ExtendedMantissa.shiftRightOne, ih, Nat.div_div_eq_div_mul, pow_succ]

/-- Zeros can be cut off without loss. -/
theorem shifted_of_dvd {m k : ℕ} (h : 2 ^ k ∣ m) : shifted m k = ⟨m / 2 ^ k, false, false⟩ := by
  induction k with
  | zero => rw [shifted_zero, Nat.pow_zero, Nat.div_one]
  | succ k ih =>
    have even : m / 2 ^ k % 2 = 0 := by
      obtain ⟨j, rfl⟩ := h
      rw [pow_succ, mul_assoc, Nat.mul_div_cancel_left _ (Nat.two_pow_pos k), Nat.mul_mod_right]
    rw [shifted_succ, ih ((pow_dvd_pow 2 k.le_succ).trans h), ExtendedMantissa.shiftRightOne,
      Nat.div_div_eq_div_mul, pow_succ]
    simp [even]

theorem roundedMantissa_between (em : ExtendedMantissa) :
    em.mantissa ≤ em.roundedMantissa ∧ em.roundedMantissa ≤ em.mantissa + 1 := by
  rcases em with ⟨m, _ | _, _ | _⟩ <;>
    simp only [ExtendedMantissa.roundedMantissa, ExtendedMantissa.accuracy,
      Accuracy.roundToNearestEven] <;> omega

/-- With `k` digits cut off, a significand is rounded to the quotient or to the next number, and to
the quotient if the digits are zeros. -/
theorem roundedMantissa_shifted (m k : ℕ) :
    m / 2 ^ k ≤ (shifted m k).roundedMantissa ∧ (shifted m k).roundedMantissa ≤ m / 2 ^ k + 1 ∧
      (2 ^ k ∣ m → (shifted m k).roundedMantissa = m / 2 ^ k) := by
  obtain ⟨low, high⟩ := roundedMantissa_between (shifted m k)
  rw [shifted_mantissa] at low high
  refine ⟨low, high, fun h => ?_⟩
  rw [shifted_of_dvd h]
  rfl

/-! ## Rounding -/

/-- The exponent of the unit to which `m * 2 ^ e` is rounded. -/
def roundedExponent (m : ℕ) (e : ℤ) : ℤ := max (m.log2 - 52 + e) (-1074)

theorem targetExponent_eq (m : ℕ) (e : ℤ) :
    Format.binary64.targetExponent (totalExponent m e) = roundedExponent m e := by
  unfold Format.targetExponent totalExponent roundedExponent
  change max ((m.log2 : ℤ) + 1 + e - 53) (-1074) = _
  congr 1
  ring

theorem shiftToTargetExponent_eq (m : ℕ) (e : ℤ) :
    shiftToTargetExponent .binary64 m e .exact =
      (shifted m (roundedExponent m e - e).toNat, e + (roundedExponent m e - e).toNat) := by
  unfold shiftToTargetExponent shiftToExponent
  rw [targetExponent_eq]
  rfl

/-- A significand of up to 53 bits stays as it is, and `2 ^ 53` loses its last digit. -/
theorem shiftToTargetExponent_carry {r : ℕ} {t : ℤ} (hr : r ≤ 2 ^ 53) (ht : -1074 ≤ t)
    (large : 2 ^ 52 ≤ r ∨ t = -1074) :
    ∃ m e, shiftToTargetExponent .binary64 r t .exact = (⟨m, false, false⟩, e) ∧ Normal m e ∧
      e ≤ t + 1 ∧ (m * 2 ^ e : ℚ) = r * 2 ^ t := by
  rw [shiftToTargetExponent_eq]
  rcases hr.lt_or_eq with lt | rfl
  · have log : r.log2 < 53 := by
      by_cases h₀ : r = 0
      · rw [h₀]
        decide
      · exact (Nat.log2_lt h₀).2 lt
    have shift : (roundedExponent r t - t).toNat = 0 := by
      unfold roundedExponent
      omega
    rw [shift, shifted_zero]
    exact ⟨r, t, by simp, ⟨lt, ht, large⟩, by omega, rfl⟩
  · have shift : (roundedExponent (2 ^ 53) t - t).toNat = 1 := by
      unfold roundedExponent
      rw [Nat.log2_two_pow]
      omega
    rw [shift, shifted_of_dvd (pow_dvd_pow 2 (by norm_num))]
    refine ⟨2 ^ 52, t + 1, rfl, ⟨by norm_num, by omega, .inl le_rfl⟩, le_rfl, ?_⟩
    rw [zpow_add_one₀ two_ne_zero]
    push_cast
    ring

/-- Rounding gives a multiple of the unit `2 ^ t` next to the number. -/
theorem roundWithAccuracy_eq (s : Sign) {m : ℕ} {e t : ℤ} (hm : m ≠ 0)
    (ht : roundedExponent m e = t) {k : ℕ} (hk : e + k = t) :
    ∃ r n f, m / 2 ^ k ≤ r ∧ r ≤ m / 2 ^ k + 1 ∧ (2 ^ k ∣ m → r = m / 2 ^ k) ∧
      Normal n f ∧ f ≤ t + 1 ∧ (n * 2 ^ f : ℚ) = r * 2 ^ t ∧
      roundWithAccuracy .binary64 s m e .exact = unpackedOf s n f := by
  obtain ⟨low, high, exact⟩ := roundedMantissa_shifted m k
  have shift : (roundedExponent m e - e).toNat = k := by omega
  have log : m.log2 < 53 + k := by
    unfold roundedExponent at ht
    omega
  have lt : m / 2 ^ k < 2 ^ 53 := by
    rw [Nat.div_lt_iff_lt_mul (Nat.two_pow_pos k), ← pow_add]
    exact (Nat.log2_lt hm).1 log
  have large : 2 ^ 52 ≤ (shifted m k).roundedMantissa ∨ t = -1074 := by
    by_cases h : t = -1074
    · exact .inr h
    · refine .inl (le_trans ?_ low)
      rw [Nat.le_div_iff_mul_le (Nat.two_pow_pos k), ← pow_add]
      refine (Nat.le_log2 hm).1 ?_
      unfold roundedExponent at ht
      omega
  have least_le : -1074 ≤ t := ht ▸ le_max_right _ _
  obtain ⟨n, f, carry, normal, le, value⟩ := shiftToTargetExponent_carry (t := t)
    (high.trans lt) least_le large
  refine ⟨_, n, f, low, high, exact, normal, le, value, ?_⟩
  unfold roundWithAccuracy
  simp only [shiftToTargetExponent_eq m e, shift, hk, carry]
  rfl

/-! ## Natural numbers -/

/-- The number is the natural one, or one of the two multiples of a power of two between which the
natural number lies, both having a significand of 53 bits. -/
def Beside (n : ℕ) (v : ℚ) : Prop :=
  v = n ∨ ∃ t r : ℕ, 2 ^ 52 ≤ n / 2 ^ t ∧ n / 2 ^ t ≤ r ∧ r ≤ n / 2 ^ t + 1 ∧ ¬ 2 ^ t ∣ n ∧
    v = r * 2 ^ t

theorem log2_mul_two_pow {n : ℕ} (hn : n ≠ 0) (k : ℕ) : (n * 2 ^ k).log2 = n.log2 + k := by
  have h₀ : n * 2 ^ k ≠ 0 := by positivity
  rw [Nat.log2_eq_iff h₀, pow_add, Nat.add_right_comm, pow_add]
  exact ⟨Nat.mul_le_mul_right _ (Nat.log2_self_le hn),
    Nat.mul_lt_mul_of_pos_right Nat.lt_log2_self (Nat.two_pow_pos k)⟩

/-- A number from `2 ^ 53` on is rounded. -/
theorem ofScientific_eq {n : ℕ} (hn : 2 ^ 53 ≤ n) (hb : n < 2 ^ 64) :
    ∃ m e, UnpackedFloat.ofScientific .binary64 n 0 = unpackedOf .positive m e ∧ Normal m e ∧
      e ≤ 971 ∧ Beside n (m * 2 ^ e) := by
  have h₀ : n ≠ 0 := by omega
  have log_low : 53 ≤ n.log2 := (Nat.le_log2 h₀).2 hn
  have log_high : n.log2 < 64 := (Nat.log2_lt h₀).2 hb
  obtain ⟨t, ht⟩ := Nat.exists_eq_add_of_le (show 52 ≤ n.log2 by omega)
  have unfolded : UnpackedFloat.ofScientific .binary64 n 0 =
      roundWithAccuracy .binary64 .positive (n * 2 ^ 53) (-53) .exact := by
    unfold UnpackedFloat.ofScientific
    have bits : Format.binary64.mantissaBits = 53 := rfl
    rw [dif_neg h₀, if_neg (by norm_num), if_neg (by norm_num), if_pos le_rfl, UnpackedFloat.mul]
    simp only [bits, Nat.shiftLeft_eq, Int.toNat_zero, pow_zero, mul_one, add_zero]
    rfl
  have exponent : roundedExponent (n * 2 ^ 53) (-53) = t := by
    unfold roundedExponent
    rw [log2_mul_two_pow h₀]
    omega
  have quotient : n * 2 ^ 53 / 2 ^ (t + 53) = n / 2 ^ t := by
    rw [pow_add, Nat.mul_div_mul_right _ _ (Nat.two_pow_pos 53)]
  have divides : 2 ^ (t + 53) ∣ n * 2 ^ 53 ↔ 2 ^ t ∣ n := by
    rw [pow_add, Nat.mul_dvd_mul_iff_right (Nat.two_pow_pos 53)]
  obtain ⟨r, m, e, low, high, exact, normal, le, value, rounded⟩ :=
    roundWithAccuracy_eq .positive (by positivity) exponent (k := t + 53) (by push_cast; ring)
  rw [quotient] at low high exact
  refine ⟨m, e, unfolded.trans rounded, normal, by omega, ?_⟩
  rw [value, zpow_natCast]
  by_cases h : 2 ^ t ∣ n
  · refine .inl ?_
    rw [exact (divides.2 h)]
    exact_mod_cast Nat.div_mul_cancel h
  · refine .inr ⟨t, r, ?_, low, high, h, rfl⟩
    rw [Nat.le_div_iff_mul_le (Nat.two_pow_pos t), ← pow_add, ← ht]
    exact Nat.log2_self_le h₀

/-- A normal number stays the same number if it is multiplied by one. -/
theorem mul_one_eq {m : ℕ} {e : ℤ} (h : Normal m e) (one_pos : 0 < 2 ^ 52) :
    ∃ n f, UnpackedFloat.mul .binary64 (unpackedOf .positive m e)
        (.finite .positive (2 ^ 52) (-52) one_pos) = unpackedOf .positive n f ∧ Normal n f ∧
      f ≤ e + 1 ∧ (n * 2 ^ f : ℚ) = m * 2 ^ e := by
  by_cases h₀ : m = 0
  · refine ⟨m, e, ?_, h, by omega, rfl⟩
    simp only [unpackedOf, dif_pos h₀, UnpackedFloat.mul]
    rfl
  · have unfolded : UnpackedFloat.mul .binary64 (unpackedOf .positive m e)
        (.finite .positive (2 ^ 52) (-52) one_pos) =
        roundWithAccuracy .binary64 .positive (m * 2 ^ 52) (e + -52) .exact := by
      simp only [unpackedOf, dif_neg h₀, UnpackedFloat.mul]
      rfl
    have exponent : roundedExponent (m * 2 ^ 52) (e + -52) = e := by
      have log : m.log2 < 53 := (Nat.log2_lt h₀).2 h.lt
      have least_le := h.least_le
      unfold roundedExponent
      rw [log2_mul_two_pow h₀]
      rcases h.large_or_least with large | rfl
      · have := (Nat.le_log2 h₀).2 large
        omega
      · omega
    obtain ⟨r, n, f, -, -, exact, normal, le, value, rounded⟩ :=
      roundWithAccuracy_eq .positive (by positivity) exponent (k := 52) (by push_cast; ring)
    refine ⟨n, f, unfolded.trans rounded, normal, le, ?_⟩
    rw [value, exact (Nat.dvd_mul_left _ _), Nat.mul_div_cancel _ (Nat.two_pow_pos 52)]

/-- A number below `2 ^ 53` is taken over as it is. -/
theorem ofNat_eq {n : ℕ} (hn : n < 2 ^ 53) :
    ∃ m e, UnpackedFloat.ofNat .binary64 n = unpackedOf .positive m e ∧ Normal m e ∧ e ≤ 1 ∧
      (m * 2 ^ e : ℚ) = n := by
  by_cases h₀ : n = 0
  · subst h₀
    exact ⟨0, -1074, rfl, ⟨by norm_num, le_rfl, .inr rfl⟩, by norm_num, by simp⟩
  · have log : n.log2 ≤ 52 := Nat.le_of_lt_succ ((Nat.log2_lt h₀).2 hn)
    obtain ⟨s, hs⟩ := Nat.exists_eq_add_of_le log
    have exponent₀ : roundedExponent n 0 = -s := by
      unfold roundedExponent
      omega
    have unfolded : UnpackedFloat.ofNat .binary64 n =
        roundWithAccuracy .binary64 .positive (n * 2 ^ s) (-s) .exact := by
      have positive : compare (n : ℤ) 0 = .gt := compare_gt_iff_gt.2 (by omega)
      unfold UnpackedFloat.ofNat UnpackedFloat.ofInt UnpackedFloat.normalize
      rw [positive]
      simp only [UnpackedFloat.round, targetExponent_eq, Int.toNat_natCast, exponent₀,
        decreaseExponent, Nat.shiftLeft_eq]
      simp
    have exponent : roundedExponent (n * 2 ^ s) (-s) = -s := by
      unfold roundedExponent
      rw [log2_mul_two_pow h₀]
      omega
    obtain ⟨r, m, e, -, -, exact, normal, le, value, rounded⟩ :=
      roundWithAccuracy_eq .positive (by positivity) exponent (k := 0) (by simp)
    refine ⟨m, e, unfolded.trans rounded, normal, by omega, ?_⟩
    rw [value, exact (one_dvd _), Nat.pow_zero, Nat.div_one, zpow_neg, zpow_natCast]
    push_cast
    field_simp

/-- What is packed is unpacked again. -/
theorem unpack_model_pack (s : Sign) {m : ℕ} {e : ℤ} (h : Normal m e) (he : e ≤ 971) :
    (Float.Model.pack (unpackedOf s m e)).unpack = unpackedOf s m e :=
  unpack_pack s h he

theorem unpack_one : Float.exactlyRepresentablePowersOfTen[0].toModel.unpack =
    .finite .positive (2 ^ 52) (-52) (Nat.two_pow_pos 52) :=
  rfl

/-- A natural number of 64 bits becomes a number beside it. -/
theorem unpack_ofNat {n : ℕ} (hb : n < 2 ^ 64) :
    ∃ m e, (Float.ofNat n).toModel.unpack = unpackedOf .positive m e ∧ Normal m e ∧ e ≤ 971 ∧
      Beside n (m * 2 ^ e) := by
  by_cases hn : n < 2 ^ 53
  · obtain ⟨m, e, eq, normal, le, value⟩ := ofNat_eq hn
    obtain ⟨m', e', eq', normal', le', value'⟩ := mul_one_eq normal (Nat.two_pow_pos 52)
    refine ⟨m', e', ?_, normal', by omega, .inl (value'.trans value)⟩
    have unfolded : (Float.ofNat n).toModel = Float.Model.pack (UnpackedFloat.mul .binary64
        (Float.Model.pack (UnpackedFloat.ofNat .binary64 n.toUInt64.toNat)).unpack
        Float.exactlyRepresentablePowersOfTen[0].toModel.unpack) := by
      change (Float.ofScientific n false 0).toModel = _
      unfold Float.ofScientific
      rw [dif_pos ⟨hn, by norm_num⟩]
      rfl
    have toNat : n.toUInt64.toNat = n := Nat.mod_eq_of_lt hb
    rw [unfolded, toNat, eq, unpack_model_pack _ normal (by omega), unpack_one, eq',
      unpack_model_pack _ normal' (by omega)]
  · obtain ⟨m, e, eq, normal, le, beside⟩ := ofScientific_eq (not_lt.1 hn) hb
    refine ⟨m, e, ?_, normal, le, beside⟩
    have unfolded : (Float.ofNat n).toModel =
        Float.Model.pack (UnpackedFloat.ofScientific .binary64 n 0) := by
      change (Float.ofScientific n false 0).toModel = _
      unfold Float.ofScientific
      rw [dif_neg fun h => hn h.1]
      rfl
    rw [unfolded, eq, unpack_model_pack _ normal le]

/-! ## Between numbers -/

/-- The number is a finite floating-point number, up to the size of its exponent. -/
def Representable (w : ℚ) : Prop := ∃ s m e, Normal m e ∧ w = signed s (m * 2 ^ e)

theorem representable_of_unpackedValue? {u : UnpackedFloat} (hu : Standard u) {w : ℚ}
    (h : unpackedValue? u = some (w : Value)) : Representable w := by
  rcases u with ⟨_ | _⟩ | _ | s | ⟨_ | _, m, e, hm⟩ <;>
    simp only [unpackedValue?, Option.some.injEq, reduceCtorEq] at h
  · exact absurd h.symm (WithBotTop.coe_ne_bot w)
  · exact absurd h.symm (WithBotTop.coe_ne_top w)
  · obtain rfl := WithBotTop.coe_injective h
    exact ⟨.positive, 0, -1074, ⟨by norm_num, le_rfl, .inr rfl⟩, by simp [signed]⟩
  · obtain rfl := WithBotTop.coe_injective h
    exact ⟨.negative, m, e, hu, rfl⟩
  · obtain rfl := WithBotTop.coe_injective h
    exact ⟨.positive, m, e, hu, rfl⟩

theorem representable_of_value? {x : Float} {w : ℚ} (h : value? x = some (w : Value)) :
    Representable w :=
  representable_of_unpackedValue? (standard_unpack x) h

theorem Representable.neg {w : ℚ} (h : Representable w) : Representable (-w) := by
  obtain ⟨s, m, e, normal, rfl⟩ := h
  cases s
  · exact ⟨.positive, m, e, normal, neg_neg _⟩
  · exact ⟨.negative, m, e, normal, rfl⟩

/-- A magnitude is a multiple of a unit, or it is less than `2 ^ 52` units. -/
theorem Normal.eq_mul_or_lt {m : ℕ} {e : ℤ} (h : Normal m e) (t : ℕ) :
    (∃ j : ℕ, (m * 2 ^ e : ℚ) = j * 2 ^ t) ∨ (m * 2 ^ e : ℚ) < 2 ^ 52 * 2 ^ t := by
  rcases lt_or_ge e t with lt | le
  · have := mul_zpow_lt h.lt lt
    rw [zpow_natCast] at this
    exact .inr this
  · obtain ⟨k, rfl⟩ := Int.exists_add_of_le le
    refine .inl ⟨m * 2 ^ k, ?_⟩
    rw [zpow_add₀ two_ne_zero, zpow_natCast, zpow_natCast]
    push_cast
    ring

/-- The number `v` is on the same side of every floating-point number as the integer, and up to
`2 ^ 53` it is the integer itself. -/
structure Rounded (n : ℤ) (v : ℚ) : Prop where
  le : ∀ {w : ℚ}, Representable w → w ≤ n → w ≤ v
  ge : ∀ {w : ℚ}, Representable w → n ≤ w → v ≤ w
  exact : |n| ≤ 2 ^ 53 → v = n

theorem Rounded.neg {n : ℤ} {v : ℚ} (h : Rounded n v) : Rounded (-n) (-v) where
  le hw le := le_neg.1 (h.ge hw.neg (by push_cast at le; linarith))
  ge hw ge := neg_le.2 (h.le hw.neg (by push_cast at ge; linarith))
  exact small := by
    rw [h.exact (by rwa [abs_neg] at small)]
    push_cast
    rfl

section

variable {n : ℕ} {v : ℚ} (h : Beside n v) {m : ℕ} {e : ℤ} (normal : Normal m e)

include h

theorem Beside.nonneg : 0 ≤ v := by
  rcases h with rfl | ⟨t, r, -, -, -, -, rfl⟩ <;> positivity

/-- Up to `2 ^ 53` nothing is rounded: the unit is 1, or 2 at `2 ^ 53` itself. -/
theorem Beside.exact (small : n ≤ 2 ^ 53) : v = n := by
  rcases h with rfl | ⟨t, r, large, -, -, between, -⟩
  · rfl
  have le : 2 ^ 52 * 2 ^ t ≤ n := (Nat.le_div_iff_mul_le (Nat.two_pow_pos t)).1 large
  have t_le : t ≤ 1 := by
    by_contra h
    have := Nat.pow_le_pow_right two_pos (show 2 ≤ t by omega)
    omega
  interval_cases t
  · exact absurd (one_dvd n) between
  · exact absurd ⟨2 ^ 52, by omega⟩ between

include normal

theorem Beside.le (le : (m * 2 ^ e : ℚ) ≤ n) : (m * 2 ^ e : ℚ) ≤ v := by
  rcases h with rfl | ⟨t, r, large, low, -, -, rfl⟩
  · exact le
  obtain ⟨j, hj⟩ | few := normal.eq_mul_or_lt t
  · -- the multiple is at most the one below the number
    rw [hj] at le ⊢
    have le_floor : j ≤ n / 2 ^ t := by
      rw [Nat.le_div_iff_mul_le (Nat.two_pow_pos t)]
      exact_mod_cast le
    have : (j : ℚ) ≤ r := by exact_mod_cast le_floor.trans low
    gcongr
  · have : (2 ^ 52 : ℚ) ≤ r := by exact_mod_cast large.trans low
    calc (m * 2 ^ e : ℚ) ≤ 2 ^ 52 * 2 ^ t := few.le
      _ ≤ r * 2 ^ t := by gcongr

theorem Beside.ge (ge : (n : ℚ) ≤ m * 2 ^ e) : v ≤ m * 2 ^ e := by
  rcases h with rfl | ⟨t, r, large, -, high, between, rfl⟩
  · exact ge
  have units_le : (2 ^ 52 * 2 ^ t : ℚ) ≤ n := by
    rw [Nat.le_div_iff_mul_le (Nat.two_pow_pos t)] at large
    exact_mod_cast large
  -- the multiple is at least the one above the number
  obtain ⟨j, hj⟩ := (normal.eq_mul_or_lt t).resolve_right (not_lt.2 (units_le.trans ge))
  rw [hj] at ge ⊢
  have lt : n / 2 ^ t < j := by
    rw [Nat.div_lt_iff_lt_mul (Nat.two_pow_pos t)]
    refine lt_of_le_of_ne (by exact_mod_cast ge) fun h => between ?_
    exact Dvd.intro_left j h.symm
  have : (r : ℚ) ≤ j := by exact_mod_cast high.trans lt
  gcongr

end

theorem Beside.rounded {n : ℕ} {v : ℚ} (h : Beside n v) : Rounded n v where
  le hw le := by
    obtain ⟨_ | _, m, e, normal, rfl⟩ := hw
    · exact (neg_nonpos.2 (by positivity)).trans h.nonneg
    · exact h.le normal (by exact_mod_cast le)
  ge hw ge := by
    obtain ⟨_ | _, m, e, normal, rfl⟩ := hw
    · -- of the natural numbers only zero is at most a negative one
      have few : n ≤ 2 ^ 53 := by
        have : (0 : ℚ) ≤ m * 2 ^ e := by positivity
        have zero : (n : ℚ) ≤ (0 : ℕ) := by
          simp only [signed, Int.cast_natCast] at ge
          push_cast
          linarith
        exact (Nat.cast_le.1 zero).trans (Nat.zero_le _)
      rw [h.exact few]
      exact ge
    · exact h.ge normal (by exact_mod_cast ge)
  exact small := by
    rw [Nat.abs_cast] at small
    exact h.exact (by exact_mod_cast small)

theorem unpackedOf_neg (s : Sign) (m : ℕ) (e : ℤ) :
    (unpackedOf s m e).neg = unpackedOf (-s) m e := by
  unfold unpackedOf
  split_ifs <;> rfl

/-- A 64-bit integer is rounded to a number on the same side of every floating-point number. -/
theorem ofInt64_rounded (n : Int64) :
    ∃ v : ℚ, value? (ofInt64 n) = some (v : Value) ∧ Rounded n.toInt v := by
  have low := n.le_toInt
  have high := n.toInt_lt
  unfold ofInt64
  generalize n.toInt = i at low high
  rcases i with k | k
  · rw [Int.ofNat_eq_natCast] at high
    obtain ⟨m, e, eq, normal, le, beside⟩ := unpack_ofNat (n := k) (by omega)
    refine ⟨m * 2 ^ e, ?_, beside.rounded⟩
    change unpackedValue? (Float.ofNat k).toModel.unpack = _
    rw [eq, unpackedValue?_unpackedOf]
    rfl
  · obtain ⟨m, e, eq, normal, le, beside⟩ := unpack_ofNat (n := k + 1) (by omega)
    refine ⟨-(m * 2 ^ e), ?_, beside.rounded.neg⟩
    change unpackedValue? (Float.Model.pack (Float.ofNat (k + 1)).toModel.unpack.neg).unpack = _
    rw [eq, unpackedOf_neg, unpack_model_pack _ normal le, unpackedValue?_unpackedOf]
    rfl

end SpanJoin.Binary64
